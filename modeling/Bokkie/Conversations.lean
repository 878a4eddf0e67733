import Bokkie.Serving
import Bokkie.TokenUsage

/-!
# Bots, their turns and what the gateway keeps of them

The rows a turn is started from, the turns counted against an allowance, the live turns and the
Bots' locks, and the calls on them: each is one statement, one transaction or one look under a lock,
so that tasks interleave between them. What every count came to is kept to be told from.
-/

namespace Bokkie

namespace Conversations

open Tasks
open Accounts (nextId Limits)
open Scheduler (RunState RunTrigger)
open TokenUsage (Allowance UsageRow)

def MAX_MESSAGE_CHARS : ℕ := 20000

/-- How many of the latest messages a fresh thread carries over. -/
def CARRYOVER_MESSAGES : ℕ := 20

/-! ## Rows -/

inductive MessageKind where
  | text
  | marker
deriving DecidableEq

structure AccountRow where
  id : ℕ
  displayName : String
  disabled : Bool
  limits : Limits

/-- An account found by its id. -/
abbrev OwnAccount (user : ℕ) : Type := {row : AccountRow // row.id = user}

structure BotRow where
  id : ℕ
  user : ℕ
  name : String
  label : String
  description : String
  profileRevision : ℕ
  profileSentRevision : ℕ
  threadId : Option String
  threadGrants : GrantSet
  grants : GrantSet
  carryoverMarker : Option ℕ
  refusedReason : Option Refusal

structure MessageRow where
  id : ℕ
  user : ℕ
  bot : ℕ
  author : Author
  kind : MessageKind
  text : String

structure RoutineRow where
  id : ℕ
  user : ℕ
  bot : ℕ
  name : String
  prompt : String
  paused : Bool

structure RunRow where
  id : ℕ
  user : ℕ
  bot : ℕ
  routine : ℕ
  trigger : RunTrigger
  scheduledFor : ℤ
  queuedAt : ℤ
  state : RunState
  reason : Option String
  threadId : Option String
  turnId : Option String
  deadlinePassed : Bool

/-- A turn counted against its user's allowance. -/
structure TurnRow extends TokenUsage.TurnRow where
  id : ℕ

/-- A running turn. -/
structure ActiveTurn where
  user : ℕ
  threadId : String
  turnId : String
deriving DecidableEq

/-- What is kept in memory of the running turns. -/
structure Live where
  turns : List (ℕ × ActiveTurn)
  /-- Each Bot's steered messages that their turn ended without answering. -/
  owed : List (ℕ × List ℕ)
  finished : List String
  ended : List (ℕ × String × TurnStatus)

def Live.new : Live := ⟨[], [], [], []⟩

/-- What became of a counted turn. -/
inductive Standing where
  /-- Its task has yet to settle it. -/
  | held
  | kept
  | released
  /-- The gateway stopped first. -/
  | cut
deriving DecidableEq

/-- A turn that was counted, by which task, and the request sent for it. -/
structure Count where
  row : TurnRow
  task : ℕ
  request : Option ℕ
  standing : Standing

/-- A thread that a Bot was given, and the marker that begins it when it replaced another. -/
structure BotThread where
  bot : ℕ
  threadId : String
  marker : Option ℕ

structure World where
  supervisor : Supervisor
  clock : ℤ
  accounts : List AccountRow
  bots : List BotRow
  messages : List MessageRow
  notes : List (ℕ × String)
  routines : List RoutineRow
  runs : List RunRow
  turns : List TurnRow
  usage : List UsageRow
  threads : List BotThread
  live : Live
  /-- The Bots' send locks that are held, each with its task. -/
  sends : List ((ℕ × ℕ) × ℕ)
  /-- The runs that the scheduler's tasks hold. -/
  claims : List ℕ
  counts : List Count

namespace World

def account (w : World) (user : ℕ) : Option (OwnAccount user) :=
  (w.accounts.find? (·.id = user)).attach.map fun row =>
    ⟨row.1, by simpa using List.find?_some row.2⟩

def bot (w : World) (user id : ℕ) : Option BotRow :=
  w.bots.find? fun b => b.id = id ∧ b.user = user

/-- The user's limits, none without an account. -/
def limits (w : World) (user : ℕ) : Limits := (w.account user).elim ⟨none, none⟩ (·.1.limits)

def allowance (w : World) (user : ℕ) : Except Failure Allowance :=
  TokenUsage.Tables.allowance ⟨[], [], w.turns.map (·.toTurnRow), w.usage⟩ w.clock user
    (w.limits user)

/-- The Bot is mid-turn, or about to start one for steered messages. -/
def isWorking (w : World) (bot : ℕ) : Bool :=
  (w.live.turns.lookup bot).isSome || (w.live.owed.lookup bot).isSome

def modifyBot (w : World) (user id : ℕ) (f : BotRow → BotRow) : World :=
  { w with bots := w.bots.map fun b => if b.id = id ∧ b.user = user then f b else b }

def modifyRun (w : World) (user id : ℕ) (states : List RunState) (f : RunRow → RunRow) : World :=
  { w with
    runs := w.runs.map fun r => if r.id = id ∧ r.user = user ∧ r.state ∈ states then f r else r }

/-- Counts a turn, if the user's allowance has one left. -/
def reserveTurn (w : World) (task user bot : ℕ) : Except Failure (Option ℕ) × World :=
  match w.allowance user with
  | .error failure => (.error failure, w)
  | .ok allowance =>
    if allowance.exhausted then (.ok none, w)
    else if (w.bot user bot).isSome then
      let row : TurnRow := ⟨⟨user, bot, w.clock⟩, nextId (w.turns.map (·.id))⟩
      (.ok (some row.id), { w with
        turns := w.turns ++ [row]
        counts := w.counts ++ [⟨row, task, none, .held⟩] })
    else (.error .notFound, w)

/-- Settles the count that a task holds. -/
def settle (w : World) (task : ℕ) (f : Count → Count) : World :=
  { w with counts := w.counts.map fun c => if c.task = task ∧ c.standing = .held then f c else c }

/-- Takes back a counted turn. -/
def releaseTurn (w : World) (task user turn : ℕ) : World :=
  { w with turns := w.turns.filter fun r => !(r.id = turn ∧ r.user = user) }.settle task fun c =>
    { c with standing := .released }

/-- A request for a turn is of the count its task holds. One that Codex answered, or whose answer is
lost, keeps it. -/
def noted (w : World) (task : ℕ) : {β : Type} → CodexCall β → β → World
  | _, .turnStart _ _, request => w.settle task fun c => { c with request := some request }
  | _, .turnStarted _, .ok _ => w.settle task fun c => { c with standing := .kept }
  | _, .turnStarted _, .error e =>
    if e.hadNoEffect then w else w.settle task fun c => { c with standing := .kept }
  | _, _, _ => w

def insertMessage (w : World) (user bot : ℕ) (author : Author) (kind : MessageKind)
    (text : String) : MessageRow × World :=
  let row : MessageRow := ⟨nextId (w.messages.map (·.id)), user, bot, author, kind, text⟩
  (row, { w with messages := w.messages ++ [row] })

/-- The latest text messages before one, and apart from another, oldest first. -/
def recentText (w : World) (user bot before except : ℕ) : List (Author × List Char) :=
  let said := w.messages.filter fun m =>
    m.bot = bot ∧ m.user = user ∧ m.id < before ∧ m.kind = .text ∧ m.id ≠ except
  (said.drop (said.length - CARRYOVER_MESSAGES)).map fun m => (m.author, m.text.toList)

/-- Records the Bot's first thread. -/
def setThread (w : World) (user bot : ℕ) (threadId : String) (revision : ℕ) (grants : GrantSet) :
    World :=
  if (w.bot user bot).any (·.threadId.isNone) then
    let thread : BotThread := ⟨bot, threadId, none⟩
    { w with threads := w.threads ++ [thread] }.modifyBot user bot fun b =>
      { b with
        threadId := some threadId, profileSentRevision := revision, threadGrants := grants }
  else w

/-- Replaces the Bot's thread by a fresh one, begun by a marker, if the old one is still its
thread. -/
def replaceThread (w : World) (user bot : ℕ) (old new : String) (revision : ℕ)
    (grants : GrantSet) (marker : String) : Bool × World :=
  if (w.bot user bot).any (·.threadId = some old) then
    let (row, w) := w.insertMessage user bot .bot .marker marker
    let thread : BotThread := ⟨bot, new, some row.id⟩
    (true, { w with threads := w.threads ++ [thread] }.modifyBot user bot fun b =>
      { b with
        threadId := some new, profileSentRevision := revision, threadGrants := grants
        carryoverMarker := some row.id })
  else (false, w)

/-- A turn of the Bot began, unless it ended already. -/
def began (w : World) (bot : ℕ) (turn : ActiveTurn) : World :=
  let owed := w.live.owed.filter fun entry => entry.1 ≠ bot
  let turns := if turn.turnId ∈ w.live.finished then w.live.turns
    else (bot, turn) :: w.live.turns.filter fun entry => entry.1 ≠ bot
  { w with live := { w.live with owed, turns } }

/-- How a turn of the user's that recently finished ended. -/
def turnEnd (w : World) (user : ℕ) (turnId : String) : Option TurnStatus :=
  (w.live.ended.find? fun entry => entry.1 = user ∧ entry.2.1 = turnId).map (·.2.2)

/-- How a run ends whose turn ended so. -/
def runEnd (run : RunRow) : TurnStatus → RunState × Option String
  | .completed | .inProgress => (.succeeded, none)
  | .interrupted =>
    if run.deadlinePassed then
      (.interrupted, some "The run took longer than 15 minutes, so it was stopped")
    else (.interrupted, some "Stopped before it finished")
  | .failed => (.failed, some "The Bot's turn failed")

/-- Marks a waiting run running in its turn. If the turn has ended, so does the run. -/
def setRunning (w : World) (user run : ℕ) (threadId turnId : String) : World :=
  let w := w.modifyRun user run [.waiting] fun r =>
    { r with state := .running, threadId := some threadId, turnId := some turnId, reason := none }
  match w.turnEnd user turnId with
  | none => w
  | some status =>
    w.modifyRun user run [.running] fun r =>
      if r.turnId = some turnId then
        { r with state := (runEnd r status).1, reason := (runEnd r status).2 }
      else r

/-- Ends a run that is still waiting. -/
def endWaiting (w : World) (user run : ℕ) (state : RunState) (reason : Option String) : World :=
  w.modifyRun user run [.waiting] fun r => { r with state, reason }

/-- The threads that app servers started. -/
def startedThreads (w : World) : List String :=
  w.supervisor.journal.filterMap fun exchange =>
    match exchange with
    | .started _ _ _ session => some session.threadId
    | _ => none

/-- Codex starts each thread under an id of its own. -/
def isNewThread (w : World) : {β : Type} → CodexCall β → β → Bool
  | _, .threadStart _ _ _, .ok session => session.threadId ∉ w.startedThreads
  | _, _, _ => true

/-- A stopped gateway ends the runs it left running, and settles no count. -/
def restart (w : World) : World :=
  { w with
    supervisor := w.supervisor.restart
    live := .new
    sends := []
    claims := []
    runs := w.runs.map fun r =>
      if r.state = .running then
        { r with state := .failed, reason := some "Bokkie restarted during the run" }
      else r
    counts := w.counts.map fun c => if c.standing = .held then { c with standing := .cut } else c }

end World

/-! ## Calls -/

/-- One call of a task on the gateway's rows or its memory. -/
inductive GatewayCall : Type → Type
  -- the Bots' send locks, and the runs the scheduler holds
  | lockBot (user bot : ℕ) : GatewayCall Unit
  | tryLockBot (user bot : ℕ) : GatewayCall Bool
  | unlockBot (user bot : ℕ) : GatewayCall Unit
  | letGo (run : ℕ) : GatewayCall Unit
  -- rows
  | account (user : ℕ) : GatewayCall (Option (OwnAccount user))
  | bot (user bot : ℕ) : GatewayCall (Option BotRow)
  | message (user id : ℕ) : GatewayCall (Option MessageRow)
  | run (user id : ℕ) : GatewayCall (Option RunRow)
  | routineOfUser (user id : ℕ) : GatewayCall (Option RoutineRow)
  | recentText (user bot before except : ℕ) : GatewayCall (List (Author × List Char))
  | notes (user bot : ℕ) : GatewayCall String
  | insertMessage (user bot : ℕ) (author : Author) (kind : MessageKind) (text : String) :
      GatewayCall MessageRow
  | setThread (user bot : ℕ) (threadId : String) (revision : ℕ) (grants : GrantSet) :
      GatewayCall Unit
  /-- The switch and its marker commit together. -/
  | replaceThread (user bot : ℕ) (old new : String) (revision : ℕ) (grants : GrantSet)
      (marker : String) : GatewayCall Bool
  | setProfileSent (user bot revision : ℕ) : GatewayCall Unit
  | clearCarryover (user bot marker : ℕ) : GatewayCall Unit
  | setRefused (user bot : ℕ) (reason : Refusal) : GatewayCall Unit
  | setGrants (user bot : ℕ) (grants : GrantSet) : GatewayCall Unit
  | setRunning (user run : ℕ) (threadId turnId : String) : GatewayCall Unit
  | endWaiting (user run : ℕ) (state : RunState) (reason : Option String) : GatewayCall Unit
  | wait (user run : ℕ) (reason : String) : GatewayCall Unit
  -- the allowance
  | allowance (user : ℕ) : GatewayCall (Except Failure Allowance)
  | reserveTurn (user bot : ℕ) : GatewayCall (Except Failure (Option ℕ))
  | releaseTurn (user turn : ℕ) : GatewayCall Unit
  -- the live turns
  | activeTurn (bot : ℕ) : GatewayCall (Option ActiveTurn)
  | isWorking (bot : ℕ) : GatewayCall Bool
  /-- The Bot's owed messages, taken, and whether a turn of it runs. -/
  | takeOwed (bot : ℕ) : GatewayCall (Option (List ℕ) × Bool)
  | began (bot : ℕ) (turn : ActiveTurn) : GatewayCall Unit

/-- One call of a task, on Codex or in the gateway. -/
inductive Call (β : Type) : Type
  | codex (op : CodexCall β)
  | gateway (op : GatewayCall β)

/-- The answer to a task's call in the gateway, and what the call does. -/
def World.answer (w : World) (task : ℕ) {β : Type} : GatewayCall β → Option (β × World)
  | .lockBot user bot =>
    if (w.sends.lookup (user, bot)).isNone then
      some ((), { w with sends := ((user, bot), task) :: w.sends })
    else none
  | .tryLockBot user bot =>
    if (w.sends.lookup (user, bot)).isNone then
      some (true, { w with sends := ((user, bot), task) :: w.sends })
    else some (false, w)
  | .unlockBot user bot =>
    some ((), { w with sends := w.sends.filter fun entry => entry.1 ≠ (user, bot) })
  | .letGo run => some ((), { w with claims := w.claims.filter (· ≠ run) })
  | .account user => some (w.account user, w)
  | .bot user bot => some (w.bot user bot, w)
  | .message user id => some (w.messages.find? fun m => m.id = id ∧ m.user = user, w)
  | .run user id => some (w.runs.find? fun r => r.id = id ∧ r.user = user, w)
  | .routineOfUser user id => some (w.routines.find? fun r => r.id = id ∧ r.user = user, w)
  | .recentText user bot before except => some (w.recentText user bot before except, w)
  | .notes _ bot => some ((w.notes.lookup bot).getD "", w)
  | .insertMessage user bot author kind text => some (w.insertMessage user bot author kind text)
  | .setThread user bot threadId revision grants =>
    some ((), w.setThread user bot threadId revision grants)
  | .replaceThread user bot old new revision grants marker =>
    some (w.replaceThread user bot old new revision grants marker)
  | .setProfileSent user bot revision =>
    some ((), w.modifyBot user bot fun b =>
      { b with profileSentRevision := max b.profileSentRevision revision })
  | .clearCarryover user bot marker =>
    some ((), w.modifyBot user bot fun b =>
      { b with
        carryoverMarker := if b.carryoverMarker = some marker then none else b.carryoverMarker })
  | .setRefused user bot reason =>
    some ((), w.modifyBot user bot fun b => { b with refusedReason := some reason })
  | .setGrants user bot grants => some ((), w.modifyBot user bot fun b => { b with grants })
  | .setRunning user run threadId turnId => some ((), w.setRunning user run threadId turnId)
  | .endWaiting user run state reason => some ((), w.endWaiting user run state reason)
  | .wait user run reason =>
    some ((), w.modifyRun user run [.waiting] fun r => { r with reason := some reason })
  | .allowance user => some (w.allowance user, w)
  | .reserveTurn user bot => some (w.reserveTurn task user bot)
  | .releaseTurn user turn => some ((), w.releaseTurn task user turn)
  | .activeTurn bot => some (w.live.turns.lookup bot, w)
  | .isWorking bot => some (w.isWorking bot, w)
  | .takeOwed bot =>
    some ((w.live.owed.lookup bot, (w.live.turns.lookup bot).isSome), { w with
      live := { w.live with owed := w.live.owed.filter fun entry => entry.1 ≠ bot } })
  | .began bot turn => some ((), w.began bot turn)

def Call.answer (task : ℕ) (choice : Choice) (w : World) {β : Type} :
    Call β → Option (β × World)
  | .codex op =>
    match op.answer task choice w.supervisor with
    | none => none
    | some (r, supervisor) =>
      if w.isNewThread op r then some (r, { w with supervisor }.noted task op r) else none
  | .gateway op => w.answer task op

end Conversations

end Bokkie
