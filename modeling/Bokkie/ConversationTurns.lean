import Bokkie.Conversations

/-!
# How turns start

A turn starts from a user's message, a routine's run or steered messages that were not answered.
Each counts the turn, prepares the Bot's thread, and has Codex start the turn, which carries the
Bot's changed profile and what a fresh thread goes on from. A message to a Bot that is mid-turn
steers the turn instead, unless that ended first.
-/

namespace Bokkie

namespace Conversations

open Tasks
open Accounts (nextId)
open Scheduler (RunState RunTrigger)
open TokenUsage (Allowance)

/-- Work in the gateway that can fail. -/
abbrev Work := ExceptT Failure (Prog Call)

namespace Work

variable {α : Type}

def call (op : GatewayCall α) : Work α := ExceptT.lift (Prog.perform (.gateway op))

def fallible (op : GatewayCall (Except Failure α)) : Work α :=
  ExceptT.mk (Prog.perform (.gateway op))

def codex (work : Codex α) : Work (Except CodexError α) :=
  ExceptT.lift (work.run.lift fun op => .codex op)

/-- What is done while the Bot's send lock is held; it is let go however that ends. -/
def holdingBot (user bot : ℕ) (work : Work α) : Work α := do
  call (.lockBot user bot)
  let done ← ExceptT.lift work.run
  call (.unlockBot user bot)
  ExceptT.mk (pure done)

/-- A failure takes the counted turn back. -/
def releasing (user reserved : ℕ) (work : Work α) : Work α := do
  match ← ExceptT.lift work.run with
  | .ok a => return a
  | .error failure =>
    call (.releaseTurn user reserved)
    throw failure

end Work

open Work

def limitReached : Failure :=
  ⟨.limitReached, "You have used your allowance for now. It refills over the next day or week"⟩

def unavailable : CodexError → Failure
  | .refused _ | .threadRefused _ => .unavailable
      "This Bot is unavailable because a safety check failed. An admin has been told"
  | .signedOut _ => .unavailable ("ChatGPT is signed out for the household, so the Bots cannot " ++
      "reply. Ask an admin to sign it in")
  | .appServer _ | .rejected _ => .unavailable "The Bots' runtime is unavailable"

/-- The user's weekly tokens are used up. -/
def tokensUsedUp (allowance : Allowance) : Bool :=
  allowance.limits.weeklyTokens.any (· ≤ allowance.tokensThisWeek)

/-- `store::check_message`. -/
@[irreducible] def checkMessage (text : String) : Except Failure String :=
  let text := trim text
  if text.length < 1 ∨ MAX_MESSAGE_CHARS < text.length then
    .error (.invalid s!"A message needs 1 to {MAX_MESSAGE_CHARS} characters")
  else if text.toList.any fun c => isControl c ∧ c ≠ '\n' ∧ c ≠ '\t' then
    .error (.invalid "A message has control characters")
  else .ok text

def instructions (owner : String) (bot : BotRow) (grants : GrantSet) : Instructions :=
  ⟨owner, bot.name, bot.label, bot.description, grants⟩

/-- Every grant with its name, in order. -/
def grantNames : List (Grant × String) :=
  [(.notes, "notes"), (.seen, "seen"), (.notify, "notify"), (.webSearch, "web.search"),
    (.webFetch, "web.fetch")]

def capabilitiesMarker (grants : GrantSet) : String :=
  let names := (grantNames.filter fun entry => entry.1 ∈ grants).map (·.2)
  if names.isEmpty then "Capabilities changed: none"
  else "Capabilities changed: " ++ ", ".intercalate names

/-- The profile a turn carries when it changed since the Bot was last sent it. -/
def profileContext (bot : BotRow) : Option Context :=
  if bot.profileSentRevision < bot.profileRevision then
    some [.profile bot.name bot.label bot.description]
  else none

/-- Both fragments, when there are any. -/
def merged : Option Context → Option Context → Option Context
  | some a, some b => some (a ++ b)
  | a, b => a.or b

def steerClientId (message : ℕ) : String := s!"bokkie-message-{message}"

/-- Passes a result through, recording a safety refusal on the Bot. -/
def refusing {α : Type} (user : ℕ) (bot : BotRow) (result : Except CodexError α) : Work α := do
  match result with
  | .ok a => return a
  | .error (.threadRefused refusal) =>
    call (.setRefused user bot.id refusal)
    throw (unavailable (.threadRefused refusal))
  | .error e => throw (unavailable e)

/-- Makes sure the thread passed its checks on this app server. -/
def serveThread (runtime : AppServer) (owner : AccountRow) (bot : BotRow) (threadId : String) :
    Work Unit := do
  match ← codex (runtime.isServed threadId) with
  | .ok true => return
  | _ =>
    let resumed ← codex (runtime.resumeThread threadId
      (instructions owner.displayName bot bot.threadGrants) bot.threadGrants)
    let _ ← refusing owner.id bot resumed

/-- The thread a new turn of the Bot runs on: its own, if it started with the Bot's grants, or else
a fresh one with them. -/
def prepareThread (runtime : AppServer) (owner : AccountRow) (bot : BotRow) : Work String := do
  if let some threadId := bot.threadId then
    if bot.threadGrants = bot.grants then
      serveThread runtime owner bot threadId
      return threadId
  let started ← codex (runtime.startThread (instructions owner.displayName bot bot.grants)
    bot.grants)
  let started ← refusing owner.id bot started
  match bot.threadId with
  | none =>
    call (.setThread owner.id bot.id started.threadId bot.profileRevision bot.grants)
    return started.threadId
  | some old =>
    if ← call (.replaceThread owner.id bot.id old started.threadId bot.profileRevision bot.grants
        (capabilitiesMarker bot.grants)) then
      return started.threadId
    else throw .internal

/-- What the Bot's next turn must carry, with the marker that begins its fresh thread, if that has
had no turn yet. -/
def pendingCarryover (owner : AccountRow) (botId sending : ℕ) :
    Work (Option (ℕ × Carryover)) := do
  match ← call (.bot owner.id botId) with
  | none => throw .notFound
  | some bot =>
    match bot.carryoverMarker with
    | none => return none
    | some marker =>
      let messages ← call (.recentText owner.id bot.id marker sending)
      if .notes ∈ bot.grants then
        let notes ← call (.notes owner.id bot.id)
        return some (marker, ⟨owner.displayName, marker, some notes, messages⟩)
      return some (marker, ⟨owner.displayName, marker, none, messages⟩)

/-- A turn to start: the count it holds, the message it begins with and what it says. -/
structure NewTurn where
  threadId : String
  reserved : ℕ
  begunBy : ℕ
  input : String
  context : Option Context

/-- Starts a new turn of the Bot, whose send lock is held. A failure takes the counted turn back
unless Codex may have started it. -/
def beginTurn (runtime : AppServer) (owner : AccountRow) (bot : BotRow) (turn : NewTurn) :
    Work String := do
  let user := owner.id
  let carried ← releasing user turn.reserved (pendingCarryover owner bot.id turn.begunBy)
  let context := merged (merged (profileContext bot)
    (carried.map fun entry => [.carryover entry.2])) turn.context
  match ← codex (runtime.startTurn turn.threadId turn.input context) with
  | .error e =>
    if e.hadNoEffect then call (.releaseTurn user turn.reserved)
    refusing user bot (.error e)
  | .ok turnId =>
    call (.setProfileSent user bot.id bot.profileRevision)
    if let some entry := carried then call (.clearCarryover user bot.id entry.1)
    call (.began bot.id ⟨user, turn.threadId, turnId⟩)
    return turnId

/-- The Bot as it is now. -/
def ownBot (user bot : ℕ) : Work BotRow := do
  match ← call (.bot user bot) with
  | none => throw .notFound
  | some bot => return bot

/-- A counted turn, if the user's allowance has one left. -/
def reserve (user bot : ℕ) : Work ℕ := do
  match ← fallible (.reserveTurn user bot) with
  | none => throw limitReached
  | some turn => return turn

def runtime (user : ℕ) : Work AppServer := do
  match ← codex (Supervisor.runtime user) with
  | .ok r => return r
  | .error e => throw (unavailable e)

inductive Delivery where
  | steered
  | newTurn
deriving DecidableEq

/-- A new turn for a message that is stored. -/
def sendNew (r : AppServer) (owner : AccountRow) (bot : BotRow) (message reserved : ℕ)
    (threadId text : String) : Work Delivery := do
  let _ ← beginTurn r owner bot ⟨threadId, reserved, message, text, none⟩
  return .newTurn

/-- A message to a Bot that is idle: the turn is counted first. -/
def sendIdle (r : AppServer) (owner : AccountRow) (bot : BotRow) (text : String) :
    Work Delivery := do
  let user := owner.id
  let reserved ← reserve user bot.id
  let (threadId, bot, message) ← releasing user reserved do
    let threadId ← prepareThread r owner bot
    let bot ← ownBot user bot.id
    let message ← call (.insertMessage user bot.id .user .text text)
    return (threadId, bot, message)
  sendNew r owner bot message.id reserved threadId text

/-- A message to a Bot that is mid-turn. When the turn ended in the meantime, a new one starts. -/
def sendActive (r : AppServer) (owner : AccountRow) (bot : BotRow) (text : String)
    (active : ActiveTurn) : Work Delivery := do
  let user := owner.id
  serveThread r owner bot active.threadId
  let bot ← ownBot user bot.id
  let message ← call (.insertMessage user bot.id .user .text text)
  match ← codex (r.steerTurn active.threadId active.turnId text (steerClientId message.id)
      (profileContext bot)) with
  | .ok _ =>
    call (.setProfileSent user bot.id bot.profileRevision)
    return .steered
  | .error (.refused refusal) => refusing user bot (.error (.refused refusal))
  | .error (.threadRefused refusal) => refusing user bot (.error (.threadRefused refusal))
  | .error (.signedOut message) => throw (unavailable (.signedOut message))
  | .error _ =>
    let reserved ← reserve user bot.id
    let threadId ← releasing user reserved (prepareThread r owner bot)
    sendNew r owner bot message.id reserved threadId text

/-- Sends a user's message to one of their Bots. -/
def send (owner : AccountRow) (botId : ℕ) (text : String) : Work Delivery := do
  let user := owner.id
  let text ← ExceptT.mk (pure (checkMessage text))
  holdingBot user botId do
    let bot ← ownBot user botId
    if bot.refusedReason.isSome then throw (unavailable (.refused "refused"))
    let allowance ← fallible (.allowance user)
    let active ← call (.activeTurn bot.id)
    if tokensUsedUp allowance || (active.isNone && allowance.exhausted) then throw limitReached
    let r ← runtime user
    match active with
    | none => sendIdle r owner bot text
    | some active => sendActive r owner bot text active

/-- How an attempt to start a routine's run went. -/
inductive RoutineStart where
  | started (turnId : String)
  | busy
  | signedOut
  | failed (reason : String)
  | paused
  | notWaiting
deriving DecidableEq

/-- The turn of a run whose Bot is idle and may run one. -/
def startCounted (r : AppServer) (owner : AccountRow) (routine : RoutineRow) (run : ℕ)
    (marker about : String) (bot : BotRow) (reserved : ℕ) : Work RoutineStart := do
  let user := owner.id
  let (threadId, bot, marker) ← releasing user reserved do
    let threadId ← prepareThread r owner bot
    let bot ← ownBot user routine.bot
    let marker ← call (.insertMessage user bot.id .bot .marker marker)
    return (threadId, bot, marker)
  let turnId ← beginTurn r owner bot
    ⟨threadId, reserved, marker.id, routine.prompt, some [.routine about]⟩
  call (.setRunning user run threadId turnId)
  return .started turnId

def startRoutineLocked (owner : AccountRow) (routineId run : ℕ) (marker about : String) :
    Work RoutineStart := do
  let user := owner.id
  match ← call (.run user run) with
  | none => return .notWaiting
  | some row =>
    if row.state ≠ .waiting then return .notWaiting
    match ← call (.routineOfUser user routineId) with
    | none => return .notWaiting
    | some routine =>
      if routine.paused ∧ row.trigger = .schedule then return .paused
      match ← call (.bot user routine.bot) with
      | none => return .failed "The Bot no longer exists"
      | some bot =>
        if bot.refusedReason.isSome then
          return .failed (unavailable (.refused "refused")).message
        if ← call (.isWorking bot.id) then return .busy
        let allowance ← fallible (.allowance user)
        if tokensUsedUp allowance || allowance.exhausted then return .failed limitReached.message
        match ← codex (Supervisor.runtime user) with
        | .error (.signedOut _) => return .signedOut
        | .error e => return .failed (unavailable e).message
        | .ok r =>
          match ← fallible (.reserveTurn user bot.id) with
          | none => return .failed limitReached.message
          | some reserved => startCounted r owner routine run marker about bot reserved

/-- Starts a routine's run, unless its Bot is mid-turn or a message to it is being sent. -/
def startRoutine (owner : AccountRow) (routine : RoutineRow) (run : ℕ) (marker about : String) :
    Work RoutineStart := do
  if !(← call (.tryLockBot owner.id routine.bot)) then return .busy
  let start ← ExceptT.lift (startRoutineLocked owner routine.id run marker about).run
  call (.unlockBot owner.id routine.bot)
  match start with
  | .ok start => return start
  | .error failure => return .failed failure.message

/-- Starts a turn for the Bot's steered messages that their turn did not answer, the latest of
which begins it. Returns whether a turn of the Bot started, here or meanwhile. -/
def startOwed (user botId : ℕ) : Work Bool :=
  holdingBot user botId do
    let (owed, running) ← call (.takeOwed botId)
    if running then return true
    match owed.bind List.getLast? with
    | none => return false
    | some latest =>
      match ← call (.account user) with
      | none => return false
      | some ⟨owner, _⟩ =>
        match ← call (.bot user botId) with
        | none => return false
        | some bot =>
          match ← call (.message user latest) with
          | none => return false
          | some message =>
            if message.bot ≠ bot.id ∨ message.author ≠ .user then return false
            if owner.disabled || bot.refusedReason.isSome then return false
            let allowance ← fallible (.allowance user)
            if tokensUsedUp allowance || allowance.exhausted then throw limitReached
            let r ← runtime user
            let reserved ← reserve user bot.id
            let (threadId, bot) ← releasing user reserved do
              let threadId ← prepareThread r owner bot
              let bot ← ownBot user botId
              return (threadId, bot)
            let _ ← beginTurn r owner bot ⟨threadId, reserved, message.id, message.text, none⟩
            return true

/-! ## The scheduler's attempts -/

def BUSY_WAIT_MS : ℤ := 30 * 60000

namespace reasons

def SIGNED_OUT : String := "ChatGPT was signed out for the household"

def WAITING_SIGNED_OUT : String := "Waiting for the household's ChatGPT sign-in"

def BUSY : String := "The Bot was busy for 30 minutes"

def WAITING_BUSY : String := "Waiting for the Bot to finish its turn"

def PAUSED : String := "The routine was paused before the run started"

end reasons

/-- What a run's marker says, and what its turn is told of it, `when` and `local` being when it was
due. -/
def runTexts (owner : AccountRow) (routine : RoutineRow) (run : RunRow) (at' local' : String) :
    String × String :=
  match run.trigger with
  | .schedule => (routine.name ++ " · " ++ at',
      "This turn is a run of your routine \"" ++ routine.name ++ "\", scheduled for " ++ local' ++
      ". Its prompt, which " ++ owner.displayName ++ " set, is the message. " ++
      owner.displayName ++ " reads your reply later.")
  | .manual => (routine.name ++ " · " ++ at' ++ " · test run",
      "This turn is a test run of your routine \"" ++ routine.name ++ "\", which " ++
      owner.displayName ++ " started at " ++ local' ++ ". Its prompt, which " ++
      owner.displayName ++ " set, is the message. Answer as you would on its schedule.")

/-- Tries to start a waiting run. `run` may be out of date. -/
def attempt (run : RunRow) (now : ℤ) (at' local' : String) : Work Unit := do
  let user := run.user
  match ← call (.account user) with
  | none => return
  | some ⟨account, _⟩ =>
    if account.disabled then
      call (.endWaiting user run.id .missed (some Scheduler.reasons.DISABLED))
      return
    match ← call (.routineOfUser user run.routine) with
    | none => return
    | some routine =>
      let texts := runTexts account routine run at' local'
      match ← startRoutine account routine run.id texts.1 texts.2 with
      | .started _ => return
      | .notWaiting => return
      | .paused => call (.endWaiting user run.id .skipped (some reasons.PAUSED))
      | .busy =>
        if BUSY_WAIT_MS ≤ now - run.queuedAt then
          call (.endWaiting user run.id .skipped (some reasons.BUSY))
        else call (.wait user run.id reasons.WAITING_BUSY)
      | .signedOut =>
        if Scheduler.MISFIRE_WINDOW_MS < now - run.scheduledFor then
          call (.endWaiting user run.id .missed (some reasons.SIGNED_OUT))
        else call (.wait user run.id reasons.WAITING_SIGNED_OUT)
      | .failed reason => call (.endWaiting user run.id .failed (some reason))

/-! ## The gateway -/

/-- What the gateway is asked to do, or sets off itself. -/
inductive Job where
  | send (owner : AccountRow) (bot : ℕ) (text : String)
  | answerOwed (user bot : ℕ)
  /-- An attempt that holds its run until it ends. -/
  | attempt (run : RunRow) (now : ℤ) (at' local' : String)
  /-- A change of a Bot's grants, which waits for sends to it. -/
  | changeGrants (user bot : ℕ) (grants : GrantSet)

/-- Work whose result nobody waits for here. -/
def discard {α : Type} (work : Work α) : Prog Call Unit := do
  let _ ← work.run
  return

def Job.prog : Job → Prog Call Unit
  | .send owner bot text => discard (Conversations.send owner bot text)
  | .answerOwed user bot => discard (startOwed user bot)
  | .attempt run now at' local' => do
    discard (Conversations.attempt run now at' local')
    Prog.perform (.gateway (.letGo run.id))
  | .changeGrants user bot grants =>
    discard (holdingBot user bot (call (.setGrants user bot grants)))

/-- The supervisor's own work: threads and turns are started by the jobs above only. -/
def ofSupervisor : Serving.Surroundings → Bool
  | .call (.startThread ..) | .call (.resumeThread ..) | .call (.startTurn ..)
  | .call (.steerTurn ..) => false
  | _ => true

/-- What happens around the tasks. What the router makes of an app server's events is left open: the
live turns may change in any way, and a run end at any time. -/
inductive Surroundings where
  | tick (now : ℤ)
  | call (job : Job)
  | supervisor (e : Serving.Surroundings)
  | accounts (accounts : List AccountRow)
  | routines (routines : List RoutineRow)
  | createBot (user : ℕ) (name label description : String) (grants : GrantSet)
  | editBot (user bot : ℕ) (name label description : String)
  | refuseBot (user bot : ℕ) (reason : Refusal)
  | notes (bot : ℕ) (text : String)
  | message (user bot : ℕ) (author : Author) (kind : MessageKind) (text : String)
  | live (live : Live)
  | usage (usage : List TokenUsage.UsageRow)
  | prune
  | newRun (user bot routine : ℕ) (trigger : RunTrigger) (state : RunState) (scheduledFor : ℤ)
  | endRun (user run : ℕ) (state : RunState) (reason : Option String)
  | deleteRuns (deleted : List ℕ)

namespace World

def start : World :=
  ⟨.initial, 0, [], [], [], [], [], [], [], [], [], .new, [], [], []⟩

/-- Deletes turns that no window counts. -/
def prune (w : World) : World :=
  { w with turns := w.turns.filter fun r => w.clock - TokenUsage.TURN_WINDOW_MS < r.time }

def surroundings (w : World) : Surroundings → Option (World × List (Prog Call Unit))
  | .tick now => if w.clock ≤ now then some ({ w with clock := now }, []) else none
  | .call (.attempt run now at' local') =>
    -- at most one task holds a run
    if run.id ∈ w.claims then none
    else some ({ w with claims := run.id :: w.claims }, [(Job.attempt run now at' local').prog])
  | .call job => some (w, [job.prog])
  | .supervisor e =>
    if ofSupervisor e then
      (Serving.surroundings w.supervisor e).map fun entry =>
        ({ w with supervisor := entry.1 }, entry.2.map fun p => p.lift fun op => .codex op)
    else none
  | .accounts accounts => some ({ w with accounts }, [])
  | .routines routines => some ({ w with routines }, [])
  | .createBot user name label description grants =>
    let bot : BotRow := ⟨nextId (w.bots.map (·.id)), user, name, label, description, 0, 0, none, ∅,
      grants, none, none⟩
    some ({ w with bots := w.bots ++ [bot] }, [])
  | .editBot user bot name label description =>
    some (w.modifyBot user bot fun b =>
      { b with name, label, description, profileRevision := b.profileRevision + 1 }, [])
  | .refuseBot user bot reason =>
    some (w.modifyBot user bot fun b => { b with refusedReason := some reason }, [])
  | .notes bot text => some ({ w with notes := (bot, text) :: w.notes }, [])
  | .message user bot author kind text =>
    some ((w.insertMessage user bot author kind text).2, [])
  | .live live => some ({ w with live }, [])
  | .usage usage => some ({ w with usage }, [])
  | .prune => some (w.prune, [])
  | .newRun user bot routine trigger state scheduledFor =>
    let run : RunRow := ⟨nextId (w.runs.map (·.id)), user, bot, routine, trigger, scheduledFor,
      w.clock, state, none, none, none, false⟩
    some ({ w with runs := w.runs ++ [run] }, [])
  | .endRun user run state reason =>
    if state.isFinished then
      some (w.modifyRun user run [.waiting, .running] fun r => { r with state, reason }, [])
    else none
  | .deleteRuns deleted =>
    some ({ w with runs := w.runs.filter fun r => r.id ∉ deleted }, [])

end World

/-- Every send, attempt and answer, in any number and order, with the supervisor's own work. -/
def system : System Call World Choice Surroundings where
  answer := fun task {_} op choice w => op.answer task choice w
  surroundings := fun e w => w.surroundings e
  restart := fun w => some (w.restart, [])

abbrev State := Pool Call World

def initial : State := ⟨World.start, []⟩

end Conversations

end Bokkie
