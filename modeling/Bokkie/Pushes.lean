import Bokkie.FetchLimits
import Bokkie.Presence
import Bokkie.PushPayload
import Bokkie.RoutineScheduler
import Mathlib.Data.List.MinMax

/-!
# Notifications, runs and the pushes they queue

A push is queued in the transaction that caused it, by a notification or by a run's end, and settled
by the sender: dropped with a reason, or claimed, delivered and recorded. The sender reads the queue
before it claims, so what it read may be out of date.
-/

namespace Bokkie.Push

open Accounts (HOUR_MS DAY_MS nextId)
open FetchLimits (bounded ID_CHARS)
open Scheduler (RunState)

def HOURLY_LIMIT : ℕ := 20

def QUEUE_EXPIRY_MS : ℤ := HOUR_MS

def RETENTION_MS : ℤ := DAY_MS

def NOTIFICATION_RETENTION_MS : ℤ := 90 * DAY_MS

def RUN_RETENTION_MS : ℤ := 90 * DAY_MS

def TITLE_CHARS : ℕ := 80

def FALLBACK_TITLE : Text := "Your Bot".toList

/-- How many notifications a Bot may record in one turn. -/
def PER_TURN : ℕ := 3

/-- How many notifications a user's Bots may record in an hour, together. -/
def PER_HOUR : ℕ := 30

def FAILURES_TO_PAUSE : ℕ := 3

def STOPPED : String := "Stopped before it finished"

inductive NotificationKind where
  | result
  | question
deriving DecidableEq

inductive Cause where
  | notify
  | run
  | failure
  | miss
  | pause
deriving DecidableEq

inductive Urgency where
  | normal
  | high
deriving DecidableEq

def Urgency.of : NotificationKind → Urgency
  | .question => .high
  | .result => .normal

inductive PushState where
  | queued
  -- being delivered, then delivered to at least one device or none
  | sending
  | sent
  | failed
  -- not sent
  | shown
  | limited
  | unsubscribed
  | unconfigured
  | disabled
  | expired
  | merged
deriving DecidableEq

/-- A push that the sender claimed. -/
def PushState.isClaimed (state : PushState) : Bool :=
  state = .sending ∨ state = .sent ∨ state = .failed

inductive RoutinePush where
  | everyRun
  | notifyOnly
deriving DecidableEq

/-! ## Texts -/

/-- Characters that change how text around them is laid out. -/
def isLayoutControl (c : Char) : Bool :=
  c.val = 0x061C ∨ c.val = 0x200E ∨ c.val = 0x200F ∨ c.val = 0x2028 ∨ c.val = 0x2029 ∨
    (0x202A ≤ c.val ∧ c.val ≤ 0x202E) ∨ (0x2066 ≤ c.val ∧ c.val ≤ 0x2069) ∨ c.val = 0xFEFF ∨
    (0xFFF9 ≤ c.val ∧ c.val ≤ 0xFFFB)

/-- Unicode's `Default_Ignorable_Code_Point`, by its ranges. -/
def NOT_DRAWN : List (ℕ × ℕ) :=
  [(0x00AD, 0x00AD), (0x034F, 0x034F), (0x061C, 0x061C), (0x115F, 0x1160), (0x17B4, 0x17B5),
    (0x180B, 0x180F), (0x200B, 0x200F), (0x202A, 0x202E), (0x2060, 0x206F), (0x3164, 0x3164),
    (0xFE00, 0xFE0F), (0xFEFF, 0xFEFF), (0xFFA0, 0xFFA0), (0xFFF0, 0xFFF8), (0x1BCA0, 0x1BCA3),
    (0x1D173, 0x1D17A), (0xE0000, 0xE0FFF)]

def notDrawn (c : Char) : Bool :=
  NOT_DRAWN.any fun range => range.1 ≤ c.toNat ∧ c.toNat ≤ range.2

def trim (text : Text) : Text := trimEnd (text.dropWhile isWhitespace)

/-- Text fit for a notification, at most so many characters of it. -/
def clean (text : Text) (chars : Option ℕ) : Text :=
  let kept := trim (text.filter fun c => c = '\n' ∨ !(isControl c ∨ isLayoutControl c))
  match chars with
  | none => kept
  | some chars =>
    if kept.length ≤ chars then kept else trimEnd (kept.take (chars - 1)) ++ ['…']

/-- The text, unless it shows nothing. -/
def shown (text : Text) : Option Text :=
  if text.any fun c => !(isWhitespace c ∨ notDrawn c) then some text else none

def botTitle (name : Text) : Text := (shown (clean name (some TITLE_CHARS))).getD FALLBACK_TITLE

def notificationText (title body : Text) : Text :=
  if body.isEmpty then title else title ++ '\n' :: body

/-- A sentence, ending with a full stop unless it already ends a sentence. -/
def sentence (text : Text) : Text :=
  let text := trim text
  if text.getLast?.any fun c => c = '.' ∨ c = '!' ∨ c = '?' then text else text ++ ['.']

/-! ## Tables -/

structure UserRow where
  id : ℕ
  disabled : Bool

structure BotRow where
  id : ℕ
  user : ℕ
  name : Text

structure RoutineRow where
  id : ℕ
  user : ℕ
  bot : ℕ
  name : Text
  push : RoutinePush
  paused : Bool
  failures : ℕ

structure RunRow where
  id : ℕ
  user : ℕ
  bot : ℕ
  routine : ℕ
  state : RunState
  reason : Option String
  queuedAt : ℤ
  threadId : Option String
  turnId : Option String
  deadlinePassed : Bool

structure NotificationRow where
  id : ℕ
  user : ℕ
  bot : ℕ
  threadId : String
  turnId : String
  run : Option ℕ
  kind : NotificationKind
  title : Text
  body : Text
  createdAt : ℤ

/-- A push to queue. -/
structure NewPush where
  user : ℕ
  bot : ℕ
  cause : Cause
  notification : Option ℕ
  run : Option ℕ
  urgency : Urgency
  title : Text
  body : Text
deriving DecidableEq

/-- A push as it was queued. -/
structure Queued extends NewPush where
  id : ℕ
  createdAt : ℤ
deriving DecidableEq

structure PushRow where
  queued : Queued
  state : PushState
  sentAt : Option ℤ
  settledAt : Option ℤ

structure Tables where
  users : List UserRow
  bots : List BotRow
  routines : List RoutineRow
  runs : List RunRow
  notifications : List NotificationRow
  pushes : List PushRow

/-- A notification's arguments, checked. -/
structure Request where
  kind : NotificationKind
  title : Text
  body : Text

namespace Tables

/-- The id of the next push. -/
def nextPush (t : Tables) : ℕ := nextId (t.pushes.map (·.queued.id))

def nextNotification (t : Tables) : ℕ := nextId (t.notifications.map (·.id))

def nextRun (t : Tables) : ℕ := nextId (t.runs.map (·.id))

/-- The name of the user's Bot, unless the account is disabled. -/
def botName (t : Tables) (user bot : ℕ) : Option Text :=
  (t.bots.find? fun b => b.id = bot ∧ b.user = user ∧
    t.users.any fun u => u.id = user ∧ u.disabled = false).map (·.name)

def routineOfUser (t : Tables) (user id : ℕ) : Option RoutineRow :=
  t.routines.find? fun r => r.id = id ∧ r.user = user

def queue (t : Tables) (now : ℤ) (push : NewPush) : Tables :=
  let title := (shown (clean push.title (some TITLE_CHARS))).getD FALLBACK_TITLE
  let body := clean push.body none
  if (t.botName push.user push.bot).isSome then
    { t with
      pushes := t.pushes ++ [⟨⟨{ push with title, body }, t.nextPush, now⟩, .queued, none, none⟩] }
  else t

/-- Queues the push for a notification a Bot sent outside a routine's run. -/
def notified (t : Tables) (now : ℤ) (user bot notification : ℕ) (request : Request) : Tables :=
  match t.botName user bot with
  | none => t
  | some name =>
    t.queue now {
      user, bot
      cause := .notify
      notification := some notification
      run := none
      urgency := .of request.kind
      title := botTitle name
      body := notificationText request.title request.body }

/-- The notification a run's push carries: its newest question, or else its newest notification. -/
def runNotification (t : Tables) (run : RunRow) : Option NotificationRow :=
  let sent := t.notifications.filter fun n => n.user = run.user ∧ n.run = some run.id
  (sent.filter (·.kind = .question)).argmax NotificationRow.id <|> sent.argmax NotificationRow.id

/-- The notification's own push may have gone out alone. -/
def sentAlone (t : Tables) (user notification : ℕ) : Bool :=
  t.pushes.any fun p => p.queued.user = user ∧ p.queued.notification = some notification ∧
    p.queued.cause = .notify ∧ p.state ≠ .merged

/-- What the push for a run's end says: its cause, urgency, body and notification. -/
structure Message where
  cause : Cause
  urgency : Urgency
  body : Text
  notification : Option ℕ

/-- A notification as a run's push carries it. -/
def carriedMessage (n : NotificationRow) : Message :=
  ⟨.run, .of n.kind, notificationText n.title n.body, some n.id⟩

/-- A failure's text, after the notification's when the run sent one. -/
def withCarried (carried : Option NotificationRow) (cause : Cause) (text : Text) : Message :=
  match carried with
  | some n => ⟨cause, .of n.kind, notificationText n.title n.body ++ '\n' :: text, some n.id⟩
  | none => ⟨cause, .normal, text, none⟩

/-- What a run's end is worth a push, `line` being the first line of its last reply. -/
def endMessage (t : Tables) (run : RunRow) (routine : RoutineRow) (state : RunState) (paused : Bool)
    (carried : Option NotificationRow) (line : Option Text) : Option Message :=
  let reason := run.reason.elim "The run did not finish".toList String.toList
  match state with
  | .succeeded =>
    match carried with
    | some n => some (carriedMessage n)
    | none =>
      if routine.push = .everyRun ∧ (t.runNotification run).isNone then
        some ⟨.run, .normal, line.getD "Finished, with no reply.".toList, none⟩
      else none
  | .failed | .interrupted =>
    if state = .interrupted ∧ run.reason = some STOPPED then carried.map carriedMessage
    else if paused then
      some (withCarried carried .pause (sentence reason ++ " Paused after ".toList ++
        (decimal routine.failures).toList ++ " failed runs in a row.".toList))
    else some (withCarried carried .failure (sentence reason))
  | .missed =>
    if run.reason ≠ some Scheduler.reasons.DISABLED then
      some ⟨.miss, .normal, "Missed a run. ".toList ++
        sentence (run.reason.elim "It did not run".toList String.toList), none⟩
    else none
  | _ => none

/-- A run's own notifications' pushes still in the queue are left to the run's push. -/
def mergeQueued (t : Tables) (now : ℤ) (run : RunRow) : Tables :=
  { t with
    pushes := t.pushes.map fun p =>
      if p.queued.user = run.user ∧ p.state = .queued ∧ p.queued.cause = .notify ∧
          t.notifications.any fun n => p.queued.notification = some n.id ∧ n.user = run.user ∧
            n.run = some run.id then
        { p with state := .merged, settledAt := some now }
      else p }

/-- Queues the push for a routine's run that just ended. `paused` says this paused the routine. -/
def runEnded (t : Tables) (now : ℤ) (run : RunRow) (state : RunState) (paused : Bool)
    (line : Option Text) : Tables :=
  let t := t.mergeQueued now run
  match t.botName run.user run.bot, t.routineOfUser run.user run.routine with
  | some name, some routine =>
    let title := match shown (clean routine.name (some TITLE_CHARS)) with
      | some routine => botTitle name ++ " · ".toList ++ routine
      | none => botTitle name
    let carried := if state = .missed then none
      else (t.runNotification run).filter fun n => !t.sentAlone run.user n.id
    match t.endMessage run routine state paused carried line with
    | none => t
    | some message =>
      t.queue now {
        user := run.user
        bot := run.bot
        cause := message.cause
        notification := message.notification
        run := some run.id
        urgency := message.urgency
        title
        body := message.body }
  | _, _ => t

/-- Counts a finished run against its routine, with whether this paused it. -/
def countOutcome (t : Tables) (run : RunRow) (failed : Bool) : Tables × Bool :=
  match t.routineOfUser run.user run.routine with
  | none => (t, false)
  | some routine =>
    let save (saved : RoutineRow) : Tables :=
      { t with
        routines := t.routines.map fun r =>
          if r.id = saved.id ∧ r.bot = saved.bot ∧ r.user = saved.user then saved else r }
    if failed then
      let paused := FAILURES_TO_PAUSE ≤ routine.failures + 1 ∧ routine.paused = false
      (save { routine with
          failures := routine.failures + 1, paused := routine.paused || decide paused },
        decide paused)
    else if 0 < routine.failures then (save { routine with failures := 0 }, false)
    else (t, false)

/-- Whether an end counts as a failure of the routine, if it counts. -/
def outcome (run : RunRow) : RunState → Option Bool
  | .failed => some true
  | .interrupted => if run.deadlinePassed then some true else none
  | .succeeded => some false
  | _ => none

/-- Ends a run that is in one of these states: its end is announced, counted and pushed. -/
def endRun (t : Tables) (now : ℤ) (user id : ℕ) (state : RunState) (reason : Option String)
    (states : List RunState) (line : Option Text) : Option Tables :=
  (t.runs.find? fun r => r.id = id ∧ r.user = user ∧ r.state ∈ states).map fun run =>
    let ended := { run with state, reason }
    let t := { t with runs := t.runs.map fun r : RunRow => if r.id = id then ended else r }
    let (t, paused) := (outcome ended state).elim (t, false) (t.countOutcome ended)
    t.runEnded now ended state paused line

/-- Gives a run the notifications of its turn recorded without one. -/
def attributeToRun (t : Tables) (user bot : ℕ) (thread turn : String) (run : ℕ) : Tables :=
  { t with
    notifications := t.notifications.map fun n =>
      if n.user = user ∧ n.bot = bot ∧ n.threadId = bounded thread ID_CHARS ∧
          n.turnId = bounded turn ID_CHARS ∧ n.run = none then
        { n with run := some run }
      else n }

/-- Marks a waiting run running in a turn, and gives it the turn's notifications. -/
def setRunning (t : Tables) (user id : ℕ) (thread turn : String) : Option Tables :=
  (t.runs.find? fun r => r.id = id ∧ r.user = user ∧ r.state = .waiting).map fun run =>
    let running :=
      { run with state := .running, threadId := some thread, turnId := some turn, reason := none }
    { t with runs := t.runs.map fun r : RunRow => if r.id = id then running else r }.attributeToRun
      user run.bot thread turn id

/-- The gateway interrupted a running run's turn for running too long. -/
def setDeadlinePassed (t : Tables) (user id : ℕ) : Tables :=
  { t with
    runs := t.runs.map fun r : RunRow =>
      if r.id = id ∧ r.user = user ∧ r.state = .running then { r with deadlinePassed := true }
      else r }

/-- The latest run of a turn of the Bot's. -/
def runOfTurn (t : Tables) (user bot : ℕ) (thread turn : String) : Option ℕ :=
  ((t.runs.filter fun r => r.user = user ∧ r.bot = bot ∧ r.threadId = some thread ∧
    r.turnId = some turn).map (·.id)).max?

/-- Records a notification, and queues its push when it is not a routine's run's, unless the turn or
the hour already has as many as it may. -/
def record (t : Tables) (now : ℤ) (user bot : ℕ) (thread turn : String) (request : Request) :
    Option (Except String Tables) :=
  let thread := bounded thread ID_CHARS
  let turn := bounded turn ID_CHARS
  let inTurn := t.notifications.countP fun n =>
    n.user = user ∧ n.bot = bot ∧ n.threadId = thread ∧ n.turnId = turn
  let inHour := t.notifications.countP fun n => n.user = user ∧ now - HOUR_MS < n.createdAt
  if PER_TURN ≤ inTurn then
    some (.error ("You have sent " ++ decimal PER_TURN ++ " notifications in this turn, the " ++
      "most a turn may: nothing was recorded. Put the rest in your reply."))
  else if PER_HOUR ≤ inHour then
    some (.error ("Your owner has had " ++ decimal PER_HOUR ++ " notifications in the past " ++
      "hour, the most an hour may: nothing was recorded. Put it in your reply instead."))
  else if t.bots.any fun b => b.id = bot ∧ b.user = user then
    let id := t.nextNotification
    let run := t.runOfTurn user bot thread turn
    let t := { t with
      notifications := t.notifications ++
        [⟨id, user, bot, thread, turn, run, request.kind, request.title, request.body, now⟩] }
    some (.ok (if run.isNone then t.notified now user bot id request else t))
  else none

/-- Deletes settled pushes that were queued too long ago. -/
def prune (t : Tables) (now : ℤ) : Tables :=
  { t with
    pushes := t.pushes.filter fun p =>
      !(p.queued.createdAt ≤ now - RETENTION_MS ∧ p.state ≠ .queued ∧ p.state ≠ .sending) }

def pruneNotifications (t : Tables) (now : ℤ) : Tables :=
  { t with
    notifications := t.notifications.filter fun n => now - NOTIFICATION_RETENTION_MS < n.createdAt }

def pruneRuns (t : Tables) (now : ℤ) : Tables :=
  { t with
    runs := t.runs.filter fun r => !(r.queuedAt ≤ now - RUN_RETENTION_MS ∧ r.state.isFinished) }

/-- Deletes a routine with its runs. -/
def deleteRoutine (t : Tables) (user bot id : ℕ) : Option Tables :=
  let isIt (r : RoutineRow) : Bool := r.id = id ∧ r.bot = bot ∧ r.user = user
  if t.routines.any isIt then
    some { t with
      routines := t.routines.filter fun r => !isIt r
      runs := t.runs.filter fun r => r.routine ≠ id }
  else none

/-- Changes the state of a push that is in one. -/
def settle (t : Tables) (id : ℕ) (state : PushState) (f : PushRow → PushRow) : Tables :=
  { t with
    pushes := t.pushes.map fun p => if p.queued.id = id ∧ p.state = state then f p else p }

/-- Pushes a stopped gateway left being delivered count as failed. -/
def recover (t : Tables) (now : ℤ) : Tables :=
  { t with
    pushes := t.pushes.map fun p =>
      if p.state = .sending then { p with state := .failed, settledAt := some now } else p }

/-- What the sender reads of the queue at once. -/
def page (t : Tables) (after : ℕ) : List Queued :=
  ((t.pushes.filter fun p => p.state = .queued ∧ after < p.queued.id).map (·.queued)).take 32

end Tables

/-! ## The sender -/

/-- How a push was settled without being sent, or that it is to be sent. -/
inductive Decision where
  | send
  | drop (state : PushState)
deriving DecidableEq

/-- A subscription of a session that was not revoked. -/
structure Subscription where
  user : ℕ
  expiresAt : ℤ

/-- A push handed to the push services, and when. -/
structure Claim where
  push : Queued
  time : ℤ

/-- The gateway: what its database holds, what its devices show, what the sender has read and is
delivering, and every push it claimed. -/
structure World where
  tables : Tables
  subscriptions : List Subscription
  presence : Presence
  clock : ℤ
  /-- Sending is configured. -/
  sending : Bool
  read : List Queued
  delivering : List ℕ
  claims : List Claim

inductive Action where
  | tick (now : ℤ)
  /-- Accounts, Bots, routines and subscriptions change, and what the devices show. -/
  | edit (users : List UserRow) (bots : List BotRow) (routines : List RoutineRow)
      (subscriptions : List Subscription) (presence : Presence)
  | queueRun (user bot routine : ℕ)
  | startRun (user run : ℕ) (thread turn : String)
  | passDeadline (user run : ℕ)
  /-- A run ends, `now` having been read before the transaction began. -/
  | endRun (now : ℤ) (user run : ℕ) (state : RunState) (reason : Option String)
      (states : List RunState) (line : Option Text)
  | record (now : ℤ) (user bot : ℕ) (thread turn : String) (request : Request)
  | read (after : ℕ)
  /-- A push is claimed, `now` having been read before the transaction began. -/
  | claim (push : Queued) (now : ℤ)
  | delivered (id : ℕ) (took : Bool)
  /-- The gateway stops and starts, sending configured or not. -/
  | restart (sending : Bool)
  | prune
  | pruneNotifications
  | pruneRuns
  | deleteRoutine (user bot routine : ℕ)

namespace World

/-- The user's subscriptions whose sessions are live. -/
def live (w : World) (now : ℤ) (user : ℕ) : List Subscription :=
  w.subscriptions.filter fun s => s.user = user ∧ now < s.expiresAt ∧
    w.tables.users.any fun u => u.id = user ∧ u.disabled = false

/-- The pushes claimed for the user in the last hour. -/
def recent (w : World) (now : ℤ) (user : ℕ) : ℕ :=
  w.tables.pushes.countP fun p => p.queued.user = user ∧ p.state.isClaimed ∧
    p.sentAt.any (now - HOUR_MS < ·)

def decide' (w : World) (now : ℤ) (push : Queued) : Decision :=
  if QUEUE_EXPIRY_MS ≤ now - push.createdAt then .drop .expired
  else if (w.tables.users.find? (·.id = push.user)).all (·.disabled) then .drop .disabled
  else if push.cause = .notify ∧ push.notification.any fun id =>
      w.tables.notifications.any fun n => n.id = id ∧ n.user = push.user ∧ n.run.isSome then
    .drop .merged
  else if w.presence.isShown w.clock push.user push.bot then .drop .shown
  else if !w.sending then .drop .unconfigured
  else if (w.live now push.user).isEmpty then .drop .unsubscribed
  else if HOURLY_LIMIT ≤ w.recent now push.user then .drop .limited
  else .send

def claim (w : World) (push : Queued) (now : ℤ) : World :=
  match w.decide' now push with
  | .drop state =>
    { w with
      tables := w.tables.settle push.id .queued fun p =>
        { p with state, settledAt := some now } }
  | .send =>
    if w.tables.pushes.any fun p => p.queued.id = push.id ∧ p.state = .queued then
      { w with
        tables := w.tables.settle push.id .queued fun p =>
          { p with state := .sending, sentAt := some now }
        delivering := push.id :: w.delivering
        claims := w.claims ++ [⟨push, now⟩] }
    -- another sender settled it first
    else w

def step (w : World) : Action → Option World
  | .tick now => if w.clock ≤ now then some { w with clock := now } else none
  | .edit users bots routines subscriptions presence =>
    some { w with tables := { w.tables with users, bots, routines }, subscriptions, presence }
  | .queueRun user bot routine =>
    let run := ⟨w.tables.nextRun, user, bot, routine, .waiting, none, w.clock, none, none, false⟩
    some { w with tables := { w.tables with runs := w.tables.runs ++ [run] } }
  | .startRun user run thread turn =>
    (w.tables.setRunning user run thread turn).map fun tables => { w with tables }
  | .passDeadline user run => some { w with tables := w.tables.setDeadlinePassed user run }
  | .endRun now user run state reason states line =>
    if now ≤ w.clock ∧ state.isFinished ∧ states.all fun from' => !from'.isFinished then
      (w.tables.endRun now user run state reason states line).map fun tables => { w with tables }
    else none
  | .record now user bot thread turn request =>
    if now ≤ w.clock then
      (w.tables.record now user bot thread turn request).map fun outcome =>
        match outcome with
        | .ok tables => { w with tables }
        | .error _ => w
    else none
  | .read after => some { w with read := w.read ++ w.tables.page after }
  | .claim push now => if push ∈ w.read ∧ now ≤ w.clock then some (w.claim push now) else none
  | .delivered id took =>
    if id ∈ w.delivering then
      some { w with
        tables := w.tables.settle id .sending fun p =>
          { p with state := if took then .sent else .failed, settledAt := some w.clock }
        delivering := w.delivering.erase id }
    else none
  | .restart sending =>
    some { w with tables := w.tables.recover w.clock, sending, read := [], delivering := [] }
  | .prune => some { w with tables := w.tables.prune w.clock }
  | .pruneNotifications => some { w with tables := w.tables.pruneNotifications w.clock }
  | .pruneRuns => some { w with tables := w.tables.pruneRuns w.clock }
  | .deleteRoutine user bot routine =>
    (w.tables.deleteRoutine user bot routine).map fun tables => { w with tables }

end World

end Bokkie.Push
