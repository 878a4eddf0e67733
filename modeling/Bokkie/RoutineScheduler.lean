import Bokkie.Runs
import Bokkie.ScheduleSearch

/-!
# The scheduler's transactions

Routines and their runs in the database, and the transactions that a scheduler's pass and a change
of time zone make. The time-zone database is outside the program: a function from names to zones.
-/

namespace Bokkie

namespace Scheduler

open Accounts CivilTime

/-- How long after it was due a run may still run late. -/
def MISFIRE_WINDOW_MS : ℤ := 6 * HOUR_MS

/-- The longest time-zone name accepted. -/
def MAX_ZONE_CHARS : ℕ := 64

def DEFAULT_TIME_ZONE : String := "Australia/Adelaide"

namespace reasons

def DISABLED : String := "Your account is disabled"

def DOWN : String := "Bokkie was not running when it was due"

def OVERLAP : String := "The routine's previous run was still going"

end reasons

/-! ## Time zones -/

/-- The system's time-zone database: the zone of a name, and the database's own spelling of it. -/
structure Tzdata where
  get : String → Option (Option String × TimeZone)

/-- The zone a name names, if the database has it. -/
def zone (tz : Tzdata) (name : String) : Option (Option String × TimeZone) :=
  if name.isEmpty ∨ MAX_ZONE_CHARS < name.utf8ByteSize then none else tz.get name

/-- Checks a name that a user gave. -/
def checkTimeZone (tz : Tzdata) (name : String) : Except Failure String :=
  let name := trim name
  match zone tz name with
  | none => .error (.invalid "A time zone is an IANA name such as \"Australia/Adelaide\"")
  | some (ianaName, _) => .ok (ianaName.getD name)

/-- The zone a stored name names, or else the default's, and failing that, UTC. -/
def storedZone (tz : Tzdata) (name : String) : TimeZone :=
  match (zone tz name).or (zone tz DEFAULT_TIME_ZONE) with
  | some (_, zone) => zone
  | none => ⟨0, [], trivial⟩

/-! ## Rows -/

structure AccountRow where
  id : ℕ
  timeZone : String
  disabled : Bool

structure RoutineRow where
  id : ℕ
  user : ℕ
  bot : ℕ
  schedule : Schedule
  paused : Bool
  nextRunAt : Option ℤ
  updatedAt : ℤ

inductive RunTrigger where
  | schedule
  | manual
deriving DecidableEq

inductive RunState where
  | waiting
  | running
  | succeeded
  | failed
  | missed
  | skipped
  | interrupted
deriving DecidableEq

def RunState.isFinished (state : RunState) : Bool := !(state = .waiting ∨ state = .running)

structure RunRow where
  id : ℕ
  user : ℕ
  bot : ℕ
  routine : ℕ
  trigger : RunTrigger
  scheduledFor : ℤ
  queuedAt : ℤ
  finishedAt : Option ℤ
  state : RunState
  reason : Option String

/-- The tables, rows in order of their ids. A routine's user has an account. -/
structure Tables where
  accounts : List AccountRow
  routines : List RoutineRow
  runs : List RunRow
  nodup : (routines.map (·.id)).Nodup
  owned : ∀ r ∈ routines, r.user ∈ accounts.map (·.id)

namespace RoutineRow

/-- A routine that is not paused is due. -/
def isDue (r : RoutineRow) (now : ℤ) : Bool := !r.paused && r.nextRunAt.any (· ≤ now)

/-- One row under a routine's keys. -/
def isRow (r other : RoutineRow) : Bool :=
  other.id = r.id ∧ other.bot = r.bot ∧ other.user = r.user

end RoutineRow

namespace Tables

/-- One account. -/
def account (t : Tables) (user : ℕ) : Option AccountRow := t.accounts.find? (·.id = user)

def ownAccount (t : Tables) (user : ℕ) : Except Failure AccountRow :=
  match t.account user with
  | some account => .ok account
  | none => .error .unauthenticated

/-- One of the user's routines, by its id alone. -/
def routineOfUser (t : Tables) (user id : ℕ) : Option RoutineRow :=
  t.routines.find? fun r => r.id = id ∧ r.user = user

/-- Every routine of the user's, by id. -/
def listForUser (t : Tables) (user : ℕ) : List RoutineRow := t.routines.filter (·.user = user)

/-- Every user's routines that are due at `now`. -/
def due (t : Tables) (now : ℤ) : List RoutineRow :=
  (t.routines.filter (·.isDue now)).mergeSort fun a b =>
    a.nextRunAt.getD now < b.nextRunAt.getD now ||
      (a.nextRunAt = b.nextRunAt && a.id ≤ b.id)

/-- A routine's row in place of the one under its keys. -/
def setRow (r other : RoutineRow) : RoutineRow := if r.isRow other then r else other

theorem setRow_keys (r other : RoutineRow) :
    (setRow r other).id = other.id ∧ (setRow r other).user = other.user := by
  by_cases hrow : r.isRow other = true
  · rw [setRow, if_pos hrow]
    simp only [RoutineRow.isRow, decide_eq_true_eq] at hrow
    exact ⟨hrow.1.symm, hrow.2.2.symm⟩
  · rw [setRow, if_neg hrow]
    exact ⟨rfl, rfl⟩

def setRoutine (t : Tables) (r : RoutineRow) : Tables :=
  { t with
    routines := t.routines.map (setRow r)
    nodup := by
      rw [List.map_map, show (·.id) ∘ setRow r = fun other : RoutineRow => other.id from
        funext fun other => (setRow_keys r other).1]
      exact t.nodup
    owned := by
      intro row hrow
      obtain ⟨other, hother, rfl⟩ := List.mem_map.mp hrow
      rw [(setRow_keys r other).2]
      exact t.owned other hother }

/-- Edits accounts, not their ids. -/
def editAccounts (t : Tables) (f : AccountRow → AccountRow) (hf : ∀ a, (f a).id = a.id) : Tables :=
  { t with
    accounts := t.accounts.map f
    owned := by
      rw [List.map_map, show (·.id) ∘ f = fun a : AccountRow => a.id from funext hf]
      exact t.owned }

/-- Writes a routine's fields back. -/
def save (t : Tables) (now : ℤ) (routine : RoutineRow) : Except Failure (RoutineRow × Tables) :=
  let row := { routine with updatedAt := now }
  if t.routines.any row.isRow then .ok (row, t.setRoutine row) else .error .notFound

/-- A run to record of a routine. One that ends at once is recorded finished. -/
def newRun (t : Tables) (now : ℤ) (routine : RoutineRow) (trigger : RunTrigger) (scheduledFor : ℤ)
    (state : RunState) (reason : Option String) : RunRow :=
  { id := nextId (t.runs.map (·.id))
    user := routine.user
    bot := routine.bot
    routine := routine.id
    trigger
    scheduledFor
    queuedAt := now
    finishedAt := if state.isFinished then some now else none
    state
    reason }

/-- Records a run of a routine. -/
def insertRun (t : Tables) (now : ℤ) (routine : RoutineRow) (trigger : RunTrigger)
    (scheduledFor : ℤ) (state : RunState) (reason : Option String) :
    Except Failure (RunRow × Tables) :=
  match t.routineOfUser routine.user routine.id with
  | none => .error .notFound
  | some row =>
    let run := t.newRun now row trigger scheduledFor state reason
    .ok (run, { t with runs := t.runs ++ [run] })

/-- The routine's run that is waiting or running, if any. -/
def activeRun (t : Tables) (user routine : ℕ) : Option RunRow :=
  t.runs.find? fun run => run.routine = routine ∧ run.user = user ∧
    (run.state = .waiting ∨ run.state = .running)

/-- A waiting run under its keys that is due before `scheduledFor`. -/
def isMoved (user id : ℕ) (scheduledFor : ℤ) (run : RunRow) : Bool :=
  run.id = id ∧ run.user = user ∧ run.state = .waiting ∧ run.scheduledFor < scheduledFor

/-- Moves a waiting run's time due to a later one it stands for. -/
def rescheduleWaiting (t : Tables) (user id : ℕ) (scheduledFor : ℤ) : Tables :=
  { t with runs := t.runs.map fun run =>
      if isMoved user id scheduledFor run then { run with scheduledFor } else run }

def inZone (t : Tables) (user : ℕ) (timeZone : String) : Tables :=
  t.editAccounts (fun account => if account.id = user then { account with timeZone } else account)
    fun _ => by split <;> rfl

/-- Sets the user's time zone. -/
def setZone (t : Tables) (user : ℕ) (timeZone : String) : Except Failure (AccountRow × Tables) :=
  let t := t.inZone user timeZone
  match t.account user with
  | some account => .ok (account, t)
  | none => .error .notFound

end Tables

/-! ## Transactions -/

/-- The state and reason to record a run in, or the waiting run that stands for it too. -/
def queueAs (t : Tables) (now : ℤ) (account : AccountRow) (routine : RoutineRow)
    (scheduledFor : ℤ) : (RunState × Option String) ⊕ RunRow :=
  if account.disabled then .inl (.missed, some reasons.DISABLED)
  else if MISFIRE_WINDOW_MS < now - scheduledFor then .inl (.missed, some reasons.DOWN)
  else
    match t.activeRun routine.user routine.id with
    | some active =>
      if active.state = .waiting then .inr active else .inl (.skipped, some reasons.OVERLAP)
    | none => .inl (.waiting, none)

/-- Records a run of `routine` due at `scheduledFor`: `missed` if it cannot run, `skipped` if its
previous run is running, coalesced into its previous run if that is still waiting, or else
`waiting`. Returns the run recorded, if any. -/
def queue (t : Tables) (now : ℤ) (account : AccountRow) (routine : RoutineRow)
    (trigger : RunTrigger) (scheduledFor : ℤ) : Except Failure (Option RunRow × Tables) :=
  match queueAs t now account routine scheduledFor with
  | .inr active =>
    .ok (none, if trigger = .schedule
      then t.rescheduleWaiting routine.user active.id scheduledFor else t)
  | .inl (state, reason) => do
    let (run, t) ← t.insertRun now routine trigger scheduledFor state reason
    return (some run, t)

/-- The routine, read again under the user's lock, and when it fell due. -/
def readDue (t : Tables) (user id : ℕ) (now : ℤ) : Option (RoutineRow × ℤ) := do
  let routine ← t.routineOfUser user id
  let nextRunAt ← routine.nextRunAt.filter fun due => due ≤ now && !routine.paused
  return (routine, nextRunAt)

/-- Times missed since `nextRunAt` are coalesced into the latest. -/
def latestDue (schedule : Schedule) (zone : TimeZone) (now nextRunAt : ℤ) : ℤ :=
  ((schedule.latestAtOrBefore zone now).filter (nextRunAt ≤ ·)).getD nextRunAt

/-- Queues the run of a routine that fell due, and schedules its next. -/
def fallDue (tz : Tzdata) (t : Tables) (user id : ℕ) (now : ℤ) : Except Failure Tables :=
  match readDue t user id now with
  | none => .ok t
  | some (routine, nextRunAt) => do
    let account ← t.ownAccount routine.user
    let zone := storedZone tz account.timeZone
    let latest := latestDue routine.schedule zone now nextRunAt
    let (routine, t) ← t.save now
      { routine with nextRunAt := routine.schedule.nextAfter zone now }
    let (_, t) ← queue t now account routine .schedule latest
    return t

/-- Reschedules routines from `now`. -/
def rescheduleAll (zone : TimeZone) (now : ℤ) : List RoutineRow → Tables → Except Failure Tables
  | [], t => .ok t
  | routine :: rest, t =>
    if routine.paused then rescheduleAll zone now rest t
    else do
      let (_, t) ← t.save now { routine with nextRunAt := routine.schedule.nextAfter zone now }
      rescheduleAll zone now rest t

/-- Sets the user's time zone and reschedules their routines in it. -/
def setTimeZone (tz : Tzdata) (t : Tables) (user : ℕ) (timeZone : String) (now : ℤ) :
    Except Failure Tables := do
  let timeZone ← checkTimeZone tz timeZone
  let zone := storedZone tz timeZone
  let (_, t) ← t.setZone user timeZone
  rescheduleAll zone now (t.listForUser user) t

/-! ## Runs of the gateway -/

/-- What a pass that found a routine due stands for: the time it was due and the latest since. -/
structure Fall where
  routine : ℕ
  due : ℤ
  latest : ℤ
  now : ℤ

/-- The database, the clock, and what the passes so far have stood for. -/
structure World where
  clock : ℤ
  tables : Tables
  falls : List Fall

/-- A transaction read the clock as `now` before it waited for the database. -/
inductive Action where
  | tick (ms : ℕ)
  | fallDue (user id : ℕ) (now : ℤ)
  | setTimeZone (user : ℕ) (timeZone : String) (now : ℤ)
  /-- Runs queued by hand, started, ended, forgotten. -/
  | changeRuns (runs : List RunRow)
  | setDisabled (user : ℕ) (disabled : Bool)

namespace World

/-- What a pass's transaction stands for. -/
def fall (tz : Tzdata) (t : Tables) (user id : ℕ) (now : ℤ) : Option Fall := do
  let (routine, nextRunAt) ← readDue t user id now
  let account ← t.account routine.user
  return ⟨id, nextRunAt,
    latestDue routine.schedule (storedZone tz account.timeZone) now nextRunAt, now⟩

/-- A transaction that fails changes nothing. -/
def step (tz : Tzdata) (w : World) : Action → Option World
  | .tick ms => some { w with clock := w.clock + ms }
  | .fallDue user id now =>
    if now ≤ w.clock then
      match Scheduler.fallDue tz w.tables user id now with
      | .ok t => some { w with
          tables := t
          falls := w.falls ++ (fall tz w.tables user id now).toList }
      | .error _ => some w
    else none
  | .setTimeZone user timeZone now =>
    if now ≤ w.clock then
      match Scheduler.setTimeZone tz w.tables user timeZone now with
      | .ok t => some { w with tables := t }
      | .error _ => some w
    else none
  | .changeRuns runs => some { w with tables := { w.tables with runs } }
  | .setDisabled user disabled => some { w with
      tables := w.tables.editAccounts (fun account =>
        if account.id = user then { account with disabled } else account)
          fun _ => by split <;> rfl }

end World

/-- What one pass of the scheduler does about due routines, a transaction each. -/
def pass (t : Tables) (now : ℤ) : List Action :=
  (t.due now).map fun routine => .fallDue routine.user routine.id now

end Scheduler

end Bokkie
