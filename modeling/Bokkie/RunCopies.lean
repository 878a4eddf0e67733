import Bokkie.IdMap
import Bokkie.Merges
import Bokkie.RoutineScheduler
import Mathlib.Data.Prod.Lex

/-!
# Copies of a run

The history of one run on the gateway, the copies of it that are sent, and the client's lists of
runs, which the copies reach in any order. A copy's state and its number of messages stand for its
place in the history. They never fall, but a waiting run can change without their rising.
-/

namespace Bokkie.RunCopies

open Accounts Scheduler

/-! ## The gateway -/

inductive Waiting where
  | busy
  | signedOut
deriving DecidableEq

structure RunRow where
  id : ℕ
  user : ℕ
  bot : ℕ
  routine : ℕ
  trigger : RunTrigger
  scheduledFor : ℤ
  queuedAt : ℤ
  startedAt : Option ℤ
  finishedAt : Option ℤ
  state : RunState
  reason : Option String
  waitingFor : Option Waiting
  threadId : Option String
  turnId : Option String
  deadlinePassedAt : Option ℤ
  tokens : Option ℕ
deriving DecidableEq

/-- A message's row, as far as a run's messages are told by it. -/
structure MessageRow where
  id : ℕ
  user : ℕ
  bot : ℕ
  routineRun : Option ℕ
  turn : Option String
deriving DecidableEq

structure RoutineRun where
  id : ℕ
  routineId : ℕ
  botId : ℕ
  trigger : RunTrigger
  scheduledFor : ℤ
  startedAt : Option ℤ
  finishedAt : Option ℤ
  state : RunState
  reason : Option String
  messages : List ℕ
  tokens : Option ℕ
deriving DecidableEq

/-- The user's messages, in order of their ids, and the run. -/
structure Tables where
  run : RunRow
  messages : List MessageRow
deriving DecidableEq

namespace RunRow

def toApi (run : RunRow) (messages : List ℕ) : RoutineRun :=
  { id := run.id
    routineId := run.routine
    botId := run.bot
    trigger := run.trigger
    scheduledFor := run.scheduledFor
    startedAt := run.startedAt
    finishedAt := run.finishedAt
    state := run.state
    reason := run.reason
    messages
    tokens := run.tokens }

/-- A message the run added: its marker, or a reply of its turn. -/
def added (run : RunRow) (m : MessageRow) : Bool :=
  m.user = run.user ∧ m.bot = run.bot ∧
    (m.routineRun = some run.id ∨ (run.turnId.isSome ∧ m.turn = run.turnId))

end RunRow

/-- What may happen to a run, and to the messages. -/
inductive Change where
  | setWaiting (waiting : Waiting) (reason : String)
  | rescheduleWaiting (scheduledFor : ℤ)
  | setRunning (now : ℤ) (threadId turnId : String)
  /-- `tokens` is what its turn's rows of token usage add up to, if it has any. -/
  | finish (now : ℤ) (state : RunState) (reason : Option String) (tokens : Option ℕ)
      (ended : state.isFinished = true)
  | finishWaiting (now : ℤ) (state : RunState) (reason : Option String) (tokens : Option ℕ)
      (ended : state.isFinished = true)
  | setDeadlinePassed (now : ℤ)
  | insertMessage (user bot : ℕ) (routineRun : Option ℕ) (turn : Option String)

namespace Tables

/-- The messages a run added to the conversation. -/
def runMessages (t : Tables) : List ℕ := (t.messages.filter t.run.added).map (·.id)

/-- The run as it is sent. -/
def copy (t : Tables) : RoutineRun := t.run.toApi t.runMessages

def setWaiting (t : Tables) (waiting : Waiting) (reason : String) : Tables :=
  if t.run.state = .waiting ∧ (t.run.waitingFor ≠ some waiting ∨ t.run.reason ≠ some reason) then
    { t with run := { t.run with waitingFor := some waiting, reason := some reason } }
  else t

/-- Moves a waiting run's time due to a later one it stands for. -/
def rescheduleWaiting (t : Tables) (scheduledFor : ℤ) : Tables :=
  if t.run.state = .waiting ∧ t.run.scheduledFor < scheduledFor then
    { t with run := { t.run with scheduledFor } }
  else t

def setRunning (t : Tables) (now : ℤ) (threadId turnId : String) : Tables :=
  if t.run.state = .waiting then
    { t with run := { t.run with
      state := .running
      startedAt := some now
      threadId := some threadId
      turnId := some turnId
      waitingFor := none
      reason := none } }
  else t

def finishFrom (t : Tables) (now : ℤ) (state : RunState) (reason : Option String)
    (tokens : Option ℕ) (states : List RunState) : Tables :=
  if t.run.state ∈ states then
    { t with run := { t.run with
      state
      reason
      finishedAt := some now
      waitingFor := none
      tokens } }
  else t

/-- Ends a run that is waiting or running. -/
def finish (t : Tables) (now : ℤ) (state : RunState) (reason : Option String)
    (tokens : Option ℕ) : Tables :=
  t.finishFrom now state reason tokens [.waiting, .running]

/-- Ends a run that is still waiting. -/
def finishWaiting (t : Tables) (now : ℤ) (state : RunState) (reason : Option String)
    (tokens : Option ℕ) : Tables :=
  t.finishFrom now state reason tokens [.waiting]

def setDeadlinePassed (t : Tables) (now : ℤ) : Tables :=
  if t.run.state = .running ∧ t.run.deadlinePassedAt = none then
    { t with run := { t.run with deadlinePassedAt := some now } }
  else t

def insertMessage (t : Tables) (user bot : ℕ) (routineRun : Option ℕ) (turn : Option String) :
    Tables :=
  let id := nextId (t.messages.map (·.id))
  { t with messages := t.messages ++ [⟨id, user, bot, routineRun, turn⟩] }

def step (t : Tables) : Change → Tables
  | .setWaiting waiting reason => t.setWaiting waiting reason
  | .rescheduleWaiting scheduledFor => t.rescheduleWaiting scheduledFor
  | .setRunning now threadId turnId => t.setRunning now threadId turnId
  | .finish now state reason tokens _ => t.finish now state reason tokens
  | .finishWaiting now state reason tokens _ => t.finishWaiting now state reason tokens
  | .setDeadlinePassed now => t.setDeadlinePassed now
  | .insertMessage user bot routineRun turn => t.insertMessage user bot routineRun turn

/-- The tables after the changes. -/
def after (t : Tables) : List Change → Tables := List.foldl step t

/-- The run as it was at some time of its history. -/
def WasSent (t : Tables) (changes : List Change) (c : RoutineRun) : Prop :=
  ∃ past, past <+: changes ∧ c = (t.after past).copy

end Tables

/-! ## The client -/

def rankOf : RunState → ℕ
  | .waiting => 0
  | .running => 1
  | _ => 2

/-- How far on a copy is. -/
def rank (run : RoutineRun) : ℕ ×ₗ ℕ := toLex (rankOf run.state, run.messages.length)

/-- Keep a copy of a run unless the one held is further on. -/
def mergeRun (runs : IdMap RoutineRun) (run : RoutineRun) : IdMap RoutineRun :=
  match runs[run.id]? with
  | some held =>
    if held = run then runs
    else if rank held > rank run then runs
    else runs.insert run.id run
  | none => runs.insert run.id run

/-- One routine's run history, as far as it is loaded. -/
structure History where
  routine : ℕ
  runs : IdMap RoutineRun

namespace History

def new (routine : ℕ) : History := ⟨routine, ∅⟩

def merge (h : History) (run : RoutineRun) : History :=
  if run.routineId = h.routine then { h with runs := mergeRun h.runs run } else h

end History

/-! ## Ranks never fall -/

namespace Tables

variable {t : Tables} {state : RunState}

theorem rankOf_ended (h : state.isFinished = true) : rankOf state = 2 := by
  cases state with
  | waiting => cases h
  | running => cases h
  | _ => rfl

theorem rankOf_lt (h : state.isFinished = true) (s : RunState) (hs : s ∈ [.waiting, .running]) :
    rankOf s < rankOf state := by
  rw [rankOf_ended h]
  rcases List.mem_cons.mp hs with rfl | hs
  · exact Nat.zero_lt_two
  · rw [List.mem_singleton.mp hs]
    exact Nat.one_lt_two

/-- A run on which the same messages count, in the same state. -/
structure Alike (run other : RunRow) : Prop where
  state : run.state = other.state
  added : run.added = other.added

theorem rank_eq {run : RunRow} (h : Alike t.run run) :
    rank ({ t with run } : Tables).copy = rank t.copy := by
  show toLex (rankOf run.state, ((t.messages.filter run.added).map _).length) =
    toLex (rankOf t.run.state, ((t.messages.filter t.run.added).map _).length)
  rw [h.state, h.added]

theorem rank_lt {run : RunRow} (h : rankOf t.run.state < rankOf run.state) :
    rank t.copy ≤ rank ({ t with run } : Tables).copy :=
  le_of_lt (Prod.Lex.toLex_lt_toLex.mpr (.inl h))

theorem rank_finishFrom {now : ℤ} {reason : Option String} {tokens : Option ℕ}
    {states : List RunState} (hended : state.isFinished = true)
    (hstates : states ⊆ [.waiting, .running]) :
    rank t.copy ≤ rank (t.finishFrom now state reason tokens states).copy := by
  unfold finishFrom
  split
  · next h => exact rank_lt (rankOf_lt hended _ (hstates h))
  · exact le_refl _

theorem rank_insertMessage (user bot : ℕ) (routineRun : Option ℕ) (turn : Option String) :
    rank t.copy ≤ rank (t.insertMessage user bot routineRun turn).copy := by
  refine Prod.Lex.toLex_le_toLex.mpr (.inr ⟨rfl, ?_⟩)
  have hadded : (t.insertMessage user bot routineRun turn).run.added = t.run.added := rfl
  have hmessages : t.messages <+: (t.insertMessage user bot routineRun turn).messages :=
    List.prefix_append _ _
  show (List.map _ _).length ≤ (List.map _ _).length
  rw [List.length_map, List.length_map, hadded]
  exact (hmessages.sublist.filter _).length_le

/-- No change takes a run back, or any of its messages. -/
theorem rank_step (change : Change) : rank t.copy ≤ rank (t.step change).copy := by
  cases change with
  | setWaiting waiting reason =>
      rw [step, setWaiting]
      split
      · exact (rank_eq ⟨rfl, rfl⟩).ge
      · exact le_refl _
  | rescheduleWaiting scheduledFor =>
      rw [step, rescheduleWaiting]
      split
      · exact (rank_eq ⟨rfl, rfl⟩).ge
      · exact le_refl _
  | setRunning now threadId turnId =>
      rw [step, setRunning]
      split
      · next h =>
          refine rank_lt ?_
          rw [h]
          exact Nat.zero_lt_one
      · exact le_refl _
  | finish now state reason tokens ended => exact rank_finishFrom ended (List.Subset.refl _)
  | finishWaiting now state reason tokens ended =>
      exact rank_finishFrom ended (by simp)
  | setDeadlinePassed now =>
      rw [step, setDeadlinePassed]
      split
      · exact (rank_eq ⟨rfl, rfl⟩).ge
      · exact le_refl _
  | insertMessage user bot routineRun turn => exact rank_insertMessage user bot routineRun turn

theorem rank_after (changes : List Change) : rank t.copy ≤ rank (t.after changes).copy := by
  induction changes generalizing t with
  | nil => exact le_refl _
  | cons change changes ih => exact (rank_step change).trans ih

/-- The newest copy is as far on as any. -/
theorem WasSent.rank_le {changes : List Change} {c : RoutineRun} (h : t.WasSent changes c) :
    rank c ≤ rank (t.after changes).copy := by
  obtain ⟨past, ⟨rest, rfl⟩, rfl⟩ := h
  rw [after, List.foldl_append]
  exact rank_after rest

theorem step_keys (change : Change) : (t.step change).run.id = t.run.id ∧
    (t.step change).run.routine = t.run.routine := by
  cases change with
  | setWaiting waiting reason => rw [step, setWaiting]; split <;> exact ⟨rfl, rfl⟩
  | rescheduleWaiting scheduledFor => rw [step, rescheduleWaiting]; split <;> exact ⟨rfl, rfl⟩
  | setRunning now threadId turnId => rw [step, setRunning]; split <;> exact ⟨rfl, rfl⟩
  | finish now state reason tokens ended =>
      rw [step, finish, finishFrom]; split <;> exact ⟨rfl, rfl⟩
  | finishWaiting now state reason tokens ended =>
      rw [step, finishWaiting, finishFrom]; split <;> exact ⟨rfl, rfl⟩
  | setDeadlinePassed now => rw [step, setDeadlinePassed]; split <;> exact ⟨rfl, rfl⟩
  | insertMessage user bot routineRun turn => exact ⟨rfl, rfl⟩

theorem after_keys (changes : List Change) : (t.after changes).run.id = t.run.id ∧
    (t.after changes).run.routine = t.run.routine := by
  induction changes generalizing t with
  | nil => exact ⟨rfl, rfl⟩
  | cons change changes ih =>
      obtain ⟨hid, hroutine⟩ := step_keys (t := t) change
      obtain ⟨hid', hroutine'⟩ := ih (t := t.step change)
      exact ⟨hid'.trans hid, hroutine'.trans hroutine⟩

theorem WasSent.keys {changes : List Change} {c : RoutineRun} (h : t.WasSent changes c) :
    c.id = t.run.id ∧ c.routineId = t.run.routine := by
  obtain ⟨past, -, rfl⟩ := h
  exact after_keys past

end Tables

/-! ## What the lists hold -/

section Lists

variable {runs : IdMap RoutineRun} {copies : List RoutineRun} {id : ℕ}

/-- The copies of one run. -/
def copiesOf (id : ℕ) (copies : List RoutineRun) : List RoutineRun := copies.filter (·.id = id)

theorem getElem?_mergeRun (run : RoutineRun) : (mergeRun runs run)[id]? =
    if run.id = id then Merges.keep rank runs[id]? run else runs[id]? := by
  unfold mergeRun
  by_cases hid : run.id = id
  · subst hid
    rw [if_pos rfl]
    cases hheld : runs[run.id]? with
    | none => simp [Merges.keep]
    | some held =>
        by_cases heq : held = run
        · simp [Merges.keep, heq, hheld]
        · by_cases hlt : rank run < rank held
          · simp [Merges.keep, heq, hlt, hheld]
          · simp [Merges.keep, heq, hlt]
  · rw [if_neg hid]
    split
    · split
      · rfl
      · split
        · rfl
        · rw [IdMap.getElem?_insert', if_neg hid]
    · rw [IdMap.getElem?_insert', if_neg hid]

theorem getElem?_merged : (copies.foldl mergeRun runs)[id]? =
    Merges.settle rank runs[id]? (copiesOf id copies) := by
  induction copies generalizing runs with
  | nil => rfl
  | cons run copies ih =>
      rw [List.foldl_cons, ih, getElem?_mergeRun]
      by_cases hid : run.id = id
      · have hcons : copiesOf id (run :: copies) = run :: copiesOf id copies := by
          simp [copiesOf, hid]
        rw [hcons, Merges.settle_cons, if_pos hid]
      · have hcons : copiesOf id (run :: copies) = copiesOf id copies := by simp [copiesOf, hid]
        rw [hcons, if_neg hid]

/-- The history merges the copies of its routine's runs. -/
theorem History.runs_merged (h : History) : (copies.foldl History.merge h).runs =
    (copies.filter (·.routineId = h.routine)).foldl mergeRun h.runs := by
  induction copies generalizing h with
  | nil => rfl
  | cons run copies ih =>
      rw [List.foldl_cons, ih, List.filter_cons, History.merge]
      by_cases hroutine : run.routineId = h.routine
      · simp [hroutine]
      · simp [hroutine]

end Lists

/-! ## The newest copy -/

variable {t : Tables} {changes : List Change} {copies : List RoutineRun}

/-- The list the client holds of a routine's runs, after the copies. -/
def historyOf (t : Tables) (copies : List RoutineRun) : History :=
  copies.foldl History.merge (History.new t.run.routine)

/-- The recent runs the client holds, after the copies. -/
def recentOf (copies : List RoutineRun) : IdMap RoutineRun := copies.foldl mergeRun ∅

theorem getElem?_recentOf (id : ℕ) :
    (recentOf copies)[id]? = Merges.settle rank none (copiesOf id copies) := by
  rw [recentOf, getElem?_merged]
  simp

/-- The copies of the run are its routine's, so the history takes them all. -/
theorem getElem?_historyOf (hsent : ∀ c ∈ copies, c.id = t.run.id → t.WasSent changes c) :
    (historyOf t copies).runs[t.run.id]? =
      Merges.settle rank none (copiesOf t.run.id copies) := by
  rw [historyOf, History.runs_merged, getElem?_merged, copiesOf, List.filter_filter]
  have hsame : copies.filter (fun c => decide (c.id = t.run.id) &&
      decide (c.routineId = (History.new t.run.routine).routine)) = copiesOf t.run.id copies := by
    refine List.filter_congr fun c hc => ?_
    by_cases hid : c.id = t.run.id
    · simp [hid, (hsent c hc hid).keys.2, History.new]
    · simp [hid]
  rw [hsame]
  simp [History.new]

/-- Whatever copies of a run from its history arrive in whatever order, its newest among them, the
lists hold the newest in the end just when no other copy in its state, with as many messages,
arrives after it. -/
theorem newest_held (t : Tables) (changes : List Change) (copies : List RoutineRun)
    (hsent : ∀ c ∈ copies, c.id = t.run.id → t.WasSent changes c)
    (hnewest : (t.after changes).copy ∈ copies) :
    ((recentOf copies)[t.run.id]? = some (t.after changes).copy ↔
      Merges.Unovertaken rank (t.after changes).copy (copiesOf t.run.id copies)) ∧
    ((historyOf t copies).runs[t.run.id]? = some (t.after changes).copy ↔
      Merges.Unovertaken rank (t.after changes).copy (copiesOf t.run.id copies)) := by
  have hmem : (t.after changes).copy ∈ copiesOf t.run.id copies := by
    have hid : (t.after changes).copy.id = t.run.id := (Tables.after_keys changes).1
    exact List.mem_filter.mpr ⟨hnewest, decide_eq_true hid⟩
  have hmax : ∀ c ∈ copiesOf t.run.id copies, rank c ≤ rank (t.after changes).copy := by
    intro c hc
    obtain ⟨hc, hid⟩ := List.mem_filter.mp hc
    exact (hsent c hc (of_decide_eq_true hid)).rank_le
  have hiff := Merges.settle_eq_iff hmem hmax
  rw [getElem?_recentOf, getElem?_historyOf hsent]
  exact ⟨hiff, hiff⟩

/-- A run as it is queued. -/
def queuedRun : RunRow :=
  { id := 1
    user := 1
    bot := 1
    routine := 1
    trigger := .schedule
    scheduledFor := 0
    queuedAt := 0
    startedAt := none
    finishedAt := none
    state := .waiting
    reason := none
    waitingFor := none
    threadId := none
    turnId := none
    deadlinePassedAt := none
    tokens := none }

def queued : Tables := ⟨queuedRun, []⟩

/-- The run's time due moves while it waits. -/
def moved : List Change := [.rescheduleWaiting 1000]

theorem wasSent_queued (changes : List Change) : queued.WasSent changes queued.copy :=
  ⟨[], List.nil_prefix, rfl⟩

theorem wasSent_moved : queued.WasSent moved (queued.after moved).copy :=
  ⟨moved, List.prefix_rfl, rfl⟩

/-- Then the run starts. -/
def started : List Change := moved ++ [.setRunning 2000 "thread" "turn"]

/-- A copy from before the run started that arrives after its newest is dropped. -/
theorem newest_held_started :
    (recentOf [queued.copy, (queued.after started).copy, (queued.after moved).copy])[1]? =
      some (queued.after started).copy ∧
    (historyOf queued [queued.copy, (queued.after started).copy, (queued.after moved).copy]).runs[1]? =
      some (queued.after started).copy := by
  have hlast : Merges.Unovertaken rank (queued.after started).copy
      (copiesOf 1 [queued.copy, (queued.after started).copy, (queued.after moved).copy]) := by
    change Merges.Unovertaken rank _ ([queued.copy] ++ _ :: [(queued.after moved).copy])
    refine Merges.unovertaken_of_last fun c hc => ?_
    rw [List.mem_singleton.mp hc]
    decide
  have hheld := newest_held queued started
    [queued.copy, (queued.after started).copy, (queued.after moved).copy] (fun c hc _ => ?_)
    (by simp)
  · exact ⟨hheld.1.mpr hlast, hheld.2.mpr hlast⟩
  · simp only [List.mem_cons, List.not_mem_nil, or_false] at hc
    rcases hc with rfl | rfl | rfl
    · exact wasSent_queued started
    · exact ⟨started, List.prefix_rfl, rfl⟩
    · exact ⟨moved, List.prefix_append _ _, rfl⟩

/-- A page read before the move and taken after its event brings the old time back. -/
theorem newest_replaced :
    (∀ c ∈ [(queued.after moved).copy, queued.copy], queued.WasSent moved c) ∧
    (recentOf [(queued.after moved).copy, queued.copy])[1]? = some queued.copy ∧
    queued.copy ≠ (queued.after moved).copy := by
  refine ⟨fun c hc => ?_, ?_, by decide⟩
  · rcases List.mem_cons.mp hc with rfl | hc
    · exact wasSent_moved
    · rw [List.mem_singleton.mp hc]
      exact wasSent_queued moved
  · rw [getElem?_recentOf]
    rfl

end Bokkie.RunCopies
