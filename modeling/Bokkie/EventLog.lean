import Mathlib.Data.List.Sort
import Bokkie.EventFrames
import Bokkie.Runs

/-!
# The per-user event log

One user's event log as the gateway's tasks see it: the rows of the `events` table, the cached
`last` behind its lock, and whoever holds that lock. A step is one stretch of a task between two
await points, so every await is a place where other tasks run and where the task can be dropped.
-/

namespace Bokkie

namespace EventLog

open Runs

/-- `EventLog::with_limits`: both limits are at least one. -/
structure Limits where
  retention : ℕ
  capacity : ℕ
  retention_pos : 0 < retention
  capacity_pos : 0 < capacity

def Limits.withLimits (retention capacity : ℕ) : Limits :=
  ⟨max retention 1, max capacity 1, by omega, by omega⟩

def Limits.new : Limits := Limits.withLimits 5000 1024

/-- An open `Batch`. The rows its transaction has written are those it will broadcast. -/
structure Batch (ε : Type) where
  first : ℕ
  previous : ℕ
  tx : List (EventEnvelope ε)
  pending : List (EventEnvelope ε)
  numbered : Numbered first pending
  previous_eq : previous = first + pending.length
  written : tx = pending
deriving DecidableEq

variable {ε : Type}

namespace Batch

def begin (first : ℕ) : Batch ε where
  first := first
  previous := first
  tx := []
  pending := []
  numbered := Numbered.nil first
  previous_eq := rfl
  written := rfl

def envelope (b : Batch ε) (now : ℤ) (event : ε) : EventEnvelope ε :=
  ⟨b.previous + 1, now, event⟩

/-- The part of `Batch::emit` after its `INSERT` has succeeded. -/
def emit (b : Batch ε) (now : ℤ) (event : ε) : Batch ε where
  first := b.first
  previous := (b.envelope now event).seq
  tx := b.tx ++ [b.envelope now event]
  pending := b.pending ++ [b.envelope now event]
  numbered := b.numbered.snoc (by simp [envelope, b.previous_eq])
  previous_eq := by simp [envelope, b.previous_eq, Nat.add_assoc]
  written := by rw [b.written]

@[simp] theorem begin_first (n : ℕ) : (begin n : Batch ε).first = n := rfl
@[simp] theorem emit_first (b : Batch ε) (now : ℤ) (event : ε) :
    (b.emit now event).first = b.first := rfl

/-- Whether committing this batch prunes the log. -/
def prunes (limits : Limits) (b : Batch ε) : Bool :=
  decide (b.previous / 256 > b.first / 256) && decide (b.previous > limits.retention)

end Batch

/-- Who holds the lock on `last`, and where in its call it stands. -/
inductive Holder (ε : Type) where
  | free
  /-- `Batch::begin` waits for the write lock; it has taken `last`. -/
  | beginning (cached : Option ℕ)
  /-- `Batch::begin` reads the stored maximum in its transaction. -/
  | reading
  | opened (batch : Batch ε)
  /-- `Batch::emit` waits for its `INSERT`. -/
  | inserting (batch : Batch ε) (now : ℤ) (event : ε)
  /-- `Batch::finish` waits for its `COMMIT`. -/
  | committing (batch : Batch ε)
  /-- `Batch::finish` has committed and has `rest` left to broadcast. -/
  | broadcasting (batch : Batch ε) (rest : List (EventEnvelope ε))
  /-- `EventLog::latest` reads the stored maximum. -/
  | latest
deriving DecidableEq

namespace Holder

/-- The batch whose transaction is open. -/
def batch : Holder ε → Option (Batch ε)
  | .opened b | .inserting b _ _ | .committing b => some b
  | _ => none

/-- The events that are committed and still to be broadcast. -/
def rest : Holder ε → List (EventEnvelope ε)
  | .broadcasting _ rest => rest
  | _ => []

/-- Whether a write transaction is open: no other connection can write then. -/
def writing : Holder ε → Bool
  | .reading | .opened _ | .inserting _ _ _ | .committing _ => true
  | _ => false

/-- The newest number the holder has in hand from the cache or from its own commit. -/
def known : Holder ε → Option ℕ
  | .beginning cached => cached
  | .broadcasting b _ => some b.previous
  | _ => none

end Holder

structure UserLog (ε : Type) where
  /-- The user's committed rows of the `events` table. -/
  stored : List (EventEnvelope ε)
  last : Option ℕ
  holder : Holder ε
  /-- The bounds of the prunes that `Batch::finish` has still to run. -/
  prunes : List ℕ
  /-- Every event whose transaction has committed so far. -/
  committed : List (EventEnvelope ε)
  /-- Every event broadcast so far, in order. -/
  sent : List (EventEnvelope ε)
deriving DecidableEq

namespace UserLog

def new : UserLog ε := ⟨[], none, .free, [], [], []⟩

/-- `stored_last`. -/
def storedLast (s : UserLog ε) : ℕ := (s.stored.map (·.seq)).max?.getD 0

/-- `EventLog::earliest`. -/
def earliest (s : UserLog ε) : Option ℕ := (s.stored.map (·.seq)).min?

/-- `EventLog::since`. -/
def since (s : UserLog ε) (after limit : ℕ) : List (EventEnvelope ε) :=
  ((s.stored.filter fun e => after < e.seq).insertionSort fun a b => a.seq ≤ b.seq).take limit

/-- Whether the primary key of `events` refuses a row of this number. -/
def taken (s : UserLog ε) (b : Batch ε) (seq : ℕ) : Bool :=
  (s.stored ++ b.tx).any fun e => e.seq == seq

end UserLog

inductive Action (ε : Type) where
  /-- `Batch::begin` gets the lock and takes the cached number. -/
  | begin
  /-- It gets the write lock. -/
  | write
  /-- It has read the stored maximum. -/
  | readStored
  | emit (now : ℤ) (event : ε)
  /-- The `INSERT` of an emit has returned. -/
  | inserted
  /-- `Batch::commit` hands the batch to its own task. -/
  | commit
  | committed
  | commitFailed
  | broadcast
  | release
  /-- The call that holds the lock fails or is dropped where it stands. -/
  | drop
  | latest
  | latestRead
  | prune (bound : ℕ)
  | pruneFailed (bound : ℕ)
  /-- The gateway stops wherever its tasks stand, and starts again. -/
  | restart
deriving DecidableEq

/-- `EventLog::append` is `begin`, one `emit` and `finish` in a task that is never dropped, so
its steps are among those of a batch. -/
def step (limits : Limits) (s : UserLog ε) : Action ε → Option (UserLog ε)
  | .begin => match s.holder with
    | .free => some { s with last := none, holder := .beginning s.last }
    | _ => none
  | .write => match s.holder with
    | .beginning (some previous) => some { s with holder := .opened (Batch.begin previous) }
    | .beginning none => some { s with holder := .reading }
    | _ => none
  | .readStored => match s.holder with
    | .reading => some { s with holder := .opened (Batch.begin s.storedLast) }
    | _ => none
  | .emit now event => match s.holder with
    | .opened b => some { s with holder := .inserting b now event }
    | _ => none
  | .inserted => match s.holder with
    | .inserting b now event =>
      -- A row refused by the primary key leaves the batch as it was; the caller gets the error.
      if s.taken b (b.envelope now event).seq then some { s with holder := .opened b }
      else some { s with holder := .opened (b.emit now event) }
    | _ => none
  | .commit => match s.holder with
    | .opened b => some { s with holder := .committing b }
    | _ => none
  | .committed => match s.holder with
    | .committing b =>
      some { s with
        stored := s.stored ++ b.tx
        last := some b.previous
        holder := .broadcasting b b.pending
        committed := s.committed ++ b.tx }
    | _ => none
  | .commitFailed => match s.holder with
    | .committing _ => some { s with holder := .free }
    | _ => none
  | .broadcast => match s.holder with
    | .broadcasting b (e :: rest) =>
      some { s with holder := .broadcasting b rest, sent := s.sent ++ [e] }
    | _ => none
  | .release => match s.holder with
    | .broadcasting b [] =>
      some { s with
        holder := .free
        prunes := if b.prunes limits then s.prunes ++ [b.previous - limits.retention]
          else s.prunes }
    | _ => none
  | .drop => match s.holder with
    | .beginning _ | .reading | .opened _ | .inserting _ _ _ | .latest =>
      some { s with holder := .free }
    -- `Batch::finish` runs in its own task, which nobody drops.
    | .free | .committing _ | .broadcasting _ _ => none
  | .latest => match s.holder, s.last with
    | .free, some _ => some s
    | .free, none => some { s with holder := .latest }
    | _, _ => none
  | .latestRead => match s.holder with
    | .latest => some { s with last := some s.storedLast, holder := .free }
    | _ => none
  | .prune bound =>
    if bound ∈ s.prunes ∧ s.holder.writing = false then
      some { s with
        stored := s.stored.filter fun e => ¬ e.seq ≤ bound
        prunes := s.prunes.erase bound }
    else none
  | .pruneFailed bound =>
    if bound ∈ s.prunes then some { s with prunes := s.prunes.erase bound } else none
  | .restart => some { s with last := none, holder := .free, prunes := [] }

end EventLog

end Bokkie
