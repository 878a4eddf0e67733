import Bokkie.Meters
import Bokkie.RoutineScheduler

/-!
# Token usage

Tokens come from `thread/tokenUsage/updated` as each thread's total, and count by its growth. A
user's allowance counts the growth of the last seven days, and a routine's run what its turn
reported.
-/

namespace Bokkie

namespace TokenUsage

open Accounts (DAY_MS Limits)
open Scheduler (RunState)

def TURN_WINDOW_MS : ℤ := DAY_MS

def TOKEN_WINDOW_MS : ℤ := 7 * DAY_MS

/-- The largest integer the database holds. -/
def I64_MAX : ℕ := 2 ^ 63 - 1

/-- A thread of a Bot, and the total it last reported. -/
structure ThreadRow where
  user : ℕ
  thread : String
  bot : ℕ
  tokensReported : ℕ

structure TurnRow where
  user : ℕ
  bot : ℕ
  time : ℤ

structure UsageRow where
  user : ℕ
  bot : ℕ
  time : ℤ
  tokens : ℕ
  turn : Option String

structure AccountLimits where
  user : ℕ
  limits : Limits

structure Tables where
  accounts : List AccountLimits
  threads : List ThreadRow
  turns : List TurnRow
  usage : List UsageRow

structure Allowance where
  limits : Limits
  turnsToday : ℕ
  tokensThisWeek : ℕ
  exhausted : Bool

/-- SQLite's `sum` of integers: none for no rows, and an error where it overflows. -/
def sum : List ℕ → Except Failure (Option ℕ)
  | [] => .ok none
  | xs => match Meter.checkedSum I64_MAX xs with
    | none => .error .internal
    | some n => .ok (some n)

namespace ThreadRow

def isRow (user : ℕ) (thread : String) (r : ThreadRow) : Bool := r.user = user ∧ r.thread = thread

end ThreadRow

namespace Tables

/-- The thread's row. -/
def thread (t : Tables) (user : ℕ) (thread : String) : Option ThreadRow :=
  t.threads.find? (·.isRow user thread)

/-- The Bot one of whose threads it is. -/
def botByThread (t : Tables) (user : ℕ) (thread : String) : Option ℕ :=
  (t.thread user thread).map (·.bot)

/-- The trigger `bots_record_thread`: a thread a Bot is given joins its threads. -/
def recordThread (t : Tables) (user : ℕ) (thread : String) (bot : ℕ) : Tables :=
  if (t.thread user thread).isSome then t
  else { t with threads := t.threads ++ [⟨user, thread, bot, 0⟩] }

/-- Records the total reported for a thread by a turn, storing its growth. -/
def recordTurnTokens (t : Tables) (now : ℤ) (user bot : ℕ) (thread : String)
    (turn : Option String) (threadTotal : ℕ) : Except Failure (ℕ × Tables) :=
  match t.threads.find? fun r => r.isRow user thread ∧ r.bot = bot with
  | none => .error .notFound
  | some row =>
    let total := min threadTotal I64_MAX
    -- A total that fell is a new baseline, not new usage.
    let growth := total - row.tokensReported
    let threads := t.threads.map fun r =>
      if r.isRow user thread then { r with tokensReported := total } else r
    let usage := if 0 < growth then t.usage ++ [⟨user, bot, now, growth, turn⟩] else t.usage
    .ok (growth, { t with threads, usage })

/-- What a user has used of an allowance. -/
def allowance (t : Tables) (now : ℤ) (user : ℕ) (limits : Limits) : Except Failure Allowance := do
  let turns := t.turns.countP fun r => r.user = user ∧ now - TURN_WINDOW_MS < r.time
  let tokens ← sum ((t.usage.filter fun r =>
    r.user = user ∧ now - TOKEN_WINDOW_MS < r.time).map (·.tokens))
  let turnsToday := min turns (2 ^ 32 - 1)
  let tokensThisWeek := tokens.getD 0
  return {
    limits, turnsToday, tokensThisWeek
    exhausted := limits.dailyTurns.any (· ≤ turnsToday) ||
      limits.weeklyTokens.any (· ≤ tokensThisWeek) }

/-- The user's allowance with their current limits. -/
def ownAllowance (t : Tables) (now : ℤ) (user : ℕ) : Except Failure Allowance :=
  let limits := (t.accounts.find? (·.user = user)).elim ⟨none, none⟩ (·.limits)
  t.allowance now user limits

/-- `thread/tokenUsage/updated`: the report is recorded and then the allowance read, as the clock
tells by then, in one transaction that fails as a whole. -/
def tokenUsageUpdated (t : Tables) (now readAt : ℤ) (user : ℕ) (thread turn : String)
    (totalTokens : Int64) : Except Failure (Option Allowance × Tables) :=
  match t.botByThread user thread with
  | none => .ok (none, t)
  | some bot => do
    let (_, t') ← t.recordTurnTokens now user bot thread (some turn) totalTokens.toInt.toNat
    let allowance ← t'.ownAllowance readAt user
    return (some allowance, t')

end Tables

/-- A routine's run. -/
structure RunRow where
  id : ℕ
  user : ℕ
  turn : Option String
  state : RunState
  reason : Option String
  finishedAt : Option ℤ
  tokens : Option ℕ

/-- The tokens reported by a turn of the user's. -/
def Tables.turnTokens (t : Tables) (user : ℕ) (turn : Option String) :
    Except Failure (Option ℕ) :=
  sum ((t.usage.filter fun r => r.user = user ∧ turn.isSome ∧ r.turn = turn).map (·.tokens))

/-- Ends a run that is in one of the states, with the tokens its turn used. -/
def finishFrom (t : Tables) (runs : List RunRow) (now : ℤ) (user id : ℕ) (state : RunState)
    (reason : Option String) (states : List RunState) :
    Except Failure (Option RunRow × List RunRow) :=
  match runs.find? fun r => r.id = id ∧ r.user = user ∧ r.state ∈ states with
  | none => .ok (none, runs)
  | some run => do
    let tokens ← t.turnTokens run.user run.turn
    let row := { run with state, reason, finishedAt := some now, tokens }
    return (some row, runs.map fun r => if r.id = id then row else r)

end TokenUsage

end Bokkie
