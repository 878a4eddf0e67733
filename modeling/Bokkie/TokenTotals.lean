import Bokkie.TokenUsage

/-!
# What token reports add up to

Reports arrive for the threads of any users' Bots, the threads that were replaced among them. The
tables hold the growth of each thread's total, and the database can add it up as long as the sum
is an integer it can hold.
-/

namespace Bokkie

namespace TokenUsage

open Accounts (Limits)
open Scheduler (RunState)

inductive Action where
  /-- A Bot is given a thread. -/
  | thread (user : ℕ) (thread : String) (bot : ℕ)
  /-- A thread's total is reported, and the allowance read after. -/
  | report (now readAt : ℤ) (user : ℕ) (thread turn : String) (totalTokens : Int64)
  /-- The user's allowance is read. -/
  | read (now : ℤ) (user : ℕ) (limits : Limits)
  /-- One of the runs there are ends. -/
  | finish (runs : List RunRow) (now : ℤ) (user id : ℕ) (state : RunState) (reason : Option String)
      (states : List RunState)

/-- The tables after an action, if it succeeds. Runs have a table of their own. -/
def answer (t : Tables) : Action → Except Failure Tables
  | .thread user thread bot => .ok (t.recordThread user thread bot)
  | .report now readAt user thread turn totalTokens => do
    let (_, t') ← t.tokenUsageUpdated now readAt user thread turn totalTokens
    return t'
  | .read now user limits => do
    let _ ← t.allowance now user limits
    return t
  | .finish runs now user id state reason states => do
    let _ ← finishFrom t runs now user id state reason states
    return t

/-- A transaction that fails changes nothing. -/
def step (t : Tables) (a : Action) : Tables :=
  match answer t a with
  | .ok t' => t'
  | .error _ => t

def run (t : Tables) (as : List Action) : Tables := as.foldl step t

/-- Before the first thread. -/
def Tables.new (accounts : List AccountLimits) (turns : List TurnRow) : Tables :=
  ⟨accounts, [], turns, []⟩

/-- A total reported for a thread that a Bot of the user's has or had. -/
structure Report where
  time : ℤ
  user : ℕ
  thread : String
  turn : String
  total : ℕ

namespace Report

def key (r : Report) : ℕ × String := (r.user, r.thread)

/-- Counted by the user's allowance when it is read at `now`. -/
def inWindow (user : ℕ) (now : ℤ) (r : Report) : Bool :=
  r.user = user ∧ now - TOKEN_WINDOW_MS < r.time

def ofTurn (user : ℕ) (turn : String) (r : Report) : Bool := r.user = user ∧ r.turn = turn

end Report

/-- A Bot of the user's was given the thread. -/
def knows (as : List Action) (user : ℕ) (thread : String) : Bool :=
  as.any fun
    | .thread user' thread' _ => user' = user ∧ thread' = thread
    | _ => false

/-- The reports of one action, after others. A negative total reads as none. -/
def reportsOf (past : List Action) : Action → List Report
  | .report now _ user thread turn totalTokens =>
    if knows past user thread then [⟨now, user, thread, turn, totalTokens.toInt.toNat⟩] else []
  | _ => []

def reportsAfter : List Action → List Action → List Report
  | _, [] => []
  | past, a :: as => reportsOf past a ++ reportsAfter (past ++ [a]) as

def reports (as : List Action) : List Report := reportsAfter [] as

/-- The rises of the reports of a kind, each above the thread's report before it. -/
def used (p : Report → Bool) (as : List Action) : ℕ :=
  Meter.used Report.key Report.total p (reports as)

section Sums

variable {t : Tables} {xs : List ℕ}

theorem sum_ok (h : xs.sum ≤ I64_MAX) (hpos : ∀ x ∈ xs, 0 < x) :
    sum xs = .ok (if xs.sum = 0 then none else some xs.sum) := by
  cases xs with
  | nil => rfl
  | cons x xs =>
      have hne : (x :: xs).sum ≠ 0 := by
        have := hpos x (by simp)
        rw [List.sum_cons]
        omega
      rw [if_neg hne]
      unfold sum
      dsimp only
      rw [Meter.checkedSum_eq, if_pos h]

theorem sum_le {o : Option ℕ} (h : sum xs = .ok o) : o.getD 0 = xs.sum ∧ xs.sum ≤ I64_MAX := by
  cases xs with
  | nil =>
      obtain rfl : none = o := Except.ok.inj h
      exact ⟨rfl, Nat.zero_le _⟩
  | cons x xs =>
      unfold sum at h
      dsimp only at h
      rw [Meter.checkedSum_eq] at h
      split at h
      · cases h
      · next n hn =>
        obtain ⟨hle, hn⟩ := Option.ite_none_right_eq_some.mp hn
        obtain rfl : some n = o := Except.ok.inj h
        exact ⟨(Option.some.inj hn).symm, hle⟩

/-- The tokens of the rows of a kind. -/
def Tables.tokens (t : Tables) (p : UsageRow → Bool) : ℕ := ((t.usage.filter p).map (·.tokens)).sum

/-- No row is empty. -/
def Tables.Positive (t : Tables) : Prop := ∀ r ∈ t.usage, 0 < r.tokens

theorem Tables.Positive.filter (h : t.Positive) (p : UsageRow → Bool) :
    ∀ x ∈ (t.usage.filter p).map (·.tokens), 0 < x := by
  intro x hx
  obtain ⟨r, hr, rfl⟩ := List.mem_map.mp hx
  exact h r (List.mem_of_mem_filter hr)

theorem allowance_ok (hpos : t.Positive) (now : ℤ) (user : ℕ) (limits : Limits)
    (h : t.tokens (fun r => r.user = user ∧ now - TOKEN_WINDOW_MS < r.time) ≤ I64_MAX) :
    ∃ allowance, t.allowance now user limits = .ok allowance ∧ allowance.tokensThisWeek =
      t.tokens fun r => r.user = user ∧ now - TOKEN_WINDOW_MS < r.time := by
  unfold Tables.allowance
  rw [sum_ok h (hpos.filter _)]
  refine ⟨_, rfl, ?_⟩
  dsimp only
  split
  · next hzero => exact hzero.symm
  · rfl

theorem allowance_le {now : ℤ} {user : ℕ} {limits : Limits} {allowance : Allowance}
    (h : t.allowance now user limits = .ok allowance) : allowance.tokensThisWeek ≤ I64_MAX := by
  unfold Tables.allowance at h
  cases hsum : sum ((t.usage.filter fun r =>
      r.user = user ∧ now - TOKEN_WINDOW_MS < r.time).map (·.tokens)) with
  | error e =>
      rw [hsum] at h
      cases h
  | ok o =>
      rw [hsum] at h
      obtain rfl := Except.ok.inj h
      obtain ⟨hget, hle⟩ := sum_le hsum
      exact hget.trans_le hle

end Sums

section Reports

variable {as bs : List Action} {a : Action}

theorem reportsAfter_append {past : List Action} :
    reportsAfter past (as ++ bs) = reportsAfter past as ++ reportsAfter (past ++ as) bs := by
  induction as generalizing past with
  | nil => simp [reportsAfter]
  | cons a as ih => simp [reportsAfter, ih, List.append_assoc]

theorem reports_snoc : reports (as ++ [a]) = reports as ++ reportsOf as a := by
  unfold reports
  rw [reportsAfter_append]
  simp [reportsAfter]

theorem knows_snoc {user : ℕ} {thread : String} : knows (as ++ [a]) user thread =
    (knows as user thread || knows [a] user thread) := by
  simp [knows, List.any_append]

end Reports

/-- A row, but for the Bot it counts for. -/
structure Entry where
  user : ℕ
  time : ℤ
  tokens : ℕ
  turn : Option String

def UsageRow.entry (r : UsageRow) : Entry := ⟨r.user, r.time, r.tokens, r.turn⟩

/-- The row of a report and its rise. -/
def entryOf (r : Report × ℕ) : Entry := ⟨r.1.user, r.1.time, r.2, some r.1.turn⟩

/-- The rows that reports leave: those that rise. -/
def entries (rs : List Report) : List Entry :=
  ((Meter.rises Report.key Report.total rs).filter (0 < ·.2)).map entryOf

/-- The tables hold the last total of each thread, and the rises. -/
structure Holds (as : List Action) (t : Tables) : Prop where
  known : ∀ user thread, (t.thread user thread).isSome = knows as user thread
  last : ∀ user thread row, t.thread user thread = some row →
    row.tokensReported = Meter.last Report.key Report.total (reports as) (user, thread)
  reported : ∀ r ∈ reports as, knows as r.user r.thread
  usage : t.usage.map (·.entry) = entries (reports as)

section Step

variable {t : Tables}

theorem entries_snoc {rs : List Report} {r : Report} : entries (rs ++ [r]) = entries rs ++
    if 0 < Meter.rise Report.key Report.total rs r then
      [entryOf (r, Meter.rise Report.key Report.total rs r)] else [] := by
  unfold entries
  rw [Meter.rises_snoc, List.filter_append, List.map_append]
  split <;> simp_all

/-- Rows add up to the rises of the reports they come from. -/
theorem tokens_eq {rs : List Report} (h : t.usage.map (·.entry) = entries rs)
    {p : UsageRow → Bool} {q : Report → Bool} {e : Entry → Bool} (hp : ∀ r, p r = e r.entry)
    (hq : ∀ r n, q r = e (entryOf (r, n))) :
    t.tokens p = Meter.used Report.key Report.total q rs := by
  have hrows : t.tokens p = (((t.usage.map (·.entry)).filter e).map (·.tokens)).sum := by
    unfold Tables.tokens
    rw [List.filter_map, List.map_map, funext hp]
    rfl
  rw [hrows, h]
  unfold entries Meter.used
  generalize Meter.rises Report.key Report.total rs = xs
  induction xs with
  | nil => rfl
  | cons x xs ih =>
      have hx : q x.1 = e (entryOf x) := hq x.1 x.2
      by_cases hpos : 0 < x.2
      · rw [List.filter_cons_of_pos (by simpa using hpos), List.map_cons]
        by_cases he : e (entryOf x)
        · rw [List.filter_cons_of_pos he, List.filter_cons_of_pos (by rw [hx]; exact he)]
          simp only [List.map_cons, List.sum_cons, ih]
          rfl
        · rw [List.filter_cons_of_neg he, List.filter_cons_of_neg (by rw [hx]; exact he)]
          exact ih
      · rw [List.filter_cons_of_neg (by simpa using hpos), ih]
        by_cases he : e (entryOf x)
        · rw [List.filter_cons_of_pos (by rw [hx]; exact he), List.map_cons, List.sum_cons]
          omega
        · rw [List.filter_cons_of_neg (by rw [hx]; exact he)]

theorem Holds.positive {as : List Action} (h : Holds as t) : t.Positive := by
  intro r hr
  have hentry : r.entry ∈ entries (reports as) := h.usage ▸ List.mem_map_of_mem hr
  obtain ⟨x, hx, hxr⟩ := List.mem_map.mp hentry
  have htokens : x.2 = r.tokens := congrArg Entry.tokens hxr
  rw [← htokens]
  simpa using (List.mem_filter.mp hx).2

theorem Holds.window {as : List Action} (h : Holds as t) (user : ℕ) (now : ℤ) :
    t.tokens (fun r => r.user = user ∧ now - TOKEN_WINDOW_MS < r.time) =
      used (Report.inWindow user now) as :=
  tokens_eq h.usage (e := fun x => x.user = user ∧ now - TOKEN_WINDOW_MS < x.time)
    (fun _ => rfl) fun _ _ => rfl

theorem Holds.turn {as : List Action} (h : Holds as t) (user : ℕ) (turn : String) :
    t.tokens (fun r => r.user = user ∧ (some turn).isSome ∧ r.turn = some turn) =
      used (Report.ofTurn user turn) as :=
  tokens_eq h.usage (e := fun x => x.user = user ∧ x.turn = some turn)
    (fun _ => decide_eq_decide.mpr (by simp [UsageRow.entry]))
    fun _ _ => by simp [Report.ofTurn, entryOf]

theorem thread_recordThread {user user' bot : ℕ} {thread thread' : String} :
    (t.recordThread user thread bot).thread user' thread' =
      (t.thread user' thread').or
        (if user' = user ∧ thread' = thread then some ⟨user, thread, bot, 0⟩ else none) := by
  unfold Tables.recordThread
  split
  · next hsome =>
    by_cases hkey : user' = user ∧ thread' = thread
    · obtain ⟨rfl, rfl⟩ := hkey
      obtain ⟨row, hrow⟩ := Option.isSome_iff_exists.mp hsome
      rw [hrow, Option.some_or]
    · rw [if_neg hkey, Option.or_none]
  · unfold Tables.thread
    dsimp only
    rw [List.find?_append]
    congr 1
    by_cases hkey : user' = user ∧ thread' = thread
    · simp [hkey, ThreadRow.isRow]
    · have hkey' : ¬ (user = user' ∧ thread = thread') := fun h => hkey ⟨h.1.symm, h.2.symm⟩
      simp [hkey, hkey', ThreadRow.isRow]

theorem Holds.recordThread {as : List Action} (h : Holds as t) (user : ℕ) (thread : String)
    (bot : ℕ) :
    Holds (as ++ [.thread user thread bot]) (t.recordThread user thread bot) := by
  have hreports : reports (as ++ [.thread user thread bot]) = reports as := by
    rw [reports_snoc]
    exact List.append_nil _
  constructor
  · intro user' thread'
    rw [thread_recordThread, knows_snoc, Option.isSome_or, h.known]
    congr 1
    by_cases hkey : user' = user ∧ thread' = thread
    · simp [hkey, knows]
    · have hkey' : ¬ (user = user' ∧ thread = thread') := fun h => hkey ⟨h.1.symm, h.2.symm⟩
      have hknows : knows [.thread user thread bot] user' thread' = false :=
        (Bool.or_false _).trans (decide_eq_false hkey')
      rw [if_neg hkey, hknows]
      rfl
  · intro user' thread' row hrow
    rw [hreports]
    rw [thread_recordThread] at hrow
    cases hold : t.thread user' thread' with
    | some row' =>
        rw [hold, Option.some_or] at hrow
        obtain rfl := Option.some.inj hrow
        exact h.last user' thread' row' hold
    | none =>
        -- no report of a thread arrives before the thread is known
        have hnew : (reports as).filter (·.key = (user', thread')) = [] := by
          refine List.filter_eq_nil_iff.mpr fun r hr hkey => ?_
          have hk := h.reported r hr
          rw [← h.known] at hk
          obtain ⟨hu, hth⟩ : r.user = user' ∧ r.thread = thread' := by
            simpa [Report.key] using hkey
          rw [hu, hth, hold] at hk
          cases hk
        rw [hold, Option.none_or] at hrow
        obtain ⟨-, hrow⟩ := Option.ite_none_right_eq_some.mp hrow
        obtain rfl := Option.some.inj hrow
        simp [Meter.last, hnew]
  · intro r hr
    rw [hreports] at hr
    rw [knows_snoc, h.reported r hr, Bool.true_or]
  · rw [hreports]
    unfold Tables.recordThread
    split
    · exact h.usage
    · exact h.usage

theorem knows_report {as : List Action} {now readAt : ℤ} {user : ℕ} {thread turn : String}
    {totalTokens : Int64} {user' : ℕ} {thread' : String} :
    knows (as ++ [.report now readAt user thread turn totalTokens]) user' thread' =
      knows as user' thread' := by
  rw [knows_snoc]
  exact Bool.or_false _

/-- The row of the thread is found with its Bot. -/
theorem find_bot {user : ℕ} {thread : String} {row : ThreadRow}
    (h : t.thread user thread = some row) :
    (t.threads.find? fun r => r.isRow user thread ∧ r.bot = row.bot) = some row := by
  obtain ⟨hrow, before, after, hthreads, hbefore⟩ := List.find?_eq_some_iff_append.mp h
  refine List.find?_eq_some_iff_append.mpr ⟨by simp [hrow], before, after, hthreads, ?_⟩
  intro r hr
  have hno := hbefore r hr
  simp_all

theorem totalTokens_le (totalTokens : Int64) : totalTokens.toInt.toNat ≤ I64_MAX := by
  have := totalTokens.toInt_lt
  unfold I64_MAX
  omega

/-- The tables once a total is recorded. -/
def Tables.recorded (t : Tables) (now : ℤ) (user bot : ℕ) (thread turn : String)
    (growth total : ℕ) : Tables :=
  { t with
    threads := t.threads.map fun r =>
      if r.isRow user thread then { r with tokensReported := total } else r
    usage := if 0 < growth then t.usage ++ [⟨user, bot, now, growth, some turn⟩] else t.usage }

theorem recordTurnTokens_eq {now : ℤ} {user : ℕ} {thread turn : String} {row : ThreadRow}
    (h : t.thread user thread = some row) (totalTokens : Int64) :
    let total := totalTokens.toInt.toNat
    let growth := total - row.tokensReported
    t.recordTurnTokens now user row.bot thread (some turn) total =
      .ok (growth, t.recorded now user row.bot thread turn growth total) := by
  unfold Tables.recordTurnTokens
  rw [find_bot h]
  dsimp only
  rw [Nat.min_eq_left (totalTokens_le totalTokens)]
  rfl

theorem thread_recorded {now : ℤ} {user bot growth total user' : ℕ}
    {thread turn thread' : String} :
    (t.recorded now user bot thread turn growth total).thread user' thread' =
      (t.thread user' thread').map fun r =>
        if r.isRow user thread then { r with tokensReported := total } else r := by
  have hrow : (ThreadRow.isRow user' thread' ∘ fun r =>
      if r.isRow user thread then { r with tokensReported := total } else r) =
        ThreadRow.isRow user' thread' := by
    funext r
    simp only [Function.comp_apply]
    split <;> rfl
  unfold Tables.recorded Tables.thread
  dsimp only
  rw [List.find?_map, hrow]

theorem Holds.recorded {as : List Action} (h : Holds as t) (now readAt : ℤ) {user : ℕ}
    {thread : String} (turn : String) {row : ThreadRow} (hrow : t.thread user thread = some row)
    (totalTokens : Int64) :
    let total := totalTokens.toInt.toNat
    Holds (as ++ [.report now readAt user thread turn totalTokens])
      (t.recorded now user row.bot thread turn (total - row.tokensReported) total) := by
  intro total
  have hknown : knows as user thread := by
    rw [← h.known, hrow]
    rfl
  have hreports : reports (as ++ [.report now readAt user thread turn totalTokens]) =
      reports as ++ [⟨now, user, thread, turn, total⟩] := by
    rw [reports_snoc]
    exact congrArg _ (if_pos hknown)
  have hlast := h.last user thread row hrow
  have hrise : Meter.rise Report.key Report.total (reports as) ⟨now, user, thread, turn, total⟩ =
      total - row.tokensReported := by
    rw [hlast]
    rfl
  constructor
  · intro user' thread'
    rw [thread_recorded, Option.isSome_map, knows_report, h.known]
  · intro user' thread' row' hrow'
    rw [thread_recorded] at hrow'
    obtain ⟨r, hr, rfl⟩ := Option.map_eq_some_iff.mp hrow'
    have hkey : r.user = user' ∧ r.thread = thread' := by
      simpa [ThreadRow.isRow] using List.find?_some hr
    rw [hreports, Meter.last_snoc]
    by_cases hsame : user = user' ∧ thread = thread'
    · rw [if_pos (by simp [ThreadRow.isRow, hkey, hsame]),
        if_pos (by simp [Report.key, hsame])]
    · have hother : ¬ r.isRow user thread := by
        simp only [ThreadRow.isRow, hkey, decide_eq_true_eq]
        exact fun heq => hsame ⟨heq.1.symm, heq.2.symm⟩
      rw [if_neg hother, if_neg (by simpa [Report.key] using hsame)]
      exact h.last user' thread' r hr
  · intro r hr
    rw [hreports] at hr
    rw [knows_report]
    rcases List.mem_append.mp hr with hr | hr
    · exact h.reported r hr
    · obtain rfl := List.mem_singleton.mp hr
      exact hknown
  · rw [hreports, entries_snoc, hrise]
    unfold Tables.recorded
    dsimp only
    split
    · rw [List.map_append, h.usage]
      rfl
    · rw [List.append_nil, h.usage]

end Step

section Run

/-- A thread's part of the user's window: the rises of its reports there. -/
def share (user : ℕ) (now : ℤ) (thread : String) (as : List Action) : ℕ :=
  used (fun r => r.inWindow user now ∧ r.thread = thread) as

/-- The totals reported for a thread, oldest first. -/
def totals (user : ℕ) (thread : String) (as : List Action) : List ℕ :=
  ((reports as).filter (·.key = (user, thread))).map (·.total)

/-- What counts of the user's threads when the allowance is read at `now`. -/
def windowUsed (user : ℕ) (now : ℤ) (as : List Action) : ℕ :=
  ∑ thread ∈ ((reports as).map (·.thread)).toFinset, share user now thread as

/-- An action is answered with what the reports so far add up to. -/
def Tells (before : List Action) (t : Tables) : Action → Prop
  | .thread _ _ _ => True
  | .report now readAt user thread turn totalTokens =>
    ∃ allowance t', t.tokenUsageUpdated now readAt user thread turn totalTokens =
        .ok (allowance, t') ∧
      ∀ a ∈ allowance, a.tokensThisWeek =
        windowUsed user readAt (before ++ [.report now readAt user thread turn totalTokens])
  | .read now user limits => ∃ allowance, t.allowance now user limits = .ok allowance ∧
      allowance.tokensThisWeek = windowUsed user now before
  | .finish runs now user id state reason states => ∃ row runs',
      finishFrom t runs now user id state reason states = .ok (row, runs') ∧
      ∀ r ∈ row, (r.turn = none → r.tokens = none) ∧
        ∀ turn, r.turn = some turn → r.tokens =
          if used (Report.ofTurn r.user turn) before = 0 then none
          else some (used (Report.ofTurn r.user turn) before)

/-- Every report of a run is taken, every reading of an allowance tells what the reports until then
add up to, and so does every end of a routine's run. -/
structure Counted (accounts : List AccountLimits) (turns : List TurnRow) (as : List Action) :
    Prop where
  told : ∀ before a after, as = before ++ a :: after →
    Tells before (run (.new accounts turns) before) a
  steady : ∀ before after, as = before ++ after → ∀ user now thread,
    (∀ r ∈ reports before, r.key = (user, thread) → r.inWindow user now) →
    (totals user thread before).Pairwise (· ≤ ·) →
    share user now thread before = (totals user thread before).getLast?.getD 0

/-- What an action adds up is an integer that the database can hold. -/
def Fits (before : List Action) : Action → Prop
  | .thread _ _ _ => True
  | .report now readAt user thread turn totalTokens => knows before user thread = true →
      used (Report.inWindow user readAt)
        (before ++ [.report now readAt user thread turn totalTokens]) ≤ I64_MAX
  | .read now user _ => used (Report.inWindow user now) before ≤ I64_MAX
  | .finish runs _ user id _ _ states =>
      ∀ run ∈ runs.find? fun r => r.id = id ∧ r.user = user ∧ r.state ∈ states,
        ∀ turn ∈ run.turn, used (Report.ofTurn run.user turn) before ≤ I64_MAX

/-- At no reading has the user's week, and at no end of a run its turn, passed what the database can
add up. -/
def Bounded (as : List Action) : Prop :=
  ∀ before a after, as = before ++ a :: after → Fits before a

variable {t : Tables} {as bs : List Action} {a : Action} {accounts : List AccountLimits}
  {turns : List TurnRow}

theorem forall_split_snoc {P : List Action → Action → Prop} :
    (∀ before b after, as ++ [a] = before ++ b :: after → P before b) ↔
      (∀ before b after, as = before ++ b :: after → P before b) ∧ P as a := by
  constructor
  · intro h
    refine ⟨?_, h as a [] rfl⟩
    rintro before b after rfl
    exact h before b (after ++ [a]) (by simp)
  · rintro ⟨h, ha⟩ before b after hsplit
    rcases List.eq_nil_or_concat after with rfl | ⟨after, c, rfl⟩
    · obtain ⟨rfl, rfl⟩ : as = before ∧ a = b := by simpa using hsplit
      exact ha
    · rw [List.concat_eq_append, ← List.cons_append, ← List.append_assoc] at hsplit
      exact h before b after (List.append_inj' hsplit rfl).1

theorem used_inWindow (user : ℕ) (now : ℤ) :
    used (Report.inWindow user now) as = windowUsed user now as :=
  Meter.used_eq_sum Report.thread fun _ hr _ => List.mem_toFinset.mpr (List.mem_map_of_mem hr)

theorem share_steady {user : ℕ} {now : ℤ} {thread : String}
    (hin : ∀ r ∈ reports as, r.key = (user, thread) → r.inWindow user now)
    (hmono : (totals user thread as).Pairwise (· ≤ ·)) :
    share user now thread as = (totals user thread as).getLast?.getD 0 := by
  have hp : ∀ r ∈ reports as, (decide (r.inWindow user now ∧ r.thread = thread)) =
      decide (r.key = (user, thread)) := by
    intro r hr
    refine decide_eq_decide.mpr ⟨fun h => ?_, fun h => ⟨hin r hr h, (Prod.mk.inj h).2⟩⟩
    obtain ⟨hwindow, hthread⟩ := h
    have huser : r.user = user := by
      simp only [Report.inWindow, decide_eq_true_eq] at hwindow
      exact hwindow.1
    exact Prod.ext huser hthread
  rw [share, used, Meter.used_eq_last hp hmono, Meter.last, totals, List.getLast?_map]

/-- A reading of the allowance succeeds just when its sum fits, and then tells it. -/
theorem Holds.read_iff (h : Holds as t) (now : ℤ) (user : ℕ) (limits : Limits) :
    (∃ allowance, t.allowance now user limits = .ok allowance ∧
      allowance.tokensThisWeek = windowUsed user now as) ↔
    used (Report.inWindow user now) as ≤ I64_MAX := by
  constructor
  · rintro ⟨allowance, hok, htokens⟩
    rw [used_inWindow, ← htokens]
    exact allowance_le hok
  · intro hle
    rw [← h.window user now] at hle
    obtain ⟨allowance, hok, htokens⟩ := allowance_ok h.positive now user limits hle
    exact ⟨allowance, hok, by rw [htokens, h.window user now, used_inWindow]⟩

/-- The tokens of a turn add up just when their sum fits. -/
theorem Holds.turnTokens_iff (h : Holds as t) (user : ℕ) (turn : String) :
    t.turnTokens user (some turn) = .ok (if used (Report.ofTurn user turn) as = 0 then none
      else some (used (Report.ofTurn user turn) as)) ↔
    used (Report.ofTurn user turn) as ≤ I64_MAX := by
  rw [← h.turn user turn]
  constructor
  · intro hok
    obtain ⟨-, hle⟩ := sum_le hok
    exact hle
  · exact fun hle => sum_ok hle (h.positive.filter _)

theorem turnTokens_none (t : Tables) (user : ℕ) : t.turnTokens user none = .ok none := by
  simp [Tables.turnTokens, sum]

/-- What a run's end answers, once its turn's tokens are added up. -/
theorem finishFrom_eq {runs : List RunRow} {now : ℤ} {user id : ℕ} {state : RunState}
    {reason : Option String} {states : List RunState} {row : RunRow}
    (hrow : runs.find? (fun r => r.id = id ∧ r.user = user ∧ r.state ∈ states) = some row) :
    finishFrom t runs now user id state reason states =
      (t.turnTokens row.user row.turn).map fun tokens =>
        let ended := { row with state, reason, finishedAt := some now, tokens }
        (some ended, runs.map fun r => if r.id = id then ended else r) := by
  unfold finishFrom
  rw [hrow]
  dsimp only
  cases t.turnTokens row.user row.turn <;> rfl

theorem Holds.finish_iff (h : Holds as t) (runs : List RunRow) (now : ℤ) (user id : ℕ)
    (state : RunState) (reason : Option String) (states : List RunState) :
    Tells as t (.finish runs now user id state reason states) ↔
      Fits as (.finish runs now user id state reason states) := by
  simp only [Tells, Fits]
  cases hrow : runs.find? fun r => r.id = id ∧ r.user = user ∧ r.state ∈ states with
  | none =>
      have hnone : finishFrom t runs now user id state reason states = .ok (none, runs) := by
        unfold finishFrom
        rw [hrow]
      exact iff_of_true ⟨none, runs, hnone, nofun⟩ nofun
  | some row =>
      rw [finishFrom_eq hrow]
      cases hturn : row.turn with
      | none =>
          rw [turnTokens_none]
          refine iff_of_true ⟨_, _, rfl, ?_⟩ ?_
          · rintro r ⟨⟩
            exact ⟨fun _ => rfl, nofun⟩
          · rintro run ⟨⟩ turn hsome
            cases hturn.symm.trans hsome
      | some turn =>
          constructor
          · rintro ⟨ended, runs', hok, hended⟩ run ⟨⟩ turn' hturn'
            obtain rfl : turn = turn' := Option.some.inj (hturn.symm.trans hturn')
            cases htokens : t.turnTokens row.user (some turn) with
            | error e =>
                rw [htokens] at hok
                cases hok
            | ok tokens =>
                rw [htokens] at hok
                obtain ⟨rfl, -⟩ := Prod.mk.inj (Except.ok.inj hok)
                have htold := (hended _ rfl).2 turn rfl
                rw [← (h.turnTokens_iff row.user turn), htokens]
                exact congrArg _ htold
          · intro hle
            rw [(h.turnTokens_iff row.user turn).mpr (hle row rfl turn hturn)]
            refine ⟨_, _, rfl, ?_⟩
            rintro r ⟨⟩
            refine ⟨nofun, ?_⟩
            rintro turn' ⟨⟩
            rfl

/-- The tables once a report of a thread with this row is recorded. -/
def Tables.reported (t : Tables) (now : ℤ) (user : ℕ) (thread turn : String) (row : ThreadRow)
    (totalTokens : Int64) : Tables :=
  t.recorded now user row.bot thread turn (totalTokens.toInt.toNat - row.tokensReported)
    totalTokens.toInt.toNat

/-- A report of a known thread is recorded, and the allowance read then. -/
theorem tokenUsageUpdated_known (now readAt : ℤ) {user : ℕ} {thread : String} (turn : String)
    {row : ThreadRow} (hrow : t.thread user thread = some row) (totalTokens : Int64) :
    t.tokenUsageUpdated now readAt user thread turn totalTokens =
      ((t.reported now user thread turn row totalTokens).ownAllowance readAt user).map
        fun allowance => (some allowance, t.reported now user thread turn row totalTokens) := by
  unfold Tables.tokenUsageUpdated Tables.botByThread
  rw [hrow]
  simp only [Option.map_some, recordTurnTokens_eq hrow totalTokens]
  change (Tables.ownAllowance (t.reported now user thread turn row totalTokens) readAt user >>=
    fun _ => _) = _
  cases (t.reported now user thread turn row totalTokens).ownAllowance readAt user <;> rfl

theorem tokenUsageUpdated_unknown {now readAt : ℤ} {user : ℕ} {thread turn : String}
    (hrow : t.thread user thread = none) (totalTokens : Int64) :
    t.tokenUsageUpdated now readAt user thread turn totalTokens = .ok (none, t) := by
  unfold Tables.tokenUsageUpdated Tables.botByThread
  rw [hrow]
  rfl

theorem Holds.report_iff (h : Holds as t) (now readAt : ℤ) (user : ℕ) (thread turn : String)
    (totalTokens : Int64) :
    Tells as t (.report now readAt user thread turn totalTokens) ↔
      Fits as (.report now readAt user thread turn totalTokens) := by
  simp only [Tells, Fits, ← h.known]
  cases hrow : t.thread user thread with
  | none =>
      rw [tokenUsageUpdated_unknown hrow]
      exact iff_of_true ⟨none, t, rfl, nofun⟩ nofun
  | some row =>
      have hreported := h.recorded now readAt turn hrow totalTokens
      rw [tokenUsageUpdated_known now readAt turn hrow, Option.isSome_some,
        imp_iff_right (rfl : true = true),
        ← Holds.read_iff (t := t.reported now user thread turn row totalTokens) hreported readAt user
          ((t.accounts.find? (·.user = user)).elim ⟨none, none⟩ (·.limits))]
      constructor
      · rintro ⟨allowance, t', hok, htold⟩
        cases hread : (t.reported now user thread turn row totalTokens).ownAllowance readAt user with
        | error e =>
            rw [hread] at hok
            cases hok
        | ok read =>
            rw [hread] at hok
            obtain ⟨rfl, -⟩ := Prod.mk.inj (Except.ok.inj hok)
            exact ⟨read, hread, htold read rfl⟩
      · rintro ⟨read, hread, htokens⟩
        have hown : (t.reported now user thread turn row totalTokens).ownAllowance readAt user =
            .ok read := hread
        rw [hown]
        refine ⟨_, _, rfl, ?_⟩
        rintro a ⟨⟩
        exact htokens

/-- An action tells what it is to tell just when its sum fits. -/
theorem Holds.tells_iff (h : Holds as t) : Tells as t a ↔ Fits as a := by
  cases a with
  | thread user thread bot => exact Iff.rfl
  | report now readAt user thread turn totalTokens =>
      exact h.report_iff now readAt user thread turn totalTokens
  | read now user limits => exact h.read_iff now user limits
  | finish runs now user id state reason states =>
      exact h.finish_iff runs now user id state reason states

theorem holds_new : Holds [] (.new accounts turns) := by
  constructor
  · intro user thread
    rfl
  · intro user thread row hrow
    cases hrow
  · intro r hr
    cases hr
  · rfl

/-- An action that reports nothing leaves the tables holding the same. -/
theorem Holds.same (h : Holds as t) (hreports : reportsOf as a = [])
    (hknows : ∀ user thread, knows [a] user thread = false) : Holds (as ++ [a]) t := by
  have hsame : reports (as ++ [a]) = reports as := by
    rw [reports_snoc, hreports, List.append_nil]
  have hknown : ∀ user thread, knows (as ++ [a]) user thread = knows as user thread := by
    intro user thread
    rw [knows_snoc, hknows, Bool.or_false]
  refine ⟨fun user thread => ?_, fun user thread row hrow => ?_, fun r hr => ?_, ?_⟩
  · rw [hknown, h.known]
  · rw [hsame]
    exact h.last user thread row hrow
  · rw [hsame] at hr
    rw [hknown]
    exact h.reported r hr
  · rw [hsame, h.usage]

/-- A reading leaves the tables as they are, also one that fails. -/
theorem step_of_reading {α : Type} {x : Except Failure α}
    (h : answer t a = do let _ ← x; return t) : step t a = t := by
  rw [step, h]
  cases x <;> rfl

theorem Holds.step (h : Holds as t) (hfits : Fits as a) : Holds (as ++ [a]) (step t a) := by
  cases a with
  | thread user thread bot => exact h.recordThread user thread bot
  | read now user limits =>
      rw [step_of_reading rfl]
      exact h.same rfl fun _ _ => rfl
  | finish runs now user id state reason states =>
      rw [step_of_reading rfl]
      exact h.same rfl fun _ _ => rfl
  | report now readAt user thread turn totalTokens =>
      cases hrow : t.thread user thread with
      | none =>
          have hunknown : knows as user thread = false := by
            rw [← h.known, hrow]
            rfl
          have hreports : reportsOf as (.report now readAt user thread turn totalTokens) = [] :=
            if_neg (by simp [hunknown])
          rw [TokenUsage.step, answer, tokenUsageUpdated_unknown hrow]
          exact h.same hreports fun _ _ => rfl
      | some row =>
          obtain ⟨allowance, t', hok, -⟩ :=
            (h.report_iff now readAt user thread turn totalTokens).mpr hfits
          rw [TokenUsage.step, answer, hok]
          rw [tokenUsageUpdated_known now readAt turn hrow] at hok
          cases hread : (t.reported now user thread turn row totalTokens).ownAllowance readAt
              user with
          | error e =>
              rw [hread] at hok
              cases hok
          | ok read =>
              rw [hread] at hok
              obtain ⟨-, rfl⟩ := Prod.mk.inj (Except.ok.inj hok)
              exact h.recorded now readAt turn hrow totalTokens

theorem run_snoc {t : Tables} : run t (as ++ [a]) = step (run t as) a := by
  simp [run, List.foldl_append]

theorem holds_run (hbound : Bounded as) : Holds as (run (.new accounts turns) as) := by
  induction as using List.reverseRecOn with
  | nil => exact holds_new
  | append_singleton as a ih =>
      obtain ⟨hbefore, hfits⟩ := forall_split_snoc.mp hbound
      rw [run_snoc]
      exact (ih hbefore).step hfits

/-- Every action of a run tells what it is to tell just when every sum fits. -/
theorem told_iff : (∀ before a after, as = before ++ a :: after →
    Tells before (run (.new accounts turns) before) a) ↔ Bounded as := by
  induction as using List.reverseRecOn with
  | nil => exact iff_of_true (fun _ _ _ h => by simp at h) fun _ _ _ h => by simp at h
  | append_singleton as a ih =>
      rw [forall_split_snoc, ih]
      refine Iff.trans ?_ forall_split_snoc.symm
      exact and_congr_right fun hbefore => (holds_run hbefore).tells_iff

/-- Tokens count exactly as long as the database can add them up. -/
theorem counted_iff : Counted accounts turns as ↔ Bounded as := by
  refine ⟨fun h => told_iff.mp h.told, fun hbound => ⟨told_iff.mpr hbound, ?_⟩⟩
  intro before after _ user now thread
  exact share_steady

/-- Two threads that report the largest total there is. -/
def flood : List Action :=
  [.thread 1 "a" 1, .thread 1 "b" 1, .report 0 0 1 "a" "t" Int64.maxValue,
    .report 0 0 1 "b" "u" Int64.maxValue]

/-- The second report is refused, and counts nothing. -/
theorem flood_refused : ¬ Counted [] [] flood := by
  intro h
  obtain ⟨allowance, t, ht, -⟩ :=
    h.told (flood.take 3) (.report 0 0 1 "b" "u" Int64.maxValue) [] rfl
  have hrefused : (run (.new [] []) (flood.take 3)).tokenUsageUpdated 0 0 1 "b" "u"
      Int64.maxValue = .error .internal := by
    rfl
  rw [hrefused] at ht
  cases ht

end Run

end TokenUsage

end Bokkie
