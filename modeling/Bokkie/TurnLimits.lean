import Bokkie.TurnAccounting

/-!
# Turns are limited

While a user's daily limit is at most some number each time that a turn is counted for them, no more
than that many of their turns are counted and not taken back within any 24 hours, whatever sends,
routines' runs and owed answers start them, for any of their Bots.
-/

namespace Bokkie.Conversations

open Tasks SlidingWindow
open Accounts (DAY_MS)
open Accounts.Tables (bind_eq_ok)
open TokenUsage (Allowance)

/-- When the turns of a user that stay counted were counted. -/
def chargedTimes (counts : List Count) (user : ℕ) : List ℤ :=
  ((charged counts).filter fun row => row.user = user).map (·.time)

/-- The user that a call counts a turn for. -/
def Call.counted : {β : Type} → Call β → Option ℕ
  | _, .gateway (.reserveTurn user _) => some user
  | _, _ => none

/-- A turn is counted for the user only while their daily limit is at most `limit`. -/
def Limited (user limit : ℕ) {β : Type} (op : Call β) (w : World) : Prop :=
  op.counted = some user → ∃ l, (w.limits user).dailyTurns = some l ∧ l ≤ limit

section Charged

variable {counts : List Count} {f : Count → Count} {user limit : ℕ}

/-- What is settled or cut short is charged no more than before. -/
theorem charged_map (hrow : ∀ c, (f c).row = c.row)
    (hreleased : ∀ c, c.standing = .released → (f c).standing = .released) :
    (charged (counts.map f)).Sublist (charged counts) := by
  induction counts with
  | nil => exact .slnil
  | cons c counts ih =>
      simp only [charged, List.map_cons, List.filter_cons] at ih ⊢
      by_cases hc : c.standing = .released
      · simpa [hc, hreleased c hc] using ih
      · by_cases hf : (f c).standing = .released
        · simpa [hc, hf] using ih.cons _
        · simpa [hc, hf, hrow] using ih

theorem charged_settle_sublist {w : World} {task : ℕ} (hrow : ∀ c, (f c).row = c.row) :
    (charged (w.settle task f).counts).Sublist (charged w.counts) := by
  refine charged_map (fun c => ?_) fun c hc => ?_
  · split
    · exact hrow c
    · rfl
  · rw [if_neg (by simp [hc])]
    exact hc

theorem AtMost.charged {counts' : List Count}
    (h : AtMost limit DAY_MS (chargedTimes counts user))
    (hsub : (Conversations.charged counts').Sublist (Conversations.charged counts)) :
    AtMost limit DAY_MS (chargedTimes counts' user) :=
  h.sublist ((hsub.filter _).map _)

end Charged

section Calls

variable {w w' : World} {task n user limit : ℕ} {choice : Choice} {β : Type} {r : β}

theorem codex_charged {op : CodexCall β}
    (h : (Call.codex op).answer task choice w = some (r, w')) :
    (charged w'.counts).Sublist (charged w.counts) := by
  obtain ⟨supervisor, -, rfl⟩ := codex_answer h
  cases op
  case turnStart serial params => exact charged_settle_sublist fun _ => rfl
  case turnStarted request =>
    cases r with
    | ok turnId => exact charged_settle_sublist fun _ => rfl
    | error e =>
        simp only [World.noted]
        split
        · exact .refl _
        · exact charged_settle_sublist fun _ => rfl
  all_goals exact .refl _

/-- What an allowance that is not used up says of the daily limit. -/
theorem turns_lt_of_allowance {a : Allowance} {l : ℕ} (h : w.allowance user = .ok a)
    (hleft : a.exhausted = false) (hlimit : (w.limits user).dailyTurns = some l) (hl : l < 2 ^ 32) :
    (w.turns.filter fun row => row.user = user ∧ isRecent w.clock row).length < l := by
  obtain ⟨tokens, -, h⟩ := bind_eq_ok.mp h
  obtain rfl := Except.ok.inj h
  simp only [hlimit, Option.any_some, Bool.or_eq_false_iff, decide_eq_false_iff_not, not_le,
    List.countP_map] at hleft
  have hcount : w.turns.countP ((fun r => decide (r.user = user ∧
      w.clock - TokenUsage.TURN_WINDOW_MS < r.time)) ∘ fun x => x.toTurnRow) =
      (w.turns.filter fun row => row.user = user ∧ isRecent w.clock row).length := by
    rw [List.countP_eq_length_filter]
    refine congrArg _ (List.filter_congr fun row _ =>
      decide_eq_decide.mpr (and_congr_right fun _ => ?_))
    simp only [isRecent, decide_eq_true_eq, TokenUsage.TURN_WINDOW_MS]
    omega
  have hturns := hleft.1
  omega

/-- The turns that count at present are those that are stored. -/
theorem live_chargedTimes (hJ : w.ledger.Balanced n) :
    (live DAY_MS w.clock (chargedTimes w.counts user)).length =
      (w.turns.filter fun row => row.user = user ∧ isRecent w.clock row).length := by
  have hstored := (hJ.stored.filter fun row => row.user = user).length_eq
  rw [List.filter_filter, List.filter_filter] at hstored
  rw [live, chargedTimes, List.filter_map, List.length_map, List.filter_filter]
  refine Eq.trans (congrArg _ (List.filter_congr fun row _ => ?_)) (hstored.trans ?_)
  · rw [Bool.and_comm]
    rfl
  · refine congrArg _ (List.filter_congr fun row _ => ?_)
    simp [World.ledger]

theorem atMost_reserveTurn {counted bot : ℕ} {r : Except Failure (Option ℕ)}
    (hJ : w.ledger.Balanced n) (hlimit : limit < 2 ^ 32)
    (hlimited : Limited user limit (.gateway (.reserveTurn counted bot)) w)
    (h : w.reserveTurn task counted bot = (r, w'))
    (hat : AtMost limit DAY_MS (chargedTimes w.counts user)) :
    AtMost limit DAY_MS (chargedTimes w'.counts user) := by
  unfold World.reserveTurn at h
  split at h
  · obtain ⟨-, rfl⟩ := Prod.mk.inj h
    exact hat
  rename_i a hallowance
  split at h
  · obtain ⟨-, rfl⟩ := Prod.mk.inj h
    exact hat
  rename_i hleft
  split at h
  · obtain ⟨-, rfl⟩ := Prod.mk.inj h
    by_cases huser : counted = user
    · subst huser
      obtain ⟨l, hl, hle⟩ := hlimited rfl
      have hlt := turns_lt_of_allowance hallowance (by simpa using hleft) hl (by omega)
      rw [← live_chargedTimes hJ] at hlt
      simpa [chargedTimes, charged] using hat.push (hlt.trans_le hle)
    · simpa [chargedTimes, charged, huser] using hat
  · obtain ⟨-, rfl⟩ := Prod.mk.inj h
    exact hat

theorem atMost_answer {op : Call β} (hJ : w.ledger.Balanced n) (hlimit : limit < 2 ^ 32)
    (hlimited : Limited user limit op w) (h : op.answer task choice w = some (r, w'))
    (hat : AtMost limit DAY_MS (chargedTimes w.counts user)) :
    AtMost limit DAY_MS (chargedTimes w'.counts user) := by
  cases op with
  | codex op => exact AtMost.charged hat (codex_charged h)
  | gateway op =>
      cases op
      case reserveTurn counted bot =>
        exact atMost_reserveTurn hJ hlimit hlimited (Option.some.inj h) hat
      case releaseTurn counted turn =>
        obtain ⟨-, rfl⟩ := Prod.mk.inj (Option.some.inj h)
        exact AtMost.charged hat (charged_settle_sublist fun _ => rfl)
      all_goals
        have hledger := congrArg Ledger.counts (plain_ledger rfl h)
        simp only [World.ledger] at hledger
        rwa [hledger]

end Calls

section Run

variable {w w' : World} {e : Surroundings} {ps : List (Prog Call Unit)} {user limit : ℕ}

/-- Only tasks count turns. -/
theorem surroundings_counts (h : w.surroundings e = some (w', ps)) : w'.counts = w.counts := by
  cases e
  case tick | endRun =>
    simp only [World.surroundings] at h
    split at h
    · obtain ⟨rfl, -⟩ := Prod.mk.inj (Option.some.inj h)
      rfl
    · cases h
  case call job =>
    cases job
    case attempt run now at' local' =>
      simp only [World.surroundings] at h
      split at h
      · cases h
      · obtain ⟨rfl, -⟩ := Prod.mk.inj (Option.some.inj h)
        rfl
    all_goals
      obtain ⟨rfl, -⟩ := Prod.mk.inj (Option.some.inj h)
      rfl
  case supervisor e =>
    simp only [World.surroundings] at h
    split at h
    · obtain ⟨entry, -, h⟩ := Option.map_eq_some_iff.mp h
      obtain ⟨rfl, -⟩ := Prod.mk.inj h
      rfl
    · cases h
  all_goals
    obtain ⟨rfl, -⟩ := Prod.mk.inj (Option.some.inj h)
    rfl

theorem meets_timely {s : State} {a : Action Choice Surroundings}
    (h : System.Meets (fun _ {_} op w => Limited user limit op w) Timely s a) :
    System.Meets (fun _ {_} _ _ => True) Timely s a := by
  cases a with
  | task i choice => exact fun _ _ _ => trivial
  | surroundings e => exact h
  | restart => trivial

/-- In every run, restarts included, in which no task takes a day to settle its count: of the turns
counted for a user, no more than the largest daily limit they were counted under stay counted within
any 24 hours. -/
theorem turns_limited {as : List (Action Choice Surroundings)} {s : State} (hlimit : limit < 2 ^ 32)
    (hrun : Runs.Run (fun s a t => system.step s a = some t ∧
      System.Meets (fun _ {_} op w => Limited user limit op w) Timely s a) initial as s) :
    AtMost limit DAY_MS (chargedTimes s.world.counts user) := by
  induction hrun with
  | nil => exact AtMost.nil
  | @snoc u v as a hbefore ha ih =>
      obtain ⟨φs, -, hJ, -⟩ :=
        holds_accounting (hbefore.mono fun _ _ _ h => ⟨h.1, meets_timely h.2⟩)
      obtain ⟨hstep, hmeets⟩ := ha
      cases a with
      | task i choice =>
          obtain ⟨β, op, r, next, choice, w, hi, hr, rfl⟩ := System.step_task _ hstep
          exact atMost_answer hJ hlimit (hmeets op next hi) hr ih
      | surroundings e =>
          obtain ⟨⟨w, ps⟩, he, rfl⟩ := Option.map_eq_some_iff.mp hstep
          rw [surroundings_counts he]
          exact ih
      | restart =>
          obtain rfl := Option.some.inj hstep
          refine AtMost.charged ih (charged_map (fun c => ?_) fun c hc => ?_)
          · split <;> rfl
          · rw [if_neg (by simp [hc])]
            exact hc

end Run

section Example

/-- The user that a task's next call counts a turn for. -/
def nextCounted : Prog Call Unit → Option ℕ
  | .call op _ => op.counted
  | .pure _ => none

def isLimited (user limit : ℕ) (s : State) : Action Choice Surroundings → Bool
  | .task i _ => (s.tasks[i]?).bind nextCounted ≠ some user ∨
    (s.world.limits user).dailyTurns.any (· ≤ limit)
  | .surroundings (.tick _) => false
  | _ => true

theorem meets_of_isLimited {user limit : ℕ} {s : State} {a : Action Choice Surroundings}
    (h : isLimited user limit s a = true) :
    System.Meets (fun _ {_} op w => Limited user limit op w) Timely s a := by
  cases a with
  | task i choice =>
      intro β op next hi hop
      have hnext : (s.tasks[i]?).bind nextCounted = some user := by rw [hi]; exact hop
      simp only [isLimited, hnext, ne_eq, not_true_eq_false, false_or, decide_eq_true_eq] at h
      obtain ⟨l, hl, hle⟩ := (Option.any_eq_true _ _).mp h
      exact ⟨l, hl, of_decide_eq_true hle⟩
  | surroundings e =>
      rintro now rfl
      cases h
  | restart => trivial

theorem turns_limited_two : ∃ s : State,
    Runs.Run (fun s a t => system.step s a = some t ∧
      System.Meets (fun _ {_} op w => Limited 1 2 op w) Timely s a) initial
      (firstSend ++ secondSend) s ∧
    chargedTimes s.world.counts 1 = [0] ∧
    AtMost 2 DAY_MS (chargedTimes s.world.counts 1) := by
  have h : (Runs.exec (fun s a => if isLimited 1 2 s a then system.step s a else none) initial
      (firstSend ++ secondSend)).any (fun s => decide (chargedTimes s.world.counts 1 = [0])) =
        true := by
    decide +kernel
  obtain ⟨s, hs, htimes⟩ := (Option.any_eq_true _ _).mp h
  have hrun : Runs.Run (fun s a t => system.step s a = some t ∧
      System.Meets (fun _ {_} op w => Limited 1 2 op w) Timely s a) initial
      (firstSend ++ secondSend) s :=
    Runs.run_of_exec_checked (fun s a => meets_of_isLimited) hs
  exact ⟨s, hrun, of_decide_eq_true htimes, turns_limited (by omega) hrun⟩

end Example

end Bokkie.Conversations
