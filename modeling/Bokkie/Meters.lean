import Mathlib.Algebra.BigOperators.Group.Finset.Basic
import Mathlib.Algebra.BigOperators.Group.Finset.Piecewise
import Mathlib.Algebra.GroupWithZero.Nat
import Mathlib.Data.List.Induction

/-!
# Meters

A meter is read now and then, and what it measured between two readings is the rise of the second
above the first. A reading that is lower starts it afresh. Many meters may be read into one list.
-/

namespace Meter

variable {ρ κ : Type*} [DecidableEq κ] (key : ρ → κ) (value : ρ → ℕ)

/-- What the meter read last; a meter starts at zero. -/
def last (rs : List ρ) (k : κ) : ℕ := ((rs.filter (key · = k)).getLast?.map value).getD 0

/-- What a reading adds to those before it. -/
def rise (rs : List ρ) (r : ρ) : ℕ := value r - last key value rs (key r)

/-- The readings after others, each with its rise. -/
def risesAfter : List ρ → List ρ → List (ρ × ℕ)
  | _, [] => []
  | past, r :: rs => (r, rise key value past r) :: risesAfter (past ++ [r]) rs

def rises (rs : List ρ) : List (ρ × ℕ) := risesAfter key value [] rs

/-- What the readings of a kind measured. -/
def used (p : ρ → Bool) (rs : List ρ) : ℕ :=
  (((rises key value rs).filter (p ·.1)).map (·.2)).sum

variable {key value} {rs : List ρ} {r : ρ} {k : κ} {p : ρ → Bool}

@[simp] theorem last_nil : last key value [] k = 0 := rfl

theorem last_snoc : last key value (rs ++ [r]) k = if key r = k then value r else
    last key value rs k := by
  unfold last
  rw [List.filter_append]
  split <;> simp_all

theorem risesAfter_snoc {past : List ρ} : risesAfter key value past (rs ++ [r]) =
    risesAfter key value past rs ++ [(r, rise key value (past ++ rs) r)] := by
  induction rs generalizing past with
  | nil => simp [risesAfter]
  | cons r' rs ih => simp [risesAfter, ih, List.append_assoc]

theorem rises_snoc : rises key value (rs ++ [r]) =
    rises key value rs ++ [(r, rise key value rs r)] :=
  risesAfter_snoc

@[simp] theorem used_nil : used key value p [] = 0 := rfl

theorem used_snoc : used key value p (rs ++ [r]) =
    used key value p rs + if p r then rise key value rs r else 0 := by
  unfold used
  rw [rises_snoc, List.filter_append, List.map_append, List.sum_append]
  split <;> simp_all

/-- A meter that never falls measured what it reads in the end. -/
theorem used_eq_last (hp : ∀ r ∈ rs, p r = decide (key r = k))
    (hmono : ((rs.filter (key · = k)).map value).Pairwise (· ≤ ·)) :
    used key value p rs = last key value rs k := by
  induction rs using List.reverseRecOn with
  | nil => rfl
  | append_singleton rs r ih =>
      rw [List.filter_append, List.map_append, List.pairwise_append] at hmono
      obtain ⟨hrs, -, hle⟩ := hmono
      have hused := ih (fun r' hr' => hp r' (List.mem_append_left _ hr')) hrs
      have hr : p r = decide (key r = k) := hp r (by simp)
      rw [used_snoc, last_snoc, hused, hr]
      by_cases hk : key r = k
      · have hlast : last key value rs k ≤ value r := by
          unfold last
          cases hl : (rs.filter (key · = k)).getLast? with
          | none => exact Nat.zero_le _
          | some r' =>
              exact hle (value r') (List.mem_map_of_mem (List.mem_of_getLast? hl)) (value r)
                (by simp [hk])
        rw [if_pos (by simpa using hk), if_pos hk]
        unfold rise
        rw [hk]
        omega
      · rw [if_neg (by simpa using hk), if_neg hk, Nat.add_zero]

/-- What was measured, by any part of the readings. -/
theorem used_eq_sum {γ : Type*} [DecidableEq γ] (part : ρ → γ) {ks : Finset γ}
    (hks : ∀ r ∈ rs, p r → part r ∈ ks) :
    used key value p rs = ∑ k ∈ ks, used key value (fun r => p r ∧ part r = k) rs := by
  induction rs using List.reverseRecOn with
  | nil => simp
  | append_singleton rs r ih =>
      simp only [used_snoc, Finset.sum_add_distrib]
      rw [ih fun r' hr' => hks r' (List.mem_append_left _ hr')]
      congr 1
      by_cases hp : p r
      · have hr : part r ∈ ks := hks r (by simp) hp
        simp [hp, Finset.sum_ite_eq, hr]
      · simp [hp]

section Sum

/-- A sum that fails where it passes a limit. -/
def checkedSum (limit : ℕ) (xs : List ℕ) : Option ℕ :=
  xs.foldlM (fun sum x => if sum + x ≤ limit then some (sum + x) else none) 0

variable {limit : ℕ} {xs : List ℕ}

/-- Parts of a sum are no larger than the sum, so it fails exactly if the whole passes the limit. -/
theorem checkedSum_eq : checkedSum limit xs = if xs.sum ≤ limit then some xs.sum else none := by
  have h : ∀ start ≤ limit,
      xs.foldlM (fun sum x => if sum + x ≤ limit then some (sum + x) else none) start =
        if start + xs.sum ≤ limit then some (start + xs.sum) else none := by
    induction xs with
    | nil => intro start hstart; simp [hstart]
    | cons x xs ih =>
        intro start hstart
        rw [List.foldlM_cons, List.sum_cons, ← Nat.add_assoc]
        by_cases hx : start + x ≤ limit
        · rw [if_pos hx]
          exact ih (start + x) hx
        · have hover : ¬ start + x + xs.sum ≤ limit := by omega
          rw [if_neg hx, if_neg hover]
          rfl
  have hsum := h 0 (Nat.zero_le _)
  rwa [Nat.zero_add] at hsum

end Sum

end Meter
