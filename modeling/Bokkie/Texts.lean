import Mathlib.Data.List.Infix
import Mathlib.Data.List.DropRight

/-!
# Texts as lists

Splitting a list at the first or the last place where an element stands.
-/

namespace Texts

variable {α : Type} [DecidableEq α] {c : α} {l before after : List α}

/-- What stands before the first of an element, and what after it. -/
def splitOnce (c : α) : List α → Option (List α × List α)
  | [] => none
  | a :: l => if a = c then some ([], l)
    else (splitOnce c l).map fun (before, after) => (a :: before, after)

/-- What stands before the last of an element, and what after it. -/
def rsplitOnce (c : α) (l : List α) : Option (List α × List α) :=
  (splitOnce c l.reverse).map fun (after, before) => (before.reverse, after.reverse)

theorem splitOnce_eq_some :
    splitOnce c l = some (before, after) ↔ l = before ++ c :: after ∧ c ∉ before := by
  induction l generalizing before with
  | nil => simp [splitOnce]
  | cons a l ih =>
      unfold splitOnce
      by_cases ha : a = c
      · rw [if_pos ha, Option.some.injEq, Prod.mk.injEq]
        constructor
        · rintro ⟨rfl, rfl⟩
          exact ⟨by rw [ha, List.nil_append], List.not_mem_nil⟩
        · rintro ⟨heq, hnot⟩
          cases before with
          | nil => exact ⟨rfl, (List.cons.inj heq).2⟩
          | cons b before =>
              obtain ⟨rfl, -⟩ := List.cons.inj heq
              exact absurd (ha ▸ List.mem_cons_self ..) hnot
      · rw [if_neg ha, Option.map_eq_some_iff]
        constructor
        · rintro ⟨⟨b, t⟩, hsplit, heq⟩
          obtain ⟨rfl, rfl⟩ := Prod.mk.inj heq
          obtain ⟨rfl, hnot⟩ := ih.mp hsplit
          exact ⟨rfl, List.not_mem_cons_of_ne_of_not_mem (Ne.symm ha) hnot⟩
        · rintro ⟨heq, hnot⟩
          cases before with
          | nil => exact absurd (List.cons.inj heq).1 ha
          | cons b before =>
              obtain ⟨rfl, htail⟩ := List.cons.inj heq
              exact ⟨_, ih.mpr ⟨htail, fun h => hnot (List.mem_cons_of_mem _ h)⟩, rfl⟩

end Texts
