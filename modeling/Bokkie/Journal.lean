import Mathlib.Data.List.DropRight

/-!
# Journals

A list of what happened, oldest first, that grows at its end: what stands before what, and what is
left of it since the last entry of a kind.
-/

namespace Journal

variable {α : Type*} {j : List α} {x y e : α}

/-- An entry of a journal that grew is the new one, or was there with all that stood before it. -/
theorem snoc_eq_append_cons {before after : List α} :
    j ++ [e] = before ++ y :: after ↔
      (j = before ∧ y = e ∧ after = []) ∨ ∃ rest, after = rest ++ [e] ∧ j = before ++ y :: rest := by
  constructor
  · intro h
    rcases List.eq_nil_or_concat after with rfl | ⟨rest, z, rfl⟩
    · obtain ⟨rfl, he⟩ := List.append_inj' h rfl
      exact .inl ⟨rfl, (List.cons.inj he).1.symm, rfl⟩
    · rw [List.concat_eq_append, ← List.cons_append, ← List.append_assoc] at h
      obtain ⟨rfl, he⟩ := List.append_inj' h rfl
      exact .inr ⟨rest, by rw [List.concat_eq_append, (List.cons.inj he).1], rfl⟩
  · rintro (⟨rfl, rfl, rfl⟩ | ⟨rest, rfl, rfl⟩)
    · rfl
    · simp

/-- `x` stands before `y`. -/
def Precedes (j : List α) (x y : α) : Prop := [x, y].Sublist j

theorem precedes_iff : Precedes j x y ↔ ∃ before after, j = before ++ y :: after ∧ x ∈ before := by
  constructor
  · intro h
    induction j with
    | nil => cases h
    | cons z j ih =>
        rcases List.sublist_cons_iff.mp h with h | ⟨l, hl, h⟩
        · obtain ⟨before, after, rfl, hx⟩ := ih h
          exact ⟨z :: before, after, rfl, List.mem_cons_of_mem _ hx⟩
        · obtain ⟨rfl, rfl⟩ := List.cons.inj hl
          obtain ⟨before, after, rfl⟩ := List.append_of_mem (List.singleton_sublist.mp h)
          exact ⟨x :: before, after, rfl, List.mem_cons_self ..⟩
  · rintro ⟨before, after, rfl, hx⟩
    exact (List.singleton_sublist.mpr hx).append (List.singleton_sublist.mpr (by simp))

theorem precedes_snoc : Precedes (j ++ [e]) x y ↔ Precedes j x y ∨ x ∈ j ∧ y = e := by
  constructor
  · intro h
    obtain ⟨before, after, hj, hx⟩ := precedes_iff.mp h
    rcases snoc_eq_append_cons.mp hj with ⟨rfl, rfl, -⟩ | ⟨rest, -, rfl⟩
    · exact .inr ⟨hx, rfl⟩
    · exact .inl (precedes_iff.mpr ⟨before, rest, rfl, hx⟩)
  · rintro (h | ⟨hx, rfl⟩)
    · exact h.trans (List.sublist_append_left ..)
    · exact precedes_iff.mpr ⟨j, [], rfl, hx⟩

theorem Precedes.left_mem (h : Precedes j x y) : x ∈ j := h.subset (by simp)

theorem Precedes.right_mem (h : Precedes j x y) : y ∈ j := h.subset (by simp)

theorem Precedes.snoc (h : Precedes j x y) : Precedes (j ++ [e]) x y := precedes_snoc.mpr (.inl h)

/-- The entries since the last one of a kind. -/
def since (p : α → Bool) (j : List α) : List α := j.rtakeWhile fun e => !p e

section Since

variable {p q : α → Bool}

theorem since_snoc_pos (h : p e = true) : since p (j ++ [e]) = [] :=
  List.rtakeWhile_concat_neg _ _ _ (by simp [h])

theorem since_snoc_neg (h : p e = false) : since p (j ++ [e]) = since p j ++ [e] :=
  List.rtakeWhile_concat_pos _ _ _ (by simp [h])

theorem since_suffix (p : α → Bool) (j : List α) : since p j <:+ j := List.rtakeWhile_suffix _ _

theorem since_congr (h : ∀ e ∈ j, p e = q e) : since p j = since q j := by
  induction j using List.reverseRecOn with
  | nil => rfl
  | append_singleton j e ih =>
      have hold := ih fun e he => h e (List.mem_append_left _ he)
      have hlast := h e (List.mem_append_right _ (List.mem_singleton_self e))
      cases hp : p e with
      | true => rw [since_snoc_pos hp, since_snoc_pos (hlast.symm.trans hp)]
      | false => rw [since_snoc_neg hp, since_snoc_neg (hlast.symm.trans hp), hold]

/-- Nothing is of the kind since the last of it. -/
theorem since_false (h : ∀ e, p e = false) : since p j = j := by
  rw [since, List.rtakeWhile_eq_self_iff]
  exact fun e _ => by simp [h e]

end Since

end Journal
