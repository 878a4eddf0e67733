import Mathlib.Algebra.BigOperators.Group.List.Basic
import Mathlib.Algebra.GroupWithZero.Nat
import Mathlib.Data.List.Basic
import Mathlib.Data.List.Infix

/-!
# Texts indexed by bytes

A text is a list of characters, but places in it are counted in bytes of its UTF-8 form. A slice
that begins or ends inside a character, or outside the text, has no value.
-/

namespace ByteTexts

variable {t s needle : List Char} {n m : ℕ}

/-- A text's bytes. -/
def size (t : List Char) : ℕ := (t.map Char.utf8Size).sum

/-- `t[start..]`. -/
def sliceFrom : List Char → ℕ → Option (List Char)
  | t, 0 => some t
  | [], _ + 1 => none
  | c :: t, start + 1 =>
    if c.utf8Size ≤ start + 1 then sliceFrom t (start + 1 - c.utf8Size) else none

/-- `t[..stop]`. -/
def sliceTo : List Char → ℕ → Option (List Char)
  | _, 0 => some []
  | [], _ + 1 => none
  | c :: t, stop + 1 =>
    if c.utf8Size ≤ stop + 1 then (sliceTo t (stop + 1 - c.utf8Size)).map (c :: ·) else none

/-- `t[start..stop]`. -/
def slice (t : List Char) (start stop : ℕ) : Option (List Char) :=
  if start ≤ stop then (sliceFrom t start).bind fun rest => sliceTo rest (stop - start) else none

/-- The place, in characters, where a text first stands in another. -/
def indexOf (needle : List Char) : List Char → Option ℕ
  | [] => none
  | c :: t => if needle <+: c :: t then some 0 else (indexOf needle t).map (· + 1)

/-- The same place in bytes: `t.find(needle)`. -/
def find (needle : List Char) : List Char → Option ℕ
  | [] => none
  | c :: t => if needle <+: c :: t then some 0 else (find needle t).map (· + c.utf8Size)

/-- The last place at or before `n` where a character begins or the text ends. -/
def floorBoundary (t : List Char) : ℕ → ℕ
  | 0 => 0
  | n + 1 => if (sliceFrom t (n + 1)).isSome then n + 1 else floorBoundary t n

section Slices

theorem utf8Size_pos (c : Char) : 0 < c.utf8Size := Char.utf8Size_pos c

@[simp] theorem size_nil : size [] = 0 := rfl

@[simp] theorem size_cons (c : Char) (t : List Char) : size (c :: t) = c.utf8Size + size t := rfl

@[simp] theorem size_append (s t : List Char) : size (s ++ t) = size s + size t := by
  simp [size]

theorem size_le_of_prefixed (h : s <+: t) : size s ≤ size t := by
  obtain ⟨rest, rfl⟩ := h
  rw [size_append]
  exact Nat.le_add_right _ _

/-- A slice from the end of a beginning is the rest. -/
theorem sliceFrom_append (s t : List Char) : sliceFrom (s ++ t) (size s) = some t := by
  induction s with
  | nil => cases t <;> rfl
  | cons c s ih =>
      obtain ⟨k, hk⟩ : ∃ k, c.utf8Size + size s = k + 1 :=
        ⟨c.utf8Size + size s - 1, by have := utf8Size_pos c; omega⟩
      rw [List.cons_append, size_cons, hk, sliceFrom, if_pos (by omega), ← hk,
        Nat.add_sub_cancel_left, ih]

theorem sliceTo_append (s t : List Char) : sliceTo (s ++ t) (size s) = some s := by
  induction s with
  | nil => cases t <;> rfl
  | cons c s ih =>
      obtain ⟨k, hk⟩ : ∃ k, c.utf8Size + size s = k + 1 :=
        ⟨c.utf8Size + size s - 1, by have := utf8Size_pos c; omega⟩
      rw [List.cons_append, size_cons, hk, sliceTo, if_pos (by omega), ← hk,
        Nat.add_sub_cancel_left, ih]
      rfl

theorem slice_append (r s t : List Char) :
    slice (r ++ (s ++ t)) (size r) (size r + size s) = some s := by
  rw [slice, if_pos (Nat.le_add_right _ _), sliceFrom_append, Option.bind_some,
    Nat.add_sub_cancel_left, sliceTo_append]

/-- Where a slice has a value, so does the slice up to there, and they make up the text. -/
theorem sliceTo_of_sliceFrom (h : (sliceFrom t n).isSome) :
    ∃ s, sliceTo t n = some s ∧ s <+: t ∧ size s = n := by
  induction t, n using sliceFrom.induct with
  | case1 t => exact ⟨[], by cases t <;> rfl, List.nil_prefix, rfl⟩
  | case2 n => cases h
  | case3 c t n hle ih =>
      rw [sliceFrom, if_pos hle] at h
      obtain ⟨s, hs, hpre, hsize⟩ := ih h
      refine ⟨c :: s, ?_, List.cons_prefix_cons.mpr ⟨rfl, hpre⟩, ?_⟩
      · rw [sliceTo, if_pos hle, hs]
        rfl
      · rw [size_cons, hsize]
        omega
  | case4 c t n hle =>
      rw [sliceFrom, if_neg hle] at h
      cases h

theorem floorBoundary_le (t : List Char) (n : ℕ) : floorBoundary t n ≤ n := by
  induction n with
  | zero => exact le_refl _
  | succ n ih =>
      rw [floorBoundary]
      split
      · exact le_refl _
      · exact ih.trans (Nat.le_succ n)

theorem sliceFrom_floorBoundary (t : List Char) (n : ℕ) :
    (sliceFrom t (floorBoundary t n)).isSome := by
  induction n with
  | zero => cases t <;> rfl
  | succ n ih =>
      rw [floorBoundary]
      split
      · next h => exact h
      · exact ih

/-- Cutting a text at a boundary leaves a beginning of it, no longer than asked for. -/
theorem sliceTo_floorBoundary (t : List Char) (n : ℕ) :
    ∃ s, sliceTo t (floorBoundary t n) = some s ∧ s <+: t ∧ size s ≤ n := by
  obtain ⟨s, hs, hpre, hsize⟩ := sliceTo_of_sliceFrom (sliceFrom_floorBoundary t n)
  exact ⟨s, hs, hpre, hsize.le.trans (floorBoundary_le t n)⟩

end Slices

section Finding

/-- The first place where a text stands in another. -/
structure First (needle t : List Char) (n : ℕ) : Prop where
  here : needle <+: t.drop n
  least : ∀ m < n, ¬ needle <+: t.drop m

theorem first_of_indexOf (h : indexOf needle t = some n) : First needle t n ∧ n < t.length := by
  induction t generalizing n with
  | nil => cases h
  | cons c t ih =>
      unfold indexOf at h
      split at h
      · next hhere =>
          obtain rfl := Option.some.inj h
          exact ⟨⟨hhere, fun m hm => absurd hm (Nat.not_lt_zero m)⟩, Nat.succ_pos _⟩
      · next hnot =>
          obtain ⟨k, hk, rfl⟩ := Option.map_eq_some_iff.mp h
          obtain ⟨hfirst, hlt⟩ := ih hk
          refine ⟨⟨hfirst.here, fun m hm => ?_⟩, Nat.succ_lt_succ hlt⟩
          cases m with
          | zero => exact hnot
          | succ m => exact hfirst.least m (Nat.lt_of_succ_lt_succ hm)

theorem absent_of_indexOf (hneedle : needle ≠ []) (h : indexOf needle t = none) (m : ℕ) :
    ¬ needle <+: t.drop m := by
  induction t generalizing m with
  | nil =>
      rw [List.drop_nil]
      exact fun hpre => hneedle (List.prefix_nil.mp hpre)
  | cons c t ih =>
      unfold indexOf at h
      split at h
      · cases h
      · next hnot =>
          cases m with
          | zero => exact hnot
          | succ m => exact ih (Option.map_eq_none_iff.mp h) m

theorem find_eq (needle t : List Char) :
    find needle t = (indexOf needle t).map fun n => size (t.take n) := by
  induction t with
  | nil => rfl
  | cons c t ih =>
      unfold find indexOf
      split
      · rfl
      · rw [ih, Option.map_map, Option.map_map]
        refine congrArg (fun f => Option.map f (indexOf needle t)) (funext fun n => ?_)
        simp [Nat.add_comm]

end Finding

end ByteTexts
