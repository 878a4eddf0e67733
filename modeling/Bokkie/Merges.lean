import Mathlib.Data.List.Induction
import Mathlib.Order.Lattice

/-!
# Merging copies by a key

Of the copies of one thing, the one held gives way to a copy whose key is no smaller. What is held
in the end is told by the copies that arrive after it.
-/

namespace Merges

variable {β κ : Type*} [LinearOrder κ] {key : β → κ} {held c m : β} {copies before after : List β}

/-- A copy is kept unless the one held is further on. -/
def keep (key : β → κ) : Option β → β → Option β
  | none, c => some c
  | some held, c => if key c < key held then some held else some c

/-- What is held once the copies have arrived. -/
def settle (key : β → κ) : Option β → List β → Option β := List.foldl (keep key)

/-- Only copies of a smaller key follow the last arrival of `m`. -/
def Unovertaken (key : β → κ) (m : β) (copies : List β) : Prop :=
  ∀ before after, copies = before ++ m :: after → m ∉ after → ∀ c ∈ after, key c < key m

/-- Where only copies of a smaller key follow one arrival of `m`, it is the last. -/
theorem unovertaken_of_last (h : ∀ c ∈ after, key c < key m) :
    Unovertaken key m (before ++ m :: after) := by
  intro before' after' hsplit hlast c hc
  have hnot : m ∉ after := fun hm => lt_irrefl _ (h m hm)
  rcases List.append_eq_append_iff.mp hsplit with ⟨l, -, hrest⟩ | ⟨l, -, hrest⟩
  · cases l with
    | nil =>
        rw [List.nil_append, List.cons.injEq] at hrest
        exact h c (hrest.2 ▸ hc)
    | cons x l =>
        rw [List.cons_append, List.cons.injEq] at hrest
        exact absurd (hrest.2 ▸ List.mem_append_right l List.mem_cons_self) hnot
  · cases l with
    | nil =>
        rw [List.nil_append, List.cons.injEq] at hrest
        exact h c (hrest.2 ▸ hc)
    | cons x l =>
        rw [List.cons_append, List.cons.injEq] at hrest
        exact absurd (hrest.2 ▸ List.mem_append_right l List.mem_cons_self) hlast

theorem settle_append (start : Option β) :
    settle key start (before ++ after) = settle key (settle key start before) after :=
  List.foldl_append

theorem settle_cons (start : Option β) :
    settle key start (c :: copies) = settle key (keep key start c) copies := rfl

theorem keep_of_le (h : key held ≤ key c) : keep key (some held) c = some c :=
  if_neg h.not_gt

theorem keep_of_lt (h : key c < key held) : keep key (some held) c = some held := if_pos h

/-- What is held is the copy held before, or one that arrived. -/
theorem settle_mem (key : β → κ) (held : β) (copies : List β) :
    ∃ last ∈ held :: copies, settle key (some held) copies = some last := by
  induction copies generalizing held with
  | nil => exact ⟨held, List.mem_cons_self, rfl⟩
  | cons c copies ih =>
      rw [settle_cons]
      rcases lt_or_ge (key c) (key held) with hlt | hge
      · rw [keep_of_lt hlt]
        obtain ⟨last, hlast, heq⟩ := ih held
        refine ⟨last, ?_, heq⟩
        rcases List.mem_cons.mp hlast with rfl | hlast
        · exact List.mem_cons_self
        · exact List.mem_cons_of_mem _ (List.mem_cons_of_mem _ hlast)
      · rw [keep_of_le hge]
        obtain ⟨last, hlast, heq⟩ := ih c
        exact ⟨last, List.mem_cons_of_mem _ hlast, heq⟩

/-- Copies behind the one held change nothing. -/
theorem settle_of_lt (h : ∀ c ∈ copies, key c < key held) :
    settle key (some held) copies = some held := by
  induction copies with
  | nil => rfl
  | cons c copies ih =>
      rw [settle_cons, keep_of_lt (h c List.mem_cons_self)]
      exact ih fun c hc => h c (List.mem_cons_of_mem _ hc)

/-- A copy that nothing before it is ahead of is held when it arrives. -/
theorem settle_snoc (h : ∀ c ∈ before, key c ≤ key m) :
    settle key none (before ++ [m]) = some m := by
  rw [settle_append]
  cases before with
  | nil => rfl
  | cons c before =>
      obtain ⟨last, hlast, heq⟩ := settle_mem key c before
      have hfirst : settle key none (c :: before) = some last := heq
      rw [hfirst]
      exact keep_of_le (h last hlast)

theorem last_arrival (hm : m ∈ copies) :
    ∃ before after, copies = before ++ m :: after ∧ m ∉ after := by
  obtain ⟨after, before, hsplit, hnot⟩ :=
    List.eq_append_cons_of_mem (List.mem_reverse.mpr hm)
  refine ⟨before.reverse, after.reverse, ?_, fun h => hnot (List.mem_reverse.mp h)⟩
  rw [← List.reverse_reverse copies, hsplit]
  simp

/-- The copy that none is ahead of is held in the end just when no other as far on came later. -/
theorem settle_eq_iff (hm : m ∈ copies) (hmax : ∀ c ∈ copies, key c ≤ key m) :
    settle key none copies = some m ↔ Unovertaken key m copies := by
  have hsplit : ∀ before after, copies = before ++ m :: after →
      settle key none copies = settle key (some m) after := by
    rintro before after rfl
    have hfirst : settle key none (before ++ [m]) = some m := settle_snoc fun c hc =>
      hmax c (List.mem_append_left _ hc)
    rw [List.append_cons, settle_append, hfirst]
  constructor
  · intro hheld before after hcopies hlast c hc
    rw [hsplit before after hcopies] at hheld
    by_contra hge
    obtain ⟨near, far, rfl⟩ := List.append_of_mem hc
    -- the copy as far on is held when it arrives, and `m` does not arrive again
    obtain ⟨between, hbetween, heq⟩ := settle_mem key m near
    have hle : key between ≤ key m := by
      rcases List.mem_cons.mp hbetween with rfl | hnear
      · exact le_refl _
      · exact hmax between (by simp [hcopies, hnear])
    obtain ⟨last, hmem, hheld'⟩ := settle_mem key c far
    rw [settle_append, heq, settle_cons, keep_of_le (hle.trans (not_lt.mp hge)), hheld'] at hheld
    obtain rfl := Option.some.inj hheld
    exact hlast (List.mem_append_right _ hmem)
  · intro h
    obtain ⟨before, after, hcopies, hlast⟩ := last_arrival hm
    rw [hsplit before after hcopies]
    exact settle_of_lt (h before after hcopies hlast)

end Merges
