import Mathlib.Data.List.Infix

/-!
# Redaction

Every occurrence of a pattern in a text is replaced, from left to right. A replacement that shares
no end with the pattern's start, and no start with its end, leaves no occurrence behind.
-/

namespace Redaction

variable {α : Type*} [DecidableEq α] (fold : α → α) (pattern replacement : List α)

/-- The text with each occurrence replaced, but for so many elements. Elements that `fold` maps to
the same are the same. -/
def redactAfter : ℕ → List α → List α
  | _, [] => []
  | skip + 1, _ :: t => redactAfter skip t
  | 0, c :: t =>
    if pattern <+: (c :: t).map fold then
      replacement ++ redactAfter (pattern.length - 1) t
    else c :: redactAfter 0 t

def redact (t : List α) : List α := redactAfter fold pattern replacement 0 t

/-- No part of the replacement is the start of an occurrence or the end of one. -/
structure Apart : Prop where
  nonempty : pattern ≠ []
  length : pattern.length ≤ replacement.length + 1
  ends : ∀ m ∈ pattern.tail.tails, m <+: replacement.map fold → m = []
  starts : ∀ r ∈ (replacement.map fold).tails, r ≠ [] → ¬ r <+: pattern ∧ ¬ pattern <+: r

variable {fold pattern replacement}

omit [DecidableEq α] in
/-- An occurrence in two lists is in the second, or starts in the first. -/
theorem infix_append_cases {p l₁ l₂ : List α} (h : p <:+: l₁ ++ l₂) :
    p <:+: l₂ ∨ ∃ r, r ≠ [] ∧ r <:+ l₁ ∧ p <+: r ++ l₂ := by
  induction l₁ with
  | nil => exact .inl h
  | cons a l₁ ih =>
      rcases List.infix_cons_iff.mp h with h | h
      · exact .inr ⟨a :: l₁, List.cons_ne_nil a l₁, List.suffix_rfl, h⟩
      · rcases ih h with h | ⟨r, hne, hr, h⟩
        · exact .inl h
        · exact .inr ⟨r, hne, hr.trans (List.suffix_cons a l₁), h⟩

/-- What ends an occurrence and starts the redacted text started the text. -/
theorem Apart.end_kept (h : Apart fold pattern replacement) {skip : ℕ} {t m : List α}
    (hm : m <:+ pattern.tail)
    (hstart : m <+: (redactAfter fold pattern replacement skip t).map fold) :
    m <+: (t.drop skip).map fold := by
  induction t generalizing skip m with
  | nil => simpa [redactAfter] using hstart
  | cons c t ih =>
      cases skip with
      | succ skip => exact ih hm hstart
      | zero =>
          rw [redactAfter] at hstart
          split at hstart
          · rw [List.map_append] at hstart
            have hlength : m.length ≤ (replacement.map fold).length := by
              have hle := hm.length_le
              have htail := h.length
              rw [List.length_tail] at hle
              rw [List.length_map]
              omega
            have hnil : m = [] := h.ends m ((List.mem_tails _ _).mpr hm)
              (List.prefix_of_prefix_length_le hstart (List.prefix_append _ _) hlength)
            rw [hnil]
            exact List.nil_prefix
          · cases m with
            | nil => exact List.nil_prefix
            | cons a m =>
                obtain ⟨rfl, hrest⟩ := List.cons_prefix_cons.mp hstart
                have hm' : m <:+ pattern.tail := (List.suffix_cons _ m).trans hm
                exact List.cons_prefix_cons.mpr ⟨rfl, ih hm' hrest⟩

/-- The redacted text has no occurrence. -/
theorem Apart.not_infix (h : Apart fold pattern replacement) (skip : ℕ) (t : List α) :
    ¬ pattern <:+: (redactAfter fold pattern replacement skip t).map fold := by
  induction t generalizing skip with
  | nil =>
      intro hin
      exact h.nonempty (List.infix_nil.mp hin)
  | cons c t ih =>
      cases skip with
      | succ skip => exact ih skip
      | zero =>
          intro hin
          rw [redactAfter] at hin
          split at hin
          · rw [List.map_append] at hin
            rcases infix_append_cases hin with hin | ⟨r, hne, hr, hin⟩
            · exact ih _ hin
            · obtain ⟨hstart, hwhole⟩ := h.starts r ((List.mem_tails _ _).mpr hr) hne
              rcases List.prefix_or_prefix_of_prefix hin (List.prefix_append r _) with hp | hp
              · exact hwhole hp
              · exact hstart hp
          · next hno =>
            rcases List.infix_cons_iff.mp hin with hin | hin
            · obtain ⟨m, hpattern, hrest⟩ := (List.prefix_cons_iff.mp hin).resolve_left h.nonempty
              have hm : m <:+ pattern.tail := by
                rw [hpattern]
                exact List.suffix_rfl
              exact hno (List.prefix_cons_iff.mpr (.inr ⟨m, hpattern, h.end_kept hm hrest⟩))
            · exact ih 0 hin

end Redaction
