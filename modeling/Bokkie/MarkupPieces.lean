import Bokkie.Markup

/-!
# What preparing markup leaves

The scan by bytes takes out the pieces that start where it looks, and leaves the text between them.
Nothing that is left is a piece's opening, unless two sides of a piece that was taken out make one.
-/

namespace Bokkie.Markup

open ByteTexts

variable {t u w : List Char} {c : Char} {n k : ℕ}

/-! ## Lower case -/

section Lower

theorem lower_append (s t : List Char) : lower (s ++ t) = lower s ++ lower t := List.map_append

theorem drop_lower (t : List Char) (n : ℕ) : (lower t).drop n = lower (t.drop n) :=
  List.map_drop.symm

theorem take_lower (t : List Char) (n : ℕ) : (lower t).take n = lower (t.take n) :=
  List.map_take.symm

theorem toLower_of_not_ascii (h : ¬ c.toNat < 128) : c.toLower = c := by
  unfold Char.toLower
  refine dif_neg fun hupper => h ?_
  have hle : c.val.toNat ≤ 90 := UInt32.le_iff_toNat_le.mp hupper.2
  exact Nat.lt_of_le_of_lt hle (by decide)

theorem utf8Size_toLower (c : Char) : c.toLower.utf8Size = c.utf8Size := by
  by_cases hc : c.toNat < 128
  · have hall : ∀ n < 128, (Char.ofNat n).toLower.utf8Size = (Char.ofNat n).utf8Size := by decide
    have hascii := hall c.toNat hc
    rwa [Char.ofNat_toNat] at hascii
  · rw [toLower_of_not_ascii hc]

theorem size_lower (t : List Char) : size (lower t) = size t := by
  induction t with
  | nil => rfl
  | cons c t ih =>
      have hcons : lower (c :: t) = c.toLower :: lower t := rfl
      rw [hcons, size_cons, size_cons, utf8Size_toLower, ih]

theorem toLower_eq_open (h : c.toLower = '<') : c = '<' := by
  by_cases hc : c.toNat < 128
  · have hall : ∀ n < 128, (Char.ofNat n).toLower = '<' → Char.ofNat n = '<' := by decide
    have hascii := hall c.toNat hc
    rw [Char.ofNat_toNat] at hascii
    exact hascii h
  · rwa [toLower_of_not_ascii hc] at h

/-- A beginning of the lower-cased text is a lower-cased beginning of the text. -/
theorem exists_of_prefixed_lower (h : w <+: lower t) :
    ∃ s r, t = s ++ r ∧ lower s = w := by
  obtain ⟨r, hr⟩ := h
  obtain ⟨s, r', ht, hs, -⟩ := List.map_eq_append_iff.mp hr.symm
  exact ⟨s, r', ht, hs⟩

theorem exists_of_suffixed_lower (h : w <:+ lower t) :
    ∃ r s, t = r ++ s ∧ lower s = w := by
  obtain ⟨r, hr⟩ := h
  obtain ⟨r', s, ht, -, hs⟩ := List.map_eq_append_iff.mp hr.symm
  exact ⟨r', s, ht, hs⟩

end Lower

/-! ## Openings -/

section Openings

theorem opensRaw_iff {name : List Char} : opensRaw u name = true ↔
    ∃ d, endsName d = true ∧ ('<' :: (name ++ [d])) <+: u := by
  cases u with
  | nil => simp [opensRaw]
  | cons c t =>
      simp only [opensRaw, decide_eq_true_eq]
      constructor
      · rintro ⟨rfl, ⟨r, rfl⟩, hany⟩
        rw [List.drop_left] at hany
        cases r with
        | nil => cases hany
        | cons d r =>
            exact ⟨d, hany, List.cons_prefix_cons.mpr ⟨rfl, ⟨r, by simp⟩⟩⟩
      · rintro ⟨d, hd, hpre⟩
        obtain ⟨rfl, r, hr⟩ := List.cons_prefix_cons.mp hpre
        subst hr
        refine ⟨rfl, ⟨[d] ++ r, by simp⟩, ?_⟩
        rw [List.append_assoc, List.drop_left]
        exact hd

theorem opening_iff : Opening t ↔
    COMMENT <+: lower t ∨ ∃ name ∈ RAW, opensRaw (lower t) name = true := by
  constructor
  · rintro ⟨w, hw, hpre⟩
    cases hw with
    | comment => exact .inl hpre
    | raw hname hends => exact .inr ⟨_, hname, opensRaw_iff.mpr ⟨_, hends, hpre⟩⟩
  · rintro (hpre | ⟨name, hname, hopens⟩)
    · exact ⟨_, .comment, hpre⟩
    · obtain ⟨d, hd, hpre⟩ := opensRaw_iff.mp hopens
      exact ⟨_, .raw hname hd, hpre⟩

/-- A piece starts a text just when an opening does. -/
theorem pieceLength_eq_none : pieceLength t = none ↔ ¬ Opening t := by
  rw [opening_iff]
  unfold pieceLength
  split
  · next h => simp [h]
  · next h => simp [h]

theorem Opener.head (h : Opener w) : ∃ r, w = '<' :: r := by
  cases h with
  | comment => exact ⟨_, rfl⟩
  | raw => exact ⟨_, rfl⟩

theorem Opening.head (h : Opening (c :: t)) : c = '<' := by
  obtain ⟨w, hw, hpre⟩ := h
  obtain ⟨r, rfl⟩ := hw.head
  exact toLower_eq_open (List.cons_prefix_cons.mp hpre).1.symm

theorem not_opening_nil : ¬ Opening [] := by
  rintro ⟨w, hw, hpre⟩
  obtain ⟨r, rfl⟩ := hw.head
  cases List.prefix_nil.mp hpre

theorem isPiece_of_pieceLength (h : pieceLength t = some n) : IsPiece t n ∧ 0 < n := by
  have hopening : Opening t := by
    by_contra hnot
    rw [pieceLength_eq_none.mpr hnot] at h
    cases h
  have hpos : 0 < t.length := by
    rcases t with _ | ⟨c, t⟩
    · exact absurd hopening not_opening_nil
    · exact Nat.succ_pos _
  unfold pieceLength at h
  split at h
  · next hcomment =>
      obtain rfl := Option.some.inj h
      split
      · next k hk => exact ⟨.comment hcomment (first_of_indexOf hk).1, by omega⟩
      · next hnone =>
          exact ⟨.openComment hcomment (absent_of_indexOf (by decide) hnone), hpos⟩
  · obtain ⟨name, hfind, rfl⟩ := Option.map_eq_some_iff.mp h
    have hname := List.mem_of_find?_eq_some hfind
    have hopens := List.find?_some hfind
    split
    · next k hk =>
        have hfirst := (first_of_indexOf hk).1
        split
        · next j hj =>
            exact ⟨.raw hname hopens hfirst (first_of_indexOf hj).1, by omega⟩
        · next hnone =>
            exact ⟨.openTag hname hopens hfirst (absent_of_indexOf (by decide) hnone), hpos⟩
    · next hnone =>
        exact ⟨.openRaw hname hopens (absent_of_indexOf (by simp [closing]) hnone), hpos⟩

end Openings

/-! ## What stands between the pieces -/

section Segments

theorem flatten_consHead (c : Char) (ss : List (List Char)) :
    (consHead c ss).flatten = c :: ss.flatten := by
  cases ss with
  | nil => rfl
  | cons s ss => rfl

theorem segmentsFrom_eq (k : ℕ) (t : List Char) : segmentsFrom k t = segments (t.drop k) := by
  induction t generalizing k with
  | nil =>
      rw [List.drop_nil]
      cases k <;> rfl
  | cons c t ih =>
      cases k with
      | zero => rfl
      | succ k => exact ih k

theorem segments_keep (h : pieceLength (c :: t) = none) :
    segments (c :: t) = consHead c (segments t) := by
  rw [segments, segmentsFrom, h]
  rfl

theorem segments_remove (h : pieceLength (c :: t) = some n) :
    segments (c :: t) = [] :: segments ((c :: t).drop n) := by
  obtain ⟨m, rfl⟩ : ∃ m, n = m + 1 := ⟨n - 1, by have := (isPiece_of_pieceLength h).2; omega⟩
  rw [segments, segmentsFrom, h]
  exact congrArg _ (segmentsFrom_eq m t)

/-- What holds of the empty text, is kept where a character is, and where a piece is taken out,
holds of every text. -/
theorem segments_induction {motive : List Char → Prop} (nil : motive [])
    (keep : ∀ c t, pieceLength (c :: t) = none → motive t → motive (c :: t))
    (remove : ∀ c t n, pieceLength (c :: t) = some n → motive ((c :: t).drop n) → motive (c :: t))
    (t : List Char) : motive t := by
  induction hlen : t.length using Nat.strong_induction_on generalizing t with
  | _ m ih =>
      subst hlen
      cases t with
      | nil => exact nil
      | cons c t =>
          cases hpiece : pieceLength (c :: t) with
          | none => exact keep c t hpiece (ih _ (Nat.lt_succ_self _) t rfl)
          | some n =>
              have hpos := (isPiece_of_pieceLength hpiece).2
              refine remove c t n hpiece (ih _ ?_ _ rfl)
              rw [List.length_drop, List.length_cons]
              omega

theorem strip_keep (h : pieceLength (c :: t) = none) : strip (c :: t) = c :: strip t := by
  rw [strip, segments_keep h, flatten_consHead]
  rfl

theorem strip_remove (h : pieceLength (c :: t) = some n) :
    strip (c :: t) = strip ((c :: t).drop n) := by
  rw [strip, segments_remove h]
  rfl

/-- What is left is the text with its pieces taken out. -/
theorem removed_strip (t : List Char) : Removed t (strip t) := by
  induction t using segments_induction with
  | nil => exact .nil
  | keep c t h ih =>
      rw [strip_keep h]
      exact .keep c ih
  | remove c t n h ih =>
      rw [strip_remove h]
      obtain ⟨hpiece, hpos⟩ := isPiece_of_pieceLength h
      exact .remove hpiece hpos ih

theorem strip_append {s : List Char} (h : '<' ∉ s) (t : List Char) :
    strip (s ++ t) = s ++ strip t := by
  induction s with
  | nil => rfl
  | cons c s ih =>
      have hnot : ¬ Opening (c :: (s ++ t)) := fun hopening =>
        h (hopening.head ▸ List.mem_cons_self)
      rw [List.cons_append, strip_keep (pieceLength_eq_none.mpr hnot),
        ih fun hmem => h (List.mem_cons_of_mem _ hmem), List.cons_append]

theorem strip_of_not_mem (h : '<' ∉ t) : strip t = t := by
  have happend := strip_append h []
  have hnil : strip [] = [] := rfl
  rwa [List.append_nil, hnil, List.append_nil] at happend

theorem strip_of_noOpening (h : NoOpening t) : strip t = t := by
  induction t with
  | nil => rfl
  | cons c t ih =>
      rw [strip_keep (pieceLength_eq_none.mpr (h _ (List.suffix_refl _)))]
      rw [ih fun u hu => h u (hu.trans (List.suffix_cons c t))]

theorem segments_head (t : List Char) : ∃ s ss, segments t = s :: ss ∧ s <+: t := by
  induction t using segments_induction with
  | nil => exact ⟨[], [], rfl, List.nil_prefix⟩
  | keep c t h ih =>
      obtain ⟨s, ss, heq, hpre⟩ := ih
      refine ⟨c :: s, ss, ?_, List.cons_prefix_cons.mpr ⟨rfl, hpre⟩⟩
      rw [segments_keep h, heq]
      rfl
  | remove c t n h _ => exact ⟨[], _, segments_remove h, List.nil_prefix⟩

end Segments

/-! ## Openings in what is left -/

section Joins

theorem noOpening_not_joined (h : NoOpening (strip t)) : ¬ Joined t := by
  rintro ⟨before, after, hsegments, -, -, x, y, hx, -, hopener, hbefore, hafter⟩
  obtain ⟨p, x', hp, rfl⟩ := exists_of_suffixed_lower hbefore
  obtain ⟨y', q, hq, rfl⟩ := exists_of_prefixed_lower hafter
  have hstrip : strip t = p ++ (x' ++ (y' ++ q)) := by
    rw [strip, hsegments, List.flatten_append, hp, hq, List.append_assoc]
  refine h (x' ++ (y' ++ q)) (hstrip ▸ List.suffix_append _ _) ⟨_, hopener, ?_⟩
  rw [← lower_append, ← List.append_assoc, lower_append (x' ++ y')]
  exact List.prefix_append _ _

/-- An opening in what is left spans a place where a piece was taken out. -/
theorem joined_of_opening (hu : u <:+ strip t) (hopening : Opening u) : Joined t := by
  induction t using segments_induction generalizing u with
  | nil =>
      have hnil : u = [] := List.suffix_nil.mp hu
      exact absurd (hnil ▸ hopening) not_opening_nil
  | remove c t n h ih =>
      rw [strip_remove h] at hu
      obtain ⟨before, after, hsegments, -, hafter, hspelled⟩ := ih hu hopening
      refine ⟨[] :: before, after, ?_, List.cons_ne_nil _ _, hafter, ?_⟩
      · rw [segments_remove h, hsegments]
        rfl
      · exact hspelled
  | keep c t h ih =>
      rw [strip_keep h] at hu
      rcases List.suffix_cons_iff.mp hu with rfl | hu
      · -- it starts here, so it is longer than what is kept before the next piece
        obtain ⟨w, hw, hpre⟩ := hopening
        obtain ⟨s, ss, hsegments, hs⟩ := segments_head t
        have hstrip : c :: strip t = (c :: s) ++ ss.flatten := by
          rw [strip, hsegments]
          rfl
        rw [hstrip, lower_append] at hpre
        have hlong : ¬ w <+: lower (c :: s) := fun hshort => by
          refine absurd ⟨w, hw, hshort.trans ?_⟩ (pieceLength_eq_none.mp h)
          obtain ⟨r, rfl⟩ := hs
          exact ⟨lower r, (lower_append (c :: s) r).symm⟩
        obtain ⟨y, rfl⟩ := (List.prefix_or_prefix_of_prefix hpre
          (List.prefix_append _ _)).resolve_left hlong
        have hy : y ≠ [] := by
          rintro rfl
          exact hlong (by rw [List.append_nil])
        have hafter := (List.prefix_append_right_inj _).mp hpre
        refine ⟨[c :: s], ss, ?_, List.cons_ne_nil _ _, ?_, lower (c :: s), y,
          List.cons_ne_nil _ _, hy, hw, ?_, hafter⟩
        · rw [segments_keep h, hsegments]
          rfl
        · rintro rfl
          exact hy (List.prefix_nil.mp hafter)
        · rw [List.flatten_cons, List.flatten_nil, List.append_nil]
      · obtain ⟨before, after, hsegments, hbefore, hafter, x, y, hx, hy, hopener, hxs, hyp⟩ :=
          ih hu hopening
        obtain ⟨b, before, rfl⟩ := List.exists_cons_of_ne_nil hbefore
        refine ⟨(c :: b) :: before, after, ?_, List.cons_ne_nil _ _, hafter, x, y, hx, hy,
          hopener, hxs.trans ?_, hyp⟩
        · rw [segments_keep h, hsegments]
          rfl
        · exact List.suffix_cons _ _

theorem noOpening_iff : NoOpening (strip t) ↔ ¬ Joined t :=
  ⟨noOpening_not_joined, fun h _ hu hopening => h (joined_of_opening hu hopening)⟩

end Joins

end Bokkie.Markup
