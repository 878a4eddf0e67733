import Bokkie.MarkupPieces

/-!
# Preparing markup

The scan counts bytes in the lower-cased copy, which has the markup's own boundaries. What it has
copied, what it has passed since, and what is left of the text without its pieces make up that text
at every step, so at the scan's end the output is the text without its pieces, or as much of it as
fits. Where nothing is cut, what is left holds an opening just when two sides of a piece spell one.
-/

namespace Bokkie.Markup

open ByteTexts

variable {html kept rest t u w : List Char} {s : Scan} {limit n k : ℕ}

/-! ## Bytes of the lower-cased copy -/

section Bytes

theorem sliceFrom_take (b u : List Char) (n : ℕ) :
    sliceFrom (b ++ u) (size b + size (u.take n)) = some (u.drop n) := by
  have happend := sliceFrom_append (b ++ u.take n) (u.drop n)
  rwa [List.append_assoc, List.take_append_drop, size_append] at happend

theorem size_take_add (h : w <+: u.drop k) :
    size (u.take (k + w.length)) = size (u.take k) + size w := by
  obtain ⟨r, hr⟩ := h
  rw [List.take_add, ← hr, List.take_left, size_append]

theorem size_take_lower (t : List Char) (n : ℕ) : size ((lower t).take n) = size (t.take n) := by
  rw [take_lower, size_lower]

theorem commentEnd_eq (b : List Char) (h : COMMENT <+: u) :
    commentEnd (b ++ u) (size b) = some (match indexOf COMMENT_END (u.drop 4) with
      | some k => size b + size (u.take (4 + k + 3))
      | none => size b + size u) := by
  have hopens : size (u.take 4) = 4 := size_take_add (k := 0) h
  have hslice := sliceFrom_take b u 4
  rw [hopens] at hslice
  rw [commentEnd, hslice, Option.map_some, find_eq]
  cases hindex : indexOf COMMENT_END (u.drop 4) with
  | none => simp
  | some k =>
      have hends := (first_of_indexOf hindex).1.here
      rw [List.drop_drop] at hends
      have hinner : size (u.take (4 + k)) = 4 + size ((u.drop 4).take k) := by
        rw [List.take_add, size_append, hopens]
      have hsize : size (u.take (4 + k + 3)) = size (u.take (4 + k)) + 3 := size_take_add hends
      rw [hinner] at hsize
      simp only [Option.map_some, hsize]
      congr 1
      omega

theorem rawEnd_eq (b : List Char) {name : List Char} (h : ['<'] <+: u) :
    rawEnd (b ++ u) (size b) name = some (match indexOf (closing name) (u.drop 1) with
      | some k =>
        match indexOf ['>'] (u.drop (1 + k)) with
        | some j => size b + size (u.take (1 + k + j + 1))
        | none => size b + size u
      | none => size b + size u) := by
  have hopens : size (u.take 1) = 1 := size_take_add (k := 0) h
  have hslice := sliceFrom_take b u 1
  rw [hopens] at hslice
  rw [rawEnd, hslice, Option.bind_some, find_eq]
  cases hindex : indexOf (closing name) (u.drop 1) with
  | none => simp
  | some k =>
      have hclose : size (u.take (1 + k)) = 1 + size ((u.drop 1).take k) := by
        rw [List.take_add, size_append, hopens]
      have htail := sliceFrom_take b u (1 + k)
      rw [hclose, ← Nat.add_assoc] at htail
      simp only [Option.map_some, htail, find_eq]
      cases hgt : indexOf ['>'] (u.drop (1 + k)) with
      | none => simp
      | some j =>
          have hends := (first_of_indexOf hgt).1.here
          rw [List.drop_drop] at hends
          have hinner : size (u.take (1 + k + j)) =
              1 + size ((u.drop 1).take k) + size ((u.drop (1 + k)).take j) := by
            rw [List.take_add, size_append, hclose]
          have hsize : size (u.take (1 + k + j + 1)) = size (u.take (1 + k + j)) + 1 :=
            size_take_add hends
          rw [hinner] at hsize
          simp only [Option.map_some, hsize]
          congr 1
          omega

/-- By bytes, the scan takes out the piece that starts where it looks. -/
theorem skipTo_eq (b t : List Char) :
    skipTo (b ++ lower t) (size b) (lower t) =
      some ((pieceLength t).map fun n => size b + size (t.take n)) := by
  unfold skipTo pieceLength
  split
  · next hcomment =>
      rw [commentEnd_eq b hcomment, Option.map_some, Option.map_some]
      congr 2
      cases indexOf COMMENT_END ((lower t).drop 4) with
      | none => simp [size_lower]
      | some k => simp only [size_take_lower]
  · cases hfind : RAW.find? (opensRaw (lower t)) with
    | none => rfl
    | some name =>
        obtain ⟨d, -, hopens⟩ := opensRaw_iff.mp (List.find?_some hfind)
        have hopen : ['<'] <+: lower t := (List.prefix_append ['<'] (name ++ [d])).trans hopens
        simp only [rawEnd_eq b hopen, Option.map_some]
        congr 2
        cases indexOf (closing name) ((lower t).drop 1) with
        | none => simp [size_lower]
        | some k =>
            cases hgt : indexOf ['>'] ((lower t).drop (1 + k)) with
            | none => simp [hgt, size_lower]
            | some j => simp only [hgt, size_take_lower]

end Bytes

/-! ## The scan -/

section Scanning

/-- The scan has `kept` to copy and `rest` to read, and what it copied is the text without its
pieces up to there. -/
structure Scanned (html : List Char) (s : Scan) (kept rest : List Char) : Prop where
  places : ∃ before, html = before ++ (kept ++ rest) ∧ s.copied = size before ∧
    s.place = size (before ++ kept)
  left : strip html = s.out ++ (kept ++ strip rest)

theorem scanned_start (html : List Char) : Scanned html ⟨[], 0, 0⟩ [] html :=
  ⟨⟨[], rfl, rfl, rfl⟩, rfl⟩

theorem not_mem_of_absent (h : ∀ m, ¬ ['<'] <+: (lower t).drop m) : '<' ∉ t := by
  intro hmem
  obtain ⟨a, b, rfl⟩ := List.append_of_mem hmem
  refine h (lower a).length ?_
  rw [lower_append, List.drop_left]
  exact ⟨lower b, rfl⟩

theorem exists_of_first (h : First ['<'] (lower t) n) :
    ∃ a r, t = a ++ '<' :: r ∧ '<' ∉ a ∧ (lower t).take n = lower a := by
  obtain ⟨b, hb⟩ := h.here
  rw [drop_lower] at hb
  obtain ⟨c, r, hdrop, hc, -⟩ := List.map_eq_cons_iff.mp hb.symm
  refine ⟨t.take n, r, ?_, ?_, take_lower t n⟩
  · rw [← toLower_eq_open hc, ← hdrop, List.take_append_drop]
  · intro hmem
    obtain ⟨m, hm, hget⟩ := List.mem_iff_getElem.mp hmem
    rw [List.length_take] at hm
    have hlt : m < t.length := hm.trans_le (min_le_right _ _)
    refine h.least m (hm.trans_le (min_le_left _ _)) ?_
    rw [drop_lower, List.drop_eq_getElem_cons hlt]
    rw [List.getElem_take] at hget
    rw [hget]
    exact ⟨lower (t.drop (m + 1)), rfl⟩

/-- One step: the scan ends where no `<` is left, or goes on with less to read. -/
theorem step_scanned (h : Scanned html s kept rest) :
    (step html (lower html) s = some none ∧ '<' ∉ rest) ∨
      ∃ s' kept' rest', step html (lower html) s = some (some s') ∧
        Scanned html s' kept' rest' ∧ rest'.length < rest.length := by
  obtain ⟨⟨before, hhtml, hcopied, hplace⟩, hleft⟩ := h
  have hahead : sliceFrom (lower html) s.place = some (lower rest) := by
    rw [hhtml, ← List.append_assoc, lower_append, hplace, ← size_lower, sliceFrom_append]
  rw [step, hahead, Option.bind_some, find_eq]
  cases hindex : indexOf ['<'] (lower rest) with
  | none => exact .inl ⟨rfl, not_mem_of_absent (absent_of_indexOf (by decide) hindex)⟩
  | some n =>
      refine .inr ?_
      obtain ⟨a, r, hrest, ha, htake⟩ := exists_of_first (first_of_indexOf hindex).1
      have hstart : s.place + size ((lower rest).take n) = size (lower (before ++ kept ++ a)) := by
        rw [htake, size_lower, size_lower, hplace, size_append (before ++ kept)]
      have htext : lower html = lower (before ++ kept ++ a) ++ lower ('<' :: r) := by
        rw [hhtml, hrest, ← lower_append]
        simp only [List.append_assoc]
      simp only [Option.map_some]
      rw [hstart, htext, sliceFrom_append, Option.bind_some, skipTo_eq, Option.bind_some]
      cases hpiece : pieceLength ('<' :: r) with
      | none =>
          -- a `<` of the text's own
          refine ⟨_, kept ++ (a ++ ['<']), r, rfl, ⟨⟨before, ?_, hcopied, ?_⟩, ?_⟩, ?_⟩
          · rw [hhtml, hrest]
            simp only [List.append_assoc, List.singleton_append]
          · have hopen : size ['<'] = 1 := by decide
            simp only [size_lower, size_append, hopen, Nat.add_assoc]
          · rw [hleft, hrest, strip_append ha, strip_keep hpiece]
            simp only [List.append_assoc, List.singleton_append]
          · rw [hrest, List.length_append, List.length_cons]
            omega
      | some m =>
          have hpos := (isPiece_of_pieceLength hpiece).2
          have hslice : slice html s.copied (size (lower (before ++ kept ++ a))) =
              some (kept ++ a) := by
            have happend := slice_append before (kept ++ a) ('<' :: r)
            rw [hcopied, size_lower, List.append_assoc, size_append before, hhtml, hrest]
            rwa [List.append_assoc kept] at happend
          simp only [Option.map_some, hslice]
          refine ⟨_, [], ('<' :: r).drop m, rfl, ⟨⟨before ++ (kept ++ (a ++ ('<' :: r).take m)),
            ?_, ?_, ?_⟩, ?_⟩, ?_⟩
          · rw [hhtml, hrest]
            simp only [List.append_assoc, List.nil_append, List.take_append_drop]
          · simp only [size_lower, size_append, Nat.add_assoc]
          · simp only [size_lower, size_append, Nat.add_assoc, size_nil, Nat.add_zero]
          · rw [hleft, hrest, strip_append ha, strip_remove hpiece]
            simp only [List.append_assoc, List.nil_append]
          · rw [hrest, List.length_append, List.length_drop, List.length_cons]
            omega

/-- With steps enough for what is to be read, the scan ends: with more than fits, or with no `<`
left. -/
theorem scan_scanned (limit fuel : ℕ) (h : Scanned html s kept rest) (hfuel : rest.length < fuel) :
    ∃ s' kept' rest', scan html (lower html) limit fuel s = some s' ∧
      Scanned html s' kept' rest' ∧ (limit < size s'.out ∨ '<' ∉ rest') := by
  induction fuel generalizing s kept rest with
  | zero => exact absurd hfuel (Nat.not_lt_zero _)
  | succ fuel ih =>
      rw [scan]
      rcases step_scanned h with ⟨hstep, hend⟩ | ⟨s', kept', rest', hstep, h', hless⟩
      · rw [hstep]
        exact ⟨s, kept, rest, rfl, h, .inr hend⟩
      · rw [hstep]
        by_cases hlong : limit < size s'.out
        · exact ⟨s', kept', rest', if_pos hlong, h', .inl hlong⟩
        · obtain ⟨e, ke, re, hscan, he⟩ := ih h' (by omega)
          exact ⟨e, ke, re, (if_neg hlong).trans hscan, he⟩

end Scanning

/-! ## The output -/

section Prepare

/-- The scan's output and what is left to copy: the text without its pieces, or a beginning of it
that is more than fits. -/
theorem exists_whole (html : List Char) (limit : ℕ) :
    ∃ whole, prepare html limit = (if limit < size whole then
        (sliceTo whole (floorBoundary whole limit)).map fun out => (out, true)
      else some (whole, false)) ∧
      whole <+: strip html ∧ (limit < size whole ∨ whole = strip html) := by
  obtain ⟨s, kept, rest, hscan, ⟨⟨before, hhtml, hcopied, -⟩, hleft⟩, hend⟩ :=
    scan_scanned limit (html.length + 1) (scanned_start html) (Nat.lt_succ_self _)
  by_cases hshort : size s.out ≤ limit
  · have hmin : min s.copied (size html) = size before := by
      rw [hcopied, hhtml, size_append]
      exact Nat.min_eq_left (Nat.le_add_right _ _)
    have hslice : sliceFrom html (size before) = some (kept ++ rest) := by
      rw [hhtml, sliceFrom_append]
    rw [strip_of_not_mem (hend.resolve_left (Nat.not_lt.mpr hshort))] at hleft
    refine ⟨strip html, ?_, List.prefix_refl _, .inr rfl⟩
    rw [prepare, hscan, Option.bind_some, if_pos hshort, hmin, hslice, Option.map_some, ← hleft,
      Option.bind_some]
  · refine ⟨s.out, ?_, ⟨_, hleft.symm⟩, .inl (Nat.lt_of_not_le hshort)⟩
    rw [prepare, hscan, Option.bind_some, if_neg hshort, Option.bind_some]

/-- The output is the text without its pieces where that fits. -/
theorem prepare_whole (h : size (strip html) ≤ limit) :
    prepare html limit = some (strip html, false) := by
  obtain ⟨whole, hprepare, hpre, hwhole⟩ := exists_whole html limit
  have hfits := (size_le_of_prefixed hpre).trans h
  obtain rfl := hwhole.resolve_left (Nat.not_lt.mpr hfits)
  rw [hprepare, if_neg (Nat.not_lt.mpr hfits)]

/-- Where it does not fit, the output is cut to a beginning of it. -/
theorem prepare_cut (h : limit < size (strip html)) :
    ∃ out, prepare html limit = some (out, true) ∧ out <+: strip html ∧ size out ≤ limit := by
  obtain ⟨whole, hprepare, hpre, hwhole⟩ := exists_whole html limit
  have hlong : limit < size whole := by
    rcases hwhole with hlong | rfl
    · exact hlong
    · exact h
  obtain ⟨out, hout, houtpre, hsize⟩ := sliceTo_floorBoundary whole limit
  refine ⟨out, ?_, houtpre.trans hpre, hsize⟩
  rw [hprepare, if_pos hlong, hout]
  rfl

/-- Preparing markup is sound: it takes nothing off a boundary and ends, what it puts out fits and
is a beginning of the markup with disjoint pieces taken out, all of that where it is not cut, and
then it holds no opening, so that preparing it again changes nothing. -/
def Sound (html : List Char) (limit : ℕ) : Prop :=
  ∃ out cut, prepare html limit = some (out, cut) ∧ size out ≤ limit ∧
    (∃ kept, Removed html kept ∧ out <+: kept ∧ (cut = false ↔ out = kept)) ∧
    (cut = false → NoOpening out ∧ prepare out limit = some (out, false))

/-- Preparing markup is sound just where what stands between the pieces is too long, so that it is
cut, or nowhere do the two sides of a piece spell an opening. -/
theorem preparation_sound (html : List Char) (limit : ℕ) :
    Sound html limit ↔ limit < size (segments html).flatten ∨ ¬ Joined html := by
  rcases Nat.lt_or_ge limit (size (strip html)) with hlong | hfits
  · refine iff_of_true ?_ (.inl hlong)
    obtain ⟨out, hprepare, hpre, hsize⟩ := prepare_cut hlong
    refine ⟨out, true, hprepare, hsize, ⟨strip html, removed_strip html, hpre, ?_⟩, nofun⟩
    refine iff_of_false (by decide) ?_
    rintro rfl
    exact absurd hlong (Nat.not_lt.mpr hsize)
  · have hprepare := prepare_whole hfits
    rw [or_iff_right (Nat.not_lt.mpr hfits : ¬ limit < size (segments html).flatten),
      ← noOpening_iff]
    constructor
    · rintro ⟨out, cut, hout, -, -, hwhole⟩
      rw [hprepare] at hout
      obtain ⟨rfl, rfl⟩ := Prod.mk.inj (Option.some.inj hout)
      exact (hwhole rfl).1
    · intro hnone
      have hagain : prepare (strip html) limit = some (strip html, false) := by
        have hstrip := strip_of_noOpening hnone
        have hwhole : prepare (strip html) limit = some (strip (strip html), false) :=
          prepare_whole (hstrip.symm ▸ hfits)
        rwa [hstrip] at hwhole
      exact ⟨strip html, false, hprepare, hfits,
        ⟨strip html, removed_strip html, List.prefix_refl _, iff_of_true rfl rfl⟩,
        fun _ => ⟨hnone, hagain⟩⟩

/-- A comment inside a start tag's opening. -/
def hiddenScript : List Char := "<<!-- -->script>".toList

/-- The two sides of a comment make a script's start tag, which the output holds. -/
theorem script_spelled : ¬ Sound hiddenScript 1000 := by
  rintro ⟨out, cut, hout, -, -, hwhole⟩
  have hprepare : prepare hiddenScript 1000 = some ("<script>".toList, false) := by
    decide +kernel
  rw [hprepare] at hout
  obtain ⟨rfl, rfl⟩ := Prod.mk.inj (Option.some.inj hout)
  have hagain : prepare "<script>".toList 1000 = some ([], false) := by decide +kernel
  have hsame := (hwhole rfl).2
  rw [hagain] at hsame
  exact absurd hsame (by decide)

end Prepare

end Bokkie.Markup
