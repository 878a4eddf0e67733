import Bokkie.Occurrences
import Bokkie.Schedule
import Mathlib.Data.List.TakeWhile

/-!
# The search finds the neighbours

The dates that a search looks at are a window of local times. What the code finds in it is what
occurs there, and a week and a day reach far enough for what occurs there next to an instant to be
what occurs next to it over all dates.
-/

namespace Bokkie

open Accounts CivilTime TimeZone

/-! ## Lists in order -/

/-- The first entry that passes, in a list in order, is the one that no other passing precedes. -/
theorem find?_eq_some_of_first {α : Type} {R : α → α → Prop} {l : List α} {p : α → Bool} {u : α}
    (hl : l.Pairwise R) (hu : u ∈ l) (hp : p u = true)
    (hfirst : ∀ v ∈ l, p v = true → ¬ R v u) : l.find? p = some u := by
  induction l with
  | nil => cases hu
  | cons v rest ih =>
      obtain ⟨hv, hrest⟩ := List.pairwise_cons.mp hl
      by_cases hpv : p v = true
      · rw [List.find?_cons_of_pos hpv]
        rcases List.mem_cons.mp hu with rfl | hin
        · rfl
        · exact absurd (hv u hin) (hfirst v List.mem_cons_self hpv)
      · rw [List.find?_cons_of_neg hpv]
        have hin : u ∈ rest := by
          rcases List.mem_cons.mp hu with rfl | hin
          · exact absurd hp hpv
          · exact hin
        exact ih hrest hin fun w hw => hfirst w (List.mem_cons_of_mem _ hw)

namespace Candidate

variable {a b c : Candidate}

theorem le_iff : a.le b = true ↔ a.time < b.time ∨ (a.time = b.time ∧ (b.moved = false →
    a.moved = false)) := by
  cases ha : a.moved <;> cases hb : b.moved <;> simp [Candidate.le, ha, hb]

theorem le_trans (hab : a.le b = true) (hbc : b.le c = true) : a.le c = true := by
  rw [le_iff] at *
  grind

theorem le_total (a b : Candidate) : (a.le b || b.le a) = true := by
  rw [Bool.or_eq_true, le_iff, le_iff]
  grind

end Candidate

namespace Schedule

variable {s : Schedule} {z : TimeZone} {c : Candidate} {l : List Candidate} {u : ℤ}

/-! ## From candidates to occurrences -/

theorem mem_of_mem_dedupFrom {other : Candidate} (h : other ∈ dedupFrom c l) : other ∈ c :: l := by
  induction l generalizing c with
  | nil => exact h
  | cons next rest ih =>
      rw [dedupFrom] at h
      split at h
      · have := ih h
        grind
      · rcases List.mem_cons.mp h with rfl | h
        · exact List.mem_cons_self
        · exact List.mem_cons_of_mem _ (ih h)

/-- Of the candidates at one time the least is kept. -/
theorem exists_mem_dedupFrom (hl : (c :: l).Pairwise (Candidate.le · ·)) {other : Candidate}
    (hother : other ∈ c :: l) :
    ∃ kept ∈ dedupFrom c l, kept.time = other.time ∧ (other.moved = false → kept.moved = false) := by
  induction l generalizing c other with
  | nil =>
      rcases List.mem_cons.mp hother with rfl | hin
      · exact ⟨other, List.mem_cons_self, rfl, id⟩
      · cases hin
  | cons next rest ih =>
      obtain ⟨hc, hrest⟩ := List.pairwise_cons.mp hl
      rw [dedupFrom]
      by_cases hsame : next.time = c.time
      · rw [if_pos hsame]
        have hskip : (c :: rest).Pairwise (Candidate.le · ·) :=
          List.pairwise_cons.mpr ⟨fun d hd => hc d (List.mem_cons_of_mem _ hd),
            (List.pairwise_cons.mp hrest).2⟩
        rcases List.mem_cons.mp hother with rfl | hin
        · exact ih hskip List.mem_cons_self
        rcases List.mem_cons.mp hin with rfl | hin
        · obtain ⟨kept, hkept, htime, hmoved⟩ := ih hskip List.mem_cons_self
          refine ⟨kept, hkept, htime.trans hsame.symm, fun hshown => hmoved ?_⟩
          have := Candidate.le_iff.mp (hc other List.mem_cons_self)
          grind
        · exact ih hskip (List.mem_cons_of_mem _ hin)
      · rw [if_neg hsame]
        rcases List.mem_cons.mp hother with rfl | hin
        · exact ⟨other, List.mem_cons_self, rfl, id⟩
        · obtain ⟨kept, hkept, hrest'⟩ := ih hrest hin
          exact ⟨kept, List.mem_cons_of_mem _ hkept, hrest'⟩

theorem dedupFrom_pairwise (hl : (c :: l).Pairwise (Candidate.le · ·)) :
    (dedupFrom c l).Pairwise (·.time < ·.time) := by
  induction l generalizing c with
  | nil => exact List.pairwise_singleton _ _
  | cons next rest ih =>
      obtain ⟨hc, hrest⟩ := List.pairwise_cons.mp hl
      rw [dedupFrom]
      by_cases hsame : next.time = c.time
      · rw [if_pos hsame]
        exact ih (List.pairwise_cons.mpr ⟨fun d hd => hc d (List.mem_cons_of_mem _ hd),
          (List.pairwise_cons.mp hrest).2⟩)
      · rw [if_neg hsame]
        refine List.pairwise_cons.mpr ⟨fun d hd => ?_, ih hrest⟩
        have hnext : c.time < next.time := by
          have := Candidate.le_iff.mp (hc next List.mem_cons_self)
          grind
        rcases List.mem_cons.mp (mem_of_mem_dedupFrom hd) with rfl | hin
        · exact hnext
        · have := Candidate.le_iff.mp ((List.pairwise_cons.mp hrest).1 d hin)
          grind

theorem mem_of_mem_dedup (h : c ∈ dedup l) : c ∈ l := by
  cases l with
  | nil => cases h
  | cons first rest => exact mem_of_mem_dedupFrom h

theorem exists_mem_dedup (hl : l.Pairwise (Candidate.le · ·)) (hc : c ∈ l) :
    ∃ kept ∈ dedup l, kept.time = c.time ∧ (c.moved = false → kept.moved = false) := by
  cases l with
  | nil => cases hc
  | cons first rest => exact exists_mem_dedupFrom hl hc

theorem dedup_pairwise (hl : l.Pairwise (Candidate.le · ·)) :
    (dedup l).Pairwise (·.time < ·.time) := by
  cases l with
  | nil => exact List.Pairwise.nil
  | cons first rest => exact dedupFrom_pairwise hl

theorem keep_pairwise (hl : l.Pairwise (·.time < ·.time)) : (keep l).Pairwise (· < ·) := by
  have hmap : l.map (·.time) = l.zipIdx.map fun ci => ci.1.time := by
    have hcomp : (fun ci : Candidate × ℕ => ci.1.time) = (·.time) ∘ Prod.fst := rfl
    rw [hcomp, ← List.map_map, List.zipIdx_map_fst]
  have hsub : (keep l).Sublist (l.map (·.time)) := by
    rw [hmap]
    exact List.filter_sublist.map _
  exact (List.pairwise_map.mpr hl).sublist hsub

/-- Entries at one time, in a list in order of time, are one entry. -/
theorem index_eq (hl : l.Pairwise (·.time < ·.time)) {a b : Candidate} {i j : ℕ}
    (hi : l[i]? = some a) (hj : l[j]? = some b) (h : a.time = b.time) : i = j := by
  obtain ⟨hi', rfl⟩ := List.getElem?_eq_some_iff.mp hi
  obtain ⟨hj', rfl⟩ := List.getElem?_eq_some_iff.mp hj
  rcases lt_trichotomy i j with hlt | heq | hlt
  · have := List.pairwise_iff_getElem.mp hl i j hi' hj' hlt
    omega
  · exact heq
  · have := List.pairwise_iff_getElem.mp hl j i hj' hi' hlt
    omega

theorem mem_keep (hl : l.Pairwise (·.time < ·.time)) :
    u ∈ keep l ↔ ∃ c ∈ l, c.time = u ∧ (c.moved = false ∨ ∀ other ∈ l, other.time ≠ u →
      HOUR_MS ≤ |other.time - u|) := by
  simp only [keep, List.mem_map, List.mem_filter, Prod.exists, List.mk_mem_zipIdx_iff_getElem?,
    Bool.or_eq_true, Bool.not_eq_true', List.all_eq_true, Prod.forall, decide_eq_true_eq]
  constructor
  · rintro ⟨c, i, ⟨hi, hkept⟩, rfl⟩
    refine ⟨c, List.mem_of_getElem? hi, rfl, hkept.imp_right fun hall other hother hne => ?_⟩
    obtain ⟨j, hj⟩ := List.getElem?_of_mem hother
    rcases hall other j hj with rfl | hfar
    · rw [hi] at hj
      exact absurd (congrArg Candidate.time (Option.some.inj hj)).symm hne
    · exact hfar
  · rintro ⟨c, hc, rfl, hkept⟩
    obtain ⟨i, hi⟩ := List.getElem?_of_mem hc
    refine ⟨c, i, ⟨hi, hkept.imp_right fun hall other j hj => ?_⟩, rfl⟩
    by_cases hsame : other.time = c.time
    · exact .inl (index_eq hl hi hj hsame.symm)
    · exact .inr (hall other (List.mem_of_getElem? hj) hsame)

/-! ## Local times -/

/-- The local times that the schedule names, on any date. -/
def Scheduled (s : Schedule) (dt : ℤ) : Prop :=
  ∃ date, s.runsOn date = true ∧ ∃ m ∈ s.times, dt = localTimeOf date m

theorem resolve_eq (z : TimeZone) (date : ℤ) (m : ℕ) :
    resolve z date m =
      some ⟨z.firstInstant (localTimeOf date m), z.skips (localTimeOf date m)⟩ := by
  rcases z.spaced.ambiguousFrom_eq (localTimeOf date m) with
    ⟨offset, hkind, hfirst⟩ | ⟨offset, after, hkind, hfirst⟩ |
      ⟨offset, after, tr, hkind, hfound, hfirst, -⟩
  · simp only [resolve, toAmbiguousTimestamp, firstInstant, skips, hkind, hfirst]
  · simp only [resolve, toAmbiguousTimestamp, firstInstant, skips, hkind, hfirst]
  · simp [resolve, toAmbiguousTimestamp, following, firstInstant, skips, hkind, hfirst, hfound]

theorem minutes_lt (t : TimeOfDay) : t.minutes < DAY_MINUTES := by
  have := t.hour_lt
  have := t.minute_lt
  simp only [TimeOfDay.minutes, DAY_MINUTES]
  omega

theorem lt_of_mem_takeWhile {n m : ℕ} {l : List ℕ} (h : m ∈ l.takeWhile (· < n)) : m < n := by
  simpa using List.mem_takeWhile_imp h

theorem lt_of_mem_times {m : ℕ} (h : m ∈ s.times) : m < DAY_MINUTES := by
  cases s with
  | daily t | weekdays t | days chosen t =>
      rw [List.mem_singleton.mp h]
      exact minutes_lt t
  | hours every t => exact lt_of_mem_takeWhile h

theorem exists_mem_times (s : Schedule) : ∃ m, m ∈ s.times := by
  cases s with
  | daily t | weekdays t | days chosen t => exact ⟨_, List.mem_singleton_self _⟩
  | hours every t =>
      have hfirst : t.minutes % (max every 1 * 60) < DAY_MINUTES :=
        (Nat.mod_le _ _).trans_lt (minutes_lt t)
      refine ⟨t.minutes % (max every 1 * 60), ?_⟩
      rw [times, List.range_succ_eq_map, List.map_cons, List.takeWhile_cons_of_pos]
      · simp
      · simpa using hfirst

theorem localTimeOf_bounds (date : ℤ) {m : ℕ} (h : m < DAY_MINUTES) :
    date * DAY ≤ localTimeOf date m ∧ localTimeOf date m < (date + 1) * DAY := by
  simp only [localTimeOf, DAY, MINUTE_MS, DAY_MINUTES] at *
  omega

/-- The local times scheduled on the dates of a search. -/
theorem mem_candidates {first last : ℤ} :
    c ∈ s.candidates z first last ↔
      ∃ dt, Window s.Scheduled (first * DAY) ((last + 1) * DAY) dt ∧
        c = ⟨z.firstInstant dt, z.skips dt⟩ := by
  simp only [candidates, dates, List.mem_flatMap, List.mem_map, List.mem_range]
  constructor
  · rintro ⟨_, ⟨n, hn, rfl⟩, hc⟩
    split at hc
    case isFalse => cases hc
    case isTrue hruns =>
      obtain ⟨m, hm, hresolved⟩ := List.mem_filterMap.mp hc
      rw [resolve_eq] at hresolved
      have := localTimeOf_bounds (first + n) (lt_of_mem_times hm)
      refine ⟨_, ⟨⟨_, hruns, m, hm, rfl⟩, ?_, ?_⟩, (Option.some.inj hresolved).symm⟩
      · simp only [DAY] at *
        omega
      · simp only [DAY] at *
        omega
  · rintro ⟨_, ⟨⟨date, hruns, m, hm, rfl⟩, hlo, hhi⟩, rfl⟩
    have := localTimeOf_bounds date (lt_of_mem_times hm)
    refine ⟨date, ⟨(date - first).toNat, ?_, ?_⟩, ?_⟩
    · simp only [DAY] at *
      omega
    · simp only [DAY] at *
      omega
    · rw [if_pos hruns]
      exact List.mem_filterMap.mpr ⟨m, hm, resolve_eq _ _ _⟩

theorem sorted_candidates (s : Schedule) (z : TimeZone) (first last : ℤ) :
    ((s.candidates z first last).mergeSort Candidate.le).Pairwise (Candidate.le · ·) := by
  apply List.pairwise_mergeSort
  · exact fun _ _ _ => Candidate.le_trans
  · exact Candidate.le_total

theorem occurrences_pairwise (s : Schedule) (z : TimeZone) (first last : ℤ) :
    (s.occurrences z first last).Pairwise (· < ·) :=
  keep_pairwise (dedup_pairwise (sorted_candidates s z first last))

/-- What the code keeps of some dates is what occurs at their local times. -/
theorem mem_occurrences {first last : ℤ} :
    u ∈ s.occurrences z first last ↔
      Occurs z HOUR_MS (Window s.Scheduled (first * DAY) ((last + 1) * DAY)) u := by
  have hsorted := sorted_candidates s z first last
  rw [occurrences, mem_keep (dedup_pairwise hsorted)]
  constructor
  · rintro ⟨c, hc, rfl, hkept⟩
    obtain ⟨dt, hdt, rfl⟩ := mem_candidates.mp (List.mem_mergeSort.mp (mem_of_mem_dedup hc))
    refine ⟨dt, ⟨hdt, hkept.imp_right fun hall other hother hne => ?_⟩, rfl⟩
    have hcandidate : (⟨z.firstInstant other, z.skips other⟩ : Candidate) ∈
        (s.candidates z first last).mergeSort Candidate.le :=
      List.mem_mergeSort.mpr (mem_candidates.mpr ⟨other, hother, rfl⟩)
    obtain ⟨kept, hin, htime, -⟩ := exists_mem_dedup hsorted hcandidate
    have := hall kept hin (by rw [htime]; exact hne)
    rwa [htime] at this
  · rintro ⟨dt, ⟨hdt, hkept⟩, rfl⟩
    have hcandidate : (⟨z.firstInstant dt, z.skips dt⟩ : Candidate) ∈
        (s.candidates z first last).mergeSort Candidate.le :=
      List.mem_mergeSort.mpr (mem_candidates.mpr ⟨dt, hdt, rfl⟩)
    obtain ⟨kept, hin, htime, hmoved⟩ := exists_mem_dedup hsorted hcandidate
    refine ⟨kept, hin, htime, hkept.imp hmoved fun hall other hother hne => ?_⟩
    obtain ⟨otherTime, hother', rfl⟩ :=
      mem_candidates.mp (List.mem_mergeSort.mp (mem_of_mem_dedup hother))
    exact hall otherTime hother' hne

/-! ## How far there is to look -/

theorem weekday_add_seven (date : ℤ) : weekday (date + 7) = weekday date := by
  rw [weekday, weekday, Int.add_emod_right]

theorem runsOn_add_seven (s : Schedule) (date : ℤ) : s.runsOn (date + 7) = s.runsOn date := by
  cases s with
  | daily | hours => rfl
  | weekdays | days => rw [runsOn, runsOn, weekday_add_seven]

theorem exists_weekday (w : Weekday) (first : ℤ) :
    ∃ date, first ≤ date ∧ date < first + 7 ∧ weekday date = w := by
  obtain ⟨r, hr, hr7, hday⟩ :
      ∃ r : ℤ, 0 ≤ r ∧ r < 7 ∧ ∀ date, date % 7 = r → weekday date = w := by
    cases w with
    | thu => exact ⟨0, by decide, by decide, fun date h => by simp [weekday, h]⟩
    | fri => exact ⟨1, by decide, by decide, fun date h => by simp [weekday, h]⟩
    | sat => exact ⟨2, by decide, by decide, fun date h => by simp [weekday, h]⟩
    | sun => exact ⟨3, by decide, by decide, fun date h => by simp [weekday, h]⟩
    | mon => exact ⟨4, by decide, by decide, fun date h => by simp [weekday, h]⟩
    | tue => exact ⟨5, by decide, by decide, fun date h => by simp [weekday, h]⟩
    | wed => exact ⟨6, by decide, by decide, fun date h => by simp [weekday, h]⟩
  exact ⟨first + (r - first) % 7, by omega, by omega, hday _ (by omega)⟩

/-- A schedule that passes its check runs on some date of any week. -/
theorem exists_runsOn (hcheck : s.check = .ok ()) (first : ℤ) :
    ∃ date, first ≤ date ∧ date < first + 7 ∧ s.runsOn date = true := by
  cases s with
  | daily | hours => exact ⟨first, le_rfl, by omega, rfl⟩
  | weekdays t =>
      obtain ⟨date, hfirst, hlast, hday⟩ := exists_weekday .mon first
      exact ⟨date, hfirst, hlast, by simp [runsOn, hday]⟩
  | days chosen t =>
      cases chosen with
      | nil => cases hcheck
      | cons w rest =>
          obtain ⟨date, hfirst, hlast, hday⟩ := exists_weekday w first
          exact ⟨date, hfirst, hlast, by simp [runsOn, hday]⟩

/-- A schedule runs on every date, or at one time of day. -/
theorem every_date_or_one_time (s : Schedule) :
    (∀ date, s.runsOn date = true) ∨ ∃ m, s.times = [m] := by
  cases s with
  | daily | hours => exact .inl fun _ => rfl
  | weekdays | days => exact .inr ⟨_, rfl⟩

theorem localDate_bounds (z : TimeZone) (t : ℤ) :
    localDate z t * DAY ≤ z.localTime t ∧ z.localTime t < (localDate z t + 1) * DAY := by
  simp only [localDate, DAY]
  omega

theorem hour_le_day : HOUR_MS ≤ DAY := by decide

section Reach

variable {t date e f : ℤ} {m : ℕ}

theorem localTimeOf_mem (date : ℤ) (h : m ∈ s.times) :
    date * DAY ≤ localTimeOf date m ∧ localTimeOf date m < (date + 1) * DAY :=
  localTimeOf_bounds date (lt_of_mem_times h)

/-- From two dates on the clocks have not got to anything, at an instant. -/
theorem lt_firstInstant {dt : ℤ} (h : (localDate z t + 2) * DAY ≤ dt) : t < z.firstInstant dt := by
  by_contra hcome
  have := lt_of_firstInstant_le (not_lt.mp hcome)
  have := localDate_bounds z t
  simp only [DAY] at *
  omega

theorem firstInstant_le_of_date {dt : ℤ} (h : dt ≤ localDate z t * DAY) :
    z.firstInstant dt ≤ t := by
  have := localDate_bounds z t
  exact firstInstant_of_le (by omega)

/-- At one time of day, what covers a date's occurrence is the date's before or after. -/
theorem cover_date (hone : s.times = [m]) (hskipped : z.skips (localTimeOf e m) = true)
    {other : ℤ} (hother : s.Scheduled other)
    (hne : z.firstInstant other ≠ z.firstInstant (localTimeOf e m))
    (hnear : |z.firstInstant other - z.firstInstant (localTimeOf e m)| < HOUR_MS) :
    (s.runsOn (e - 1) = true ∧ other = localTimeOf (e - 1) m ∧
        z.firstInstant other < z.firstInstant (localTimeOf e m)) ∨
      (s.runsOn (e + 1) = true ∧ other = localTimeOf (e + 1) m) := by
  obtain ⟨f, hruns, m', hm', rfl⟩ := hother
  rw [hone, List.mem_singleton] at hm'
  subst hm'
  have hdist := cover_dist hour_le_day hskipped hne hnear
  simp only [localTimeOf, DAY, MINUTE_MS, HOUR_MS] at hdist
  rcases hdist with ⟨hlt, hbefore, hbound⟩ | ⟨-, hafter, hbound⟩
  · have hf : f = e - 1 := by omega
    subst hf
    exact .inl ⟨hruns, rfl, hlt⟩
  · have hf : f = e + 1 := by omega
    subst hf
    exact .inr ⟨hruns, rfl⟩

/-- A schedule for every date has an occurrence a date or two from any date. -/
theorem exists_kept_near (hevery : ∀ date, s.runsOn date = true) (z : TimeZone) (date : ℤ) :
    ∃ dt, Kept z HOUR_MS s.Scheduled dt ∧ (date - 2) * DAY ≤ dt ∧ dt < (date + 3) * DAY := by
  obtain ⟨m, hm⟩ := exists_mem_times s
  have hbounds := localTimeOf_mem date hm
  have hdt : s.Scheduled (localTimeOf date m) := ⟨date, hevery date, m, hm, rfl⟩
  by_cases hkept : Kept z HOUR_MS s.Scheduled (localTimeOf date m)
  · refine ⟨_, hkept, ?_, ?_⟩ <;> simp only [DAY] at * <;> omega
  · obtain ⟨hskipped, other, hother, hne, hnear⟩ := exists_cover hdt hkept
    have hdist := cover_dist hour_le_day hskipped hne hnear
    refine ⟨other, kept_of_shown HOUR_MS hother (shown_of_near hour_le_day hskipped hne hnear),
      ?_, ?_⟩ <;>
      simp only [DAY, HOUR_MS] at * <;> omega

/-- An occurrence after an instant lies on the dates searched. -/
theorem exists_kept_after (hcheck : s.check = .ok ()) (z : TimeZone) (t : ℤ) :
    ∃ dt < (localDate z t + 9) * DAY, Kept z HOUR_MS s.Scheduled dt ∧ t < z.firstInstant dt := by
  rcases every_date_or_one_time s with hevery | ⟨m, hone⟩
  · obtain ⟨dt, hkept, hlo, hhi⟩ := exists_kept_near hevery z (localDate z t + 4)
    refine ⟨dt, ?_, hkept, lt_firstInstant ?_⟩ <;> simp only [DAY] at * <;> omega
  have hm : m ∈ s.times := by rw [hone]; exact List.mem_singleton_self m
  obtain ⟨near, hnear, hnear', hruns⟩ := exists_runsOn hcheck (localDate z t + 2)
  -- the first date from the day after tomorrow on
  obtain ⟨e, ⟨hfrom, he⟩, hleast⟩ : ∃ e, (localDate z t + 2 ≤ e ∧ s.runsOn e = true) ∧
      ∀ f, localDate z t + 2 ≤ f ∧ s.runsOn f = true → e ≤ f :=
    Int.exists_least_of_bdd ⟨_, fun _ h => h.1⟩ ⟨near, hnear, hruns⟩
  have hle := hleast near ⟨hnear, hruns⟩
  have hbounds := localTimeOf_mem e hm
  have hafter : t < z.firstInstant (localTimeOf e m) :=
    lt_firstInstant (by simp only [DAY] at *; omega)
  by_cases hkept : Kept z HOUR_MS s.Scheduled (localTimeOf e m)
  · exact ⟨_, by simp only [DAY] at *; omega, hkept, hafter⟩
  obtain ⟨hskipped, other, hother, hne, hcover⟩ := exists_cover ⟨e, he, m, hm, rfl⟩ hkept
  have hshown := kept_of_shown HOUR_MS hother
    (shown_of_near hour_le_day hskipped hne hcover)
  rcases cover_date hone hskipped hother hne hcover with ⟨-, rfl, -⟩ | ⟨hnext, rfl⟩
  · -- had it come, the clocks would show at least its time today
    have hdate := localTimeOf_mem (e - 1) hm
    have hcurrent := localDate_bounds z t
    refine ⟨_, by simp only [DAY] at *; omega, hshown, ?_⟩
    by_contra hcome
    have := lt_of_cover_before hour_le_day hskipped hcover (not_lt.mp hcome) hafter
    simp only [DAY] at *
    omega
  · have hdate := localTimeOf_mem (e + 1) hm
    have hin : e + 1 < localDate z t + 9 := by
      by_contra hout
      have hweek : s.runsOn (e + 1 - 7) = true := by
        rw [← runsOn_add_seven, Int.sub_add_cancel, hnext]
      have := hleast (e + 1 - 7) ⟨by omega, hweek⟩
      omega
    refine ⟨_, ?_, hshown, lt_firstInstant ?_⟩ <;> simp only [DAY] at * <;> omega

/-- An occurrence up to an instant lies on the dates searched. -/
theorem exists_kept_before (hcheck : s.check = .ok ()) (z : TimeZone) (t : ℤ) :
    ∃ dt, (localDate z t - 8) * DAY ≤ dt ∧ Kept z HOUR_MS s.Scheduled dt ∧
      z.firstInstant dt ≤ t := by
  rcases every_date_or_one_time s with hevery | ⟨m, hone⟩
  · obtain ⟨dt, hkept, hlo, hhi⟩ := exists_kept_near hevery z (localDate z t - 3)
    refine ⟨dt, ?_, hkept, firstInstant_le_of_date ?_⟩ <;> simp only [DAY] at * <;> omega
  have hm : m ∈ s.times := by rw [hone]; exact List.mem_singleton_self m
  have hgreatest : ∀ last, (∃ f, localDate z t - 7 ≤ f ∧ f ≤ last ∧ s.runsOn f = true) →
      ∃ e, localDate z t - 7 ≤ e ∧ e ≤ last ∧ s.runsOn e = true ∧
        ∀ f, f ≤ last → s.runsOn f = true → f ≤ e := by
    rintro last ⟨f, hfrom, hto, hruns⟩
    obtain ⟨e, ⟨he, hruns'⟩, hmax⟩ := Int.exists_greatest_of_bdd
      (P := fun e => e ≤ last ∧ s.runsOn e = true) ⟨last, fun _ h => h.1⟩ ⟨f, hto, hruns⟩
    exact ⟨e, hfrom.trans (hmax f ⟨hto, hruns⟩), he, hruns', fun f h h' => hmax f ⟨h, h'⟩⟩
  have hbefore : ∀ e ≤ localDate z t - 1, z.firstInstant (localTimeOf e m) ≤ t := by
    intro e he
    have := localTimeOf_mem e hm
    exact firstInstant_le_of_date (by simp only [DAY] at *; omega)
  have hstart : ∀ e, localDate z t - 8 ≤ e → (localDate z t - 8) * DAY ≤ localTimeOf e m := by
    intro e he
    have := localTimeOf_mem e hm
    simp only [DAY] at *
    omega
  obtain ⟨near, hnear, hnear', hruns⟩ := exists_runsOn hcheck (localDate z t - 7)
  obtain ⟨e, hfrom, hto, he, hmax⟩ := hgreatest (localDate z t - 1) ⟨near, hnear, by omega, hruns⟩
  by_cases hkept : Kept z HOUR_MS s.Scheduled (localTimeOf e m)
  · exact ⟨_, hstart e (by omega), hkept, hbefore e hto⟩
  obtain ⟨hskipped, other, hother, hne, hcover⟩ := exists_cover ⟨e, he, m, hm, rfl⟩ hkept
  rcases cover_date hone hskipped hother hne hcover with ⟨-, rfl, hlt⟩ | ⟨hnext, -⟩
  · exact ⟨_, hstart _ (by omega),
      kept_of_shown HOUR_MS hother (shown_of_near hour_le_day hskipped hne hcover),
      hlt.le.trans (hbefore e hto)⟩
  -- yesterday's is covered by today's, which may not have come: the one before yesterday's has
  have hlast : e = localDate z t - 1 := by
    by_contra hearlier
    have := hmax (e + 1) (by omega) hnext
    omega
  have hweek : s.runsOn (e + 1 - 7) = true := by
    rw [← runsOn_add_seven, Int.sub_add_cancel, hnext]
  obtain ⟨e', hfrom', hto', he', hmax'⟩ :=
    hgreatest (localDate z t - 2) ⟨e + 1 - 7, by omega, by omega, hweek⟩
  by_cases hkept' : Kept z HOUR_MS s.Scheduled (localTimeOf e' m)
  · exact ⟨_, hstart e' (by omega), hkept', hbefore e' (by omega)⟩
  obtain ⟨hskipped', other', hother', hne', hcover'⟩ := exists_cover ⟨e', he', m, hm, rfl⟩ hkept'
  have hshown' := shown_of_near hour_le_day hskipped' hne' hcover'
  rcases cover_date hone hskipped' hother' hne' hcover' with ⟨-, rfl, hlt⟩ | ⟨hnext', rfl⟩
  · exact ⟨_, hstart _ (by omega), kept_of_shown HOUR_MS hother' hshown',
      hlt.le.trans (hbefore e' (by omega))⟩
  · have hsame : e' + 1 = e := by
      by_contra hearlier
      have := hmax' (e' + 1) (by omega) hnext'
      omega
    rw [hsame, hskipped] at hshown'
    cases hshown'

end Reach

/-- The instants at which the schedule runs: the occurrences over all dates. -/
def Runs (s : Schedule) (z : TimeZone) (u : ℤ) : Prop := Occurs z HOUR_MS s.Scheduled u

/-- The search forward finds the next occurrence. -/
theorem exists_nextAfter (hcheck : s.check = .ok ()) (z : TimeZone) (t : ℤ) :
    ∃ u, s.nextAfter z t = some u ∧ IsLeast {v | s.Runs z v ∧ t < v} u := by
  have hlo : (localDate z t - 1) * DAY ≤ z.localTime t - DAY := by
    have := localDate_bounds z t
    simp only [DAY] at *
    omega
  obtain ⟨u, hu, hwindow⟩ :=
    exists_isLeast_window hour_le_day hlo (exists_kept_after hcheck z t)
  refine ⟨u, ?_, hu⟩
  refine find?_eq_some_of_first (occurrences_pairwise _ _ _ _)
    (mem_occurrences.mpr (by simpa [add_assoc] using hwindow.1.1)) (by simpa using hwindow.1.2) ?_
  intro v hv hlater
  exact not_lt.mpr (hwindow.2 ⟨by simpa [add_assoc] using mem_occurrences.mp hv,
    by simpa using hlater⟩)

/-- The search back finds the latest occurrence. -/
theorem exists_latestAtOrBefore (hcheck : s.check = .ok ()) (z : TimeZone) (t : ℤ) :
    ∃ u, s.latestAtOrBefore z t = some u ∧ IsGreatest {v | s.Runs z v ∧ v ≤ t} u := by
  have hhi : z.localTime t + DAY ≤ (localDate z t + 2) * DAY := by
    have := localDate_bounds z t
    simp only [DAY] at *
    omega
  obtain ⟨u, hu, hwindow⟩ :=
    exists_isGreatest_window hour_le_day hhi (exists_kept_before hcheck z t)
  refine ⟨u, ?_, hu⟩
  refine find?_eq_some_of_first (R := fun a b => b < a)
    (List.pairwise_reverse.mpr (occurrences_pairwise _ _ _ _))
    (List.mem_reverse.mpr (mem_occurrences.mpr (by simpa [add_assoc] using hwindow.1.1)))
    (by simpa using hwindow.1.2) ?_
  intro v hv hearlier
  exact not_lt.mpr (hwindow.2 ⟨by
    simpa [add_assoc] using mem_occurrences.mp (List.mem_reverse.mp hv), by simpa using hearlier⟩)

/-- The searches find the occurrences next to any instant, and none of the schedule's local times is
left out: a time that the clocks show occurs, and one that they skip has an occurrence near the
moment they change. -/
theorem search_finds_neighbours (hcheck : s.check = .ok ()) (z : TimeZone) :
    (∀ t, ∃ u, s.nextAfter z t = some u ∧ IsLeast {v | s.Runs z v ∧ t < v} u) ∧
    (∀ t, ∃ u, s.latestAtOrBefore z t = some u ∧ IsGreatest {v | s.Runs z v ∧ v ≤ t} u) ∧
    ∀ dt, s.Scheduled dt →
      (z.skips dt = false → s.Runs z (z.firstInstant dt)) ∧
      (z.skips dt = true → ∃ c ∈ z.changes, c.time + c.before ≤ dt ∧ dt < c.time + c.after ∧
        ∃ u, s.Runs z u ∧ |u - c.time| < HOUR_MS) := by
  refine ⟨exists_nextAfter hcheck z, exists_latestAtOrBefore hcheck z, fun dt hdt => ⟨?_, ?_⟩⟩
  · intro hshown
    exact (kept_of_shown HOUR_MS hdt hshown).occurs
  · intro hskipped
    obtain ⟨c, hc, htime, hbefore, hafter⟩ := skipped hskipped
    obtain ⟨u, hu, hnear⟩ := exists_occurs_near hour_le_day hdt
    refine ⟨c, hc, hbefore, hafter, u, hu, ?_⟩
    rw [htime]
    rcases hnear with rfl | ⟨-, hnear⟩
    · simp [HOUR_MS]
    · exact hnear

/-- A zone whose clocks go forward by half an hour at two in the morning, and back again. -/
def halfHourZone : TimeZone :=
  ⟨37800000, [⟨1791041400000, 39600000⟩, ⟨1806764400000, 37800000⟩], by decide⟩

/-- Daily at a quarter past two, which the clocks skip on one day and show on the next. -/
theorem search_finds_neighbours_of_skipped :
    (∃ u, (daily ⟨2, 15, by decide, by decide⟩).nextAfter halfHourZone 1791000000000 = some u ∧
      IsLeast {v | (daily ⟨2, 15, by decide, by decide⟩).Runs halfHourZone v ∧ 1791000000000 < v} u) ∧
    (∃ c ∈ halfHourZone.changes, ∃ u,
      (daily ⟨2, 15, by decide, by decide⟩).Runs halfHourZone u ∧ |u - c.time| < HOUR_MS) ∧
    (daily ⟨2, 15, by decide, by decide⟩).Runs halfHourZone
      (halfHourZone.firstInstant (localTimeOf 20731 135)) := by
  have hruns : ∀ date, (daily ⟨2, 15, by decide, by decide⟩).Scheduled (localTimeOf date 135) :=
    fun date => ⟨date, rfl, 135, List.mem_singleton_self _, rfl⟩
  obtain ⟨hnext, -, hall⟩ :=
    search_finds_neighbours (s := daily ⟨2, 15, by decide, by decide⟩) rfl halfHourZone
  obtain ⟨c, hc, -, -, hnear⟩ := (hall _ (hruns 20730)).2 (by decide)
  exact ⟨hnext _, ⟨c, hc, hnear⟩, (hall _ (hruns 20731)).1 (by decide)⟩

end Schedule

end Bokkie
