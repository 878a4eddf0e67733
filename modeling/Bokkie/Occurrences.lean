import Bokkie.CivilTime
import Mathlib.Data.Int.LeastGreatest
import Mathlib.Order.Bounds.Basic

/-!
# Occurrences at local times

What is to happen at some local times happens at the first instant of each. At a local time that the
clocks skip it happens when they change, and is dropped when that is within `apart` of another. In a
window of local times around an instant, wide enough, the occurrences next to the instant are those
of all the local times.
-/

namespace CivilTime

/-- What is to happen at the local time `dt`, among the local times `P`, does happen. -/
def Kept (z : TimeZone) (apart : ℤ) (P : ℤ → Prop) (dt : ℤ) : Prop :=
  P dt ∧ (z.skips dt = false ∨ ∀ other, P other → z.firstInstant other ≠ z.firstInstant dt →
    apart ≤ |z.firstInstant other - z.firstInstant dt|)

/-- What is to happen at the local times `P` happens at the instant `u`. -/
def Occurs (z : TimeZone) (apart : ℤ) (P : ℤ → Prop) (u : ℤ) : Prop :=
  ∃ dt, Kept z apart P dt ∧ z.firstInstant dt = u

variable {z : TimeZone} {apart : ℤ} {P Q : ℤ → Prop} {dt other t u : ℤ}

theorem Kept.occurs (h : Kept z apart P dt) : Occurs z apart P (z.firstInstant dt) := ⟨dt, h, rfl⟩

theorem kept_of_shown (apart : ℤ) (hdt : P dt) (hshown : z.skips dt = false) : Kept z apart P dt :=
  ⟨hdt, .inl hshown⟩

theorem Kept.mono (h : Kept z apart P dt) (hdt : Q dt) (hsub : ∀ dt, Q dt → P dt) :
    Kept z apart Q dt :=
  ⟨hdt, h.2.imp_right fun hall other hother => hall other (hsub other hother)⟩

/-- What is dropped was skipped, and is covered by another. -/
theorem exists_cover (hdt : P dt) (hdropped : ¬ Kept z apart P dt) :
    z.skips dt = true ∧ ∃ other, P other ∧ z.firstInstant other ≠ z.firstInstant dt ∧
      |z.firstInstant other - z.firstInstant dt| < apart := by
  by_contra hnot
  refine hdropped ⟨hdt, ?_⟩
  by_cases hshown : z.skips dt = false
  · exact .inl hshown
  refine .inr fun other hother hne => ?_
  by_contra hnear
  exact hnot ⟨by simpa using hshown, other, hother, hne, not_le.mp hnear⟩

namespace TimeZone

/-- The clocks in the day before and the day after the change that a skipped local time is at. -/
theorem gap_of_skips (h : z.skips dt = true) :
    ∃ before after, after - before ≤ DAY ∧
      z.firstInstant dt + before ≤ dt ∧ dt < z.firstInstant dt + after ∧
      (∀ u, z.firstInstant dt - DAY ≤ u → u < z.firstInstant dt → z.localTime u = u + before) ∧
      ∀ u, z.firstInstant dt ≤ u → u ≤ z.firstInstant dt + DAY → z.localTime u = u + after := by
  obtain ⟨c, hc, htime, hbefore, hafter⟩ := skipped h
  rw [← htime]
  exact ⟨c.before, c.after, length_le hc, hbefore, hafter, fun _ => localTime_before hc,
    fun _ => localTime_after hc⟩

/-- The changes of the clocks are too far apart for both of two near times to be skipped. -/
theorem shown_of_near (hapart : apart ≤ DAY) (h : z.skips dt = true)
    (hne : z.firstInstant other ≠ z.firstInstant dt)
    (hnear : |z.firstInstant other - z.firstInstant dt| < apart) : z.skips other = false := by
  by_contra hskipped
  obtain ⟨c, hc, htime, -⟩ := skipped h
  obtain ⟨c', hc', htime', -⟩ := skipped (Bool.eq_true_of_not_eq_false hskipped)
  have hsame : c = c' := change_unique hc hc' (by rw [htime, htime']; omega)
  exact hne (by rw [← htime, ← htime', hsame])

/-- A cover that has come when a skipped local time has not is near the local time shown. -/
theorem lt_of_cover_before (hapart : apart ≤ DAY) (h : z.skips dt = true)
    (hnear : |z.firstInstant other - z.firstInstant dt| < apart) (hcome : z.firstInstant other ≤ t)
    (hyet : t < z.firstInstant dt) : z.localTime t - apart < other ∧ other ≤ z.localTime t := by
  have hshown := shown_of_near hapart h (by omega) hnear
  obtain ⟨before, after, -, -, -, hbefore, -⟩ := gap_of_skips h
  have hother := localTime_firstInstant hshown
  rw [abs_lt] at hnear
  rw [hbefore _ (by omega) (by omega)] at hother
  rw [hbefore t (by omega) hyet]
  omega

/-- A cover that has not come when a skipped local time has is near the local time shown. -/
theorem lt_of_cover_after (hapart : apart ≤ DAY) (h : z.skips dt = true)
    (hnear : |z.firstInstant other - z.firstInstant dt| < apart) (hcome : z.firstInstant dt ≤ t)
    (hyet : t < z.firstInstant other) : z.localTime t < other ∧ other < z.localTime t + apart := by
  have hshown := shown_of_near hapart h (by omega) hnear
  obtain ⟨before, after, -, -, -, -, hafter⟩ := gap_of_skips h
  have hother := localTime_firstInstant hshown
  rw [abs_lt] at hnear
  rw [hafter _ (by omega) (by omega)] at hother
  rw [hafter t hcome (by omega)]
  omega

/-- A cover is on the clock within a day and `apart` of what it covers, on the same side. -/
theorem cover_dist (hapart : apart ≤ DAY) (h : z.skips dt = true)
    (hne : z.firstInstant other ≠ z.firstInstant dt)
    (hnear : |z.firstInstant other - z.firstInstant dt| < apart) :
    (z.firstInstant other < z.firstInstant dt ∧ other < dt ∧ dt - other < DAY + apart) ∨
      (z.firstInstant dt < z.firstInstant other ∧ dt < other ∧ other - dt < DAY + apart) := by
  have hshown := shown_of_near hapart h hne hnear
  obtain ⟨before, after, hlength, hfrom, hto, hbefore, hafter⟩ := gap_of_skips h
  have hother := localTime_firstInstant hshown
  rw [abs_lt] at hnear
  by_cases hlt : z.firstInstant other < z.firstInstant dt
  · rw [hbefore _ (by omega) hlt] at hother
    omega
  · rw [hafter _ (by omega) (by omega)] at hother
    omega

end TimeZone

open TimeZone

/-- Every local time has an occurrence at its instant or, if skipped, near the clock change. -/
theorem exists_occurs_near (hapart : apart ≤ DAY) (hdt : P dt) :
    ∃ u, Occurs z apart P u ∧
      (u = z.firstInstant dt ∨ (z.skips dt = true ∧ |u - z.firstInstant dt| < apart)) := by
  by_cases hkept : Kept z apart P dt
  · exact ⟨_, hkept.occurs, .inl rfl⟩
  · obtain ⟨hskipped, other, hother, hne, hnear⟩ := exists_cover hdt hkept
    have hshown := shown_of_near hapart hskipped hne hnear
    exact ⟨_, (kept_of_shown apart hother hshown).occurs, .inr ⟨hskipped, hnear⟩⟩

/-- The local times of `P` in a window. -/
def Window (P : ℤ → Prop) (lo hi dt : ℤ) : Prop := P dt ∧ lo ≤ dt ∧ dt < hi

variable {lo hi : ℤ}

theorem Kept.window (h : Kept z apart P dt) (hlo : lo ≤ dt) (hhi : dt < hi) :
    Kept z apart (Window P lo hi) dt :=
  h.mono ⟨h.1, hlo, hhi⟩ fun _ => And.left

/-- What occurs only because of the window is a skipped time whose cover lies outside it. -/
theorem exists_cover_outside (h : Kept z apart (Window P lo hi) dt)
    (hnot : ¬ Occurs z apart P (z.firstInstant dt)) :
    z.skips dt = true ∧ ∃ other, P other ∧ (other < lo ∨ hi ≤ other) ∧
      z.firstInstant other ≠ z.firstInstant dt ∧
      |z.firstInstant other - z.firstInstant dt| < apart := by
  have hdropped : ¬ Kept z apart P dt := fun hkept => hnot hkept.occurs
  obtain ⟨hskipped, other, hother, hne, hnear⟩ := exists_cover h.1.1 hdropped
  refine ⟨hskipped, other, hother, ?_, hne, hnear⟩
  by_contra hin
  rcases h.2 with hshown | hall
  · rw [hshown] at hskipped
    cases hskipped
  · exact absurd (hall other ⟨hother, by omega, by omega⟩ hne) (not_le.mpr hnear)

/-- Nothing else in a window occurs near a skipped time that is kept in it. -/
theorem le_of_window (h : Kept z apart (Window P lo hi) dt) (hskipped : z.skips dt = true)
    (hu : Occurs z apart (Window P lo hi) u) (hne : u ≠ z.firstInstant dt) :
    apart ≤ |u - z.firstInstant dt| := by
  obtain ⟨other, hother, rfl⟩ := hu
  rcases h.2 with hshown | hall
  · rw [hshown] at hskipped
    cases hskipped
  · exact hall other hother.1 hne

/-- A window that reaches a day back, and on to some later occurrence, has the next occurrence. -/
theorem exists_isLeast_window (hapart : apart ≤ DAY) (hlo : lo ≤ z.localTime t - DAY)
    (hlater : ∃ dt < hi, Kept z apart P dt ∧ t < z.firstInstant dt) :
    ∃ u, IsLeast {v | Occurs z apart P v ∧ t < v} u ∧
      IsLeast {v | Occurs z apart (Window P lo hi) v ∧ t < v} u := by
  obtain ⟨later, hhi, hkept, hafter⟩ := hlater
  obtain ⟨u, hu, hleast⟩ : ∃ u, (Occurs z apart P u ∧ t < u) ∧
      ∀ v, Occurs z apart P v ∧ t < v → u ≤ v :=
    Int.exists_least_of_bdd ⟨t, fun _ hv => hv.2.le⟩ ⟨_, hkept.occurs, hafter⟩
  have hin : Occurs z apart (Window P lo hi) u := by
    obtain ⟨⟨dt, hdt, rfl⟩, htu⟩ := hu
    have hshown : lo ≤ dt := by have := lt_of_lt_firstInstant htu; simp only [DAY] at hlo; omega
    by_cases hlt : dt < hi
    · exact (hdt.window hshown hlt).occurs
    · -- the later occurrence in the window is no later, so it is this one
      have hsame : z.firstInstant later = z.firstInstant dt :=
        le_antisymm (firstInstant_mono (by omega)) (hleast _ ⟨hkept.occurs, hafter⟩)
      have := lt_of_lt_firstInstant hafter
      rw [← hsame]
      exact (hkept.window (by simp only [DAY] at hlo; omega) hhi).occurs
  refine ⟨u, ⟨hu, fun v hv => hleast v hv⟩, ⟨hin, hu.2⟩, ?_⟩
  rintro v ⟨⟨dt, hdt, rfl⟩, htv⟩
  by_contra hlt
  have hnot : ¬ Occurs z apart P (z.firstInstant dt) := fun h => hlt (hleast _ ⟨h, htv⟩)
  obtain ⟨hskipped, other, hother, houtside, hne, hnear⟩ := exists_cover_outside hdt hnot
  rcases houtside with hbefore | hbeyond
  · have hcome : z.firstInstant other ≤ t :=
      firstInstant_of_le (by simp only [DAY] at hlo; omega)
    have := lt_of_cover_before hapart hskipped hnear hcome htv
    omega
  · -- a cover beyond the window would occur, so the next occurrence is nearer still
    have hkept' := kept_of_shown apart hother (shown_of_near hapart hskipped hne hnear)
    have hle := hleast _ ⟨hkept'.occurs, htv.trans_le (firstInstant_mono (by have := hdt.1.2.2; omega))⟩
    have := le_of_window hdt hskipped hin (by omega)
    have hmono : z.firstInstant dt ≤ z.firstInstant other :=
      firstInstant_mono (by have := hdt.1.2.2; omega)
    rw [abs_lt] at hnear
    rw [abs_of_pos (by omega)] at this
    omega

/-- A window that reaches a day on, and back to some earlier occurrence, has the last occurrence. -/
theorem exists_isGreatest_window (hapart : apart ≤ DAY) (hhi : z.localTime t + DAY ≤ hi)
    (hearlier : ∃ dt, lo ≤ dt ∧ Kept z apart P dt ∧ z.firstInstant dt ≤ t) :
    ∃ u, IsGreatest {v | Occurs z apart P v ∧ v ≤ t} u ∧
      IsGreatest {v | Occurs z apart (Window P lo hi) v ∧ v ≤ t} u := by
  obtain ⟨earlier, hlo, hkept, hbefore⟩ := hearlier
  obtain ⟨u, hu, hgreatest⟩ : ∃ u, (Occurs z apart P u ∧ u ≤ t) ∧
      ∀ v, Occurs z apart P v ∧ v ≤ t → v ≤ u :=
    Int.exists_greatest_of_bdd ⟨t, fun _ hv => hv.2⟩ ⟨_, hkept.occurs, hbefore⟩
  have hin : Occurs z apart (Window P lo hi) u := by
    obtain ⟨⟨dt, hdt, rfl⟩, hut⟩ := hu
    have hcome : dt < hi := (lt_of_firstInstant_le hut).trans_le hhi
    by_cases hle : lo ≤ dt
    · exact (hdt.window hle hcome).occurs
    · have hsame : z.firstInstant earlier = z.firstInstant dt :=
        le_antisymm (hgreatest _ ⟨hkept.occurs, hbefore⟩) (firstInstant_mono (by omega))
      rw [← hsame]
      exact (hkept.window hlo ((lt_of_firstInstant_le hbefore).trans_le hhi)).occurs
  refine ⟨u, ⟨hu, fun v hv => hgreatest v hv⟩, ⟨hin, hu.2⟩, ?_⟩
  rintro v ⟨⟨dt, hdt, rfl⟩, hvt⟩
  by_contra hlt
  have hnot : ¬ Occurs z apart P (z.firstInstant dt) := fun h => hlt (hgreatest _ ⟨h, hvt⟩)
  obtain ⟨hskipped, other, hother, houtside, hne, hnear⟩ := exists_cover_outside hdt hnot
  rcases houtside with hbeyond | hahead
  · have hkept' := kept_of_shown apart hother (shown_of_near hapart hskipped hne hnear)
    have hmono : z.firstInstant other ≤ z.firstInstant dt :=
      firstInstant_mono (by have := hdt.1.2.1; omega)
    have hle := hgreatest _ ⟨hkept'.occurs, hmono.trans hvt⟩
    have := le_of_window hdt hskipped hin (by omega)
    rw [abs_lt] at hnear
    rw [abs_of_neg (by omega)] at this
    omega
  · have hyet : t < z.firstInstant other := by
      by_contra hcome
      have := lt_of_firstInstant_le (not_lt.mp hcome)
      omega
    have := lt_of_cover_after hapart hskipped hnear hvt hyet
    omega

end CivilTime
