import Bokkie.ScheduleSearch
import Mathlib.Tactic.Ring

/-!
# Runs an hour apart

A schedule's local times are an hour apart on the clock. Over a change of the clocks that skips some
times, they need not be an hour apart.
-/

namespace Bokkie

open Accounts CivilTime TimeZone

namespace Schedule

variable {s : Schedule} {z : TimeZone} {dt dt' t a b : ℤ}

/-- The local times of a date are steps of an hour or more apart, and a day is some such steps. -/
theorem exists_step (hcheck : s.check = .ok ()) :
    ∃ first step q : ℕ, 60 ≤ step ∧ DAY_MINUTES = q * step ∧
      ∀ m ∈ s.times, ∃ k : ℕ, m = first + k * step := by
  cases s with
  | daily time | weekdays time | days chosen time =>
      refine ⟨time.minutes, DAY_MINUTES, 1, by decide, by decide, fun m hm => ⟨0, ?_⟩⟩
      rw [List.mem_singleton.mp hm, zero_mul, add_zero]
  | hours every time =>
      have hevery : every ∈ EVERY_HOURS := by
        by_contra hnot
        rw [check, if_neg hnot] at hcheck
        cases hcheck
      have hdivides : ∀ every ∈ EVERY_HOURS, 60 ≤ max every 1 * 60 ∧
          DAY_MINUTES = DAY_MINUTES / (max every 1 * 60) * (max every 1 * 60) := by
        decide
      obtain ⟨hhour, hday⟩ := hdivides every hevery
      refine ⟨time.minutes % (max every 1 * 60), max every 1 * 60, _, hhour, hday, fun m hm => ?_⟩
      obtain ⟨k, -, rfl⟩ := List.mem_map.mp ((List.takeWhile_sublist _).mem hm)
      exact ⟨k, rfl⟩

/-- At least an hour passes on the clock between a schedule's local times. -/
theorem hour_le_of_scheduled (hcheck : s.check = .ok ()) (hdt : s.Scheduled dt)
    (hdt' : s.Scheduled dt') (hlt : dt < dt') : HOUR_MS ≤ dt' - dt := by
  obtain ⟨date, -, m, hm, rfl⟩ := hdt
  obtain ⟨date', -, m', hm', rfl⟩ := hdt'
  obtain ⟨first, step, q, hhour, hday, htimes⟩ := exists_step hcheck
  obtain ⟨k, rfl⟩ := htimes m hm
  obtain ⟨k', rfl⟩ := htimes m' hm'
  have hlocal : ∀ (d : ℤ) (k : ℕ), localTimeOf d (first + k * step) =
      (first + (d * q + k) * step) * MINUTE_MS := by
    intro d k
    have hDAY : DAY = q * step * MINUTE_MS := by
      rw [← Nat.cast_mul, ← hday]
      decide
    rw [localTimeOf, hDAY]
    push_cast
    ring
  rw [hlocal, hlocal] at *
  have hsteps : date * q + k < date' * q + k' := by
    by_contra hle
    have := mul_le_mul_of_nonneg_right (not_lt.mp hle) (Int.natCast_nonneg step)
    simp only [MINUTE_MS] at hlt
    omega
  have hone : (date * q + k + 1) * (step : ℤ) ≤ (date' * q + k') * step :=
    mul_le_mul_of_nonneg_right hsteps (Int.natCast_nonneg step)
  rw [add_mul, one_mul] at hone
  simp only [MINUTE_MS, HOUR_MS]
  omega

/-- A change of the clocks that skips some times cuts short the time from one of the schedule's
times, shown in the hour before it, to another, shown after it: on the clock they are less than an
hour and what is skipped apart. -/
def CutShort (s : Schedule) (z : TimeZone) : Prop :=
  ∃ c ∈ z.changes, ∃ dt dt', s.Scheduled dt ∧ s.Scheduled dt' ∧
    z.skips dt = false ∧ z.skips dt' = false ∧
    c.time - HOUR_MS < z.firstInstant dt ∧ z.firstInstant dt < c.time ∧
    c.time ≤ z.firstInstant dt' ∧ dt' - dt < HOUR_MS + (c.after - c.before)

/-- Only such a change brings two occurrences together. -/
theorem cutShort_of_near (hcheck : s.check = .ok ()) (ha : s.Runs z a) (hb : s.Runs z b)
    (hlt : a < b) (hnear : b - a < HOUR_MS) : s.CutShort z := by
  obtain ⟨dt, ⟨hdt, hkept⟩, rfl⟩ := ha
  obtain ⟨dt', ⟨hdt', hkept'⟩, rfl⟩ := hb
  have hshown : z.skips dt = false := by
    rcases hkept with hshown | hfar
    · exact hshown
    · have := hfar dt' hdt' (by omega)
      rw [abs_of_pos (by omega)] at this
      omega
  have hshown' : z.skips dt' = false := by
    rcases hkept' with hshown' | hfar
    · exact hshown'
    · have := hfar dt hdt (by omega)
      rw [abs_of_neg (by omega)] at this
      omega
  have hlocal := localTime_firstInstant hshown
  have hlocal' := localTime_firstInstant hshown'
  have horder : dt < dt' := by
    by_contra hle
    have := z.firstInstant_mono (not_lt.mp hle)
    omega
  have hapart := hour_le_of_scheduled hcheck hdt hdt' horder
  obtain ⟨c, hc, hfrom, hto⟩ := z.exists_change hlt.le (by rw [hlocal, hlocal']; omega)
  have hday := hour_le_day
  have hbefore := localTime_before hc (u := z.firstInstant dt) (by omega) hfrom
  have hafter := localTime_after hc hto (by omega)
  exact ⟨c, hc, dt, dt', hdt, hdt', hshown, hshown', by omega, hfrom, hto, by omega⟩

/-- Such a change does bring two occurrences together. -/
theorem near_of_cutShort {c : ClockChange} (hc : c ∈ z.changes)
    (hshown : z.skips dt = false) (hshown' : z.skips dt' = false)
    (hhour : c.time - HOUR_MS < z.firstInstant dt) (hfrom : z.firstInstant dt < c.time)
    (hto : c.time ≤ z.firstInstant dt') (hshort : dt' - dt < HOUR_MS + (c.after - c.before)) :
    z.firstInstant dt' - z.firstInstant dt < HOUR_MS := by
  have hday := hour_le_day
  have hlocal := localTime_firstInstant hshown
  have hlocal' := localTime_firstInstant hshown'
  rw [localTime_before hc (by omega) hfrom] at hlocal
  have hsoon : z.firstInstant dt' ≤ c.time + HOUR_MS := by
    refine firstInstant_of_le ?_
    rw [localTime_after hc (by simp only [HOUR_MS]; omega) (by omega)]
    omega
  rw [localTime_after hc hto (by omega)] at hlocal'
  omega

/-- Two of the schedule's times less than an hour apart, in real time, are two runs in a row, or
more, less than an hour apart. -/
theorem exists_near_runs (hcheck : s.check = .ok ()) (hdt : s.Scheduled dt)
    (hdt' : s.Scheduled dt') (hshown : z.skips dt = false) (hshown' : z.skips dt' = false)
    (hlt : z.firstInstant dt < z.firstInstant dt')
    (hnear : z.firstInstant dt' - z.firstInstant dt < HOUR_MS) :
    ∃ b, s.nextAfter z (z.firstInstant dt - 1) = some (z.firstInstant dt) ∧
      s.nextAfter z (z.firstInstant dt) = some b ∧ b - z.firstInstant dt < HOUR_MS := by
  obtain ⟨a, ha, hleast⟩ := exists_nextAfter hcheck z (z.firstInstant dt - 1)
  obtain ⟨b, hb, hleast'⟩ := exists_nextAfter hcheck z (z.firstInstant dt)
  have hsame : a = z.firstInstant dt := by
    have := hleast.2 ⟨(kept_of_shown HOUR_MS hdt hshown).occurs, by omega⟩
    have := hleast.1.2
    omega
  have := hleast'.2 ⟨(kept_of_shown HOUR_MS hdt' hshown').occurs, hlt⟩
  exact ⟨b, by rw [ha, hsame], hb, by omega⟩

/-- The runs of a schedule that passes its check are at least an hour apart just when no change of
the clocks cuts short the time between two of its times. -/
theorem runs_hour_apart_iff (hcheck : s.check = .ok ()) (z : TimeZone) :
    (∀ t a b, s.nextAfter z t = some a → s.nextAfter z a = some b → HOUR_MS ≤ b - a) ↔
      ¬ s.CutShort z := by
  constructor
  · rintro hapart ⟨c, hc, dt, dt', hdt, hdt', hshown, hshown', hhour, hfrom, hto, hshort⟩
    have hnear := near_of_cutShort hc hshown hshown' hhour hfrom hto hshort
    obtain ⟨b, ha, hb, hlt⟩ := exists_near_runs hcheck hdt hdt' hshown hshown' (by omega) hnear
    exact absurd (hapart _ _ b ha hb) (not_le.mpr hlt)
  · intro hnot t a b ha hb
    by_contra hnear
    obtain ⟨a', ha', hleast⟩ := exists_nextAfter hcheck z t
    obtain ⟨b', hb', hleast'⟩ := exists_nextAfter hcheck z a
    rw [ha, Option.some.injEq] at ha'
    rw [hb, Option.some.injEq] at hb'
    subst ha' hb'
    exact hnot (cutShort_of_near hcheck hleast.1.1 hleast'.1.1 hleast'.1.2 (not_le.mp hnear))

/-- Every hour at a quarter to. -/
def hourly : Schedule := .hours 1 ⟨0, 45, by decide, by decide⟩

/-- A quarter to two and, the half hour skipped, a quarter to three. -/
theorem exists_near_hourly :
    ∃ b, hourly.nextAfter halfHourZone 1791040499999 = some 1791040500000 ∧
      hourly.nextAfter halfHourZone 1791040500000 = some b ∧ b - 1791040500000 < HOUR_MS := by
  have hruns : ∀ m ∈ hourly.times, hourly.Scheduled (localTimeOf 20730 m) :=
    fun m hm => ⟨20730, rfl, m, hm, rfl⟩
  exact exists_near_runs (z := halfHourZone) (s := hourly) rfl (hruns 105 (by decide))
    (hruns 165 (by decide)) (by decide) (by decide) (by decide) (by decide)

/-- Half an hour skipped cuts nothing short of a routine that runs once a day. -/
theorem not_cutShort_daily (time : TimeOfDay) : ¬ (daily time).CutShort halfHourZone := by
  rintro ⟨c, hc, _, _, ⟨date, -, m, hm, rfl⟩, ⟨date', -, m', hm', rfl⟩, -, -, -, hfrom, hto, hshort⟩
  rw [List.mem_singleton.mp hm, List.mem_singleton.mp hm'] at *
  have hskip : c.after - c.before ≤ 1800000 :=
    (by decide : ∀ c ∈ halfHourZone.changes, c.after - c.before ≤ 1800000) c hc
  have hlater : date < date' := by
    by_contra hle
    have hmono : halfHourZone.firstInstant (localTimeOf date' time.minutes) ≤
        halfHourZone.firstInstant (localTimeOf date time.minutes) := by
      refine firstInstant_mono ?_
      simp only [localTimeOf, DAY]
      omega
    omega
  simp only [localTimeOf, DAY, HOUR_MS] at hshort
  omega

/-- In such a zone a daily routine's runs are an hour apart, and an hourly one's are cut short. -/
theorem runs_hour_apart_iff_of_halfHour :
    (∀ t a b, (daily ⟨2, 15, by decide, by decide⟩).nextAfter halfHourZone t = some a →
      (daily ⟨2, 15, by decide, by decide⟩).nextAfter halfHourZone a = some b → HOUR_MS ≤ b - a) ∧
    hourly.CutShort halfHourZone := by
  refine ⟨(runs_hour_apart_iff rfl halfHourZone).mpr (not_cutShort_daily _), ?_⟩
  by_contra hnot
  obtain ⟨b, ha, hb, hnear⟩ := exists_near_hourly
  have hapart := (runs_hour_apart_iff (s := hourly) rfl halfHourZone).mpr hnot _ _ b ha hb
  exact absurd hapart (not_le.mpr hnear)

/-- Two runs in a row half an hour apart. -/
theorem runs_half_hour_apart :
    hourly.check = .ok () ∧ ∃ b, hourly.nextAfter halfHourZone 1791040499999 = some 1791040500000 ∧
      hourly.nextAfter halfHourZone 1791040500000 = some b ∧ ¬ HOUR_MS ≤ b - 1791040500000 := by
  obtain ⟨b, ha, hb, hnear⟩ := exists_near_hourly
  exact ⟨rfl, b, ha, hb, not_le.mpr hnear⟩

end Schedule

end Bokkie
