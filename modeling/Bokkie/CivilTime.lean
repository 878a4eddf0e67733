import Mathlib.Algebra.Order.Ring.Int
import Mathlib.Data.List.Basic
import Mathlib.Tactic.Linarith

/-!
# Time zones and local times

Instants and local times are numbers of milliseconds. A time zone is the offset that local time is
ahead of the instant, and the changes it goes through: the clocks go forward over a gap of local
times, or back into a fold. A local time names the first instant at which the clocks have got to it.
-/

namespace CivilTime

/-- A day's milliseconds. -/
def DAY : ℤ := 86400000

/-- From `time` on the offset is `offset`. -/
structure Transition where
  time : ℤ
  offset : ℤ
deriving DecidableEq

/-- Every change is of at most a day, and comes more than a day after the one before. -/
def Spaced : ℤ → List Transition → Prop
  | _, [] => True
  | before, tr :: rest => tr.offset - before ≤ DAY ∧ before - tr.offset ≤ DAY ∧
    (∀ next ∈ rest.head?, tr.time + DAY < next.time) ∧ Spaced tr.offset rest

instance decidableSpaced : (before : ℤ) → (rest : List Transition) → Decidable (Spaced before rest)
  | _, [] => isTrue trivial
  | before, tr :: rest =>
    have := decidableSpaced tr.offset rest
    inferInstanceAs (Decidable (tr.offset - before ≤ DAY ∧ before - tr.offset ≤ DAY ∧
      (∀ next ∈ rest.head?, tr.time + DAY < next.time) ∧ Spaced tr.offset rest))

structure TimeZone where
  /-- The offset before the first change. -/
  first : ℤ
  transitions : List Transition
  spaced : Spaced first transitions

/-- How a local time reads: it is shown once, never, or twice. -/
inductive AmbiguousOffset where
  | unambiguous (offset : ℤ)
  | gap (before after : ℤ)
  | fold (before after : ℤ)
deriving DecidableEq

/-- A change of the clocks. -/
structure ClockChange where
  time : ℤ
  before : ℤ
  after : ℤ
deriving DecidableEq

/-! ## Along the changes -/

def offsetFrom : ℤ → List Transition → ℤ → ℤ
  | before, [], _ => before
  | before, tr :: rest, u => if u < tr.time then before else offsetFrom tr.offset rest u

def ambiguousFrom : ℤ → List Transition → ℤ → AmbiguousOffset
  | before, [], _ => .unambiguous before
  | before, tr :: rest, dt =>
    if dt < tr.time + min before tr.offset then .unambiguous before
    else if dt < tr.time + max before tr.offset then
      if before < tr.offset then .gap before tr.offset else .fold before tr.offset
    else ambiguousFrom tr.offset rest dt

def changesFrom : ℤ → List Transition → List ClockChange
  | _, [] => []
  | before, tr :: rest => ⟨tr.time, before, tr.offset⟩ :: changesFrom tr.offset rest

/-- The first instant at which the clocks have got to a local time, and whether they skip it. -/
def firstFrom : ℤ → List Transition → ℤ → ℤ × Bool
  | before, [], dt => (dt - before, false)
  | before, tr :: rest, dt =>
    if dt < tr.time + before then (dt - before, false)
    else if dt < tr.time + tr.offset then (tr.time, true)
    else firstFrom tr.offset rest dt

namespace TimeZone

/-- The local time at an instant. -/
def localTime (z : TimeZone) (u : ℤ) : ℤ := u + offsetFrom z.first z.transitions u

def toAmbiguousTimestamp (z : TimeZone) (dt : ℤ) : AmbiguousOffset :=
  ambiguousFrom z.first z.transitions dt

/-- The first change after an instant. -/
def following (z : TimeZone) (u : ℤ) : Option Transition := z.transitions.find? (u < ·.time)

def changes (z : TimeZone) : List ClockChange := changesFrom z.first z.transitions

def firstInstant (z : TimeZone) (dt : ℤ) : ℤ := (firstFrom z.first z.transitions dt).1

/-- The clocks never show the local time. -/
def skips (z : TimeZone) (dt : ℤ) : Bool := (firstFrom z.first z.transitions dt).2

end TimeZone

section Walk

variable {before : ℤ} {ts : List Transition} {u v dt : ℤ}

theorem Spaced.tail {tr : Transition} (h : Spaced before (tr :: ts)) : Spaced tr.offset ts := h.2.2.2

/-- Once past a change, the local time has not fallen behind where that change put it. -/
theorem Spaced.le_offsetFrom {s : ℤ} (h : Spaced before ts)
    (hnext : ∀ next ∈ ts.head?, s + DAY < next.time) (hu : s ≤ u) :
    s + before ≤ u + offsetFrom before ts u := by
  induction ts generalizing before s with
  | nil => simpa [offsetFrom] using hu
  | cons tr rest ih =>
      obtain ⟨-, hback, hspaced, htail⟩ := h
      have htr : s + DAY < tr.time := hnext tr rfl
      rw [offsetFrom]
      by_cases hlt : u < tr.time
      · rw [if_pos hlt]
        omega
      · rw [if_neg hlt]
        have := ih htail hspaced (not_lt.mp hlt)
        omega

theorem offsetFrom_of_lt {s : ℤ} (hnext : ∀ next ∈ ts.head?, s < next.time) (hu : u ≤ s) :
    offsetFrom before ts u = before := by
  cases ts with
  | nil => rfl
  | cons tr rest =>
      have htr : s < tr.time := hnext tr rfl
      rw [offsetFrom, if_pos (by omega)]

/-- Local time falls behind what the clocks have shown by less than a day. -/
theorem Spaced.local_lt (h : Spaced before ts) (hvu : v ≤ u) :
    v + offsetFrom before ts v < u + offsetFrom before ts u + DAY := by
  induction ts generalizing before with
  | nil =>
      simp only [offsetFrom, DAY]
      omega
  | cons tr rest ih =>
      obtain ⟨hforward, hback, hspaced, htail⟩ := h
      rw [offsetFrom, offsetFrom]
      by_cases hv : v < tr.time
      · rw [if_pos hv]
        by_cases hu : u < tr.time
        · rw [if_pos hu]
          simp only [DAY]
          omega
        · rw [if_neg hu]
          have := htail.le_offsetFrom hspaced (not_lt.mp hu)
          omega
      · rw [if_neg hv, if_neg (by omega)]
        exact ih htail

/-- By an instant the clocks have got to a local time just when its first instant has come. -/
theorem Spaced.firstFrom_le (h : Spaced before ts) :
    (firstFrom before ts dt).1 ≤ u ↔ ∃ v ≤ u, dt ≤ v + offsetFrom before ts v := by
  induction ts generalizing before with
  | nil =>
      simp only [firstFrom, offsetFrom]
      constructor
      · intro hle
        exact ⟨u, le_rfl, by omega⟩
      · rintro ⟨v, hv, hdt⟩
        omega
  | cons tr rest ih =>
      obtain ⟨-, -, hspaced, htail⟩ := h
      rw [firstFrom]
      by_cases hearly : dt < tr.time + before
      · rw [if_pos hearly]
        simp only [offsetFrom]
        constructor
        · intro hle
          exact ⟨dt - before, hle, by rw [if_pos (by omega)]; omega⟩
        · rintro ⟨v, hv, hdt⟩
          by_cases hlt : v < tr.time
          · rw [if_pos hlt] at hdt
            omega
          · omega
      rw [if_neg hearly]
      by_cases hgap : dt < tr.time + tr.offset
      · rw [if_pos hgap]
        simp only [offsetFrom]
        constructor
        · intro hle
          refine ⟨tr.time, hle, ?_⟩
          rw [if_neg (lt_irrefl _), offsetFrom_of_lt (s := tr.time) (fun next hnext => ?_) le_rfl]
          · omega
          · have := hspaced next hnext
            simp only [DAY] at this
            omega
        · rintro ⟨v, hv, hdt⟩
          by_cases hlt : v < tr.time
          · rw [if_pos hlt] at hdt
            omega
          · omega
      · rw [if_neg hgap, ih htail]
        simp only [offsetFrom]
        refine exists_congr fun v => and_congr_right fun _ => ?_
        by_cases hlt : v < tr.time
        · rw [if_pos hlt, offsetFrom_of_lt (s := tr.time) (fun next hnext => ?_) hlt.le]
          · omega
          · have := hspaced next hnext
            simp only [DAY] at this
            omega
        · rw [if_neg hlt]

/-- A local time that is shown is the local time at its first instant. -/
theorem Spaced.local_firstFrom (h : Spaced before ts) (hshown : (firstFrom before ts dt).2 = false) :
    (firstFrom before ts dt).1 + offsetFrom before ts (firstFrom before ts dt).1 = dt := by
  induction ts generalizing before with
  | nil =>
      simp only [firstFrom, offsetFrom]
      omega
  | cons tr rest ih =>
      obtain ⟨-, -, hspaced, htail⟩ := h
      rw [firstFrom] at hshown ⊢
      by_cases hearly : dt < tr.time + before
      · simp only [if_pos hearly, offsetFrom]
        rw [if_pos (by omega)]
        omega
      rw [if_neg hearly] at hshown ⊢
      by_cases hgap : dt < tr.time + tr.offset
      · rw [if_pos hgap] at hshown
        cases hshown
      · rw [if_neg hgap] at hshown ⊢
        have hlocal := ih htail hshown
        rw [offsetFrom]
        by_cases hlt : (firstFrom tr.offset rest dt).1 < tr.time
        · rw [offsetFrom_of_lt (s := tr.time) (fun next hnext => ?_) hlt.le] at hlocal
          · omega
          · have := hspaced next hnext
            simp only [DAY] at this
            omega
        · rwa [if_neg hlt]

theorem mem_transitions {c : ClockChange} (hc : c ∈ changesFrom before ts) :
    ⟨c.time, c.after⟩ ∈ ts := by
  induction ts generalizing before with
  | nil => cases hc
  | cons tr rest ih =>
      rcases List.mem_cons.mp hc with rfl | hc
      · exact List.mem_cons_self
      · exact List.mem_cons_of_mem _ (ih hc)

/-- Every later change comes more than a day after the change before it. -/
theorem Spaced.lt_time {s : ℤ} {tr : Transition} (h : Spaced before ts)
    (hnext : ∀ next ∈ ts.head?, s + DAY < next.time) (htr : tr ∈ ts) : s + DAY < tr.time := by
  induction ts generalizing before s with
  | nil => cases htr
  | cons first rest ih =>
      have hfirst : s + DAY < first.time := hnext first rfl
      rcases List.mem_cons.mp htr with rfl | htr
      · exact hfirst
      · have := ih h.tail h.2.2.1 htr
        simp only [DAY] at *
        omega

/-- A skipped local time lies in the gap of the change that its first instant is at. -/
theorem skipped_of_firstFrom (hskipped : (firstFrom before ts dt).2 = true) :
    ∃ c ∈ changesFrom before ts, c.time = (firstFrom before ts dt).1 ∧ c.time + c.before ≤ dt ∧
      dt < c.time + c.after := by
  induction ts generalizing before with
  | nil => cases hskipped
  | cons tr rest ih =>
      rw [firstFrom] at hskipped ⊢
      by_cases hearly : dt < tr.time + before
      · rw [if_pos hearly] at hskipped
        cases hskipped
      rw [if_neg hearly] at hskipped ⊢
      by_cases hgap : dt < tr.time + tr.offset
      · rw [if_pos hgap]
        exact ⟨_, List.mem_cons_self, rfl, not_lt.mp hearly, hgap⟩
      · rw [if_neg hgap] at hskipped ⊢
        obtain ⟨c, hc, hrest⟩ := ih hskipped
        exact ⟨c, List.mem_cons_of_mem _ hc, hrest⟩

/-- A change holds for a day after it, and what came before it for a day before. -/
theorem Spaced.near (h : Spaced before ts) {c : ClockChange} (hc : c ∈ changesFrom before ts) :
    c.after - c.before ≤ DAY ∧
      (∀ u, c.time - DAY ≤ u → u < c.time → offsetFrom before ts u = c.before) ∧
      ∀ u, c.time ≤ u → u ≤ c.time + DAY → offsetFrom before ts u = c.after := by
  induction ts generalizing before with
  | nil => cases hc
  | cons tr rest ih =>
      obtain ⟨hforward, -, hspaced, htail⟩ := h
      rcases List.mem_cons.mp hc with rfl | hc
      · refine ⟨hforward, fun u _ hu => by rw [offsetFrom, if_pos hu], fun u hu hday => ?_⟩
        rw [offsetFrom, if_neg (not_lt.mpr hu)]
        exact offsetFrom_of_lt hspaced hday
      · have hlater : tr.time + DAY < c.time := htail.lt_time hspaced (mem_transitions hc)
        obtain ⟨hlength, hbefore, hafter⟩ := ih htail hc
        refine ⟨hlength, fun u hday hu => ?_, fun u hu hday => ?_⟩
        · rw [offsetFrom, if_neg (by omega)]
          exact hbefore u hday hu
        · rw [offsetFrom, if_neg (by simp only [DAY] at hlater; omega)]
          exact hafter u hu hday

/-- Where the offset differs the clocks have changed. -/
theorem exists_change_of_offsetFrom_ne (hle : u ≤ v)
    (hne : offsetFrom before ts u ≠ offsetFrom before ts v) :
    ∃ c ∈ changesFrom before ts, u < c.time ∧ c.time ≤ v := by
  induction ts generalizing before with
  | nil => exact absurd rfl hne
  | cons tr rest ih =>
      rw [offsetFrom, offsetFrom] at hne
      by_cases hu : u < tr.time
      · by_cases hv : v < tr.time
        · rw [if_pos hu, if_pos hv] at hne
          exact absurd rfl hne
        · exact ⟨_, List.mem_cons_self, hu, not_lt.mp hv⟩
      · rw [if_neg hu, if_neg (by omega)] at hne
        obtain ⟨c, hc, hin⟩ := ih hne
        exact ⟨c, List.mem_cons_of_mem _ hc, hin⟩

/-- Two changes less than a day apart are one. -/
theorem Spaced.change_unique (h : Spaced before ts) {c c' : ClockChange}
    (hc : c ∈ changesFrom before ts) (hc' : c' ∈ changesFrom before ts) (hle : c.time ≤ c'.time)
    (hday : c'.time ≤ c.time + DAY) : c = c' := by
  induction ts generalizing before with
  | nil => cases hc
  | cons tr rest ih =>
      obtain ⟨-, -, hspaced, htail⟩ := h
      rcases List.mem_cons.mp hc with rfl | hc
      · rcases List.mem_cons.mp hc' with rfl | hc'
        · rfl
        · have : tr.time + DAY < c'.time := htail.lt_time hspaced (mem_transitions hc')
          simp only at hday
          omega
      · have hlater : tr.time + DAY < c.time := htail.lt_time hspaced (mem_transitions hc)
        rcases List.mem_cons.mp hc' with rfl | hc'
        · simp only [DAY] at *
          omega
        · exact ih htail hc hc'

/-- Read with the offset after its gap, a skipped local time is an instant less than a day before
the change, which is then the first change to follow. -/
theorem Spaced.ambiguousFrom_eq (h : Spaced before ts) (dt : ℤ) :
    (∃ offset, ambiguousFrom before ts dt = .unambiguous offset ∧
      firstFrom before ts dt = (dt - offset, false)) ∨
    (∃ offset after, ambiguousFrom before ts dt = .fold offset after ∧
      firstFrom before ts dt = (dt - offset, false)) ∨
    ∃ offset after tr, ambiguousFrom before ts dt = .gap offset after ∧
      ts.find? (dt - after < ·.time) = some tr ∧ firstFrom before ts dt = (tr.time, true) ∧
      tr.time - DAY ≤ dt - after := by
  induction ts generalizing before with
  | nil => exact .inl ⟨before, rfl, rfl⟩
  | cons tr rest ih =>
      obtain ⟨hforward, hback, hspaced, htail⟩ := h
      rw [ambiguousFrom, firstFrom]
      by_cases hmin : dt < tr.time + min before tr.offset
      · rw [if_pos hmin, if_pos (by omega)]
        exact .inl ⟨before, rfl, rfl⟩
      rw [if_neg hmin]
      by_cases hmax : dt < tr.time + max before tr.offset
      · rw [if_pos hmax]
        by_cases hgap : before < tr.offset
        · rw [if_pos hgap, if_neg (by omega), if_pos (by omega)]
          refine .inr (.inr ⟨before, tr.offset, tr, rfl, ?_, rfl, by omega⟩)
          rw [List.find?_cons_of_pos]
          simp only [decide_eq_true_eq]
          omega
        · rw [if_neg hgap, if_pos (by omega)]
          exact .inr (.inl ⟨before, tr.offset, rfl, rfl⟩)
      · rw [if_neg hmax, if_neg (by omega), if_neg (by omega)]
        rcases ih htail with hshown | hfold | ⟨offset, after, next, hgap, hfound, hfirst, hnear⟩
        · exact .inl hshown
        · exact .inr (.inl hfold)
        · refine .inr (.inr ⟨offset, after, next, hgap, ?_, hfirst, hnear⟩)
          have hlater : tr.time + DAY < next.time :=
            htail.lt_time hspaced (List.mem_of_find?_eq_some hfound)
          rw [List.find?_cons_of_neg, hfound]
          simp only [decide_eq_true_eq]
          omega

end Walk

namespace TimeZone

variable {z : TimeZone} {u v dt dt' : ℤ}

/-- By an instant the clocks have got to a local time just when its first instant has come. -/
theorem firstInstant_le : z.firstInstant dt ≤ u ↔ ∃ v ≤ u, dt ≤ z.localTime v :=
  z.spaced.firstFrom_le

theorem localTime_lt (hvu : v ≤ u) : z.localTime v < z.localTime u + DAY := z.spaced.local_lt hvu

theorem firstInstant_mono (h : dt ≤ dt') : z.firstInstant dt ≤ z.firstInstant dt' := by
  obtain ⟨v, hv, hdt⟩ := firstInstant_le.mp (le_refl (z.firstInstant dt'))
  exact firstInstant_le.mpr ⟨v, hv, h.trans hdt⟩

/-- What is yet to come is later than what is shown. -/
theorem lt_of_lt_firstInstant (h : u < z.firstInstant dt) : z.localTime u < dt := by
  by_contra hle
  exact absurd (firstInstant_le.mpr ⟨u, le_rfl, not_lt.mp hle⟩) (not_le.mpr h)

theorem firstInstant_of_le (h : dt ≤ z.localTime u) : z.firstInstant dt ≤ u :=
  firstInstant_le.mpr ⟨u, le_rfl, h⟩

/-- What has come is less than a day later than what is shown. -/
theorem lt_of_firstInstant_le (h : z.firstInstant dt ≤ u) : dt < z.localTime u + DAY := by
  obtain ⟨v, hv, hdt⟩ := firstInstant_le.mp h
  have := z.localTime_lt hv
  omega

theorem localTime_firstInstant (h : z.skips dt = false) : z.localTime (z.firstInstant dt) = dt :=
  z.spaced.local_firstFrom h

theorem skipped (h : z.skips dt = true) :
    ∃ c ∈ z.changes, c.time = z.firstInstant dt ∧ c.time + c.before ≤ dt ∧ dt < c.time + c.after :=
  skipped_of_firstFrom h

variable {c c' : ClockChange}

theorem length_le (hc : c ∈ z.changes) : c.after - c.before ≤ DAY := (z.spaced.near hc).1

theorem localTime_before (hc : c ∈ z.changes) (hday : c.time - DAY ≤ u) (hu : u < c.time) :
    z.localTime u = u + c.before := by
  rw [localTime, (z.spaced.near hc).2.1 u hday hu]

theorem localTime_after (hc : c ∈ z.changes) (hu : c.time ≤ u) (hday : u ≤ c.time + DAY) :
    z.localTime u = u + c.after := by
  rw [localTime, (z.spaced.near hc).2.2 u hu hday]

theorem exists_change (hle : u ≤ v) (hne : z.localTime v - z.localTime u ≠ v - u) :
    ∃ c ∈ z.changes, u < c.time ∧ c.time ≤ v := by
  refine exists_change_of_offsetFrom_ne hle fun hsame => hne ?_
  simp only [localTime]
  omega

theorem change_unique (hc : c ∈ z.changes) (hc' : c' ∈ z.changes) (h : |c'.time - c.time| ≤ DAY) :
    c = c' := by
  obtain ⟨hback, hforward⟩ := abs_le.mp h
  rcases le_total c.time c'.time with hle | hle
  · exact z.spaced.change_unique hc hc' hle (by omega)
  · exact (z.spaced.change_unique hc' hc hle (by omega)).symm

end TimeZone

end CivilTime
