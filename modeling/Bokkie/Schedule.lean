import Bokkie.Accounts
import Bokkie.CivilTime
import Mathlib.Data.List.Sort

/-!
# When a routine runs

A routine's schedule and its occurrences in its owner's time zone, found by searching the dates
around an instant. Dates are numbers of days, of a calendar without end; the library's ends with the
year 9999, and a search that reaches its end is not of concern here.
-/

namespace Bokkie

open Accounts CivilTime

inductive Weekday where
  | mon
  | tue
  | wed
  | thu
  | fri
  | sat
  | sun
deriving DecidableEq, Repr

/-- A local time of day. -/
structure TimeOfDay where
  hour : ℕ
  minute : ℕ
  hour_lt : hour < 24
  minute_lt : minute < 60
deriving DecidableEq

def TimeOfDay.minutes (t : TimeOfDay) : ℕ := t.hour * 60 + t.minute

inductive Schedule where
  | daily (time : TimeOfDay)
  | weekdays (time : TimeOfDay)
  | days (days : List Weekday) (time : TimeOfDay)
  | hours (every : ℕ) (time : TimeOfDay)
deriving DecidableEq

/-- A day's minutes. -/
def DAY_MINUTES : ℕ := 24 * 60

def MINUTE_MS : ℤ := 60000

/-- One instant a schedule may name, and whether a gap moved it forward. -/
structure Candidate where
  time : ℤ
  moved : Bool
deriving DecidableEq

/-- Orders candidates by time, one that was not moved first. -/
def Candidate.le (a b : Candidate) : Bool :=
  a.time < b.time || (a.time = b.time && (!a.moved || b.moved))

namespace Schedule

/-- The intervals, in hours, that a routine may repeat at. -/
def EVERY_HOURS : List ℕ := [1, 2, 3, 4, 6, 8, 12]

/-- A schedule's shape: at least one day, no day twice, and an interval that divides a day. -/
def check : Schedule → Except Failure Unit
  | .daily _ | .weekdays _ => .ok ()
  | .days chosen _ =>
    if chosen = [] then .error (.invalid "Choose at least one day")
    else if ¬ chosen.Nodup then .error (.invalid "Each day is chosen once")
    else .ok ()
  | .hours every _ =>
    if every ∈ EVERY_HOURS then .ok ()
    else .error (.invalid "A routine repeats every 1, 2, 3, 4, 6, 8 or 12 hours")

/-- The weekday of a date. Date 0, the first of 1970, is a Thursday. -/
def weekday (date : ℤ) : Weekday :=
  match (date % 7).toNat with
  | 0 => .thu
  | 1 => .fri
  | 2 => .sat
  | 3 => .sun
  | 4 => .mon
  | 5 => .tue
  | _ => .wed

/-- Whether the schedule runs on a date. -/
def runsOn (s : Schedule) (date : ℤ) : Bool :=
  match s with
  | .daily _ | .hours _ _ => true
  | .weekdays _ => !(weekday date = .sat ∨ weekday date = .sun)
  | .days chosen _ => chosen.contains (weekday date)

/-- The local times of day the schedule names, in minutes after midnight, in order. -/
def times : Schedule → List ℕ
  | .daily t | .weekdays t | .days _ t => [t.minutes]
  | .hours every t =>
    let step := max every 1 * 60
    let first := t.minutes % step
    -- twenty-four steps of an hour or more are a day
    ((List.range 24).map fun k => first + k * step).takeWhile (· < DAY_MINUTES)

/-- The local time of day `minutes` on a date. -/
def localTimeOf (date : ℤ) (minutes : ℕ) : ℤ := date * DAY + minutes * MINUTE_MS

/-- The instant a local time names: for a time in a gap the moment the clocks change, for one in a
fold the first of the two. -/
def resolve (zone : TimeZone) (date : ℤ) (minutes : ℕ) : Option Candidate :=
  let dt := localTimeOf date minutes
  match zone.toAmbiguousTimestamp dt with
  | .unambiguous offset => some ⟨dt - offset, false⟩
  | .fold before _ => some ⟨dt - before, false⟩
  | .gap _ after => do
    let transition ← zone.following (dt - after)
    return ⟨transition.time, true⟩

/-- Keeps the first of each stretch of candidates at one time. -/
def dedupFrom (c : Candidate) : List Candidate → List Candidate
  | [] => [c]
  | other :: rest =>
    if other.time = c.time then dedupFrom c rest else c :: dedupFrom other rest

def dedup : List Candidate → List Candidate
  | [] => []
  | c :: rest => dedupFrom c rest

/-- The dates from one to another. -/
def dates (first last : ℤ) : List ℤ :=
  (List.range (last + 1 - first).toNat).map fun (n : ℕ) => first + n

def candidates (s : Schedule) (zone : TimeZone) (first last : ℤ) : List Candidate :=
  (dates first last).flatMap fun date =>
    if s.runsOn date then s.times.filterMap (resolve zone date) else []

/-- What is left of candidates in order: a moved time within an hour of another is covered by it. -/
def keep (candidates : List Candidate) : List ℤ :=
  (candidates.zipIdx.filter fun (c, i) =>
    !c.moved || candidates.zipIdx.all fun (other, j) =>
      i = j || HOUR_MS ≤ |other.time - c.time|).map fun (c, _) => c.time

/-- The schedule's occurrences on the local dates `first` to `last`, in order. -/
def occurrences (s : Schedule) (zone : TimeZone) (first last : ℤ) : List ℤ :=
  keep (dedup ((s.candidates zone first last).mergeSort Candidate.le))

def localDate (zone : TimeZone) (time : ℤ) : ℤ := zone.localTime time / DAY

/-- The dates `before` and `after` days from a date. -/
def around (date before after : ℤ) : ℤ × ℤ := (date - before, date + after)

/-- The schedule's first occurrence strictly after `after`. -/
def nextAfter (s : Schedule) (zone : TimeZone) (after : ℤ) : Option ℤ :=
  let today := localDate zone after
  -- a week and a day covers every schedule
  let (first, last) := around today 1 8
  (s.occurrences zone first last).find? (after < ·)

/-- The schedule's last occurrence at or before `now`. -/
def latestAtOrBefore (s : Schedule) (zone : TimeZone) (now : ℤ) : Option ℤ :=
  let today := localDate zone now
  let (first, last) := around today 8 1
  (s.occurrences zone first last).reverse.find? (· ≤ now)

end Schedule

end Bokkie
