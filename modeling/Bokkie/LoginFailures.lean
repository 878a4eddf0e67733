import Bokkie.LoginLimiter
import Mathlib.Data.Prod.Lex

/-!
# The stored counts

The table that keeps the limiter's counts. Each change the limiter makes is applied to it, in order,
and a limiter can be started from it: its times for each key, in order, less what is too old.
-/

namespace Bokkie.LoginLimiter

open Accounts SlidingWindow

/-- A row of `login_failures`. -/
structure FailureRow where
  id : ℕ
  key : String
  time : ℤ
deriving DecidableEq

/-- The rows, no two with the same id. -/
structure LoginFailures where
  rows : List FailureRow
  distinct : (rows.map (·.id)).Nodup

namespace LoginFailures

def empty : LoginFailures := ⟨[], List.nodup_nil⟩

/-- `INSERT INTO login_failures`: the new row's id is past all others. -/
def insert (t : LoginFailures) (time : ℤ) (key : String) : LoginFailures where
  rows := t.rows ++ [⟨nextId (t.rows.map (·.id)), key, time⟩]
  distinct := by
    rw [List.map_append]
    refine List.nodup_append'.mpr ⟨t.distinct, List.nodup_singleton _, fun id hid hnew => ?_⟩
    exact (lt_nextId hid).ne (List.mem_singleton.mp hnew)

/-- `DELETE FROM login_failures WHERE`. -/
def delete (t : LoginFailures) (p : FailureRow → Bool) : LoginFailures where
  rows := t.rows.filter fun row => !p row
  distinct := t.distinct.sublist (List.filter_sublist.map _)

/-- The lowest id of a key's rows at a time. -/
def firstAt (t : LoginFailures) (key : String) (time : ℤ) : Option ℕ :=
  ((t.rows.filter fun row => row.key = key ∧ row.time = time).map (·.id)).min?

/-- One change, as it is written to the table. -/
def record (t : LoginFailures) : Change → LoginFailures
  | .counted [] _ => t
  | .counted keys time =>
    (keys.foldl (·.insert time) t).delete fun row => row.time ≤ time - WINDOW_MS
  | .cleared key => t.delete (·.key = key)
  | .takenBack key time =>
    match t.firstAt key time with
    | none => t
    | some id => t.delete (·.id = id)

/-- What a limiter is started from. -/
def pruned (t : LoginFailures) (now : ℤ) : LoginFailures :=
  t.delete fun row => row.time ≤ now - WINDOW_MS

/-- `ORDER BY at, id`. -/
def inOrder (t : LoginFailures) : List FailureRow :=
  t.rows.insertionSort fun row other => toLex (row.time, row.id) ≤ toLex (other.time, other.id)

/-- The times of a key's rows. -/
def times (t : LoginFailures) (name : String) : List ℤ :=
  (t.rows.filter (·.key = name)).map (·.time)

end LoginFailures

/-- A row read when a limiter is started. -/
def load (failures : Failures) (row : FailureRow) : Failures :=
  failures.insert row.key (failures[row.key]?.getD [] ++ [row.time])

/-- A limiter started from the table, which stores every change it makes. -/
def persistent (t : LoginFailures) (now : ℤ) (order : LoginLimiter.Order) : LoginLimiter :=
  ⟨(t.pruned now).inOrder.foldl load ∅, [], order⟩

namespace LoginFailures

variable {t : LoginFailures} {name key : String} {time now cut : ℤ} {keys : List String}

theorem times_insert : (t.insert time key).times name =
    if key = name then t.times name ++ [time] else t.times name := by
  unfold times insert
  rw [List.filter_append, List.map_append]
  by_cases h : key = name
  · simp [h]
  · simp [h]

theorem times_foldl_insert (hkeys : keys.Nodup) : (keys.foldl (·.insert time) t).times name =
    if name ∈ keys then t.times name ++ [time] else t.times name := by
  induction keys generalizing t with
  | nil => rfl
  | cons key keys ih =>
      obtain ⟨hkey, hkeys⟩ := List.nodup_cons.mp hkeys
      rw [List.foldl_cons, ih hkeys, times_insert]
      by_cases h : key = name
      · subst h
        simp [hkey]
      · have hne : name ≠ key := fun heq => h heq.symm
        simp [h, hne]

theorem times_delete_old : (t.delete fun row => row.time ≤ cut).times name =
    (t.times name).filter (cut < ·) := by
  unfold times delete
  rw [List.filter_map, List.filter_filter, List.filter_filter]
  refine congrArg _ (List.filter_congr fun row _ => ?_)
  rw [Bool.eq_iff_iff]
  simp [and_comm]

theorem times_delete_key : (t.delete (·.key = key)).times name =
    if key = name then [] else t.times name := by
  unfold times delete
  rw [List.filter_filter]
  split
  · next h =>
      rw [List.map_eq_nil_iff, List.filter_eq_nil_iff]
      simp [h]
  · next h =>
      refine congrArg _ (List.filter_congr fun row _ => ?_)
      rw [Bool.eq_iff_iff]
      simp only [Bool.and_eq_true, Bool.not_eq_true', decide_eq_true_eq, decide_eq_false_iff_not,
        and_iff_left_iff_imp]
      rintro rfl
      exact fun heq => h heq.symm

/-- Without the row of one id, a key's times are without that row's. -/
theorem times_delete_id {row : FailureRow} (hrow : row ∈ t.rows) :
    ((t.delete (·.id = row.id)).times name).Perm
      (if row.key = name then (t.times name).erase row.time else t.times name) := by
  have hrows : (t.delete (·.id = row.id)).rows = t.rows.erase row := by
    have hnodup : t.rows.Nodup := t.distinct.of_map _
    rw [hnodup.erase_eq_filter]
    refine List.filter_congr fun other hother => ?_
    rw [Bool.eq_iff_iff]
    simp only [Bool.not_eq_true', decide_eq_false_iff_not, bne_iff_ne, ne_eq, not_iff_not]
    exact ⟨fun h => List.inj_on_of_nodup_map t.distinct hother hrow h, fun h => h ▸ rfl⟩
  have hperm := (List.perm_cons_erase hrow).filter (·.key = name)
  unfold times
  rw [hrows]
  split
  · next h =>
      rw [List.filter_cons_of_pos (by simpa using h)] at hperm
      have hmap := (hperm.map (·.time)).erase row.time
      rw [List.map_cons, List.erase_cons_head] at hmap
      exact hmap.symm
  · next h =>
      rw [List.filter_cons_of_neg (by simpa using h)] at hperm
      exact (hperm.map _).symm

/-- Taking an attempt back takes one of its times off its key, if one is there. -/
theorem times_takenBack : ((t.record (.takenBack key time)).times name).Perm
    (if key = name then (t.times name).erase time else t.times name) := by
  rw [record]
  cases hfirst : t.firstAt key time with
  | none =>
      have hnone : ∀ row ∈ t.rows, ¬ (row.key = key ∧ row.time = time) := by
        intro row hrow hboth
        rw [firstAt, List.min?_eq_none_iff, List.map_eq_nil_iff, List.filter_eq_nil_iff] at hfirst
        exact hfirst row hrow (by simpa using hboth)
      dsimp only
      split
      · next h =>
          subst h
          rw [List.erase_of_not_mem]
          intro hmem
          obtain ⟨row, hrow, htime⟩ := List.mem_map.mp hmem
          obtain ⟨hrow, hkey⟩ := List.mem_filter.mp hrow
          exact hnone row hrow ⟨by simpa using hkey, htime⟩
      · rfl
  | some id =>
      obtain ⟨row, hrow, rfl⟩ := List.mem_map.mp (List.min?_mem hfirst)
      obtain ⟨hmem, hboth⟩ := List.mem_filter.mp hrow
      obtain ⟨rfl, rfl⟩ : row.key = key ∧ row.time = time := by simpa using hboth
      exact times_delete_id hmem

theorem times_counted (hkeys : keys.Nodup) : (t.record (.counted keys time)).times name =
    if keys = [] then t.times name
    else (if name ∈ keys then t.times name ++ [time] else t.times name).filter
      (time - WINDOW_MS < ·) := by
  cases keys with
  | nil => rfl
  | cons key keys =>
      rw [if_neg (List.cons_ne_nil _ _), ← times_foldl_insert hkeys]
      exact times_delete_old

end LoginFailures

section Starting

variable {t : LoginFailures} {now : ℤ} {failures : Failures} {rows : List FailureRow}
  {name : String}

end Starting

end Bokkie.LoginLimiter
