import Std.Data.ExtTreeMap
import Mathlib.Data.List.Induction

/-!
# Maps keyed by numeric ids

An extensional ordered map with natural-number keys, with its lookup lemmas stated by equality of
keys, and the map that a list of records with ids collects into.
-/

/-- A map keyed by ids. -/
abbrev IdMap (β : Type) := Std.ExtTreeMap ℕ β compare

namespace IdMap

variable {β : Type} {m m' : IdMap β} {i j : ℕ} {v w : β}

@[simp] theorem getElem?_insert' : (m.insert i v)[j]? = if i = j then some v else m[j]? := by
  rw [Std.ExtTreeMap.getElem?_insert]
  simp only [Nat.compare_eq_eq]

@[simp] theorem getElem?_erase' : (m.erase i)[j]? = if i = j then none else m[j]? := by
  rw [Std.ExtTreeMap.getElem?_erase]
  simp only [Nat.compare_eq_eq]

theorem getElem?_filter' {p : ℕ → β → Bool} : (m.filter p)[i]? = m[i]?.filter (p i) := by
  rw [Std.ExtTreeMap.getElem?_filter']

theorem getElem?_filter_eq_some {p : ℕ → β → Bool} :
    (m.filter p)[i]? = some v ↔ m[i]? = some v ∧ p i v = true := by
  rw [getElem?_filter', Option.filter_eq_some_iff]

theorem getElem?_union_eq_some : (m ∪ m')[i]? = some v ↔
    m'[i]? = some v ∨ m'[i]? = none ∧ m[i]? = some v := by
  rw [Std.ExtTreeMap.getElem?_union]
  cases m'[i]? <;> simp

/-- The records, in the order of their ids. -/
def records (m : IdMap β) : List β := m.toList.map Prod.snd

theorem mem_records : v ∈ m.records ↔ ∃ i : ℕ, m[i]? = some v := by
  rw [records, List.mem_map]
  constructor
  · rintro ⟨⟨i, v⟩, h, rfl⟩
    exact ⟨i, Std.ExtTreeMap.mem_toList_iff_getElem?_eq_some.mp h⟩
  · rintro ⟨i, h⟩
    exact ⟨(i, v), Std.ExtTreeMap.mem_toList_iff_getElem?_eq_some.mpr h, rfl⟩

/-- The map of a list of records by their ids; of two with one id, the later stands. -/
def collect (key : β → ℕ) (l : List β) : IdMap β :=
  l.foldl (fun m v => m.insert (key v) v) ∅

section Collect

variable {key : β → ℕ} {l : List β}

theorem collect_snoc : collect key (l ++ [v]) = (collect key l).insert (key v) v := by
  simp [collect, List.foldl_append]

theorem mem_of_collect (h : (collect key l)[i]? = some v) : v ∈ l ∧ key v = i := by
  induction l using List.reverseRecOn with
  | nil => simp [collect] at h
  | append_singleton l w ih =>
      rw [collect_snoc, getElem?_insert'] at h
      split at h
      · next hkey =>
          obtain rfl : w = v := Option.some.inj h
          exact ⟨by simp, hkey⟩
      · exact ⟨List.mem_append_left _ (ih h).1, (ih h).2⟩

theorem collect_of_mem (key : β → ℕ) (h : v ∈ l) :
    ∃ w ∈ l, (collect key l)[key v]? = some w := by
  induction l using List.reverseRecOn with
  | nil => simp at h
  | append_singleton l w ih =>
      rw [collect_snoc]
      by_cases hkey : key w = key v
      · exact ⟨w, by simp, by simp [hkey]⟩
      · have hmem : v ∈ l := by
          rcases List.mem_append.mp h with hl | hw
          · exact hl
          · exact absurd (congrArg key (List.mem_singleton.mp hw).symm) hkey
        obtain ⟨u, hu, hget⟩ := ih hmem
        exact ⟨u, List.mem_append_left _ hu, by simp [hkey, hget]⟩

end Collect

end IdMap
