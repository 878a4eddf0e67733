import Mathlib.Data.List.Dedup
import Mathlib.Data.List.Perm.Subperm
import Mathlib.Data.List.Sort
import Mathlib.Data.List.TakeWhile

/-!
# Most recently used

A history of uses, the latest first, and what stands in it more recently than a key. And what
remains of a sorted list cut after so many elements.
-/

namespace Recency

variable {κ : Type*} [DecidableEq κ] {k j : κ} {ks ls : List κ} {n : ℕ}

/-- The other keys used since a key was used last. -/
def later (k : κ) (ks : List κ) : List κ := (ks.takeWhile (· ≠ k)).dedup

/-- The keys of a history, each once, the last used first. -/
def order : List κ → List κ
  | [] => []
  | k :: ks => k :: (order ks).filter (· ≠ k)

theorem mem_order : j ∈ order ks ↔ j ∈ ks := by
  induction ks with
  | nil => rfl
  | cons k ks ih =>
      rw [order, List.mem_cons, List.mem_filter, List.mem_cons, ih]
      by_cases h : j = k
      · simp [h]
      · simp [h]

theorem nodup_order : (order ks).Nodup := by
  induction ks with
  | nil => exact List.nodup_nil
  | cons k ks ih =>
      have hnot : k ∉ (order ks).filter (· ≠ k) := by simp
      exact List.nodup_cons.mpr ⟨hnot, ih.filter _⟩

theorem length_order : (order ks).length = ks.dedup.length := by
  have hperm : (order ks).Perm ks.dedup := by
    refine (List.perm_ext_iff_of_nodup nodup_order (List.nodup_dedup ks)).mpr fun j => ?_
    rw [mem_order, List.mem_dedup]
  exact hperm.length_eq

omit [DecidableEq κ] in
/-- Dropping elements that a search passes over anyway. -/
theorem takeWhile_filter {p q : κ → Bool} (h : ∀ a, p a = false → q a = true) (l : List κ) :
    (l.filter q).takeWhile p = (l.takeWhile p).filter q := by
  induction l with
  | nil => rfl
  | cons a l ih =>
      cases hp : p a with
      | false => simp [h a hp, hp]
      | true => cases hq : q a <;> simp [hp, hq, ih]

theorem order_takeWhile : order (ks.takeWhile (· ≠ k)) = (order ks).takeWhile (· ≠ k) := by
  induction ks with
  | nil => rfl
  | cons j ks ih =>
      by_cases h : j = k
      · simp [order, h]
      · have hpass : ∀ a, (decide (a ≠ k)) = false → decide (a ≠ j) = true := by
          intro a ha
          have ha : a = k := by simpa using ha
          simpa [ha] using Ne.symm h
        rw [List.takeWhile_cons_of_pos (by simpa using h), order, order,
          List.takeWhile_cons_of_pos (by simpa using h), takeWhile_filter hpass, ih]

theorem length_later : (later k ks).length = ((order ks).takeWhile (· ≠ k)).length := by
  rw [later, ← length_order, order_takeWhile]

theorem mem_later : j ∈ later k ks ↔ j ∈ ks.takeWhile (· ≠ k) := List.mem_dedup

/-- The place of an element in a list without repeats. -/
theorem mem_take_iff {l : List κ} (hl : l.Nodup) (hk : k ∈ l) :
    k ∈ l.take n ↔ (l.takeWhile (· ≠ k)).length < n := by
  induction l generalizing n with
  | nil => simp at hk
  | cons a l ih =>
      obtain ⟨ha, hl⟩ := List.nodup_cons.mp hl
      cases n with
      | zero => simp
      | succ n =>
          by_cases h : a = k
          · simp [h]
          · have hk : k ∈ l := (List.mem_cons.mp hk).resolve_left (Ne.symm h)
            simp [h, Ne.symm h, ih hl hk]

/-- The keys used most recently are those that fewer keys were used after. -/
theorem mem_take_order (hk : k ∈ ks) : k ∈ (order ks).take n ↔ (later k ks).length < n := by
  rw [mem_take_iff nodup_order (mem_order.mpr hk), length_later]

/-- Where so many keys were used after one, so many are the most recent. -/
theorem length_take_order (h : n ≤ (later k ks).length) :
    ((order ks).take n).length = n := by
  rw [List.length_take]
  have hle : (later k ks).length ≤ (order ks).length := by
    rw [length_later]
    exact (List.takeWhile_sublist _).length_le
  omega

/-- Other uses leave no fewer keys after one. -/
theorem length_later_append_le (hk : k ∉ ls) :
    (later k ks).length ≤ (later k (ls ++ ks)).length := by
  have hall : ∀ j ∈ ls, (decide (j ≠ k)) = true := by
    intro j hj
    simpa using ne_of_mem_of_not_mem hj hk
  have hsubset : later k ks ⊆ later k (ls ++ ks) := by
    intro j hj
    rw [mem_later] at hj ⊢
    rw [List.takeWhile_append_of_pos hall]
    exact List.mem_append_right _ hj
  exact (List.Nodup.subperm (List.nodup_dedup _) hsubset).length_le

theorem length_takeWhile_append_le (l l' : List κ) :
    ((l ++ k :: l').takeWhile (· ≠ k)).length ≤ l.length := by
  induction l with
  | nil => simp
  | cons a l ih =>
      by_cases h : a = k
      · simp [h]
      · simpa [h] using ih

/-- Few keys stand after one that was just used. -/
theorem length_later_append_lt (hk : k ∈ ls) : (later k (ls ++ ks)).length < ls.length := by
  obtain ⟨before, after, rfl⟩ := List.append_of_mem hk
  have hle : (later k (before ++ k :: after ++ ks)).length ≤ before.length := by
    rw [later, List.append_assoc, List.cons_append]
    exact (List.dedup_sublist _).length_le.trans (length_takeWhile_append_le before _)
  rw [List.length_append, List.length_cons]
  omega

section Latest

variable {α : Type*} (key : α → κ)

/-- The latest use of a key. -/
def latest (k : κ) (uses : List α) : Option α := uses.find? (key · = k)

/-- What is used later is used after what was used last before it. -/
theorem rel_of_later {r : α → α → Prop} {uses : List α} (huses : uses.Pairwise r)
    {a b : α} (ha : latest key j uses = some a) (hb : latest key k uses = some b)
    (hj : j ∈ later k (uses.map key)) : r a b := by
  induction uses with
  | nil => simp [latest] at ha
  | cons u uses ih =>
      obtain ⟨hu, huses⟩ := List.pairwise_cons.mp huses
      rw [mem_later, List.map_cons] at hj
      by_cases hk : key u = k
      · simp [hk] at hj
      · have hb : latest key k uses = some b := by simpa [latest, hk] using hb
        have hmem : b ∈ uses := List.mem_of_find?_eq_some hb
        by_cases hju : key u = j
        · obtain rfl : u = a := by simpa [latest, hju] using ha
          exact hu b hmem
        · have ha : latest key j uses = some a := by simpa [latest, hju] using ha
          refine ih huses ha hb (mem_later.mpr ?_)
          simpa [hk, Ne.symm hju] using hj

/-- Of two keys, the one that fewer were used after was used later. -/
theorem mem_later_of_length_lt {uses : List κ} (hj : j ∈ uses)
    (h : (later j uses).length < (later k uses).length) : j ∈ later k uses := by
  have hjo : j ∈ (order uses).take (later k uses).length := (mem_take_order hj).mpr h
  rw [mem_later, ← mem_order, order_takeWhile]
  have htake : (order uses).take (later k uses).length = (order uses).takeWhile (· ≠ k) := by
    have hsplit := List.takeWhile_append_dropWhile (p := (decide <| · ≠ k)) (l := order uses)
    rw [length_later]
    exact (congrArg (List.take _) hsplit.symm).trans List.take_left
  exact htake ▸ hjo

end Latest

section Cut

variable {α : Type*} {r : α → α → Prop} [DecidableRel r] {l : List α} {x : α}

/-- What a cut of a sorted list drops: those that so many stand before. -/
theorem mem_drop_iff (hl : l.Pairwise r) (hasymm : ∀ a b, r a b → ¬ r b a) (hx : x ∈ l) :
    x ∈ l.drop n ↔ n ≤ l.countP (r · x) := by
  have hirrefl : ∀ a, ¬ r a a := fun a h => hasymm a a h h
  induction l generalizing n with
  | nil => simp at hx
  | cons a l ih =>
      obtain ⟨ha, hl⟩ := List.pairwise_cons.mp hl
      cases n with
      | zero => simpa using hx
      | succ n =>
          rw [List.drop_succ_cons, List.countP_cons]
          rcases List.mem_cons.mp hx with rfl | hx
          · have hnone : l.countP (r · x) = 0 :=
              List.countP_eq_zero.mpr fun b hb => by simpa using hasymm x b (ha b hb)
            have hnot : x ∉ l := fun h => hirrefl x (ha x h)
            have hdrop : x ∉ l.drop n := fun h => hnot (List.mem_of_mem_drop h)
            simp [hnone, hirrefl x, hdrop]
          · simp [ih hl hx, ha x hx]

end Cut

end Recency
