import Mathlib.Data.List.DropRight
import Mathlib.Data.List.Pairwise
import Mathlib.Data.List.Sort

/-!
# Sliding windows

Times counted over a window that slides: which of them still count at a moment, a queue that drops
its front while that is too old, and what follows when a time is only added while fewer than a limit
still count: no window anywhere holds more than the limit.
-/

namespace SlidingWindow

variable {W now now' at' : ℤ} {limit : ℕ} {times all : List ℤ}

/-- The times that still count at `now`. -/
def live (W now : ℤ) (times : List ℤ) : List ℤ := times.filter fun t => now - t < W

/-- A queue without its front while that is too old. -/
def expire (W now : ℤ) (times : List ℤ) : List ℤ := times.dropWhile fun t => W ≤ now - t

theorem expire_eq_live (h : times.Pairwise (· ≤ ·)) : expire W now times = live W now times := by
  induction times with
  | nil => rfl
  | cons t times ih =>
      obtain ⟨ht, h⟩ := List.pairwise_cons.mp h
      by_cases hold : W ≤ now - t
      · have hlive : ¬ now - t < W := by omega
        rw [expire, List.dropWhile_cons_of_pos (by simpa using hold), live,
          List.filter_cons_of_neg (by simpa using hlive)]
        exact ih h
      · have hlive : ∀ u ∈ t :: times, now - u < W := by
          intro u hu
          rcases List.mem_cons.mp hu with rfl | hu
          · omega
          · have := ht u hu
            omega
        rw [expire, List.dropWhile_cons_of_neg (by simpa using hold), live,
          List.filter_eq_self.mpr (by simpa using hlive)]

theorem expire_expire : expire W now (expire W now times) = expire W now times :=
  List.dropWhile_idempotent _ _

/-- No window holds more than `limit` of the times. -/
def AtMost (limit : ℕ) (W : ℤ) (times : List ℤ) : Prop :=
  ∀ start, times.countP (fun t => start ≤ t ∧ t < start + W) ≤ limit

theorem AtMost.nil : AtMost limit W [] := fun _ => by simp

theorem AtMost.sublist (h : AtMost limit W all) (hsub : times.Sublist all) :
    AtMost limit W times :=
  fun start => (hsub.countP_le).trans (h start)

/-- A time added while fewer than `limit` still count. -/
theorem AtMost.push (h : AtMost limit W all)
    (hlen : (live W now all).length < limit) : AtMost limit W (all ++ [now]) := by
  intro start
  rw [List.countP_append, List.countP_singleton]
  by_cases hnow : start ≤ now ∧ now < start + W
  · -- whatever is in the window with `now` still counts at `now`
    have hlive : all.countP (fun t => start ≤ t ∧ t < start + W) ≤
        all.countP (fun t => now - t < W) := by
      refine List.countP_mono_left fun t ht hin => ?_
      simp only [decide_eq_true_eq] at hin ⊢
      omega
    rw [live, ← List.countP_eq_length_filter] at hlen
    simp only [hnow, and_self, decide_true, if_true]
    omega
  · simp only [hnow, decide_false, Bool.false_eq_true, if_false, Nat.add_zero]
    exact h start

/-- A queue holds the times that were counted, up to some too old to matter. -/
structure Tracks (W now : ℤ) (times all : List ℤ) : Prop where
  sorted : times.Pairwise (· ≤ ·)
  past : ∀ t ∈ all, t ≤ now
  recent : ∃ cutoff, cutoff + W ≤ now ∧ times.Perm (all.filter fun t => cutoff < t)

namespace Tracks

theorem nil : Tracks W now [] [] :=
  ⟨.nil, by simp, now - W, by omega, by simp⟩

theorem later (h : Tracks W now times all) (hle : now ≤ now') : Tracks W now' times all := by
  obtain ⟨cutoff, hcutoff, hperm⟩ := h.recent
  exact ⟨h.sorted, fun t ht => (h.past t ht).trans hle, cutoff, by omega, hperm⟩

theorem perm {all' : List ℤ} (h : Tracks W now times all) (hperm : all.Perm all') :
    Tracks W now times all' := by
  obtain ⟨cutoff, hcutoff, hrecent⟩ := h.recent
  exact ⟨h.sorted, fun t ht => h.past t (hperm.mem_iff.mpr ht), cutoff, hcutoff,
    hrecent.trans (hperm.filter _)⟩

theorem live_perm (h : Tracks W now times all) : (live W now times).Perm (live W now all) := by
  obtain ⟨cutoff, hcutoff, hperm⟩ := h.recent
  refine (hperm.filter _).trans ?_
  rw [List.filter_filter]
  refine List.Perm.of_eq (List.filter_congr fun t _ => ?_)
  rw [Bool.eq_iff_iff]
  simp only [Bool.and_eq_true, decide_eq_true_eq, and_iff_left_iff_imp]
  omega

theorem expire (h : Tracks W now times all) :
    Tracks W now (expire W now times) all ∧
      (SlidingWindow.expire W now times).length = (live W now all).length := by
  rw [expire_eq_live h.sorted]
  refine ⟨⟨h.sorted.filter _, h.past, now - W, by omega, h.live_perm.trans ?_⟩,
    h.live_perm.length_eq⟩
  refine List.Perm.of_eq (List.filter_congr fun t _ => ?_)
  rw [Bool.eq_iff_iff]
  simp only [decide_eq_true_eq]
  omega

/-- A queue of which nothing counts any more can go. -/
theorem drop (h : Tracks W now times all) (hold : ∀ t ∈ times.getLast?, W ≤ now - t) :
    Tracks W now [] all := by
  have hnone : SlidingWindow.expire W now times = [] := by
    rw [expire_eq_live h.sorted]
    refine List.filter_eq_nil_iff.mpr fun t ht => ?_
    have hne := List.ne_nil_of_mem ht
    have hlast := hold _ (List.getLast?_eq_some_getLast hne)
    have hle := h.sorted.rel_getLast ht
    simp only [decide_eq_true_eq]
    omega
  have := h.expire.1
  rwa [hnone] at this

theorem push (h : Tracks W now times all) (hW : 0 < W) :
    Tracks W now (times ++ [now]) (all ++ [now]) := by
  obtain ⟨cutoff, hcutoff, hperm⟩ := h.recent
  have hpast : ∀ t ∈ times, t ≤ now := fun t ht =>
    h.past t (List.mem_of_mem_filter (hperm.mem_iff.mp ht))
  refine ⟨?_, ?_, cutoff, hcutoff, ?_⟩
  · exact List.pairwise_append.mpr ⟨h.sorted, List.pairwise_singleton _ _, by simpa using hpast⟩
  · intro t ht
    rcases List.mem_append.mp ht with ht | ht
    · exact h.past t ht
    · exact (List.mem_singleton.mp ht).le
  · rw [List.filter_append, List.filter_cons_of_pos (by simp; omega), List.filter_nil]
    exact hperm.append_right _

theorem erase (h : Tracks W now times all) (t : ℤ) :
    Tracks W now (times.erase t) (all.erase t) := by
  obtain ⟨cutoff, hcutoff, hperm⟩ := h.recent
  exact ⟨h.sorted.sublist List.erase_sublist, fun u hu => h.past u (List.mem_of_mem_erase hu),
    cutoff, hcutoff, (hperm.erase t).trans (.of_eq List.erase_filter)⟩

end Tracks

/-- A queue and other times agree on what still counts. -/
structure Agree (W now : ℤ) (times others : List ℤ) : Prop where
  sorted : times.Pairwise (· ≤ ·)
  past : ∀ t ∈ times, t ≤ now
  live : (live W now times).Perm (live W now others)

section Agree

variable {others : List ℤ}

theorem live_live (hle : now ≤ now') : live W now' (live W now times) = live W now' times := by
  rw [live, live, List.filter_filter]
  refine List.filter_congr fun t _ => ?_
  rw [Bool.eq_iff_iff]
  simp only [Bool.and_eq_true, decide_eq_true_eq]
  omega

/-- Times that are too old can go. -/
theorem live_filter {cut : ℤ} (hcut : cut + W ≤ now) :
    live W now (times.filter (cut < ·)) = live W now times := by
  rw [live, live, List.filter_filter]
  refine List.filter_congr fun t _ => ?_
  rw [Bool.eq_iff_iff]
  simp only [Bool.and_eq_true, decide_eq_true_eq]
  omega

namespace Agree

theorem nil : Agree W now [] [] := ⟨.nil, by simp, .refl _⟩

theorem later (h : Agree W now times others) (hle : now ≤ now') : Agree W now' times others := by
  refine ⟨h.sorted, fun t ht => (h.past t ht).trans hle, ?_⟩
  have hlive : (SlidingWindow.live W now' (SlidingWindow.live W now times)).Perm
      (SlidingWindow.live W now' (SlidingWindow.live W now others)) := h.live.filter _
  rwa [live_live hle, live_live hle] at hlive

theorem perm {others' : List ℤ} (h : Agree W now times others) (hperm : others.Perm others') :
    Agree W now times others' :=
  ⟨h.sorted, h.past, h.live.trans (hperm.filter _)⟩

theorem expire (h : Agree W now times others) :
    Agree W now (SlidingWindow.expire W now times) others := by
  rw [expire_eq_live h.sorted]
  refine ⟨h.sorted.filter _, fun t ht => h.past t (List.mem_of_mem_filter ht), ?_⟩
  rw [live_live (le_refl now)]
  exact h.live

theorem length_expire (h : Agree W now times others) :
    (SlidingWindow.expire W now times).length = (SlidingWindow.live W now others).length := by
  rw [expire_eq_live h.sorted]
  exact h.live.length_eq

/-- The other times can lose what is too old. -/
theorem prune {cut : ℤ} (h : Agree W now times others) (hcut : cut + W ≤ now) :
    Agree W now times (others.filter (cut < ·)) := by
  refine ⟨h.sorted, h.past, ?_⟩
  rw [live_filter hcut]
  exact h.live

/-- A queue of which nothing counts any more can go. -/
theorem drop (h : Agree W now times others) (hnone : SlidingWindow.live W now times = []) :
    Agree W now [] others :=
  ⟨.nil, by simp, (List.Perm.of_eq hnone.symm).trans h.live⟩

theorem push (h : Agree W now times others) : Agree W now (times ++ [now]) (others ++ [now]) := by
  refine ⟨?_, ?_, ?_⟩
  · exact List.pairwise_append.mpr ⟨h.sorted, List.pairwise_singleton _ _, by simpa using h.past⟩
  · intro t ht
    rcases List.mem_append.mp ht with ht | ht
    · exact h.past t ht
    · exact (List.mem_singleton.mp ht).le
  · rw [SlidingWindow.live, SlidingWindow.live, List.filter_append, List.filter_append]
    exact h.live.append_right _

theorem erase (h : Agree W now times others) (t : ℤ) :
    Agree W now (times.erase t) (others.erase t) := by
  refine ⟨h.sorted.sublist List.erase_sublist, fun u hu => h.past u (List.mem_of_mem_erase hu), ?_⟩
  have herase := h.live.erase t
  rwa [SlidingWindow.live, SlidingWindow.live, List.erase_filter, List.erase_filter] at herase

end Agree

end Agree

end SlidingWindow
