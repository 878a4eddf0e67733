import Mathlib.Data.List.Basic
import Mathlib.Data.List.Range
import Mathlib.Tactic.Linarith

/-!
# The event protocol

The envelopes of a user's event log and the frames of the event WebSocket, with payloads `ε` and
Bots `β`.
-/

namespace Bokkie

structure EventEnvelope (ε : Type) where
  seq : ℕ
  atTime : ℤ
  event : ε
deriving DecidableEq, Repr

/-- Envelopes numbered one after the other, the first one `first + 1`. -/
def Numbered {ε : Type} (first : ℕ) (l : List (EventEnvelope ε)) : Prop :=
  l.map (·.seq) = List.range' (first + 1) l.length

namespace Numbered

variable {ε : Type} {first : ℕ} {e : EventEnvelope ε} {l l' : List (EventEnvelope ε)}

@[simp] theorem nil (first : ℕ) : Numbered first ([] : List (EventEnvelope ε)) := rfl

theorem cons_iff : Numbered first (e :: l) ↔ e.seq = first + 1 ∧ Numbered (first + 1) l := by
  simp [Numbered, List.range'_succ]

theorem append (h : Numbered first l) (h' : Numbered (first + l.length) l') :
    Numbered first (l ++ l') := by
  unfold Numbered at h h' ⊢
  rw [List.map_append, h, h', List.length_append, ← List.range'_append_1]
  congr 2
  omega

theorem snoc (h : Numbered first l) (he : e.seq = first + l.length + 1) :
    Numbered first (l ++ [e]) :=
  h.append (cons_iff.mpr ⟨he, nil _⟩)

theorem of_append (h : Numbered first (l ++ l')) :
    Numbered first l ∧ Numbered (first + l.length) l' := by
  unfold Numbered at h ⊢
  rw [List.map_append, List.length_append, ← List.range'_append_1] at h
  obtain ⟨hl, hl'⟩ := List.append_inj h (by simp)
  exact ⟨hl, by rw [hl']; congr 1; omega⟩

theorem take (h : Numbered first l) (k : ℕ) : Numbered first (l.take k) := by
  rw [← List.take_append_drop k l] at h
  exact h.of_append.1

theorem drop (h : Numbered first l) {k : ℕ} (hk : k ≤ l.length) :
    Numbered (first + k) (l.drop k) := by
  rw [← List.take_append_drop k l] at h
  simpa [Nat.min_eq_left hk] using h.of_append.2

theorem getElem (h : Numbered first l) {i : ℕ} (hi : i < l.length) :
    l[i].seq = first + 1 + i := by
  have hlen : i < (l.map (·.seq)).length := by rwa [List.length_map]
  have hm : (l.map (·.seq))[i] = first + 1 + i := by
    simp only [show l.map (·.seq) = _ from h, List.getElem_range', Nat.one_mul]
  simpa using hm

theorem lt_of_mem (h : Numbered first l) (he : e ∈ l) :
    first < e.seq ∧ e.seq ≤ first + l.length := by
  obtain ⟨i, hi, rfl⟩ := List.mem_iff_getElem.mp he
  have := h.getElem hi
  omega

theorem pairwise (h : Numbered first l) : l.Pairwise fun a b => a.seq < b.seq := by
  rw [List.pairwise_iff_getElem]
  intro i j hi hj hij
  rw [h.getElem hi, h.getElem hj]
  omega

theorem nodup (h : Numbered first l) : l.Nodup :=
  h.pairwise.imp fun hlt heq => by simp [heq] at hlt

/-- Of numbered envelopes, those after `after` are the ones that come after it in the list. -/
theorem filter_lt (h : Numbered first l) (after : ℕ) :
    l.filter (fun e => after < e.seq) = l.drop (after - first) := by
  induction l generalizing first with
  | nil => simp
  | cons e l ih =>
      obtain ⟨he, hl⟩ := cons_iff.mp h
      by_cases hlt : after < e.seq
      · rw [List.filter_cons_of_pos (by simpa using hlt), ih hl,
          show after - (first + 1) = 0 by omega, show after - first = 0 by omega]
        rfl
      · rw [List.filter_cons_of_neg (by simpa using hlt), ih hl,
          show after - first = after - (first + 1) + 1 by omega, List.drop_succ_cons]

end Numbered

/-- A frame from the client. -/
inductive ClientFrame (β : Type) where
  | resume (after : Option ℕ)
  | ping
  | viewing (botId : Option β)
deriving DecidableEq, Repr

/-- A frame from the gateway. -/
inductive ServerFrame (ε : Type) where
  | reset (after : ℕ)
  | event (envelope : EventEnvelope ε)
  | live (latest : ℕ)
  | pong
deriving DecidableEq, Repr

end Bokkie
