import Bokkie.ConversationCopy

/-!
# Pages and the events held for them

The events held for a page are a stretch of the history. Replayed onto a newest page they bring
its copy up to date; replayed onto an older page they bring its messages to where the copy stands.
-/

namespace Bokkie

variable {δ : Type} {H : History δ} {bot q r R i p : ℕ} {c : Conversation δ}

namespace History

/-- The events after the first `a`, up to the first `b`. -/
def window (H : History δ) (a b : ℕ) : List (EventEnvelope (Event δ)) := (H.events.take b).drop a

theorem window_of_le {a b : ℕ} (h : b ≤ a) : H.window a b = [] := by
  apply List.drop_eq_nil_of_le
  rw [List.length_take]
  omega

theorem window_succ {a b : ℕ} (hab : a ≤ b) (hb : b < H.changes.length) :
    H.window a (b + 1) = H.window a b ++ [(H.changes[b]).envelope] := by
  have hb' : b < H.events.length := by simpa [events] using hb
  have hlen : a ≤ (H.events.take b).length := by
    rw [List.length_take]
    omega
  unfold window
  rw [← List.take_append_getElem hb', List.drop_append_of_le_length hlen]
  simp [events]

theorem window_cons {a b : ℕ} (hab : a < b) (ha : a < H.changes.length) :
    H.window a b = (H.changes[a]).envelope :: H.window (a + 1) b := by
  unfold window
  have hlt : a < (H.events.take b).length := by
    simp only [events, List.length_take, List.length_map]
    omega
  rw [List.drop_eq_getElem_cons hlt]
  simp [events]

theorem window_filter {a b : ℕ} (hab : a ≤ b) (hb : b ≤ H.changes.length) {s : ℕ} (hs : a ≤ s) :
    (H.window a b).filter (fun e => e.seq > s) = H.window s b := by
  have hlen : a ≤ (H.events.take b).length := by simp [events, hab, hb]
  have hnum := (H.numbered.take b).drop hlen
  have hfilter := hnum.filter_lt s
  rw [Nat.zero_add, List.drop_drop, Nat.add_sub_cancel' hs] at hfilter
  exact hfilter

theorem window_filter_max {a b : ℕ} (hab : a ≤ b) (hb : b ≤ H.changes.length) (s : ℕ) :
    (H.window a b).filter (fun e => e.seq > s) = H.window (max a s) b := by
  rcases Nat.le_total a s with has | hsa
  · rw [Nat.max_eq_right has, window_filter hab hb has]
  · rw [Nat.max_eq_left hsa, ← window_filter hab hb (le_refl a), List.filter_filter]
    refine List.filter_congr fun e _ => ?_
    rw [Bool.eq_iff_iff]
    simp only [Bool.and_eq_true, decide_eq_true_eq]
    omega

theorem seq_getElem {n : ℕ} (hn : n < H.changes.length) :
    (H.changes[n]).envelope.seq = n + 1 := by
  have hlen : n < (H.changes.map (·.envelope)).length := by simpa using hn
  have h := H.numbered.getElem hlen
  rw [List.getElem_map] at h
  omega

end History

theorem Follows.mono {R' : ℕ} (h : Follows H bot q R c) (hR : R ≤ R') : Follows H bot q R' c where
  seq_le := h.seq_le.trans hR
  held i m hm := by
    obtain ⟨r, hseq, hr, htracks⟩ := h.held i m hm
    exact ⟨r, hseq, hr.trans hR, htracks⟩
  fromCursor := h.fromCursor
  sinceSeq := h.sinceSeq

/-- What was asked for does not matter to what a copy holds. -/
theorem Follows.request (h : Follows H bot q R c) (x : Option ℕ) :
    Follows H bot q R { c with requestedOlder := x } :=
  ⟨h.seq_le, h.held, h.fromCursor, h.sinceSeq⟩

/-- A copy takes an event if its page does not cover it. -/
def Conversation.take [DecidableEq δ] (c : Conversation δ) (bot : ℕ)
    (envelope : EventEnvelope (Event δ)) : Conversation δ :=
  if envelope.seq ≤ c.seq then c else (c.apply bot envelope.event).1

section Take

variable [DecidableEq δ]

theorem apply_frame (c : Conversation δ) (bot : ℕ) (event : Event δ) :
    (c.apply bot event).1.seq = c.seq ∧ (c.apply bot event).1.older = c.older ∧
      (c.apply bot event).1.requestedOlder = c.requestedOlder := by
  unfold Conversation.apply
  split
  · dsimp only
    split <;> exact ⟨rfl, rfl, rfl⟩
  · split
    · exact ⟨rfl, rfl, rfl⟩
    · split <;> exact ⟨rfl, rfl, rfl⟩
  · exact ⟨rfl, rfl, rfl⟩
  · exact ⟨rfl, rfl, rfl⟩

theorem take_frame (c : Conversation δ) (bot : ℕ) (envelope : EventEnvelope (Event δ)) :
    (c.take bot envelope).seq = c.seq ∧ (c.take bot envelope).older = c.older ∧
      (c.take bot envelope).requestedOlder = c.requestedOlder := by
  unfold Conversation.take
  split
  · exact ⟨rfl, rfl, rfl⟩
  · exact apply_frame c bot _

theorem foldl_take_frame (c : Conversation δ) (bot : ℕ) (l : List (EventEnvelope (Event δ))) :
    (l.foldl (·.take bot ·) c).seq = c.seq ∧ (l.foldl (·.take bot ·) c).older = c.older ∧
      (l.foldl (·.take bot ·) c).requestedOlder = c.requestedOlder := by
  induction l generalizing c with
  | nil => exact ⟨rfl, rfl, rfl⟩
  | cons e l ih =>
      obtain ⟨hseq, holder, hreq⟩ := ih (c.take bot e)
      obtain ⟨hseq', holder', hreq'⟩ := take_frame c bot e
      exact ⟨hseq.trans hseq', holder.trans holder', hreq.trans hreq'⟩

theorem Follows.take (hH : H.Valid) (h : Follows H bot q R c) (hq : q < H.changes.length) :
    Follows H bot (q + 1) R (c.take bot (H.changes[q]).envelope) := by
  unfold Conversation.take
  rw [History.seq_getElem hq]
  split
  · next hle => exact h.advance hH hq (.inr (by omega))
  · exact h.apply hH hq (by omega)

/-- The held events bring a copy from where its page was read to the position. -/
theorem Follows.replay (hH : H.Valid) {s : ℕ} (h : Follows H bot s R c) (hsp : s ≤ p)
    (hp : p ≤ H.changes.length) :
    Follows H bot p R ((H.window s p).foldl (·.take bot ·) c) := by
  induction p, hsp using Nat.le_induction with
  | base => rwa [History.window_of_le le_rfl]
  | succ p hsp ih =>
      rw [History.window_succ hsp hp, List.foldl_append]
      exact (ih (by omega)).take hH hp

end Take

section NewestPage

variable {s r limit : ℕ}

/-- The copy that a newest page starts. -/
def Conversation.ofPage (page : MessagePage δ) : Conversation δ :=
  ⟨page.seq, IdMap.collect (·.id) page.messages, page.older, none⟩

/-- The copy of a page with `seq` read as `s` and the table after `r` changes. -/
def pageCopy (H : History δ) (bot s r limit : ℕ) : Conversation δ :=
  let rows := (H.table r).messages bot none limit
  Conversation.ofPage ⟨rows.1, rows.2, s⟩

theorem follows_page (hH : H.Valid) (hq : q ≤ s) (hsr : s ≤ r) :
    Follows H bot q r (pageCopy H bot s r limit) where
  seq_le := hsr
  held i m hm := by
    obtain ⟨hmem, hid⟩ := IdMap.mem_of_collect hm
    obtain ⟨hget, -, -⟩ := Table.mem_messages (H.table_keyed r) hmem
    refine ⟨r, hsr, le_rfl, tracks_of_table ?_⟩
    rw [Nat.max_eq_right (hq.trans hsr), ← hget]
    exact congrArg (fun j : ℕ => (H.table r)[j]?) hid.symm
  fromCursor i g hg hown hcursor := by
    change (H.table (max q s))[i]? = some g at hg
    rw [Nat.max_eq_right hq] at hg
    obtain ⟨g', hg', hgrows⟩ := History.grows hH hsr hg
    have hmem := Table.messages_complete none limit (H.table_keyed r) hg'
      (hgrows.botId.trans hown) (by simp) hcursor
    obtain ⟨m, -, hm⟩ := IdMap.collect_of_mem (fun m : Message δ => m.id) hmem
    exact ⟨m, by rwa [H.table_keyed r i g' hg'] at hm⟩
  sinceSeq i g hg hown hnone := by
    obtain ⟨g', hg', -⟩ := History.grows hH hq hg
    change (H.table s)[i]? = none at hnone
    rw [hnone] at hg'
    cases hg'

/-- A newest page with the held events after it. -/
theorem follows_pageReplay [DecidableEq δ] (hH : H.Valid) {h₀ : ℕ} (hh₀ : h₀ ≤ s) (hh₀p : h₀ ≤ p)
    (hsr : s ≤ r) (hp : p ≤ H.changes.length) :
    Follows H bot p r (((H.window h₀ p).filter fun e => e.seq > s).foldl (·.take bot ·)
      (pageCopy H bot s r limit)) := by
  rw [History.window_filter hh₀p hp hh₀]
  rcases Nat.le_total s p with hsp | hps
  · exact (follows_page hH le_rfl hsr).replay hH hsp hp
  · rw [History.window_of_le hps]
    exact follows_page hH hps hsr

end NewestPage

end Bokkie
