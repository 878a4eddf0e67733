import Bokkie.ClientStore
import Bokkie.MessageHistory

/-!
# A client's copy of one message

The client's copy of a message, read after `r` changes and brought up to the first `q` events, is
the gateway's message after whichever is later. One event keeps it so, whether or not the copy is
ahead of the event.
-/

namespace Bokkie

variable {δ : Type} {H : History δ} {bot q r i : ℕ} {m : Message δ}

/-- The client's copy shows the gateway's message. A message still streaming may show an older
time of change, which deltas do not carry. -/
def Message.Agrees (m g : Message δ) : Prop :=
  { m with updatedAt := g.updatedAt } = g ∧ (g.state ≠ .streaming → m = g)

namespace Message.Agrees

variable {g : Message δ}

theorem refl (m : Message δ) : m.Agrees m := ⟨rfl, fun _ => rfl⟩

theorem state (h : m.Agrees g) : m.state = g.state := by rw [← h.1]

theorem text (h : m.Agrees g) : m.text = g.text := by rw [← h.1]

theorem append (h : m.Agrees g) (hs : g.state = .streaming) (delta : List Char) (now : ℤ) :
    { m with text := m.text ++ delta }.Agrees { g with text := g.text ++ delta, updatedAt := now } := by
  refine ⟨?_, fun hn => absurd hs hn⟩
  rw [← h.1]

end Message.Agrees

/-- The copy `m` of message `i` stands at the later of `q` events and the `r` changes it was read
after. What it shows matters for messages of the conversation's own Bot only. -/
def Tracks (H : History δ) (bot q i : ℕ) (m : Message δ) (r : ℕ) : Prop :=
  ∃ g, (H.table (max q r))[i]? = some g ∧ g.botId = m.botId ∧ (m.botId = bot → m.Agrees g)

theorem tracks_of_table (h : (H.table (max q r))[i]? = some m) : Tracks H bot q i m r :=
  ⟨m, h, rfl, fun _ => Message.Agrees.refl m⟩

/-- An event about another message, or one the copy was read after, leaves the copy as it is; so
does any event if the copy is of another Bot's message. -/
theorem Tracks.advance (hH : H.Valid) (h : Tracks H bot q i m r) (hq : q < H.changes.length)
    (hcase : (H.changes[q]).envelope.event.messageId ≠ some i ∨ q < r ∨ m.botId ≠ bot) :
    Tracks H bot (q + 1) i m r := by
  obtain ⟨g, hg, hbot, hagrees⟩ := h
  rcases Nat.lt_or_ge q r with hlt | hge
  · refine ⟨g, ?_, hbot, hagrees⟩
    rwa [Nat.max_eq_right hlt, ← Nat.max_eq_right hlt.le]
  · rw [Nat.max_eq_left hge] at hg
    rcases hcase with hne | hlt | hother
    · refine ⟨g, ?_, hbot, hagrees⟩
      rw [Nat.max_eq_left (by omega), History.table_succ_of_ne hq hne, hg]
    · omega
    · obtain ⟨g', hg', hgrows⟩ := History.grows_succ hH hg
      refine ⟨g', ?_, hgrows.botId.trans hbot, fun h => absurd h hother⟩
      rwa [Nat.max_eq_left (by omega)]

theorem table_delta {b offset : ℕ} {delta : List Char} {g : Message δ}
    (hq : q < H.changes.length)
    (hevent : (H.changes[q]).envelope.event = .messageDelta b i offset delta)
    (hg : (H.table q)[i]? = some g) :
    (g.state ≠ .streaming → (H.table (q + 1))[i]? = some g) ∧
    (g.state = .streaming → (H.table (q + 1))[i]? =
      some { g with text := g.text ++ delta, updatedAt := (H.changes[q]).now }) := by
  rw [History.table_succ hq, Table.apply, hevent]
  constructor
  · intro hs
    dsimp only
    rw [Table.appendText_of_not_streaming (by simpa [hg] using hs), hg]
  · exact Table.appendText_self hg

/-- A delta brings the copy up to it, whether the copy holds none, part or all of it. -/
theorem Tracks.delta (hH : H.Valid) (h : Tracks H bot q i m r) (hown : m.botId = bot)
    {b offset : ℕ} {delta : List Char} (hq : q < H.changes.length)
    (hevent : (H.changes[q]).envelope.event = .messageDelta b i offset delta) :
    ∃ m' changed, m.appendDelta offset delta = some (m', changed) ∧
      Tracks H bot (q + 1) i m' r := by
  obtain ⟨g, hg, hbot, hagrees⟩ := h
  have hallows := hH q hq
  unfold Table.Allows at hallows
  rw [hevent] at hallows
  obtain ⟨m₀, hm₀, -, hoffset⟩ := hallows
  have hnext := table_delta hq hevent hm₀
  have hag := hagrees hown
  by_cases hs : m.state = .streaming
  swap
  · -- A message that no longer streams takes no deltas.
    refine ⟨m, false, by simp [Message.appendDelta, hs], ?_⟩
    rcases Nat.lt_or_ge q r with hlt | hge
    · exact Tracks.advance hH ⟨g, hg, hbot, hagrees⟩ hq (.inr (.inl hlt))
    · rw [Nat.max_eq_left hge, hm₀] at hg
      obtain rfl := Option.some.inj hg
      refine ⟨m₀, ?_, hbot, hagrees⟩
      rw [Nat.max_eq_left (by omega)]
      exact hnext.1 (hag.state ▸ hs)
  rcases Nat.lt_or_ge q r with hlt | hge
  · -- The copy was read after the delta, so its text holds it.
    have hg' := hg
    rw [Nat.max_eq_right hlt.le] at hg'
    obtain ⟨g₁, hg₁, hgrows₀⟩ := History.grows_succ hH hm₀
    obtain ⟨g₂, hg₂, hgrows₁⟩ := History.grows hH hlt hg₁
    obtain rfl : g = g₂ := Option.some.inj (hg'.symm.trans hg₂)
    have hgs : g.state = .streaming := hag.state ▸ hs
    obtain ⟨hg₁s, hprefix⟩ := hgrows₁.streaming hgs
    have hm₀s := (hgrows₀.streaming hg₁s).1
    rw [hnext.2 hm₀s] at hg₁
    obtain rfl := Option.some.inj hg₁
    have hlen := hprefix.length_le
    simp only [List.length_append, ← hag.text, ← hoffset hm₀s] at hlen
    have hdrop : delta.drop (m.text.length - offset) = [] :=
      List.drop_eq_nil_of_le (by omega)
    refine ⟨m, false, ?_, Tracks.advance hH ⟨g, hg, hbot, hagrees⟩ hq (.inr (.inl hlt))⟩
    rw [Message.appendDelta, if_neg (by simp [hs]), if_neg (by omega)]
    simp [hdrop]
  · -- The copy stands just before the delta, which starts where its text ends.
    rw [Nat.max_eq_left hge, hm₀] at hg
    obtain rfl := Option.some.inj hg
    have hgs : m₀.state = .streaming := hag.state ▸ hs
    have hlen : offset = m.text.length := by rw [hoffset hgs, hag.text]
    refine ⟨{ m with text := m.text ++ delta }, !delta.isEmpty, ?_, ?_⟩
    · simp [Message.appendDelta, hs, hlen]
    · have hmax : max (q + 1) r = q + 1 := Nat.max_eq_left (by omega)
      refine ⟨{ m₀ with text := m₀.text ++ delta, updatedAt := (H.changes[q]).now }, ?_, hbot,
        fun _ => hag.append hgs delta (H.changes[q]).now⟩
      rw [hmax, hnext.2 hgs]

theorem appendDelta_botId {m' : Message δ} {offset : ℕ} {delta : List Char} {changed : Bool}
    (h : m.appendDelta offset delta = some (m', changed)) : m'.botId = m.botId := by
  unfold Message.appendDelta at h
  split at h
  · cases h; rfl
  · split at h
    · cases h
    · cases h; rfl

/-- A delta on a copy of another Bot's message changes nothing that matters. -/
theorem Tracks.delta_other (hH : H.Valid) (h : Tracks H bot q i m r) (hother : m.botId ≠ bot)
    (hq : q < H.changes.length) {m' : Message δ} {offset : ℕ} {delta : List Char}
    {changed : Bool} (hm' : m.appendDelta offset delta = some (m', changed)) :
    Tracks H bot (q + 1) i m' r := by
  obtain ⟨g, hg, hbot, -⟩ := h.advance hH hq (.inr (.inr hother))
  have hsame := appendDelta_botId hm'
  exact ⟨g, hg, hbot.trans hsame.symm, fun hown => absurd (hsame ▸ hown) hother⟩

/-- A copy of the conversation's own Bot held before its creation is delivered is ahead of it. -/
theorem Tracks.created (hH : H.Valid) {message : Message δ}
    (h : Tracks H bot q message.id m r) (hown : m.botId = bot) (hq : q < H.changes.length)
    (hevent : (H.changes[q]).envelope.event = .messageCreated message) :
    q < r ∧ (m.state ≠ .streaming || message.text.isPrefixOf m.text) = true := by
  obtain ⟨g, hg, -, hagrees⟩ := h
  have hallows := hH q hq
  unfold Table.Allows at hallows
  rw [hevent] at hallows
  have hnew : (H.table (q + 1))[message.id]? = some message := by
    rw [History.table_succ hq, Table.apply, hevent]
    simp
  rcases Nat.lt_or_ge q r with hlt | hge
  · rw [Nat.max_eq_right hlt.le] at hg
    obtain ⟨g', hg', hgrows⟩ := History.grows hH hlt hnew
    obtain rfl : g = g' := Option.some.inj (hg.symm.trans hg')
    have hag := hagrees hown
    refine ⟨hlt, ?_⟩
    by_cases hs : m.state = .streaming
    · have hprefix := (hgrows.streaming (hag.state ▸ hs)).2
      simpa [hs, hag.text] using hprefix
    · simp [hs]
  · rw [Nat.max_eq_left hge, hallows] at hg
    cases hg

/-- The message that an event carries whole is the gateway's after it. -/
theorem table_succ_of_whole {message : Message δ} (hq : q < H.changes.length)
    (hevent : (H.changes[q]).envelope.event = .messageCreated message ∨
      (H.changes[q]).envelope.event = .messageCompleted message) :
    (H.table (q + 1))[message.id]? = some message := by
  rw [History.table_succ hq, Table.apply]
  rcases hevent with h | h <;> rw [h] <;> simp

theorem tracks_whole {message : Message δ} (hq : q < H.changes.length)
    (hevent : (H.changes[q]).envelope.event = .messageCreated message ∨
      (H.changes[q]).envelope.event = .messageCompleted message) (hr : r ≤ q) :
    Tracks H bot (q + 1) message.id message r := by
  apply tracks_of_table
  rw [Nat.max_eq_left (by omega)]
  exact table_succ_of_whole hq hevent

end Bokkie
