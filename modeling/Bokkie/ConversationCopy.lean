import Bokkie.MessageTracking

/-!
# A client's copy of one conversation

A copy loaded from a page and brought up to the first `q` events follows the gateway: what it
holds tracks the gateway's messages, and it lacks none from its older cursor on.
-/

namespace Bokkie

variable {δ : Type} {H : History δ} {bot q r R i : ℕ} {c c' : Conversation δ}

/-- The copy follows the gateway up to the first `q` events, from pages that reflect at most the
first `R` changes. -/
structure Follows (H : History δ) (bot q R : ℕ) (c : Conversation δ) : Prop where
  seq_le : c.seq ≤ R
  held : ∀ (i : ℕ) m, c.messages[i]? = some m → ∃ r, c.seq ≤ r ∧ r ≤ R ∧ Tracks H bot q i m r
  /-- Nothing is missing from the cursor on. -/
  fromCursor : ∀ (i : ℕ) g, (H.table (max q c.seq))[i]? = some g → g.botId = bot →
    (∀ cursor, c.older = some cursor → cursor ≤ i) → ∃ m, c.messages[i]? = some m
  /-- Nothing created since the page is missing, even before the cursor. -/
  sinceSeq : ∀ (i : ℕ) g, (H.table q)[i]? = some g → g.botId = bot →
    (H.table c.seq)[i]? = none → ∃ m, c.messages[i]? = some m

section Event

/-- A message the table holds after a change was there before, unless the change created it. -/
theorem table_pred (hH : H.Valid) (hq : q < H.changes.length) {g : Message δ}
    (hg : (H.table (q + 1))[i]? = some g) :
    (∃ g₀, (H.table q)[i]? = some g₀ ∧ g₀.botId = g.botId) ∨
      ∃ message, (H.changes[q]).envelope.event = .messageCreated message ∧ message.id = i := by
  cases hg₀ : (H.table q)[i]? with
  | some g₀ =>
      obtain ⟨g', hg', hgrows⟩ := History.grows_succ hH hg₀
      obtain rfl : g = g' := Option.some.inj (hg.symm.trans hg')
      exact .inl ⟨g₀, rfl, hgrows.botId.symm⟩
  | none =>
      right
      have hid : (H.changes[q]).envelope.event.messageId = some i := by
        by_contra hne
        rw [History.table_succ_of_ne hq hne, hg₀] at hg
        cases hg
      have hallows := hH q hq
      unfold Table.Allows at hallows
      cases hevent : (H.changes[q]).envelope.event with
      | messageCreated message =>
          rw [hevent] at hid
          exact ⟨message, rfl, Option.some.inj hid⟩
      | messageDelta b id offset delta =>
          rw [hevent] at hid hallows
          obtain rfl : id = i := Option.some.inj hid
          obtain ⟨m, hm, -⟩ := hallows
          rw [hg₀] at hm
          cases hm
      | messageCompleted message =>
          rw [hevent] at hid hallows
          obtain rfl : message.id = i := Option.some.inj hid
          obtain ⟨m, hm, -⟩ := hallows
          rw [hg₀] at hm
          cases hm
      | _ => rw [hevent] at hid; cases hid

/-- An event names the Bot of the message it is about. -/
theorem event_bot (hH : H.Valid) (hq : q < H.changes.length)
    (hid : (H.changes[q]).envelope.event.messageId = some i) {g : Message δ}
    (hg : (H.table (q + 1))[i]? = some g) :
    (H.changes[q]).envelope.event.messageBot = some g.botId := by
  have hallows := hH q hq
  unfold Table.Allows at hallows
  cases hevent : (H.changes[q]).envelope.event with
  | messageCreated message =>
      rw [hevent] at hid
      obtain rfl : message.id = i := Option.some.inj hid
      rw [table_succ_of_whole hq (.inl hevent)] at hg
      cases hg
      rfl
  | messageDelta b id offset delta =>
      rw [hevent] at hid hallows
      obtain rfl : id = i := Option.some.inj hid
      obtain ⟨m, hm, hbot, -⟩ := hallows
      obtain ⟨g', hg', hgrows⟩ := History.grows_succ hH hm
      obtain rfl : g = g' := Option.some.inj (hg.symm.trans hg')
      exact congrArg some (hbot.symm.trans hgrows.botId.symm)
  | messageCompleted message =>
      rw [hevent] at hid
      obtain rfl : message.id = i := Option.some.inj hid
      rw [table_succ_of_whole hq (.inr hevent)] at hg
      cases hg
      rfl
  | _ => rw [hevent] at hid; cases hid

end Event

namespace Follows

/-- An event that is not applied: it is about another Bot, or the page covers it. -/
theorem advance (hH : H.Valid) (h : Follows H bot q R c) (hq : q < H.changes.length)
    (hcase : (H.changes[q]).envelope.event.messageBot ≠ some bot ∨ q < c.seq) :
    Follows H bot (q + 1) R c where
  seq_le := h.seq_le
  held i m hm := by
    obtain ⟨r, hseq, hR, htracks⟩ := h.held i m hm
    refine ⟨r, hseq, hR, htracks.advance hH hq ?_⟩
    rcases hcase with hbot | hlt
    · by_cases hown : m.botId = bot
      · by_cases hid : (H.changes[q]).envelope.event.messageId = some i
        · right; left
          by_contra hge
          obtain ⟨g, hg, hgbot, -⟩ := htracks
          rw [Nat.max_eq_left (by omega)] at hg
          obtain ⟨g', hg', hgrows⟩ := History.grows_succ hH hg
          apply hbot
          rw [event_bot hH hq hid hg', hgrows.botId, hgbot, hown]
        · exact .inl hid
      · exact .inr (.inr hown)
    · exact .inr (.inl (lt_of_lt_of_le hlt hseq))
  fromCursor i g hg hown hcursor := by
    rcases Nat.lt_or_ge q c.seq with hlt | hge
    · refine h.fromCursor i g ?_ hown hcursor
      rwa [Nat.max_eq_right hlt.le, ← Nat.max_eq_right hlt]
    · rw [Nat.max_eq_left (by omega)] at hg
      have hbot := hcase.resolve_right (by omega)
      have hid : (H.changes[q]).envelope.event.messageId ≠ some i := fun hid =>
        hbot (by rw [event_bot hH hq hid hg, hown])
      rw [History.table_succ_of_ne hq hid] at hg
      exact h.fromCursor i g (by rwa [Nat.max_eq_left hge]) hown hcursor
  sinceSeq i g hg hown hnone := by
    rcases Nat.lt_or_ge q c.seq with hlt | hge
    · obtain ⟨g', hg', -⟩ := History.grows hH (Nat.succ_le_of_lt hlt) hg
      rw [hnone] at hg'
      cases hg'
    · have hbot := hcase.resolve_right (by omega)
      have hid : (H.changes[q]).envelope.event.messageId ≠ some i := fun hid =>
        hbot (by rw [event_bot hH hq hid hg, hown])
      rw [History.table_succ_of_ne hq hid] at hg
      exact h.sinceSeq i g hg hown hnone

/-- What an applied event owes: it keeps every message, adds the one it creates, and what is held
then tracks the gateway one event on. -/
theorem next (hH : H.Valid) (h : Follows H bot q R c) (hq : q < H.changes.length)
    (hseq : c.seq ≤ q) (hseq' : c'.seq = c.seq) (holder : c'.older = c.older)
    (hkeys : ∀ (i : ℕ) m, c.messages[i]? = some m → ∃ m', c'.messages[i]? = some m')
    (hnew : ∀ message, (H.changes[q]).envelope.event = .messageCreated message →
      ∃ m', c'.messages[message.id]? = some m')
    (hheld : ∀ (i : ℕ) m, c'.messages[i]? = some m →
      ∃ r, c.seq ≤ r ∧ r ≤ R ∧ Tracks H bot (q + 1) i m r) :
    Follows H bot (q + 1) R c' where
  seq_le := hseq' ▸ h.seq_le
  held := hseq' ▸ hheld
  fromCursor i g hg hown hcursor := by
    rw [hseq', Nat.max_eq_left (by omega)] at hg
    rcases table_pred hH hq hg with ⟨g₀, hg₀, hbot⟩ | ⟨message, hevent, rfl⟩
    · obtain ⟨m, hm⟩ := h.fromCursor i g₀ (by rwa [Nat.max_eq_left hseq]) (hbot.trans hown)
        (holder ▸ hcursor)
      exact hkeys i m hm
    · exact hnew message hevent
  sinceSeq i g hg hown hnone := by
    rcases table_pred hH hq hg with ⟨g₀, hg₀, hbot⟩ | ⟨message, hevent, rfl⟩
    · obtain ⟨m, hm⟩ := h.sinceSeq i g₀ hg₀ (hbot.trans hown) (hseq' ▸ hnone)
      exact hkeys i m hm
    · exact hnew message hevent

/-- A message that is not the event's keeps tracking. -/
theorem held_of_ne (hH : H.Valid) (h : Follows H bot q R c) (hq : q < H.changes.length)
    {m : Message δ} (hm : c.messages[i]? = some m)
    (hne : (H.changes[q]).envelope.event.messageId ≠ some i) :
    ∃ r, c.seq ≤ r ∧ r ≤ R ∧ Tracks H bot (q + 1) i m r := by
  obtain ⟨r, hseq, hR, htracks⟩ := h.held i m hm
  exact ⟨r, hseq, hR, htracks.advance hH hq (.inl hne)⟩

/-- A message that the event carries whole is put in. -/
theorem insertWhole (hH : H.Valid) (h : Follows H bot q R c) (hq : q < H.changes.length)
    (hseq : c.seq ≤ q) {message : Message δ}
    (hevent : (H.changes[q]).envelope.event = .messageCreated message ∨
      (H.changes[q]).envelope.event = .messageCompleted message) :
    Follows H bot (q + 1) R { c with messages := c.messages.insert message.id message } := by
  refine h.next hH hq hseq rfl rfl (fun i m hm => ?_) (fun message' hevent' => ?_)
    fun i m hm => ?_
  · by_cases hi : message.id = i
    · exact ⟨message, by simp [hi]⟩
    · exact ⟨m, by simp [hi, hm]⟩
  · rcases hevent with hc | hc
    · rw [hevent'] at hc
      cases hc
      exact ⟨message, by simp⟩
    · rw [hevent'] at hc
      cases hc
  · by_cases hi : message.id = i
    · subst hi
      obtain rfl : message = m := by simpa using hm
      exact ⟨c.seq, le_rfl, h.seq_le, tracks_whole hq hevent hseq⟩
    · refine h.held_of_ne hH hq (by simpa [hi] using hm) ?_
      rcases hevent with hc | hc <;> rw [hc] <;> simpa [Event.messageId] using hi

theorem apply_created [DecidableEq δ] (hH : H.Valid) (h : Follows H bot q R c)
    (hq : q < H.changes.length) (hseq : c.seq ≤ q) {message : Message δ}
    (hevent : (H.changes[q]).envelope.event = .messageCreated message) :
    Follows H bot (q + 1) R (c.apply bot (.messageCreated message)).1 := by
  simp only [Conversation.apply]
  split
  · next hahead =>
      obtain ⟨m₀, hm₀⟩ : ∃ m₀, c.messages[message.id]? = some m₀ := by
        cases hget : c.messages[message.id]? with
        | none => simp [hget] at hahead
        | some m₀ => exact ⟨m₀, rfl⟩
      refine h.next hH hq hseq rfl rfl (fun i m hm => ⟨m, hm⟩) (fun message' hevent' => ?_)
        fun i m hm => ?_
      · rw [hevent] at hevent'
        cases hevent'
        exact ⟨m₀, hm₀⟩
      · obtain ⟨r, hr, hR, htracks⟩ := h.held i m hm
        refine ⟨r, hr, hR, htracks.advance hH hq ?_⟩
        by_cases hi : message.id = i
        · subst hi
          by_cases hown : m.botId = bot
          · exact .inr (.inl (htracks.created hH hown hq hevent).1)
          · exact .inr (.inr hown)
        · rw [hevent]
          exact .inl (by simpa [Event.messageId] using hi)
  · exact h.insertWhole hH hq hseq (.inl hevent)

theorem apply_delta [DecidableEq δ] (hH : H.Valid) (h : Follows H bot q R c)
    (hq : q < H.changes.length) (hseq : c.seq ≤ q) {b id offset : ℕ} {delta : List Char}
    (hevent : (H.changes[q]).envelope.event = .messageDelta b id offset delta) :
    Follows H bot (q + 1) R (c.apply bot (.messageDelta b id offset delta)).1 := by
  have hid : (H.changes[q]).envelope.event.messageId = some id := by rw [hevent]; rfl
  have hne : ∀ {i}, id ≠ i → (H.changes[q]).envelope.event.messageId ≠ some i := fun hi h' =>
    hi (Option.some.inj (hid.symm.trans h'))
  have hnew : ∀ message, (H.changes[q]).envelope.event ≠ .messageCreated message := by
    simp [hevent]
  simp only [Conversation.apply]
  split
  · next hnone =>
      refine h.next hH hq hseq rfl rfl (fun i m hm => ⟨m, hm⟩)
        (fun message hm => absurd hm (hnew message)) fun i m hm => ?_
      exact h.held_of_ne hH hq hm (hne fun hi => by rw [hi, hm] at hnone; cases hnone)
  · next m₀ hm₀ =>
      split
      · next m' changed hm' =>
          refine h.next hH hq hseq rfl rfl (fun i m hm => ?_)
            (fun message hm => absurd hm (hnew message)) fun i m hm => ?_
          · by_cases hi : id = i
            · exact ⟨m', by simp [hi]⟩
            · exact ⟨m, by simp [hi, hm]⟩
          · by_cases hi : id = i
            · subst hi
              obtain rfl : m' = m := by simpa using hm
              obtain ⟨r, hr, hR, htracks⟩ := h.held id m₀ hm₀
              refine ⟨r, hr, hR, ?_⟩
              by_cases hown : m₀.botId = bot
              · obtain ⟨m'', changed', hm'', htracks'⟩ := htracks.delta hH hown hq hevent
                rw [hm'] at hm''
                cases hm''
                exact htracks'
              · exact htracks.delta_other hH hown hq hm'
            · exact h.held_of_ne hH hq (by simpa [hi] using hm) (hne hi)
      · next hnone =>
          refine h.next hH hq hseq rfl rfl (fun i m hm => ⟨m, hm⟩)
            (fun message hm => absurd hm (hnew message)) fun i m hm => ?_
          by_cases hi : id = i
          · subst hi
            obtain rfl : m₀ = m := Option.some.inj (hm₀.symm.trans hm)
            obtain ⟨r, hr, hR, htracks⟩ := h.held id m₀ hm₀
            by_cases hown : m₀.botId = bot
            · obtain ⟨m'', changed', hm'', -⟩ := htracks.delta hH hown hq hevent
              rw [hnone] at hm''
              cases hm''
            · exact ⟨r, hr, hR, htracks.advance hH hq (.inr (.inr hown))⟩
          · exact h.held_of_ne hH hq hm (hne hi)

/-- One event after the page, whichever Bot it is about, keeps the copy following. -/
theorem apply [DecidableEq δ] (hH : H.Valid) (h : Follows H bot q R c)
    (hq : q < H.changes.length) (hseq : c.seq ≤ q) :
    Follows H bot (q + 1) R (c.apply bot (H.changes[q]).envelope.event).1 := by
  have hsame : (∀ i, (H.changes[q]).envelope.event.messageId ≠ some i) →
      (∀ message, (H.changes[q]).envelope.event ≠ .messageCreated message) →
      Follows H bot (q + 1) R c := fun hid hnew =>
    h.next hH hq hseq rfl rfl (fun i m hm => ⟨m, hm⟩) (fun message hm => absurd hm (hnew message))
      fun i m hm => h.held_of_ne hH hq hm (hid i)
  cases hevent : (H.changes[q]).envelope.event with
  | messageCreated message => exact h.apply_created hH hq hseq hevent
  | messageDelta b id offset delta => exact h.apply_delta hH hq hseq hevent
  | messageCompleted message => exact h.insertWhole hH hq hseq (.inr hevent)
  | _ => exact hsame (by simp [hevent, Event.messageId]) (by simp [hevent])

end Follows

end Bokkie
