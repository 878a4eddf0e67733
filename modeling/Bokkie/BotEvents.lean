import Bokkie.BotLists
import Bokkie.HeldMessages

/-!
# What an event makes of the Bot list

Each event brings every entry of the list on by one change, or has the list loaded again. A message
that an event shows as its Bot's latest has to be the latest there is.
-/

namespace Bokkie

variable {δ : Type} {H : History δ} {q R B b n : ℕ} {s : Store δ}

/-- What the store holds of messages: the ids it knows as newest are of messages of their Bots that
the first `B` changes bring, and the messages that never streamed are as they were created. -/
structure Knows (H : History δ) (B : ℕ) (s : Store δ) : Prop where
  newest : ∀ (b i : ℕ), s.newest[b]? = some i →
    ∃ v m, v ≤ B ∧ (H.table v)[i]? = some m ∧ m.botId = b
  faithful : HoldsFaithful H s

def IsLatest (H : History δ) (n b i : ℕ) : Prop := ((H.table n).latest b).map (·.id) = some i

/-- What an event that follows the first `n` changes shows as its Bot's latest message is that, or
one that something loaded reflects is still to come. A completion and a delta show the message they
are about; the creation of a message that is the newest known already shows a copy of it, if one is
held. -/
def ShowsLatest (H : History δ) (B n : ℕ) (s : Store δ) : Event δ → Prop
  | .messageCreated m => s.newest[m.botId]? = some m.id → m.state ≠ .streaming →
    s.heldPreview m.botId m.id = none → Awaited H m.botId (n + 1) B ∨
      ∀ e, s.bots[m.botId]? = some e → e.lastMessage = some m.preview
  | .messageDelta bot i _ _ => s.newest[bot]? = some i → s.heldPreview bot i ≠ none →
    Awaited H bot (n + 1) B ∨ IsLatest H (n + 1) bot i
  | .messageCompleted m => (∃ i, s.newest[m.botId]? = some i ∧ i ≤ m.id) →
    Awaited H m.botId (n + 1) B ∨ IsLatest H (n + 1) m.botId m.id
  | _ => True

theorem Knows.mono {B' : ℕ} (h : Knows H B s) (hB : B ≤ B') : Knows H B' s where
  newest b i hi := by
    obtain ⟨v, m, hv, hm⟩ := h.newest b i hi
    exact ⟨v, m, hv.trans hB, hm⟩
  faithful := h.faithful

theorem ShowsLatest.mono {B' : ℕ} {event : Event δ} (h : ShowsLatest H B n s event)
    (hB : B ≤ B') : ShowsLatest H B' n s event := by
  cases event with
  | messageCreated m => exact fun hnew hs hnone => (h hnew hs hnone).imp_left (·.mono hB)
  | messageDelta bot i offset delta => exact fun hnew hheld => (h hnew hheld).imp_left (·.mono hB)
  | messageCompleted m => exact fun hnew => (h hnew).imp_left (·.mono hB)
  | _ => trivial

namespace Store

/-- What a note of a message's id leaves known as newest. -/
theorem noteNewest_get {bot message i : ℕ} (s : Store δ)
    (h : (s.noteNewest bot message).newest[b]? = some i) :
    s.newest[b]? = some i ∨ bot = b ∧ i = message := by
  unfold noteNewest at h
  rw [IdMap.getElem?_insert'] at h
  split at h
  · next hb =>
      subst hb
      obtain rfl := Option.some.inj h
      cases hold : s.newest[bot]? with
      | none => exact .inr ⟨rfl, by simp⟩
      | some j =>
          rcases Nat.le_total j message with hle | hle
          · exact .inr ⟨rfl, by simp [hle]⟩
          · exact .inl (by simp [hle])
  · exact .inl h

section Preview

theorem setPreview_spec (s : Store δ) (bot : ℕ) (preview : MessagePreview) :
    (.bots ∈ (s.setPreview bot preview).2.reload ∨
      ∀ b : ℕ, (s.setPreview bot preview).1.bots[b]? = if bot = b then
        (s.bots[b]?).map fun e => { e with lastMessage := some preview } else s.bots[b]?) ∧
    (s.setPreview bot preview).1.newest = s.newest := by
  unfold setPreview
  split
  · next e he =>
      refine ⟨.inr fun b => ?_, rfl⟩
      rw [IdMap.getElem?_insert']
      split
      · next hb =>
          subst hb
          rw [he, Option.map_some]
      · rfl
  · exact ⟨.inl (Finset.mem_singleton_self _), rfl⟩

theorem noteUnread_spec (s : Store δ) (m : Message δ) :
    (∀ b : ℕ, (s.noteUnread m).1.bots[b]? = if m.botId = b then
      (s.bots[b]?).map fun e => { e with unread := e.unread || m.isUnread e.readUpTo }
      else s.bots[b]?) ∧
    (s.noteUnread m).1.newest = s.newest := by
  unfold noteUnread
  split
  · next e he =>
      split
      · next hnew =>
          refine ⟨fun b => ?_, rfl⟩
          rw [IdMap.getElem?_insert']
          split
          · next hb =>
              subst hb
              rw [he, Option.map_some, (Bool.and_eq_true_iff.mp hnew).2, Bool.or_true]
          · rfl
      · next hold =>
          refine ⟨fun b => ?_, rfl⟩
          split
          · next hb =>
              subst hb
              have hsame : (e.unread || m.isUnread e.readUpTo) = e.unread := by
                cases hm : m.isUnread e.readUpTo <;> cases hu : e.unread <;> simp_all
              rw [he, Option.map_some, hsame]
          · rfl
  · next hnone =>
      refine ⟨fun b => ?_, rfl⟩
      split
      · next hb =>
          subst hb
          rw [hnone, Option.map_none]
      · rfl

end Preview

end Store

section Messages

/-- A message known as newest is still to come, or there. -/
theorem Knows.newest_cases (hH : H.BotsValid) (h : Knows H B s) {i : ℕ}
    (hi : s.newest[b]? = some i) (n : ℕ) :
    Awaited H b n B ∨ ∃ m, (H.table n)[i]? = some m ∧ m.botId = b := by
  obtain ⟨v, m, hv, hm, hbot⟩ := h.newest b i hi
  cases hn : (H.table n)[i]? with
  | none => exact .inl ⟨i, m, v, hv, hm, hbot, hn⟩
  | some g => exact .inr ⟨g, rfl, (History.botId_unique hH.1 hn hm).trans hbot⟩

/-- What a Bot's entry shows once its latest message is shown. -/
theorem PreviewAt.of_latest {m : Message δ} {preview : MessagePreview}
    (hlatest : (H.table n).latest b = some m)
    (h : m.state ≠ .streaming → preview = m.preview) : PreviewAt H b (some preview) n := by
  by_cases hs : m.state = .streaming
  · exact .inr ⟨m, hlatest, hs⟩
  · refine .inl ?_
    rw [hlatest, h hs, Option.map_some]

theorem IsLatest.get {i : ℕ} (h : IsLatest H n b i) :
    ∃ g, (H.table n).latest b = some g ∧ (H.table n)[i]? = some g := by
  obtain ⟨g, hlatest, hid⟩ := Option.map_eq_some_iff.mp h
  obtain ⟨hg, -⟩ := (Table.latest_eq_some (H.table_keyed n)).mp hlatest
  exact ⟨g, hlatest, hid ▸ hg⟩

/-- A copy held of a message that is created whole shows the message. -/
theorem Knows.heldPreview (h : Knows H B s) (hq : q < H.changes.length) {m : Message δ}
    (hevent : (H.changes[q]).envelope.event = .messageCreated m) {preview : MessagePreview}
    (hheld : s.heldPreview m.botId m.id = some preview) (hs : m.state ≠ .streaming) :
    preview = m.preview := by
  unfold Store.heldPreview at hheld
  obtain ⟨c, hc, hheld⟩ := Option.bind_eq_some_iff.mp hheld
  obtain ⟨m', hm', hpreview⟩ := Option.bind_eq_some_iff.mp hheld
  obtain ⟨hid, hfaithful⟩ := h.faithful m.botId c hc m.id m' hm'
  rw [← Option.some.inj hpreview, hfaithful q hq m hevent hs hid.symm]

/-- The entry of the Bot that a message is created for. -/
theorem previewCreated_follows (hH : H.BotsValid) (hq : q < H.changes.length) {m : Message δ}
    (hevent : (H.changes[q]).envelope.event = .messageCreated m) (hknows : Knows H B s)
    (hshows : ShowsLatest H B q s (.messageCreated m)) :
    .bots ∈ (s.previewCreated m).2.reload ∨
      (∀ b : ℕ, b ≠ m.botId → (s.previewCreated m).1.bots[b]? = s.bots[b]?) ∧
      ∀ e, (s.previewCreated m).1.bots[m.botId]? = some e → ∃ e₀, s.bots[m.botId]? = some e₀ ∧
        e = { e₀ with lastMessage := e.lastMessage } ∧
        (Awaited H m.botId (q + 1) B ∨ PreviewAt H m.botId e.lastMessage (q + 1)) := by
  have hlatest := History.latest_created hH hq hevent
  have hset : ∀ preview : MessagePreview, (m.state ≠ .streaming → preview = m.preview) →
      .bots ∈ ((s.noteNewest m.botId m.id).setPreview m.botId preview).2.reload ∨
      (∀ b : ℕ, b ≠ m.botId →
        ((s.noteNewest m.botId m.id).setPreview m.botId preview).1.bots[b]? = s.bots[b]?) ∧
      ∀ e, ((s.noteNewest m.botId m.id).setPreview m.botId preview).1.bots[m.botId]? = some e →
        ∃ e₀, s.bots[m.botId]? = some e₀ ∧ e = { e₀ with lastMessage := e.lastMessage } ∧
        (Awaited H m.botId (q + 1) B ∨ PreviewAt H m.botId e.lastMessage (q + 1)) := by
    intro preview hpreview
    rcases ((s.noteNewest m.botId m.id).setPreview_spec m.botId preview).1 with hreload | hbots
    · exact .inl hreload
    · refine .inr ⟨fun b hb => by rw [hbots, if_neg (Ne.symm hb)]; rfl, fun e he => ?_⟩
      rw [hbots, if_pos rfl] at he
      obtain ⟨e₀, he₀, rfl⟩ := Option.map_eq_some_iff.mp he
      exact ⟨e₀, he₀, rfl, .inr (.of_latest hlatest hpreview)⟩
  unfold Store.previewCreated
  dsimp only
  split
  · next hnewer =>
      -- what is known as newest comes later still
      obtain ⟨i, hi, hlt⟩ := (Option.any_eq_true _ _).mp hnewer
      refine .inr ⟨fun _ _ => rfl, fun e he => ⟨e, he, rfl, .inl ?_⟩⟩
      refine (hknows.newest_cases hH hi (q + 1)).resolve_right fun hthere => ?_
      obtain ⟨g, hg, hbot⟩ := hthere
      have hmax := ((Table.latest_eq_some (H.table_keyed _)).mp hlatest).2.2 i g hg hbot
      exact absurd hmax (not_le.mpr (of_decide_eq_true hlt))
  · split
    · next hsame =>
        split
        · next preview hheld =>
            exact hset preview fun hs => hknows.heldPreview hq hevent hheld hs
        · next hheld =>
            refine .inr ⟨fun _ _ => rfl, fun e he => ⟨e, he, rfl, ?_⟩⟩
            by_cases hs : m.state = .streaming
            · exact .inr (.inr ⟨m, hlatest, hs⟩)
            · refine (hshows hsame hs hheld).imp_right fun hlast => ?_
              rw [hlast e he]
              exact .of_latest hlatest fun _ => rfl
    · refine hset _ fun hs => ?_
      cases hheld : (s.noteNewest m.botId m.id).heldPreview m.botId m.id with
      | none => rfl
      | some preview => exact hknows.heldPreview hq hevent hheld hs

end Messages

section Step

variable [DecidableEq δ]

/-- The entry of the Bot whose message is completed, shown unless a later one is known. -/
theorem completed_follows (hH : H.BotsValid) (hq : q < H.changes.length) {m : Message δ}
    (hevent : (H.changes[q]).envelope.event = .messageCompleted m) (hknows : Knows H B s)
    (hshows : ShowsLatest H B q s (.messageCompleted m))
    (h : ∀ (b : ℕ) e, s.bots[b]? = some e → FollowsBot H B R q b e) :
    .bots ∈ (s.applyToLoadedBots (.messageCompleted m)).2.reload ∨
      ∀ (b : ℕ) e, (s.applyToLoadedBots (.messageCompleted m)).1.bots[b]? = some e →
        FollowsBot H B R (q + 1) b e := by
  have hnot : ∀ m', (H.changes[q]).envelope.event ≠ .messageCreated m' := by simp [hevent]
  have hmessage : (H.changes[q]).envelope.event.messageBot ≠ none := by
    simp [hevent, Event.messageBot]
  have hother : ∀ (b : ℕ) e, s.bots[b]? = some e → m.botId ≠ b → FollowsBot H B R (q + 1) b e :=
    fun b e he hb => (h b e he).other hH hq (by simpa [hevent, Event.listBot, Event.messageBot])
  have hget : (H.table (q + 1))[m.id]? = some m := by
    rw [History.table_succ hq]
    simp [Table.apply, hevent]
  cases hnew : s.newest[m.botId]? with
  | none =>
      by_cases hmem : m.botId ∈ s.bots
      · refine .inl ?_
        simp [Store.applyToLoadedBots, hnew, hmem, Applied.ofReload]
      · refine .inr fun b e he => ?_
        simp only [Store.applyToLoadedBots, hnew, if_neg hmem] at he
        refine hother b e he ?_
        rintro rfl
        exact hmem (Std.ExtTreeMap.mem_iff_isSome_getElem?.mpr (by simp [he]))
  | some i =>
      simp only [Store.applyToLoadedBots, hnew]
      split
      · next hlater =>
          refine .inr fun b e he => ?_
          by_cases hb : m.botId = b
          · subst hb
            have hfollows := h _ e he
            refine hfollows.message hH hq hmessage hnot e.lastMessage ?_
            rcases hknows.newest_cases hH hnew (q + 1) with hawaited | ⟨g, hg, hbot⟩
            · exact .inl hawaited
            · rcases hfollows.preview with hawaited | hshown
              · exact .inl (hawaited.step hH.1 hq fun m' => .inl (hnot m'))
              · -- the Bot's latest message is another
                refine .inr (hshown.step (fun hp => hp.succ ?_) fun _ _ => id)
                refine History.latest_same hH hq hnot fun g' hg' hid => ?_
                rw [hevent] at hid
                have hlatest : (H.table (q + 1)).latest m.botId = some m := by
                  rw [History.latest_succ hH hq hnot, hg', Option.bind_some,
                    ← Option.some.inj hid, hget]
                have hmax := ((Table.latest_eq_some (H.table_keyed _)).mp hlatest).2.2 i g hg hbot
                omega
          · exact hother b e he hb
      · next hle =>
          rcases ((s.noteNewest m.botId m.id).setPreview_spec m.botId m.preview).1
            with hreload | hbots
          · exact .inl hreload
          · refine .inr fun b e he => ?_
            rw [hbots] at he
            split at he
            · next hb =>
                subst hb
                obtain ⟨e₀, he₀, rfl⟩ := Option.map_eq_some_iff.mp he
                refine (h _ e₀ he₀).message hH hq hmessage hnot _ ?_
                refine (hshows ⟨i, hnew, not_lt.mp hle⟩).imp_right fun hlast => ?_
                obtain ⟨g, hlatest, hg⟩ := hlast.get
                obtain rfl := Option.some.inj (hget.symm.trans hg)
                exact .now (.of_latest hlatest fun _ => rfl)
            · next hb => exact hother b e he hb

/-- The entry of the Bot whose message grows, shown if it is the newest known and held. -/
theorem delta_follows (hH : H.BotsValid) (hq : q < H.changes.length) {bot i offset : ℕ}
    {delta : List Char} (hevent : (H.changes[q]).envelope.event = .messageDelta bot i offset delta)
    (hshows : ShowsLatest H B q s (.messageDelta bot i offset delta))
    (h : ∀ (b : ℕ) e, s.bots[b]? = some e → FollowsBot H B R q b e) :
    .bots ∈ (s.applyToLoadedBots (.messageDelta bot i offset delta)).2.reload ∨
      ∀ (b : ℕ) e, (s.applyToLoadedBots (.messageDelta bot i offset delta)).1.bots[b]? = some e →
        FollowsBot H B R (q + 1) b e := by
  have hnot : ∀ m', (H.changes[q]).envelope.event ≠ .messageCreated m' := by simp [hevent]
  have hmessage : (H.changes[q]).envelope.event.messageBot ≠ none := by
    simp [hevent, Event.messageBot]
  obtain ⟨g, hg, hs⟩ := History.delta_streaming hH hq hevent
  have hother : ∀ (b : ℕ) e, s.bots[b]? = some e → bot ≠ b → FollowsBot H B R (q + 1) b e :=
    fun b e he hb => (h b e he).other hH hq (by simpa [hevent, Event.listBot, Event.messageBot])
  -- an entry the event leaves alone
  have hkept : ∀ (b : ℕ) e, s.bots[b]? = some e → FollowsBot H B R (q + 1) b e := by
    intro b e he
    by_cases hb : bot = b
    · subst hb
      have hfollows := h _ e he
      refine hfollows.message hH hq hmessage hnot e.lastMessage ?_
      rcases hfollows.preview with hawaited | hshown
      · exact .inl (hawaited.step hH.1 hq fun m' => .inl (hnot m'))
      · refine .inr (hshown.step (fun hp => ?_) fun _ _ => id)
        by_cases hlatest : ∃ g', (H.table q).latest bot = some g' ∧ g'.id = i
        · obtain ⟨g', hg', rfl⟩ := hlatest
          refine .inr ⟨g, ?_, hs⟩
          rw [History.latest_succ hH hq hnot, hg', Option.bind_some, hg]
        · refine hp.succ (History.latest_same hH hq hnot fun g' hg' hid => hlatest ⟨g', hg', ?_⟩)
          rw [hevent] at hid
          exact (Option.some.inj hid).symm
    · exact hother b e he hb
  unfold Store.applyToLoadedBots
  dsimp only
  split
  · exact .inr hkept
  · next hnew =>
      split
      · next preview hheld =>
          rcases (s.setPreview_spec bot preview).1 with hreload | hbots
          · exact .inl hreload
          · refine .inr fun b e he => ?_
            rw [hbots] at he
            split at he
            · next hb =>
                subst hb
                obtain ⟨e₀, he₀, rfl⟩ := Option.map_eq_some_iff.mp he
                refine (h _ e₀ he₀).message hH hq hmessage hnot _ ?_
                refine (hshows (not_not.mp hnew) (by simp [hheld])).imp_right fun hlast => ?_
                obtain ⟨g', hlatest, hg'⟩ := hlast.get
                obtain rfl := Option.some.inj (hg.symm.trans hg')
                exact .now (.inr ⟨g, hlatest, hs⟩)
            · next hb => exact hother b e he hb
      · exact .inr hkept

/-- One event brings every entry of the list on, or the list has to load again. -/
theorem bots_follow_event (hH : H.BotsValid) (hq : q < H.changes.length) (hknows : Knows H B s)
    (hshows : ShowsLatest H B q s (H.changes[q]).envelope.event)
    (h : ∀ (b : ℕ) e, s.bots[b]? = some e → FollowsBot H B R q b e) :
    .bots ∈ (s.applyToLoadedBots (H.changes[q]).envelope.event).2.reload ∨
      ∀ (b : ℕ) e, (s.applyToLoadedBots (H.changes[q]).envelope.event).1.bots[b]? = some e →
        FollowsBot H B R (q + 1) b e := by
  have hallows := hH.2 q hq
  cases hevent : (H.changes[q]).envelope.event with
  | messageCompleted m =>
      rw [hevent] at hshows
      exact completed_follows hH hq hevent hknows hshows h
  | messageDelta bot i offset delta =>
      rw [hevent] at hshows
      exact delta_follows hH hq hevent hshows h
  | messageCreated m =>
      rw [hevent] at hshows
      obtain ⟨hbots, hnewest⟩ := s.noteUnread_spec m
      have hframe := Store.frame_noteUnread (s := s) m
      have hheld : ∀ b i, (s.noteUnread m).1.heldPreview b i = s.heldPreview b i := by
        intro b i
        unfold Store.heldPreview
        rw [hframe.conversations]
      have hknows' : Knows H B (s.noteUnread m).1 :=
        ⟨fun b i hi => hknows.newest b i (hnewest ▸ hi), hknows.faithful.of_eq hframe.conversations⟩
      have hshows' : ShowsLatest H B q (s.noteUnread m).1 (.messageCreated m) := by
        intro hnew hs hnone
        refine (hshows (hnewest ▸ hnew) hs (hheld _ _ ▸ hnone)).imp_right fun hlast e he => ?_
        rw [hbots, if_pos rfl] at he
        obtain ⟨e₀, he₀, rfl⟩ := Option.map_eq_some_iff.mp he
        exact hlast e₀ he₀
      rcases previewCreated_follows hH hq hevent hknows' hshows' with hreload | ⟨hother, hself⟩
      · exact .inl (Finset.mem_union_right _ hreload)
      · refine .inr fun b e he => ?_
        change ((s.noteUnread m).1.previewCreated m).1.bots[b]? = some e at he
        by_cases hb : m.botId = b
        · subst hb
          obtain ⟨e₁, he₁, heq, hpreview⟩ := hself e he
          rw [hbots, if_pos rfl] at he₁
          obtain ⟨e₀, he₀, rfl⟩ := Option.map_eq_some_iff.mp he₁
          rw [heq]
          exact (h _ e₀ he₀).created hH hq hevent rfl (hpreview.imp_right .now)
        · rw [hother b (Ne.symm hb), hbots, if_neg hb] at he
          exact (h b e he).other hH hq (by simpa [hevent, Event.listBot, Event.messageBot])
  | botCreated bot | botUpdated bot =>
      rw [hevent] at hallows
      refine .inr fun b e he => ?_
      simp only [Store.applyToLoadedBots, IdMap.getElem?_insert'] at he
      split at he
      · next hb =>
          subst hb
          obtain rfl := Option.some.inj he
          exact .now hallows
      · next hb => exact (h b e he).other hH hq (by simpa [hevent, Event.listBot])
  | botStatusChanged bot status =>
      have htable := History.table_same hq (by simp [hevent, Event.messageId])
      simp only [Store.applyToLoadedBots]
      split
      · next e₀ he₀ =>
          refine .inr fun b e he => ?_
          rw [IdMap.getElem?_insert'] at he
          split at he
          · next hb =>
              subst hb
              obtain rfl := Option.some.inj he
              have hfollows := h bot e₀ he₀
              rw [hevent] at hallows
              obtain ⟨row, hrow⟩ := Option.isSome_iff_exists.mp
                (Std.ExtTreeMap.mem_iff_isSome_getElem?.mp hallows)
              have hrows : (H.botRows (q + 1))[bot]? = some { row with status := status } := by
                rw [History.botRows_succ hq]
                simp [applyBot, hevent, hrow]
              refine ⟨.now ⟨_, hrows, rfl⟩, ?_, ?_⟩
              · refine hfollows.read.step (fun hr => hr.succ ?_ fun hu => ?_) fun _ _ => id
                · rw [hrows, hrow]
                  rfl
                · rwa [htable]
              · rcases hfollows.preview with hawaited | hshown
                · exact .inl (hawaited.step hH.1 hq fun m => .inl (by simp [hevent]))
                · exact .inr (hshown.step (fun hp => hp.succ (by rw [htable])) fun _ _ => id)
          · next hb => exact (h b e he).other hH hq (by simpa [hevent, Event.listBot])
      · exact .inl (Finset.mem_singleton_self _)
  | readUpdated read =>
      have htable := History.table_same hq (by simp [hevent, Event.messageId])
      rw [hevent] at hallows
      obtain ⟨shown, hshown, hunread⟩ := hallows
      simp only [Store.applyToLoadedBots]
      split
      · next e₀ he₀ =>
          refine .inr fun b e he => ?_
          rw [IdMap.getElem?_insert'] at he
          split at he
          · next hb =>
              subst hb
              obtain rfl := Option.some.inj he
              have hfollows := h read.botId e₀ he₀
              rw [History.bots_get] at hshown
              obtain ⟨row', hrow', rfl⟩ := Option.map_eq_some_iff.mp hshown
              have hid := History.botRows_keyed H _ hrow'
              have hnext := hrow'
              rw [History.botRows_succ hq] at hrow'
              simp only [applyBot, hevent] at hrow'
              cases hrow : (H.botRows q)[read.botId]? with
              | none => simp [hrow] at hrow'
              | some row =>
                  simp only [hrow, IdMap.getElem?_insert'] at hrow'
                  obtain rfl := Option.some.inj hrow'
                  refine ⟨?_, .now ⟨_, hnext, rfl, ?_⟩, ?_⟩
                  · refine hfollows.status.step (fun hs => hs.succ ?_) fun _ _ => id
                    rw [hnext, hrow]
                    rfl
                  · rw [← hunread, ← hid]
                    rfl
                  · rcases hfollows.preview with hawaited | hshown
                    · exact .inl (hawaited.step hH.1 hq fun m => .inl (by simp [hevent]))
                    · exact .inr (hshown.step (fun hp => hp.succ (by rw [htable])) fun _ _ => id)
          · next hb => exact (h b e he).other hH hq (by simpa [hevent, Event.listBot])
      · exact .inl (Finset.mem_singleton_self _)
  | botError | usageUpdated | accountUpdated | routineCreated | routineUpdated | routineDeleted
  | routineRunUpdated =>
      refine .inr fun b e he => ?_
      exact (h b e he).other hH hq (by simp [hevent, Event.listBot, Event.messageBot])

/-- What is known as newest after an event was known before, or is the message of the event. -/
theorem applyToLoadedBots_newest {event : Event δ} {i : ℕ}
    (h : (s.applyToLoadedBots event).1.newest[b]? = some i) :
    s.newest[b]? = some i ∨ ∃ m, (event = .messageCreated m ∨ event = .messageCompleted m) ∧
      m.botId = b ∧ m.id = i := by
  unfold Store.applyToLoadedBots at h
  cases event with
  | messageCreated m =>
      have hnoted : ((s.noteUnread m).1.noteNewest m.botId m.id).newest[b]? = some i := by
        dsimp only at h
        unfold Store.previewCreated at h
        dsimp only at h
        split at h
        · exact h
        · split at h
          · split at h
            · rwa [(Store.setPreview_spec _ _ _).2] at h
            · exact h
          · rwa [(Store.setPreview_spec _ _ _).2] at h
      rcases (s.noteUnread m).1.noteNewest_get hnoted with hold | ⟨hb, hi⟩
      · rw [(s.noteUnread_spec m).2] at hold
        exact .inl hold
      · exact .inr ⟨m, .inl rfl, hb, hi.symm⟩
  | messageCompleted m =>
      dsimp only at h
      split at h
      · split at h
        · exact .inl h
        · rw [(Store.setPreview_spec _ _ _).2] at h
          rcases s.noteNewest_get h with hold | ⟨hb, hi⟩
          · exact .inl hold
          · exact .inr ⟨m, .inr rfl, hb, hi.symm⟩
      · split at h <;> exact .inl h
  | messageDelta bot id offset delta =>
      dsimp only at h
      split at h
      · exact .inl h
      · split at h
        · rw [(Store.setPreview_spec _ _ _).2] at h
          exact .inl h
        · exact .inl h
  | botStatusChanged | readUpdated =>
      dsimp only at h
      split at h <;> exact .inl h
  | _ => exact .inl h

theorem Knows.event (h : Knows H B s) (hq : q < H.changes.length) (hB : q + 1 ≤ B) :
    Knows H B (s.applyToBots (H.changes[q]).envelope).1 where
  newest b i hi := by
    unfold Store.applyToBots at hi
    split at hi
    · exact h.newest b i hi
    · split at hi
      · exact h.newest b i hi
      · rcases applyToLoadedBots_newest hi with hold | ⟨m, hevent, hb, hid⟩
        · exact h.newest b i hold
        · exact ⟨q + 1, m, hB, by rw [← hid]; exact table_succ_of_whole hq hevent, hb⟩
  faithful := h.faithful.of_eq (Store.frame_applyToBots _).conversations

theorem applyToLoadedBots_botsSeq (s : Store δ) (event : Event δ) :
    (s.applyToLoadedBots event).1.botsSeq = s.botsSeq := by
  have hset : ∀ (s : Store δ) bot preview, (s.setPreview bot preview).1.botsSeq = s.botsSeq := by
    intro s bot preview
    unfold Store.setPreview
    split <;> rfl
  unfold Store.applyToLoadedBots
  cases event with
  | messageCreated m =>
      have hunread : (s.noteUnread m).1.botsSeq = s.botsSeq := by
        unfold Store.noteUnread
        split
        · split <;> rfl
        · rfl
      refine Eq.trans ?_ hunread
      dsimp only
      unfold Store.previewCreated
      dsimp only
      split
      · rfl
      · split
        · split
          · exact hset _ _ _
          · rfl
        · exact hset _ _ _
  | messageCompleted m =>
      dsimp only
      split
      · split
        · rfl
        · exact hset _ _ _
      · split <;> rfl
  | messageDelta bot id offset delta =>
      dsimp only
      split
      · rfl
      · split
        · exact hset _ _ _
        · rfl
  | botStatusChanged | readUpdated =>
      dsimp only
      split <;> rfl
  | _ => rfl

theorem applyToBots_botsSeq (s : Store δ) (envelope : EventEnvelope (Event δ)) :
    (s.applyToBots envelope).1.botsSeq = s.botsSeq := by
  unfold Store.applyToBots
  split
  · rfl
  · split
    · rfl
    · exact applyToLoadedBots_botsSeq s _

/-- One event on the list loaded, which may cover it. -/
theorem applyToBots_follow (hH : H.BotsValid) (hq : q < H.changes.length) (hknows : Knows H B s)
    {seq : ℕ} (hseq : s.botsSeq = some seq)
    (hshows : seq ≤ q → ShowsLatest H B q s (H.changes[q]).envelope.event)
    (h : ∀ (b : ℕ) e, s.bots[b]? = some e → FollowsBot H B R (max q seq) b e) :
    .bots ∈ (s.applyToBots (H.changes[q]).envelope).2.reload ∨
      ∀ (b : ℕ) e, (s.applyToBots (H.changes[q]).envelope).1.bots[b]? = some e →
        FollowsBot H B R (max (q + 1) seq) b e := by
  unfold Store.applyToBots
  simp only [hseq, History.seq_getElem hq]
  by_cases hle : q + 1 ≤ seq
  · simp only [if_pos hle]
    refine .inr fun b e he => ?_
    rw [Nat.max_eq_right hle, ← Nat.max_eq_right (show q ≤ seq by omega)]
    exact h b e he
  · simp only [if_neg hle]
    rw [Nat.max_eq_left (show seq ≤ q + 1 by omega)]
    rw [Nat.max_eq_left (show seq ≤ q by omega)] at h
    exact bots_follow_event hH hq hknows (hshows (by omega)) h

/-- Every event replayed onto a list shows the latest message. -/
def ReplayShows (H : History δ) (B seq : ℕ) :
    List (EventEnvelope (Event δ)) → Store δ → Prop
  | [], _ => True
  | e :: held, s =>
    if e.seq > seq then
      ShowsLatest H B (e.seq - 1) s e.event ∧ ReplayShows H B seq held (s.applyToBots e).1
    else ReplayShows H B seq held s

theorem replay_botsSeq (seq : ℕ) (held : List (EventEnvelope (Event δ))) (o : Store δ × Applied) :
    (Store.replay Store.applyToBots seq held o).1.botsSeq = o.1.botsSeq := by
  induction held generalizing o with
  | nil => rfl
  | cons e held ih =>
      rw [Store.replay, List.foldl_cons]
      split
      · exact (ih _).trans (applyToBots_botsSeq o.1 e)
      · exact ih o

/-- What the replay of a stretch of the history leaves known. -/
theorem knows_replay {p : ℕ} (h : Knows H B s) (hp : p ≤ H.changes.length) (hB : p ≤ B) (seq : ℕ)
    (applied : Applied) :
    Knows H B (Store.replay Store.applyToBots seq (H.window q p) (s, applied)).1 := by
  induction hk : p - q generalizing q s applied with
  | zero =>
      rw [History.window_of_le (by omega)]
      exact h
  | succ k ih =>
      have hq : q < H.changes.length := by omega
      rw [History.window_cons (by omega) hq, Store.replay, List.foldl_cons]
      split
      · exact ih (h.event hq (by omega)) _ (by omega)
      · exact ih h _ (by omega)

/-- A list brought on by the events held, replayed in order from the first after `q`. -/
theorem bots_replay (hH : H.BotsValid) {seq p : ℕ} (hp : p ≤ H.changes.length) (hB : p ≤ B)
    (hqp : q ≤ p) {o : Store δ × Applied} (hseq : o.1.botsSeq = some seq)
    (hknows : Knows H B o.1) (hshows : ReplayShows H B seq (H.window q p) o.1)
    (h : .bots ∈ o.2.reload ∨
      ∀ (b : ℕ) e, o.1.bots[b]? = some e → FollowsBot H B R (max q seq) b e) :
    .bots ∈ (Store.replay Store.applyToBots seq (H.window q p) o).2.reload ∨
      ∀ (b : ℕ) e, (Store.replay Store.applyToBots seq (H.window q p) o).1.bots[b]? = some e →
        FollowsBot H B R (max p seq) b e := by
  induction hk : p - q generalizing q o with
  | zero =>
      obtain rfl : q = p := by omega
      rw [History.window_of_le le_rfl]
      exact h
  | succ k ih =>
      have hq : q < H.changes.length := by omega
      rw [History.window_cons (by omega) hq] at hshows ⊢
      unfold Store.replay
      rw [List.foldl_cons]
      rw [ReplayShows, History.seq_getElem hq] at hshows
      rw [History.seq_getElem hq]
      by_cases hnew : q + 1 > seq
      · simp only [if_pos hnew] at hshows ⊢
        obtain ⟨hshown, hrest⟩ := hshows
        refine ih (by omega) ((applyToBots_botsSeq _ _).trans hseq) (hknows.event hq (by omega))
          hrest ?_ (by omega)
        rcases h with hreload | hfollows
        · exact .inl (Finset.mem_union_left _ hreload)
        · exact (applyToBots_follow hH hq hknows hseq (fun _ => hshown) hfollows).imp_left fun hr =>
            Finset.mem_union_right _ hr
      · rw [if_neg hnew] at hshows ⊢
        refine ih (by omega) hseq hknows hshows ?_ (by omega)
        rwa [Nat.max_eq_right (show q ≤ seq by omega),
          ← Nat.max_eq_right (show q + 1 ≤ seq by omega)] at h

end Step

end Bokkie
