import Bokkie.BotHistory
import Bokkie.StoreLists

/-!
# A client's Bot list

An entry loaded from a list and brought up to the first `q` events shows the gateway's Bot at some
point no older than these events. Its preview may fall behind only while a message is still to come
that something loaded reflects already.
-/

namespace Bokkie

variable {δ : Type} {H : History δ} {q R B b n : ℕ} {e : Bot δ} {P P' : ℕ → Prop}

/-- It holds after the first `q` changes, or at a later point that the list loaded reflects. -/
def Shown (q R : ℕ) (P : ℕ → Prop) : Prop := ∃ k, q ≤ k ∧ k ≤ max q R ∧ P k

namespace Shown

theorem now (h : P q) : Shown q R P := ⟨q, le_rfl, le_max_left _ _, h⟩

theorem step (h : Shown q R P) (hnow : P q → P' (q + 1)) (hlater : ∀ k, q < k → P k → P' k) :
    Shown (q + 1) R P' := by
  obtain ⟨k, hqk, hk, hP⟩ := h
  rcases hqk.eq_or_lt with rfl | hlt
  · exact now (hnow hP)
  · exact ⟨k, hlt, by omega, hlater k hlt hP⟩

theorem settled (h : Shown q R P) (hR : R ≤ q) : P q := by
  obtain ⟨k, hqk, hk, hP⟩ := h
  obtain rfl : q = k := by omega
  exact hP

end Shown

/-- A message of the Bot is still to come after the first `q` changes that the first `B` bring. -/
def Awaited (H : History δ) (b q B : ℕ) : Prop :=
  ∃ (i : ℕ) (m : Message δ) (v : ℕ), v ≤ B ∧ (H.table v)[i]? = some m ∧ m.botId = b ∧
    (H.table q)[i]? = none

theorem Awaited.mono {B' : ℕ} (h : Awaited H b q B) (hB : B ≤ B') : Awaited H b q B' := by
  obtain ⟨i, m, v, hv, hm, hbot, hnone⟩ := h
  exact ⟨i, m, v, hv.trans hB, hm, hbot, hnone⟩

/-- What is to come comes by being created. -/
theorem Awaited.step (hH : H.Valid) (h : Awaited H b q B) (hq : q < H.changes.length)
    (hnot : ∀ m, (H.changes[q]).envelope.event ≠ .messageCreated m ∨ m.botId ≠ b) :
    Awaited H b (q + 1) B := by
  obtain ⟨i, m, v, hv, hm, hbot, hnone⟩ := h
  refine ⟨i, m, v, hv, hm, hbot, History.table_none_succ hH hq hnone fun m' hevent hid => ?_⟩
  have hm' : (H.table (q + 1))[i]? = some m' := by
    rw [← hid, History.table_succ hq]
    simp [Table.apply, hevent]
  rcases hnot m' with hne | hne
  · exact hne hevent
  · exact hne ((History.botId_unique hH hm' hm).trans hbot)

/-- Nothing of the first `q` changes is still to come after them. -/
theorem Awaited.le (hH : H.Valid) (h : Awaited H b q B) : q < B := by
  obtain ⟨i, m, v, hv, hm, -, hnone⟩ := h
  by_contra hle
  obtain ⟨g, hg, -⟩ := History.grows hH (show v ≤ q by omega) hm
  rw [hnone] at hg
  cases hg

def StatusAt (H : History δ) (b : ℕ) (status : BotStatus) (n : ℕ) : Prop :=
  ∃ row, (H.botRows n)[b]? = some row ∧ row.status = status

def ReadAt (H : History δ) (b : ℕ) (readUpTo : Option ℕ) (unread : Bool) (n : ℕ) : Prop :=
  ∃ row, (H.botRows n)[b]? = some row ∧ row.readUpTo = readUpTo ∧
    (H.table n).isUnread b readUpTo = unread

/-- A preview of the Bot's latest message, unless this still streams. -/
def PreviewAt (H : History δ) (b : ℕ) (preview : Option MessagePreview) (n : ℕ) : Prop :=
  preview = ((H.table n).latest b).map (·.preview) ∨
    ∃ m, (H.table n).latest b = some m ∧ m.state = .streaming

/-- A list entry follows the gateway's Bot up to the first `q` events, from a list that reflects the
first `R` changes; nothing loaded reflects more than the first `B`. -/
structure FollowsBot (H : History δ) (B R q b : ℕ) (e : Bot δ) : Prop where
  status : Shown q R (StatusAt H b e.status)
  read : Shown q R (ReadAt H b e.readUpTo e.unread)
  preview : Awaited H b q B ∨ Shown q R (PreviewAt H b e.lastMessage)

/-- The gateway's own entry. -/
theorem shows_bots (h : (H.bots n)[b]? = some e) :
    StatusAt H b e.status n ∧ ReadAt H b e.readUpTo e.unread n ∧
      PreviewAt H b e.lastMessage n := by
  rw [History.bots_get] at h
  obtain ⟨row, hrow, rfl⟩ := Option.map_eq_some_iff.mp h
  obtain rfl : row.id = b := History.botRows_keyed H n hrow
  exact ⟨⟨row, hrow, rfl⟩, ⟨row, hrow, rfl, rfl⟩, .inl rfl⟩

theorem FollowsBot.now (h : (H.bots q)[b]? = some e) : FollowsBot H B R q b e := by
  obtain ⟨hstatus, hread, hpreview⟩ := shows_bots h
  exact ⟨.now hstatus, .now hread, .inr (.now hpreview)⟩

/-- The Bot whose entry an event concerns. -/
def Event.listBot : Event δ → Option ℕ
  | .botCreated bot | .botUpdated bot => some bot.id
  | .botStatusChanged bot _ => some bot
  | .readUpdated read => some read.botId
  | event => event.messageBot

namespace History

theorem botRows_of_ne (hn : n < H.changes.length)
    (hb : (H.changes[n]).envelope.event.listBot ≠ some b) :
    (H.botRows (n + 1))[b]? = (H.botRows n)[b]? := by
  rw [botRows_succ hn]
  unfold applyBot
  split
  · next bot hevent =>
      rw [hevent] at hb
      rw [IdMap.getElem?_insert', if_neg fun h => hb (congrArg some h)]
  · next bot hevent =>
      rw [hevent] at hb
      rw [IdMap.getElem?_insert', if_neg fun h => hb (congrArg some h)]
  · next bot status hevent =>
      rw [hevent] at hb
      split
      · rw [IdMap.getElem?_insert', if_neg fun h => hb (congrArg some h)]
      · rfl
  · next read hevent =>
      rw [hevent] at hb
      split
      · rw [IdMap.getElem?_insert', if_neg fun h => hb (congrArg some h)]
      · rfl
  · rfl

/-- An event about a message leaves the Bots' rows alone. -/
theorem botRows_message (hn : n < H.changes.length)
    (hb : (H.changes[n]).envelope.event.messageBot ≠ none) : H.botRows (n + 1) = H.botRows n := by
  rw [botRows_succ hn]
  unfold applyBot
  cases hevent : (H.changes[n]).envelope.event with
  | messageCreated | messageDelta | messageCompleted => rfl
  | _ => simp [hevent, Event.messageBot] at hb

end History

section Entries

theorem FollowsBot.mono {B B' R q b : ℕ} {e : Bot δ} (h : FollowsBot H B R q b e) (hB : B ≤ B') :
    FollowsBot H B' R q b e :=
  ⟨h.status, h.read, h.preview.imp_left (·.mono hB)⟩

theorem StatusAt.succ {status : BotStatus} (h : StatusAt H b status n)
    (hrow : ((H.botRows (n + 1))[b]?).map (·.status) = ((H.botRows n)[b]?).map (·.status)) :
    StatusAt H b status (n + 1) := by
  obtain ⟨row, hget, rfl⟩ := h
  rw [hget, Option.map_some] at hrow
  exact Option.map_eq_some_iff.mp hrow

theorem ReadAt.succ {readUpTo : Option ℕ} {unread unread' : Bool}
    (h : ReadAt H b readUpTo unread n)
    (hrow : ((H.botRows (n + 1))[b]?).map (·.readUpTo) = ((H.botRows n)[b]?).map (·.readUpTo))
    (hunread : (H.table n).isUnread b readUpTo = unread →
      (H.table (n + 1)).isUnread b readUpTo = unread') :
    ReadAt H b readUpTo unread' (n + 1) := by
  obtain ⟨row, hget, rfl, hread⟩ := h
  rw [hget, Option.map_some] at hrow
  obtain ⟨row', hget', hsame⟩ := Option.map_eq_some_iff.mp hrow
  exact ⟨row', hget', hsame, hunread hread⟩

theorem PreviewAt.succ {preview : Option MessagePreview} (h : PreviewAt H b preview n)
    (hlatest : (H.table (n + 1)).latest b = (H.table n).latest b) :
    PreviewAt H b preview (n + 1) := by
  unfold PreviewAt
  rwa [hlatest]

/-- An event that concerns another Bot's entry, or none. -/
theorem FollowsBot.other (hH : H.BotsValid) (h : FollowsBot H B R q b e)
    (hq : q < H.changes.length) (hb : (H.changes[q]).envelope.event.listBot ≠ some b) :
    FollowsBot H B R (q + 1) b e := by
  have hrow := History.botRows_of_ne hq hb
  have hmessage : (H.changes[q]).envelope.event.messageBot ≠ some b := by
    intro hm
    apply hb
    rw [← hm]
    cases hevent : (H.changes[q]).envelope.event with
    | messageCreated | messageDelta | messageCompleted => rfl
    | _ => simp [hevent, Event.messageBot] at hm
  have hcreated : ∀ m, (H.changes[q]).envelope.event ≠ .messageCreated m ∨ m.botId ≠ b := by
    intro m
    by_contra hboth
    rw [not_or, not_not, not_not] at hboth
    rw [hboth.1] at hmessage
    exact hmessage (congrArg some hboth.2)
  have hlatest := History.latest_succ_of_ne hH hq hmessage
  have hunread : ∀ readUpTo, (H.table (q + 1)).isUnread b readUpTo =
      (H.table q).isUnread b readUpTo := by
    intro readUpTo
    by_cases hm : ∃ m, (H.changes[q]).envelope.event = .messageCreated m
    · obtain ⟨m, hevent⟩ := hm
      have hne := (hcreated m).resolve_left fun hnot => hnot hevent
      rw [History.isUnread_created hH hq hevent, decide_eq_false hne, Bool.false_and,
        Bool.or_false]
    · exact History.isUnread_succ hH hq fun m hevent => hm ⟨m, hevent⟩
  refine ⟨h.status.step (fun hs => hs.succ (by rw [hrow])) fun _ _ => id, ?_, ?_⟩
  · refine h.read.step (fun hr => hr.succ (by rw [hrow]) fun hu => ?_) fun _ _ => id
    rw [hunread, hu]
  · rcases h.preview with hawaited | hshown
    · exact .inl (hawaited.step hH.1 hq hcreated)
    · exact .inr (hshown.step (fun hp => hp.succ hlatest) fun _ _ => id)

/-- An event about the Bot that creates no message of it and says nothing of its status or marker. -/
theorem FollowsBot.message (hH : H.BotsValid) (h : FollowsBot H B R q b e)
    (hq : q < H.changes.length) (hb : (H.changes[q]).envelope.event.messageBot ≠ none)
    (hnot : ∀ m, (H.changes[q]).envelope.event ≠ .messageCreated m)
    (preview : Option MessagePreview)
    (hpreview : Awaited H b (q + 1) B ∨ Shown (q + 1) R (PreviewAt H b preview)) :
    FollowsBot H B R (q + 1) b { e with lastMessage := preview } := by
  have hrows := History.botRows_message hq hb
  refine ⟨h.status.step (fun hs => hs.succ (by rw [hrows])) fun _ _ => id, ?_, hpreview⟩
  refine h.read.step (fun hr => hr.succ (by rw [hrows]) fun hu => ?_) fun _ _ => id
  rw [History.isUnread_succ hH hq hnot, hu]

/-- A message of the Bot is created. -/
theorem FollowsBot.created (hH : H.BotsValid) (h : FollowsBot H B R q b e)
    (hq : q < H.changes.length) {m : Message δ}
    (hevent : (H.changes[q]).envelope.event = .messageCreated m) (hb : m.botId = b)
    {preview : Option MessagePreview}
    (hpreview : Awaited H b (q + 1) B ∨ Shown (q + 1) R (PreviewAt H b preview)) :
    FollowsBot H B R (q + 1) b
      { e with lastMessage := preview, unread := e.unread || m.isUnread e.readUpTo } := by
  have hrows : H.botRows (q + 1) = H.botRows q :=
    History.botRows_message hq (by simp [hevent, Event.messageBot])
  have hnext : ∀ readUpTo, (H.table (q + 1)).isUnread b readUpTo =
      ((H.table q).isUnread b readUpTo || m.isUnread readUpTo) := by
    intro readUpTo
    rw [History.isUnread_created hH hq hevent, decide_eq_true hb, Bool.true_and]
  refine ⟨h.status.step (fun hs => hs.succ (by rw [hrows])) fun _ _ => id, ?_, hpreview⟩
  refine h.read.step (fun hr => hr.succ (by rw [hrows]) fun hu => ?_) fun k hk hr => ?_
  · rw [hnext, hu]
  · -- a list that reflects the message already counts it
    obtain ⟨row, hrow, hread, hu⟩ := hr
    refine ⟨row, hrow, hread, ?_⟩
    cases hm : m.isUnread e.readUpTo with
    | false => rw [hu, Bool.or_false]
    | true =>
        have hafter := hnext e.readUpTo
        rw [hm, Bool.or_true] at hafter
        rw [Bool.or_true]
        exact History.isUnread_mono hH hk hafter

end Entries

end Bokkie
