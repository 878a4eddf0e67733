import Bokkie.ConversationPages
import Bokkie.StoreSchedule

/-!
# Older pages

The messages of an older page are brought to where the conversation's copy stands by the events
held since the page was read, and then merged into it.
-/

namespace Bokkie

variable {δ : Type} {H : History δ} {bot q r p R i : ℕ} {c : Conversation δ}
  {e : IdMap (Message δ)}

/-- The messages of an older page, read after `r` changes and brought up to `q` events. -/
def Earlier (H : History δ) (bot q r : ℕ) (e : IdMap (Message δ)) : Prop :=
  ∀ (i : ℕ) m, e[i]? = some m → m.botId = bot ∧ Tracks H bot q i m r

/-- Two maps hold messages under the same ids. -/
def SameIds (e e' : IdMap (Message δ)) : Prop := ∀ i : ℕ, e'[i]? = none ↔ e[i]? = none

theorem SameIds.refl (e : IdMap (Message δ)) : SameIds e e := fun _ => Iff.rfl

theorem SameIds.trans {e' e'' : IdMap (Message δ)} (h : SameIds e e') (h' : SameIds e' e'') :
    SameIds e e'' := fun i => (h' i).trans (h i)

theorem SameIds.exists {e' : IdMap (Message δ)} (h : SameIds e e') {m : Message δ}
    (hm : e[i]? = some m) : ∃ m', e'[i]? = some m' := by
  cases hget : e'[i]? with
  | none =>
      rw [(h i).mp hget] at hm
      cases hm
  | some m' => exact ⟨m', rfl⟩

theorem sameIds_insert {m m' : Message δ} (h : e[i]? = some m) : SameIds e (e.insert i m') := by
  intro j
  by_cases hj : i = j
  · subst hj
    simp [h]
  · simp [hj]

/-- A message that the event completes is the gateway's, even read after the event. -/
theorem tracks_completed (hH : H.Valid) {message m : Message δ} (h : Tracks H bot q message.id m r)
    (hown : m.botId = bot) (hq : q < H.changes.length)
    (hevent : (H.changes[q]).envelope.event = .messageCompleted message) :
    message.botId = bot ∧ Tracks H bot (q + 1) message.id message r := by
  have hnew := table_succ_of_whole hq (.inr hevent)
  have hallows := hH q hq
  unfold Table.Allows at hallows
  rw [hevent] at hallows
  obtain ⟨m₀, hm₀, hbot, hs, hdone⟩ := hallows
  obtain ⟨g, hg, hgbot, -⟩ := h
  rcases Nat.lt_or_ge q r with hlt | hge
  · obtain ⟨g', hg', hgrows⟩ := History.grows hH hlt hnew
    obtain rfl := hgrows.settled hdone
    rw [Nat.max_eq_right hlt.le] at hg
    obtain rfl := Option.some.inj (hg.symm.trans hg')
    exact ⟨hgbot.trans hown, tracks_of_table (by rwa [Nat.max_eq_right hlt])⟩
  · rw [Nat.max_eq_left hge, hm₀] at hg
    obtain rfl := Option.some.inj hg
    exact ⟨hbot.symm.trans (hgbot.trans hown), tracks_whole hq (.inr hevent) hge⟩

/-- Messages that the event is not about stay where they are. -/
theorem Earlier.advance (hH : H.Valid) (h : Earlier H bot q r e) (hq : q < H.changes.length)
    (hcase : ∀ (i : ℕ) m, e[i]? = some m →
      (H.changes[q]).envelope.event.messageId ≠ some i ∨ q < r) :
    Earlier H bot (q + 1) r e := by
  intro i m hm
  obtain ⟨hown, htracks⟩ := h i m hm
  refine ⟨hown, htracks.advance hH hq ?_⟩
  rcases hcase i m hm with hne | hlt
  · exact .inl hne
  · exact .inr (.inl hlt)

/-- One message is put in its place, the others stay. -/
theorem Earlier.insert (hH : H.Valid) (h : Earlier H bot q r e) (hq : q < H.changes.length)
    {m : Message δ} (hid : (H.changes[q]).envelope.event.messageId = some i)
    (hm : m.botId = bot ∧ Tracks H bot (q + 1) i m r) :
    Earlier H bot (q + 1) r (e.insert i m) := by
  intro j m' hm'
  by_cases hj : i = j
  · subst hj
    obtain rfl : m = m' := by simpa using hm'
    exact hm
  · obtain ⟨hown, htracks⟩ := h j m' (by simpa [hj] using hm')
    exact ⟨hown, htracks.advance hH hq (.inl fun h' => hj (Option.some.inj (hid.symm.trans h')))⟩

/-- One held event replayed onto the messages of an older page. -/
theorem Earlier.step (hH : H.Valid) (h : Earlier H bot q r e) (hq : q < H.changes.length) :
    ∃ e', Store.replayEarlier e (H.changes[q]).envelope.event = (e', true) ∧
      Earlier H bot (q + 1) r e' ∧ SameIds e e' := by
  cases hevent : (H.changes[q]).envelope.event with
  | messageDelta b id offset delta =>
      have hid : (H.changes[q]).envelope.event.messageId = some id := by rw [hevent]; rfl
      cases hm : e[id]? with
      | none =>
          refine ⟨e, by simp only [Store.replayEarlier, hm], ?_, SameIds.refl e⟩
          refine h.advance hH hq fun i m hi => .inl fun h' => ?_
          obtain rfl := Option.some.inj (hid.symm.trans h')
          rw [hm] at hi
          cases hi
      | some m =>
          obtain ⟨hown, htracks⟩ := h id m hm
          obtain ⟨m', changed, hm', htracks'⟩ := htracks.delta hH hown hq hevent
          refine ⟨e.insert id m', by simp only [Store.replayEarlier, hm, hm'], ?_,
            sameIds_insert hm⟩
          exact h.insert hH hq hid ⟨(appendDelta_botId hm').trans hown, htracks'⟩
  | messageCompleted message =>
      have hid : (H.changes[q]).envelope.event.messageId = some message.id := by rw [hevent]; rfl
      by_cases hmem : message.id ∈ e
      · obtain ⟨m, hm⟩ : ∃ m, e[message.id]? = some m :=
          ⟨e[message.id], Std.ExtTreeMap.getElem?_eq_some_getElem hmem⟩
        obtain ⟨hown, htracks⟩ := h message.id m hm
        refine ⟨e.insert message.id message, by simp only [Store.replayEarlier, if_pos hmem], ?_,
          sameIds_insert hm⟩
        exact h.insert hH hq hid (tracks_completed hH htracks hown hq hevent)
      · refine ⟨e, by simp only [Store.replayEarlier, if_neg hmem], ?_, SameIds.refl e⟩
        refine h.advance hH hq fun i m hi => .inl fun h' => hmem ?_
        obtain rfl := Option.some.inj (hid.symm.trans h')
        rw [Std.ExtTreeMap.mem_iff_isSome_getElem?, hi]
        rfl
  | messageCreated message =>
      refine ⟨e, rfl, ?_, SameIds.refl e⟩
      refine h.advance hH hq fun i m hi => ?_
      by_cases hid : message.id = i
      · subst hid
        obtain ⟨hown, htracks⟩ := h message.id m hi
        exact .inr (htracks.created hH hown hq hevent).1
      · rw [hevent]
        exact .inl (by simpa [Event.messageId] using hid)
  | _ =>
      refine ⟨e, rfl, ?_, SameIds.refl e⟩
      exact h.advance hH hq fun i m _ => .inl (by simp [hevent, Event.messageId])

/-- The held events bring an older page's messages to the position, and lose none. -/
theorem Earlier.replay (hH : H.Valid) {s : ℕ} (h : Earlier H bot s r e) (hsp : s ≤ p)
    (hp : p ≤ H.changes.length) (complete : Bool) :
    ∃ e', Store.replayAllEarlier e complete (H.window s p) = (e', complete) ∧
      Earlier H bot p r e' ∧ SameIds e e' := by
  induction p, hsp using Nat.le_induction with
  | base =>
      rw [History.window_of_le le_rfl]
      exact ⟨e, rfl, h, SameIds.refl e⟩
  | succ p hsp ih =>
      obtain ⟨e₁, hfold, h₁, hids⟩ := ih (by omega)
      obtain ⟨e₂, hstep, h₂, hids'⟩ := h₁.step hH hp
      refine ⟨e₂, ?_, h₂, hids.trans hids'⟩
      unfold Store.replayAllEarlier at hfold ⊢
      rw [History.window_succ hsp hp, List.foldl_append, hfold]
      simp only [List.foldl_cons, List.foldl_nil, hstep, Bool.and_true]

/-- A page marked stale is not brought up to date. -/
theorem replayAllEarlier_stale (e : IdMap (Message δ)) (l : List (EventEnvelope (Event δ))) :
    (Store.replayAllEarlier e false l).2 = false := by
  induction l generalizing e with
  | nil => rfl
  | cons envelope l ih => exact ih (Store.replayEarlier e envelope.event).1

section Page

variable {s limit before : ℕ}

/-- What an older page adds, just read. -/
theorem earlier_page (hqr : q ≤ r) :
    Earlier H bot q r (Store.earlierOf c bot before (App.page H bot (some before) s r limit)) := by
  intro i m hm
  obtain ⟨hmem, rfl⟩ := IdMap.mem_of_collect hm
  obtain ⟨hget, hown, -⟩ := Table.mem_messages (H.table_keyed r) (List.mem_filter.mp hmem).1
  exact ⟨hown, tracks_of_table (by rwa [Nat.max_eq_right hqr])⟩

/-- An older page adds every message from its cursor up to the copy's that the copy lacks. -/
theorem mem_earlier_page {g : Message δ} (hg : (H.table r)[i]? = some g) (hown : g.botId = bot)
    (hbefore : i < before)
    (hcursor : ∀ cursor, ((H.table r).messages bot (some before) limit).2 = some cursor →
      cursor ≤ i) (hlacks : c.messages[i]? = none) :
    ∃ m, (Store.earlierOf c bot before (App.page H bot (some before) s r limit))[i]? = some m := by
  obtain rfl := H.table_keyed r i g hg
  have hmem := Table.messages_complete (some before) limit (H.table_keyed r)
    hg hown (by simpa using hbefore) hcursor
  have hnot : g.id ∉ c.messages := by
    rw [Std.ExtTreeMap.mem_iff_isSome_getElem?, hlacks]
    simp
  have hfilter : g ∈ ((H.table r).messages bot (some before) limit).1.filter fun m =>
      m.botId = bot && decide (m.id < before) && decide (m.id ∉ c.messages) :=
    List.mem_filter.mpr ⟨hmem, by simp [hown, hbefore, hnot]⟩
  obtain ⟨m, -, hm⟩ := IdMap.collect_of_mem (fun m : Message δ => m.id) hfilter
  exact ⟨m, hm⟩

/-- The copy with an older page merged into it. -/
def Conversation.merge (c : Conversation δ) (e : IdMap (Message δ)) (older : Option ℕ) :
    Conversation δ :=
  { c with requestedOlder := none, messages := c.messages ∪ e, older := older }

theorem held_merge {m : Message δ} (h : c.messages[i]? = some m) (e : IdMap (Message δ))
    (older : Option ℕ) : ∃ m', (c.merge e older).messages[i]? = some m' := by
  cases hget : e[i]? with
  | none => exact ⟨m, IdMap.getElem?_union_eq_some.mpr (.inr ⟨hget, h⟩)⟩
  | some m' => exact ⟨m', IdMap.getElem?_union_eq_some.mpr (.inl hget)⟩

/-- The merged copy follows the gateway: below the old cursor a message either was there when the
page was read, or came later and so after the copy's newest page. -/
theorem Follows.merge (hH : H.Valid) (h : Follows H bot p R c) (hcs : c.seq ≤ s) (hsr : s ≤ r)
    (holder : c.older = some before) (he : Earlier H bot p r e)
    (hids : SameIds (Store.earlierOf c bot before (App.page H bot (some before) s r limit)) e) :
    Follows H bot p (max R r)
      (c.merge e ((H.table r).messages bot (some before) limit).2) where
  seq_le := h.seq_le.trans (le_max_left R r)
  held i m hm := by
    rcases IdMap.getElem?_union_eq_some.mp hm with hnew | ⟨-, hold⟩
    · exact ⟨r, hcs.trans hsr, le_max_right R r, (he i m hnew).2⟩
    · obtain ⟨r', hseq, hR, htracks⟩ := h.held i m hold
      exact ⟨r', hseq, hR.trans (le_max_left R r), htracks⟩
  fromCursor i g hg hown hcursor := by
    change (H.table (max p c.seq))[i]? = some g at hg
    cases hlacks : c.messages[i]? with
    | some m => exact held_merge hlacks e _
    | none =>
        have hbefore : i < before := by
          by_contra hge
          obtain ⟨m, hm⟩ := h.fromCursor i g hg hown fun cursor hc => by
            obtain rfl := Option.some.inj (holder.symm.trans hc)
            omega
          rw [hlacks] at hm
          cases hm
        cases hread : (H.table s)[i]? with
        | some g₀ =>
            obtain ⟨g₁, hg₁, hgrows⟩ := History.grows hH hsr hread
            have hown₁ : g₁.botId = bot := by
              rcases Nat.le_total (max p c.seq) r with hle | hle
              · obtain ⟨g₂, hg₂, hgrows₂⟩ := History.grows hH hle hg
                obtain rfl := Option.some.inj (hg₁.symm.trans hg₂)
                exact hgrows₂.botId.trans hown
              · obtain ⟨g₂, hg₂, hgrows₂⟩ := History.grows hH hle hg₁
                obtain rfl := Option.some.inj (hg.symm.trans hg₂)
                exact hgrows₂.botId.symm.trans hown
            obtain ⟨m, hm⟩ := mem_earlier_page (s := s) hg₁ hown₁ hbefore hcursor hlacks
            obtain ⟨m', hm'⟩ := hids.exists hm
            exact ⟨m', IdMap.getElem?_union_eq_some.mpr (.inl hm')⟩
        | none =>
            have hlater : s < max p c.seq := by
              by_contra hle
              obtain ⟨g₁, hg₁, -⟩ := History.grows hH (Nat.le_of_not_lt hle) hg
              rw [hread] at hg₁
              cases hg₁
            have hnone : (H.table c.seq)[i]? = none := by
              cases hget : (H.table c.seq)[i]? with
              | none => rfl
              | some g₁ =>
                  obtain ⟨g₂, hg₂, -⟩ := History.grows hH hcs hget
                  rw [hread] at hg₂
                  cases hg₂
            rw [Nat.max_eq_left (by omega)] at hg
            obtain ⟨m, hm⟩ := h.sinceSeq i g hg hown hnone
            rw [hlacks] at hm
            cases hm
  sinceSeq i g hg hown hnone := by
    obtain ⟨m, hm⟩ := h.sinceSeq i g hg hown hnone
    exact held_merge hm e _

end Page

end Bokkie
