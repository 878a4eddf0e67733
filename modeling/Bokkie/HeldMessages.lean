import Bokkie.BotHistory
import Bokkie.StoreLoads

/-!
# Messages that never streamed

A message created whole is the same in every page, event and copy: what a client holds of it is what
the gateway wrote.
-/

namespace Bokkie

variable {δ : Type} {H : History δ} {n i : ℕ} {m : Message δ} {messages : IdMap (Message δ)}

/-- A message is the one created whole under its id, if one was. -/
def Faithful (H : History δ) (m : Message δ) : Prop :=
  ∀ n (hn : n < H.changes.length) g, (H.changes[n]).envelope.event = .messageCreated g →
    g.state ≠ .streaming → g.id = m.id → m = g

/-- Every message held stands under its id and is faithful. -/
def AllFaithful (H : History δ) (messages : IdMap (Message δ)) : Prop :=
  ∀ (i : ℕ) m, messages[i]? = some m → m.id = i ∧ Faithful H m

/-- The event is one of the history's. -/
def FromHistory (H : History δ) (envelope : EventEnvelope (Event δ)) : Prop :=
  ∃ (n : ℕ) (hn : n < H.changes.length), (H.changes[n]).envelope = envelope

theorem fromHistory_window {a b : ℕ} {envelope : EventEnvelope (Event δ)}
    (h : envelope ∈ H.window a b) : FromHistory H envelope := by
  have hmem : envelope ∈ H.events := List.mem_of_mem_take (List.mem_of_mem_drop h)
  obtain ⟨change, hchange, rfl⟩ := List.mem_map.mp hmem
  obtain ⟨n, hn, rfl⟩ := List.getElem_of_mem hchange
  exact ⟨n, hn, rfl⟩

theorem faithful_row (hH : H.Valid) (h : (H.table n)[i]? = some m) : Faithful H m := by
  intro k hk g hevent hdone hid
  obtain rfl : m.id = i := H.table_keyed n i m h
  have hnone : (H.table k)[g.id]? = none := by
    have hallows := hH k hk
    unfold Table.Allows at hallows
    rwa [hevent] at hallows
  rw [hid] at hnone
  rcases Nat.lt_or_ge k n with hlt | hle
  · have hget : (H.table (k + 1))[m.id]? = some g := by
      rw [← hid, History.table_succ hk]
      simp [Table.apply, hevent]
    obtain ⟨m', hm', hgrows⟩ := History.grows hH hlt hget
    obtain rfl := Option.some.inj (h.symm.trans hm')
    exact hgrows.settled hdone
  · obtain ⟨m', hm', -⟩ := History.grows hH hle h
    rw [hnone] at hm'
    cases hm'

/-- A message that an event carries whole. -/
theorem faithful_event (hH : H.Valid) (hn : n < H.changes.length)
    (hevent : (H.changes[n]).envelope.event = .messageCreated m ∨
      (H.changes[n]).envelope.event = .messageCompleted m) : Faithful H m :=
  faithful_row hH (table_succ_of_whole hn hevent)

/-- What streams was not created whole. -/
theorem faithful_streamed (hH : H.BotsValid) (hn : n < H.changes.length) {b offset : ℕ}
    {delta : List Char}
    (hevent : (H.changes[n]).envelope.event = .messageDelta b i offset delta) (hid : m.id = i) :
    Faithful H m := by
  intro k hk g hcreated hdone hgid
  have hallows := hH.2 n hn
  rw [hevent] at hallows
  obtain ⟨m₀, hm₀, hs⟩ := hallows
  have hkey := H.table_keyed n i m₀ hm₀
  obtain rfl := faithful_row hH.1 hm₀ k hk g hcreated hdone (hgid.trans (hid.trans hkey.symm))
  exact absurd hs hdone

theorem appendDelta_id {m' : Message δ} {offset : ℕ} {delta : List Char} {changed : Bool}
    (h : m.appendDelta offset delta = some (m', changed)) : m'.id = m.id := by
  unfold Message.appendDelta at h
  split at h
  · obtain ⟨rfl, -⟩ := Prod.mk.inj (Option.some.inj h)
    rfl
  · split at h
    · cases h
    · obtain ⟨rfl, -⟩ := Prod.mk.inj (Option.some.inj h)
      rfl

namespace AllFaithful

theorem insert (h : AllFaithful H messages) (hm : Faithful H m) :
    AllFaithful H (messages.insert m.id m) := by
  intro i m' hm'
  rw [IdMap.getElem?_insert'] at hm'
  split at hm'
  · next hi =>
      obtain rfl := Option.some.inj hm'
      exact ⟨hi, hm⟩
  · exact h i m' hm'

theorem collect {l : List (Message δ)} (h : ∀ m ∈ l, Faithful H m) :
    AllFaithful H (IdMap.collect (·.id) l) := by
  intro i m hm
  obtain ⟨hmem, hid⟩ := IdMap.mem_of_collect hm
  exact ⟨hid, h m hmem⟩

/-- A delta on a message held. -/
theorem delta (hH : H.BotsValid) (h : AllFaithful H messages) {b offset : ℕ} {delta : List Char}
    (hn : n < H.changes.length)
    (hevent : (H.changes[n]).envelope.event = .messageDelta b i offset delta) {m' : Message δ}
    {changed : Bool} (hm : messages[i]? = some m)
    (happend : m.appendDelta offset delta = some (m', changed)) :
    AllFaithful H (messages.insert i m') := by
  have hid : m'.id = i := (appendDelta_id happend).trans (h i m hm).1
  have hfaithful := faithful_streamed hH hn hevent hid
  subst hid
  exact h.insert hfaithful

theorem take [DecidableEq δ] (hH : H.BotsValid) {c : Conversation δ}
    (h : AllFaithful H c.messages) {envelope : EventEnvelope (Event δ)}
    (henvelope : FromHistory H envelope) (bot : ℕ) :
    AllFaithful H (c.take bot envelope).messages := by
  obtain ⟨n, hn, rfl⟩ := henvelope
  unfold Conversation.take
  split
  · exact h
  · unfold Conversation.apply
    split
    · next message hevent =>
        dsimp only
        split
        · exact h
        · exact h.insert (faithful_event hH.1 hn (.inl hevent))
    · next b id offset delta hevent =>
        split
        · exact h
        · next m hm =>
            split
            · next m' changed happend => exact h.delta hH hn hevent hm happend
            · exact h
    · next message hevent => exact h.insert (faithful_event hH.1 hn (.inr hevent))
    · exact h

theorem takes [DecidableEq δ] (hH : H.BotsValid) {c : Conversation δ}
    (h : AllFaithful H c.messages) {l : List (EventEnvelope (Event δ))}
    (hl : ∀ envelope ∈ l, FromHistory H envelope) (bot : ℕ) :
    AllFaithful H (l.foldl (·.take bot ·) c).messages := by
  induction l generalizing c with
  | nil => exact h
  | cons envelope l ih =>
      exact ih (h.take hH (hl envelope List.mem_cons_self) bot) fun e he =>
        hl e (List.mem_cons_of_mem _ he)

theorem replayAllEarlier [DecidableEq δ] (hH : H.BotsValid) {complete : Bool}
    (h : AllFaithful H messages) {l : List (EventEnvelope (Event δ))}
    (hl : ∀ envelope ∈ l, FromHistory H envelope) :
    AllFaithful H (Store.replayAllEarlier messages complete l).1 := by
  induction l generalizing messages complete with
  | nil => exact h
  | cons envelope l ih =>
      refine ih ?_ fun e he => hl e (List.mem_cons_of_mem _ he)
      obtain ⟨n, hn, rfl⟩ := hl envelope List.mem_cons_self
      unfold Store.replayEarlier
      split
      · next b id offset delta hevent =>
          split
          · next m hm =>
              split
              · next m' changed happend => exact h.delta hH hn hevent hm happend
              · exact h
          · exact h
      · next message hevent =>
          split
          · exact h.insert (faithful_event hH.1 hn (.inr hevent))
          · exact h
      · exact h

theorem union {messages' : IdMap (Message δ)} (h : AllFaithful H messages)
    (h' : AllFaithful H messages') : AllFaithful H (messages ∪ messages') := by
  intro i m hm
  rcases IdMap.getElem?_union_eq_some.mp hm with hget | ⟨-, hget⟩
  · exact h' i m hget
  · exact h i m hget

end AllFaithful

/-- The messages of a page that the gateway read. -/
theorem faithful_page (hH : H.Valid) {bot seq reflects limit : ℕ} {before : Option ℕ} {m : Message δ}
    (h : m ∈ (App.page H bot before seq reflects limit).messages) :
    (H.table reflects)[m.id]? = some m ∧ m.botId = bot ∧ Faithful H m := by
  obtain ⟨hget, hbot, -⟩ := Table.mem_messages (H.table_keyed reflects) h
  exact ⟨hget, hbot, faithful_row hH hget⟩

/-- Every conversation's copy is faithful. -/
def HoldsFaithful (H : History δ) (s : Store δ) : Prop :=
  ∀ (b : ℕ) c, s.conversations[b]? = some c → AllFaithful H c.messages

theorem HoldsFaithful.of_eq {s t : Store δ} (h : HoldsFaithful H s)
    (heq : t.conversations = s.conversations) : HoldsFaithful H t := by
  intro b c hc
  rw [heq] at hc
  exact h b c hc

/-- One conversation is edited. -/
theorem HoldsFaithful.edit {s t : Store δ} (h : HoldsFaithful H s) {bot : ℕ}
    {f : Conversation δ → Conversation δ}
    (hf : ∀ c, AllFaithful H c.messages → AllFaithful H (f c).messages)
    (hedit : ∀ b : ℕ, t.conversations[b]? =
      if bot = b then (s.conversations[b]?).map f else s.conversations[b]?) :
    HoldsFaithful H t := by
  intro b c hc
  rw [hedit] at hc
  split at hc
  · obtain ⟨c₀, hc₀, rfl⟩ := Option.map_eq_some_iff.mp hc
    exact hf c₀ (h b c₀ hc₀)
  · exact h b c hc

variable [DecidableEq δ] {app app' : App δ} {h₀ : ℕ}

/-- Whatever the client does, what it holds stays faithful. -/
theorem holdsFaithful_step (hH : H.BotsValid) (hloads : App.Loads H h₀ app)
    (h : HoldsFaithful H app.store) {action : App.Action δ}
    (hstep : App.step H app action = some app') : HoldsFaithful H app'.store := by
  have hheld : ∀ seq : ℕ, ∀ envelope ∈ app.store.held.filter fun e => e.seq > seq,
      FromHistory H envelope := by
    intro seq envelope hmem
    have hwindow := List.mem_of_mem_filter hmem
    rw [hloads.held] at hwindow
    exact fromHistory_window hwindow
  cases action with
  | request x =>
      obtain rfl := Option.some.inj hstep
      exact h.of_eq rfl
  | requestOlder b =>
      obtain rfl := Option.some.inj hstep
      obtain ⟨hedit, -, -⟩ := app.store.requestOlder_spec b
      refine HoldsFaithful.edit h (fun c hc => ?_) hedit
      exact hc
  | reloadAll =>
      obtain rfl := Option.some.inj hstep
      exact h.of_eq rfl
  | messages b seq reflects limit =>
      unfold App.step at hstep
      cases hask : app.asks (.messages b) with
      | none => simp [hask] at hstep
      | some ask =>
          by_cases hanswers : App.answers H seq reflects ask = true
          · simp only [hask, if_pos hanswers] at hstep
            have hspec := (app.store.loadMessages_spec b
              (App.page H b none seq reflects limit)).2.1
            generalize (app.store.loadMessages b (App.page H b none seq reflects limit)).1 =
              store at *
            obtain rfl := Option.some.inj hstep
            intro b' c hc
            change store.conversations[b']? = some c at hc
            rw [hspec] at hc
            split at hc
            · obtain rfl := Option.some.inj hc
              refine AllFaithful.takes hH ?_ (hheld _) b
              exact AllFaithful.collect fun m hm => (faithful_page hH.1 hm).2.2
            · exact h b' c hc
          · simp [hask, hanswers] at hstep
  | older b seq reflects limit =>
      unfold App.step at hstep
      rcases hask : app.asks (.older b) with _ | ⟨had, _ | before⟩
      · simp [hask] at hstep
      · simp [hask] at hstep
      · by_cases hanswers : App.answers H seq reflects ⟨had, some before⟩ = true
        · simp only [hask, if_pos hanswers] at hstep
          have hspec := (app.store.loadOlder_spec b before
            (App.page H b (some before) seq reflects limit)).2
          generalize (app.store.loadOlder b before
            (App.page H b (some before) seq reflects limit)).1 = store at *
          obtain rfl := Option.some.inj hstep
          refine HoldsFaithful.edit (t := store) h (fun c hc => ?_) hspec
          unfold Store.mergeOlder
          split
          · dsimp only
            split
            · refine hc.union (AllFaithful.replayAllEarlier hH ?_ (hheld _))
              exact AllFaithful.collect fun m hm =>
                (faithful_page hH.1 (List.mem_of_mem_filter hm)).2.2
            · exact hc
          · exact hc
        · simp [hask, hanswers] at hstep
  | bots list =>
      obtain rfl := Option.some.inj hstep
      exact h.of_eq (app.store.loadBots_spec list).2
  | routines b list =>
      obtain rfl := Option.some.inj hstep
      exact h.of_eq (app.store.loadRoutines_spec b list).2
  | failed x =>
      have hspec := (app.store.loadFailed_spec x).2
      have hfailed : HoldsFaithful H (app.store.loadFailed x) := by
        intro b c hc
        rw [hspec] at hc
        split at hc
        · obtain ⟨c₀, hc₀, rfl⟩ := Option.map_eq_some_iff.mp hc
          exact h b c₀ hc₀
        · exact h b c hc
      unfold App.step at hstep
      dsimp only at hstep
      split at hstep
      · obtain rfl := Option.some.inj hstep
        exact hfailed
      · obtain rfl := Option.some.inj hstep
        exact hfailed
  | closeConversation b =>
      obtain rfl := Option.some.inj hstep
      have hspec := (app.store.closeConversation_spec b).2
      intro b' c hc
      change (app.store.closeConversation b).conversations[b']? = some c at hc
      rw [hspec] at hc
      split at hc
      · cases hc
      · exact h b' c hc
  | closeRoutines b =>
      obtain rfl := Option.some.inj hstep
      exact h.of_eq (app.store.closeRoutines_spec b).2
  | deliver =>
      unfold App.step at hstep
      cases hnext : H.events[app.position]? with
      | none => simp [hnext] at hstep
      | some envelope =>
          simp only [hnext] at hstep
          have hspec := (app.store.apply_spec envelope).1
          generalize (app.store.apply envelope).1 = store at *
          obtain rfl := Option.some.inj hstep
          intro b c hc
          change store.conversations[b]? = some c at hc
          rw [hspec] at hc
          obtain ⟨hq, henvelope⟩ := App.next_envelope hnext
          split at hc
          · obtain ⟨c₀, hc₀, rfl⟩ := Option.map_eq_some_iff.mp hc
            exact (h b c₀ hc₀).take hH ⟨app.position, hq, henvelope⟩ b
          · exact h b c hc

end Bokkie
