import Bokkie.OlderPages
import Bokkie.StoreFrames

/-!
# What the store's operations do to the conversations

An event edits one conversation at most, a newest page puts a copy in place and replays the held
events onto it, and an older page is merged into the copy that asked for it.
-/

namespace Bokkie

namespace Store

variable {δ : Type} {s t u : Store δ} {bot : ℕ}

/-- Two stores with the same loads under way, whose conversations differ by an edit of one. -/
structure Edits (bot : ℕ) (f : Conversation δ → Conversation δ) (s t : Store δ) : Prop where
  conversation : ∀ b : ℕ, t.conversations[b]? =
    if bot = b then (s.conversations[b]?).map f else s.conversations[b]?
  loading : t.loading = s.loading
  held : t.held = s.held
  stale : t.stale = s.stale

theorem Edits.refl (bot : ℕ) (s : Store δ) : Edits bot id s s := ⟨fun b => by simp, rfl, rfl, rfl⟩

theorem Edits.trans {f g : Conversation δ → Conversation δ} (h : Edits bot f s t)
    (h' : Edits bot g t u) : Edits bot (fun c => g (f c)) s u where
  conversation b := by
    rw [h'.conversation b, h.conversation b]
    by_cases hb : bot = b
    · simp only [if_pos hb, Option.map_map]
      rfl
    · simp only [if_neg hb]
  loading := h'.loading.trans h.loading
  held := h'.held.trans h.held
  stale := h'.stale.trans h.stale

theorem Edits.frame {f : Conversation δ → Conversation δ} (h : Edits bot f s t) (h' : Frame t u) :
    Edits bot f s u :=
  ⟨fun b => by rw [h'.conversations, h.conversation b], h'.loading.trans h.loading,
    h'.held.trans h.held, h'.stale.trans h.stale⟩

theorem get_insert {conversations : IdMap (Conversation δ)} {c : Conversation δ}
    (hc : conversations[bot]? = some c) (f : Conversation δ → Conversation δ) (b : ℕ) :
    (conversations.insert bot (f c))[b]? =
      if bot = b then (conversations[b]?).map f else conversations[b]? := by
  rw [IdMap.getElem?_insert']
  by_cases hb : bot = b
  · subst hb
    simp [hc]
  · simp only [if_neg hb]

theorem edits_clearRequestedOlder (s : Store δ) (bot : ℕ) :
    Edits bot (fun c => { c with requestedOlder := none }) s (s.clearRequestedOlder bot) := by
  unfold clearRequestedOlder
  split
  · next c hc =>
      exact ⟨get_insert hc fun c => { c with requestedOlder := none }, rfl, rfl, rfl⟩
  · next hc =>
      refine ⟨fun b => ?_, rfl, rfl, rfl⟩
      by_cases hb : bot = b
      · subst hb
        simp [hc]
      · simp only [if_neg hb]

theorem hold_conversations (s : Store δ) (envelope : EventEnvelope (Event δ)) :
    (s.hold envelope).conversations = s.conversations := by
  unfold hold
  split
  · rfl
  · split <;> rfl

theorem hold_loading (s : Store δ) (envelope : EventEnvelope (Event δ)) :
    (s.hold envelope).loading = s.loading := by
  unfold hold
  split
  · rfl
  · split <;> rfl

/-- A snapshot that fails to load drops the cursor requested for an older page, no more. -/
theorem loadFailed_spec (s : Store δ) (snapshot : Snapshot) :
    Released s (s.loadFailed snapshot) {snapshot} ∧
    ∀ b : ℕ, (s.loadFailed snapshot).conversations[b]? =
      if snapshot = .older b then
        (s.conversations[b]?).map fun c => { c with requestedOlder := none }
      else s.conversations[b]? := by
  have hforget : ∀ t : Store δ, t.loading = (s.forget snapshot).loading → t.held = s.held →
      t.stale = (s.forget snapshot).stale → Released s t.settle {snapshot} := by
    intro t hloading hheld hstale
    refine released_settle ?_ hheld ?_
    · rw [hloading, Finset.sdiff_singleton_eq_erase]
      rfl
    · rw [hstale, Finset.sdiff_singleton_eq_erase]
      exact subset_rfl
  unfold loadFailed
  dsimp only
  split
  · next bot =>
      have h := edits_clearRequestedOlder (s.forget (.older bot)) bot
      refine ⟨hforget _ h.loading h.held h.stale, fun b => ?_⟩
      rw [settle_conversations, h.conversation b]
      simp [forget]
  · next snapshot hne =>
      refine ⟨hforget _ rfl rfl rfl, fun b => ?_⟩
      rw [settle_conversations, if_neg (hne b)]
      rfl

/-- Asking for an older page notes the cursor it is asked for, if the copy has one. -/
theorem requestOlder_spec (s : Store δ) (bot : ℕ) :
    (∀ b : ℕ, (s.requestOlder bot).1.conversations[b]? =
      if bot = b then
        (s.conversations[b]?).map fun c => { c with requestedOlder := (s.requestOlder bot).2 }
      else s.conversations[b]?) ∧
    ((s.requestOlder bot).2 = none → Released s (s.requestOlder bot).1 {.older bot}) ∧
    ((s.requestOlder bot).2 ≠ none →
      (s.requestOlder bot).1.loading = insert (.older bot) s.loading ∧
      (s.requestOlder bot).1.held = s.held ∧ (s.requestOlder bot).1.stale = s.stale) := by
  cases hc : s.conversations[bot]? with
  | none =>
      have hunfold : s.requestOlder bot = (s.loadFailed (.older bot), none) := by
        simp [requestOlder, hc]
      obtain ⟨hreleased, hconversations⟩ := loadFailed_spec s (.older bot)
      rw [hunfold]
      refine ⟨fun b => ?_, fun _ => hreleased, fun h => absurd rfl h⟩
      rw [hconversations b]
      simp
  | some c =>
      let asked : Store δ := { s with
        conversations := s.conversations.insert bot { c with requestedOlder := c.older } }
      have hasked : ∀ b : ℕ, asked.conversations[b]? = if bot = b then
          (s.conversations[b]?).map fun c => { c with requestedOlder := c.older }
          else s.conversations[b]? :=
        get_insert hc fun c => { c with requestedOlder := c.older }
      cases holder : c.older with
      | none =>
          have hunfold : s.requestOlder bot = (asked.loadFailed (.older bot), none) := by
            simp [requestOlder, asked, hc, holder]
          obtain ⟨hreleased, hconversations⟩ := loadFailed_spec asked (.older bot)
          rw [hunfold]
          refine ⟨fun b => ?_, fun _ => hreleased.of_eq rfl rfl rfl, fun h => absurd rfl h⟩
          rw [hconversations b, hasked b]
          by_cases hb : bot = b
          · subst hb
            simp [hc]
          · simp [hb]
      | some cursor =>
          have hunfold : s.requestOlder bot =
              ({ asked with loading := insert (.older bot) asked.loading }, some cursor) := by
            simp [requestOlder, asked, hc, holder]
          rw [hunfold]
          refine ⟨fun b => ?_, fun h => absurd h (by simp), fun _ => ⟨rfl, rfl, rfl⟩⟩
          rw [hasked b]
          by_cases hb : bot = b
          · subst hb
            simp [hc, holder]
          · simp only [if_neg hb]

theorem closeConversation_spec (s : Store δ) (bot : ℕ) :
    Released s (s.closeConversation bot) {.messages bot, .older bot} ∧
    ∀ b : ℕ, (s.closeConversation bot).conversations[b]? =
      if bot = b then none else s.conversations[b]? := by
  have herase : ∀ x : Finset Snapshot,
      (x.erase (.messages bot)).erase (.older bot) = x \ {.messages bot, .older bot} := by
    intro x
    ext y
    simp only [Finset.mem_erase, Finset.mem_sdiff, Finset.mem_insert, Finset.mem_singleton]
    tauto
  refine ⟨released_settle (herase _) rfl (herase _).ge, fun b => ?_⟩
  unfold closeConversation
  dsimp only
  rw [settle_conversations]
  exact IdMap.getElem?_erase'

theorem closeRoutines_spec (s : Store δ) (bot : ℕ) :
    Released s (s.closeRoutines bot) {.routines bot} ∧
    (s.closeRoutines bot).conversations = s.conversations := by
  have herase : ∀ x : Finset Snapshot, x.erase (.routines bot) = x \ {.routines bot} :=
    fun x => (Finset.sdiff_singleton_eq_erase _ x).symm
  exact ⟨released_settle (herase _) rfl (herase _).ge, settle_conversations _⟩

section Events

variable [DecidableEq δ]

theorem edits_applyToConversation (s : Store δ) (bot : ℕ) (envelope : EventEnvelope (Event δ)) :
    Edits bot (·.take bot envelope) s (s.applyToConversation bot envelope).1 := by
  unfold applyToConversation
  split
  · next hc =>
      refine ⟨fun b => ?_, rfl, rfl, rfl⟩
      by_cases hb : bot = b
      · subst hb
        simp [hc]
      · simp only [if_neg hb]
  · next c hc =>
      by_cases hseq : envelope.seq ≤ c.seq
      · refine ⟨fun b => ?_, by simp [hseq], by simp [hseq], by simp [hseq]⟩
        by_cases hb : bot = b
        · subst hb
          simp [hc, Conversation.take, hseq]
        · simp [hseq, hb]
      · simp only [if_neg hseq]
        refine ⟨fun b => ?_, rfl, rfl, rfl⟩
        rw [IdMap.getElem?_insert']
        by_cases hb : bot = b
        · subst hb
          simp [hc, Conversation.take, hseq]
        · simp only [if_neg hb]

/-- The held events are replayed onto one conversation as events are applied to it. -/
theorem edits_replay (bot seq : ℕ) (held : List (EventEnvelope (Event δ)))
    (o : Store δ × Applied) :
    Edits bot (fun c => (held.filter fun e => e.seq > seq).foldl (·.take bot ·) c) o.1
      (replay (fun s envelope => s.applyToConversation bot envelope) seq held o).1 := by
  induction held generalizing o with
  | nil => exact Edits.refl bot o.1
  | cons e held ih =>
      rw [replay, List.foldl_cons]
      by_cases hseq : e.seq > seq
      · have hfirst := edits_applyToConversation o.1 bot e
        have hrest := ih ((o.1.applyToConversation bot e).1,
          o.2.merge (o.1.applyToConversation bot e).2)
        simpa [hseq, replay] using hfirst.trans hrest
      · simpa [hseq, replay] using ih o

/-- An event edits the conversation of the Bot it is about, after it has been held. -/
theorem apply_spec (s : Store δ) (envelope : EventEnvelope (Event δ)) :
    (∀ b : ℕ, (s.apply envelope).1.conversations[b]? =
      if envelope.event.messageBot = some b then (s.conversations[b]?).map (·.take b envelope)
      else s.conversations[b]?) ∧
    s.loading ⊆ (s.apply envelope).1.loading ∧
    (s.apply envelope).1.held = (s.hold envelope).held ∧
    (s.apply envelope).1.stale = (s.hold envelope).stale := by
  have hrest : ∀ t : Store δ, Frame t
      (((t.applyToBots envelope).1.applyToRoutines envelope).1.applyToUsage envelope.event).1 :=
    fun t => ((frame_applyToBots envelope).trans (frame_applyToRoutines envelope)).trans
      (frame_applyToUsage envelope.event)
  unfold apply
  dsimp only
  cases hbot : envelope.event.messageBot with
  | none =>
      have h := hrest (s.hold envelope)
      refine ⟨fun b => ?_, ?_, h.held, h.stale⟩
      · rw [if_neg (by simp), finish_conversations, h.conversations, hold_conversations]
      · rw [← hold_loading s envelope, ← h.loading]
        exact Finset.subset_union_left
  | some bot =>
      have h := (edits_applyToConversation (s.hold envelope) bot envelope).frame (hrest _)
      refine ⟨fun b => ?_, ?_, h.held, h.stale⟩
      · rw [finish_conversations, h.conversation b, hold_conversations]
        by_cases hb : bot = b
        · subst hb
          simp
        · simp [hb]
      · rw [← hold_loading s envelope, ← h.loading]
        exact Finset.subset_union_left

/-- A newest page puts a copy in place, and the held events after its `seq` are replayed onto it.
A load that had gone stale loads again. -/
theorem loadMessages_spec (s : Store δ) (bot : ℕ) (page : MessagePage δ) :
    Released s (s.loadMessages bot page).1 {.messages bot} ∧
    (∀ b : ℕ, (s.loadMessages bot page).1.conversations[b]? =
      if bot = b then some ((s.held.filter fun e => e.seq > page.seq).foldl (·.take bot ·)
        (Conversation.ofPage page))
      else s.conversations[b]?) ∧
    (.messages bot ∈ s.stale → .messages bot ∈ (s.loadMessages bot page).1.loading) := by
  obtain ⟨t, htframe, hunfold⟩ : ∃ t, Frame s t ∧ s.loadMessages bot page =
      loaded { t with conversations := t.conversations.insert bot (Conversation.ofPage page) }
        (fun s envelope => s.applyToConversation bot envelope) page.seq (.messages bot) := by
    unfold loadMessages
    dsimp only
    split
    · exact ⟨_, frame_noteNewest _ _, rfl⟩
    · exact ⟨_, Frame.refl s, rfl⟩
  let placed : Store δ :=
    { t with conversations := t.conversations.insert bot (Conversation.ofPage page) }
  have hedits := edits_replay bot page.seq placed.held
    ({ placed with loading := placed.loading.erase (.messages bot) }, .ofChanged true)
  obtain ⟨hreleased, hconversations, hreload⟩ :=
    loaded_spec (s := placed) rfl hedits.loading hedits.held hedits.stale
  rw [hunfold]
  refine ⟨hreleased.of_eq htframe.loading htframe.held htframe.stale, fun b => ?_, ?_⟩
  · rw [hconversations, hedits.conversation b, ← htframe.held, ← htframe.conversations]
    by_cases hb : bot = b
    · subst hb
      simp [placed]
    · simp [placed, hb]
  · rw [← htframe.stale]
    exact hreload

theorem loadBots_spec (s : Store δ) (list : BotList δ) :
    Released s (s.loadBots list).1 {.bots} ∧
    (s.loadBots list).1.conversations = s.conversations := by
  let placed : Store δ := { s with
    bots := IdMap.collect (·.id) list.bots
    botsSeq := some list.seq
    newest := s.newest.filter fun bot _ => bot ∈ IdMap.collect (·.id) list.bots
    errors := s.errors.filter fun bot _ => bot ∈ IdMap.collect (·.id) list.bots }
  have h := frame_replay (fun t e => frame_applyToBots (s := t) e) list.seq placed.held
    ({ placed with loading := placed.loading.erase .bots }, .ofChanged true)
  obtain ⟨hreleased, hconversations, -⟩ := loaded_spec (s := placed) rfl h.loading h.held h.stale
  exact ⟨hreleased.of_eq rfl rfl rfl, hconversations.trans h.conversations⟩

theorem loadRoutines_spec (s : Store δ) (bot : ℕ) (list : RoutineList δ) :
    Released s (s.loadRoutines bot list).1 {.routines bot} ∧
    (s.loadRoutines bot list).1.conversations = s.conversations := by
  let placed : Store δ := { s with
    routines := s.routines.insert bot
      ⟨list.seq, IdMap.collect (·.id) (list.routines.filter fun r => r.botId = bot)⟩ }
  have h := frame_replay (fun t e => frame_applyToRoutines (s := t) e) list.seq placed.held
    ({ placed with loading := placed.loading.erase (.routines bot) }, .ofChanged true)
  obtain ⟨hreleased, hconversations, -⟩ := loaded_spec (s := placed) rfl h.loading h.held h.stale
  exact ⟨hreleased.of_eq rfl rfl rfl, hconversations.trans h.conversations⟩

end Events

/-- What an older page does to the conversation it was asked for. -/
def mergeOlder (bot before : ℕ) (page : MessagePage δ) (stale : Bool)
    (held : List (EventEnvelope (Event δ))) (c : Conversation δ) : Conversation δ :=
  if c.requestedOlder = some before ∧ c.older = some before then
    let replayed := replayAllEarlier (earlierOf c bot before page) (!stale)
      (held.filter fun envelope => envelope.seq > page.seq)
    if replayed.2 then c.merge replayed.1 page.older else { c with requestedOlder := none }
  else c

theorem loadOlder_spec (s : Store δ) (bot before : ℕ) (page : MessagePage δ) :
    Released s (s.loadOlder bot before page).1 {.older bot} ∧
    ∀ b : ℕ, (s.loadOlder bot before page).1.conversations[b]? =
      if bot = b then (s.conversations[b]?).map
        (mergeOlder bot before page (decide (.older bot ∈ s.stale)) s.held)
      else s.conversations[b]? := by
  obtain ⟨o, hunfold, hedits⟩ : ∃ o : Store δ × Applied,
      s.loadOlder bot before page = o.1.settle.finish o.2 ∧
      Edits bot (mergeOlder bot before page (decide (.older bot ∈ s.stale)) s.held)
        (s.forget (.older bot)) o.1 := by
    refine ⟨_, rfl, ?_⟩
    dsimp only [forget]
    cases hc : s.conversations[bot]? with
    | none =>
        refine ⟨fun b => ?_, rfl, rfl, rfl⟩
        by_cases hb : bot = b
        · subst hb
          simp [hc]
        · simp only [if_neg hb]
    | some c =>
        by_cases hreq : c.requestedOlder = some before ∧ c.older = some before
        · simp only [if_pos hreq]
          split
          · next hcomplete =>
              refine ⟨fun b => ?_, rfl, rfl, rfl⟩
              by_cases hb : bot = b
              · subst hb
                simp [hc, mergeOlder, hreq, hcomplete, Conversation.merge]
              · simp [hb]
          · next hcomplete =>
              refine ⟨fun b => ?_, rfl, rfl, rfl⟩
              by_cases hb : bot = b
              · subst hb
                simp [hc, mergeOlder, hreq, hcomplete]
              · simp [hb]
        · simp only [if_neg hreq]
          refine ⟨fun b => ?_, rfl, rfl, rfl⟩
          by_cases hb : bot = b
          · subst hb
            simp [hc, mergeOlder, hreq]
          · simp only [if_neg hb]
  rw [hunfold]
  refine ⟨(released_settle (s := s) ?_ hedits.held ?_).finish _, fun b => ?_⟩
  · rw [hedits.loading, Finset.sdiff_singleton_eq_erase]
    rfl
  · rw [hedits.stale, Finset.sdiff_singleton_eq_erase]
    exact subset_rfl
  · rw [finish_conversations, settle_conversations, hedits.conversation b]
    rfl

end Store

end Bokkie
