import Bokkie.BotEvents
import Bokkie.RoutineConvergence

/-!
# The Bot list converges

Under every schedule of lists, pages and events, once nothing is loading and the events have caught
up, a Bot's entry shows the gateway's Bot. The side table of newest messages knows nothing of what a
list reflects: an event that the list does not cover can show an older message over a newer one, or
leave a newer one unshown.
-/

namespace Bokkie

variable {δ : Type} {H : History δ}

/-- A list put in place, before the events held are replayed onto it. -/
def Store.placeBots (s : Store δ) (list : BotList δ) : Store δ :=
  let bots := IdMap.collect (·.id) list.bots
  { s with
    bots := bots
    botsSeq := some list.seq
    newest := s.newest.filter fun bot _ => bot ∈ bots
    errors := s.errors.filter fun bot _ => bot ∈ bots
    loading := s.loading.erase .bots }

/-- The store once an event has been held and has reached its conversation. -/
def Store.heard [DecidableEq δ] (s : Store δ) (envelope : EventEnvelope (Event δ)) : Store δ :=
  match envelope.event.messageBot with
  | some bot => ((s.hold envelope).applyToConversation bot envelope).1
  | none => s.hold envelope

namespace Store

variable [DecidableEq δ]

/-- A newest page leaves the list alone, but for the newest message it knows. -/
theorem lists_loadMessages (s : Store δ) (bot : ℕ) (page : MessagePage δ) :
    (s.loadMessages bot page).1.bots = s.bots ∧ (s.loadMessages bot page).1.botsSeq = s.botsSeq ∧
      ∀ b i : ℕ, (s.loadMessages bot page).1.newest[b]? = some i → s.newest[b]? = some i ∨
        b = bot ∧ ∃ m ∈ page.messages, m.id = i := by
  unfold loadMessages
  dsimp only
  have hloaded : ∀ t : Store δ, SameLists t (loaded t
      (fun s envelope => s.applyToConversation bot envelope) page.seq (.messages bot)).1 := by
    intro t
    refine SameLists.trans ?_ same_loaded
    have hreplayed := same_replay (fun s e => same_applyToConversation s bot e) page.seq t.held
      ({ t with loading := t.loading.erase (.messages bot) }, .ofChanged true)
    exact ⟨hreplayed.bots, hreplayed.botsSeq, hreplayed.newest, hreplayed.routines⟩
  split
  · next newest hmax =>
      have hsame := hloaded { s.noteNewest bot newest with
        conversations := (s.noteNewest bot newest).conversations.insert bot
          ⟨page.seq, IdMap.collect (·.id) page.messages, page.older, none⟩ }
      refine ⟨hsame.bots, hsame.botsSeq, fun b i hi => ?_⟩
      rw [hsame.newest] at hi
      rcases s.noteNewest_get hi with hold | ⟨hb, hi⟩
      · exact .inl hold
      · obtain ⟨m, hm, hid⟩ := List.mem_map.mp (List.max?_mem hmax)
        exact .inr ⟨hb.symm, m, hm, hid.trans hi.symm⟩
  · have hsame := hloaded { s with
      conversations := s.conversations.insert bot
        ⟨page.seq, IdMap.collect (·.id) page.messages, page.older, none⟩ }
    exact ⟨hsame.bots, hsame.botsSeq, fun b i hi => .inl (hsame.newest ▸ hi)⟩

theorem lists_applyToRoutines (s : Store δ) (envelope : EventEnvelope (Event δ)) :
    (s.applyToRoutines envelope).1.bots = s.bots ∧
      (s.applyToRoutines envelope).1.botsSeq = s.botsSeq ∧
      (s.applyToRoutines envelope).1.newest = s.newest := by
  unfold applyToRoutines
  dsimp only
  split
  case h_4 => exact ⟨rfl, rfl, rfl⟩
  all_goals
    split
    · exact ⟨rfl, rfl, rfl⟩
    · split <;> exact ⟨rfl, rfl, rfl⟩

theorem lists_loadRoutines (s : Store δ) (bot : ℕ) (list : RoutineList δ) :
    (s.loadRoutines bot list).1.bots = s.bots ∧ (s.loadRoutines bot list).1.botsSeq = s.botsSeq ∧
      (s.loadRoutines bot list).1.newest = s.newest := by
  have hreplay : ∀ (held : List (EventEnvelope (Event δ))) (o : Store δ × Applied),
      (replay applyToRoutines list.seq held o).1.bots = o.1.bots ∧
        (replay applyToRoutines list.seq held o).1.botsSeq = o.1.botsSeq ∧
        (replay applyToRoutines list.seq held o).1.newest = o.1.newest := by
    intro held
    induction held with
    | nil => exact fun o => ⟨rfl, rfl, rfl⟩
    | cons e held ih =>
        intro o
        rw [replay, List.foldl_cons]
        split
        · obtain ⟨hbots, hseq, hnewest⟩ := lists_applyToRoutines o.1 e
          obtain ⟨hbots', hseq', hnewest'⟩ :=
            ih ((o.1.applyToRoutines e).1, o.2.merge (o.1.applyToRoutines e).2)
          exact ⟨hbots'.trans hbots, hseq'.trans hseq, hnewest'.trans hnewest⟩
        · exact ih o
  unfold loadRoutines
  dsimp only
  refine ⟨same_loaded.bots.trans ?_, same_loaded.botsSeq.trans ?_, same_loaded.newest.trans ?_⟩
  · exact (hreplay _ _).1
  · exact (hreplay _ _).2.1
  · exact (hreplay _ _).2.2

/-- A list is put in place and brought up to date; what the replay asks for again loads again. -/
theorem loadBots_replay (s : Store δ) (list : BotList δ) :
    SameLists (replay applyToBots list.seq s.held (s.placeBots list, .ofChanged true)).1
      (s.loadBots list).1 ∧
    ∀ x ∈ (replay applyToBots list.seq s.held (s.placeBots list, .ofChanged true)).2.reload,
      x ∈ (s.loadBots list).1.loading :=
  ⟨same_loaded (s := { s.placeBots list with loading := s.loading }), fun _ h =>
    Finset.mem_union_right _ (Finset.mem_union_left _ h)⟩

theorem same_heard (s : Store δ) (envelope : EventEnvelope (Event δ)) :
    SameLists s (s.heard envelope) := by
  unfold heard
  split
  · exact (same_hold s envelope).trans (same_applyToConversation _ _ _)
  · exact same_hold s envelope

/-- An event reaches the list after its conversation. -/
theorem apply_lists (s : Store δ) (envelope : EventEnvelope (Event δ)) :
    let o := (s.heard envelope).applyToBots envelope
    (s.apply envelope).1.bots = o.1.bots ∧ (s.apply envelope).1.botsSeq = o.1.botsSeq ∧
      (s.apply envelope).1.newest = o.1.newest ∧
      (.bots ∈ o.2.reload → .bots ∈ (s.apply envelope).1.loading) := by
  have hrest : ∀ conversation : Store δ × Applied,
      let o := conversation.1.applyToBots envelope
      let routines := o.1.applyToRoutines envelope
      let usage := routines.1.applyToUsage envelope.event
      let t := usage.1.finish (((conversation.2.merge o.2).merge routines.2).merge usage.2)
      t.1.bots = o.1.bots ∧ t.1.botsSeq = o.1.botsSeq ∧ t.1.newest = o.1.newest ∧
        (.bots ∈ o.2.reload → .bots ∈ t.1.loading) := by
    intro conversation
    dsimp only
    obtain ⟨hbots, hseq, hnewest⟩ :=
      lists_applyToRoutines (conversation.1.applyToBots envelope).1 envelope
    have husage := same_applyToUsage
      ((conversation.1.applyToBots envelope).1.applyToRoutines envelope).1 envelope.event
    refine ⟨husage.bots.trans hbots, husage.botsSeq.trans hseq, husage.newest.trans hnewest,
      fun h => ?_⟩
    exact Finset.mem_union_right _ (Finset.mem_union_left _ (Finset.mem_union_left _
      (Finset.mem_union_right _ h)))
  dsimp only
  unfold apply heard
  dsimp only
  cases envelope.event.messageBot with
  | none => exact hrest (s.hold envelope, .default)
  | some bot => exact hrest ((s.hold envelope).applyToConversation bot envelope)

/-- A load that had gone stale loads again. -/
theorem loadBots_reloads (s : Store δ) (list : BotList δ) (hstale : .bots ∈ s.stale) :
    .bots ∈ (s.loadBots list).1.loading := by
  have h := frame_replay (fun t e => frame_applyToBots (s := t) e) list.seq s.held
    (s.placeBots list, .ofChanged true)
  exact (loaded_spec (s := { s.placeBots list with loading := s.loading }) rfl h.loading h.held
    h.stale).2.2 hstale

end Store

namespace App

variable [DecidableEq δ] {app app' : App δ}

/-- A step that answers no request for the list and delivers nothing leaves the list alone; a newest
page may make a newer message known. -/
theorem step_bots (hH : H.Valid) {action : Action δ} (hstep : App.step H app action = some app')
    (hlists : ∀ list, action ≠ .bots list) (hdeliver : action ≠ .deliver) :
    app'.store.bots = app.store.bots ∧ app'.store.botsSeq = app.store.botsSeq ∧
      app'.position = app.position ∧
      (action ≠ .failed .bots → .bots ∈ app.store.loading → .bots ∈ app'.store.loading) ∧
      ∀ b i : ℕ, app'.store.newest[b]? = some i → app.store.newest[b]? = some i ∨
        ∃ seq reflects limit m, action = .messages b seq reflects limit ∧
          (H.table reflects)[i]? = some m ∧ m.botId = b := by
  have hreleased : ∀ {store : Store δ} {gone : Finset Snapshot}, app.store.Released store gone →
      .bots ∉ gone → .bots ∈ app.store.loading → .bots ∈ store.loading := fun h hnot hmem =>
    h.loading (Finset.mem_sdiff.mpr ⟨hmem, hnot⟩)
  have hsame : ∀ {store : Store δ}, Store.SameLists app.store store → store.bots = app.store.bots ∧
      store.botsSeq = app.store.botsSeq ∧ ∀ b i : ℕ, store.newest[b]? = some i →
        app.store.newest[b]? = some i := fun h => ⟨h.bots, h.botsSeq, fun b i hi => h.newest ▸ hi⟩
  cases action with
  | request x =>
      obtain rfl := Option.some.inj hstep
      exact ⟨rfl, rfl, rfl, fun _ => Finset.mem_insert_of_mem, fun _ _ => .inl⟩
  | requestOlder b =>
      obtain rfl := Option.some.inj hstep
      obtain ⟨hbots, hseq, hnewest⟩ := hsame (Store.same_requestOlder app.store b)
      obtain ⟨-, hnone, hsome⟩ := app.store.requestOlder_spec b
      refine ⟨hbots, hseq, rfl, fun _ hmem => ?_, fun b i hi => .inl (hnewest b i hi)⟩
      by_cases hcursor : (app.store.requestOlder b).2 = none
      · exact hreleased (hnone hcursor) (by simp) hmem
      · rw [setAsk_store, (hsome hcursor).1]
        exact Finset.mem_insert_of_mem hmem
  | reloadAll =>
      obtain rfl := Option.some.inj hstep
      exact ⟨rfl, rfl, rfl, fun _ => Finset.mem_union_left _, fun _ _ => .inl⟩
  | messages b seq reflects limit =>
      unfold App.step at hstep
      cases hask : app.asks (.messages b) with
      | none => simp [hask] at hstep
      | some ask =>
          by_cases hanswers : answers H seq reflects ask = true
          · simp only [hask, if_pos hanswers] at hstep
            have hpage := app.store.lists_loadMessages b (page H b none seq reflects limit)
            have hgone := (app.store.loadMessages_spec b (page H b none seq reflects limit)).1
            generalize (app.store.loadMessages b (page H b none seq reflects limit)).1 = store at *
            obtain rfl := Option.some.inj hstep
            obtain ⟨hbots, hseq, hnewest⟩ := hpage
            refine ⟨hbots, hseq, rfl, fun _ => hreleased hgone (by simp), fun b' i hi => ?_⟩
            rcases hnewest b' i hi with hold | ⟨rfl, m, hm, rfl⟩
            · exact .inl hold
            · obtain ⟨hget, hbot, -⟩ := faithful_page hH hm
              exact .inr ⟨seq, reflects, limit, m, rfl, hget, hbot⟩
          · simp [hask, hanswers] at hstep
  | older b seq reflects limit =>
      unfold App.step at hstep
      rcases hask : app.asks (.older b) with _ | ⟨had, _ | before⟩
      · simp [hask] at hstep
      · simp [hask] at hstep
      · by_cases hanswers : answers H seq reflects ⟨had, some before⟩ = true
        · simp only [hask, if_pos hanswers] at hstep
          obtain ⟨hbots, hseq, hnewest⟩ := hsame (Store.same_loadOlder app.store b before
            (page H b (some before) seq reflects limit))
          have hgone :=
            (app.store.loadOlder_spec b before (page H b (some before) seq reflects limit)).1
          generalize (app.store.loadOlder b before (page H b (some before) seq reflects limit)).1 =
            store at *
          obtain rfl := Option.some.inj hstep
          exact ⟨hbots, hseq, rfl, fun _ => hreleased hgone (by simp), fun b i hi =>
            .inl (hnewest b i hi)⟩
        · simp [hask, hanswers] at hstep
  | bots list => exact absurd rfl (hlists list)
  | routines b list =>
      obtain rfl := Option.some.inj hstep
      have hgone := (app.store.loadRoutines_spec b list).1
      obtain ⟨hbots, hseq, hnewest⟩ := app.store.lists_loadRoutines b list
      exact ⟨hbots, hseq, rfl, fun _ => hreleased hgone (by simp), fun b i hi =>
        .inl (hnewest ▸ hi)⟩
  | failed x =>
      obtain ⟨hbots, hseq, hnewest⟩ := hsame (Store.same_loadFailed app.store x)
      have hkept : Action.failed (δ := δ) x ≠ .failed .bots → .bots ∈ app.store.loading →
          .bots ∈ (app.store.loadFailed x).loading := fun hne =>
        hreleased (app.store.loadFailed_spec x).1 fun hmem =>
          hne (congrArg _ (Finset.mem_singleton.mp hmem).symm)
      unfold App.step at hstep
      dsimp only at hstep
      split at hstep
      · obtain rfl := Option.some.inj hstep
        exact ⟨hbots, hseq, rfl, hkept, fun b i hi => .inl (hnewest b i hi)⟩
      · obtain rfl := Option.some.inj hstep
        exact ⟨hbots, hseq, rfl, hkept, fun b i hi => .inl (hnewest b i hi)⟩
  | closeConversation b =>
      obtain rfl := Option.some.inj hstep
      obtain ⟨hbots, hseq, hnewest⟩ := hsame (Store.same_closeConversation app.store b)
      exact ⟨hbots, hseq, rfl, fun _ => hreleased (app.store.closeConversation_spec b).1 (by simp),
        fun b i hi => .inl (hnewest b i hi)⟩
  | closeRoutines b =>
      obtain rfl := Option.some.inj hstep
      have hsettled := Store.same_settle
        ({ app.store with routines := app.store.routines.erase b }.forget (.routines b))
      exact ⟨hsettled.bots, hsettled.botsSeq, rfl, fun _ =>
        hreleased (app.store.closeRoutines_spec b).1 (by simp), fun b i hi =>
          .inl (hsettled.newest ▸ hi)⟩
  | deliver => exact absurd rfl hdeliver

end App

/-- A conversation that an event reaches stays faithful. -/
theorem HoldsFaithful.heard [DecidableEq δ] (hH : H.BotsValid) {s : Store δ}
    (h : HoldsFaithful H s) {envelope : EventEnvelope (Event δ)}
    (henvelope : FromHistory H envelope) : HoldsFaithful H (s.heard envelope) := by
  have hheld := h.of_eq (s.hold_conversations envelope)
  unfold Store.heard
  split
  · next bot _ =>
      exact hheld.edit (fun c hc => hc.take hH henvelope bot)
        (Store.edits_applyToConversation _ bot envelope).conversation
  · exact hheld

namespace Client

variable {client client' : Client δ}

theorem lists_reply [DecidableEq δ] (s : Store δ) (event : Event δ) :
    (reply s event).1.bots = s.bots ∧ (reply s event).1.botsSeq = s.botsSeq ∧
      (reply s event).1.newest = s.newest := by
  have hchanged : ∀ routine : Routine δ, (s.routineChanged routine).1.bots = s.bots ∧
      (s.routineChanged routine).1.botsSeq = s.botsSeq ∧
      (s.routineChanged routine).1.newest = s.newest := by
    intro routine
    unfold Store.routineChanged
    split
    · exact ⟨rfl, rfl, rfl⟩
    · dsimp only
      split <;> exact ⟨rfl, rfl, rfl⟩
  cases event with
  | routineCreated routine | routineUpdated routine => exact hchanged routine
  | routineDeleted bot id =>
      simp only [reply, Store.routineDeleted]
      split <;> exact ⟨rfl, rfl, rfl⟩
  | _ => exact ⟨rfl, rfl, rfl⟩

/-- The changes that something the client has loaded or heard reflects. -/
def known (client : Client δ) : ℕ := max client.app.position client.bots.pages

/-- The Bot list follows the gateway, or is to be loaded. -/
structure BotsFollow (H : History δ) (client : Client δ) : Prop where
  loads : ∃ h₀, App.Loads H h₀ client.app
  knows : Knows H client.known client.app.store
  unlisted : client.app.store.botsSeq = none → ∀ b : ℕ, client.app.store.bots[b]? = none
  listed : ∀ seq, client.app.store.botsSeq = some seq → seq ≤ client.bots.reflects
  follows : ∀ seq, client.app.store.botsSeq = some seq → .bots ∈ client.app.store.loading ∨
    client.bots.failed = true ∨ ∀ (b : ℕ) e, client.app.store.bots[b]? = some e →
      FollowsBot H (max client.known client.bots.reflects) client.bots.reflects
        (max client.app.position seq) b e

/-- What an entry is to show: the gateway's Bot, once nothing is loading and the events have caught
up with the lists and pages, and its latest message unless a message of it streams. -/
def BotsConverged (H : History δ) (client : Client δ) : Prop :=
  client.app.store.loading = ∅ → client.bots.failed = false →
    client.bots.reflects ≤ client.app.position → client.bots.pages ≤ client.app.position →
    ∀ (b : ℕ) e, client.app.store.bots[b]? = some e →
      ∃ g, (H.bots client.app.position)[b]? = some g ∧ e.status = g.status ∧
        e.unread = g.unread ∧ e.readUpTo = g.readUpTo ∧
        ((∀ (i : ℕ) m, (H.table client.app.position)[i]? = some m → m.botId = b →
          m.state ≠ .streaming) → e.lastMessage = g.lastMessage)

/-- Every message that the step's events show as the latest of its Bot is that, unless the list is
to load again. -/
def Shows [DecidableEq δ] (H : History δ) (client : Client δ) : Action δ → Prop
  | .app .deliver => .bots ∈ client.app.store.loading ∨ client.bots.failed = true ∨
    ∀ envelope seq, H.events[client.app.position]? = some envelope →
      client.app.store.botsSeq = some seq → envelope.seq > seq →
      ShowsLatest H (max client.known client.bots.reflects) client.app.position
        (client.app.store.heard envelope) envelope.event
  | .bots seq reflects => .bots ∈ client.app.store.stale ∨
    ReplayShows H (max client.known reflects) seq client.app.store.held
      (client.app.store.placeBots (H.botList seq reflects))
  | _ => True

section Steps

/-- The list shows as it did, and loads on if it was loading; a page may have made newer messages
known. -/
theorem BotsFollow.same (h : BotsFollow H client) (hloads : ∃ h₀, App.Loads H h₀ client'.app)
    (hfaithful : HoldsFaithful H client'.app.store)
    (hstore : client'.app.store.bots = client.app.store.bots)
    (hseq : client'.app.store.botsSeq = client.app.store.botsSeq)
    (hposition : client'.app.position = client.app.position)
    (hreflects : client'.bots.reflects = client.bots.reflects)
    (hpages : client.bots.pages ≤ client'.bots.pages)
    (hfailed : client.bots.failed = true → client'.bots.failed = true)
    (hloading : .bots ∈ client.app.store.loading →
      .bots ∈ client'.app.store.loading ∨ client'.bots.failed = true)
    (hnewest : ∀ b i : ℕ, client'.app.store.newest[b]? = some i →
      client.app.store.newest[b]? = some i ∨
        ∃ v m, v ≤ client'.bots.pages ∧ (H.table v)[i]? = some m ∧ m.botId = b) :
    BotsFollow H client' := by
  have hknown : client.known ≤ client'.known := by
    unfold known
    rw [hposition]
    exact max_le_max_left _ hpages
  refine ⟨hloads, ⟨fun b i hi => ?_, hfaithful⟩, ?_, ?_, fun seq hs => ?_⟩
  · rcases hnewest b i hi with hold | ⟨v, m, hv, hm⟩
    · exact (h.knows.mono hknown).newest b i hold
    · exact ⟨v, m, hv.trans (le_max_right _ _), hm⟩
  · rw [hseq, hstore]
    exact h.unlisted
  · rw [hseq, hreflects]
    exact h.listed
  · rw [hseq] at hs
    rw [hstore, hposition, hreflects]
    rcases h.follows seq hs with hmem | hf | hfollows
    · exact (hloading hmem).imp_right .inl
    · exact .inr (.inl (hfailed hf))
    · exact .inr (.inr fun b e he => (hfollows b e he).mono (max_le_max_right _ hknown))

variable [DecidableEq δ]

/-- A list, read after everything the client had when it asked, and the events held replayed. -/
theorem BotsFollow.list (hH : H.BotsValid) (h : BotsFollow H client) {seq reflects : ℕ} {ask : Ask}
    (hask : client.app.asks .bots = some ask) (hanswers : App.answers H seq reflects ask = true)
    (hshows : Shows H client (.bots seq reflects)) {app : App δ}
    (happ : client.app.step H (.bots (H.botList seq reflects)) = some app) :
    BotsFollow H { client with
      app := app, bots := { client.bots with reflects := reflects, failed := false } } := by
  obtain ⟨h₀, hloads⟩ := h.loads
  have hloads' := App.loads_step _ hloads happ
  have hfaithful' := holdsFaithful_step hH hloads h.knows.faithful happ
  simp only [App.answers, Bool.and_eq_true, decide_eq_true_eq] at hanswers
  obtain ⟨⟨hhad, hsr⟩, hreflects⟩ := hanswers
  have hposition := hloads.position_le
  -- the store with the list in place, and what the replay makes of it
  set placed := client.app.store.placeBots (H.botList seq reflects) with hplaced
  set replayed := Store.replay Store.applyToBots seq client.app.store.held
    (placed, Applied.ofChanged true) with hreplayed
  obtain ⟨hsame, hreload⟩ := client.app.store.loadBots_replay (H.botList seq reflects)
  have hagain : .bots ∈ client.app.store.stale →
      .bots ∈ (client.app.store.loadBots (H.botList seq reflects)).1.loading :=
    client.app.store.loadBots_reloads _
  have hplacedKnows : Knows H client.known placed :=
    ⟨fun b i hi => h.knows.newest b i (IdMap.getElem?_filter_eq_some.mp hi).1,
      h.knows.faithful.of_eq rfl⟩
  have hheld := hloads.held
  have hknows : Knows H client.known replayed.1 := by
    rw [hreplayed, hheld]
    exact knows_replay hplacedKnows hposition (le_max_left _ _) seq _
  have hseq : replayed.1.botsSeq = some seq := replay_botsSeq seq _ _
  change Store.SameLists replayed.1 _ at hsame
  change ∀ x ∈ replayed.2.reload, _ at hreload
  obtain rfl := Option.some.inj happ
  change BotsFollow H ⟨({ client.app with
    store := (client.app.store.loadBots (H.botList seq reflects)).1 } : App δ).setAsk .bots none,
    _, _, _⟩
  generalize (client.app.store.loadBots (H.botList seq reflects)).1 = store at *
  refine ⟨hloads', ⟨fun b i hi => ?_, hfaithful'⟩, fun hnone => ?_, fun s hs => ?_, fun s hs => ?_⟩
  · exact hknows.newest b i (hsame.newest ▸ hi)
  · change store.botsSeq = none at hnone
    rw [hsame.botsSeq, hseq] at hnone
    cases hnone
  · change store.botsSeq = some s at hs
    rw [hsame.botsSeq, hseq] at hs
    obtain rfl := Option.some.inj hs
    exact hsr
  · change store.botsSeq = some s at hs
    rw [hsame.botsSeq, hseq] at hs
    obtain rfl := Option.some.inj hs
    by_cases hstale : .bots ∈ client.app.store.stale
    · exact .inl (hagain hstale)
    · have hlisted : ∀ (b : ℕ) e, placed.bots[b]? = some e →
          FollowsBot H (max client.known reflects) reflects (max h₀ seq) b e := by
        intro b e he
        have hget : (H.bots reflects)[b]? = some e := by
          exact (History.collect_botList seq).symm.trans he
        have hle : max h₀ seq ≤ reflects :=
          max_le ((hloads.fresh _ _ hask hstale).trans (hhad.trans hsr)) hsr
        obtain ⟨hstatus, hread, hpreview⟩ := shows_bots hget
        have hshown : ∀ {P : ℕ → Prop}, P reflects → Shown (max h₀ seq) reflects P := fun hP =>
          ⟨reflects, hle, le_max_right _ _, hP⟩
        exact ⟨hshown hstatus, hshown hread, .inr (hshown hpreview)⟩
      have hreplay := hshows.resolve_left hstale
      rw [hheld] at hreplay
      have hdone := bots_replay hH hposition
        (show client.app.position ≤ max client.known reflects from
          (le_max_left _ _).trans (le_max_left _ _)) hloads.since_le
        (o := (placed, Applied.ofChanged true)) rfl (hplacedKnows.mono (le_max_left _ _))
        hreplay (.inr hlisted)
      rw [← hheld] at hdone
      rcases hdone with hmem | hfollows
      · exact .inl (hreload _ hmem)
      · refine .inr (.inr fun b e he => hfollows b e ?_)
        exact hsame.bots ▸ he

/-- An event reaches the list. -/
theorem BotsFollow.deliver (hH : H.BotsValid) (h : BotsFollow H client)
    (hshows : Shows H client (.app .deliver)) {app : App δ}
    (happ : client.app.step H .deliver = some app) :
    BotsFollow H { client with app := app } := by
  obtain ⟨h₀, hloads⟩ := h.loads
  have hloads' := App.loads_step _ hloads happ
  have hfaithful' := holdsFaithful_step hH hloads h.knows.faithful happ
  unfold App.step at happ
  cases hnext : H.events[client.app.position]? with
  | none => simp [hnext] at happ
  | some envelope =>
      simp only [hnext] at happ
      obtain ⟨hq, rfl⟩ := App.next_envelope hnext
      set s := client.app.store with hs
      set envelope := (H.changes[client.app.position]).envelope with henvelope
      obtain ⟨hbots, hseq, hnewest, hreload⟩ := s.apply_lists envelope
      have hloading := (s.apply_spec envelope).2.1
      have hheard := s.same_heard envelope
      have hknown : client.known ≤ max (client.app.position + 1) client.bots.pages :=
        max_le_max_right _ (Nat.le_succ _)
      have hknows : Knows H (max (client.app.position + 1) client.bots.pages)
          (s.heard envelope) := by
        refine ⟨fun b i hi => (h.knows.mono hknown).newest b i (hheard.newest ▸ hi), ?_⟩
        exact h.knows.faithful.heard hH ⟨_, hq, rfl⟩
      have hafter := hknows.event hq (le_max_left _ _)
      rw [← henvelope] at hafter
      generalize (s.apply envelope).1 = store at *
      obtain rfl := Option.some.inj happ
      refine ⟨hloads', ⟨fun b i hi => ?_, hfaithful'⟩, fun hnone b => ?_, fun seq hlisted => ?_,
        fun seq hlisted => ?_⟩
      · exact hafter.newest b i (hnewest ▸ hi)
      · change store.botsSeq = none at hnone
        change store.bots[b]? = none
        rw [hseq, applyToBots_botsSeq, hheard.botsSeq] at hnone
        rw [hbots]
        unfold Store.applyToBots
        rw [hheard.botsSeq, hnone]
        dsimp only
        rw [hheard.bots]
        exact h.unlisted hnone b
      · change store.botsSeq = some seq at hlisted
        rw [hseq, applyToBots_botsSeq, hheard.botsSeq] at hlisted
        exact h.listed seq hlisted
      · change store.botsSeq = some seq at hlisted
        rw [hseq, applyToBots_botsSeq, hheard.botsSeq] at hlisted
        rcases h.follows seq hlisted with hmem | hfailed | hfollows
        · exact .inl (hloading hmem)
        · exact .inr (.inl hfailed)
        · rcases hshows with hmem | hfailed | hshown
          · exact .inl (hloading hmem)
          · exact .inr (.inl hfailed)
          · have hmono : max client.known client.bots.reflects ≤
                max (max (client.app.position + 1) client.bots.pages) client.bots.reflects :=
              max_le_max_right _ hknown
            have hnow := applyToBots_follow (R := client.bots.reflects) hH hq
              (hknows.mono (le_max_left _ client.bots.reflects)) (hheard.botsSeq.trans hlisted)
              (fun hle => ?_) (fun b e he => ?_)
            · rcases hnow with hmem | hfollow
              · exact .inl (hreload hmem)
              · refine .inr (.inr fun b e he => hfollow b e ?_)
                rwa [← hbots]
            · refine (hshown envelope seq hnext hlisted ?_).mono hmono
              rw [henvelope, History.seq_getElem hq]
              omega
            · rw [hheard.bots] at he
              exact (hfollows b e he).mono hmono

theorem BotsFollow.step (hH : H.BotsValid) (h : BotsFollow H client) {action : Action δ}
    (hshows : Shows H client action) (hstep : client.step H action = some client') :
    BotsFollow H client' := by
  obtain ⟨h₀, hloads⟩ := h.loads
  have hother : ∀ {action : App.Action δ} {app : App δ} {routines : ℕ → RoutineCopy},
      client.app.step H action = some app → (∀ list, action ≠ .bots list) → action ≠ .deliver →
      action ≠ .failed .bots → (∀ b seq reflects limit, action ≠ .messages b seq reflects limit) →
      BotsFollow H { client with app := app, routines := routines } := by
    intro action app routines happ hlists hdeliver hfailed hpages
    obtain ⟨hbots, hseq, hposition, hloading, hnewest⟩ := App.step_bots hH.1 happ hlists hdeliver
    refine h.same (App.loads_step _ hloads happ) (holdsFaithful_step hH hloads h.knows.faithful happ)
      hbots hseq hposition rfl le_rfl id (fun hmem => .inl (hloading hfailed hmem)) fun b i hi => ?_
    rcases hnewest b i hi with hold | ⟨seq, reflects, limit, m, haction, -⟩
    · exact .inl hold
    · exact absurd haction (hpages b seq reflects limit)
  cases action with
  | bots seq reflects =>
      unfold Client.step at hstep
      cases hask : client.app.asks .bots with
      | none => simp [hask] at hstep
      | some ask =>
          by_cases hanswers : App.answers H seq reflects ask = true
          · simp only [hask, if_pos hanswers] at hstep
            obtain ⟨app, happ, rfl⟩ := Option.map_eq_some_iff.mp hstep
            exact h.list hH hask hanswers hshows happ
          · simp [hask, hanswers] at hstep
  | routines bot seq reflects =>
      unfold Client.step at hstep
      cases hask : client.app.asks (.routines bot) with
      | none => simp [hask] at hstep
      | some ask =>
          by_cases hanswers : App.answers H seq reflects ask = true
          · simp only [hask, if_pos hanswers] at hstep
            obtain ⟨app, happ, rfl⟩ := Option.map_eq_some_iff.mp hstep
            exact hother happ (by simp) (by simp) (by simp) (by simp)
          · simp [hask, hanswers] at hstep
  | replied n =>
      unfold Client.step at hstep
      cases hevent : eventAt H n with
      | none => simp [hevent] at hstep
      | some event =>
          cases habout : routineOf event with
          | none => simp [hevent, habout] at hstep
          | some found =>
              simp only [hevent, habout] at hstep
              obtain rfl := Option.some.inj hstep
              have hframe := frame_reply client.app.store event
              obtain ⟨hbots, hseq, hnewest⟩ := lists_reply client.app.store event
              refine h.same ⟨h₀, hloads.framed hframe⟩
                (h.knows.faithful.of_eq hframe.conversations) hbots hseq rfl rfl le_rfl id
                (fun hmem => .inl ?_) fun b i hi => .inl (hnewest ▸ hi)
              exact hframe.loading.ge hmem
  | app action =>
      cases action with
      | bots | routines => cases hstep
      | messages b seq reflects limit =>
          simp only [Client.step] at hstep
          obtain ⟨app, happ, rfl⟩ := Option.map_eq_some_iff.mp hstep
          obtain ⟨hbots, hseq, hposition, hloading, hnewest⟩ :=
            App.step_bots hH.1 happ (by simp) (by simp)
          refine h.same (App.loads_step _ hloads happ)
            (holdsFaithful_step hH hloads h.knows.faithful happ) hbots hseq hposition rfl
            (le_max_left _ _) id (fun hmem => .inl (hloading (by simp) hmem)) fun b' i hi => ?_
          rcases hnewest b' i hi with hold | ⟨seq', reflects', limit', m, haction, hm, hbot⟩
          · exact .inl hold
          · obtain ⟨-, -, rfl, -⟩ := App.Action.messages.inj haction
            exact .inr ⟨reflects, m, le_max_right _ _, hm, hbot⟩
      | failed x =>
          cases x <;> simp only [Client.step] at hstep
          case bots =>
            obtain ⟨app, happ, rfl⟩ := Option.map_eq_some_iff.mp hstep
            obtain ⟨hbots, hseq, hposition, -, hnewest⟩ := App.step_bots hH.1 happ (by simp) (by simp)
            refine h.same (App.loads_step _ hloads happ)
              (holdsFaithful_step hH hloads h.knows.faithful happ) hbots hseq hposition rfl le_rfl
              (fun _ => rfl) (fun _ => .inr rfl) fun b i hi => ?_
            rcases hnewest b i hi with hold | ⟨seq, reflects, limit, m, haction, -⟩
            · exact .inl hold
            · cases haction
          all_goals
            obtain ⟨app, happ, rfl⟩ := Option.map_eq_some_iff.mp hstep
            exact hother happ (by simp) (by simp) (by simp) (by simp)
      | deliver =>
          simp only [Client.step] at hstep
          obtain ⟨app, happ, rfl⟩ := Option.map_eq_some_iff.mp hstep
          exact h.deliver hH hshows happ
      | request | requestOlder | reloadAll | older | closeConversation | closeRoutines =>
          simp only [Client.step] at hstep
          obtain ⟨app, happ, rfl⟩ := Option.map_eq_some_iff.mp hstep
          exact hother happ (by simp) (by simp) (by simp) (by simp)

end Steps

theorem bots_follow_new {start : ℕ} (hstart : start ≤ H.length) :
    BotsFollow H (Client.new start) where
  loads := ⟨start, App.loads_new hstart⟩
  knows := ⟨fun b i hi => by simp [Client.new, App.new, Store.new] at hi,
    fun b c hc => by simp [Client.new, App.new, Store.new] at hc⟩
  unlisted _ b := by simp [Client.new, App.new, Store.new]
  listed seq hseq := by cases hseq
  follows seq hseq := by cases hseq

/-- In every run in which whatever an event shows as a Bot's latest message is that, the Bots listed
converge. -/
theorem bots_converged [DecidableEq δ] (hH : H.BotsValid) {start : ℕ} (hstart : start ≤ H.length)
    {actions : List (Action δ)}
    (hrun : Runs.Run (fun client action client' => Client.step H client action = some client' ∧
      Shows H client action) (Client.new start) actions client) :
    BotsConverged H client := by
  have h : BotsFollow H client :=
    hrun.invariant (fun _ _ _ h hstep => h.step hH hstep.2 hstep.1) (bots_follow_new hstart)
  intro hidle hkept hcaught hpages b e he
  cases hseq : client.app.store.botsSeq with
  | none =>
      rw [h.unlisted hseq b] at he
      cases he
  | some seq =>
      rcases h.follows seq hseq with hmem | hfailed | hfollows
      · rw [hidle] at hmem
        simp at hmem
      · rw [hkept] at hfailed
        cases hfailed
      · obtain ⟨hstatus, hread, hpreview⟩ := hfollows b e he
        have hposition : max client.app.position seq = client.app.position :=
          Nat.max_eq_left ((h.listed seq hseq).trans hcaught)
        rw [hposition] at hstatus hread hpreview
        obtain ⟨row, hrow, hrowStatus⟩ := hstatus.settled hcaught
        obtain ⟨row', hrow', hrowRead, hunread⟩ := hread.settled hcaught
        obtain rfl := Option.some.inj (hrow.symm.trans hrow')
        obtain rfl : row.id = b := History.botRows_keyed H _ hrow
        refine ⟨row.toApi (H.table client.app.position), ?_, hrowStatus.symm, ?_, hrowRead.symm,
          fun hdone => ?_⟩
        · rw [History.bots_get, hrow, Option.map_some]
        · rw [← hunread, ← hrowRead]
          rfl
        · have hshown : PreviewAt H row.id e.lastMessage client.app.position := by
            refine (hpreview.resolve_left fun hawaited => ?_).settled hcaught
            have hlt := hawaited.le hH.1
            unfold known at hlt
            omega
          rcases hshown with hlast | ⟨m, hlatest, hs⟩
          · exact hlast
          · obtain ⟨hget, hbot, -⟩ := (Table.latest_eq_some (H.table_keyed _)).mp hlatest
            exact absurd hs (hdone m.id m hget hbot)

section Example

/-- A reply that its user steers while it streams: the message sent comes before its completion. -/
def evening : History Unit where
  changes := [⟨⟨1, 0, .botCreated ⟨1, .idle, none, none, false, ()⟩⟩, 0⟩,
    ⟨⟨2, 1, .messageCreated ⟨6, 1, .bot, [], .streaming, 1, 1, ()⟩⟩, 1⟩,
    ⟨⟨3, 2, .messageCreated ⟨7, 1, .user, ['h', 'm'], .complete, 2, 2, ()⟩⟩, 2⟩,
    ⟨⟨4, 3, .messageCompleted ⟨6, 1, .bot, ['o', 'k'], .complete, 1, 3, ()⟩⟩, 3⟩]
  numbered := rfl

theorem evening_valid : evening.BotsValid := by
  have htable : evening.table 2 =
      (∅ : Table Unit).insert 6 ⟨6, 1, .bot, [], .streaming, 1, 1, ()⟩ := rfl
  refine ⟨fun n hn => ?_, fun n hn => ?_⟩
  · have hn' : n < 4 := hn
    obtain rfl | rfl | rfl | rfl : n = 0 ∨ n = 1 ∨ n = 2 ∨ n = 3 := by omega
    · trivial
    · exact (by decide : (evening.table 1)[6]? = none)
    · exact (by decide : (evening.table 2)[7]? = none)
    · exact ⟨⟨6, 1, .bot, [], .streaming, 1, 1, ()⟩, by decide, rfl, rfl, nofun⟩
  · have hn' : n < 4 := hn
    obtain rfl | rfl | rfl | rfl : n = 0 ∨ n = 1 ∨ n = 2 ∨ n = 3 := by omega
    · exact (by decide : (evening.bots 1)[1]? = some ⟨1, .idle, none, none, false, ()⟩)
    · intro i hi
      exact absurd hi Std.ExtTreeMap.not_mem_empty
    · intro i hi
      rw [htable] at hi
      have hi' : 6 = i := by simpa using hi
      exact hi' ▸ (by decide : (6 : ℕ) < 7)
    · exact ⟨⟨6, 1, .bot, [], .streaming, 1, 1, ()⟩, by decide, rfl⟩

/-- The list is loaded again once the reply has begun; it covers the message sent. -/
def steered : List (Action Unit) :=
  [.app (.request .bots), .bots 0 0, .app .deliver, .app .deliver, .app (.request .bots), .bots 3 3,
    .app .deliver, .app .deliver]

/-- The completed reply is shown over the message that the list had shown already. -/
theorem shown_over_newer : ∃ client,
    Runs.exec (Client.step evening) (Client.new 0) steered = some client ∧
      client.app.position = evening.length ∧ ¬ BotsConverged evening client := by
  have h : (Runs.exec (Client.step evening) (Client.new 0) steered).any (fun client =>
      client.app.position = 4 ∧ client.app.store.loading = ∅ ∧ client.bots.failed = false ∧
      client.bots.reflects ≤ 4 ∧ client.bots.pages ≤ 4 ∧
      (client.app.store.bots[1]?).any fun e =>
        e.lastMessage = some ⟨.bot, ['o', 'k'], 3⟩) = true := by
    decide +kernel
  obtain ⟨client, hrun, hfacts⟩ := Option.any_eq_true .. |>.mp h
  obtain ⟨hposition, hidle, hkept, hreflects, hpages, hany⟩ := of_decide_eq_true hfacts
  obtain ⟨e, he, hpreview⟩ := Option.any_eq_true .. |>.mp hany
  refine ⟨client, hrun, hposition, fun hconverged => ?_⟩
  obtain ⟨g, hg, -, -, -, hlast⟩ :=
    hconverged hidle hkept (hposition ▸ hreflects) (hposition ▸ hpages) 1 e he
  rw [hposition] at hg hlast
  have hshown : (evening.bots 4)[1]?.bind (·.lastMessage) = some ⟨.user, ['h', 'm'], 2⟩ := by
    decide +kernel
  have hdone : ∀ (i : ℕ) m, (evening.table 4)[i]? = some m → m.botId = 1 →
      m.state ≠ .streaming := by
    intro i m hm _
    have hall : (IdMap.records (evening.table 4)).all (·.state ≠ .streaming) = true := by
      decide +kernel
    exact of_decide_eq_true (List.all_eq_true.mp hall m (IdMap.mem_records.mpr ⟨i, hm⟩))
  rw [hg, Option.bind_some, ← hlast hdone, of_decide_eq_true hpreview] at hshown
  cases hshown

/-- Whether an event shows the latest message, with nothing to come. -/
def showsLatest (H : History Unit) (n : ℕ) (s : Store Unit) : Event Unit → Bool
  | .messageCreated m => s.newest[m.botId]? ≠ some m.id || m.state = .streaming ||
    (s.heldPreview m.botId m.id).isSome ||
    (s.bots[m.botId]?).all fun e => e.lastMessage = some m.preview
  | .messageDelta bot i _ _ => s.newest[bot]? ≠ some i || s.heldPreview bot i = none ||
    ((H.table (n + 1)).latest bot).map (·.id) = some i
  | .messageCompleted m => ((s.newest[m.botId]?).all (· > m.id)) ||
    ((H.table (n + 1)).latest m.botId).map (·.id) = some m.id
  | _ => true

theorem showsLatest_sound {H : History Unit} {B n : ℕ} {s : Store Unit} {event : Event Unit}
    (h : showsLatest H n s event = true) : ShowsLatest H B n s event := by
  cases event with
  | messageCreated m =>
      intro hnew hs hnone
      refine .inr fun e he => ?_
      simpa [showsLatest, hnew, hs, hnone, he] using h
  | messageDelta bot i offset delta =>
      intro hnew hheld
      refine .inr ?_
      simpa [showsLatest, hnew, hheld, IsLatest] using h
  | messageCompleted m =>
      rintro ⟨i, hnew, hle⟩
      refine .inr ?_
      simpa [showsLatest, hnew, IsLatest, not_lt.mpr hle] using h
  | _ => trivial

/-- Whether a step shows the latest messages, with nothing held for a list. -/
def shows (H : History Unit) (client : Client Unit) : Action Unit → Bool
  | .app .deliver => (H.events[client.app.position]?).all fun envelope =>
    (client.app.store.botsSeq).all fun seq => envelope.seq ≤ seq ||
      showsLatest H client.app.position (client.app.store.heard envelope) envelope.event
  | .bots _ _ => client.app.store.held = []
  | _ => true

theorem shows_sound {H : History Unit} {client : Client Unit} {action : Action Unit}
    (h : shows H client action = true) : Shows H client action := by
  cases action with
  | bots seq reflects =>
      have hheld : client.app.store.held = [] := of_decide_eq_true h
      refine .inr ?_
      rw [hheld]
      trivial
  | app action =>
      cases action with
      | deliver =>
          refine .inr (.inr fun envelope seq hnext hseq hnew => showsLatest_sound ?_)
          simpa [shows, hnext, hseq, not_le.mpr hnew] using h
      | _ => trivial
  | _ => trivial

/-- A list read while the reply began, then every event. -/
theorem bots_converged_steered : ∃ client : Client Unit, client.app.position = 4 ∧
    client.bots.reflects = 2 ∧ BotsConverged evening client := by
  have h : (Runs.exec (fun client action => if shows evening client action then
      Client.step evening client action else none) (Client.new 0)
      [.app (.request .bots), .bots 1 2, .app .deliver, .app .deliver, .app .deliver,
        .app .deliver]).any (fun client =>
      client.app.position = 4 ∧ client.bots.reflects = 2) = true := by
    decide +kernel
  obtain ⟨client, hrun, hfacts⟩ := Option.any_eq_true .. |>.mp h
  obtain ⟨hposition, hreflects⟩ := of_decide_eq_true hfacts
  exact ⟨client, hposition, hreflects, bots_converged evening_valid (by decide)
    (Runs.run_of_exec_checked (fun _ _ => shows_sound) hrun)⟩

end Example

end Client

end Bokkie
