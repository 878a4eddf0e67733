import Bokkie.ConvergenceInvariant

/-!
# What one step of the schedule keeps

Each request, page, failure, close and event keeps the loads and the open conversations in order.
-/

namespace Bokkie

variable {δ : Type} {H : History δ} {app app' : App δ} {bot h₀ : ℕ}

namespace App

theorem converging_request (h : Converging H app) (x : Snapshot) :
    Converging H ({ app with store := (app.store.request x).1 }.setAsk x
      (some ⟨app.hadFor x, none⟩)) := by
  obtain ⟨h₀, hloads⟩ := h.loads
  refine ⟨⟨h₀, loads_request hloads x⟩, fun bot => (h.following bot).same rfl rfl
    Finset.mem_insert_of_mem rfl fun ask hask => ?_⟩
  rw [setAsk_asks] at hask
  split at hask
  · next hx =>
      cases hask
      rw [← hx]
      exact .inr le_rfl
  · exact .inl hask

theorem converging_requestOlder (h : Converging H app) (b : ℕ) :
    Converging H ({ app with store := (app.store.requestOlder b).1 }.setAsk (.older b)
      ((app.store.requestOlder b).2.map fun cursor => ⟨app.had b, some cursor⟩)) := by
  obtain ⟨h₀, hloads⟩ := h.loads
  obtain ⟨hconv, hnone, hsome⟩ := app.store.requestOlder_spec b
  have hloading : ∀ x, x ≠ .older b → x ∈ app.store.loading →
      x ∈ (app.store.requestOlder b).1.loading := by
    intro x hx hmem
    by_cases hcursor : (app.store.requestOlder b).2 = none
    · exact (hnone hcursor).loading (Finset.mem_sdiff.mpr ⟨hmem, by simpa using hx⟩)
    · rw [(hsome hcursor).1]
      exact Finset.mem_insert_of_mem hmem
  refine ⟨loads_requestOlder hloads b, fun bot => ?_⟩
  refine (h.following bot).kept rfl rfl rfl
    (fun _ hreload => hreload.imp_right (hloading _ (by simp))) (fun c' hc' => ?_)
    fun c' hc' hreq ask hask => ?_
  all_goals
    rw [setAsk_store, hconv bot] at hc'
    split at hc'
  · next hb =>
      obtain ⟨c, hc, rfl⟩ := Option.map_eq_some_iff.mp hc'
      exact ⟨c, hc, rfl⟩
  · exact ⟨c', hc', rfl⟩
  · next hb =>
      subst hb
      obtain ⟨c, hc, rfl⟩ := Option.map_eq_some_iff.mp hc'
      rw [setAsk_asks, if_pos rfl] at hask
      obtain ⟨cursor, -, rfl⟩ := Option.map_eq_some_iff.mp hask
      simp [had, hc]
  · next hb =>
      rw [setAsk_asks, if_neg (by simpa using Ne.symm hb)] at hask
      exact (h.following bot).requested c' hc' hreq ask hask

theorem converging_reloadAll (h : Converging H app) :
    Converging H { app with
      store := app.store.reloadAll.1
      asks := fun x =>
        if x ∈ app.store.reloadAll.2 then some ⟨app.hadFor x, none⟩ else app.asks x } := by
  obtain ⟨h₀, hloads⟩ := h.loads
  refine ⟨⟨h₀, loads_reloadAll hloads⟩, fun bot => (h.following bot).same rfl rfl
    (Finset.mem_union_left _) rfl fun ask hask => ?_⟩
  dsimp only at hask
  split at hask
  · cases hask
    exact .inr le_rfl
  · exact .inl hask

/-- A load of the Bot list or of routines ends. -/
theorem converging_other (h : Converging H app) {x : Snapshot} {store : Store δ}
    (hx : ∀ b, x ≠ .messages b) (hreleased : app.store.Released store {x})
    (hconv : store.conversations = app.store.conversations) :
    Converging H ({ app with store := store }.setAsk x none) := by
  obtain ⟨h₀, hloads⟩ := h.loads
  refine ⟨hloads.released hreleased rfl fun y ask hy => asks_of_settled hy, fun bot => ?_⟩
  refine (h.following bot).same rfl rfl (fun hmem => ?_) (by rw [setAsk_store, hconv])
    fun ask hask => .inl (asks_of_settled hask).2
  exact hreleased.loading (Finset.mem_sdiff.mpr ⟨hmem, by simpa using (hx bot).symm⟩)

/-- A newest page, read after everything the client had when it asked. -/
theorem converging_messages [DecidableEq δ] (hH : H.Valid) (h : Converging H app)
    {b seq reflects limit : ℕ} {ask : Ask} (hask : app.asks (.messages b) = some ask)
    (hanswers : answers H seq reflects ask = true) :
    Converging H (({ app with
      store := (app.store.loadMessages b (page H b none seq reflects limit)).1 }.setAsk
        (.messages b) none).setCopy b fun _ =>
          ⟨reflects, decide (Snapshot.messages b ∈ app.store.stale), false⟩) := by
  obtain ⟨h₀, hloads⟩ := h.loads
  obtain ⟨hreleased, hconv, hreload⟩ :=
    app.store.loadMessages_spec b (page H b none seq reflects limit)
  generalize (app.store.loadMessages b (page H b none seq reflects limit)).1 = store at *
  simp only [answers, Bool.and_eq_true, decide_eq_true_eq] at hanswers
  obtain ⟨⟨hhad, hsr⟩, -⟩ := hanswers
  refine ⟨hloads.released hreleased rfl fun y ask hy => asks_of_settled hy, fun bot => ?_⟩
  have hcopies := setCopy_copies ({ app with store := store }.setAsk (.messages b) none) b bot
    fun _ => ⟨reflects, decide (Snapshot.messages b ∈ app.store.stale), false⟩
  by_cases hb : b = bot
  · subst hb
    rw [if_pos rfl] at hcopies
    have hcopy : ∀ c, store.conversations[b]? = some c →
        c = ((H.window h₀ app.position).filter fun e => e.seq > seq).foldl (·.take b ·)
          (pageCopy H b seq reflects limit) := by
      intro c hc
      rw [hconv b, if_pos rfl, hloads.held] at hc
      exact (Option.some.inj hc).symm
    refine ⟨fun c hc hwhole => ?_, fun c hc hlost => ?_, fun c hc hreq => absurd ?_ hreq⟩
    · rw [hcopies] at hwhole ⊢
      rw [hcopy c hc]
      have hstale : Snapshot.messages b ∉ app.store.stale := by simpa using hwhole
      have hsince := (hloads.fresh _ ask hask hstale).trans hhad
      exact follows_pageReplay hH hsince hloads.since_le hsr hloads.position_le
    · rw [hcopies] at hlost
      exact .inr (hreload (by simpa using hlost))
    · rw [hcopy c hc, (foldl_take_frame _ b _).2.2]
      rfl
  · rw [if_neg (Ne.symm hb)] at hcopies
    refine (h.following bot).same rfl hcopies (fun hmem => ?_) ?_ fun ask hask => ?_
    · refine hreleased.loading (Finset.mem_sdiff.mpr ⟨hmem, ?_⟩)
      simpa using Ne.symm hb
    · exact (hconv bot).trans (if_neg hb)
    · rw [setCopy_asks] at hask
      exact .inl (asks_of_settled hask).2

/-- What an older page leaves of the copy that asked for it. -/
theorem follows_mergeOlder (hH : H.Valid) (hloads : Loads H h₀ app) {c : Conversation δ}
    {b seq reflects limit before R : ℕ} {stale : Bool} (h : Follows H b app.position R c)
    (hsince : stale = false → h₀ ≤ seq) (hsr : seq ≤ reflects)
    (hseq : c.requestedOlder ≠ none → c.seq ≤ seq) :
    Follows H b app.position (max R reflects) (Store.mergeOlder b before
      (page H b (some before) seq reflects limit) stale app.store.held c) := by
  unfold Store.mergeOlder
  split
  swap
  · exact h.mono (le_max_left R reflects)
  next hreq =>
  cases stale with
  | true =>
      rw [Bool.not_true, if_neg (by simp [replayAllEarlier_stale])]
      exact (h.mono (le_max_left R reflects)).request none
  | false =>
      obtain ⟨e, hreplay, he, hids⟩ : ∃ e, Store.replayAllEarlier
          (Store.earlierOf c b before (page H b (some before) seq reflects limit)) true
          (H.window seq app.position) = (e, true) ∧ Earlier H b app.position reflects e ∧
          SameIds (Store.earlierOf c b before (page H b (some before) seq reflects limit)) e := by
        rcases Nat.le_total seq app.position with hle | hle
        · exact (earlier_page hsr).replay hH hle hloads.position_le true
        · rw [History.window_of_le hle]
          exact ⟨_, rfl, earlier_page (hle.trans hsr), SameIds.refl _⟩
      have hheld : (app.store.held.filter fun envelope =>
          envelope.seq > (page H b (some before) seq reflects limit).seq) =
          H.window seq app.position := by
        rw [hloads.held]
        exact History.window_filter hloads.since_le hloads.position_le (hsince rfl)
      rw [hheld, Bool.not_false]
      dsimp only
      rw [hreplay, if_pos rfl]
      exact h.merge hH (hseq (by simp [hreq.1])) hsr hreq.2 he hids

/-- An older page, read after everything the client had when it asked. -/
theorem converging_older (hH : H.Valid) (h : Converging H app) {b seq reflects limit had before : ℕ}
    (hask : app.asks (.older b) = some ⟨had, some before⟩)
    (hanswers : answers H seq reflects ⟨had, some before⟩ = true) :
    Converging H (({ app with
      store := (app.store.loadOlder b before (page H b (some before) seq reflects limit)).1 }.setAsk
        (.older b) none).setCopy b fun copy =>
          { copy with reflects := max copy.reflects reflects }) := by
  obtain ⟨h₀, hloads⟩ := h.loads
  obtain ⟨hreleased, hconv⟩ :=
    app.store.loadOlder_spec b before (page H b (some before) seq reflects limit)
  generalize (app.store.loadOlder b before (page H b (some before) seq reflects limit)).1 = store
    at *
  simp only [answers, Bool.and_eq_true, decide_eq_true_eq] at hanswers
  obtain ⟨⟨hhad, hsr⟩, -⟩ := hanswers
  refine ⟨hloads.released hreleased rfl fun y ask hy => asks_of_settled hy, fun bot => ?_⟩
  have hcopies := setCopy_copies ({ app with store := store }.setAsk (.older b) none) b bot
    fun copy => { copy with reflects := max copy.reflects reflects }
  by_cases hb : b = bot
  · subst hb
    rw [if_pos rfl] at hcopies
    have hcopy : ∀ c', store.conversations[b]? = some c' →
        ∃ c, app.store.conversations[b]? = some c ∧ Store.mergeOlder b before
          (page H b (some before) seq reflects limit) (decide (Snapshot.older b ∈ app.store.stale))
          app.store.held c = c' := by
      intro c' hc'
      rw [hconv b, if_pos rfl] at hc'
      exact Option.map_eq_some_iff.mp hc'
    refine ⟨fun c' hc' hwhole => ?_, fun c' hc' hlost => ?_, fun c' hc' hreq ask hnone => ?_⟩
    · rw [hcopies] at hwhole ⊢
      obtain ⟨c, hc, rfl⟩ := hcopy c' hc'
      refine follows_mergeOlder hH hloads ((h.following b).follows c hc hwhole) (fun hfresh => ?_)
        hsr fun hreq => ?_
      · exact (hloads.fresh _ _ hask (by simpa using hfresh)).trans hhad
      · exact ((h.following b).requested c hc hreq _ hask).trans hhad
    · rw [hcopies] at hlost ⊢
      obtain ⟨c, hc, -⟩ := hcopy c' hc'
      refine ((h.following b).reloads c hc hlost).imp_right fun hmem => ?_
      exact hreleased.loading (Finset.mem_sdiff.mpr ⟨hmem, by simp⟩)
    · rw [setCopy_asks, setAsk_asks, if_pos rfl] at hnone
      cases hnone
  · rw [if_neg (Ne.symm hb)] at hcopies
    refine (h.following bot).same rfl hcopies (fun hmem => ?_) ?_ fun ask hask => ?_
    · exact hreleased.loading (Finset.mem_sdiff.mpr ⟨hmem, by simp⟩)
    · exact (hconv bot).trans (if_neg hb)
    · rw [setCopy_asks] at hask
      exact .inl (asks_of_settled hask).2

/-- A load that fails. A lossy copy whose own reload fails is given up with it. -/
theorem converging_failed (h : Converging H app) (x : Snapshot) (copies : ℕ → Copy)
    (hcopies : ∀ bot, (copies bot).reflects = (app.copies bot).reflects ∧
      (copies bot).lossy = (app.copies bot).lossy ∧
      ((app.copies bot).abandoned = true ∨ x = .messages bot ∧ (app.copies bot).lossy = true →
        (copies bot).abandoned = true)) :
    Converging H { ({ app with store := app.store.loadFailed x }.setAsk x none) with
      copies := copies } := by
  obtain ⟨h₀, hloads⟩ := h.loads
  obtain ⟨hreleased, hconv⟩ := app.store.loadFailed_spec x
  refine ⟨hloads.released hreleased rfl fun y ask hy => asks_of_settled hy, fun bot => ?_⟩
  obtain ⟨hreflects, hlossy, habandoned⟩ := hcopies bot
  refine (h.following bot).kept rfl hreflects hlossy (fun hlost hreload => ?_) (fun c' hc' => ?_)
    fun c' hc' hreq ask hask => ?_
  · by_cases hx : x = .messages bot
    · exact .inl (habandoned (.inr ⟨hx, hlost⟩))
    · refine hreload.imp (fun ha => habandoned (.inl ha)) fun hmem => ?_
      exact hreleased.loading (Finset.mem_sdiff.mpr ⟨hmem, by simpa using Ne.symm hx⟩)
  · have hc := (hconv bot).symm.trans hc'
    split at hc
    · obtain ⟨c, hold, rfl⟩ := Option.map_eq_some_iff.mp hc
      exact ⟨c, hold, rfl⟩
    · exact ⟨c', hc, rfl⟩
  · obtain ⟨hx, hold⟩ := asks_of_settled hask
    have hc := (hconv bot).symm.trans hc'
    rw [if_neg fun heq => hx (by simp [heq])] at hc
    exact (h.following bot).requested c' hc hreq ask hold

/-- A conversation closes. -/
theorem converging_closeConversation (h : Converging H app) (b : ℕ) :
    Converging H ((({ app with store := app.store.closeConversation b }.setAsk (.messages b)
      none).setAsk (.older b) none).setCopy b fun _ => Copy.none) := by
  obtain ⟨h₀, hloads⟩ := h.loads
  obtain ⟨hreleased, hconv⟩ := app.store.closeConversation_spec b
  refine ⟨hloads.released hreleased rfl closeConversation_asks, fun bot => ?_⟩
  by_cases hb : b = bot
  · subst hb
    have hnone : ∀ c, (app.store.closeConversation b).conversations[b]? ≠ some c := by
      intro c
      rw [hconv b, if_pos rfl]
      simp
    exact ⟨fun c hc => absurd hc (hnone c), fun c hc => absurd hc (hnone c),
      fun c hc => absurd hc (hnone c)⟩
  · refine (h.following bot).same rfl ?_ (fun hmem => ?_) ((hconv bot).trans (if_neg hb))
      fun ask hask => .inl (closeConversation_asks _ ask hask).2
    · rw [setCopy_copies, if_neg (Ne.symm hb)]
      rfl
    · exact hreleased.loading (Finset.mem_sdiff.mpr ⟨hmem, by simpa using Ne.symm hb⟩)

/-- An event reaches the store. -/
theorem converging_deliver [DecidableEq δ] (hH : H.Valid) (h : Converging H app)
    {envelope : EventEnvelope (Event δ)} (hnext : H.events[app.position]? = some envelope) :
    Converging H { app with
      store := (app.store.apply envelope).1, position := app.position + 1 } := by
  obtain ⟨h₀, hloads⟩ := h.loads
  obtain ⟨hconv, hloading, hheld, hstale⟩ := app.store.apply_spec envelope
  obtain ⟨hq, henvelope⟩ := next_envelope hnext
  refine ⟨loads_deliver hloads hnext, fun bot => ?_⟩
  have hcopy : ∀ c', (app.store.apply envelope).1.conversations[bot]? = some c' →
      ∃ c, app.store.conversations[bot]? = some c ∧
        c' = if envelope.event.messageBot = some bot then c.take bot envelope else c := by
    intro c' hc'
    rw [hconv bot] at hc'
    split at hc'
    · next hbot =>
        obtain ⟨c, hc, rfl⟩ := Option.map_eq_some_iff.mp hc'
        exact ⟨c, hc, by rw [if_pos hbot]⟩
    · next hbot => exact ⟨c', hc', by rw [if_neg hbot]⟩
  refine ⟨fun c' hc' hwhole => ?_, fun c' hc' hlost => ?_, fun c' hc' hreq ask hask => ?_⟩
  all_goals obtain ⟨c, hc, rfl⟩ := hcopy c' hc'
  · have hfollows := (h.following bot).follows c hc hwhole
    split
    · have htake := hfollows.take hH hq
      rwa [henvelope] at htake
    · next hbot => exact hfollows.advance hH hq (.inl (henvelope ▸ hbot))
  · exact ((h.following bot).reloads c hc hlost).imp_right fun hmem => hloading hmem
  · obtain ⟨hseq, -, hreq'⟩ := take_frame c bot envelope
    have hold := (h.following bot).requested c hc
    by_cases hbot : envelope.event.messageBot = some bot
    · rw [if_pos hbot] at hreq ⊢
      rw [hseq]
      exact hold (hreq' ▸ hreq) ask hask
    · rw [if_neg hbot] at hreq ⊢
      exact hold hreq ask hask

theorem converging_new {start : ℕ} (hstart : start ≤ H.length) :
    Converging H (App.new start) := by
  have hheld : (App.new start : App δ).store.held = H.window start start := by
    rw [History.window_of_le le_rfl]
    rfl
  have hempty : ∀ bot : ℕ, (App.new start : App δ).store.conversations[bot]? = none := by
    simp [App.new, Store.new]
  have hnone : ∀ x ask, (App.new start : App δ).asks x ≠ some ask := by
    intro x ask hx
    cases hx
  refine ⟨⟨start, ⟨hstart, le_rfl, hheld, fun _ => rfl, fun x ask h => absurd h (hnone x ask),
    fun x ask h => absurd h (hnone x ask)⟩⟩, fun bot => ⟨fun c hc => ?_, fun c hc => ?_,
    fun c hc => ?_⟩⟩
  all_goals
    rw [hempty] at hc
    cases hc

/-- What one step of the schedule keeps. -/
theorem converging_step [DecidableEq δ] (hH : H.Valid) (action : Action δ)
    (h : Converging H app) (hstep : App.step H app action = some app') : Converging H app' := by
  cases action with
  | request x => exact Option.some.inj hstep ▸ converging_request h x
  | requestOlder b => exact Option.some.inj hstep ▸ converging_requestOlder h b
  | reloadAll => exact Option.some.inj hstep ▸ converging_reloadAll h
  | messages b seq reflects limit =>
      unfold App.step at hstep
      cases hask : app.asks (.messages b) with
      | none => simp [hask] at hstep
      | some ask =>
          by_cases hanswers : answers H seq reflects ask = true
          · simp only [hask, if_pos hanswers] at hstep
            exact Option.some.inj hstep ▸ converging_messages hH h hask hanswers
          · simp [hask, hanswers] at hstep
  | older b seq reflects limit =>
      unfold App.step at hstep
      rcases hask : app.asks (.older b) with _ | ⟨had, _ | before⟩
      · simp [hask] at hstep
      · simp [hask] at hstep
      · by_cases hanswers : answers H seq reflects ⟨had, some before⟩ = true
        · simp only [hask, if_pos hanswers] at hstep
          exact Option.some.inj hstep ▸ converging_older hH h hask hanswers
        · simp [hask, hanswers] at hstep
  | bots list =>
      obtain ⟨hreleased, hconv⟩ := app.store.loadBots_spec list
      exact Option.some.inj hstep ▸ converging_other h (by simp) hreleased hconv
  | routines b list =>
      obtain ⟨hreleased, hconv⟩ := app.store.loadRoutines_spec b list
      exact Option.some.inj hstep ▸ converging_other h (by simp) hreleased hconv
  | failed x =>
      unfold App.step at hstep
      dsimp only at hstep
      split at hstep
      · next bot =>
          refine Option.some.inj hstep ▸ converging_failed h (.messages bot) _ fun b => ?_
          rw [Function.update_apply]
          split
          · next hb =>
              subst hb
              refine ⟨rfl, rfl, fun hcase => ?_⟩
              rcases hcase with ha | ⟨-, hlost⟩
              · simp [ha]
              · simp [hlost]
          · next hb =>
              refine ⟨rfl, rfl, fun hcase => hcase.resolve_right fun hx => hb ?_⟩
              exact (Snapshot.messages.inj hx.1).symm
      · next hx =>
          refine Option.some.inj hstep ▸ converging_failed h x app.copies fun b => ?_
          exact ⟨rfl, rfl, fun hcase => hcase.resolve_right fun h' => hx b h'.1⟩
  | closeConversation b => exact Option.some.inj hstep ▸ converging_closeConversation h b
  | closeRoutines b =>
      obtain ⟨hreleased, hconv⟩ := app.store.closeRoutines_spec b
      exact Option.some.inj hstep ▸ converging_other h (by simp) hreleased hconv
  | deliver =>
      unfold App.step at hstep
      cases hnext : H.events[app.position]? with
      | none => simp [hnext] at hstep
      | some envelope =>
          simp only [hnext] at hstep
          exact Option.some.inj hstep ▸ converging_deliver hH h hnext

end App

end Bokkie
