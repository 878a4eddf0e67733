import Bokkie.StoreConversations

/-!
# The loads under way

The events held are those since some point that every load under way was asked for after, unless
the load is stale.
-/

namespace Bokkie

variable {δ : Type} {H : History δ} {app app' : App δ} {bot h₀ : ℕ} {gone : Finset Snapshot}

namespace App

/-- The events held are those after the first `h₀`; fresh loads were asked for later. -/
structure Loads (H : History δ) (h₀ : ℕ) (app : App δ) : Prop where
  position_le : app.position ≤ H.changes.length
  since_le : h₀ ≤ app.position
  held : app.store.held = H.window h₀ app.position
  idle : app.store.loading = ∅ → h₀ = app.position
  asked : ∀ snapshot ask, app.asks snapshot = some ask → snapshot ∈ app.store.loading
  fresh : ∀ snapshot ask, app.asks snapshot = some ask → snapshot ∉ app.store.stale →
    h₀ ≤ ask.had

@[simp] theorem setAsk_store (app : App δ) (x : Snapshot) (ask : Option Ask) :
    (app.setAsk x ask).store = app.store := rfl

@[simp] theorem setAsk_position (app : App δ) (x : Snapshot) (ask : Option Ask) :
    (app.setAsk x ask).position = app.position := rfl

@[simp] theorem setAsk_copies (app : App δ) (x : Snapshot) (ask : Option Ask) :
    (app.setAsk x ask).copies = app.copies := rfl

theorem setAsk_asks (app : App δ) (x y : Snapshot) (ask : Option Ask) :
    (app.setAsk x ask).asks y = if y = x then ask else app.asks y :=
  Function.update_apply app.asks x ask y

@[simp] theorem setCopy_store (app : App δ) (b : ℕ) (f : Copy → Copy) :
    (app.setCopy b f).store = app.store := rfl

@[simp] theorem setCopy_position (app : App δ) (b : ℕ) (f : Copy → Copy) :
    (app.setCopy b f).position = app.position := rfl

@[simp] theorem setCopy_asks (app : App δ) (b : ℕ) (f : Copy → Copy) :
    (app.setCopy b f).asks = app.asks := rfl

theorem setCopy_copies (app : App δ) (b b' : ℕ) (f : Copy → Copy) :
    (app.setCopy b f).copies b' = if b' = b then f (app.copies b) else app.copies b' :=
  Function.update_apply app.copies b (f (app.copies b)) b'

theorem hadFor_ge (app : App δ) (x : Snapshot) : app.position ≤ app.hadFor x := by
  cases x <;> simp [hadFor, had]

/-- An ask that has been settled is over. -/
theorem asks_of_settled {app : App δ} {x y : Snapshot} {ask : Ask}
    (hy : (app.setAsk x none).asks y = some ask) : y ∉ ({x} : Finset Snapshot) ∧
      app.asks y = some ask := by
  rw [setAsk_asks] at hy
  split at hy
  · cases hy
  · next hne => exact ⟨by simpa using hne, hy⟩

/-- Some loads end; the others are as they were. -/
theorem Loads.released (h : Loads H h₀ app) (hreleased : app.store.Released app'.store gone)
    (hposition : app'.position = app.position)
    (hasks : ∀ x ask, app'.asks x = some ask → x ∉ gone ∧ app.asks x = some ask) :
    ∃ h₀', Loads H h₀' app' := by
  have hasked : ∀ x ask, app'.asks x = some ask → x ∈ app.store.loading \ gone := by
    intro x ask hx
    obtain ⟨hgone, hx⟩ := hasks x ask hx
    exact Finset.mem_sdiff.mpr ⟨h.asked x ask hx, hgone⟩
  by_cases hnone : app'.store.held = [] ∧
      (app'.store.loading = ∅ ∨ app.store.loading \ gone = ∅)
  · obtain ⟨hheld, hidle⟩ := hnone
    refine ⟨app'.position, ⟨hposition ▸ h.position_le, le_rfl, ?_, fun _ => rfl, ?_, ?_⟩⟩
    · rw [hheld, History.window_of_le le_rfl]
    · exact fun x ask hx => hreleased.loading (hasked x ask hx)
    · intro x ask hx
      have hmem := hasked x ask hx
      rcases hidle with hidle | hidle
      · have hmem' := hreleased.loading hmem
        simp [hidle] at hmem'
      · simp [hidle] at hmem
  · have hbusy : app'.store.loading ≠ ∅ := fun hidle =>
      hnone ⟨hreleased.settled hidle, .inl hidle⟩
    have hheld : app'.store.held = app.store.held := by
      rcases hreleased.held with hheld | ⟨hheld, hidle⟩
      · exact hheld
      · exact absurd ⟨hheld, .inr hidle⟩ hnone
    refine ⟨h₀, ⟨hposition ▸ h.position_le, hposition ▸ h.since_le, ?_,
      fun hidle => absurd hidle hbusy, fun x ask hx => hreleased.loading (hasked x ask hx), ?_⟩⟩
    · rw [hheld, h.held, hposition]
    · intro x ask hx hstale
      obtain ⟨hgone, hx⟩ := hasks x ask hx
      exact h.fresh x ask hx fun hmem => hstale (hreleased.stale (Finset.mem_sdiff.mpr ⟨hmem, hgone⟩))

/-- Loads begin: what is asked for now is read after everything held. -/
theorem Loads.asking (h : Loads H h₀ app) (hposition : app'.position = app.position)
    (hheld : app'.store.held = app.store.held) (hstale : app'.store.stale = app.store.stale)
    (hloading : app.store.loading ⊆ app'.store.loading)
    (hasks : ∀ x ask, app'.asks x = some ask → app.asks x = some ask ∨
      x ∈ app'.store.loading ∧ app.position ≤ ask.had) : Loads H h₀ app' where
  position_le := hposition ▸ h.position_le
  since_le := hposition ▸ h.since_le
  held := by rw [hheld, h.held, hposition]
  idle hidle := by
    rw [hposition]
    exact h.idle (Finset.subset_empty.mp (hidle ▸ hloading))
  asked x ask hx := by
    rcases hasks x ask hx with hold | ⟨hnew, -⟩
    · exact hloading (h.asked x ask hold)
    · exact hnew
  fresh x ask hx hnot := by
    rcases hasks x ask hx with hold | ⟨-, hhad⟩
    · exact h.fresh x ask hold (hstale ▸ hnot)
    · exact h.since_le.trans hhad

theorem loads_request (h : Loads H h₀ app) (x : Snapshot) :
    Loads H h₀ ({ app with store := (app.store.request x).1 }.setAsk x
      (some ⟨app.hadFor x, none⟩)) := by
  refine h.asking rfl rfl rfl (Finset.subset_insert x _) fun y ask hy => ?_
  rw [setAsk_asks] at hy
  split at hy
  · next hyx =>
      subst hyx
      cases hy
      exact .inr ⟨Finset.mem_insert_self y _, app.hadFor_ge y⟩
  · exact .inl hy

theorem loads_requestOlder (h : Loads H h₀ app) (b : ℕ) :
    ∃ h₀', Loads H h₀' ({ app with store := (app.store.requestOlder b).1 }.setAsk (.older b)
      ((app.store.requestOlder b).2.map fun cursor => ⟨app.had b, some cursor⟩)) := by
  obtain ⟨-, hnone, hsome⟩ := app.store.requestOlder_spec b
  cases hcursor : (app.store.requestOlder b).2 with
  | none => exact h.released (hnone hcursor) rfl fun y ask hy => asks_of_settled hy
  | some cursor =>
      obtain ⟨hl, hheld, hstale⟩ := hsome (by simp [hcursor])
      refine ⟨h₀, h.asking rfl hheld hstale ?_ fun y ask hy => ?_⟩
      · rw [setAsk_store, hl]
        exact Finset.subset_insert _ _
      · rw [setAsk_asks] at hy
        split at hy
        · next hyx =>
            cases hy
            rw [setAsk_store, hl, hyx]
            exact .inr ⟨Finset.mem_insert_self _ _, le_max_left _ _⟩
        · exact .inl hy

theorem loads_reloadAll (h : Loads H h₀ app) :
    Loads H h₀ { app with
      store := app.store.reloadAll.1
      asks := fun x =>
        if x ∈ app.store.reloadAll.2 then some ⟨app.hadFor x, none⟩ else app.asks x } := by
  refine h.asking rfl rfl rfl Finset.subset_union_left fun y ask hy => ?_
  dsimp only at hy
  split at hy
  · next hmem =>
      cases hy
      exact .inr ⟨Finset.mem_union_right _ hmem, app.hadFor_ge y⟩
  · exact .inl hy

/-- A load ends. -/
theorem loads_released (h : Loads H h₀ app) {x : Snapshot} {store : Store δ}
    (hreleased : app.store.Released store {x}) :
    ∃ h₀', Loads H h₀' ({ app with store := store }.setAsk x none) :=
  h.released hreleased rfl fun _ _ hy => asks_of_settled hy

theorem closeConversation_asks {b : ℕ} {store : Store δ} (x : Snapshot) (ask : Ask)
    (hx : (({ app with store := store }.setAsk (.messages b) none).setAsk (.older b) none).asks x =
      some ask) :
    x ∉ ({.messages b, .older b} : Finset Snapshot) ∧ app.asks x = some ask := by
  obtain ⟨holder, hx⟩ := asks_of_settled hx
  obtain ⟨hmessages, hx⟩ := asks_of_settled hx
  refine ⟨?_, hx⟩
  rw [Finset.mem_insert, not_or]
  exact ⟨by simpa using hmessages, holder⟩

/-- The next change's event. -/
theorem next_envelope {envelope : EventEnvelope (Event δ)}
    (hnext : H.events[app.position]? = some envelope) :
    ∃ hq : app.position < H.changes.length, (H.changes[app.position]).envelope = envelope := by
  obtain ⟨hlt, hget⟩ := List.getElem?_eq_some_iff.mp hnext
  have hq : app.position < H.changes.length := by simpa [History.events] using hlt
  exact ⟨hq, by simpa [History.events] using hget⟩

/-- An event reaches the store. -/
theorem loads_deliver [DecidableEq δ] (h : Loads H h₀ app) {envelope : EventEnvelope (Event δ)}
    (hnext : H.events[app.position]? = some envelope) :
    ∃ h₀', Loads H h₀' { app with
      store := (app.store.apply envelope).1, position := app.position + 1 } := by
  obtain ⟨-, hloading, hheld, hstale⟩ := app.store.apply_spec envelope
  obtain ⟨hq, henvelope⟩ := next_envelope hnext
  have hwindow := History.window_succ h.since_le hq
  rw [henvelope, ← h.held] at hwindow
  have hasked : ∀ x ask, app.asks x = some ask → x ∈ (app.store.apply envelope).1.loading :=
    fun x ask hx => hloading (h.asked x ask hx)
  by_cases hidle : app.store.loading = ∅
  · have hhold : app.store.hold envelope = app.store := by rw [Store.hold, if_pos hidle]
    refine ⟨app.position + 1, ⟨hq, le_rfl, ?_, fun _ => rfl, hasked, fun x ask hx => ?_⟩⟩
    · rw [hheld, hhold, h.held, h.idle hidle, History.window_of_le le_rfl,
        History.window_of_le le_rfl]
    · have hmem := h.asked x ask hx
      rw [hidle] at hmem
      simp at hmem
  · have hbusy : (app.store.apply envelope).1.loading ≠ ∅ := fun he =>
      hidle (Finset.subset_empty.mp (he ▸ hloading))
    by_cases hfull : app.store.held.length ≥ maxHeld
    · -- The events held are dropped, and every load under way goes stale.
      have hhold : app.store.hold envelope =
          { app.store with
            held := [envelope], stale := app.store.stale ∪ app.store.loading } := by
        rw [Store.hold, if_neg hidle, if_pos hfull]
      refine ⟨app.position, ⟨hq, Nat.le_succ _, ?_, fun he => absurd he hbusy, hasked,
        fun x ask hx hnot => absurd ?_ hnot⟩⟩
      · have hlast := History.window_succ (le_refl app.position) hq
        rw [henvelope, History.window_of_le le_rfl] at hlast
        rw [hheld, hhold, hlast]
        rfl
      · rw [hstale, hhold]
        exact Finset.mem_union_right _ (h.asked x ask hx)
    · have hhold : app.store.hold envelope =
          { app.store with held := app.store.held ++ [envelope] } := by
        rw [Store.hold, if_neg hidle, if_neg hfull]
      refine ⟨h₀, ⟨hq, h.since_le.trans (Nat.le_succ _), ?_, fun he => absurd he hbusy,
        hasked, fun x ask hx hnot => h.fresh x ask hx ?_⟩⟩
      · rw [hheld, hhold, hwindow]
      · rwa [hstale, hhold] at hnot

/-- The loads do not depend on what is remembered of the copies. -/
theorem Loads.copies (h : Loads H h₀ app) (copies : ℕ → Copy) :
    Loads H h₀ { app with copies := copies } where
  position_le := h.position_le
  since_le := h.since_le
  held := h.held
  idle := h.idle
  asked := h.asked
  fresh := h.fresh

/-- Nor on what the lists show. -/
theorem Loads.framed {store : Store δ} (h : Loads H h₀ app) (hframe : app.store.Frame store) :
    Loads H h₀ { app with store := store } where
  position_le := h.position_le
  since_le := h.since_le
  held := hframe.held.trans h.held
  idle := fun hidle => h.idle (hframe.loading ▸ hidle)
  asked := fun x ask hx => hframe.loading ▸ h.asked x ask hx
  fresh := fun x ask hx hnot => h.fresh x ask hx (hframe.stale ▸ hnot)

/-- What one step of the schedule keeps of the loads. -/
theorem loads_step [DecidableEq δ] (action : Action δ) (h : Loads H h₀ app)
    (hstep : App.step H app action = some app') : ∃ h₀', Loads H h₀' app' := by
  cases action with
  | request x => exact ⟨h₀, Option.some.inj hstep ▸ loads_request h x⟩
  | requestOlder b => exact Option.some.inj hstep ▸ loads_requestOlder h b
  | reloadAll => exact ⟨h₀, Option.some.inj hstep ▸ loads_reloadAll h⟩
  | messages b seq reflects limit =>
      unfold App.step at hstep
      cases hask : app.asks (.messages b) with
      | none => simp [hask] at hstep
      | some ask =>
          by_cases hanswers : answers H seq reflects ask = true
          · simp only [hask, if_pos hanswers] at hstep
            obtain ⟨h₀', h'⟩ := loads_released h
              (app.store.loadMessages_spec b (page H b none seq reflects limit)).1
            exact ⟨h₀', Option.some.inj hstep ▸ h'.copies _⟩
          · simp [hask, hanswers] at hstep
  | older b seq reflects limit =>
      unfold App.step at hstep
      rcases hask : app.asks (.older b) with _ | ⟨had, _ | before⟩
      · simp [hask] at hstep
      · simp [hask] at hstep
      · by_cases hanswers : answers H seq reflects ⟨had, some before⟩ = true
        · simp only [hask, if_pos hanswers] at hstep
          obtain ⟨h₀', h'⟩ := loads_released h
            (app.store.loadOlder_spec b before (page H b (some before) seq reflects limit)).1
          exact ⟨h₀', Option.some.inj hstep ▸ h'.copies _⟩
        · simp [hask, hanswers] at hstep
  | bots list =>
      exact Option.some.inj hstep ▸ loads_released h (app.store.loadBots_spec list).1
  | routines b list =>
      exact Option.some.inj hstep ▸ loads_released h (app.store.loadRoutines_spec b list).1
  | failed x =>
      obtain ⟨h₀', h'⟩ := loads_released h (app.store.loadFailed_spec x).1
      unfold App.step at hstep
      dsimp only at hstep
      split at hstep
      · exact ⟨h₀', Option.some.inj hstep ▸ h'.copies _⟩
      · exact ⟨h₀', Option.some.inj hstep ▸ h'⟩
  | closeConversation b =>
      obtain ⟨h₀', h'⟩ : ∃ h₀', Loads H h₀' (({ app with
          store := app.store.closeConversation b }.setAsk (.messages b) none).setAsk (.older b)
          none) := by
        refine h.released (app.store.closeConversation_spec b).1 ?_ ?_
        · rfl
        · exact closeConversation_asks
      exact ⟨h₀', Option.some.inj hstep ▸ h'.copies _⟩
  | closeRoutines b =>
      exact Option.some.inj hstep ▸ loads_released h (app.store.closeRoutines_spec b).1
  | deliver =>
      unfold App.step at hstep
      cases hnext : H.events[app.position]? with
      | none => simp [hnext] at hstep
      | some envelope =>
          simp only [hnext] at hstep
          exact Option.some.inj hstep ▸ loads_deliver h hnext

theorem loads_new {start : ℕ} (hstart : start ≤ H.length) :
    Loads H start (App.new start) where
  position_le := hstart
  since_le := le_rfl
  held := (History.window_of_le le_rfl).symm
  idle := fun _ => rfl
  asked := nofun
  fresh := nofun

end App

end Bokkie
