import Bokkie.StoreLists
import Bokkie.Runs

/-!
# Routines converge

Under every schedule of lists, events and replies, once nothing is loading and the events have caught
up, the routines kept for a Bot are the gateway's. A reply carries no sequence number: it is set
against what the copy holds by the time of its version alone.
-/

namespace Bokkie

variable {δ : Type} {H : History δ}

namespace App

variable [DecidableEq δ] {app app' : App δ}

/-- A step that answers no list, closes no routines and delivers nothing leaves the routines alone. -/
theorem step_routines {action : Action δ} (hstep : App.step H app action = some app')
    (hlists : ∀ bot list, action ≠ .routines bot list) (hclose : ∀ bot, action ≠ .closeRoutines bot)
    (hdeliver : action ≠ .deliver) :
    app'.store.routines = app.store.routines ∧ app'.position = app.position ∧
      ∀ bot, action ≠ .failed (.routines bot) → .routines bot ∈ app.store.loading →
        .routines bot ∈ app'.store.loading := by
  have hreleased : ∀ {store : Store δ} {gone : Finset Snapshot}, app.store.Released store gone →
      ∀ bot, .routines bot ∉ gone → .routines bot ∈ app.store.loading →
        .routines bot ∈ store.loading := fun h bot hnot hmem =>
    h.loading (Finset.mem_sdiff.mpr ⟨hmem, hnot⟩)
  cases action with
  | request x =>
      obtain rfl := Option.some.inj hstep
      exact ⟨rfl, rfl, fun bot _ => Finset.mem_insert_of_mem⟩
  | requestOlder b =>
      obtain rfl := Option.some.inj hstep
      obtain ⟨-, hnone, hsome⟩ := app.store.requestOlder_spec b
      refine ⟨(Store.same_requestOlder app.store b).routines, rfl, fun bot _ hmem => ?_⟩
      by_cases hcursor : (app.store.requestOlder b).2 = none
      · exact hreleased (hnone hcursor) bot (by simp) hmem
      · rw [setAsk_store, (hsome hcursor).1]
        exact Finset.mem_insert_of_mem hmem
  | reloadAll =>
      obtain rfl := Option.some.inj hstep
      exact ⟨rfl, rfl, fun bot _ => Finset.mem_union_left _⟩
  | messages b seq reflects limit =>
      unfold App.step at hstep
      cases hask : app.asks (.messages b) with
      | none => simp [hask] at hstep
      | some ask =>
          by_cases hanswers : answers H seq reflects ask = true
          · simp only [hask, if_pos hanswers] at hstep
            have hsame := Store.routines_loadMessages app.store b
              (page H b none seq reflects limit)
            have hgone := (app.store.loadMessages_spec b (page H b none seq reflects limit)).1
            generalize (app.store.loadMessages b (page H b none seq reflects limit)).1 = store at *
            obtain rfl := Option.some.inj hstep
            exact ⟨hsame, rfl, fun bot _ => hreleased hgone bot (by simp)⟩
          · simp [hask, hanswers] at hstep
  | older b seq reflects limit =>
      unfold App.step at hstep
      rcases hask : app.asks (.older b) with _ | ⟨had, _ | before⟩
      · simp [hask] at hstep
      · simp [hask] at hstep
      · by_cases hanswers : answers H seq reflects ⟨had, some before⟩ = true
        · simp only [hask, if_pos hanswers] at hstep
          have hsame := (Store.same_loadOlder app.store b before
            (page H b (some before) seq reflects limit)).routines
          have hgone :=
            (app.store.loadOlder_spec b before (page H b (some before) seq reflects limit)).1
          generalize (app.store.loadOlder b before (page H b (some before) seq reflects limit)).1 =
            store at *
          obtain rfl := Option.some.inj hstep
          exact ⟨hsame, rfl, fun bot _ => hreleased hgone bot (by simp)⟩
        · simp [hask, hanswers] at hstep
  | bots list =>
      obtain rfl := Option.some.inj hstep
      exact ⟨Store.routines_loadBots _ _, rfl, fun bot _ =>
        hreleased (app.store.loadBots_spec list).1 bot (by simp)⟩
  | routines b list => exact absurd rfl (hlists b list)
  | failed x =>
      have hsame := (Store.same_loadFailed app.store x).routines
      have hkept : ∀ bot, Action.failed (δ := δ) x ≠ .failed (.routines bot) →
          .routines bot ∈ app.store.loading → .routines bot ∈ (app.store.loadFailed x).loading :=
        fun bot hne => hreleased (app.store.loadFailed_spec x).1 bot fun hmem =>
          hne (congrArg _ (Finset.mem_singleton.mp hmem).symm)
      unfold App.step at hstep
      dsimp only at hstep
      split at hstep
      · obtain rfl := Option.some.inj hstep
        exact ⟨hsame, rfl, hkept⟩
      · obtain rfl := Option.some.inj hstep
        exact ⟨hsame, rfl, hkept⟩
  | closeConversation b =>
      obtain rfl := Option.some.inj hstep
      exact ⟨(Store.same_closeConversation app.store b).routines, rfl, fun bot _ =>
        hreleased (app.store.closeConversation_spec b).1 bot (by simp)⟩
  | closeRoutines b => exact absurd rfl (hclose b)
  | deliver => exact absurd rfl hdeliver

end App

namespace Client

variable {client client' : Client δ} {n bot : ℕ}

/-- The routines kept for a Bot follow the gateway, or are to be loaded. -/
structure RoutinesFollow (H : History δ) (client : Client δ) : Prop where
  loads : ∃ h₀, App.Loads H h₀ client.app
  follows : ∀ (bot : ℕ) c, client.app.store.routines[bot]? = some c →
    .routines bot ∈ client.app.store.loading ∨ (client.routines bot).failed = true ∨
      FollowsRoutines H bot client.app.position (client.routines bot).reach c
  listed : ∀ (bot : ℕ) c, client.app.store.routines[bot]? = some c →
    c.seq ≤ (client.routines bot).reflects ∧ c.seq ≤ H.changes.length
  inOrder : client.overtaken = false

/-- What the routines kept are to be: the gateway's, once nothing is loading and the events have
caught up with the lists and the replies; and no reply ever took the place of something later. -/
structure RoutinesConverged (H : History δ) (client : Client δ) : Prop where
  inOrder : client.overtaken = false
  converged : client.app.store.loading = ∅ → ∀ (bot : ℕ) c,
    client.app.store.routines[bot]? = some c → (client.routines bot).failed = false →
    (client.routines bot).reach ≤ client.app.position →
    c.routines = H.routines bot client.app.position

/-- Whether the store has no use for a reply: it keeps no routines of the Bot, it holds the same or
a later version by its time, or, for a deletion, it does not hold the routine. -/
def ignores [DecidableEq δ] (s : Store δ) : Event δ → Bool
  | .routineCreated routine | .routineUpdated routine =>
    (s.routines[routine.botId]?).all fun c => (c.routines[routine.id]?).any fun held =>
      held.updatedAt > routine.updatedAt || held = routine
  | .routineDeleted bot id => (s.routines[bot]?).all fun c => id ∉ c.routines
  | _ => true

/-- No reply that the store has a use for comes after a later change of its routine. -/
def InOrder [DecidableEq δ] (H : History δ) (client : Client δ) : Action δ → Prop
  | .replied n => ∀ event bot routine, eventAt H n = some event →
      routineOf event = some (bot, routine) →
      ignores client.app.store event = true ∨ overtakes H client bot routine n = false
  | _ => True

theorem setRoutines_routines (client : Client δ) (bot b : ℕ) (f : RoutineCopy → RoutineCopy) :
    (client.setRoutines bot f).routines b =
      if b = bot then f (client.routines bot) else client.routines b :=
  Function.update_apply client.routines bot (f (client.routines bot)) b

@[simp] theorem setRoutines_app (client : Client δ) (bot : ℕ) (f : RoutineCopy → RoutineCopy) :
    (client.setRoutines bot f).app = client.app := rfl

@[simp] theorem setRoutines_overtaken (client : Client δ) (bot : ℕ)
    (f : RoutineCopy → RoutineCopy) :
    (client.setRoutines bot f).overtaken = client.overtaken := rfl

section Steps

/-- Nothing shows differently, and what is loading loads on. -/
theorem RoutinesFollow.same (h : RoutinesFollow H client)
    (hloads : ∃ h₀, App.Loads H h₀ client'.app)
    (hstore : client'.app.store.routines = client.app.store.routines)
    (hposition : client'.app.position = client.app.position)
    (hcopies : ∀ bot, client'.routines bot = client.routines bot ∨
      (client'.routines bot).failed = true ∧
        (client'.routines bot).reflects = (client.routines bot).reflects)
    (hloading : ∀ bot, .routines bot ∈ client.app.store.loading →
      .routines bot ∈ client'.app.store.loading ∨ (client'.routines bot).failed = true)
    (hinOrder : client'.overtaken = client.overtaken) : RoutinesFollow H client' where
  loads := hloads
  follows bot c hc := by
    rw [hstore] at hc
    rcases hcopies bot with hcopy | ⟨hfailed, -⟩
    · rcases h.follows bot c hc with hmem | hfailed | hfollows
      · exact (hloading bot hmem).imp_right .inl
      · exact .inr (.inl (hcopy ▸ hfailed))
      · rw [hposition, hcopy]
        exact .inr (.inr hfollows)
    · exact .inr (.inl hfailed)
  listed bot c hc := by
    rw [hstore] at hc
    rcases hcopies bot with hcopy | ⟨-, hreflects⟩
    · rw [hcopy]
      exact h.listed bot c hc
    · rw [hreflects]
      exact h.listed bot c hc
  inOrder := hinOrder.trans h.inOrder

variable [DecidableEq δ]

/-- A list, read after everything the client had when it asked. -/
theorem RoutinesFollow.list (hH : H.RoutinesValid) (h : RoutinesFollow H client)
    {seq reflects : ℕ} {ask : Ask} (hask : client.app.asks (.routines bot) = some ask)
    (hanswers : App.answers H seq reflects ask = true) {app : App δ}
    (happ : client.app.step H (.routines bot (H.routineList bot seq reflects)) = some app) :
    RoutinesFollow H (({ client with app := app } : Client δ).setRoutines bot
      fun _ => ⟨reflects, [], false⟩) := by
  obtain ⟨h₀, hloads⟩ := h.loads
  obtain ⟨h₀', hloads'⟩ := App.loads_step _ hloads happ
  obtain rfl := Option.some.inj happ
  simp only [App.answers, Bool.and_eq_true, decide_eq_true_eq] at hanswers
  obtain ⟨⟨hhad, hsr⟩, hreflects⟩ := hanswers
  have hposition := hloads.position_le
  have hsince := hloads.since_le
  have hshown : ∀ (b : ℕ) c, (client.app.store.loadRoutines bot
      (H.routineList bot seq reflects)).1.routines[b]? = some c → ∃ c₀,
      (b = bot ∧ c₀ = ⟨seq, IdMap.collect (·.id) ((H.routineList bot seq reflects).routines.filter
        fun r => r.botId = bot)⟩ ∨ b ≠ bot ∧ client.app.store.routines[b]? = some c₀) ∧
      c = (H.window (max h₀ seq) client.app.position).foldl (·.take b ·) c₀ := by
    intro b c hc
    rw [Store.loadRoutines_routines, hloads.held, History.window_filter_max hsince hposition] at hc
    obtain ⟨c₀, hc₀, rfl⟩ := Option.map_eq_some_iff.mp hc
    refine ⟨c₀, ?_, rfl⟩
    split at hc₀
    · next hb => exact .inl ⟨hb.symm, (Option.some.inj hc₀).symm⟩
    · next hb => exact .inr ⟨Ne.symm hb, hc₀⟩
  refine ⟨⟨h₀', hloads'⟩, fun b c hc => ?_, fun b c hc => ?_, h.inOrder⟩
  · obtain ⟨c₀, hc₀, rfl⟩ := hshown b c hc
    rw [setRoutines_app, setRoutines_routines, App.setAsk_store, App.setAsk_position]
    rcases hc₀ with ⟨rfl, rfl⟩ | ⟨hb, hc₀⟩
    · rw [if_pos rfl]
      by_cases hstale : Snapshot.routines b ∈ client.app.store.stale
      · exact .inl (Store.loadRoutines_reloads _ _ _ hstale)
      · refine .inr (.inr ?_)
        have hfresh := (hloads.fresh _ ask hask hstale).trans hhad
        have hlisted : ∀ q ≤ seq, FollowsRoutines H b q reflects (Routines.mk seq
            (IdMap.collect (·.id) ((H.routineList b seq reflects).routines.filter fun r =>
              r.botId = b))) := by
          intro q hq
          refine ⟨hsr, fun i => ⟨reflects, hsr, le_rfl, ?_⟩⟩
          rw [Nat.max_eq_left (hq.trans hsr)]
          exact History.collect_routineList
        rw [Nat.max_eq_right hfresh]
        rcases Nat.le_total seq client.app.position with hle | hle
        · exact (hlisted seq le_rfl).window hH hle hposition
        · rw [History.window_of_le hle]
          exact hlisted _ hle
    · rw [if_neg hb]
      rcases h.follows b c₀ hc₀ with hmem | hfailed | hfollows
      · refine .inl ((client.app.store.loadRoutines_spec bot _).1.loading (Finset.mem_sdiff.mpr
          ⟨hmem, ?_⟩))
        simpa using hb
      · exact .inr (.inl hfailed)
      · refine .inr (.inr ?_)
        -- the copy has had these events already, so it is seen from before them
        rcases Nat.le_total (max h₀ seq) client.app.position with hle | hle
        · exact ((hfollows.rewind hle).window hH hle hposition).settle
            (by rw [FollowsRoutines.foldl_take_seq]; exact hfollows.seq_le)
        · rwa [History.window_of_le hle]
  · obtain ⟨c₀, hc₀, rfl⟩ := hshown b c hc
    rw [setRoutines_routines, FollowsRoutines.foldl_take_seq]
    rcases hc₀ with ⟨rfl, rfl⟩ | ⟨hb, hc₀⟩
    · rw [if_pos rfl]
      exact ⟨hsr, hsr.trans hreflects⟩
    · rw [if_neg hb]
      exact h.listed b c₀ hc₀

/-- An event reaches the store. -/
theorem RoutinesFollow.deliver (hH : H.RoutinesValid) (h : RoutinesFollow H client) {app : App δ}
    (happ : client.app.step H .deliver = some app) :
    RoutinesFollow H { client with app := app } := by
  obtain ⟨h₀, hloads⟩ := h.loads
  have hloads' := App.loads_step _ hloads happ
  unfold App.step at happ
  cases hnext : H.events[client.app.position]? with
  | none => simp [hnext] at happ
  | some envelope =>
      simp only [hnext] at happ
      obtain rfl := Option.some.inj happ
      obtain ⟨hq, rfl⟩ := App.next_envelope hnext
      refine ⟨hloads', fun b c hc => ?_, fun b c hc => ?_, h.inOrder⟩ <;>
        rw [Store.apply_routines] at hc <;>
        obtain ⟨c₀, hc₀, rfl⟩ := Option.map_eq_some_iff.mp hc
      · rcases h.follows b c₀ hc₀ with hmem | hfailed | hfollows
        · exact .inl ((client.app.store.apply_spec _).2.1 hmem)
        · exact .inr (.inl hfailed)
        · exact .inr (.inr (hfollows.take hH hq))
      · rw [take_seq]
        exact h.listed b c₀ hc₀

theorem RoutinesFollow.close (h : RoutinesFollow H client) {app : App δ}
    (happ : client.app.step H (.closeRoutines bot) = some app) :
    RoutinesFollow H { client with app := app } := by
  obtain ⟨h₀, hloads⟩ := h.loads
  have hloads' := App.loads_step _ hloads happ
  obtain rfl := Option.some.inj happ
  have hroutines : ∀ (b : ℕ) c, (client.app.store.closeRoutines bot).routines[b]? = some c →
      bot ≠ b ∧ client.app.store.routines[b]? = some c := by
    intro b c hc
    have herase : (client.app.store.closeRoutines bot).routines =
        client.app.store.routines.erase bot := by
      unfold Store.closeRoutines
      exact (Store.same_settle _).routines
    rw [herase, IdMap.getElem?_erase'] at hc
    split at hc
    · cases hc
    · next hb => exact ⟨hb, hc⟩
  refine ⟨hloads', fun b c hc => ?_, fun b c hc => h.listed b c (hroutines b c hc).2, h.inOrder⟩
  obtain ⟨hb, hc⟩ := hroutines b c hc
  rcases h.follows b c hc with hmem | hrest
  · refine .inl ((client.app.store.closeRoutines_spec bot).1.loading (Finset.mem_sdiff.mpr
      ⟨hmem, ?_⟩))
    simpa using Ne.symm hb
  · exact .inr hrest

/-- What a reply does to the routines kept. -/
theorem reply_routines {s : Store δ} {event : Event δ} {i : ℕ}
    (habout : routineOf event = some (bot, i)) (b : ℕ) :
    ((reply s event).1.routines)[b]? =
      if b = bot ∧ ignores s event = false then
        (s.routines[b]?).map fun c => { c with routines := editRoutines bot c.routines event }
      else s.routines[b]? := by
  have hchanged : ∀ routine : Routine δ, routine.botId = bot → (∀ m,
      editRoutines bot m event = m.insert routine.id routine) →
      ((s.routineChanged routine).1.routines)[b]? =
        if b = bot ∧ ((s.routines[routine.botId]?).all fun c =>
          (c.routines[routine.id]?).any fun held =>
            held.updatedAt > routine.updatedAt || held = routine) = false then
          (s.routines[b]?).map fun c => { c with routines := editRoutines bot c.routines event }
        else s.routines[b]? := by
    rintro routine rfl hedit
    unfold Store.routineChanged
    cases hc : s.routines[routine.botId]? with
    | none => simp
    | some c =>
        simp only [Option.all_some]
        split
        · next hnewer => simp [hnewer]
        · next hnewer =>
            rw [IdMap.getElem?_insert']
            by_cases hb : routine.botId = b
            · subst hb
              simp [hc, hedit, hnewer]
            · simp [hb, Ne.symm hb]
  cases event with
  | routineCreated routine | routineUpdated routine =>
      obtain ⟨hbot, -⟩ := Prod.mk.inj (Option.some.inj habout)
      exact hchanged routine hbot fun m => by simp [editRoutines, hbot]
  | routineDeleted bot' id =>
      obtain ⟨rfl, -⟩ := Prod.mk.inj (Option.some.inj habout)
      simp only [reply, Store.routineDeleted, ignores, editRoutines, if_true]
      cases hc : s.routines[bot']? with
      | none => simp
      | some c =>
          rw [IdMap.getElem?_insert']
          by_cases hb : bot' = b
          · subst hb
            by_cases hid : id ∈ c.routines
            · simp [hc, hid]
            · have herase : c.routines.erase id = c.routines := by
                refine Std.ExtTreeMap.ext_getElem? fun j => ?_
                rw [IdMap.getElem?_erase']
                split
                · next hj =>
                    subst hj
                    exact (Std.ExtTreeMap.getElem?_eq_none hid).symm
                · rfl
              simp [hc, hid, herase]
          · simp [hb, Ne.symm hb]
  | _ => cases habout

theorem reply_ignored {s : Store δ} {event : Event δ} (h : ignores s event = true) :
    (reply s event).2 = false := by
  have hchanged : ∀ routine : Routine δ, ((s.routines[routine.botId]?).all fun c =>
      (c.routines[routine.id]?).any fun held =>
        held.updatedAt > routine.updatedAt || held = routine) = true →
      (s.routineChanged routine).2 = false := by
    intro routine h
    unfold Store.routineChanged
    cases hc : s.routines[routine.botId]? with
    | none => rfl
    | some c =>
        rw [hc, Option.all_some] at h
        simp [h]
  cases event with
  | routineCreated routine | routineUpdated routine => exact hchanged routine h
  | routineDeleted bot id =>
      simp only [ignores] at h
      simp only [reply, Store.routineDeleted]
      cases hc : s.routines[bot]? with
      | none => rfl
      | some c =>
          rw [hc, Option.all_some] at h
          simp [Std.ExtTreeMap.getElem?_eq_none (of_decide_eq_true h)]
  | _ => rfl

theorem frame_reply (s : Store δ) (event : Event δ) : s.Frame (reply s event).1 := by
  have hchanged : ∀ routine : Routine δ, s.Frame (s.routineChanged routine).1 := by
    intro routine
    unfold Store.routineChanged
    split
    · exact .refl s
    · dsimp only
      split <;> exact ⟨rfl, rfl, rfl, rfl⟩
  cases event with
  | routineCreated routine | routineUpdated routine => exact hchanged routine
  | routineDeleted bot id =>
      simp only [reply, Store.routineDeleted]
      split <;> exact ⟨rfl, rfl, rfl, rfl⟩
  | _ => exact .refl s

omit [DecidableEq δ] in
theorem overtakes_eq_false {i : ℕ} (h : overtakes H client bot i n = false) {m : ℕ} (hm : n < m)
    (hlt : m < max client.app.position (client.routines bot).reflects) :
    (eventAt H m).bind routineOf ≠ some (bot, i) := by
  intro habout
  have hreach : (client.routines bot).reflects ≤ (client.routines bot).reach := by
    unfold RoutineCopy.reach
    induction (client.routines bot).replies with
    | nil => exact le_rfl
    | cons m replies ih => exact ih.trans (le_max_right _ _)
  have hfalse := List.any_eq_false.mp h m (List.mem_range.mpr (by omega))
  simp [hm, habout, hlt] at hfalse

/-- A reply that no later change of its routine has overtaken, or that the store ignores. -/
theorem RoutinesFollow.replied (hH : H.RoutinesValid) (h : RoutinesFollow H client)
    (hinOrder : InOrder H client (.replied n))
    (hstep : client.step H (.replied n) = some client') : RoutinesFollow H client' := by
  obtain ⟨h₀, hloads⟩ := h.loads
  unfold step at hstep
  cases hevent : eventAt H n with
  | none => simp [hevent] at hstep
  | some event =>
      cases habout : routineOf event with
      | none => simp [hevent, habout] at hstep
      | some found =>
          obtain ⟨bot, i⟩ := found
          simp only [hevent, habout] at hstep
          obtain rfl := Option.some.inj hstep
          have hframe := frame_reply client.app.store event
          have hgood := hinOrder event bot i hevent habout
          obtain ⟨hn, rfl⟩ : ∃ hn : n < H.changes.length,
              (H.changes[n]).envelope.event = event := by
            obtain ⟨envelope, hget, rfl⟩ := Option.map_eq_some_iff.mp hevent
            obtain ⟨hlt, hget⟩ := List.getElem?_eq_some_iff.mp hget
            have hn : n < H.changes.length := by simpa [History.events] using hlt
            exact ⟨hn, by rw [← hget]; simp [History.events]⟩
          refine ⟨⟨h₀, hloads.framed hframe⟩, fun b c hc => ?_, fun b c hc => ?_, ?_⟩
          · rw [setRoutines_app] at hc ⊢
            rw [setRoutines_routines]
            dsimp only at hc ⊢
            rw [hframe.loading]
            rw [reply_routines habout] at hc
            have hkept : ∀ c, client.app.store.routines[b]? = some c →
                .routines b ∈ client.app.store.loading ∨
                  ((if b = bot then { client.routines bot with
                    replies := n :: (client.routines bot).replies } else
                      client.routines b)).failed = true ∨
                  FollowsRoutines H b client.app.position
                    ((if b = bot then { client.routines bot with
                      replies := n :: (client.routines bot).replies } else
                        client.routines b)).reach c := by
              intro c hc
              rcases h.follows b c hc with hmem | hfailed | hfollows
              · exact .inl hmem
              · refine .inr (.inl ?_)
                split
                · next hb => exact hb ▸ hfailed
                · exact hfailed
              · refine .inr (.inr ?_)
                split
                · next hb => exact hb ▸ hfollows.mono (le_max_right _ _)
                · exact hfollows
            split at hc
            · next hchanges =>
                obtain ⟨rfl, hchanges⟩ := hchanges
                obtain ⟨c₀, hc₀, rfl⟩ := Option.map_eq_some_iff.mp hc
                have hlast := hgood.resolve_left (by simp [hchanges])
                rcases h.follows b c₀ hc₀ with hmem | hfailed | hfollows
                · exact .inl hmem
                · exact .inr (.inl (by rwa [if_pos rfl]))
                · refine .inr (.inr ?_)
                  rw [if_pos rfl]
                  obtain ⟨hseq, hlength⟩ := h.listed b c₀ hc₀
                  exact hfollows.reply hH hloads.position_le hlength hn habout fun m hm hlt =>
                    overtakes_eq_false hlast hm (lt_of_lt_of_le hlt (max_le_max_left _ hseq))
            · exact hkept c hc
          · rw [setRoutines_routines]
            rw [setRoutines_app] at hc
            dsimp only at hc
            rw [reply_routines habout] at hc
            have hold : ∀ c, client.app.store.routines[b]? = some c →
                c.seq ≤ ((if b = bot then { client.routines bot with
                  replies := n :: (client.routines bot).replies } else
                    client.routines b)).reflects ∧ c.seq ≤ H.changes.length := by
              intro c hc
              have hlisted := h.listed b c hc
              split
              · next hb => exact hb ▸ hlisted
              · exact hlisted
            split at hc
            · obtain ⟨c₀, hc₀, rfl⟩ := Option.map_eq_some_iff.mp hc
              exact hold c₀ hc₀
            · exact hold c hc
          · rw [setRoutines_overtaken]
            simp only [h.inOrder, Bool.false_or, Bool.and_eq_false_iff]
            rcases hgood with hignored | hlast
            · exact .inl (reply_ignored hignored)
            · exact .inr hlast

theorem RoutinesFollow.step (hH : H.RoutinesValid) (h : RoutinesFollow H client)
    {action : Action δ} (hinOrder : InOrder H client action)
    (hstep : client.step H action = some client') : RoutinesFollow H client' := by
  obtain ⟨h₀, hloads⟩ := h.loads
  have hother : ∀ {action : App.Action δ} {app : App δ} {bots : BotsCopy},
      client.app.step H action = some app → (∀ bot list, action ≠ .routines bot list) →
      (∀ bot, action ≠ .closeRoutines bot) → action ≠ .deliver →
      (∀ bot, action ≠ .failed (.routines bot)) →
      RoutinesFollow H { client with app := app, bots := bots } := by
    intro action app bots happ hlists hclose hdeliver hfailed
    obtain ⟨hstore, hposition, hloading⟩ := App.step_routines happ hlists hclose hdeliver
    exact h.same (App.loads_step _ hloads happ) hstore hposition (fun _ => .inl rfl)
      (fun bot hmem => .inl (hloading bot (hfailed bot) hmem)) rfl
  cases action with
  | bots seq reflects =>
      unfold Client.step at hstep
      cases hask : client.app.asks .bots with
      | none => simp [hask] at hstep
      | some ask =>
          by_cases hanswers : App.answers H seq reflects ask = true
          · simp only [hask, if_pos hanswers] at hstep
            obtain ⟨app, happ, rfl⟩ := Option.map_eq_some_iff.mp hstep
            exact hother happ nofun nofun nofun nofun
          · simp [hask, hanswers] at hstep
  | routines bot seq reflects =>
      unfold Client.step at hstep
      cases hask : client.app.asks (.routines bot) with
      | none => simp [hask] at hstep
      | some ask =>
          by_cases hanswers : App.answers H seq reflects ask = true
          · simp only [hask, if_pos hanswers] at hstep
            obtain ⟨app, happ, rfl⟩ := Option.map_eq_some_iff.mp hstep
            exact h.list hH hask hanswers happ
          · simp [hask, hanswers] at hstep
  | replied n => exact h.replied hH hinOrder hstep
  | app action =>
      cases action with
      | bots | routines => cases hstep
      | failed x =>
          cases x <;> simp only [Client.step] at hstep
          case routines bot =>
            obtain ⟨app, happ, rfl⟩ := Option.map_eq_some_iff.mp hstep
            obtain ⟨hstore, hposition, hloading⟩ := App.step_routines happ nofun nofun nofun
            have hcopy := setRoutines_routines ({ client with app := app } : Client δ) bot
            refine h.same (App.loads_step _ hloads happ) hstore hposition (fun b => ?_)
              (fun b hmem => ?_) rfl
            · rw [hcopy]
              by_cases hb : b = bot
              · rw [if_pos hb, hb]
                exact .inr ⟨rfl, rfl⟩
              · rw [if_neg hb]
                exact .inl rfl
            · rw [hcopy]
              by_cases hb : b = bot
              · rw [if_pos hb]
                exact .inr rfl
              · exact .inl (hloading b (by simpa using Ne.symm hb) hmem)
          all_goals
            obtain ⟨app, happ, rfl⟩ := Option.map_eq_some_iff.mp hstep
            exact hother happ nofun nofun nofun nofun
      | closeRoutines bot =>
          simp only [Client.step] at hstep
          obtain ⟨app, happ, rfl⟩ := Option.map_eq_some_iff.mp hstep
          exact h.close happ
      | deliver =>
          simp only [Client.step] at hstep
          obtain ⟨app, happ, rfl⟩ := Option.map_eq_some_iff.mp hstep
          exact h.deliver hH happ
      | messages | request | requestOlder | reloadAll | older | closeConversation =>
          simp only [Client.step] at hstep
          obtain ⟨app, happ, rfl⟩ := Option.map_eq_some_iff.mp hstep
          exact hother happ nofun nofun nofun nofun

end Steps

theorem follow_new {start : ℕ} (hstart : start ≤ H.length) :
    RoutinesFollow H (Client.new start) where
  loads := ⟨start, App.loads_new hstart⟩
  follows bot c hc := by simp [Client.new, App.new, Store.new] at hc
  listed bot c hc := by simp [Client.new, App.new, Store.new] at hc
  inOrder := rfl

/-- In every run in which no reply that the store has a use for comes after a later change of its
routine, the routines kept converge. -/
theorem routines_converged [DecidableEq δ] (hH : H.RoutinesValid) {start : ℕ}
    (hstart : start ≤ H.length) {actions : List (Action δ)}
    (hrun : Runs.Run (fun client action client' => Client.step H client action = some client' ∧
      InOrder H client action) (Client.new start) actions client) :
    RoutinesConverged H client := by
  have h : RoutinesFollow H client :=
    hrun.invariant (fun _ _ _ h hstep => h.step hH hstep.2 hstep.1) (follow_new hstart)
  refine ⟨h.inOrder, fun hidle bot c hc hkept hcaught => ?_⟩
  rcases h.follows bot c hc with hmem | hfailed | hfollows
  · rw [hidle] at hmem
    simp at hmem
  · rw [hkept] at hfailed
    cases hfailed
  · refine Std.ExtTreeMap.ext_getElem? fun i => ?_
    obtain ⟨k, -, hk, heq⟩ := hfollows.routine i
    rw [heq, Nat.max_eq_right (hk.trans hcaught)]

section Example

/-- A routine is created, changed within the same millisecond, and deleted. -/
def morning : History Unit where
  changes := [⟨⟨1, 0, .routineCreated ⟨7, 1, 5, ()⟩⟩, 5⟩, ⟨⟨2, 0, .routineUpdated ⟨7, 1, 5, ()⟩⟩, 5⟩,
    ⟨⟨3, 1, .routineDeleted 1 7⟩, 6⟩]
  numbered := rfl

theorem morning_valid : morning.RoutinesValid := by
  intro n hn
  have hn' : n < 3 := hn
  obtain rfl | rfl | rfl : n = 0 ∨ n = 1 ∨ n = 2 := by omega
  · exact (by decide : (morning.allRoutines 0)[7]? = none)
  · exact ⟨⟨7, 1, 5, ()⟩, by decide, rfl⟩
  · exact ⟨⟨7, 1, 5, ()⟩, by decide, rfl⟩

/-- The reply to the change arrives once its event and those before `delivered` have. -/
def lateReply (delivered : ℕ) : List (Action Unit) :=
  [.app (.request (.routines 1)), .routines 1 0 0] ++ List.replicate delivered (.app .deliver) ++
    [.replied 1]

/-- The reply to a change comes after the routine was deleted, and the routine is there again. -/
theorem brought_back : ∃ actions client,
    Runs.exec (Client.step morning) (Client.new 0) actions = some client ∧
      client.app.position = morning.length ∧ ¬ RoutinesConverged morning client := by
  have h : (Runs.exec (Client.step morning) (Client.new 0) (lateReply 3)).any (fun client =>
      client.app.position = 3 ∧ client.app.store.loading = ∅ ∧
      (client.routines 1).failed = false ∧ (client.routines 1).reach ≤ 3 ∧
      (client.app.store.routines[1]?).any fun c => 7 ∈ c.routines) = true := by
    decide +kernel
  obtain ⟨client, hrun, hfacts⟩ := Option.any_eq_true .. |>.mp h
  obtain ⟨hposition, hidle, hkept, hreach, hany⟩ := of_decide_eq_true hfacts
  obtain ⟨c, hc, hmem⟩ := Option.any_eq_true .. |>.mp hany
  refine ⟨_, client, hrun, hposition, fun hconverged => ?_⟩
  have hsame := hconverged.converged hidle 1 c hc hkept (hposition ▸ hreach)
  have hnot : 7 ∉ morning.routines 1 3 := by decide +kernel
  rw [hposition] at hsame
  exact hnot (hsame ▸ of_decide_eq_true hmem)

/-- Whether a reply is in order. -/
def isInOrder (H : History Unit) (client : Client Unit) : Action Unit → Bool
  | .replied n => (eventAt H n).all fun event => (routineOf event).all fun r =>
      ignores client.app.store event || !overtakes H client r.1 r.2 n
  | _ => true

theorem inOrder_of_isInOrder {H : History Unit} {client : Client Unit} {action : Action Unit}
    (h : isInOrder H client action = true) : InOrder H client action := by
  cases action with
  | replied n =>
      intro event bot routine hevent habout
      simpa [isInOrder, hevent, habout] using h
  | _ => trivial

/-- The reply reaches the store before the event of the change. -/
theorem routines_converged_reply : ∃ client : Client Unit, client.app.position = 2 ∧
    (client.routines 1).replies = [1] ∧ RoutinesConverged morning client := by
  have h : (Runs.exec (fun client action => if isInOrder morning client action then
      Client.step morning client action else none) (Client.new 0)
      (lateReply 1 ++ [.app .deliver])).any (fun client =>
      client.app.position = 2 ∧ (client.routines 1).replies = [1]) = true := by
    decide +kernel
  obtain ⟨client, hrun, hfacts⟩ := Option.any_eq_true .. |>.mp h
  obtain ⟨hposition, hreplies⟩ := of_decide_eq_true hfacts
  exact ⟨client, hposition, hreplies, routines_converged morning_valid (by decide)
    (Runs.run_of_exec_checked (fun _ _ => inOrder_of_isInOrder) hrun)⟩

end Example

end Client

end Bokkie
