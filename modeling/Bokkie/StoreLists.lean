import Bokkie.RoutineLists

/-!
# What the store's operations do to the lists

The Bots and the routines are touched by their own lists and events only. An event edits the routines
of the Bot it is about, and a list of routines is put in place and brought up to date by the events
held, as the copies of other Bots' routines are again.
-/

namespace Bokkie

namespace Store

variable {δ : Type} {s t u : Store δ} {bot b : ℕ}

/-- Two stores that show the same lists. -/
structure SameLists (s t : Store δ) : Prop where
  bots : t.bots = s.bots
  botsSeq : t.botsSeq = s.botsSeq
  newest : t.newest = s.newest
  routines : t.routines = s.routines

theorem SameLists.refl (s : Store δ) : SameLists s s := ⟨rfl, rfl, rfl, rfl⟩

theorem SameLists.trans (h : SameLists s t) (h' : SameLists t u) : SameLists s u :=
  ⟨h'.bots.trans h.bots, h'.botsSeq.trans h.botsSeq, h'.newest.trans h.newest,
    h'.routines.trans h.routines⟩

theorem same_settle (s : Store δ) : SameLists s s.settle := by
  unfold settle
  split <;> exact ⟨rfl, rfl, rfl, rfl⟩

theorem same_reloadIfStale (s : Store δ) (snapshot : Snapshot) :
    SameLists s (s.reloadIfStale snapshot).1 := by
  unfold reloadIfStale
  split <;> exact ⟨rfl, rfl, rfl, rfl⟩

theorem same_clearRequestedOlder (s : Store δ) (bot : ℕ) :
    SameLists s (s.clearRequestedOlder bot) := by
  unfold clearRequestedOlder
  split <;> exact ⟨rfl, rfl, rfl, rfl⟩

theorem same_hold (s : Store δ) (envelope : EventEnvelope (Event δ)) :
    SameLists s (s.hold envelope) := by
  unfold hold
  split
  · exact .refl s
  · split <;> exact ⟨rfl, rfl, rfl, rfl⟩

theorem same_loadFailed (s : Store δ) (snapshot : Snapshot) :
    SameLists s (s.loadFailed snapshot) := by
  have hforget : SameLists s (s.forget snapshot) := ⟨rfl, rfl, rfl, rfl⟩
  unfold loadFailed
  dsimp only
  split
  · exact (hforget.trans (same_clearRequestedOlder _ _)).trans (same_settle _)
  · exact hforget.trans (same_settle _)

theorem same_requestOlder (s : Store δ) (bot : ℕ) : SameLists s (s.requestOlder bot).1 := by
  unfold requestOlder
  split
  · next c hc =>
      dsimp only
      split
      · exact ⟨rfl, rfl, rfl, rfl⟩
      · change SameLists s (loadFailed _ (.older bot))
        refine SameLists.trans ?_ (same_loadFailed _ _)
        exact ⟨rfl, rfl, rfl, rfl⟩
  · exact same_loadFailed s (.older bot)

theorem same_closeConversation (s : Store δ) (bot : ℕ) :
    SameLists s (s.closeConversation bot) := by
  unfold closeConversation
  dsimp only
  refine SameLists.trans ?_ (same_settle _)
  exact ⟨rfl, rfl, rfl, rfl⟩

theorem same_loadOlder (s : Store δ) (bot before : ℕ) (page : MessagePage δ) :
    SameLists s (s.loadOlder bot before page).1 := by
  unfold loadOlder
  dsimp only
  refine SameLists.trans ?_ (SameLists.trans (same_settle _) ⟨rfl, rfl, rfl, rfl⟩)
  split
  · split
    · split <;> exact ⟨rfl, rfl, rfl, rfl⟩
    · exact ⟨rfl, rfl, rfl, rfl⟩
  · exact ⟨rfl, rfl, rfl, rfl⟩

theorem same_replay {f : Store δ → EventEnvelope (Event δ) → Store δ × Applied}
    (hf : ∀ s e, SameLists s (f s e).1) (seq : ℕ) (held : List (EventEnvelope (Event δ)))
    (o : Store δ × Applied) : SameLists o.1 (replay f seq held o).1 := by
  induction held generalizing o with
  | nil => exact .refl o.1
  | cons e held ih =>
      rw [replay, List.foldl_cons]
      split
      · exact (hf o.1 e).trans (ih ((f o.1 e).1, o.2.merge (f o.1 e).2))
      · exact ih o

theorem routines_setPreview (s : Store δ) (bot : ℕ) (preview : MessagePreview) :
    (s.setPreview bot preview).1.routines = s.routines := by
  unfold setPreview
  split <;> rfl

/-- What shows after a load is what shows after its replay. -/
theorem same_loaded {f : Store δ → EventEnvelope (Event δ) → Store δ × Applied} {seq : ℕ}
    {snapshot : Snapshot} :
    SameLists (replay f seq s.held ({ s with loading := s.loading.erase snapshot },
      .ofChanged true)).1 (loaded s f seq snapshot).1 := by
  unfold loaded
  dsimp only
  exact ((same_reloadIfStale _ _).trans (same_settle _)).trans ⟨rfl, rfl, rfl, rfl⟩

section Events

variable [DecidableEq δ]

theorem same_applyToConversation (s : Store δ) (bot : ℕ) (envelope : EventEnvelope (Event δ)) :
    SameLists s (s.applyToConversation bot envelope).1 := by
  unfold applyToConversation
  split
  · exact .refl s
  · split <;> exact ⟨rfl, rfl, rfl, rfl⟩

theorem same_applyToUsage (s : Store δ) (event : Event δ) :
    SameLists s (s.applyToUsage event).1 := by
  unfold applyToUsage
  split <;> exact ⟨rfl, rfl, rfl, rfl⟩

theorem routines_applyToBots (s : Store δ) (envelope : EventEnvelope (Event δ)) :
    (s.applyToBots envelope).1.routines = s.routines := by
  have hcreated : ∀ (s : Store δ) (m : Message δ), (s.previewCreated m).1.routines = s.routines := by
    intro s m
    unfold previewCreated
    dsimp only
    split
    · rfl
    · split
      · split
        · exact routines_setPreview _ _ _
        · rfl
      · exact routines_setPreview _ _ _
  have hunread : ∀ (s : Store δ) (m : Message δ), (s.noteUnread m).1.routines = s.routines := by
    intro s m
    unfold noteUnread
    split
    · split <;> rfl
    · rfl
  unfold applyToBots
  split
  · rfl
  · split
    · rfl
    · unfold applyToLoadedBots
      cases envelope.event with
      | messageCreated message => exact (hcreated _ _).trans (hunread _ _)
      | messageDelta bot id offset delta =>
          dsimp only
          split
          · rfl
          · split
            · exact routines_setPreview _ _ _
            · rfl
      | messageCompleted message =>
          dsimp only
          split
          · split
            · rfl
            · exact routines_setPreview _ _ _
          · split <;> rfl
      | botStatusChanged | readUpdated =>
          dsimp only
          split <;> rfl
      | _ => rfl

theorem routines_replayBots (seq : ℕ) (held : List (EventEnvelope (Event δ)))
    (o : Store δ × Applied) : (replay applyToBots seq held o).1.routines = o.1.routines := by
  induction held generalizing o with
  | nil => rfl
  | cons e held ih =>
      rw [replay, List.foldl_cons]
      split
      · exact (ih _).trans (routines_applyToBots o.1 e)
      · exact ih o

theorem routines_loadBots (s : Store δ) (list : BotList δ) :
    (s.loadBots list).1.routines = s.routines :=
  same_loaded.routines.trans (routines_replayBots _ _ _)

theorem routines_loadMessages (s : Store δ) (bot : ℕ) (page : MessagePage δ) :
    (s.loadMessages bot page).1.routines = s.routines := by
  unfold loadMessages
  dsimp only
  refine same_loaded.routines.trans ?_
  refine (same_replay (fun s e => same_applyToConversation s bot e) _ _ _).routines.trans ?_
  split <;> rfl

/-- An event edits the routines of the Bot it is about. -/
theorem applyToRoutines_get (s : Store δ) (envelope : EventEnvelope (Event δ)) (b : ℕ) :
    ((s.applyToRoutines envelope).1.routines)[b]? =
      (s.routines[b]?).map (·.take b envelope) := by
  have hother : ∀ (c : Routines δ), (∀ m, editRoutines b m envelope.event = m) →
      c.take b envelope = c := by
    intro c h
    unfold Routines.take
    split
    · rfl
    · rw [h]
  have hedit : ∀ (bot : ℕ) (f : IdMap (Routine δ) → IdMap (Routine δ)) (o : Store δ × Applied),
      (∀ m, editRoutines bot m envelope.event = f m) →
      (b ≠ bot → ∀ m, editRoutines b m envelope.event = m) →
      (o.1 = s.routines[bot]?.elim s fun r =>
        if envelope.seq ≤ r.seq then s
        else { s with routines := s.routines.insert bot { r with routines := f r.routines } }) →
      (o.1.routines)[b]? = (s.routines[b]?).map (·.take b envelope) := by
    intro bot f o hself hne ho
    rw [ho]
    by_cases hb : b = bot
    · subst hb
      cases hc : s.routines[b]? with
      | none => simp [hc]
      | some c =>
          simp only [Option.map_some, Option.elim_some, Routines.take]
          by_cases hseq : envelope.seq ≤ c.seq
          · simp [hseq, hc]
          · simp [hseq, hself]
    · have hsame : (s.routines[b]?).map (·.take b envelope) = s.routines[b]? := by
        cases hc : s.routines[b]? with
        | none => rfl
        | some c => rw [Option.map_some, hother c (hne hb)]
      rw [hsame]
      cases s.routines[bot]? with
      | none => rfl
      | some r =>
          rw [Option.elim_some]
          split
          · rfl
          · rw [IdMap.getElem?_insert', if_neg (Ne.symm hb)]
  unfold applyToRoutines
  dsimp only
  split
  · next routine hevent =>
      refine hedit routine.botId (·.insert routine.id routine) _ (fun m => ?_) (fun hb m => ?_) ?_
      · simp [editRoutines, hevent]
      · simp [editRoutines, hevent, Ne.symm hb]
      · cases s.routines[routine.botId]? with
        | none => rfl
        | some r => exact apply_ite Prod.fst (envelope.seq ≤ r.seq) _ _
  · next routine hevent =>
      refine hedit routine.botId (·.insert routine.id routine) _ (fun m => ?_) (fun hb m => ?_) ?_
      · simp [editRoutines, hevent]
      · simp [editRoutines, hevent, Ne.symm hb]
      · cases s.routines[routine.botId]? with
        | none => rfl
        | some r => exact apply_ite Prod.fst (envelope.seq ≤ r.seq) _ _
  · next bot' id hevent =>
      refine hedit bot' (·.erase id) _ (fun m => ?_) (fun hb m => ?_) ?_
      · simp [editRoutines, hevent]
      · simp [editRoutines, hevent, Ne.symm hb]
      · cases s.routines[bot']? with
        | none => rfl
        | some r => exact apply_ite Prod.fst (envelope.seq ≤ r.seq) _ _
  · next hcreated hupdated hdeleted =>
      have hnone : ∀ m, editRoutines b m envelope.event = m := by
        intro m
        unfold editRoutines
        split <;> simp_all
      cases hc : s.routines[b]? with
      | none => rfl
      | some c => rw [Option.map_some, hother c hnone]

theorem replayRoutines_get (seq : ℕ) (held : List (EventEnvelope (Event δ)))
    (o : Store δ × Applied) (b : ℕ) :
    ((replay applyToRoutines seq held o).1.routines)[b]? = (o.1.routines[b]?).map fun c =>
      (held.filter fun e => e.seq > seq).foldl (·.take b ·) c := by
  induction held generalizing o with
  | nil => simp [replay]
  | cons e held ih =>
      rw [replay, List.foldl_cons]
      by_cases hseq : e.seq > seq
      · rw [if_pos hseq, List.filter_cons_of_pos (by simpa using hseq)]
        refine (ih _).trans ?_
        dsimp only
        rw [applyToRoutines_get, Option.map_map]
        rfl
      · rw [if_neg hseq, List.filter_cons_of_neg (by simpa using hseq)]
        exact ih o

theorem apply_routines (s : Store δ) (envelope : EventEnvelope (Event δ)) (b : ℕ) :
    ((s.apply envelope).1.routines)[b]? = (s.routines[b]?).map (·.take b envelope) := by
  have hrest : ∀ t : Store δ, t.routines = s.routines →
      ((((t.applyToBots envelope).1.applyToRoutines envelope).1.applyToUsage
        envelope.event).1.routines)[b]? = (s.routines[b]?).map (·.take b envelope) := by
    intro t ht
    rw [(same_applyToUsage _ _).routines, applyToRoutines_get, routines_applyToBots, ht]
  unfold apply
  dsimp only
  split
  · exact hrest _ (((same_hold s envelope).trans (same_applyToConversation _ _ _)).routines)
  · exact hrest _ (same_hold s envelope).routines

/-- A list is put in place and brought up to date by the events held after it, as the other copies
are once more. -/
theorem loadRoutines_routines (s : Store δ) (bot : ℕ) (list : RoutineList δ) (b : ℕ) :
    ((s.loadRoutines bot list).1.routines)[b]? =
      (if bot = b then some ⟨list.seq,
          IdMap.collect (·.id) (list.routines.filter fun r => r.botId = bot)⟩
        else s.routines[b]?).map fun c =>
          (s.held.filter fun e => e.seq > list.seq).foldl (·.take b ·) c := by
  unfold loadRoutines
  dsimp only
  rw [same_loaded.routines, replayRoutines_get]
  dsimp only
  rw [IdMap.getElem?_insert']

/-- A load that had gone stale loads again. -/
theorem loadRoutines_reloads (s : Store δ) (bot : ℕ) (list : RoutineList δ)
    (hstale : .routines bot ∈ s.stale) :
    .routines bot ∈ (s.loadRoutines bot list).1.loading := by
  let placed : Store δ := { s with
    routines := s.routines.insert bot
      ⟨list.seq, IdMap.collect (·.id) (list.routines.filter fun r => r.botId = bot)⟩ }
  have h := frame_replay (fun t e => frame_applyToRoutines (s := t) e) list.seq placed.held
    ({ placed with loading := placed.loading.erase (.routines bot) }, .ofChanged true)
  exact (loaded_spec (s := placed) rfl h.loading h.held h.stale).2.2 hstale

end Events

end Store

end Bokkie
