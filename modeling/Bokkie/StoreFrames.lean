import Mathlib.Data.Finset.Lattice.Lemmas
import Bokkie.ClientStore

/-!
# What the store's operations leave alone

The Bot list, the routines and the usage meter share nothing with the conversations but the
bookkeeping of loads: which snapshots load, which are stale, and the events held for them.
-/

namespace Bokkie

namespace Store

variable {δ : Type} {s t u : Store δ} {snapshot : Snapshot}

/-- Two stores with the same conversations and the same loads under way. -/
structure Frame (s t : Store δ) : Prop where
  conversations : t.conversations = s.conversations
  loading : t.loading = s.loading
  held : t.held = s.held
  stale : t.stale = s.stale

theorem Frame.refl (s : Store δ) : Frame s s := ⟨rfl, rfl, rfl, rfl⟩

theorem Frame.trans (h : Frame s t) (h' : Frame t u) : Frame s u :=
  ⟨h'.conversations.trans h.conversations, h'.loading.trans h.loading, h'.held.trans h.held,
    h'.stale.trans h.stale⟩

theorem frame_noteNewest (bot message : ℕ) : Frame s (s.noteNewest bot message) :=
  ⟨rfl, rfl, rfl, rfl⟩

theorem frame_setPreview (bot : ℕ) (preview : MessagePreview) :
    Frame s (s.setPreview bot preview).1 := by
  unfold setPreview
  split <;> exact ⟨rfl, rfl, rfl, rfl⟩

theorem frame_noteUnread (message : Message δ) : Frame s (s.noteUnread message).1 := by
  unfold noteUnread
  split
  · split <;> exact ⟨rfl, rfl, rfl, rfl⟩
  · exact Frame.refl s

theorem frame_previewCreated (message : Message δ) : Frame s (s.previewCreated message).1 := by
  have hnoted : Frame s (s.noteNewest message.botId message.id) := frame_noteNewest _ _
  unfold previewCreated
  dsimp only
  split
  · exact hnoted
  · split
    · split
      · exact hnoted.trans (frame_setPreview _ _)
      · exact hnoted
    · exact hnoted.trans (frame_setPreview _ _)

theorem frame_replay {f : Store δ → EventEnvelope (Event δ) → Store δ × Applied}
    (hf : ∀ s e, Frame s (f s e).1) (seq : ℕ) (held : List (EventEnvelope (Event δ)))
    (o : Store δ × Applied) : Frame o.1 (replay f seq held o).1 := by
  induction held generalizing o with
  | nil => exact Frame.refl o.1
  | cons e held ih =>
      rw [replay, List.foldl_cons]
      split
      · exact (hf o.1 e).trans (ih ((f o.1 e).1, o.2.merge (f o.1 e).2))
      · exact ih o

section Events

variable [DecidableEq δ]

theorem frame_applyToLoadedBots (event : Event δ) : Frame s (s.applyToLoadedBots event).1 := by
  unfold applyToLoadedBots
  cases event with
  | messageCreated message =>
      exact (frame_noteUnread message).trans (frame_previewCreated message)
  | messageDelta bot id offset delta =>
      dsimp only
      split
      · exact Frame.refl s
      · split
        · exact frame_setPreview _ _
        · exact Frame.refl s
  | messageCompleted message =>
      dsimp only
      split
      · split
        · exact Frame.refl s
        · exact (frame_noteNewest _ _).trans (frame_setPreview _ _)
      · split <;> exact Frame.refl s
  | botStatusChanged | readUpdated =>
      dsimp only
      split <;> exact ⟨rfl, rfl, rfl, rfl⟩
  | _ => exact ⟨rfl, rfl, rfl, rfl⟩

theorem frame_applyToBots (envelope : EventEnvelope (Event δ)) :
    Frame s (s.applyToBots envelope).1 := by
  unfold applyToBots
  split
  · exact Frame.refl s
  · split
    · exact Frame.refl s
    · exact frame_applyToLoadedBots _

theorem frame_applyToRoutines (envelope : EventEnvelope (Event δ)) :
    Frame s (s.applyToRoutines envelope).1 := by
  unfold applyToRoutines
  dsimp only
  split
  case h_4 => exact Frame.refl s
  all_goals
    split
    · exact Frame.refl s
    · split <;> exact ⟨rfl, rfl, rfl, rfl⟩

theorem frame_applyToUsage (event : Event δ) : Frame s (s.applyToUsage event).1 := by
  unfold applyToUsage
  split <;> exact ⟨rfl, rfl, rfl, rfl⟩

end Events

/-- Some snapshots have stopped loading, or count as loading again; others load on. -/
structure Released (s t : Store δ) (gone : Finset Snapshot) : Prop where
  loading : s.loading \ gone ⊆ t.loading
  held : t.held = s.held ∨ t.held = [] ∧ s.loading \ gone = ∅
  settled : t.loading = ∅ → t.held = []
  stale : s.stale \ gone ⊆ t.stale

theorem settle_conversations (s : Store δ) : s.settle.conversations = s.conversations := by
  unfold settle
  split <;> rfl

theorem settle_loading (s : Store δ) : s.settle.loading = s.loading := by
  unfold settle
  split <;> rfl

/-- What is released depends on the loads under way only. -/
theorem Released.of_eq {gone : Finset Snapshot} (h : Released t u gone)
    (hloading : t.loading = s.loading) (hheld : t.held = s.held) (hstale : t.stale = s.stale) :
    Released s u gone := by
  obtain ⟨h₁, h₂, h₃, h₄⟩ := h
  rw [hloading, hheld] at h₂
  exact ⟨hloading ▸ h₁, h₂, h₃, hstale ▸ h₄⟩

/-- Settling after some snapshots have been taken off the loads. -/
theorem released_settle {gone : Finset Snapshot} (hloading : t.loading = s.loading \ gone)
    (hheld : t.held = s.held) (hstale : s.stale \ gone ⊆ t.stale) : Released s t.settle gone where
  loading := by rw [settle_loading, hloading]
  held := by
    unfold settle
    split
    · next h => exact .inr ⟨rfl, hloading ▸ h⟩
    · exact .inl hheld
  settled h := by
    rw [settle_loading] at h
    simp [settle, h]
  stale := by
    unfold settle
    split <;> exact hstale

/-- Reporting reloads counts them as loading. -/
theorem Released.finish {gone : Finset Snapshot} (h : Released s t gone) (applied : Applied) :
    Released s (t.finish applied).1 gone where
  loading := h.loading.trans Finset.subset_union_left
  held := h.held
  settled he := h.settled (Finset.union_eq_empty.mp he).1
  stale := h.stale

theorem finish_conversations (s : Store δ) (applied : Applied) :
    (s.finish applied).1.conversations = s.conversations := rfl

theorem reloadIfStale_frame (s : Store δ) (snapshot : Snapshot) :
    (s.reloadIfStale snapshot).1.conversations = s.conversations ∧
      (s.reloadIfStale snapshot).1.loading = s.loading ∧
      (s.reloadIfStale snapshot).1.held = s.held ∧
      (s.reloadIfStale snapshot).1.stale = s.stale.erase snapshot ∧
      (snapshot ∈ s.stale → snapshot ∈ (s.reloadIfStale snapshot).2.reload) := by
  unfold reloadIfStale
  split
  · exact ⟨rfl, rfl, rfl, rfl, fun _ => by simp [Applied.ofReload]⟩
  · next h => exact ⟨rfl, rfl, rfl, (Finset.erase_eq_of_notMem h).symm, fun h' => absurd h' h⟩

/-- What a load does to the loads under way, and to the conversations through its replay. -/
theorem loaded_spec {f : Store δ → EventEnvelope (Event δ) → Store δ × Applied} {seq : ℕ}
    {replayed : Store δ × Applied}
    (hreplayed : replayed = replay f seq s.held
      ({ s with loading := s.loading.erase snapshot }, .ofChanged true))
    (hloading : replayed.1.loading = s.loading.erase snapshot) (hheld : replayed.1.held = s.held)
    (hstale : replayed.1.stale = s.stale) :
    Released s (loaded s f seq snapshot).1 {snapshot} ∧
      (loaded s f seq snapshot).1.conversations = replayed.1.conversations ∧
      (snapshot ∈ s.stale → snapshot ∈ (loaded s f seq snapshot).1.loading) := by
  obtain ⟨hc, hl, hh, hst, hre⟩ := reloadIfStale_frame replayed.1 snapshot
  have hunfold : loaded s f seq snapshot =
      ((replayed.1.reloadIfStale snapshot).1.settle.finish
        (replayed.2.merge (replayed.1.reloadIfStale snapshot).2)) := by
    rw [hreplayed]
    rfl
  rw [hunfold]
  refine ⟨(released_settle ?_ (hh.trans hheld) ?_).finish _, ?_, ?_⟩
  · rw [hl, hloading, Finset.sdiff_singleton_eq_erase]
  · rw [hst, hstale, Finset.sdiff_singleton_eq_erase]
  · rw [finish_conversations, settle_conversations, hc]
  · intro hmem
    have h := hre (hstale ▸ hmem)
    exact Finset.mem_union_right _ (Finset.mem_union_right _ h)

end Store

end Bokkie
