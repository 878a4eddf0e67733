import Bokkie.IdMap
import Bokkie.Runs
import Mathlib.Algebra.Group.Nat.Defs
import Mathlib.Order.Lattice

/-!
# Which Bots the devices show

Each event socket has a viewer, which says which Bot its device shows and is forgotten when the socket
closes. What it said also lapses after a while. A Bot counts as shown just while some open viewer of
its user's last said so, not too long ago.
-/

namespace Bokkie

/-- How long what a viewer said holds. -/
def VIEWING_EXPIRES_MS : ℤ := 75000

/-- `i64::MAX`. -/
def LAST_MS : ℤ := ((2 ^ 63 : ℕ) : ℤ) - 1

/-- What one connection last said it shows, and until when that holds. -/
structure Presence.Shown where
  bot : ℕ
  untilMs : ℤ
deriving DecidableEq

/-- Every user's open connections and the Bot each shows. -/
structure Presence where
  next : ℕ
  shown : IdMap (IdMap Presence.Shown)

/-- One connection's say. -/
structure Viewer where
  user : ℕ
  id : ℕ
deriving DecidableEq

namespace Presence

def new : Presence := ⟨1, ∅⟩

/-- A new connection of the user's, which shows nothing yet. -/
def connect (p : Presence) (user : ℕ) : Viewer × Presence :=
  (⟨user, p.next⟩, { p with next := p.next + 1 })

/-- Whether one of the user's devices shows the Bot. -/
def isShown (p : Presence) (now : ℤ) (user bot : ℕ) : Bool :=
  p.shown[user]?.any fun shown => shown.records.any fun s => s.bot = bot ∧ now < s.untilMs

def set (p : Presence) (now : ℤ) (user id : ℕ) (bot : Option ℕ) : Presence :=
  match bot with
  | some bot =>
    let untilMs := min (now + VIEWING_EXPIRES_MS) LAST_MS
    { p with shown := p.shown.insert user ((p.shown[user]?.getD ∅).insert id ⟨bot, untilMs⟩) }
  | none =>
    match p.shown[user]? with
    | none => p
    | some connections =>
      let connections := connections.erase id
      if connections.isEmpty then { p with shown := p.shown.erase user }
      else { p with shown := p.shown.insert user connections }

end Presence

namespace Viewer

/-- The connection shows the Bot, or nothing. -/
def show' (v : Viewer) (p : Presence) (now : ℤ) (bot : Option ℕ) : Presence :=
  p.set now v.user v.id bot

/-- The connection closed. -/
def drop (v : Viewer) (p : Presence) (now : ℤ) : Presence := p.set now v.user v.id none

end Viewer

namespace Presence

/-- What the connections did, in order. -/
inductive Event where
  | connected (v : Viewer)
  | said (v : Viewer) (bot : Option ℕ) (time : ℤ)
  | closed (v : Viewer)
deriving DecidableEq

def Event.viewer : Event → Viewer
  | .connected v | .said v _ _ | .closed v => v

/-- What a connection says with it. -/
def Event.word : Event → Option (ℕ × ℤ)
  | .said _ (some bot) time => some (bot, time)
  | _ => none

/-- The connections open, and what they did. -/
structure World where
  presence : Presence
  viewers : List Viewer
  journal : List Event

inductive Action where
  | connect (user : ℕ)
  | show' (v : Viewer) (bot : Option ℕ) (now : ℤ)
  | drop (v : Viewer) (now : ℤ)
deriving DecidableEq

namespace World

def start : World := ⟨new, [], []⟩

def step (w : World) : Action → Option World
  | .connect user =>
    let (v, presence) := w.presence.connect user
    some ⟨presence, v :: w.viewers, w.journal ++ [.connected v]⟩
  | .show' v bot now =>
    if v ∈ w.viewers then
      some ⟨v.show' w.presence now bot, w.viewers, w.journal ++ [.said v bot now]⟩
    else none
  | .drop v now =>
    if v ∈ w.viewers then
      some ⟨v.drop w.presence now, w.viewers.erase v, w.journal ++ [.closed v]⟩
    else none

end World

/-- What a connection last said. -/
def lastWord (journal : List Event) (v : Viewer) : Option (ℕ × ℤ) :=
  (journal.reverse.find? (·.viewer = v)).bind Event.word

/-- Some connection of the user's last said that it shows the Bot, and not too long ago. -/
def Says (journal : List Event) (now : ℤ) (user bot : ℕ) : Prop :=
  ∃ v : Viewer, v.user = user ∧ ∃ time, lastWord journal v = some (bot, time) ∧
    now < min (time + VIEWING_EXPIRES_MS) LAST_MS

section Entries

variable {p : Presence} {now time : ℤ} {user id user' id' bot : ℕ} {said : Option ℕ}

/-- What a connection shows, and until when. -/
def entry (p : Presence) (user id : ℕ) : Option Shown := p.shown[user]?.bind fun shown => shown[id]?

def saying (now : ℤ) (bot : ℕ) : Shown := ⟨bot, min (now + VIEWING_EXPIRES_MS) LAST_MS⟩

theorem isShown_iff : p.isShown now user bot = true ↔
    ∃ id s, p.entry user id = some s ∧ s.bot = bot ∧ now < s.untilMs := by
  unfold isShown entry
  cases p.shown[user]? with
  | none => simp
  | some shown =>
      simp only [Option.any_some, List.any_eq_true, IdMap.mem_records, Option.bind_some,
        decide_eq_true_eq]
      constructor
      · rintro ⟨s, ⟨id, hid⟩, hs⟩
        exact ⟨id, s, hid, hs⟩
      · rintro ⟨id, s, hid, hs⟩
        exact ⟨s, ⟨id, hid⟩, hs⟩

@[simp] theorem entry_insert {shown : IdMap Shown} :
    ({ p with shown := p.shown.insert user shown } : Presence).entry user' id' =
      if user = user' then shown[id']? else p.entry user' id' := by
  unfold entry
  rw [IdMap.getElem?_insert']
  split <;> rfl

@[simp] theorem entry_erase : ({ p with shown := p.shown.erase user } : Presence).entry user' id' =
    if user = user' then none else p.entry user' id' := by
  unfold entry
  rw [IdMap.getElem?_erase']
  split <;> rfl

theorem entry_set : (p.set now user id said).entry user' id' =
    if user = user' ∧ id = id' then said.map (saying now) else p.entry user' id' := by
  have hentry : p.entry user id' = p.shown[user]?.bind fun shown => shown[id']? := rfl
  cases said with
  | some bot =>
      unfold set
      dsimp only
      rw [entry_insert, IdMap.getElem?_insert']
      by_cases huser : user = user'
      · subst huser
        cases hshown : p.shown[user]? <;> simp [hentry, hshown, saying]
      · simp [huser]
  | none =>
      unfold set
      dsimp only
      cases hshown : p.shown[user]? with
      | none =>
          by_cases huser : user = user'
          · subst huser
            simp [hentry, hshown]
          · simp [huser]
      | some connections =>
          have herase : (connections.erase id)[id']? =
              if id = id' then none else p.entry user id' := by
            rw [IdMap.getElem?_erase', hentry, hshown]
            rfl
          by_cases huser : user = user'
          · subst huser
            by_cases hempty : (connections.erase id).isEmpty = true
            · rw [Std.ExtTreeMap.isEmpty_iff.mp hempty] at herase
              simpa [hempty] using herase
            · simpa [hempty] using herase
          · by_cases hempty : (connections.erase id).isEmpty = true <;> simp [hempty, huser]

theorem set_next (p : Presence) (now : ℤ) (user id : ℕ) (said : Option ℕ) :
    (p.set now user id said).next = p.next := by
  cases said with
  | some bot => rfl
  | none =>
      unfold set
      dsimp only
      cases p.shown[user]? with
      | none => rfl
      | some connections =>
          dsimp only
          split <;> rfl

/-- No user is kept without connections. -/
def NoneEmpty (p : Presence) : Prop := ∀ (user : ℕ) shown, p.shown[user]? = some shown → shown ≠ ∅

theorem NoneEmpty.set (h : p.NoneEmpty) : (p.set now user id said).NoneEmpty := by
  intro user' shown hshown
  cases said with
  | some bot =>
      unfold Presence.set at hshown
      dsimp only at hshown
      rw [IdMap.getElem?_insert'] at hshown
      split at hshown
      · obtain rfl := Option.some.inj hshown
        intro hempty
        have hfound := congrArg (fun m : IdMap Shown => m[id]?) hempty
        simp at hfound
      · exact h user' shown hshown
  | none =>
      unfold Presence.set at hshown
      dsimp only at hshown
      cases huser : p.shown[user]? with
      | none =>
          rw [huser] at hshown
          exact h user' shown hshown
      | some connections =>
          rw [huser] at hshown
          dsimp only at hshown
          split at hshown
          · rw [IdMap.getElem?_erase'] at hshown
            split at hshown
            · cases hshown
            · exact h user' shown hshown
          · next hempty =>
              rw [IdMap.getElem?_insert'] at hshown
              split at hshown
              · obtain rfl := Option.some.inj hshown
                exact fun heq => hempty (Std.ExtTreeMap.isEmpty_iff.mpr heq)
              · exact h user' shown hshown

end Entries

section Runs

variable {journal : List Event} {e : Event} {v : Viewer} {w w' : World} {a : Action}
  {actions : List Action}

theorem lastWord_snoc : lastWord (journal ++ [e]) v =
    if e.viewer = v then e.word else lastWord journal v := by
  unfold lastWord
  rw [List.reverse_append, List.reverse_singleton, List.singleton_append, List.find?_cons]
  by_cases hv : e.viewer = v <;> simp [hv]

theorem exists_of_lastWord (h : lastWord journal v ≠ none) : ∃ e ∈ journal, e.viewer = v := by
  obtain ⟨word, hword⟩ := Option.ne_none_iff_exists'.mp h
  obtain ⟨e, he, -⟩ := Option.bind_eq_some_iff.mp hword
  exact ⟨e, List.mem_reverse.mp (List.mem_of_find?_eq_some he), by simpa using List.find?_some he⟩

/-- What is kept of each connection is what it last said, and a connection that closed has none. -/
structure Inv (w : World) : Prop where
  fresh : ∀ e ∈ w.journal, e.viewer.id < w.presence.next
  opened : ∀ v ∈ w.viewers, v.id < w.presence.next
  nodup : w.viewers.Nodup
  entries : ∀ v : Viewer, w.presence.entry v.user v.id =
    (lastWord w.journal v).map fun word => saying word.2 word.1
  held : ∀ v, lastWord w.journal v ≠ none → v ∈ w.viewers
  noneEmpty : w.presence.NoneEmpty

theorem inv_start : Inv .start where
  fresh := by simp [World.start]
  opened := by simp [World.start]
  nodup := List.nodup_nil
  entries := fun v => by simp [World.start, new, entry, lastWord]
  held := fun v h => by simp [World.start, lastWord] at h
  noneEmpty := fun user shown h => by simp [World.start, new] at h

theorem Inv.connect (h : Inv w) (hstep : w.step (.connect user) = some w') : Inv w' := by
  obtain rfl := Option.some.inj hstep
  have hword : ∀ v : Viewer,
      lastWord (w.journal ++ [.connected ⟨user, w.presence.next⟩]) v = lastWord w.journal v := by
    intro v
    rw [lastWord_snoc]
    split
    · next hv =>
        by_contra hne
        obtain ⟨e, he, heq⟩ := exists_of_lastWord (Ne.symm hne)
        have hlt := h.fresh e he
        rw [heq, ← hv] at hlt
        exact Nat.lt_irrefl _ hlt
    · rfl
  refine ⟨fun e he => ?_, fun v hv => ?_, ?_, fun v => ?_, fun v hv => ?_, h.noneEmpty⟩
  · rcases List.mem_append.mp he with hold | hnew
    · exact Nat.lt_succ_of_lt (h.fresh e hold)
    · obtain rfl := List.mem_singleton.mp hnew
      exact Nat.lt_succ_self _
  · rcases List.mem_cons.mp hv with rfl | hold
    · exact Nat.lt_succ_self _
    · exact Nat.lt_succ_of_lt (h.opened v hold)
  · refine List.nodup_cons.mpr ⟨fun hmem => ?_, h.nodup⟩
    exact Nat.lt_irrefl _ (h.opened _ hmem)
  · exact (h.entries v).trans (congrArg _ (hword v).symm)
  · exact List.mem_cons_of_mem _ (h.held v (hword v ▸ hv))

/-- One connection says what it shows, or closes. -/
theorem Inv.heard (h : Inv w) {bot : Option ℕ} {now : ℤ} {viewers : List Viewer}
    (hv : v ∈ w.viewers) (hviewer : e.viewer = v) (hword : e.word = bot.map (·, now))
    (hsub : viewers.Sublist w.viewers) (hothers : ∀ u ∈ w.viewers, u ≠ v → u ∈ viewers)
    (hshows : bot ≠ none → v ∈ viewers) :
    Inv ⟨w.presence.set now v.user v.id bot, viewers, w.journal ++ [e]⟩ := by
  have hnext := set_next w.presence now v.user v.id bot
  refine ⟨fun e' he => ?_, fun u hu => ?_, h.nodup.sublist hsub, fun u => ?_, fun u hu => ?_,
    h.noneEmpty.set⟩
  · rw [hnext]
    rcases List.mem_append.mp he with hold | hnew
    · exact h.fresh e' hold
    · rw [List.mem_singleton.mp hnew, hviewer]
      exact h.opened v hv
  · rw [hnext]
    exact h.opened u (hsub.subset hu)
  · rw [entry_set, lastWord_snoc, hviewer]
    by_cases hu : v = u
    · subst hu
      cases bot <;> simp [hword]
    · have hne : ¬ (v.user = u.user ∧ v.id = u.id) := fun heq => hu (by
        cases v
        cases u
        simpa using heq)
      rw [if_neg hne, if_neg hu]
      exact h.entries u
  · rw [lastWord_snoc, hviewer] at hu
    by_cases huv : v = u
    · subst huv
      rw [if_pos rfl, hword] at hu
      exact hshows fun hnone => hu (by rw [hnone]; rfl)
    · rw [if_neg huv] at hu
      exact hothers u (h.held u hu) (Ne.symm huv)

theorem Inv.step (h : Inv w) (hstep : w.step a = some w') : Inv w' := by
  cases a with
  | connect user => exact h.connect hstep
  | show' v bot now =>
      obtain ⟨hv, heq⟩ := Option.ite_none_right_eq_some.mp hstep
      obtain rfl := Option.some.inj heq
      exact h.heard hv rfl (by cases bot <;> rfl) (List.Sublist.refl _) (fun u hu _ => hu)
        fun _ => hv
  | drop v now =>
      obtain ⟨hv, heq⟩ := Option.ite_none_right_eq_some.mp hstep
      obtain rfl := Option.some.inj heq
      exact h.heard hv rfl rfl List.erase_sublist
        (fun u hu hne => (List.mem_erase_of_ne hne).mpr hu) fun hnone => absurd rfl hnone

/-- At any time, a Bot is shown to be just while one of its user's open connections last said so, not
too long ago; and once every connection has closed nothing is kept. -/
theorem shown_iff (hrun : Runs.Run (Runs.Steps World.step) .start actions w) :
    (∀ now user bot, w.presence.isShown now user bot = true ↔ Says w.journal now user bot) ∧
      (w.viewers = [] → w.presence.shown = ∅) := by
  have h : Inv w := hrun.invariant (fun _ _ _ h hstep => h.step hstep) inv_start
  refine ⟨fun now user bot => ?_, fun hnone => ?_⟩
  · rw [isShown_iff]
    constructor
    · rintro ⟨id, s, hs, hbot, hnow⟩
      rw [h.entries ⟨user, id⟩] at hs
      obtain ⟨word, hword, rfl⟩ := Option.map_eq_some_iff.mp hs
      refine ⟨⟨user, id⟩, rfl, word.2, ?_, hnow⟩
      rw [hword, ← hbot]
      rfl
    · rintro ⟨v, rfl, time, hword, hnow⟩
      refine ⟨v.id, saying time bot, ?_, rfl, hnow⟩
      rw [h.entries v, hword]
      rfl
  · refine Std.ExtTreeMap.ext_getElem? fun user => ?_
    rw [Std.ExtTreeMap.getElem?_empty]
    by_contra hsome
    obtain ⟨shown, hshown⟩ := Option.ne_none_iff_exists'.mp hsome
    refine h.noneEmpty user shown hshown (Std.ExtTreeMap.ext_getElem? fun id => ?_)
    rw [Std.ExtTreeMap.getElem?_empty]
    have hentry := h.entries ⟨user, id⟩
    have hlast : lastWord w.journal ⟨user, id⟩ = none := by
      by_contra hword
      have hheld := h.held _ hword
      rw [hnone] at hheld
      cases hheld
    rw [hlast, entry, hshown] at hentry
    exact hentry

end Runs

section Example

/-- One of two devices closes. -/
def twoDevices : List Action :=
  [.connect 1, .connect 1, .show' ⟨1, 1⟩ (some 5) 0, .show' ⟨1, 2⟩ (some 5) 10, .drop ⟨1, 1⟩ 20]

theorem shown_iff_two : ∃ w : World, w.presence.isShown 75009 1 5 = true ∧
    w.presence.isShown 75010 1 5 = false ∧
    (∀ now user bot, w.presence.isShown now user bot = true ↔ Says w.journal now user bot) ∧
    (w.viewers = [] → w.presence.shown = ∅) := by
  have h : (Runs.exec World.step .start twoDevices).any (fun w => decide
      (w.presence.isShown 75009 1 5 = true ∧ w.presence.isShown 75010 1 5 = false)) = true := by
    decide +kernel
  obtain ⟨w, hw, hfacts⟩ := Option.any_eq_true .. |>.mp h
  obtain ⟨hbefore, hafter⟩ := of_decide_eq_true hfacts
  exact ⟨w, hbefore, hafter, shown_iff (Runs.run_of_exec hw)⟩

end Example

end Presence

end Bokkie
