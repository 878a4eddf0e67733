import Bokkie.ClientSchedule

/-!
# A client's copy of a Bot's routines

A copy loaded from a list and brought up to the first `q` events follows the gateway: each routine is
as some version of the gateway's list had it, no older than the list and the events.
-/

namespace Bokkie

variable {δ : Type} {H : History δ} {bot b q r R i n : ℕ} {c : Routines δ}

/-- What an event does to a Bot's routines. -/
def editRoutines (bot : ℕ) (m : IdMap (Routine δ)) : Event δ → IdMap (Routine δ)
  | .routineCreated routine | .routineUpdated routine =>
    if routine.botId = bot then m.insert routine.id routine else m
  | .routineDeleted bot' id => if bot' = bot then m.erase id else m
  | _ => m

/-- One event on the copy of a Bot's routines. -/
def Routines.take (c : Routines δ) (bot : ℕ) (envelope : EventEnvelope (Event δ)) : Routines δ :=
  if envelope.seq ≤ c.seq then c
  else { c with routines := editRoutines bot c.routines envelope.event }

theorem take_seq (c : Routines δ) (bot : ℕ) (envelope : EventEnvelope (Event δ)) :
    (c.take bot envelope).seq = c.seq := by
  unfold Routines.take
  split <;> rfl

/-- An event leaves every routine alone but the one it is about. -/
theorem editRoutines_of_ne {m : IdMap (Routine δ)} {event : Event δ}
    (h : Client.routineOf event ≠ some (bot, i)) : (editRoutines bot m event)[i]? = m[i]? := by
  unfold editRoutines
  cases event with
  | routineCreated routine | routineUpdated routine =>
      dsimp only
      split
      · next hbot =>
          rw [IdMap.getElem?_insert', if_neg]
          rintro rfl
          exact h (by rw [← hbot]; rfl)
      · rfl
  | routineDeleted bot' id =>
      dsimp only
      split
      · next hbot =>
          rw [IdMap.getElem?_erase', if_neg]
          rintro rfl
          exact h (by rw [← hbot]; rfl)
      · rfl
  | _ => rfl

/-- What an event makes of the routine it is about does not depend on what there was. -/
theorem editRoutines_self {m m' : IdMap (Routine δ)} {event : Event δ}
    (h : Client.routineOf event = some (bot, i)) :
    (editRoutines bot m event)[i]? = (editRoutines bot m' event)[i]? := by
  cases event with
  | routineCreated routine | routineUpdated routine =>
      obtain ⟨rfl, rfl⟩ := Prod.mk.inj (Option.some.inj h)
      simp [editRoutines]
  | routineDeleted bot' id =>
      obtain ⟨rfl, rfl⟩ := Prod.mk.inj (Option.some.inj h)
      simp [editRoutines]
  | _ => cases h

namespace History

theorem allRoutines_succ (h : n < H.changes.length) :
    H.allRoutines (n + 1) = applyRoutine (H.allRoutines n) H.changes[n].envelope.event := by
  unfold allRoutines
  rw [← List.take_append_getElem h, List.foldl_append]
  rfl

/-- Every routine stands under its id. -/
theorem allRoutines_keyed (H : History δ) (n : ℕ) {routine : Routine δ}
    (h : (H.allRoutines n)[i]? = some routine) : routine.id = i := by
  induction n generalizing i routine with
  | zero => simp [allRoutines] at h
  | succ n ih =>
      by_cases hn : n < H.changes.length
      · rw [allRoutines_succ hn] at h
        unfold applyRoutine at h
        split at h
        · rw [IdMap.getElem?_insert'] at h
          split at h
          · next hi => rw [← Option.some.inj h, hi]
          · exact ih h
        · rw [IdMap.getElem?_insert'] at h
          split at h
          · next hi => rw [← Option.some.inj h, hi]
          · exact ih h
        · rw [IdMap.getElem?_erase'] at h
          split at h
          · cases h
          · exact ih h
        · exact ih h
      · have hsame : H.allRoutines (n + 1) = H.allRoutines n := by
          unfold allRoutines
          rw [List.take_of_length_le (by omega), List.take_of_length_le (by omega)]
        exact ih (hsame ▸ h)

/-- A list that the gateway read shows its routines. -/
theorem collect_routineList {seq : ℕ} :
    (IdMap.collect (·.id) ((H.routineList bot seq n).routines.filter fun r => r.botId = bot))[i]? =
      (H.routines bot n)[i]? := by
  have hmem : ∀ {routine : Routine δ}, (H.routines bot n)[i]? = some routine →
      routine.id = i ∧ routine.botId = bot := by
    intro routine h
    obtain ⟨hall, hbot⟩ := IdMap.getElem?_filter_eq_some.mp h
    exact ⟨allRoutines_keyed H n hall, of_decide_eq_true hbot⟩
  refine Option.ext fun routine => ⟨fun h => ?_, fun h => ?_⟩
  · obtain ⟨hlist, rfl⟩ := IdMap.mem_of_collect h
    obtain ⟨j, hj⟩ := IdMap.mem_records.mp (List.mem_of_mem_filter hlist)
    obtain ⟨hall, -⟩ := IdMap.getElem?_filter_eq_some.mp hj
    rwa [allRoutines_keyed H n hall]
  · obtain ⟨rfl, hbot⟩ := hmem h
    have hlist : routine ∈ (H.routineList bot seq n).routines.filter fun r => r.botId = bot :=
      List.mem_filter.mpr ⟨IdMap.mem_records.mpr ⟨_, h⟩, by simpa using hbot⟩
    obtain ⟨w, hw, hget⟩ := IdMap.collect_of_mem (·.id) hlist
    obtain ⟨j, hj⟩ := IdMap.mem_records.mp (List.mem_of_mem_filter hw)
    obtain ⟨-, hid⟩ := IdMap.mem_of_collect hget
    obtain ⟨hall, -⟩ := IdMap.getElem?_filter_eq_some.mp hj
    rw [← allRoutines_keyed H n hall, hid, h] at hj
    rw [hget, hj]

/-- A change edits a Bot's list as its event edits a copy of it. -/
theorem routines_succ (hH : H.RoutinesValid) (h : n < H.changes.length) :
    (H.routines bot (n + 1))[i]? =
      (editRoutines bot (H.routines bot n) H.changes[n].envelope.event)[i]? := by
  have hallows := hH n h
  unfold routines
  rw [allRoutines_succ h, IdMap.getElem?_filter']
  cases hevent : H.changes[n].envelope.event with
  | routineCreated routine | routineUpdated routine =>
      rw [hevent] at hallows
      simp only [applyRoutine, editRoutines, IdMap.getElem?_insert']
      by_cases hbot : routine.botId = bot
      · rw [if_pos hbot, IdMap.getElem?_insert']
        by_cases hi : routine.id = i
        · simp [hi, hbot]
        · simp [hi]
      · rw [if_neg hbot, IdMap.getElem?_filter']
        by_cases hi : routine.id = i
        · subst hi
          have hnone : ((H.allRoutines n)[routine.id]?).filter
              (fun r => decide (r.botId = bot)) = none := by
            cases hget : (H.allRoutines n)[routine.id]? with
            | none => rfl
            | some r =>
                have hother : r.botId ≠ bot := by
                  first
                  | exact absurd (hallows.symm.trans hget) (by simp)
                  | (obtain ⟨r', hr', hsame⟩ := hallows
                     obtain rfl := Option.some.inj (hget.symm.trans hr')
                     rwa [hsame])
                simp [hother]
          rw [hnone]
          simp [hbot]
        · simp [hi]
  | routineDeleted bot' id =>
      rw [hevent] at hallows
      obtain ⟨r, hr, hbot'⟩ := hallows
      simp only [applyRoutine, editRoutines, IdMap.getElem?_erase']
      by_cases hbot : bot' = bot
      · rw [if_pos hbot, IdMap.getElem?_erase', IdMap.getElem?_filter']
        split <;> rfl
      · rw [if_neg hbot, IdMap.getElem?_filter']
        by_cases hi : id = i
        · subst hi
          have hother : r.botId ≠ bot := hbot' ▸ hbot
          simp [hr, hother, Option.filter_some]
        · simp [hi]
  | _ => simp only [applyRoutine, editRoutines, IdMap.getElem?_filter']

/-- A routine stays as it is while no change is about it. -/
theorem routines_same (hH : H.RoutinesValid) {n' : ℕ} (hle : n ≤ n') (hn' : n' ≤ H.changes.length)
    (h : ∀ m, n ≤ m → m < n' → (Client.eventAt H m).bind Client.routineOf ≠ some (bot, i)) :
    (H.routines bot n')[i]? = (H.routines bot n)[i]? := by
  induction n', hle using Nat.le_induction with
  | base => rfl
  | succ n' hle ih =>
      have hlt : n' < H.changes.length := hn'
      have hother := h n' hle (Nat.lt_succ_self _)
      have hevent : Client.eventAt H n' = some (H.changes[n']).envelope.event := by
        simp [Client.eventAt, events, hlt]
      rw [hevent, Option.bind_some] at hother
      rw [routines_succ hH hlt, editRoutines_of_ne hother]
      exact ih (by omega) fun m hm hlt' => h m hm (by omega)

end History

/-- The copy follows the gateway up to the first `q` events, from a list and replies that reflect at
most the first `R` changes. -/
structure FollowsRoutines (H : History δ) (bot q R : ℕ) (c : Routines δ) : Prop where
  seq_le : c.seq ≤ R
  routine : ∀ i : ℕ, ∃ k, c.seq ≤ k ∧ k ≤ R ∧
    c.routines[i]? = (H.routines bot (max k q))[i]?

namespace FollowsRoutines

theorem mono {R' : ℕ} (h : FollowsRoutines H bot q R c) (hR : R ≤ R') :
    FollowsRoutines H bot q R' c where
  seq_le := h.seq_le.trans hR
  routine i := by
    obtain ⟨k, hseq, hk, heq⟩ := h.routine i
    exact ⟨k, hseq, hk.trans hR, heq⟩

/-- The next event brings the copy on. -/
theorem take (hH : H.RoutinesValid) (h : FollowsRoutines H bot q R c) (hq : q < H.changes.length) :
    FollowsRoutines H bot (q + 1) R (c.take bot (H.changes[q]).envelope) where
  seq_le := by
    rw [take_seq]
    exact h.seq_le
  routine i := by
    obtain ⟨k, hseq, hk, heq⟩ := h.routine i
    rw [take_seq]
    unfold Routines.take
    rw [History.seq_getElem hq]
    by_cases hold : q + 1 ≤ c.seq
    · -- the list reflects the event already
      rw [if_pos hold]
      exact ⟨k, hseq, hk, by rw [heq, Nat.max_eq_left (by omega), Nat.max_eq_left (by omega)]⟩
    · rw [if_neg hold]
      by_cases habout : Client.routineOf (H.changes[q]).envelope.event = some (bot, i)
      · refine ⟨c.seq, le_rfl, h.seq_le, ?_⟩
        rw [Nat.max_eq_right (by omega), History.routines_succ hH hq]
        exact editRoutines_self habout
      · refine ⟨k, hseq, hk, ?_⟩
        change (editRoutines bot c.routines _)[i]? = _
        rw [editRoutines_of_ne habout, heq]
        by_cases hkq : k ≤ q
        · rw [Nat.max_eq_right hkq, Nat.max_eq_right (by omega), History.routines_succ hH hq,
            editRoutines_of_ne habout]
        · rw [Nat.max_eq_left (by omega), Nat.max_eq_left (by omega)]

/-- Seen from an earlier event, what the copy shows is ahead. -/
theorem rewind {p : ℕ} (h : FollowsRoutines H bot p R c) (hq : q ≤ p) :
    FollowsRoutines H bot q (max R p) c where
  seq_le := h.seq_le.trans (le_max_left _ _)
  routine i := by
    obtain ⟨k, hseq, hk, heq⟩ := h.routine i
    refine ⟨max k p, hseq.trans (le_max_left _ _), max_le_max_right p hk, ?_⟩
    rw [heq, Nat.max_eq_left (hq.trans (le_max_right _ _))]

/-- What is no further ahead than the events is not ahead. -/
theorem settle (h : FollowsRoutines H bot q (max R q) c) (hR : c.seq ≤ R) :
    FollowsRoutines H bot q R c where
  seq_le := hR
  routine i := by
    obtain ⟨k, hseq, hk, heq⟩ := h.routine i
    by_cases hkR : k ≤ R
    · exact ⟨k, hseq, hkR, heq⟩
    · have hkq : k ≤ q := by omega
      refine ⟨c.seq, le_rfl, hR, ?_⟩
      rw [heq, Nat.max_eq_right hkq, Nat.max_eq_right (hseq.trans hkq)]

/-- The reply to a change that no later one of its routine has overtaken, set in place as it is. -/
theorem reply (hH : H.RoutinesValid) (h : FollowsRoutines H bot q R c) (hq : q ≤ H.changes.length)
    (hseq : c.seq ≤ H.changes.length) (hn : n < H.changes.length)
    (habout : Client.routineOf (H.changes[n]).envelope.event = some (bot, i))
    (hlast : ∀ m, n < m → m < max q c.seq →
      (Client.eventAt H m).bind Client.routineOf ≠ some (bot, i)) :
    FollowsRoutines H bot q (max (n + 1) R)
      { c with routines := editRoutines bot c.routines (H.changes[n]).envelope.event } where
  seq_le := h.seq_le.trans (le_max_right _ _)
  routine j := by
    by_cases hij : j = i
    · subst hij
      have hversion : (editRoutines bot c.routines (H.changes[n]).envelope.event)[j]? =
          (H.routines bot (n + 1))[j]? := by
        rw [History.routines_succ hH hn]
        exact editRoutines_self habout
      dsimp only
      rw [hversion]
      by_cases hnew : max q c.seq ≤ n + 1
      · exact ⟨n + 1, by omega, le_max_left _ _, by rw [Nat.max_eq_left (by omega)]⟩
      · refine ⟨c.seq, le_rfl, h.seq_le.trans (le_max_right _ _), ?_⟩
        rw [max_comm c.seq q]
        exact (History.routines_same hH (by omega) (by omega) fun m hm hlt =>
          hlast m (by omega) hlt).symm
    · have hne : Client.routineOf (H.changes[n]).envelope.event ≠ some (bot, j) := by
        rw [habout]
        simpa using fun h => hij h.symm
      obtain ⟨k, hk, hkR, heq⟩ := h.routine j
      exact ⟨k, hk, hkR.trans (le_max_right _ _), (editRoutines_of_ne hne).trans heq⟩

theorem foldl_take_seq (c : Routines δ) (bot : ℕ) (l : List (EventEnvelope (Event δ))) :
    (l.foldl (·.take bot ·) c).seq = c.seq := by
  induction l generalizing c with
  | nil => rfl
  | cons e l ih => exact (ih _).trans (take_seq c bot e)

/-- A stretch of the history replayed in order. -/
theorem window (hH : H.RoutinesValid) {p : ℕ} (h : FollowsRoutines H bot q R c) (hqp : q ≤ p)
    (hp : p ≤ H.changes.length) :
    FollowsRoutines H bot p R ((H.window q p).foldl (·.take bot ·) c) := by
  induction p, hqp using Nat.le_induction with
  | base => rwa [History.window_of_le le_rfl]
  | succ p hqp ih =>
      rw [History.window_succ hqp hp, List.foldl_append]
      exact take hH (ih (by omega)) hp

end FollowsRoutines

end Bokkie
