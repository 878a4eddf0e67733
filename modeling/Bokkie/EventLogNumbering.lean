import Mathlib.Data.List.Nodup
import Mathlib.Data.List.Perm.Basic
import Bokkie.EventLog

/-!
# Numbering of the event log

The invariant of the log is stated over the events ever committed: they are numbered from one,
the stored rows are a suffix of them, and every number a holder has in hand is their count.
-/

namespace Bokkie

namespace EventLog

open Runs

variable {ε : Type} {limits : Limits} {s t : UserLog ε} {a : Action ε}

/-- What one step can do, guards included. -/
inductive Move (limits : Limits) (s : UserLog ε) : Action ε → UserLog ε → Prop
  | begin (hs : s.holder = .free) :
      Move limits s .begin { s with last := none, holder := .beginning s.last }
  | write {previous : ℕ} (hs : s.holder = .beginning (some previous)) :
      Move limits s .write { s with holder := .opened (Batch.begin previous) }
  | writeUncached (hs : s.holder = .beginning none) :
      Move limits s .write { s with holder := .reading }
  | readStored (hs : s.holder = .reading) :
      Move limits s .readStored { s with holder := .opened (Batch.begin s.storedLast) }
  | emit {b : Batch ε} {now : ℤ} {event : ε} (hs : s.holder = .opened b) :
      Move limits s (.emit now event) { s with holder := .inserting b now event }
  | refused {b : Batch ε} {now : ℤ} {event : ε} (hs : s.holder = .inserting b now event)
      (ht : s.taken b (b.envelope now event).seq = true) :
      Move limits s .inserted { s with holder := .opened b }
  | inserted {b : Batch ε} {now : ℤ} {event : ε} (hs : s.holder = .inserting b now event)
      (ht : s.taken b (b.envelope now event).seq = false) :
      Move limits s .inserted { s with holder := .opened (b.emit now event) }
  | commit {b : Batch ε} (hs : s.holder = .opened b) :
      Move limits s .commit { s with holder := .committing b }
  | committed {b : Batch ε} (hs : s.holder = .committing b) :
      Move limits s .committed
        { s with
          stored := s.stored ++ b.tx
          last := some b.previous
          holder := .broadcasting b b.pending
          committed := s.committed ++ b.tx }
  | commitFailed {b : Batch ε} (hs : s.holder = .committing b) :
      Move limits s .commitFailed { s with holder := .free }
  | broadcast {b : Batch ε} {e : EventEnvelope ε} {rest : List (EventEnvelope ε)}
      (hs : s.holder = .broadcasting b (e :: rest)) :
      Move limits s .broadcast { s with holder := .broadcasting b rest, sent := s.sent ++ [e] }
  | release {b : Batch ε} (hs : s.holder = .broadcasting b []) :
      Move limits s .release
        { s with
          holder := .free
          prunes := if b.prunes limits then s.prunes ++ [b.previous - limits.retention]
            else s.prunes }
  | drop (hc : ∀ b, s.holder ≠ .committing b) (hb : s.holder.rest = [])
      (hb' : ∀ b rest, s.holder ≠ .broadcasting b rest) :
      Move limits s .drop { s with holder := .free }
  | latest {last : ℕ} (hs : s.holder = .free) (hl : s.last = some last) : Move limits s .latest s
  | latestUncached (hs : s.holder = .free) (hl : s.last = none) :
      Move limits s .latest { s with holder := .latest }
  | latestRead (hs : s.holder = .latest) :
      Move limits s .latestRead { s with last := some s.storedLast, holder := .free }
  | prune {bound : ℕ} (hm : bound ∈ s.prunes) (hw : s.holder.writing = false) :
      Move limits s (.prune bound)
        { s with
          stored := s.stored.filter fun e => ¬ e.seq ≤ bound
          prunes := s.prunes.erase bound }
  | pruneFailed {bound : ℕ} (hm : bound ∈ s.prunes) :
      Move limits s (.pruneFailed bound) { s with prunes := s.prunes.erase bound }
  | restart : Move limits s .restart { s with last := none, holder := .free, prunes := [] }

theorem move_of_step (h : step limits s a = some t) : Move limits s a t := by
  cases a with
  | begin | readStored | emit | commit | committed | commitFailed | release | latestRead =>
      simp only [step] at h
      split at h
      · next hs => cases h; constructor; exact hs
      · cases h
  | write =>
      simp only [step] at h
      split at h
      · next hs => cases h; exact .write hs
      · next hs => cases h; exact .writeUncached hs
      · cases h
  | inserted =>
      simp only [step] at h
      split at h
      · next hs =>
          split at h
          · next ht => cases h; exact .refused hs ht
          · next ht => cases h; exact .inserted hs (by simpa using ht)
      · cases h
  | broadcast =>
      simp only [step] at h
      split at h
      · next hs => cases h; exact .broadcast hs
      · cases h
  | drop =>
      simp only [step] at h
      split at h <;> cases h
      all_goals
        next hs => exact .drop (by simp [hs]) (by simp [hs, Holder.rest]) (by simp [hs])
  | latest =>
      simp only [step] at h
      split at h
      · next hs hl => cases h; exact .latest hs hl
      · next hs hl => cases h; exact .latestUncached hs hl
      · cases h
  | prune bound =>
      simp only [step] at h
      split at h
      · next hm => cases h; exact .prune hm.1 hm.2
      · cases h
  | pruneFailed bound =>
      simp only [step] at h
      split at h
      · next hm => cases h; exact .pruneFailed hm
      · cases h
  | restart => cases h; exact .restart

/-- The number of events ever committed. -/
def UserLog.count (s : UserLog ε) : ℕ := s.committed.length

structure Inv (limits : Limits) (s : UserLog ε) : Prop where
  numbered : Numbered 0 s.committed
  kept : ∃ k, s.stored = s.committed.drop k ∧ (k = 0 ∨ k + limits.retention ≤ s.count)
  last : ∀ v, s.last = some v → v = s.count
  known : ∀ v, s.holder.known = some v → v = s.count
  opened : ∀ b, s.holder.batch = some b → b.first = s.count
  prunes : ∀ m ∈ s.prunes, m + limits.retention ≤ s.count
  sending : (s.sent ++ s.holder.rest).Sublist s.committed

theorem inv_new : Inv limits (UserLog.new : UserLog ε) where
  numbered := Numbered.nil 0
  kept := ⟨0, rfl, .inl rfl⟩
  last := by simp [UserLog.new]
  known := by simp [UserLog.new, Holder.known]
  opened := by simp [UserLog.new, Holder.batch]
  prunes := by simp [UserLog.new]
  sending := by simp [UserLog.new, Holder.rest]

namespace Inv

theorem kept_le (hs : Inv limits s) :
    ∃ k, s.stored = s.committed.drop k ∧ k ≤ s.count ∧
      (k = 0 ∨ k + limits.retention ≤ s.count) := by
  obtain ⟨k, hk, hle⟩ := hs.kept
  exact ⟨k, hk, by omega, hle⟩

theorem stored_numbered (hs : Inv limits s) : ∃ k, k ≤ s.count ∧ Numbered k s.stored ∧
    s.stored.length = s.count - k ∧ (k = 0 ∨ k + limits.retention ≤ s.count) := by
  obtain ⟨k, hk, hle, hret⟩ := hs.kept_le
  refine ⟨k, hle, ?_, by rw [hk, List.length_drop]; rfl, hret⟩
  simpa [hk] using hs.numbered.drop hle

/-- Reading the stored maximum gives the number of events ever committed: a prune leaves the
newest event, since the retention is positive. -/
theorem storedLast_eq (hs : Inv limits s) : s.storedLast = s.count := by
  have hpos := limits.retention_pos
  obtain ⟨k, hle, hnum, hlen, hret⟩ := hs.stored_numbered
  by_cases hzero : s.count = 0
  · have hnil : s.stored = [] := List.length_eq_zero_iff.mp (by omega)
    simp [UserLog.storedLast, hnil, hzero]
  · have hmax : (s.stored.map (·.seq)).max? = some s.count := by
      rw [List.max?_eq_some_iff, show s.stored.map (·.seq) = _ from hnum]
      simp only [List.mem_range'_1]
      exact ⟨by omega, fun n hn => by omega⟩
    simp [UserLog.storedLast, hmax]

theorem setHolder (hs : Inv limits s) (holder : Holder ε)
    (hknown : ∀ v, holder.known = some v → v = s.count)
    (hopened : ∀ b, holder.batch = some b → b.first = s.count)
    (hsending : (s.sent ++ holder.rest).Sublist s.committed) :
    Inv limits { s with holder := holder } :=
  { hs with known := hknown, opened := hopened, sending := hsending }

theorem sent_sublist (hs : Inv limits s) : s.sent.Sublist s.committed :=
  (List.sublist_append_left _ _).trans hs.sending

/-- A holder that has neither a number nor a batch in hand. -/
theorem setIdle (hs : Inv limits s) (holder : Holder ε) (hknown : holder.known = none)
    (hbatch : holder.batch = none) (hrest : holder.rest = []) :
    Inv limits { s with holder := holder } :=
  hs.setHolder holder (by simp [hknown]) (by simp [hbatch]) (by simpa [hrest] using hs.sent_sublist)

/-- A holder whose open batch starts at the count. -/
theorem setBatch (hs : Inv limits s) {holder : Holder ε} {b : Batch ε}
    (hknown : holder.known = none) (hbatch : holder.batch = some b) (hrest : holder.rest = [])
    (hfirst : b.first = s.count) : Inv limits { s with holder := holder } :=
  hs.setHolder holder (by simp [hknown]) (by simp [hbatch, hfirst])
    (by simpa [hrest] using hs.sent_sublist)

theorem setPrunes (hs : Inv limits s) {prunes : List ℕ}
    (hprunes : ∀ m ∈ prunes, m + limits.retention ≤ s.count) :
    Inv limits { s with prunes := prunes } :=
  { hs with prunes := hprunes }

theorem commit_batch (hs : Inv limits s) {b : Batch ε} (hb : s.holder = .committing b) :
    Inv limits { s with
      stored := s.stored ++ b.tx
      last := some b.previous
      holder := .broadcasting b b.pending
      committed := s.committed ++ b.tx } := by
  have hfirst : b.first = s.count := hs.opened b (by simp [hb, Holder.batch])
  have hcount : b.previous = (s.committed ++ b.tx).length := by
    rw [b.previous_eq, b.written, List.length_append, hfirst]
    rfl
  have hsent : s.sent.Sublist s.committed := hs.sent_sublist
  refine ⟨?_, ?_, ?_, ?_, ?_, ?_, ?_⟩
  · apply hs.numbered.append
    rw [b.written, Nat.zero_add]
    have hnum := b.numbered
    rwa [hfirst] at hnum
  · obtain ⟨k, hk, hle, hret⟩ := hs.kept_le
    refine ⟨k, ?_, ?_⟩
    · rw [List.drop_append_of_le_length hle, hk]
    · simp only [UserLog.count, List.length_append] at hret ⊢
      omega
  · simp [UserLog.count, hcount]
  · simp [UserLog.count, Holder.known, hcount]
  · simp [Holder.batch]
  · intro m hm
    have hold := hs.prunes m hm
    simp only [UserLog.count, List.length_append] at hold ⊢
    omega
  · simpa [Holder.rest, b.written] using hsent

theorem prune_stored (hs : Inv limits s) {bound : ℕ} (hm : bound ∈ s.prunes) :
    Inv limits { s with
      stored := s.stored.filter fun e => ¬ e.seq ≤ bound
      prunes := s.prunes.erase bound } := by
  refine { hs with
    kept := ?_
    prunes := fun m hmem => hs.prunes m (List.mem_of_mem_erase hmem) }
  obtain ⟨k, hk, hle, hret⟩ := hs.kept_le
  refine ⟨k + (bound - k), ?_, ?_⟩
  · have hnum := hs.numbered.drop hle
    simp only [Nat.not_le, hk, hnum.filter_lt, List.drop_drop, Nat.zero_add]
  · have hbound := hs.prunes bound hm
    simp only [UserLog.count] at hret hbound ⊢
    omega

theorem step (hs : Inv limits s) (h : step limits s a = some t) : Inv limits t := by
  cases move_of_step h with
  | begin hfree =>
      have hidle : Inv limits { s with last := none } := { hs with last := by simp }
      exact hidle.setHolder (.beginning s.last) hs.last (by simp [Holder.batch])
        (by simpa [Holder.rest] using hs.sent_sublist)
  | write hb =>
      have hprev := hs.known _ (by rw [hb]; rfl)
      exact hs.setBatch rfl rfl rfl (by simpa using hprev)
  | writeUncached hb => exact hs.setIdle _ rfl rfl rfl
  | readStored hr => exact hs.setBatch rfl rfl rfl (by simpa using hs.storedLast_eq)
  | emit hb => exact hs.setBatch rfl rfl rfl (hs.opened _ (by rw [hb]; rfl))
  | refused hb => exact hs.setBatch rfl rfl rfl (hs.opened _ (by rw [hb]; rfl))
  | inserted hb => exact hs.setBatch rfl rfl rfl (by simpa using hs.opened _ (by rw [hb]; rfl))
  | commit hb => exact hs.setBatch rfl rfl rfl (hs.opened _ (by rw [hb]; rfl))
  | committed hb => exact hs.commit_batch hb
  | commitFailed hb => exact hs.setIdle _ rfl rfl rfl
  | broadcast hb =>
      refine { hs with
        known := fun v hv => hs.known v (by rw [hb]; exact hv)
        opened := by simp [Holder.batch]
        sending := ?_ }
      have hsending := hs.sending
      rw [hb] at hsending
      simpa [Holder.rest] using hsending
  | @release b hb =>
      have hprev : b.previous = s.count := hs.known _ (by rw [hb]; rfl)
      have hfree := hs.setIdle .free rfl rfl rfl
      apply hfree.setPrunes
      split
      · next hp =>
          simp only [List.mem_append, List.mem_singleton]
          rintro m (hm | rfl)
          · exact hs.prunes m hm
          · have hgt : limits.retention < b.previous := by
              simpa using (Bool.and_eq_true_iff.mp hp).2
            show _ ≤ s.count
            omega
      · exact hs.prunes
  | drop => exact hs.setIdle _ rfl rfl rfl
  | latest => exact hs
  | latestUncached => exact hs.setIdle _ rfl rfl rfl
  | latestRead =>
      have hidle := hs.setIdle .free rfl rfl rfl
      exact { hidle with
        last := fun v hv => (Option.some.inj hv).symm.trans hs.storedLast_eq }
  | prune hm => exact hs.prune_stored hm
  | pruneFailed hm => exact hs.setPrunes fun m hmem => hs.prunes m (List.mem_of_mem_erase hmem)
  | restart =>
      have hidle := hs.setIdle .free rfl rfl rfl
      exact { hidle with last := by simp, prunes := by simp }

theorem run {as : List (Action ε)} (h : exec (EventLog.step limits) UserLog.new as = some s) :
    Inv limits s :=
  exec_invariant (fun _ _ _ hi hstep => hi.step hstep) h inv_new

end Inv

section Accounts

variable {acts : List (Action ε)}

/-- The actions that give up the batch that holds the lock. -/
def Action.abandons : Action ε → Bool
  | .drop | .commitFailed | .restart => true
  | _ => false

/-- A restart found the event committed and not yet broadcast. -/
def CutOff (limits : Limits) (acts : List (Action ε)) (e : EventEnvelope ε) : Prop :=
  ∃ before after s, acts = before ++ .restart :: after ∧
    exec (step limits) UserLog.new before = some s ∧ e ∈ s.holder.rest

theorem CutOff.snoc {e : EventEnvelope ε} (h : CutOff limits acts e) (a : Action ε) :
    CutOff limits (acts ++ [a]) e := by
  obtain ⟨before, after, s, rfl, hs, he⟩ := h
  exact ⟨before, after ++ [a], s, by simp, hs, he⟩

/-- Only a commit, a broadcast and a restart touch what is committed, sent or left to send. -/
theorem Move.accounts (h : Move limits s a t) :
    (t.committed = s.committed ∧ t.sent = s.sent ∧ t.holder.rest = s.holder.rest) ∨
    (a = .restart ∧ t.committed = s.committed ∧ t.sent = s.sent ∧ t.holder.rest = []) ∨
    (a = .broadcast ∧ t.committed = s.committed ∧
      ∃ e, s.holder.rest = e :: t.holder.rest ∧ t.sent = s.sent ++ [e]) ∨
    (a = .committed ∧ t.sent = s.sent ∧ s.holder.rest = [] ∧
      ∃ b, s.holder.batch = some b ∧ t.committed = s.committed ++ b.pending ∧
        t.holder.rest = b.pending) := by
  cases h with
  | restart => exact .inr (.inl ⟨rfl, rfl, rfl, rfl⟩)
  | broadcast hs => exact .inr (.inr (.inl ⟨rfl, rfl, _, by rw [hs]; rfl, rfl⟩))
  | @committed b hs =>
      refine .inr (.inr (.inr ⟨rfl, rfl, by rw [hs]; rfl, b, by rw [hs]; rfl, ?_, rfl⟩))
      simp [b.written]
  | drop _ hr => exact .inl ⟨rfl, rfl, hr.symm⟩
  | latest | prune | pruneFailed => exact .inl ⟨rfl, rfl, rfl⟩
  | begin hs | write hs | writeUncached hs | readStored hs | emit hs | refused hs | inserted hs
  | commit hs | commitFailed hs | release hs | latestUncached hs | latestRead hs =>
      exact .inl ⟨rfl, rfl, by simp [hs, Holder.rest]⟩

/-- Every committed event is sent, left to be sent, or was cut off by a restart. -/
theorem accounted (h : Run (Steps (step limits)) UserLog.new acts s) {e : EventEnvelope ε}
    (he : e ∈ s.committed) : e ∈ s.sent ++ s.holder.rest ∨ CutOff limits acts e := by
  induction h with
  | nil => simp [UserLog.new] at he
  | @snoc s t acts a hrun hstep ih =>
      rcases (move_of_step hstep).accounts with ⟨hc, hsent, hr⟩ | ⟨rfl, hc, hsent, hr⟩ |
        ⟨rfl, hc, e', hr, hsent⟩ | ⟨rfl, hsent, hr, b, hb, hc, hr'⟩
      · rw [hsent, hr]
        exact (ih (hc ▸ he)).imp_right fun hcut => hcut.snoc a
      · rcases ih (hc ▸ he) with hin | hcut
        · rcases List.mem_append.mp hin with hs | hrest
          · exact .inl (by simp [hsent, hs])
          · exact .inr ⟨acts, [], s, rfl, exec_of_run hrun, hrest⟩
        · exact .inr (hcut.snoc _)
      · have hsame : t.sent ++ t.holder.rest = s.sent ++ s.holder.rest := by simp [hsent, hr]
        rw [hsame]
        exact (ih (hc ▸ he)).imp_right fun hcut => hcut.snoc _
      · rw [hc] at he
        rcases List.mem_append.mp he with hold | hnew
        · refine (ih hold).imp (fun hin => ?_) fun hcut => hcut.snoc _
          rw [hr, List.append_nil] at hin
          exact List.mem_append_left _ (hsent ▸ hin)
        · exact .inl (List.mem_append_right _ (hr' ▸ hnew))

/-- Numbers are only ever added by a commit. -/
theorem count_of_no_commit (h : exec (step limits) s acts = some t) (hno : .committed ∉ acts) :
    t.count = s.count := by
  refine (run_of_exec h).invariant_of_forall (I := fun u => u.count = s.count)
    (P := fun a => a ≠ .committed) ?_ (fun a ha heq => hno (heq ▸ ha)) rfl
  intro u a v ha hu hstep
  rcases (move_of_step hstep).accounts with ⟨hc, -⟩ | ⟨-, hc, -⟩ | ⟨-, hc, -⟩ | ⟨rfl, -⟩
  · simpa [UserLog.count, hc] using hu
  · simpa [UserLog.count, hc] using hu
  · simpa [UserLog.count, hc] using hu
  · exact absurd rfl ha

theorem Move.abandoned (h : Move limits s a t) (ha : a.abandons = true) :
    t.stored = s.stored ∧ t.committed = s.committed ∧ t.sent = s.sent ∧ t.holder = .free := by
  cases h <;> simp_all [Action.abandons]

/-- What is sent after a moment with nothing left to send was committed after that moment. -/
theorem sent_later (hs : Inv limits s) (hrest : s.holder.rest = [])
    (h : exec (step limits) s acts = some t) :
    ∃ later, t.sent = s.sent ++ later ∧ ∀ e ∈ later, s.count < e.seq := by
  have hinv : Inv limits t ∧ s.count ≤ t.count ∧ ∃ later, t.sent = s.sent ++ later ∧
      ∀ e ∈ later ++ t.holder.rest, s.count < e.seq := by
    refine exec_invariant (I := fun u => Inv limits u ∧ s.count ≤ u.count ∧
      ∃ later, u.sent = s.sent ++ later ∧ ∀ e ∈ later ++ u.holder.rest, s.count < e.seq)
      ?_ h ⟨hs, le_rfl, [], by simp [hrest]⟩
    rintro u a v ⟨hu, hle, later, hsent, hlater⟩ hstep
    refine ⟨hu.step hstep, ?_⟩
    rcases (move_of_step hstep).accounts with ⟨hc, hsent', hr⟩ | ⟨rfl, hc, hsent', hr⟩ |
      ⟨rfl, hc, e, hr, hsent'⟩ | ⟨rfl, hsent', -, b, hb, hc, hr⟩
    · exact ⟨by simpa [UserLog.count, hc] using hle, later, by rw [hsent', hsent],
        by rwa [hr]⟩
    · refine ⟨by simpa [UserLog.count, hc] using hle, later, by rw [hsent', hsent], ?_⟩
      intro e he
      exact hlater e (by simp_all)
    · refine ⟨by simpa [UserLog.count, hc] using hle, later ++ [e], by simp [hsent', hsent], ?_⟩
      simpa [hr] using hlater
    · refine ⟨?_, later, by rw [hsent', hsent], ?_⟩
      · simp only [UserLog.count, hc, List.length_append] at hle ⊢
        omega
      · intro e he
        rcases List.mem_append.mp he with hold | hnew
        · exact hlater e (List.mem_append_left _ hold)
        · have hfirst := hu.opened b hb
          have hnum := b.numbered.lt_of_mem (hr ▸ hnew)
          omega
  obtain ⟨-, -, later, hsent, hlater⟩ := hinv
  exact ⟨later, hsent, fun e he => hlater e (List.mem_append_left _ he)⟩

theorem Inv.stored_eq (hs : Inv limits s) :
    s.stored = s.committed.drop (s.count - s.stored.length) ∧
      s.stored.map (·.seq) =
        List.range' (s.count - s.stored.length + 1) s.stored.length ∧
      s.stored.length ≤ s.count ∧ min s.count limits.retention ≤ s.stored.length := by
  obtain ⟨k, hk, hle, hret⟩ := hs.kept_le
  have hlen : s.stored.length = s.count - k := by rw [hk, List.length_drop]; rfl
  have hdrop : s.count - s.stored.length = k := by omega
  have hnum := hs.numbered.drop hle
  rw [← hk, Nat.zero_add] at hnum
  exact ⟨by rw [hdrop, hk], by rw [hdrop]; exact hnum, by omega, by omega⟩

/-- The numbering of the log over every run from an empty one. -/
theorem numbering [DecidableEq ε] (limits : Limits) (acts : List (Action ε)) (s : UserLog ε)
    (h : exec (step limits) UserLog.new acts = some s) :
    -- The stored rows are the newest committed events, and enough of them.
    (s.committed.map (·.seq) = List.range' 1 s.count ∧
      s.stored = s.committed.drop (s.count - s.stored.length) ∧
      s.stored.length ≤ s.count ∧ min s.count limits.retention ≤ s.stored.length) ∧
    -- Broadcasts are of committed events, in the order of their numbers.
    (s.sent.Sublist s.committed ∧ s.sent.Pairwise fun a b => a.seq < b.seq) ∧
    -- Every committed event is broadcast once, is about to be, or was cut off by a restart.
    (∀ e ∈ s.committed, s.sent.count e = 1 ∨
      s.sent.count e = 0 ∧ (e ∈ s.holder.rest ∨ CutOff limits acts e)) ∧
    -- A batch that is given up leaves nothing behind, and its numbers go to the next batch.
    (∀ a t b, step limits s a = some t → a.abandons = true → s.holder.batch = some b →
      t.stored = s.stored ∧ t.committed = s.committed ∧ t.sent = s.sent ∧ t.holder = .free ∧
      ∀ acts' u b', exec (step limits) t acts' = some u → .committed ∉ acts' →
        u.holder.batch = some b' → b'.first = b.first) := by
  have hs : Inv limits s := Inv.run h
  have hnodup : s.sent.Nodup := hs.numbered.nodup.sublist hs.sent_sublist
  refine ⟨⟨?_, hs.stored_eq.1, hs.stored_eq.2.2⟩,
    ⟨hs.sent_sublist, hs.numbered.pairwise.sublist hs.sent_sublist⟩, ?_, ?_⟩
  · exact hs.numbered
  · intro e he
    by_cases hsent : e ∈ s.sent
    · exact .inl (List.count_eq_one_of_mem hnodup hsent)
    · refine .inr ⟨List.count_eq_zero_of_not_mem hsent, ?_⟩
      rcases accounted (run_of_exec h) he with hin | hcut
      · exact .inl ((List.mem_append.mp hin).resolve_left hsent)
      · exact .inr hcut
  · intro a t b hstep ha hb
    obtain ⟨hstored, hcommitted, hsent, hfree⟩ := (move_of_step hstep).abandoned ha
    refine ⟨hstored, hcommitted, hsent, hfree, fun acts' u b' hrun hno hb' => ?_⟩
    have ht : Inv limits t := hs.step hstep
    have hu : Inv limits u := exec_invariant (fun _ _ _ hi hstep => hi.step hstep) hrun ht
    calc b'.first = u.count := hu.opened b' hb'
      _ = t.count := count_of_no_commit hrun hno
      _ = s.count := congrArg List.length hcommitted
      _ = b.first := (hs.opened b hb).symm

/-- One event is written and broadcast, then a second batch is dropped. -/
def droppedSchedule : List (Action Unit) :=
  [.begin, .write, .readStored, .emit 0 (), .inserted, .commit, .committed, .broadcast, .release,
    .begin, .write, .emit 1 (), .inserted]

theorem numbering_droppedSchedule :
    ∃ s t b, exec (step Limits.new) UserLog.new droppedSchedule = some s ∧
      s.holder.batch = some b ∧ b.pending = [⟨2, 1, ()⟩] ∧
      step Limits.new s .drop = some t ∧ t.stored = [⟨1, 0, ()⟩] ∧ t.sent = [⟨1, 0, ()⟩] ∧
      ∀ acts' u b', exec (step Limits.new) t acts' = some u → .committed ∉ acts' →
        u.holder.batch = some b' → b'.first = 1 := by
  have hrun : exec (step Limits.new) UserLog.new droppedSchedule =
      some ⟨[⟨1, 0, ()⟩], none, .opened ((Batch.begin 1).emit 1 ()), [], [⟨1, 0, ()⟩],
        [⟨1, 0, ()⟩]⟩ := by decide
  obtain ⟨hstored, -, hsent, -, hnext⟩ :=
    (numbering Limits.new droppedSchedule _ hrun).2.2.2 .drop _ _ rfl rfl rfl
  exact ⟨_, _, _, hrun, rfl, rfl, rfl, hstored, hsent, hnext⟩

def lostSchedule : List (Action Unit) :=
  [.begin, .write, .readStored, .emit 0 (), .inserted, .commit, .committed, .restart]

/-- A gateway that stops between the commit and the broadcast never broadcasts the event. -/
theorem committed_never_broadcast :
    ∃ s e, exec (step Limits.new) UserLog.new lostSchedule = some s ∧ e ∈ s.committed ∧
      ∀ acts t, exec (step Limits.new) s acts = some t → t.sent.count e = 0 := by
  have hrun : exec (step Limits.new) UserLog.new lostSchedule =
      some ⟨[⟨1, 0, ()⟩], none, .free, [], [⟨1, 0, ()⟩], []⟩ := by decide
  refine ⟨_, ⟨1, 0, ()⟩, hrun, by simp, fun acts t ht => List.count_eq_zero_of_not_mem ?_⟩
  obtain ⟨later, hsent, hlater⟩ := sent_later (Inv.run hrun) rfl ht
  intro hmem
  rw [hsent, List.nil_append] at hmem
  exact absurd (hlater _ hmem) (by decide)

end Accounts

end EventLog

end Bokkie
