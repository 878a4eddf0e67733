import Bokkie.LoginFailures
import Bokkie.Runs

/-!
# The limits after a restart

What the limiter holds of a key and what the table keeps of it agree on every attempt still in the
window, whatever was refused, taken back, cleared or dropped for room on the way, as long as none of
the attempts left the key out of the table. So a limiter started from the table takes the same
attempts on such keys, as long as both have room for each one's keys.
-/

namespace Bokkie.LoginLimiter

open Accounts SlidingWindow

/-! ## Runs of calls -/

inductive Call where
  | begin (attempting : Attempting) (now : ℤ)
  | succeeded (attempt : Attempt)
deriving DecidableEq

/-- A gateway's limiter since it was started, the table it was started from, and the attempts that
have neither failed nor succeeded. -/
structure Process where
  limiter : LoginLimiter
  started : LoginFailures
  attempts : List Attempt
  clock : ℤ

namespace Process

def start (t : LoginFailures) (now : ℤ) (order : Order) : Process :=
  ⟨persistent t now order, t.pruned now, [], now⟩

/-- A call, at a time that does not go back; an attempt succeeds once. -/
def call (p : Process) : Call → Option Process
  | .begin attempting now =>
    if p.clock ≤ now then
      let (attempt, limiter) := p.limiter.begin attempting now
      some { p with limiter := limiter, attempts := attempt.toList ++ p.attempts, clock := now }
    else none
  | .succeeded attempt =>
    if attempt ∈ p.attempts then
      some { p with
        limiter := p.limiter.succeeded attempt
        attempts := p.attempts.erase attempt }
    else none

/-- The table once every change is written. -/
def table (p : Process) : LoginFailures := p.limiter.changes.foldl .record p.started

end Process

/-- Whether each attempt is admitted. -/
def verdicts (l : LoginLimiter) : List Call → List Bool
  | [] => []
  | .begin attempting now :: calls =>
    (l.begin attempting now).1.isSome :: verdicts (l.begin attempting now).2 calls
  | .succeeded attempt :: calls => verdicts (l.succeeded attempt) calls

/-- Calls on the keys of the names in `S`, at times that do not go back, where the keys still counted
by either limiter leave room for each attempt's. -/
inductive Later (S : String → Prop) : ℤ → LoginLimiter → LoginLimiter → List Call → Prop
  | nil {clock : ℤ} {l l' : LoginLimiter} : Later S clock l l' []
  | begin {clock now : ℤ} {l l' : LoginLimiter} {attempting : Attempting} {calls : List Call}
      (hclock : clock ≤ now) (hkeys : ∀ key ∈ keys attempting, S key.name)
      (hroom : HasRoom l now (keys attempting).length)
      (hroom' : HasRoom l' now (keys attempting).length)
      (hcalls : Later S now (l.begin attempting now).2 (l'.begin attempting now).2 calls) :
      Later S clock l l' (.begin attempting now :: calls)
  | succeeded {clock : ℤ} {l l' : LoginLimiter} {attempt : Attempt} {calls : List Call}
      (hcalls : Later S clock (l.succeeded attempt) (l'.succeeded attempt) calls) :
      Later S clock l l' (.succeeded attempt :: calls)

section Keeps

variable {S : String → Prop} {now now' : ℤ} {l : LoginLimiter} {failures : Failures}
  {counts : String → List ℤ} {ks : List Key} {key : Key} {attempting : Attempting}

/-- On the names in `S`, the limiter's times and these counts agree on what still counts. -/
def Keeps (S : String → Prop) (now : ℤ) (failures : Failures) (counts : String → List ℤ) : Prop :=
  ∀ name, S name → Agree WINDOW_MS now (timesOf failures name) (counts name)

namespace Keeps

theorem later (h : Keeps S now failures counts) (hle : now ≤ now') :
    Keeps S now' failures counts := fun name hname => (h name hname).later hle

theorem belowLimits (h : Keeps S now failures counts) (ks : List Key) :
    Keeps S now (belowLimits now failures ks).2 counts := by
  intro name hname
  rcases timesOf_belowLimits now failures ks name with heq | heq
  · rw [heq]
    exact h name hname
  · rw [heq]
    exact (h name hname).expire

theorem liveKeys (h : Keeps S now failures counts) : Keeps S now (liveKeys now failures) counts := by
  intro name hname
  have hagree := h name hname
  rw [timesOf_liveKeys]
  split
  · exact hagree
  · next hlive => exact hagree.drop (not_not.mp (mt (isLive_iff hagree.sorted).mpr hlive))

theorem pushAll (h : Keeps S now failures counts) (hnodup : (ks.map (·.name)).Nodup) :
    Keeps S now (ks.foldl (push now) failures) fun name =>
      if name ∈ ks.map (·.name) then counts name ++ [now] else counts name := by
  intro name hname
  rw [timesOf_pushAll hnodup]
  dsimp only
  split
  · exact (h name hname).push
  · exact h name hname

theorem takeBack (h : Keeps S now l.failures counts) (time : ℤ) (key : Key) :
    Keeps S now (l.takeBack time key).failures (countsWithout time counts key) := by
  intro name hname
  rw [timesOf_takeBack, countsWithout, countsWithout]
  split
  · split
    · exact Agree.nil
    · exact (h name hname).erase time
  · exact h name hname

theorem succeeded (h : Keeps S now l.failures counts) (attempt : Attempt) :
    Keeps S now (l.succeeded attempt).failures
      (attempt.keys.foldl (countsWithout attempt.time) counts) := by
  unfold LoginLimiter.succeeded
  induction attempt.keys generalizing l counts with
  | nil => exact h
  | cons key ks ih => exact ih (h.takeBack attempt.time key)

end Keeps

/-- By the counts, no key of the attempt is at its limit. -/
def Below (counts : String → List ℤ) (now : ℤ) (attempting : Attempting) : Prop :=
  ∀ key ∈ keys attempting, (live WINDOW_MS now (counts key.name)).length < key.limit

/-- With room for its keys, an attempt on the keys in `S` is admitted just when the counts allow it,
and counted then. -/
theorem Keeps.begin (h : Keeps S now l.failures counts) (hS : ∀ key ∈ keys attempting, S key.name)
    (hroom : HasRoom l now (keys attempting).length) :
    (((l.begin attempting now).1.isSome = true ↔ Below counts now attempting) ∧
      (Below counts now attempting →
        Keeps S now (l.begin attempting now).2.failures (countsWith counts attempting now)) ∧
      (¬ Below counts now attempting → Keeps S now (l.begin attempting now).2.failures counts)) := by
  have hpos : ∀ key ∈ keys attempting, 0 < key.limit := fun _ hkey => keys_pos hkey
  have hiff : (LoginLimiter.belowLimits now l.failures (keys attempting)).1 = true ↔
      Below counts now attempting := by
    rw [belowLimits_iff hpos]
    exact forall₂_congr fun key hkey => by rw [(h key.name (hS key hkey)).length_expire]
  have hbelow := h.belowLimits (keys attempting)
  have hsize := size_liveKeys_belowLimits now fun key (hkey : key ∈ keys attempting) =>
    (h key.name (hS key hkey)).sorted
  unfold LoginLimiter.begin
  dsimp only
  cases hadmitted : (LoginLimiter.belowLimits now l.failures (keys attempting)).1 with
  | false =>
      have hnot : ¬ Below counts now attempting := fun hcounts => by
        rw [hiff.mpr hcounts] at hadmitted
        cases hadmitted
      exact ⟨iff_of_false Bool.false_ne_true hnot, fun hcounts => absurd hcounts hnot,
        fun _ => hbelow⟩
  | true =>
      have hcounts := hiff.mp hadmitted
      refine ⟨iff_of_true rfl hcounts, fun _ => ?_, fun hnot => absurd hcounts hnot⟩
      have hroom' : HasRoom { l with failures :=
          (LoginLimiter.belowLimits now l.failures (keys attempting)).2 } now
          (keys attempting).length := by
        unfold HasRoom at hroom ⊢
        rwa [hsize]
      rcases makeRoom_of_hasRoom hroom' with heq | heq
      · simp only [Bool.not_true, Bool.false_eq_true, if_false, heq]
        exact hbelow.pushAll keys_nodup
      · simp only [Bool.not_true, Bool.false_eq_true, if_false, heq]
        exact hbelow.liveKeys.pushAll keys_nodup

end Keeps

/-! ## The journal -/

section Journal

variable {S : String → Prop} {now now' : ℤ} {base : LoginFailures} {l : LoginLimiter}
  {failures : Failures} {ks : List Key} {key : Key} {attempting : Attempting}

/-- What a limiter's changes make of a table. -/
def written (base : LoginFailures) (l : LoginLimiter) : LoginFailures :=
  l.changes.foldl .record base

theorem written_snoc (failures : Failures) (change : Change) :
    written base ⟨failures, l.changes ++ [change], l.order⟩ = (written base l).record change := by
  rw [written, List.foldl_append]
  rfl

/-- Memory and table agree on the names in `S`. -/
def Stands (S : String → Prop) (now : ℤ) (base : LoginFailures) (l : LoginLimiter) : Prop :=
  Keeps S now l.failures (written base l).times

namespace Stands

/-- One change is written as memory makes it. -/
theorem snoc {change : Change}
    (hkeeps : Keeps S now failures ((written base l).record change).times) :
    Stands S now base ⟨failures, l.changes ++ [change], l.order⟩ := by
  rw [Stands, written_snoc]
  exact hkeeps

/-- A key that memory forgets is cleared in the table. -/
theorem cleared (h : Stands S now base l) (key : String) :
    Stands S now base ⟨l.failures.erase key, l.changes ++ [.cleared key], l.order⟩ := by
  refine snoc fun name hname => ?_
  rw [timesOf_erase, LoginFailures.record, LoginFailures.times_delete_key]
  split
  · exact Agree.nil
  · exact h name hname

theorem evict (h : Stands S now base l) (room fuel : ℕ) :
    Stands S now base (evict room fuel l) := by
  induction fuel generalizing l with
  | zero => exact h
  | succ fuel ih =>
      rw [LoginLimiter.evict]
      split
      · split
        · exact h
        · exact ih (h.cleared _)
      · exact h

theorem makeRoom (h : Stands S now base l) (room : ℕ) :
    Stands S now base (l.makeRoom now room) := by
  unfold LoginLimiter.makeRoom
  split
  · have hlive : Stands S now base { l with failures := LoginLimiter.liveKeys now l.failures } :=
      Keeps.liveKeys h
    exact hlive.evict _ _
  · exact h

/-- An attempt is counted in memory and, for its stored keys, in the table. -/
theorem counted (h : Stands S now base l) (hnodup : (ks.map (·.name)).Nodup)
    (hstored : ∀ key ∈ ks, S key.name → key.stored = true) :
    Stands S now base ⟨ks.foldl (push now) l.failures,
      l.changes ++ [.counted ((ks.filter (·.stored)).map (·.name)) now], l.order⟩ := by
  have hsub : ((ks.filter (·.stored)).map (·.name)).Sublist (ks.map (·.name)) :=
    List.filter_sublist.map _
  refine snoc fun name hname => ?_
  have hiff : name ∈ (ks.filter (·.stored)).map (·.name) ↔ name ∈ ks.map (·.name) := by
    refine ⟨fun hmem => hsub.subset hmem, fun hmem => ?_⟩
    obtain ⟨key, hkey, rfl⟩ := List.mem_map.mp hmem
    exact List.mem_map_of_mem (List.mem_filter.mpr ⟨hkey, hstored key hkey hname⟩)
  have hpushed := Keeps.pushAll h hnodup name hname
  rw [LoginFailures.times_counted (hnodup.sublist hsub)]
  simp only [hiff]
  split
  · next hnil =>
      -- nothing stored is counted, so the table is not pruned either
      have hout : name ∉ ks.map (·.name) := fun hmem => by
        rw [← hiff, hnil] at hmem
        cases hmem
      simp only [if_neg hout] at hpushed
      exact hpushed
  · exact hpushed.prune (by omega)

theorem begin (h : Stands S now base l)
    (hstored : ∀ key ∈ keys attempting, S key.name → key.stored = true) :
    Stands S now base (l.begin attempting now).2 := by
  unfold LoginLimiter.begin
  have hbelow : Stands S now base { l with
      failures := (LoginLimiter.belowLimits now l.failures (keys attempting)).2 } :=
    Keeps.belowLimits h _
  dsimp only
  split
  · exact hbelow
  · exact (hbelow.makeRoom _).counted keys_nodup hstored

/-- What is taken back of a key that is not stored is nothing of the names in `S`. -/
theorem of_not_stored (h : Stands S now base l) (hkey : ¬ S key.name) (time : ℤ)
    (hfailures : failures = (l.takeBack time key).failures) :
    Stands S now base ⟨failures, l.changes, l.order⟩ := by
  intro name hname
  have hne : key.name ≠ name := by
    rintro rfl
    exact hkey hname
  rw [hfailures, timesOf_takeBack, countsWithout, if_neg hne]
  exact h name hname

theorem takeBack (h : Stands S now base l) (hstored : S key.name → key.stored = true)
    (time : ℤ) : Stands S now base (l.takeBack time key) := by
  have hkeeps := Keeps.takeBack h time key
  by_cases hkey : key.stored = true
  · unfold LoginLimiter.takeBack at hkeeps ⊢
    by_cases hclear : key.clear = true
    · rw [if_pos hclear, if_pos hkey]
      exact h.cleared key.name
    · rw [if_neg hclear] at hkeeps ⊢
      cases hget : l.failures[key.name]? with
      | none => exact h
      | some times =>
          rw [hget] at hkeeps
          simp only at hkeeps ⊢
          by_cases hmem : time ∈ times
          · rw [if_pos hmem] at hkeeps ⊢
            rw [if_pos hkey]
            refine snoc fun name hname => ?_
            have hagree := hkeeps name hname
            rw [countsWithout, if_neg hclear] at hagree
            exact hagree.perm LoginFailures.times_takenBack.symm
          · rw [if_neg hmem]
            exact h
  · have hrest := h.of_not_stored (mt hstored hkey) time rfl
    have hchanges : (l.takeBack time key).changes = l.changes := by
      unfold LoginLimiter.takeBack
      simp only [if_neg hkey]
      split
      · rfl
      · split
        · rfl
        · split <;> rfl
    rw [← hchanges] at hrest
    exact hrest

theorem succeeded (h : Stands S now base l) {attempt : Attempt}
    (hstored : ∀ key ∈ attempt.keys, S key.name → key.stored = true) :
    Stands S now base (l.succeeded attempt) := by
  unfold LoginLimiter.succeeded
  generalize attempt.keys = ks at hstored
  induction ks generalizing l with
  | nil => exact h
  | cons key ks ih =>
      obtain ⟨hkey, hks⟩ := List.forall_mem_cons.mp hstored
      exact ih (h.takeBack hkey attempt.time) hks

end Stands

end Journal

/-! ## Runs -/

section Process

variable {S : String → Prop} {calls : List Call} {p p' : Process} {c : Call} {t : LoginFailures}
  {now : ℤ} {order : Order}

theorem keys_of_begin {l : LoginLimiter} {attempting : Attempting} {attempt : Attempt}
    (h : (l.begin attempting now).1 = some attempt) : attempt.keys = keys attempting := by
  unfold begin at h
  dsimp only at h
  split at h
  · cases h
  · rw [← Option.some.inj h]

/-- Memory and table agree on the names in `S`, which none of the attempts on the way leaves out. -/
structure Standing (S : String → Prop) (p : Process) : Prop where
  stands : Stands S p.clock p.started p.limiter
  begun : ∀ attempt ∈ p.attempts, ∀ key ∈ attempt.keys, S key.name → key.stored = true

theorem Standing.call (h : Standing S p) (hcall : p.call c = some p')
    (hstored : ∀ attempting now, c = .begin attempting now → ∀ key ∈ keys attempting,
      S key.name → key.stored = true) : Standing S p' := by
  cases c with
  | begin attempting now =>
      obtain ⟨hclock, heq⟩ := Option.ite_none_right_eq_some.mp hcall
      obtain rfl := Option.some.inj heq
      have hkeys := hstored attempting now rfl
      refine ⟨Stands.begin (Keeps.later h.stands hclock) hkeys, fun attempt hattempt => ?_⟩
      rcases List.mem_append.mp hattempt with hnew | hold
      · rw [keys_of_begin (Option.mem_toList.mp hnew)]
        exact hkeys
      · exact h.begun attempt hold
  | succeeded attempt =>
      obtain ⟨hmem, heq⟩ := Option.ite_none_right_eq_some.mp hcall
      obtain rfl := Option.some.inj heq
      exact ⟨h.stands.succeeded (h.begun attempt hmem),
        fun other hother => h.begun other (List.mem_of_mem_erase hother)⟩

end Process

/-! ## The limiter started anew -/

section Restart

variable {l l' : LoginLimiter} {now clock : ℤ} {calls later : List Call} {S : String → Prop}
  {order : Order}

/-- Two limiters hold the same of the names in `S`. -/
def Mirrors (S : String → Prop) (now : ℤ) (l l' : LoginLimiter) : Prop :=
  ∃ counts, Keeps S now l.failures counts ∧ Keeps S now l'.failures counts

theorem Mirrors.begin {attempting : Attempting} (h : Mirrors S clock l l') (hclock : clock ≤ now)
    (hS : ∀ key ∈ keys attempting, S key.name)
    (hroom : HasRoom l now (keys attempting).length)
    (hroom' : HasRoom l' now (keys attempting).length) :
    (l'.begin attempting now).1.isSome = (l.begin attempting now).1.isSome ∧
      Mirrors S now (l.begin attempting now).2 (l'.begin attempting now).2 := by
  obtain ⟨counts, hkeeps, hkeeps'⟩ := h
  have hbegin := (hkeeps.later hclock).begin hS hroom
  have hbegin' := (hkeeps'.later hclock).begin hS hroom'
  refine ⟨Bool.eq_iff_iff.mpr (hbegin'.1.trans hbegin.1.symm), ?_⟩
  by_cases hbelow : Below counts now attempting
  · exact ⟨_, hbegin.2.1 hbelow, hbegin'.2.1 hbelow⟩
  · exact ⟨_, hbegin.2.2 hbelow, hbegin'.2.2 hbelow⟩

theorem Mirrors.succeeded (h : Mirrors S now l l') (attempt : Attempt) :
    Mirrors S now (l.succeeded attempt) (l'.succeeded attempt) := by
  obtain ⟨counts, hkeeps, hkeeps'⟩ := h
  exact ⟨_, hkeeps.succeeded attempt, hkeeps'.succeeded attempt⟩

/-- Such limiters take the same later attempts. -/
theorem Mirrors.verdicts (h : Mirrors S clock l l') (hlater : Later S clock l l' later) :
    LoginLimiter.verdicts l' later = LoginLimiter.verdicts l later := by
  induction hlater with
  | nil => rfl
  | begin hclock hkeys hroom hroom' hcalls ih =>
      obtain ⟨hsame, hrest⟩ := h.begin hclock hkeys hroom hroom'
      rw [LoginLimiter.verdicts, LoginLimiter.verdicts, hsame, ih hrest]
  | succeeded hcalls ih => exact ih (h.succeeded _)

end Restart

section Example

end Example

end Bokkie.LoginLimiter
