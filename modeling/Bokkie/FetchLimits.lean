import Bokkie.Accounts
import Bokkie.Runs
import Mathlib.Data.List.Perm.Subperm

/-!
# How many fetches

A Bot's turn may make a number of fetches, and its owner a number in 24 hours. Fetches that the
tool-call log records count from there, and those still running from memory: each is read at its
own moment, and a fetch is recorded before its place in memory is released.
-/

namespace Bokkie

namespace FetchLimits

open Accounts (DAY_MS)

def PER_TURN : ℕ := 60

def PER_DAY : ℕ := 500

/-- The longest id that the log stores, in characters. -/
def ID_CHARS : ℕ := 128

/-- `audit::bounded`. -/
def bounded (text : String) (chars : ℕ) : String := String.ofList (text.toList.take chars)

/-- A `web_fetch` call in the tool-call log. -/
structure Row where
  user : ℕ
  thread : String
  turn : String
  refused : Bool
  time : ℤ

/-- A fetch with a place in memory. -/
structure Counted where
  id : ℕ
  user : ℕ
  thread : String
  turn : String
deriving DecidableEq

/-- How far a reservation has come: what it has read of the log. -/
inductive Stage where
  | locked
  | readToday (today : ℕ)
  | readTurn (today thisTurn : ℕ)

/-- The log is being read. -/
def Stage.reads : Stage → Bool
  | .locked => false
  | _ => true

/-- The reservation that holds the lock. -/
structure Reserving where
  user : ℕ
  thread : String
  turn : String
  since : ℤ
  stage : Stage

/-- The log, the fetches in memory, and the calls: the one that is being counted and those that are
fetching. What was recorded, and since the log was last read, is kept to be told from. -/
structure World where
  now : ℤ
  log : List Row
  inFlight : List Counted
  next : ℕ
  counting : Option Reserving
  /-- The fetches that are not recorded. -/
  running : List Counted
  /-- Every fetch that was recorded, and when. -/
  recorded : List (Counted × ℤ)
  /-- The user's fetches recorded since the reservation under way began to read the log. -/
  unread : List Counted

def World.new : World := ⟨0, [], [], 0, none, [], [], []⟩

inductive Action where
  | tick (ms : ℕ)
  /-- `Fetcher::reserve` has the lock and reads the clock. -/
  | reserve (user : ℕ) (thread turn : String)
  | readToday
  | readTurn
  /-- The log cannot be read. -/
  | unavailable
  /-- Memory is read, and the fetch has a place or is refused. -/
  | count
  /-- The fetch has ended and is recorded, with the time read before. -/
  | record (c : Counted) (time : ℤ)
  /-- Its place is released. -/
  | release (id : ℕ)
  /-- A call that had no place is recorded. -/
  | recordOther (user : ℕ) (thread turn : String) (refused : Bool)

namespace World

/-- The user's recorded fetches since a time, refused ones apart. -/
def today (w : World) (user : ℕ) (since : ℤ) : ℕ :=
  w.log.countP fun r => r.user = user ∧ since < r.time ∧ !r.refused

/-- The turn's recorded fetches, refused ones apart. -/
def thisTurn (w : World) (user : ℕ) (thread turn : String) : ℕ :=
  w.log.countP fun r => r.user = user ∧ r.thread = thread ∧ r.turn = turn ∧ !r.refused

/-- The place of a fetch, with what was read of the log, or why it has none. -/
def place (w : World) (r : Reserving) (today thisTurn : ℕ) : Except String Counted :=
  let runningToday := w.inFlight.countP (·.user = r.user)
  let runningThisTurn :=
    w.inFlight.countP fun c => c.user = r.user ∧ c.thread = r.thread ∧ c.turn = r.turn
  if PER_TURN ≤ thisTurn + runningThisTurn then
    .error (s!"You have used all {PER_TURN} fetches one turn may make. Work with what you " ++
      "have fetched.")
  else if PER_DAY ≤ today + runningToday then
    .error (s!"Your owner has used all {PER_DAY} fetches allowed in 24 hours. Try again " ++
      "later.")
  else .ok ⟨w.next + 1, r.user, r.thread, r.turn⟩

/-- The fetch that `count` gives a place. -/
def admits (w : World) : Option Counted := do
  let r ← w.counting
  match r.stage with
  | .readTurn today thisTurn => (w.place r today thisTurn).toOption
  | _ => none

/-- The reservation under way reads the log, and counts this user's fetches. -/
def reads (w : World) (user : ℕ) : Bool :=
  w.counting.any fun r => r.user = user ∧ r.stage.reads

def rowOf (c : Counted) (time : ℤ) : Row :=
  ⟨c.user, bounded c.thread ID_CHARS, bounded c.turn ID_CHARS, false, time⟩

def step (w : World) : Action → Option World
  | .tick ms => some { w with now := w.now + ms }
  | .reserve user thread turn =>
    match w.counting with
    | some _ => none
    | none => some { w with counting := some ⟨user, thread, turn, w.now - DAY_MS, .locked⟩ }
  | .readToday =>
    match w.counting with
    | some ⟨user, thread, turn, since, .locked⟩ => some { w with
        counting := some ⟨user, thread, turn, since, .readToday (w.today user since)⟩
        unread := [] }
    | _ => none
  | .readTurn =>
    match w.counting with
    | some ⟨user, thread, turn, since, .readToday today⟩ => some { w with
        counting :=
          some ⟨user, thread, turn, since, .readTurn today (w.thisTurn user thread turn)⟩ }
    | _ => none
  | .unavailable =>
    match w.counting with
    | some _ => some { w with counting := none, unread := [] }
    | none => none
  | .count =>
    match w.counting with
    | some ⟨user, thread, turn, since, .readTurn today thisTurn⟩ =>
      match w.place ⟨user, thread, turn, since, .readTurn today thisTurn⟩ today thisTurn with
      | .error _ => some { w with counting := none, unread := [] }
      | .ok c => some { w with
          counting := none
          unread := []
          inFlight := w.inFlight ++ [c]
          next := c.id
          running := w.running ++ [c] }
    | _ => none
  | .record c time =>
    if c ∈ w.running ∧ time ≤ w.now then
      some { w with
        log := w.log ++ [rowOf c time]
        running := w.running.erase c
        recorded := w.recorded ++ [(c, time)]
        unread := if w.reads c.user then c :: w.unread else w.unread }
    else none
  | .release id =>
    if ∀ c ∈ w.running, c.id ≠ id then
      some { w with inFlight := w.inFlight.filter (·.id ≠ id) }
    else none
  | .recordOther user thread turn refused => some { w with
      log := w.log ++ [⟨user, bounded thread ID_CHARS, bounded turn ID_CHARS, refused, w.now⟩] }

end World

/-- Of the same turn. -/
def Counted.ofTurn (user : ℕ) (thread turn : String) (c : Counted) : Bool :=
  c.user = user ∧ c.thread = thread ∧ c.turn = turn

/-- A reservation's ids fit the log, and a place is released only once no reservation can have
missed its record. -/
def Plain (w : World) : Action → Prop
  | .reserve _ thread turn => thread.length ≤ ID_CHARS ∧ turn.length ≤ ID_CHARS
  | .release id => ∀ c ∈ w.unread, c.id ≠ id
  | _ => True

instance (w : World) : (a : Action) → Decidable (Plain w a)
  | .reserve _ thread turn =>
    inferInstanceAs (Decidable (thread.length ≤ ID_CHARS ∧ turn.length ≤ ID_CHARS))
  | .release id => inferInstanceAs (Decidable (∀ c ∈ w.unread, c.id ≠ id))
  | .tick _ => isTrue trivial
  | .readToday => isTrue trivial
  | .readTurn => isTrue trivial
  | .unavailable => isTrue trivial
  | .count => isTrue trivial
  | .record _ _ => isTrue trivial
  | .recordOther _ _ _ _ => isTrue trivial

section Invariant

def Short (thread turn : String) : Prop := thread.length ≤ ID_CHARS ∧ turn.length ≤ ID_CHARS

/-- The user's recorded fetches, as the reservation read them: it missed those recorded since. -/
def ReadDay (w : World) (r : Reserving) (today : ℕ) : Prop :=
  w.recorded.countP (fun x => x.1.user = r.user ∧ r.since < x.2) ≤
    today + w.unread.countP (·.user = r.user)

def ReadTurn (w : World) (r : Reserving) (thisTurn : ℕ) : Prop :=
  w.recorded.countP (fun x => x.1.ofTurn r.user r.thread r.turn) ≤
    thisTurn + w.unread.countP (Counted.ofTurn r.user r.thread r.turn)

/-- What a reservation has read. -/
def Read (w : World) (r : Reserving) : Stage → Prop
  | .locked => True
  | .readToday today => ReadDay w r today
  | .readTurn today thisTurn => ReadDay w r today ∧ ReadTurn w r thisTurn

structure Inv (w : World) : Prop where
  logged : (w.recorded.map fun x => World.rowOf x.1 x.2).Sublist w.log
  /-- What is not recorded, or was recorded since the log was read, has its place. -/
  places : List.Subperm (w.running ++ w.unread) w.inFlight
  running : ∀ c ∈ w.running, Short c.thread c.turn
  recorded : ∀ x ∈ w.recorded, Short x.1.thread x.1.turn
  since : ∀ r ∈ w.counting, r.since ≤ w.now - DAY_MS
  reserving : ∀ r ∈ w.counting, Short r.thread r.turn
  read : ∀ r ∈ w.counting, Read w r r.stage

variable {w w' : World}

theorem bounded_eq {s : String} (h : s.length ≤ ID_CHARS) : bounded s ID_CHARS = s := by
  rw [bounded, List.take_of_length_le (by rwa [String.length_toList]), String.ofList_toList]

theorem inv_new : Inv .new where
  logged := .slnil
  places := .refl _
  running := by simp [World.new]
  recorded := by simp [World.new]
  since := by simp [World.new]
  reserving := by simp [World.new]
  read := by simp [World.new]

/-- Every fetch that is recorded counts when the log is read for its user. -/
theorem Inv.readDay (h : Inv w) (r : Reserving) :
    w.recorded.countP (fun x => x.1.user = r.user ∧ r.since < x.2) ≤ w.today r.user r.since := by
  unfold World.today
  refine le_trans (le_of_eq ?_) (h.logged.countP_le)
  rw [List.countP_map]
  congr 1
  funext x
  simp [World.rowOf]

/-- And when it is read for its turn, as its ids are short. -/
theorem Inv.readTurn (h : Inv w) (r : Reserving) :
    w.recorded.countP (fun x => x.1.ofTurn r.user r.thread r.turn) ≤
      w.thisTurn r.user r.thread r.turn := by
  unfold World.thisTurn
  refine le_trans (le_of_eq ?_) (h.logged.countP_le)
  rw [List.countP_map]
  refine List.countP_congr fun x hx => ?_
  obtain ⟨hthread, hturn⟩ := h.recorded x hx
  simp [World.rowOf, Counted.ofTurn, bounded_eq hthread, bounded_eq hturn]

theorem Inv.tick (h : Inv w) (ms : ℕ) : Inv { w with now := w.now + ms } :=
  { h with
    since := fun r hr => by
      have hsince := h.since r hr
      dsimp only
      omega
    read := h.read }

theorem Inv.reserve (h : Inv w) {user : ℕ} {thread turn : String} (hshort : Short thread turn) :
    Inv { w with counting := some ⟨user, thread, turn, w.now - DAY_MS, .locked⟩ } :=
  { h with
    since := fun r hr => by
      obtain rfl := Option.some.inj hr
      exact Int.le_refl _
    reserving := fun r hr => by
      obtain rfl := Option.some.inj hr
      exact hshort
    read := fun r hr => by
      obtain rfl := Option.some.inj hr
      trivial }

theorem Inv.readToday (h : Inv w) {r : Reserving} (hr : r ∈ w.counting) :
    Inv { w with
      counting := some { r with stage := .readToday (w.today r.user r.since) }
      unread := [] } :=
  { h with
    places := by
      rw [List.append_nil]
      exact ((List.sublist_append_left _ _).subperm).trans h.places
    since := fun r' hr' => by
      obtain rfl := Option.some.inj hr'
      exact h.since r hr
    reserving := fun r' hr' => by
      obtain rfl := Option.some.inj hr'
      exact h.reserving r hr
    read := fun r' hr' => by
      obtain rfl := Option.some.inj hr'
      exact h.readDay r }

theorem Inv.readTurn_step (h : Inv w) {r : Reserving} (hr : r ∈ w.counting) {today : ℕ}
    (hstage : r.stage = .readToday today) :
    Inv { w with
      counting :=
        some { r with stage := .readTurn today (w.thisTurn r.user r.thread r.turn) } } :=
  { h with
    since := fun r' hr' => by
      obtain rfl := Option.some.inj hr'
      exact h.since r hr
    reserving := fun r' hr' => by
      obtain rfl := Option.some.inj hr'
      exact h.reserving r hr
    read := fun r' hr' => by
      obtain rfl := Option.some.inj hr'
      have hday := h.read r hr
      rw [hstage] at hday
      exact ⟨hday, Nat.le_trans (h.readTurn r) (Nat.le_add_right _ _)⟩ }

/-- The lock is released without a place. -/
theorem Inv.unlock (h : Inv w) : Inv { w with counting := none, unread := [] } :=
  { h with
    places := by
      rw [List.append_nil]
      exact ((List.sublist_append_left _ _).subperm).trans h.places
    since := by simp
    reserving := by simp
    read := by simp }

theorem Inv.admit (h : Inv w) {c : Counted} (hc : Short c.thread c.turn) :
    Inv { w with
      counting := none
      unread := []
      inFlight := w.inFlight ++ [c]
      next := c.id
      running := w.running ++ [c] } :=
  { h with
    places := by
      rw [List.append_nil]
      exact ((((List.sublist_append_left _ _).subperm).trans h.places).append (.refl [c]))
    running := fun c' hc' => by
      rcases List.mem_append.mp hc' with hc' | hc'
      · exact h.running c' hc'
      · obtain rfl := List.mem_singleton.mp hc'
        exact hc
    since := by simp
    reserving := by simp
    read := by simp }

theorem countP_snoc {α : Type*} (p : α → Bool) (l : List α) (a : α) :
    (l ++ [a]).countP p = l.countP p + if p a then 1 else 0 := by
  rw [List.countP_append, List.countP_singleton]

/-- A fetch that is recorded while a reservation reads the log is among those it may have missed. -/
theorem Inv.record (h : Inv w) {c : Counted} (hc : c ∈ w.running) (time : ℤ) :
    Inv { w with
      log := w.log ++ [World.rowOf c time]
      running := w.running.erase c
      recorded := w.recorded ++ [(c, time)]
      unread := if w.reads c.user then c :: w.unread else w.unread } where
  logged := by
    rw [List.map_append]
    exact h.logged.append (.refl _)
  places := by
    have hperm : (w.running.erase c ++ c :: w.unread).Perm (w.running ++ w.unread) :=
      List.perm_middle.trans ((List.perm_cons_erase hc).symm.append_right w.unread)
    dsimp only
    split
    · exact hperm.subperm.trans h.places
    · exact ((List.sublist_cons_self c _).append_left _).subperm.trans
        (hperm.subperm.trans h.places)
  running := fun c' hc' => h.running c' (List.mem_of_mem_erase hc')
  recorded := fun x hx => by
    rcases List.mem_append.mp hx with hx | hx
    · exact h.recorded x hx
    · obtain rfl := List.mem_singleton.mp hx
      exact h.running c hc
  since := h.since
  reserving := h.reserving
  read := fun r hr => by
    have hread := h.read r hr
    -- where the fetch counts for what the reservation read, the reservation is reading
    have hcount : ∀ (p : Counted × ℤ → Bool) (q : Counted → Bool) (n : ℕ), r.stage.reads →
        (p (c, time) → q c ∧ c.user = r.user) →
        w.recorded.countP p ≤ n + w.unread.countP q →
        (w.recorded ++ [(c, time)]).countP p ≤
          n + (if w.reads c.user then c :: w.unread else w.unread).countP q := by
      intro p q n hstage hpq hle
      rw [countP_snoc]
      have hmono : w.unread.countP q ≤
          (if w.reads c.user then c :: w.unread else w.unread).countP q := by
        split
        · exact (List.sublist_cons_self c _).countP_le
        · exact Nat.le_refl _
      by_cases hp : p (c, time)
      · obtain ⟨hq, huser⟩ := hpq hp
        have hreads : w.reads c.user := by
          have hcounting : w.counting = some r := hr
          simp [World.reads, hcounting, huser, hstage]
        rw [if_pos hp, if_pos hreads, List.countP_cons_of_pos hq]
        omega
      · rw [if_neg hp]
        omega
    cases hstage : r.stage with
    | locked => trivial
    | readToday today =>
        rw [hstage] at hread
        exact hcount _ _ _ (by rw [hstage]; rfl) (fun h => by simp_all) hread
    | readTurn today thisTurn =>
        rw [hstage] at hread
        exact ⟨hcount _ _ _ (by rw [hstage]; rfl) (fun h => by simp_all) hread.1,
          hcount _ _ _ (by rw [hstage]; rfl) (fun h => by simp_all [Counted.ofTurn]) hread.2⟩

theorem Inv.release (h : Inv w) {id : ℕ} (hrunning : ∀ c ∈ w.running, c.id ≠ id)
    (hunread : ∀ c ∈ w.unread, c.id ≠ id) :
    Inv { w with inFlight := w.inFlight.filter (·.id ≠ id) } :=
  { h with
    places := by
      have hkept : (w.running ++ w.unread).filter (·.id ≠ id) = w.running ++ w.unread := by
        refine List.filter_eq_self.mpr fun c hc => ?_
        rcases List.mem_append.mp hc with hc | hc
        · exact decide_eq_true (hrunning c hc)
        · exact decide_eq_true (hunread c hc)
      rw [← hkept]
      exact h.places.filter _
    read := h.read }

theorem Inv.recordOther (h : Inv w) (row : Row) : Inv { w with log := w.log ++ [row] } :=
  { h with
    logged := h.logged.trans (List.sublist_append_left _ _)
    read := h.read }

/-- A fetch that has a place is the one that the reservation is for. -/
theorem place_eq {r : Reserving} {today thisTurn : ℕ} {c : Counted}
    (h : w.place r today thisTurn = .ok c) : c = ⟨w.next + 1, r.user, r.thread, r.turn⟩ ∧
      thisTurn + w.inFlight.countP (Counted.ofTurn r.user r.thread r.turn) < PER_TURN ∧
      today + w.inFlight.countP (·.user = r.user) < PER_DAY := by
  unfold World.place at h
  dsimp only at h
  split at h
  · cases h
  · next hturn =>
    split at h
    · cases h
    · next hday => exact ⟨(Except.ok.inj h).symm, Nat.lt_of_not_le hturn, Nat.lt_of_not_le hday⟩

theorem inv_step {a : Action} (hplain : Plain w a) (h : Inv w) (hstep : w.step a = some w') :
    Inv w' := by
  cases a with
  | tick ms =>
      obtain rfl := Option.some.inj hstep
      exact h.tick ms
  | reserve user thread turn =>
      simp only [World.step] at hstep
      split at hstep
      · cases hstep
      · obtain rfl := Option.some.inj hstep
        exact h.reserve hplain
  | readToday =>
      simp only [World.step] at hstep
      split at hstep
      · next hr =>
        obtain rfl := Option.some.inj hstep
        exact h.readToday hr
      · cases hstep
  | readTurn =>
      simp only [World.step] at hstep
      split at hstep
      · next hr =>
        obtain rfl := Option.some.inj hstep
        exact h.readTurn_step hr rfl
      · cases hstep
  | unavailable =>
      simp only [World.step] at hstep
      split at hstep
      · obtain rfl := Option.some.inj hstep
        exact h.unlock
      · cases hstep
  | count =>
      simp only [World.step] at hstep
      split at hstep
      · next hr =>
        split at hstep
        · obtain rfl := Option.some.inj hstep
          exact h.unlock
        · next c hc =>
          obtain rfl := Option.some.inj hstep
          obtain ⟨rfl, -, -⟩ := place_eq hc
          exact h.admit (h.reserving _ hr)
      · cases hstep
  | record c time =>
      obtain ⟨⟨hc, -⟩, hstep⟩ := Option.ite_none_right_eq_some.mp hstep
      obtain rfl := Option.some.inj hstep
      exact h.record hc time
  | release id =>
      obtain ⟨hrunning, hstep⟩ := Option.ite_none_right_eq_some.mp hstep
      obtain rfl := Option.some.inj hstep
      exact h.release hrunning hplain
  | recordOther user thread turn refused =>
      obtain rfl := Option.some.inj hstep
      exact h.recordOther _

end Invariant

section Limits

/-- How many fetches of a turn were admitted. -/
def World.turnFetches (w : World) (user : ℕ) (thread turn : String) : ℕ :=
  w.running.countP (Counted.ofTurn user thread turn) +
    w.recorded.countP fun x => x.1.ofTurn user thread turn

/-- How many fetches of a user are running, or were recorded within 24 hours. -/
def World.dayFetches (w : World) (user : ℕ) : ℕ :=
  w.running.countP (·.user = user) +
    w.recorded.countP fun x => x.1.user = user ∧ w.now - DAY_MS < x.2

/-- A fetch that is admitted finds at most 59 others of its turn, and 499 of its user's day. -/
def World.Within (w : World) (c : Counted) : Prop :=
  w.turnFetches c.user c.thread c.turn ≤ 59 ∧ w.dayFetches c.user ≤ 499

variable {w : World} {c : Counted}

theorem admits_eq (hc : w.admits = some c) : ∃ r ∈ w.counting, ∃ today thisTurn,
    r.stage = .readTurn today thisTurn ∧ w.place r today thisTurn = .ok c := by
  obtain ⟨r, hr, hc⟩ := Option.bind_eq_some_iff.mp hc
  refine ⟨r, hr, ?_⟩
  split at hc
  · next today thisTurn hstage =>
    refine ⟨today, thisTurn, hstage, ?_⟩
    cases hplace : w.place r today thisTurn with
    | error e => simp [hplace, Except.toOption] at hc
    | ok c' => simpa [hplace, Except.toOption] using hc
  · cases hc

/-- What has its place counts in memory, and what has not was read from the log. -/
theorem Inv.within (h : Inv w) (hc : w.admits = some c) : w.Within c := by
  obtain ⟨r, hr, today, thisTurn, hstage, hplace⟩ := admits_eq hc
  obtain ⟨rfl, hturn, hday⟩ := place_eq hplace
  have hread := h.read r hr
  rw [hstage] at hread
  obtain ⟨hreadDay, hreadTurn⟩ := hread
  have hplaces : ∀ p : Counted → Bool,
      w.running.countP p + w.unread.countP p ≤ w.inFlight.countP p := by
    intro p
    rw [← List.countP_append]
    exact h.places.countP_le p
  constructor
  · have hmemory := hplaces (Counted.ofTurn r.user r.thread r.turn)
    unfold ReadTurn at hreadTurn
    unfold World.turnFetches
    unfold PER_TURN at hturn
    dsimp only
    omega
  · have hmemory := hplaces (·.user = r.user)
    have hwindow : w.recorded.countP (fun x => x.1.user = r.user ∧ w.now - DAY_MS < x.2) ≤
        w.recorded.countP (fun x => x.1.user = r.user ∧ r.since < x.2) := by
      refine List.countP_mono_left fun x _ hx => ?_
      have hsince := h.since r hr
      simp only [decide_eq_true_eq] at hx ⊢
      exact ⟨hx.1, by omega⟩
    unfold ReadDay at hreadDay
    unfold World.dayFetches
    unfold PER_DAY at hday
    dsimp only
    omega

theorem fetches_limited {as : List Action} (hrun : Runs.Run
    (fun w a w' => w.step a = some w' ∧ Plain w a) .new as w) (hc : w.admits = some c) :
    w.Within c := by
  refine Inv.within (hrun.invariant (fun w a w' h hstep => ?_) inv_new) hc
  exact inv_step hstep.2 h hstep.1

/-- One fetch, counted, made, recorded and released. -/
def fetch (id user : ℕ) (thread turn : String) : List Action :=
  [.reserve user thread turn, .readToday, .readTurn, .count, .record ⟨id, user, thread, turn⟩ 0,
    .release id]

/-- A second fetch of a turn, once the first is recorded. -/
theorem fetches_limited_second : ∃ w, World.Within w ⟨2, 1, "thread", "turn"⟩ := by
  let as := fetch 1 1 "thread" "turn" ++ [.reserve 1 "thread" "turn", .readToday, .readTurn]
  have hexec : (Runs.exec (fun w a => if decide (Plain w a) then w.step a else none) .new
      as).bind World.admits = some ⟨2, 1, "thread", "turn"⟩ := rfl
  obtain ⟨w, hw, hadmits⟩ := Option.bind_eq_some_iff.mp hexec
  exact ⟨w, fetches_limited
    (Runs.run_of_exec_checked (fun _ _ h => of_decide_eq_true h) hw) hadmits⟩

end Limits

section LongIds

/-- An id that the log cuts. -/
def longThread : String := String.ofList (List.replicate (ID_CHARS + 1) 'a')

/-- After fetches, one by one, of a turn of a thread with a long id. -/
def fetched (n : ℕ) : World where
  now := 0
  log := List.replicate n (World.rowOf ⟨0, 1, longThread, "turn"⟩ 0)
  inFlight := []
  next := n
  counting := none
  running := []
  recorded := (List.range n).map fun i => (⟨i + 1, 1, longThread, "turn"⟩, 0)
  unread := []

theorem length_bounded_le (text : String) (chars : ℕ) : (bounded text chars).length ≤ chars := by
  rw [bounded, String.length_ofList]
  exact List.length_take_le _ _

theorem bounded_longThread : bounded longThread ID_CHARS ≠ longThread := by
  intro h
  have hcut := length_bounded_le longThread ID_CHARS
  have hlong : longThread.length = ID_CHARS + 1 :=
    String.length_ofList.trans List.length_replicate
  rw [h, hlong] at hcut
  exact Nat.not_succ_le_self _ hcut

theorem today_fetched (n : ℕ) : (fetched n).today 1 (-DAY_MS) = n := by
  unfold World.today fetched
  rw [List.countP_replicate]
  simp [World.rowOf, DAY_MS, Accounts.HOUR_MS]

/-- None of them is found again. -/
theorem thisTurn_fetched (n : ℕ) : (fetched n).thisTurn 1 longThread "turn" = 0 := by
  unfold World.thisTurn fetched
  rw [List.countP_replicate]
  simp [World.rowOf, bounded_longThread]

/-- The fetch that follows is counted. -/
def counting (n : ℕ) (stage : Stage) : World :=
  { fetched n with counting := some ⟨1, longThread, "turn", -DAY_MS, stage⟩ }

/-- A reservation of the next fetch, up to where memory is read. -/
theorem exec_reserve (n : ℕ) :
    Runs.exec World.step (fetched n) [.reserve 1 longThread "turn", .readToday, .readTurn] =
      some (counting n (.readTurn n 0)) := by
  have hreserve : (fetched n).step (.reserve 1 longThread "turn") =
      some (counting n .locked) := rfl
  have htoday : (counting n .locked).step .readToday =
      some (counting n (.readToday ((fetched n).today 1 (-DAY_MS)))) := rfl
  have hturn : (counting n (.readToday n)).step .readTurn =
      some (counting n (.readTurn n ((fetched n).thisTurn 1 longThread "turn"))) := rfl
  rw [today_fetched] at htoday
  rw [thisTurn_fetched] at hturn
  simp only [Runs.exec, hreserve, htoday, hturn, Option.bind_some]

theorem admits_counting {n : ℕ} (hn : n < PER_DAY) :
    (counting n (.readTurn n 0)).admits = some ⟨n + 1, 1, longThread, "turn"⟩ := by
  have hday : ¬ PER_DAY ≤ n := by omega
  simp [World.admits, counting, World.place, fetched, hday, PER_TURN, Except.toOption]

theorem exec_fetch {n : ℕ} (hn : n < PER_DAY) :
    Runs.exec World.step (fetched n) (fetch (n + 1) 1 longThread "turn") =
      some (fetched (n + 1)) := by
  have hday : ¬ PER_DAY ≤ n := by omega
  have hsplit : fetch (n + 1) 1 longThread "turn" =
      [.reserve 1 longThread "turn", .readToday, .readTurn] ++
        [.count, .record ⟨n + 1, 1, longThread, "turn"⟩ 0, .release (n + 1)] := rfl
  rw [hsplit, Runs.exec_append, exec_reserve, Option.bind_some]
  simp [Runs.exec, World.step, counting, World.place, fetched, hday, PER_TURN, World.reads,
    World.rowOf, List.replicate_succ', List.range_succ]

theorem turnFetches_counting (n : ℕ) (stage : Stage) :
    (counting n stage).turnFetches 1 longThread "turn" = n := by
  have hall : (fetched n).recorded.countP (fun x => x.1.ofTurn 1 longThread "turn") =
      (fetched n).recorded.length := by
    refine List.countP_eq_length.mpr fun x hx => ?_
    obtain ⟨i, -, rfl⟩ := List.mem_map.mp hx
    simp [Counted.ofTurn]
  have hlength : (fetched n).recorded.length = n := by simp [fetched]
  calc (counting n stage).turnFetches 1 longThread "turn"
      = 0 + (fetched n).recorded.countP (fun x => x.1.ofTurn 1 longThread "turn") := rfl
    _ = n := by rw [hall, hlength, Nat.zero_add]

/-- Any number up to the day's. -/
theorem exec_fetches {n : ℕ} (hn : n ≤ PER_DAY) : ∃ as,
    Runs.exec World.step .new as = some (fetched n) := by
  induction n with
  | zero => exact ⟨[], rfl⟩
  | succ n ih =>
      obtain ⟨as, has⟩ := ih (Nat.le_of_succ_le hn)
      refine ⟨as ++ fetch (n + 1) 1 longThread "turn", ?_⟩
      rw [Runs.exec_append, has, Option.bind_some]
      exact exec_fetch hn

/-- The sixty-first fetch of the turn is admitted. -/
theorem long_thread_unlimited : ¬ ∀ (as : List Action) (w : World) (c : Counted),
    Runs.exec World.step .new as = some w → w.admits = some c → w.Within c := by
  intro h
  obtain ⟨as, has⟩ := exec_fetches (n := 60) (by decide)
  have hexec : Runs.exec World.step .new
      (as ++ [.reserve 1 longThread "turn", .readToday, .readTurn]) =
        some (counting 60 (.readTurn 60 0)) := by
    rw [Runs.exec_append, has, Option.bind_some]
    exact exec_reserve 60
  obtain ⟨hturn, -⟩ := h _ _ _ hexec (admits_counting (by decide))
  rw [turnFetches_counting] at hturn
  omega

end LongIds

end FetchLimits

end Bokkie
