import Bokkie.Accounts
import Bokkie.SlidingWindow
import Std.Data.ExtTreeMap
import Std.Data.String.ToNat

/-!
# The limit on guessing

Attempts on passwords and invitation codes are counted by key over a sliding window. An attempt is
counted when it begins and taken back when it succeeds, so attempts that run at once cannot all slip
past a limit.
-/

namespace Bokkie

/-- What an attempt is limited by. -/
inductive Attempting where
  | signIn (username address : String) (accountExists : Bool)
  | invitation (address : String)
  | passwordChange (user : ℕ)
deriving DecidableEq

/-- One limited thing. -/
structure Key where
  name : String
  limit : ℕ
  /-- Success clears the key entirely. -/
  clear : Bool
  /-- Its count is stored in the database. -/
  stored : Bool
deriving DecidableEq

/-- A change to the counts, as the database is to keep it. -/
inductive LoginLimiter.Change where
  | counted (keys : List String) (time : ℤ)
  | cleared (key : String)
  | takenBack (key : String) (time : ℤ)
deriving DecidableEq

/-- A counted attempt. -/
structure Attempt where
  keys : List Key
  time : ℤ
deriving DecidableEq

abbrev Failures := Std.ExtTreeMap String (List ℤ) compare

/-- The order in which a hash map gives the entries it holds: any. -/
structure LoginLimiter.Order where
  entries : Failures → List (String × List ℤ)
  perm : ∀ failures, (entries failures).Perm failures.toList

structure LoginLimiter where
  failures : Failures
  /-- The changes sent to the database. -/
  changes : List LoginLimiter.Change
  order : LoginLimiter.Order

namespace LoginLimiter

open Accounts SlidingWindow

def WINDOW_MS : ℤ := 15 * 60000

def PER_ACCOUNT : ℕ := 5

def PER_ADDRESS : ℕ := 20

def MAX_KEYS : ℕ := 10000

def Order.byName : Order := ⟨fun failures => failures.toList, fun _ => .refl _⟩

def initial (order : Order) : LoginLimiter := ⟨∅, [], order⟩

def usernameLimit (username : String) (accountExists : Bool) : Key :=
  ⟨"u:" ++ usernameKey username, PER_ACCOUNT, true, accountExists⟩

def addressLimit (address : String) : Key := ⟨"a:" ++ address, PER_ADDRESS, false, true⟩

def passwordLimit (user : ℕ) : Key := ⟨"p:" ++ toString user, PER_ACCOUNT, true, true⟩

def keys : Attempting → List Key
  | .signIn username address accountExists =>
    [usernameLimit username accountExists, addressLimit address]
  | .invitation address => [addressLimit address]
  | .passwordChange user => [passwordLimit user]

/-- Drops what is too old from each key's times, up to the first key at its limit, with whether there
is none. -/
def belowLimits (now : ℤ) (failures : Failures) : List Key → Bool × Failures
  | [] => (true, failures)
  | key :: keys =>
    match failures[key.name]? with
    | none => belowLimits now failures keys
    | some times =>
      let times := expire WINDOW_MS now times
      let failures := failures.insert key.name times
      if key.limit ≤ times.length then (false, failures) else belowLimits now failures keys

/-- The last of some times is older than that of others; no time at all is the oldest. -/
def endsBefore (times others : List ℤ) : Bool :=
  match times.getLast?, others.getLast? with
  | none, some _ => true
  | some time, some other => time < other
  | _, none => false

/-- The key whose last time is the oldest, the first one of several. -/
def oldest (order : Order) (failures : Failures) : Option String :=
  ((order.entries failures).foldl (fun found entry =>
    match found with
    | none => some entry
    | some other => if endsBefore entry.2 other.2 then some entry else some other) none).map
      Prod.fst

/-- Removes the oldest keys, at most `fuel` of them, while there is no room for more keys. -/
def evict (room : ℕ) : ℕ → LoginLimiter → LoginLimiter
  | 0, l => l
  | fuel + 1, l =>
    if MAX_KEYS < l.failures.size + room then
      match oldest l.order l.failures with
      | none => l
      | some key =>
        evict room fuel
          { l with failures := l.failures.erase key, changes := l.changes ++ [.cleared key] }
    else l

/-- The key's last time still counts. -/
def isLive (now : ℤ) (times : List ℤ) : Bool := times.getLast?.any fun time => now - time < WINDOW_MS

def makeRoom (l : LoginLimiter) (now : ℤ) (room : ℕ) : LoginLimiter :=
  if MAX_KEYS < l.failures.size + room then
    let failures := l.failures.filter fun _ times => isLive now times
    evict room failures.size { l with failures := failures }
  else l

def push (now : ℤ) (failures : Failures) (key : Key) : Failures :=
  failures.insert key.name (failures[key.name]?.getD [] ++ [now])

/-- Counts an attempt, or refuses it when any of its keys is at its limit. -/
def begin (l : LoginLimiter) (attempting : Attempting) (now : ℤ) : Option Attempt × LoginLimiter :=
  let keys := keys attempting
  let (below, failures) := belowLimits now l.failures keys
  let l := { l with failures := failures }
  if !below then (none, l)
  else
    let l := l.makeRoom now keys.length
    (some ⟨keys, now⟩, { l with
      failures := keys.foldl (push now) l.failures
      changes := l.changes ++ [.counted ((keys.filter (·.stored)).map (·.name)) now] })

/-- What success does to one key: its own key forgets all failures, a shared one only this one. -/
def takeBack (time : ℤ) (l : LoginLimiter) (key : Key) : LoginLimiter :=
  if key.clear then
    { l with
      failures := l.failures.erase key.name
      changes := if key.stored then l.changes ++ [.cleared key.name] else l.changes }
  else
    match l.failures[key.name]? with
    | none => l
    | some times =>
      if time ∈ times then
        { l with
          failures := l.failures.insert key.name (times.erase time)
          changes := if key.stored then l.changes ++ [.takenBack key.name time] else l.changes }
      else l

/-- Takes back a successful attempt. -/
def succeeded (l : LoginLimiter) (attempt : Attempt) : LoginLimiter :=
  attempt.keys.foldl (takeBack attempt.time) l

/-- The times counted for a key. -/
def timesOf (failures : Failures) (name : String) : List ℤ := failures[name]?.getD []

@[simp] theorem timesOf_insert {failures : Failures} {name other : String} {times : List ℤ} :
    timesOf (failures.insert name times) other =
      if name = other then times else timesOf failures other := by
  unfold timesOf
  rw [Std.ExtTreeMap.getElem?_insert]
  simp only [Std.LawfulEqCmp.compare_eq_iff_eq]
  split <;> rfl

@[simp] theorem timesOf_erase {failures : Failures} {name other : String} :
    timesOf (failures.erase name) other = if name = other then [] else timesOf failures other := by
  unfold timesOf
  rw [Std.ExtTreeMap.getElem?_erase]
  simp only [Std.LawfulEqCmp.compare_eq_iff_eq]
  split <;> rfl

theorem keys_pos {attempting : Attempting} {key : Key} (h : key ∈ keys attempting) :
    0 < key.limit := by
  cases attempting with
  | signIn username address accountExists =>
      rcases List.mem_pair.mp h with rfl | rfl
      · exact (by decide : 0 < PER_ACCOUNT)
      · exact (by decide : 0 < PER_ADDRESS)
  | invitation address =>
      obtain rfl := List.mem_singleton.mp h
      exact (by decide : 0 < PER_ADDRESS)
  | passwordChange user =>
      obtain rfl := List.mem_singleton.mp h
      exact (by decide : 0 < PER_ACCOUNT)

section Names

variable {username username' address address' : String} {user user' : ℕ} {exists' : Bool}

theorem usernameLimit_ne_addressLimit :
    (usernameLimit username exists').name ≠ (addressLimit address).name := by
  intro h
  have := congrArg (fun s => s.toList.head?) h
  simp [usernameLimit, addressLimit] at this

theorem passwordLimit_inj (h : (passwordLimit user).name = (passwordLimit user').name) :
    user = user' :=
  Nat.repr_injective (String.append_right_inj _ |>.mp h)

end Names

/-! What checking and counting do to the times of each key. -/

section Times

variable {failures : Failures} {now : ℤ} {ks : List Key} {name : String}

theorem timesOf_of_getElem? {times : List ℤ} (h : failures[name]? = some times) :
    timesOf failures name = times := by rw [timesOf, h, Option.getD_some]

theorem timesOf_belowLimits (now : ℤ) (failures : Failures) (ks : List Key) (name : String) :
    timesOf (belowLimits now failures ks).2 name = timesOf failures name ∨
      timesOf (belowLimits now failures ks).2 name =
        expire WINDOW_MS now (timesOf failures name) := by
  induction ks generalizing failures with
  | nil => exact .inl rfl
  | cons key ks ih =>
      rw [belowLimits]
      cases hget : failures[key.name]? with
      | none => exact ih failures
      | some times =>
          simp only
          have hinsert : timesOf (failures.insert key.name (expire WINDOW_MS now times)) name =
              timesOf failures name ∨
              timesOf (failures.insert key.name (expire WINDOW_MS now times)) name =
                expire WINDOW_MS now (timesOf failures name) := by
            rw [timesOf_insert]
            split
            · next heq => exact .inr (by rw [← heq, timesOf_of_getElem? hget])
            · exact .inl rfl
          split
          · exact hinsert
          · rcases ih (failures.insert key.name (expire WINDOW_MS now times)) with hrest | hrest
            · rw [hrest]
              exact hinsert
            · rw [hrest]
              rcases hinsert with heq | heq
              · exact .inr (by rw [heq])
              · exact .inr (by rw [heq, expire_expire])

/-- The check passes just when every key is below its limit. -/
theorem belowLimits_iff (hpos : ∀ key ∈ ks, 0 < key.limit) :
    (belowLimits now failures ks).1 = true ↔
      ∀ key ∈ ks, (expire WINDOW_MS now (timesOf failures key.name)).length < key.limit := by
  induction ks generalizing failures with
  | nil => simp [belowLimits]
  | cons key ks ih =>
      have hpos' : ∀ key ∈ ks, 0 < key.limit := fun k hk => hpos k (List.mem_cons_of_mem _ hk)
      rw [belowLimits, List.forall_mem_cons]
      cases hget : failures[key.name]? with
      | none =>
          have hnil : timesOf failures key.name = [] := by rw [timesOf, hget, Option.getD_none]
          have hkey := hpos key List.mem_cons_self
          simp only
          rw [ih hpos', hnil]
          exact (and_iff_right hkey).symm
      | some times =>
          simp only
          rw [timesOf_of_getElem? hget]
          by_cases hlimit : key.limit ≤ (expire WINDOW_MS now times).length
          · rw [if_pos hlimit]
            simp only [Bool.false_eq_true, false_iff, not_and]
            omega
          · rw [if_neg hlimit, ih hpos', and_iff_right (by omega)]
            refine forall₂_congr fun other _ => ?_
            rw [timesOf_insert]
            split
            · next heq => rw [expire_expire, ← heq, timesOf_of_getElem? hget]
            · rfl

theorem timesOf_pushAll (hnodup : (ks.map (·.name)).Nodup) :
    timesOf (ks.foldl (push now) failures) name =
      if name ∈ ks.map (·.name) then timesOf failures name ++ [now] else timesOf failures name := by
  induction ks generalizing failures with
  | nil => rfl
  | cons key ks ih =>
      obtain ⟨hkey, hnodup⟩ := List.nodup_cons.mp hnodup
      rw [List.foldl_cons, ih hnodup, push, timesOf_insert]
      by_cases heq : key.name = name
      · subst heq
        simp [hkey, timesOf]
      · have hne : name ≠ key.name := fun h => heq h.symm
        simp [heq, hne]

end Times

/-- What the limiter holds for each key are the times counted for it, up to some too old to
matter. -/
def Follows (l : LoginLimiter) (now : ℤ) (counts : String → List ℤ) : Prop :=
  ∀ name, SlidingWindow.Tracks WINDOW_MS now (timesOf l.failures name) (counts name)

section Follows

variable {l : LoginLimiter} {failures : Failures} {now : ℤ} {counts : String → List ℤ}
  {attempting : Attempting} {ks : List Key}

theorem follows_initial (order : Order) (now : ℤ) : Follows (initial order) now fun _ => [] :=
  fun _ => SlidingWindow.Tracks.nil

theorem Follows.later {now' : ℤ} (h : Follows l now counts) (hle : now ≤ now') :
    Follows l now' counts := fun name => (h name).later hle

/-- The check of the keys drops only what is too old, and finds whether one is at its limit. -/
theorem belowLimits_spec (hpos : ∀ key ∈ ks, 0 < key.limit)
    (h : ∀ name, SlidingWindow.Tracks WINDOW_MS now (timesOf failures name) (counts name)) :
    (∀ name,
      SlidingWindow.Tracks WINDOW_MS now (timesOf (belowLimits now failures ks).2 name)
        (counts name)) ∧
      ((belowLimits now failures ks).1 = true ↔
        ∀ key ∈ ks, (live WINDOW_MS now (counts key.name)).length < key.limit) := by
  constructor
  · intro name
    rcases timesOf_belowLimits now failures ks name with heq | heq
    · rw [heq]
      exact h name
    · rw [heq]
      exact (h name).expire.1
  · simp only [belowLimits_iff hpos, (h _).expire.2]

/-- The keys of which something still counts. -/
def liveKeys (now : ℤ) (failures : Failures) : Failures :=
  failures.filter fun _ times => isLive now times

/-- The keys still counted leave room for more, so none of them has to go. -/
def HasRoom (l : LoginLimiter) (now : ℤ) (room : ℕ) : Prop :=
  (liveKeys now l.failures).size + room ≤ MAX_KEYS

theorem isLive_iff {times : List ℤ} (h : times.Pairwise (· ≤ ·)) :
    isLive now times = true ↔ live WINDOW_MS now times ≠ [] := by
  unfold isLive
  rw [Ne, live, List.filter_eq_nil_iff]
  cases hlast : times.getLast? with
  | none =>
      obtain rfl := List.getLast?_eq_none_iff.mp hlast
      simp
  | some last =>
      have hmem := List.mem_of_getLast? hlast
      have hne := List.ne_nil_of_mem hmem
      obtain rfl : times.getLast hne = last :=
        Option.some.inj ((List.getLast?_eq_some_getLast hne).symm.trans hlast)
      simp only [Option.any_some, decide_eq_true_eq, not_forall]
      constructor
      · intro hlive
        exact ⟨_, hmem, by omega⟩
      · rintro ⟨t, ht, hlive⟩
        have := h.rel_getLast ht
        omega

theorem isLive_expire (now : ℤ) {times : List ℤ} (h : times.Pairwise (· ≤ ·)) :
    isLive now (expire WINDOW_MS now times) = isLive now times := by
  have hsorted : (live WINDOW_MS now times).Pairwise (· ≤ ·) := h.filter _
  rw [expire_eq_live h, Bool.eq_iff_iff, isLive_iff h, isLive_iff hsorted]
  simp only [live, List.filter_filter, Bool.and_self]

theorem size_liveKeys_insert {name : String} {times times' : List ℤ}
    (hget : failures[name]? = some times) (hlive : isLive now times' = isLive now times) :
    (liveKeys now (failures.insert name times')).size = (liveKeys now failures).size := by
  unfold liveKeys
  by_cases h : isLive now times = true
  · have heq : (failures.insert name times').filter (fun _ times => isLive now times) =
        (failures.filter fun _ times => isLive now times).insert name times' := by
      refine Std.ExtTreeMap.ext_getElem? fun other => ?_
      simp only [Std.ExtTreeMap.getElem?_filter', Std.ExtTreeMap.getElem?_insert]
      split
      · simp [hlive, h]
      · rfl
    have hmem : name ∈ failures.filter fun _ times => isLive now times := by
      rw [Std.ExtTreeMap.mem_iff_isSome_getElem?, Std.ExtTreeMap.getElem?_filter', hget]
      simp [h]
    rw [heq, Std.ExtTreeMap.size_insert, if_pos (Std.ExtTreeMap.contains_iff_mem.mpr hmem)]
  · refine congrArg _ (Std.ExtTreeMap.ext_getElem? fun other => ?_)
    simp only [Std.ExtTreeMap.getElem?_filter', Std.ExtTreeMap.getElem?_insert]
    split
    · next heq =>
        obtain rfl := Std.LawfulEqCmp.eq_of_compare heq
        have hnot : isLive now times = false := Bool.eq_false_iff.mpr h
        rw [hget, Option.filter_some_neg (hlive.trans hnot), Option.filter_some_neg hnot]
    · rfl

theorem size_liveKeys_belowLimits (now : ℤ)
    (h : ∀ key ∈ ks, (timesOf failures key.name).Pairwise (· ≤ ·)) :
    (liveKeys now (belowLimits now failures ks).2).size = (liveKeys now failures).size := by
  induction ks generalizing failures with
  | nil => rfl
  | cons key ks ih =>
      obtain ⟨hkey, hks⟩ := List.forall_mem_cons.mp h
      rw [belowLimits]
      cases hget : failures[key.name]? with
      | none => exact ih hks
      | some times =>
          rw [timesOf_of_getElem? hget] at hkey
          have hsize := size_liveKeys_insert hget (isLive_expire now hkey)
          simp only
          split
          · exact hsize
          · refine (ih fun other hother => ?_).trans hsize
            rw [timesOf_insert]
            split
            · exact hkey.sublist (List.dropWhile_sublist _)
            · exact hks other hother

theorem timesOf_liveKeys (name : String) : timesOf (liveKeys now failures) name =
    if isLive now (timesOf failures name) then timesOf failures name else [] := by
  have hfilter : ∀ found : Option (List ℤ), (found.filter (isLive now)).getD [] =
      if isLive now (found.getD []) then found.getD [] else [] := by
    intro found
    cases found with
    | none => rfl
    | some times =>
        rw [Option.filter_some, Option.getD_some]
        split <;> rfl
  rw [timesOf, liveKeys, Std.ExtTreeMap.getElem?_filter']
  exact hfilter failures[name]?

/-- With room for more keys, only those of which nothing counts can go. -/
theorem makeRoom_of_hasRoom {room : ℕ} (hroom : HasRoom l now room) :
    l.makeRoom now room = l ∨
      l.makeRoom now room = { l with failures := liveKeys now l.failures } := by
  unfold LoginLimiter.makeRoom
  split
  · have hevict : ∀ fuel, evict room fuel { l with failures := liveKeys now l.failures } =
        { l with failures := liveKeys now l.failures } := by
      intro fuel
      cases fuel with
      | zero => rfl
      | succ fuel => exact if_neg (Nat.not_lt.mpr hroom)
    exact .inr (hevict _)
  · exact .inl rfl

theorem Follows.makeRoom {room : ℕ} (h : Follows l now counts) (hroom : HasRoom l now room) :
    Follows (l.makeRoom now room) now counts := by
  rcases makeRoom_of_hasRoom hroom with heq | heq
  · rw [heq]
    exact h
  · rw [heq]
    intro name
    rw [timesOf_liveKeys]
    split
    · exact h name
    · next hlive =>
        refine (h name).drop fun t ht => ?_
        rw [isLive, Option.mem_def.mp ht, Option.any_some, decide_eq_true_eq] at hlive
        omega

theorem push_tracks
    (h : ∀ name, SlidingWindow.Tracks WINDOW_MS now (timesOf failures name) (counts name))
    (hnodup : (ks.map (·.name)).Nodup) (name : String) :
    SlidingWindow.Tracks WINDOW_MS now (timesOf (ks.foldl (push now) failures) name)
      (if name ∈ ks.map (·.name) then counts name ++ [now] else counts name) := by
  rw [timesOf_pushAll hnodup]
  split
  · exact (h name).push (by decide)
  · exact h name

theorem keys_nodup : ((keys attempting).map (·.name)).Nodup := by
  cases attempting with
  | signIn username address accountExists =>
      exact List.nodup_cons.mpr ⟨by simpa using usernameLimit_ne_addressLimit,
        List.nodup_singleton _⟩
  | invitation address => exact List.nodup_singleton _
  | passwordChange user => exact List.nodup_singleton _

/-- The counts after an attempt began. -/
def countsWith (counts : String → List ℤ) (attempting : Attempting) (now : ℤ) (name : String) :
    List ℤ :=
  if name ∈ (keys attempting).map (·.name) then counts name ++ [now] else counts name

/-- An attempt is refused exactly when one of its keys is at its limit, and else counted for all of
them. -/
theorem Follows.begin (h : Follows l now counts) (hroom : HasRoom l now (keys attempting).length) :
    ((l.begin attempting now).1 = none ∧ Follows (l.begin attempting now).2 now counts ∧
        ∃ key ∈ keys attempting, key.limit ≤ (live WINDOW_MS now (counts key.name)).length) ∨
      ((l.begin attempting now).1 = some ⟨keys attempting, now⟩ ∧
        Follows (l.begin attempting now).2 now (countsWith counts attempting now) ∧
        ∀ key ∈ keys attempting, (live WINDOW_MS now (counts key.name)).length < key.limit) := by
  have hpos : ∀ key ∈ keys attempting, 0 < key.limit := fun _ hkey => keys_pos hkey
  have hspec := belowLimits_spec hpos h
  have hsize := size_liveKeys_belowLimits now fun key (_ : key ∈ keys attempting) =>
    (h key.name).sorted
  unfold LoginLimiter.begin
  cases hbelow : belowLimits now l.failures (keys attempting) with
  | mk below failures =>
      simp only [hbelow] at hspec hsize ⊢
      cases below with
      | false =>
          refine .inl ⟨rfl, hspec.1, ?_⟩
          have hnot := mt hspec.2.mpr Bool.false_ne_true
          push Not at hnot
          exact hnot
      | true =>
          refine .inr ⟨rfl, ?_, hspec.2.mp rfl⟩
          have hfollows : Follows { l with failures := failures } now counts := hspec.1
          have hroom' : HasRoom { l with failures := failures } now (keys attempting).length := by
            unfold HasRoom at hroom ⊢
            rwa [hsize]
          exact fun name => push_tracks (hfollows.makeRoom hroom') keys_nodup name

/-- The counts after an attempt was taken back for one key. -/
def countsWithout (time : ℤ) (counts : String → List ℤ) (key : Key) (name : String) : List ℤ :=
  if key.name = name then if key.clear then [] else (counts name).erase time else counts name

theorem timesOf_takeBack {key : Key} {time : ℤ} {name : String} :
    timesOf (l.takeBack time key).failures name =
      countsWithout time (timesOf l.failures) key name := by
  unfold LoginLimiter.takeBack countsWithout
  split
  · exact timesOf_erase
  · cases hget : l.failures[key.name]? with
    | none =>
        simp only
        split
        · next heq =>
            subst heq
            simp only [timesOf, hget, Option.getD_none, List.erase_nil]
        · rfl
    | some times =>
        have htimes := timesOf_of_getElem? hget
        simp only
        by_cases hmem : time ∈ times
        · rw [if_pos hmem, timesOf_insert]
          split
          · next heq => rw [← heq, htimes]
          · rfl
        · rw [if_neg hmem]
          split
          · next heq => rw [← heq, htimes, List.erase_of_not_mem hmem]
          · rfl

theorem Follows.takeBack {key : Key} {time : ℤ} (h : Follows l now counts) :
    Follows (l.takeBack time key) now (countsWithout time counts key) := by
  intro name
  rw [timesOf_takeBack, countsWithout, countsWithout]
  split
  · split
    · exact SlidingWindow.Tracks.nil
    · exact (h name).erase time
  · exact h name

theorem Follows.succeeded {attempt : Attempt} (h : Follows l now counts) :
    Follows (l.succeeded attempt) now
      (attempt.keys.foldl (countsWithout attempt.time) counts) := by
  unfold LoginLimiter.succeeded
  induction attempt.keys generalizing l counts with
  | nil => exact h
  | cons key ks ih => exact ih h.takeBack

end Follows

end LoginLimiter

end Bokkie
