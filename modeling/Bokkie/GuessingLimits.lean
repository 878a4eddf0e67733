import Bokkie.AccountRoutes

/-!
# Guessing is limited

How many guesses get through the limiter: attempts admitted in any one window that bring a wrong
secret, for a username and a user since the secret was last proved, and for an address. The limiter
counts an attempt before its secret is checked, so what its routes take back decides.
-/

namespace Bokkie.Accounts

open Tasks Journal LoginLimiter SlidingWindow

def names (attempting : Attempting) : List String := (keys attempting).map (·.name)

namespace AccountEvent

/-- The task whose attempt an event is about. -/
def attemptTask : AccountEvent → Option ℕ
  | .began task _ _ _ | .succeeded task _ | .verified task _ | .lookedUp task _ => some task
  | _ => none

/-- Success cleared the key. -/
def clears (name : String) : AccountEvent → Bool
  | .succeeded _ attempt => attempt.keys.any fun key => key.name = name ∧ key.clear
  | _ => false

/-- Success took the task's attempt back from a shared key. -/
def takesBack (name : String) (task : ℕ) : AccountEvent → Bool
  | .succeeded task' attempt =>
    task' = task ∧ attempt.keys.any fun key => key.name = name ∧ !key.clear
  | _ => false

/-- The attempt an event counts for a key, unless it has been taken back. -/
def count (journal : List AccountEvent) (name : String) : AccountEvent → Option (ℕ × ℤ)
  | .began task attempting now true =>
    if name ∈ names attempting ∧ !journal.any (takesBack name task) then some (task, now) else none
  | _ => none

end AccountEvent

open AccountEvent

/-- The attempts counted for a key: begun since success last cleared it, and not taken back. -/
def counted (journal : List AccountEvent) (name : String) : List (ℕ × ℤ) :=
  (since (clears name) journal).filterMap (count journal name)

def countedTimes (journal : List AccountEvent) (name : String) : List ℤ :=
  (counted journal name).map Prod.snd

/-- The secret of a task's attempt is not right: a password found wrong, a code not found valid. -/
def wrong (journal : List AccountEvent) (task : ℕ) : Attempting → Bool
  | .invitation _ => .lookedUp task true ∉ journal ∨ .lookedUp task false ∈ journal
  | _ => .verified task false ∈ journal

/-- How many attempts of a kind, begun in the window from `start`, bring a wrong secret. -/
def guesses (journal : List AccountEvent) (kind : Attempting → Bool) (start : ℤ)
    (entries : List AccountEvent) : ℕ :=
  entries.countP fun e =>
    match e with
    | .began task attempting now true =>
      kind attempting ∧ start ≤ now ∧ now < start + WINDOW_MS ∧ wrong journal task attempting
    | _ => false

/-- An attempt of a kind whose password was right succeeded. -/
def proves (journal : List AccountEvent) (kind : Attempting → Bool) : AccountEvent → Bool
  | .succeeded task _ => .verified task true ∈ journal ∧ journal.any fun e =>
      match e with
      | .began task' attempting _ true => task' = task ∧ kind attempting
      | _ => false
  | _ => false

def signsIn (username : String) : Attempting → Bool
  | .signIn username' _ _ => usernameKey username' = usernameKey username
  | _ => false

def changesPassword (user : ℕ) : Attempting → Bool
  | .passwordChange user' => user' = user
  | _ => false

def comesFrom (address : String) : Attempting → Bool
  | .signIn _ address' _ | .invitation address' => address' = address
  | .passwordChange _ => false

/-- What the limits promise. -/
structure GuessingLimited (journal : List AccountEvent) : Prop where
  usernames : ∀ username start, guesses journal (signsIn username) start
    (since (proves journal (signsIn username)) journal) ≤ PER_ACCOUNT
  passwords : ∀ user start, guesses journal (changesPassword user) start
    (since (proves journal (changesPassword user)) journal) ≤ PER_ACCOUNT
  addresses : ∀ address start, guesses journal (comesFrom address) start journal ≤ PER_ADDRESS
  /-- A password or code is checked only for an attempt that was admitted while none of its keys
  was at its limit. -/
  checked : ∀ task ok, .verified task ok ∈ journal ∨ .lookedUp task ok ∈ journal →
    ∃ before after attempting now, journal = before ++ .began task attempting now true :: after ∧
      ∀ key ∈ keys attempting,
        (live WINDOW_MS now (countedTimes before key.name)).length < key.limit

/-- The limiter's times do not go back, and it is not full. -/
def LimiterHolds (_task : ℕ) {β : Type} (op : AccountCall β) (w : AccountState) : Prop :=
  match op with
  | .begin attempting now =>
    (∀ task attempting time admitted, .began task attempting time admitted ∈ w.journal →
      time ≤ now) ∧ HasRoom w.limiter now (keys attempting).length
  | _ => True

/-- What a request brings besides its secret passes its checks. -/
def Request.wellFormed : Request → Prop
  | .changePassword _ _ newPassword => checkPassword newPassword = .ok ()
  | .acceptInvitation _ username displayName password _ =>
    (∃ name, normaliseUsername username = .ok name) ∧
      (∃ name, normaliseDisplayName displayName = .ok name) ∧ checkPassword password = .ok ()
  | _ => True

section Counted

variable {j : List AccountEvent} {e : AccountEvent} {name : String} {task : ℕ} {now : ℤ}
  {attempting attempting' : Attempting} {key key' : Key}

/-- A name's first letter tells whose key it is. -/
theorem key_cases (h : key ∈ keys attempting) :
    (key.name.toList.head? = some 'u' ∧ key.limit = PER_ACCOUNT ∧ key.clear = true) ∨
      (key.name.toList.head? = some 'a' ∧ key.limit = PER_ADDRESS ∧ key.clear = false) ∨
      (key.name.toList.head? = some 'p' ∧ key.limit = PER_ACCOUNT ∧ key.clear = true) := by
  cases attempting with
  | signIn username address accountExists =>
      rcases List.mem_pair.mp h with rfl | rfl
      · exact .inl ⟨by simp [usernameLimit], rfl, rfl⟩
      · exact .inr (.inl ⟨by simp [addressLimit], rfl, rfl⟩)
  | invitation address =>
      rw [List.mem_singleton.mp h]
      exact .inr (.inl ⟨by simp [addressLimit], rfl, rfl⟩)
  | passwordChange user =>
      rw [List.mem_singleton.mp h]
      exact .inr (.inr ⟨by simp [passwordLimit], rfl, rfl⟩)

/-- Keys of one name are the same limit. -/
theorem key_eq (hkey : key ∈ keys attempting) (hkey' : key' ∈ keys attempting')
    (hname : key.name = key'.name) : key.limit = key'.limit ∧ key.clear = key'.clear := by
  rcases key_cases hkey with ⟨hhead, hlimit, hclear⟩ | ⟨hhead, hlimit, hclear⟩ |
      ⟨hhead, hlimit, hclear⟩ <;>
    rcases key_cases hkey' with ⟨hhead', hlimit', hclear'⟩ | ⟨hhead', hlimit', hclear'⟩ |
      ⟨hhead', hlimit', hclear'⟩ <;>
    simp_all

theorem count_snoc (h : ∀ task attempt, e ≠ .succeeded task attempt) :
    count (j ++ [e]) name = count j name := by
  have hback : ∀ task, takesBack name task e = false := fun task => by
    cases e <;> first | rfl | exact absurd rfl (h _ _)
  funext e'
  cases e' with
  | began task attempting now admitted =>
      cases admitted with
      | true => simp only [count, List.any_append, List.any_cons, List.any_nil, hback, Bool.or_false]
      | false => rfl
  | _ => rfl

theorem clears_eq_false (h : ∀ task attempt, e ≠ .succeeded task attempt) : clears name e = false := by
  cases e <;> first | rfl | exact absurd rfl (h _ _)

theorem counted_snoc (h : ∀ task attempt, e ≠ .succeeded task attempt) :
    counted (j ++ [e]) name = counted j name ++ (count j name e).toList := by
  unfold counted
  rw [since_snoc_neg (clears_eq_false h), List.filterMap_append, count_snoc h]
  cases hcount : count j name e <;> simp [hcount]

/-- An event that clears no key only takes attempts back. -/
theorem counted_takesBack (h : clears name e = false) (hnone : count j name e = none) :
    counted (j ++ [e]) name = (counted j name).filter fun entry => !takesBack name entry.1 e := by
  have hcount : ∀ e', count (j ++ [e]) name e' =
      (count j name e').filter fun entry => !takesBack name entry.1 e := by
    intro e'
    cases e' with
    | began task attempting now admitted =>
        cases admitted with
        | false => rfl
        | true =>
            simp only [count, List.any_append, List.any_cons, List.any_nil, Bool.or_false]
            by_cases hname : name ∈ names attempting
            · cases hany : j.any (takesBack name task) <;>
                cases hback : takesBack name task e <;> simp [hname, hback, Option.filter_some]
            · simp [hname]
    | _ => rfl
  unfold counted
  rw [since_snoc_neg h, List.filterMap_append, List.filter_filterMap]
  simp only [List.filterMap_cons, List.filterMap_nil, hcount, hnone, Option.filter_none,
    List.append_nil]

theorem counted_clears (h : clears name e = true) : counted (j ++ [e]) name = [] := by
  unfold counted
  rw [since_snoc_pos h]
  rfl

theorem mem_counted {entry : ℕ × ℤ} (h : entry ∈ counted j name) :
    ∃ attempting, .began entry.1 attempting entry.2 true ∈ j ∧ name ∈ names attempting := by
  obtain ⟨e, he, hcount⟩ := List.mem_filterMap.mp h
  have hmem := (since_suffix _ _).subset he
  cases e with
  | began task attempting now admitted =>
      cases admitted with
      | false => cases hcount
      | true =>
          simp only [count] at hcount
          split at hcount
          · next hin =>
              obtain rfl := Option.some.inj hcount
              exact ⟨attempting, hmem, hin.1⟩
          · cases hcount
  | _ => cases hcount

/-- Taking back the one entry of a task, by task or by its time. -/
theorem filter_perm_erase {l : List (ℕ × ℤ)} {i : ℕ} {t : ℤ} (hnodup : (l.map Prod.fst).Nodup)
    (hmem : (i, t) ∈ l) :
    ((l.filter fun entry => entry.1 ≠ i).map Prod.snd).Perm ((l.map Prod.snd).erase t) := by
  induction l with
  | nil => cases hmem
  | cons entry l ih =>
      obtain ⟨hnot, hnodup⟩ := List.nodup_cons.mp hnodup
      by_cases hi : entry.1 = i
      · have heq : entry = (i, t) := by
          rcases List.mem_cons.mp hmem with heq | hmem
          · exact heq.symm
          · exact absurd (List.mem_map.mpr ⟨_, hmem, hi.symm⟩) hnot
        have hall : (l.filter fun entry => entry.1 ≠ i) = l := by
          refine List.filter_eq_self.mpr fun other hother => ?_
          have hne : other.1 ≠ i := fun h => hnot (List.mem_map.mpr ⟨other, hother, h.trans hi.symm⟩)
          simpa using hne
        rw [List.filter_cons_of_neg (by simpa using hi), hall, heq]
        simp
      · have hmem' : (i, t) ∈ l :=
          (List.mem_cons.mp hmem).resolve_left fun h => hi (congrArg Prod.fst h).symm
        have hrest := ih hnodup hmem'
        rw [List.filter_cons_of_pos (by simpa using hi), List.map_cons, List.map_cons]
        by_cases ht : entry.2 = t
        · rw [ht, List.erase_cons_head]
          have hin : t ∈ l.map Prod.snd := List.mem_map.mpr ⟨(i, t), hmem', rfl⟩
          exact (hrest.cons t).trans (List.perm_cons_erase hin).symm
        · rw [List.erase_cons_tail (by simpa using ht)]
          exact hrest.cons _

/-- What taking back an attempt does to the counts, key by key. -/
theorem foldl_countsWithout {counts : String → List ℤ} {time : ℤ} :
    (keys attempting).foldl (countsWithout time) counts name =
      if (keys attempting).any fun key => key.name = name ∧ key.clear then []
      else if (keys attempting).any fun key => key.name = name ∧ !key.clear then
        (counts name).erase time
      else counts name := by
  cases attempting with
  | signIn username address accountExists =>
      have hne : (usernameLimit username accountExists).name ≠ (addressLimit address).name :=
        usernameLimit_ne_addressLimit
      have hclear : (usernameLimit username accountExists).clear = true := rfl
      have hshared : (addressLimit address).clear = false := rfl
      simp only [keys, List.foldl_cons, List.foldl_nil, countsWithout, List.any_cons, List.any_nil,
        hclear, hshared]
      by_cases hu : (usernameLimit username accountExists).name = name
      · have ha : (addressLimit address).name ≠ name := fun h => hne (hu.trans h.symm)
        simp [hu, ha]
      · by_cases ha : (addressLimit address).name = name
        · simp [hu, ha]
        · simp [hu, ha]
  | invitation address =>
      have hshared : (addressLimit address).clear = false := rfl
      by_cases ha : (addressLimit address).name = name
      · simp [keys, countsWithout, hshared, ha]
      · simp [keys, countsWithout, ha]
  | passwordChange user =>
      have hclear : (passwordLimit user).clear = true := rfl
      by_cases hp : (passwordLimit user).name = name
      · simp [keys, countsWithout, hclear, hp]
      · simp [keys, countsWithout, hp]

end Counted

/-- The secret of a task's attempt was found right, and not wrong. -/
def right (journal : List AccountEvent) (task : ℕ) : Attempting → Prop
  | .invitation _ => .lookedUp task true ∈ journal ∧ .lookedUp task false ∉ journal
  | _ => .verified task true ∈ journal ∧ .verified task false ∉ journal

theorem not_wrong {journal : List AccountEvent} {task : ℕ} {attempting : Attempting}
    (h : right journal task attempting) : ¬ wrong journal task attempting = true := by
  cases attempting <;> simp_all [right, wrong]

/-- What the limiter holds against the journal, with `n` tasks. -/
structure AttemptInvariant (w : AccountState) (n : ℕ) : Prop where
  tasks : ∀ e ∈ w.journal, ∀ task, e.attemptTask = some task → task < n
  once : ∀ task attempting now attempting' now', .began task attempting now true ∈ w.journal →
    .began task attempting' now' true ∈ w.journal → attempting = attempting' ∧ now = now'
  nodup : ∀ name, ((counted w.journal name).map Prod.fst).Nodup
  attempts : ∀ task attempt, .succeeded task attempt ∈ w.journal → ∃ attempting now,
    .began task attempting now true ∈ w.journal ∧ attempt = ⟨keys attempting, now⟩ ∧
      right w.journal task attempting
  checked : ∀ task ok, .verified task ok ∈ w.journal ∨ .lookedUp task ok ∈ w.journal →
    ∃ attempting now, .began task attempting now true ∈ w.journal
  follows : ∀ now, (∀ task attempting time admitted,
    .began task attempting time admitted ∈ w.journal → time ≤ now) →
    LoginLimiter.Follows w.limiter now (countedTimes w.journal)
  bounded : ∀ attempting, ∀ key ∈ keys attempting,
    AtMost key.limit WINDOW_MS (countedTimes w.journal key.name)
  below : ∀ before after task attempting now,
    w.journal = before ++ .began task attempting now true :: after → ∀ key ∈ keys attempting,
      (live WINDOW_MS now (countedTimes before key.name)).length < key.limit

/-- How far a task's attempt has come. -/
inductive AttemptPhase where
  | start
  | refused
  | admitted (attempting : Attempting) (attempt : Attempt)
  /-- Its secret is right. -/
  | proved (attempting : Attempting) (attempt : Attempt)
  /-- Its secret is wrong, or it has been taken back. -/
  | ended

def isCode : Attempting → Bool
  | .invitation _ => true
  | _ => false

namespace AttemptPhase

def Allows (φ : AttemptPhase) {β : Type} : AccountCall β → Prop
  | .begin _ _ => φ = .start
  | .verifyPassword _ _ => ∃ attempting attempt, φ = .admitted attempting attempt ∧
      isCode attempting = false
  | .invitation _ _ => ∃ attempting attempt, φ = .admitted attempting attempt ∧
      isCode attempting = true
  | .acceptInvitation _ _ _ _ _ _ _ => ∃ attempting attempt, φ = .proved attempting attempt ∧
      isCode attempting = true
  | .succeeded attempt => ∃ attempting, φ = .proved attempting attempt
  | _ => True

/-- The phase once a secret has been checked. -/
def judged (φ : AttemptPhase) (ok : Bool) : AttemptPhase :=
  match φ, ok with
  | .admitted attempting attempt, true => .proved attempting attempt
  | _, _ => .ended

def after (φ : AttemptPhase) : {β : Type} → AccountCall β → β → AttemptPhase
  | _, .begin attempting _, attempt => attempt.elim .refused (.admitted attempting)
  | _, .verifyPassword _ _, ok => φ.judged ok
  | _, .invitation _ _, row => φ.judged row.isSome
  | _, .acceptInvitation _ _ _ _ _ _ _, result => if Routes.counts result then .ended else φ
  | _, .succeeded _, _ => .ended
  | _, _, _ => φ

end AttemptPhase

def attemptDiscipline : Discipline AccountCall AttemptPhase where
  allows := fun φ {_} op => φ.Allows op
  after := fun φ {_} op r => φ.after op r

section Obeys

attribute [local irreducible] normaliseUsername normaliseDisplayName checkPassword

variable {α β : Type} {φ : AttemptPhase} {attempting : Attempting} {attempt : Attempt}

theorem plain_attempt {op : AccountCall β} (h : op.plain) :
    φ.Allows op ∧ ∀ r, φ.after op r = φ := by
  cases op <;> first | exact ⟨trivial, fun _ => rfl⟩ | exact h.elim

/-- From this phase on, a route takes back only attempts whose secret is right. -/
def Fair (φ : AttemptPhase) (p : Handler α) : Prop :=
  attemptDiscipline.Obeys φ p.run fun _ _ => True

theorem fair_plain {p : Handler β} {f : β → Handler α} (hp : Plain p) (hf : ∀ b, Fair φ (f b)) :
    Fair φ (p >>= f) := by
  refine (Discipline.Obeys.of_only (fun {_ _ _} hop => plain_attempt hop) hp.only).runBind ?_
    fun _ _ _ => trivial
  rintro b φ' rfl
  exact hf b

theorem fair_call {op : AccountCall β} {f : β → Handler α} (h : φ.Allows op)
    (hf : ∀ b, Fair (φ.after op b) (f b)) : Fair φ (Handler.call op >>= f) :=
  obeys_call.mpr ⟨h, hf⟩

/-- What follows the limiter's answer, where it admits the attempt. -/
theorem fair_begin {now : ℤ} {f : Attempt → Handler α}
    (hf : ∀ attempt, Fair (.admitted attempting attempt) (f attempt)) :
    Fair .start (do
      let attempt ← Handler.found (← Handler.call (.begin attempting now)) Routes.rateLimited
      f attempt) := by
  refine fair_call rfl fun attempt => ?_
  cases attempt with
  | none => trivial
  | some attempt => exact hf attempt

theorem judged_checkCredentials (hcode : isCode attempting = false) (username password : String) :
    attemptDiscipline.Obeys (.admitted attempting attempt) (checkCredentials username password).run
      fun r φ' => ∀ account, r = .ok (some account) → φ' = .proved attempting attempt := by
  refine obeys_call.mpr ⟨trivial, fun row => obeys_call.mpr ⟨⟨_, _, rfl, hcode⟩, fun ok => ?_⟩⟩
  intro account haccount
  obtain ⟨hmap, -⟩ := Option.filter_eq_some_iff.mp (Except.ok.inj haccount)
  obtain ⟨found, hfound, rfl⟩ := Option.map_eq_some_iff.mp hmap
  obtain ⟨-, rfl⟩ := Option.filter_eq_some_iff.mp hfound
  rfl

theorem fair_login (username password address : String) :
    Fair .start (Routes.login username password address) := by
  refine fair_plain (plain_call trivial) fun now => ?_
  refine fair_plain (plain_call trivial) fun accountExists => ?_
  refine fair_begin fun attempt => ?_
  refine (judged_checkCredentials rfl username password).runBind (fun account φ' hφ => ?_)
    fun _ _ _ => trivial
  refine obeys_found (fun _ => trivial) fun account haccount => ?_
  obtain rfl := hφ account (congrArg _ haccount)
  exact fair_call ⟨_, rfl⟩ fun _ => fair_call trivial fun _ => trivial

/-- After a route's work with a secret: taken back unless the failure counts. -/
theorem fair_takeBack {result : Except Failure β} {f : Handler α}
    (hφ : Routes.counts result = false → φ = .proved attempting attempt)
    (hf : ∀ φ, Fair φ f) : Fair φ (do
      if !Routes.counts result then Handler.call (.succeeded attempt)
      f) := by
  cases hcounts : Routes.counts result with
  | true => exact hf φ
  | false =>
      obtain rfl := hφ hcounts
      exact fair_call ⟨_, rfl⟩ fun _ => hf _

theorem judged_changeOwnPassword (hcode : isCode attempting = false) (now : ℤ) (user session : ℕ)
    (currentPassword : String) {newPassword : String} (hnew : checkPassword newPassword = .ok ()) :
    attemptDiscipline.Obeys (.admitted attempting attempt)
      (changeOwnPassword now user session currentPassword newPassword).run fun r φ' =>
        Routes.counts r = false → φ' = .proved attempting attempt := by
  refine obeys_ofResult (fun failure h => ?_) fun _ _ => ?_
  · rw [hnew] at h
    cases h
  refine obeys_call.mpr ⟨trivial, fun stored => obeys_call.mpr ⟨⟨_, _, rfl, hcode⟩, fun ok => ?_⟩⟩
  cases ok with
  | false => exact nofun
  | true =>
      refine obeys_call.mpr ⟨trivial, fun hash => ?_⟩
      exact ⟨trivial, fun _ _ => rfl⟩

theorem fair_changePassword (token : Option String) (currentPassword : String) {newPassword : String}
    (hnew : checkPassword newPassword = .ok ()) :
    Fair .start (Routes.changePassword token currentPassword newPassword) := by
  refine fair_plain (plain_signedIn token) fun signedIn => fair_plain (plain_call trivial) fun now => ?_
  refine fair_begin fun attempt => ?_
  exact obeys_attempt (judged_changeOwnPassword rfl _ _ _ _ hnew) fun result φ' hφ =>
    fair_takeBack hφ fun _ => trivial

theorem judged_acceptInvitation (hcode : isCode attempting = true) (now : ℤ) (code : String)
    {username displayName password : String}
    (hfields : (∃ name, normaliseUsername username = .ok name) ∧
      (∃ name, normaliseDisplayName displayName = .ok name) ∧ checkPassword password = .ok ()) :
    attemptDiscipline.Obeys (.admitted attempting attempt)
      (acceptInvitation now code username displayName password).run fun r φ' =>
        Routes.counts r = false → φ' = .proved attempting attempt := by
  obtain ⟨⟨name, hname⟩, ⟨shown, hshown⟩, hpassword⟩ := hfields
  unfold acceptInvitation
  rw [hname, hshown, hpassword]
  refine obeys_ofResult (fun _ => nofun) fun _ _ => obeys_ofResult (fun _ => nofun) fun _ _ => ?_
  refine obeys_ofResult (fun _ => nofun) fun _ _ => ?_
  refine obeys_call.mpr ⟨⟨_, _, rfl, hcode⟩, fun row => ?_⟩
  refine obeys_found (fun _ => nofun) fun invitation hrow => ?_
  subst hrow
  refine obeys_call.mpr ⟨trivial, fun hash => ?_⟩
  refine obeys_transaction.mpr ⟨⟨_, _, rfl, hcode⟩, fun result hcounts => ?_⟩
  exact if_neg (by simp [hcounts])

theorem fair_acceptInvitation (code : String) {username displayName password : String}
    (address : String) (hfields : (∃ name, normaliseUsername username = .ok name) ∧
      (∃ name, normaliseDisplayName displayName = .ok name) ∧ checkPassword password = .ok ()) :
    Fair .start (Routes.acceptInvitation code username displayName password address) := by
  refine fair_plain (plain_call trivial) fun now => fair_begin fun attempt => ?_
  refine obeys_attempt (judged_acceptInvitation rfl now code hfields) fun result φ' hφ => ?_
  refine fair_takeBack hφ fun φ => ?_
  refine obeys_ofResult (fun _ _ => trivial) fun user huser => ?_
  refine fair_plain (plain_call trivial) fun account => ?_
  exact obeys_found (fun _ => trivial) fun account _ => fair_call trivial fun _ => trivial

theorem fair_request {request : Request} (h : request.wellFormed) :
    attemptDiscipline.Obeys .start request.prog fun _ _ => True := by
  have hanswered : ∀ {α : Type} {p : Handler α}, Fair .start p →
      attemptDiscipline.Obeys .start (answered p) fun _ _ => True := fun h =>
    Discipline.obeys_bind.mpr h
  by_cases hplain : request.isPlain
  · exact (Discipline.Obeys.of_only (fun {_ _ _} hop => plain_attempt hop)
      (Request.plain_prog hplain)).mono fun _ _ _ => trivial
  · cases request with
    | login => exact hanswered (fair_login ..)
    | changePassword token currentPassword newPassword =>
        exact hanswered (fair_changePassword token currentPassword h)
    | acceptInvitation code username displayName password address =>
        exact hanswered (fair_acceptInvitation code address h)
    | _ => exact absurd rfl hplain

end Obeys

/-- What a task's phase says of the journal. -/
def AttemptKnowledge (w : AccountState) (i : ℕ) : AttemptPhase → Prop
  | .start => ∀ e ∈ w.journal, e.attemptTask ≠ some i
  | .admitted attempting attempt => attempt.keys = keys attempting ∧
      .began i attempting attempt.time true ∈ w.journal ∧
      ∀ e ∈ w.journal, e.attemptTask = some i → e = .began i attempting attempt.time true
  | .proved attempting attempt => attempt.keys = keys attempting ∧
      .began i attempting attempt.time true ∈ w.journal ∧
      (∀ attempt, .succeeded i attempt ∉ w.journal) ∧ right w.journal i attempting
  | _ => True

section Steps

variable {w w' : AccountState} {n i : ℕ} {e : AccountEvent} {attempting : Attempting} {now : ℤ}

theorem right_snoc {j : List AccountEvent} (h : right j i attempting)
    (he : e.attemptTask ≠ some i ∨ e = .verified i true ∨ ∃ attempt, e = .succeeded i attempt) :
    right (j ++ [e]) i attempting := by
  have hverified : e ≠ .verified i false := by
    rintro rfl
    rcases he with he | he | ⟨_, he⟩
    · exact he rfl
    · cases he
    · cases he
  have hlookedUp : e ≠ .lookedUp i false := by
    rintro rfl
    rcases he with he | he | ⟨_, he⟩
    · exact he rfl
    · cases he
    · cases he
  have hnew : ∀ {x}, e ≠ x → x ∉ j → x ∉ j ++ [e] := fun hne hx hmem =>
    (List.mem_append.mp hmem).elim hx fun h => hne (List.mem_singleton.mp h).symm
  cases attempting with
  | invitation address => exact ⟨List.mem_append_left _ h.1, hnew hlookedUp h.2⟩
  | signIn username address accountExists =>
      exact ⟨List.mem_append_left _ h.1, hnew hverified h.2⟩
  | passwordChange user => exact ⟨List.mem_append_left _ h.1, hnew hverified h.2⟩

/-- An event that neither counts an attempt nor takes one back. -/
theorem AttemptInvariant.snoc (h : AttemptInvariant w n) (hjournal : w'.journal = w.journal ++ [e])
    (hbegan : ∀ task attempting now, e ≠ .began task attempting now true)
    (hsucceeded : ∀ task attempt, e ≠ .succeeded task attempt)
    (htask : ∀ task, e.attemptTask = some task → task < n)
    (hchecked : ∀ task ok, e = .verified task ok ∨ e = .lookedUp task ok →
      ∃ attempting now, .began task attempting now true ∈ w.journal)
    (hright : ∀ task attempt, .succeeded task attempt ∈ w.journal → e.attemptTask ≠ some task)
    (hfollows : ∀ now, (∀ task attempting time admitted,
      .began task attempting time admitted ∈ w'.journal → time ≤ now) →
      LoginLimiter.Follows w'.limiter now (countedTimes w.journal)) : AttemptInvariant w' n := by
  have hold : ∀ {x}, x ∈ w'.journal → x ≠ e → x ∈ w.journal := fun hx hne => by
    rw [hjournal] at hx
    exact (List.mem_append.mp hx).resolve_right fun h => hne (List.mem_singleton.mp h)
  have hnew : ∀ {x}, x ∈ w.journal → x ∈ w'.journal := fun hx =>
    hjournal ▸ List.mem_append_left _ hx
  have hcounted : counted w'.journal = counted w.journal := by
    funext name
    have hnone : count w.journal name e = none := by
      cases e with
      | began task attempting now admitted =>
          cases admitted with
          | true => exact absurd rfl (hbegan _ _ _)
          | false => rfl
      | _ => rfl
    rw [hjournal, counted_snoc hsucceeded, hnone, Option.toList_none, List.append_nil]
  have htimes : countedTimes w'.journal = countedTimes w.journal := by
    funext name
    rw [countedTimes, hcounted, countedTimes]
  exact
    { tasks := by
        intro x hx task hx'
        by_cases hxe : x = e
        · exact htask task (hxe ▸ hx')
        · exact h.tasks x (hold hx hxe) task hx'
      once := fun task attempting now attempting' now' hmem hmem' =>
        h.once task attempting now attempting' now' (hold hmem (hbegan _ _ _).symm)
          (hold hmem' (hbegan _ _ _).symm)
      nodup := fun name => by rw [hcounted]; exact h.nodup name
      attempts := by
        intro task attempt hmem
        have hmem := hold hmem (hsucceeded _ _).symm
        obtain ⟨attempting, now, hmem', heq, hr⟩ := h.attempts task attempt hmem
        refine ⟨attempting, now, hnew hmem', heq, ?_⟩
        rw [hjournal]
        exact right_snoc hr (.inl (hright task attempt hmem))
      checked := by
        intro task ok hmem
        by_cases he : e = .verified task ok ∨ e = .lookedUp task ok
        · obtain ⟨attempting, now, hmem⟩ := hchecked task ok he
          exact ⟨attempting, now, hnew hmem⟩
        · push Not at he
          obtain ⟨attempting, now, hmem⟩ := h.checked task ok
            (hmem.imp (hold · he.1.symm) (hold · he.2.symm))
          exact ⟨attempting, now, hnew hmem⟩
      follows := fun now hnow => by rw [htimes]; exact hfollows now hnow
      bounded := by rw [htimes]; exact h.bounded
      below := by
        intro before after task attempting now hsplit
        rw [hjournal] at hsplit
        rcases snoc_eq_append_cons.mp hsplit with ⟨-, he, -⟩ | ⟨rest, -, hrest⟩
        · exact absurd he.symm (hbegan _ _ _)
        · exact h.below before rest task attempting now hrest }

/-- Events that are about no attempt. -/
theorem AttemptInvariant.appends {es : List AccountEvent} (h : AttemptInvariant w n)
    (hlimiter : w'.limiter = w.limiter) (hjournal : w'.journal = w.journal ++ es)
    (hes : ∀ e ∈ es, e.attemptTask = none) : AttemptInvariant w' n := by
  induction es generalizing w with
  | nil =>
      rw [List.append_nil] at hjournal
      cases w
      cases w'
      simp only at hlimiter hjournal
      subst hlimiter hjournal
      exact ⟨h.tasks, h.once, h.nodup, h.attempts, h.checked, h.follows, h.bounded, h.below⟩
  | cons e es ih =>
      have he := hes e (List.mem_cons_self ..)
      refine ih (w := w.record [e]) (h.snoc rfl ?_ ?_ ?_ ?_ ?_ ?_) hlimiter ?_ fun e h =>
        hes e (List.mem_cons_of_mem _ h)
      · rintro _ _ _ rfl
        cases he
      · rintro _ _ rfl
        cases he
      · rw [he]
        exact fun _ => nofun
      · rintro _ _ (rfl | rfl)
        · cases he
        · cases he
      · rw [he]
        exact fun _ _ _ => nofun
      · exact fun now hnow => h.follows now fun task attempting time admitted hmem =>
          hnow task attempting time admitted (List.mem_append_left _ hmem)
      · rw [hjournal, AccountState.record, List.append_assoc, List.singleton_append]

/-- An attempt of a task that has made none is counted. -/
theorem counted_began {j : List AccountEvent} (hfresh : ∀ e ∈ j, e.attemptTask ≠ some i)
    (name : String) : counted (j ++ [.began i attempting now true]) name =
      counted j name ++ if name ∈ names attempting then [(i, now)] else [] := by
  rw [counted_snoc (by rintro _ _ ⟨⟩)]
  have hnone : j.any (takesBack name i) = false := by
    refine List.any_eq_false.mpr fun e he hback => ?_
    cases e with
    | succeeded task attempt =>
        obtain ⟨rfl, -⟩ := of_decide_eq_true hback
        exact hfresh _ he rfl
    | _ => cases hback
  by_cases hname : name ∈ names attempting
  · simp [count, hnone, hname]
  · simp [count, hname]

theorem AttemptInvariant.admitted (h : AttemptInvariant w n) (hi : i < n)
    (hfresh : ∀ e ∈ w.journal, e.attemptTask ≠ some i)
    (hjournal : w'.journal = w.journal ++ [.began i attempting now true])
    (hfollows :
      LoginLimiter.Follows w'.limiter now (countsWith (countedTimes w.journal) attempting now))
    (hpast : ∀ task attempting time admitted,
      .began task attempting time admitted ∈ w.journal → time ≤ now)
    (hbelow : ∀ key ∈ keys attempting,
      (live WINDOW_MS now (countedTimes w.journal key.name)).length < key.limit) :
    AttemptInvariant w' n := by
  have hold : ∀ {x}, x ∈ w'.journal → x = .began i attempting now true ∨ x ∈ w.journal := fun hx => by
    rw [hjournal] at hx
    exact (List.mem_append.mp hx).symm.imp_left List.mem_singleton.mp
  have hnew : ∀ {x}, x ∈ w.journal → x ∈ w'.journal := fun hx =>
    hjournal ▸ List.mem_append_left _ hx
  have hcounted : ∀ name, counted w'.journal name =
      counted w.journal name ++ if name ∈ names attempting then [(i, now)] else [] :=
    fun name => hjournal ▸ counted_began hfresh name
  have htimes : countedTimes w'.journal = countsWith (countedTimes w.journal) attempting now := by
    funext name
    rw [countedTimes, hcounted, countsWith, List.map_append]
    by_cases hname : name ∈ names attempting
    · rw [if_pos hname]
      exact (if_pos hname).symm
    · rw [if_neg hname, List.map_nil, List.append_nil]
      exact (if_neg hname).symm
  exact
    { tasks := by
        intro e he task htask
        rcases hold he with rfl | he
        · obtain rfl := Option.some.inj htask
          exact hi
        · exact h.tasks e he task htask
      once := by
        intro task attempting₁ now₁ attempting₂ now₂ h₁ h₂
        rcases hold h₁ with h₁ | h₁
        · injection h₁ with ht ha hn
          subst ht
          rcases hold h₂ with h₂ | h₂
          · injection h₂ with _ ha' hn'
            exact ⟨ha.trans ha'.symm, hn.trans hn'.symm⟩
          · exact absurd rfl (hfresh _ h₂)
        · rcases hold h₂ with h₂ | h₂
          · injection h₂ with ht
            subst ht
            exact absurd rfl (hfresh _ h₁)
          · exact h.once task attempting₁ now₁ attempting₂ now₂ h₁ h₂
      nodup := by
        intro name
        rw [hcounted]
        by_cases hname : name ∈ names attempting
        · rw [if_pos hname, List.map_append]
          refine List.nodup_append.mpr ⟨h.nodup name, List.nodup_singleton _, ?_⟩
          rintro task htask task' htask' rfl
          obtain ⟨entry, hentry, rfl⟩ := List.mem_map.mp htask
          obtain ⟨attempting', hmem, -⟩ := mem_counted hentry
          rw [List.mem_singleton.mp htask'] at hmem
          exact hfresh _ hmem rfl
        · rw [if_neg hname, List.append_nil]
          exact h.nodup name
      attempts := by
        intro task attempt hmem
        rcases hold hmem with hmem | hmem
        · cases hmem
        · obtain ⟨attempting', now', hmem', heq, hr⟩ := h.attempts task attempt hmem
          refine ⟨attempting', now', hnew hmem', heq, ?_⟩
          rw [hjournal]
          exact right_snoc hr (.inl fun htask => hfresh _ hmem htask.symm)
      checked := by
        intro task ok hmem
        obtain ⟨attempting', now', hmem'⟩ := h.checked task ok
          (hmem.imp (fun h => (hold h).resolve_left nofun) fun h => (hold h).resolve_left nofun)
        exact ⟨attempting', now', hnew hmem'⟩
      follows := by
        intro now' hnow'
        rw [htimes]
        refine hfollows.later (hnow' i attempting now true ?_)
        rw [hjournal]
        exact List.mem_append_right _ (List.mem_singleton_self _)
      bounded := by
        intro attempting' key hkey
        rw [htimes, countsWith]
        by_cases hname : key.name ∈ (keys attempting).map (·.name)
        · rw [if_pos hname]
          obtain ⟨key', hkey', hname'⟩ := List.mem_map.mp hname
          refine (h.bounded attempting' key hkey).push ?_
          rw [← (key_eq hkey' hkey hname').1, ← hname']
          exact hbelow key' hkey'
        · rw [if_neg hname]
          exact h.bounded attempting' key hkey
      below := by
        intro before after task attempting' now' hsplit
        rw [hjournal] at hsplit
        rcases snoc_eq_append_cons.mp hsplit with ⟨rfl, he, -⟩ | ⟨rest, -, hrest⟩
        · injection he with _ ha hn
          subst ha hn
          exact hbelow
        · exact h.below before rest task attempting' now' hrest }

theorem takesBack_succeeded {name : String} {task : ℕ} {attempt : Attempt}
    (hkeys : attempt.keys = keys attempting) : takesBack name task (.succeeded i attempt) =
      (i = task ∧ (keys attempting).any fun key => key.name = name ∧ !key.clear : Bool) := by
  rw [← hkeys]
  rfl

/-- A shared key is never cleared. -/
theorem AttemptInvariant.since_shared (h : AttemptInvariant w n) {name : String} {key : Key}
    (hkey : key ∈ keys attempting) (hname : key.name = name) (hshared : key.clear = false) :
    since (clears name) w.journal = w.journal := by
  refine (since_congr fun e he => ?_).trans (since_false (p := fun _ => false) fun _ => rfl)
  cases e with
  | succeeded task attempt =>
      obtain ⟨attempting', now', -, rfl, -⟩ := h.attempts task attempt he
      refine List.any_eq_false.mpr fun key' hkey' hclears => ?_
      obtain ⟨hname', hclear⟩ := of_decide_eq_true hclears
      have hsame := (key_eq hkey hkey' (hname.trans hname'.symm)).2
      rw [hshared, hclear] at hsame
      cases hsame
  | _ => rfl

/-- The limiter takes an attempt back as the journal does. -/
theorem AttemptInvariant.takenBack {attempt : Attempt} (h : AttemptInvariant w n)
    (hkeys : attempt.keys = keys attempting)
    (hbegan : .began i attempting attempt.time true ∈ w.journal)
    (hnot : ∀ attempt, .succeeded i attempt ∉ w.journal) (name : String) :
    (counted (w.journal ++ [.succeeded i attempt]) name).Sublist (counted w.journal name) ∧
      ((attempt.keys.foldl (countsWithout attempt.time) (countedTimes w.journal)) name).Perm
        (countedTimes (w.journal ++ [.succeeded i attempt]) name) := by
  rw [hkeys, foldl_countsWithout]
  by_cases hclear : (keys attempting).any fun key => key.name = name ∧ key.clear
  · have hclears : clears name (.succeeded i attempt) = true := by
      rw [← hkeys] at hclear
      exact hclear
    rw [if_pos hclear, countedTimes, counted_clears hclears]
    exact ⟨List.nil_sublist _, .refl _⟩
  · have hclears : clears name (.succeeded i attempt) = false := by
      rw [← hkeys] at hclear
      exact Bool.eq_false_iff.mpr hclear
    have hcounted := counted_takesBack (j := w.journal) hclears rfl
    rw [if_neg hclear, hcounted]
    refine ⟨List.filter_sublist, ?_⟩
    unfold countedTimes
    rw [hcounted]
    by_cases hshared : (keys attempting).any fun key => key.name = name ∧ !key.clear
    · rw [if_pos hshared]
      have hfilter : ((counted w.journal name).filter fun entry =>
          !takesBack name entry.1 (.succeeded i attempt)) =
          (counted w.journal name).filter fun entry => entry.1 ≠ i := by
        refine List.filter_congr fun entry _ => ?_
        rw [takesBack_succeeded hkeys, hshared]
        by_cases htask : entry.1 = i
        · simp [htask]
        · have hne : i ≠ entry.1 := fun h => htask h.symm
          simp [htask, hne]
      obtain ⟨key, hkey, hmatch⟩ := List.any_eq_true.mp hshared
      obtain ⟨hname, hnotClear⟩ := of_decide_eq_true hmatch
      have hany : w.journal.any (takesBack name i) = false := by
        refine List.any_eq_false.mpr fun e he hback => ?_
        cases e with
        | succeeded task attempt =>
            obtain ⟨rfl, -⟩ := of_decide_eq_true hback
            exact hnot attempt he
        | _ => cases hback
      have hmem : (i, attempt.time) ∈ counted w.journal name := by
        refine List.mem_filterMap.mpr ⟨.began i attempting attempt.time true, ?_, ?_⟩
        · rwa [h.since_shared hkey hname (by simpa using hnotClear)]
        · have hin : name ∈ names attempting := List.mem_map.mpr ⟨key, hkey, hname⟩
          simp [count, hin, hany]
      rw [hfilter]
      exact (filter_perm_erase (h.nodup name) hmem).symm
    · have hfilter : ((counted w.journal name).filter fun entry =>
          !takesBack name entry.1 (.succeeded i attempt)) = counted w.journal name := by
        refine List.filter_eq_self.mpr fun entry _ => ?_
        rw [takesBack_succeeded hkeys, Bool.eq_false_iff.mpr hshared]
        simp
      rw [if_neg hshared, hfilter]

theorem AttemptInvariant.succeeded {attempt : Attempt} (h : AttemptInvariant w n) (hi : i < n)
    (hkeys : attempt.keys = keys attempting)
    (hbegan : .began i attempting attempt.time true ∈ w.journal)
    (hnot : ∀ attempt, .succeeded i attempt ∉ w.journal) (hright : right w.journal i attempting)
    (hjournal : w'.journal = w.journal ++ [.succeeded i attempt])
    (hlimiter : w'.limiter = w.limiter.succeeded attempt) : AttemptInvariant w' n := by
  have hold : ∀ {x}, x ∈ w'.journal → x = .succeeded i attempt ∨ x ∈ w.journal := fun hx => by
    rw [hjournal] at hx
    exact (List.mem_append.mp hx).symm.imp_left List.mem_singleton.mp
  have hnew : ∀ {x}, x ∈ w.journal → x ∈ w'.journal := fun hx =>
    hjournal ▸ List.mem_append_left _ hx
  have htaken := fun name => hjournal ▸ h.takenBack hkeys hbegan hnot name
  exact
    { tasks := by
        intro e he task htask
        rcases hold he with rfl | he
        · obtain rfl := Option.some.inj htask
          exact hi
        · exact h.tasks e he task htask
      once := fun task attempting₁ now₁ attempting₂ now₂ h₁ h₂ =>
        h.once task attempting₁ now₁ attempting₂ now₂ ((hold h₁).resolve_left nofun)
          ((hold h₂).resolve_left nofun)
      nodup := fun name => (h.nodup name).sublist ((htaken name).1.map Prod.fst)
      attempts := by
        intro task attempt' hmem
        rcases hold hmem with hmem | hmem
        · injection hmem with htask hattempt
          subst htask hattempt
          refine ⟨attempting, attempt'.time, hnew hbegan, by rw [← hkeys], ?_⟩
          rw [hjournal]
          exact right_snoc hright (.inr (.inr ⟨_, rfl⟩))
        · obtain ⟨attempting', now', hmem', heq, hr⟩ := h.attempts task attempt' hmem
          refine ⟨attempting', now', hnew hmem', heq, ?_⟩
          rw [hjournal]
          refine right_snoc hr (.inl fun htask => ?_)
          obtain rfl := Option.some.inj htask
          exact hnot _ hmem
      checked := by
        intro task ok hmem
        obtain ⟨attempting', now', hmem'⟩ := h.checked task ok
          (hmem.imp (fun h => (hold h).resolve_left nofun) fun h => (hold h).resolve_left nofun)
        exact ⟨attempting', now', hnew hmem'⟩
      follows := by
        intro now' hnow' name
        rw [hlimiter]
        refine (LoginLimiter.Follows.succeeded (h.follows now' fun task attempting time admitted hmem =>
          hnow' task attempting time admitted (hnew hmem)) name).perm ?_
        exact (htaken name).2
      bounded := fun attempting' key hkey =>
        (h.bounded attempting' key hkey).sublist ((htaken key.name).1.map Prod.snd)
      below := by
        intro before after task attempting' now' hsplit
        rw [hjournal] at hsplit
        rcases snoc_eq_append_cons.mp hsplit with ⟨-, he, -⟩ | ⟨rest, -, hrest⟩
        · cases he
        · exact h.below before rest task attempting' now' hrest }

theorem right_append {j es : List AccountEvent} (h : right j i attempting)
    (hes : ∀ e ∈ es, e.attemptTask ≠ some i) : right (j ++ es) i attempting := by
  induction es generalizing j with
  | nil => rwa [List.append_nil]
  | cons e es ih =>
      rw [← List.singleton_append, ← List.append_assoc]
      exact ih (right_snoc h (.inl (hes e (List.mem_cons_self ..)))) fun e he =>
        hes e (List.mem_cons_of_mem _ he)

/-- What others do says nothing of a task. -/
theorem AttemptKnowledge.others {φ : AttemptPhase} {es : List AccountEvent}
    (h : AttemptKnowledge w i φ) (hjournal : w'.journal = w.journal ++ es)
    (hes : ∀ e ∈ es, e.attemptTask ≠ some i) : AttemptKnowledge w' i φ := by
  have hnew : ∀ {x}, x ∈ w.journal → x ∈ w'.journal := fun hx =>
    hjournal ▸ List.mem_append_left _ hx
  have hold : ∀ {x}, x ∈ w'.journal → x.attemptTask = some i → x ∈ w.journal := fun hx htask => by
    rw [hjournal] at hx
    exact (List.mem_append.mp hx).resolve_right fun he => hes _ he htask
  cases φ with
  | start => exact fun e he htask => h e (hold he htask) htask
  | admitted attempting attempt =>
      exact ⟨h.1, hnew h.2.1, fun e he htask => h.2.2 e (hold he htask) htask⟩
  | proved attempting attempt =>
      refine ⟨h.1, hnew h.2.1, fun attempt hmem => h.2.2.1 attempt (hold hmem rfl), ?_⟩
      rw [hjournal]
      exact right_append h.2.2.2 hes
  | refused | ended => trivial

/-- A call that is about no attempt. -/
theorem answer_unrelated {hashing : Hashing} {choice : AccountChoice} {β : Type}
    {op : AccountCall β} {r : β} (hop : op.plain ∨ ∀ φ : AttemptPhase, φ.Allows op ∧ φ.after op r = φ)
    (ha : w.answer hashing i choice op = some (r, w')) :
    w'.limiter = w.limiter ∧ ∃ es, w'.journal = w.journal ++ es ∧
      ∀ e ∈ es, e.attemptTask = none := by
  cases op with
  | begin | verifyPassword | invitation | acceptInvitation | succeeded =>
      rcases hop with hop | hop
      · exact hop.elim
      · have := (hop .refused).1
        simp [AttemptPhase.Allows] at this
  | now | hashPassword =>
      obtain ⟨_, -, heq⟩ := Option.map_eq_some_iff.mp ha
      obtain ⟨-, rfl⟩ := Prod.mk.inj heq
      exact ⟨rfl, [], (List.append_nil _).symm, nofun⟩
  | usernameExists | role | account | liveSession | touchSession | revokeSession
  | withdrawInvitation =>
      obtain ⟨-, rfl⟩ := Prod.mk.inj (Option.some.inj ha)
      exact ⟨rfl, [], (List.append_nil _).symm, nofun⟩
  | credentials username =>
      obtain ⟨-, rfl⟩ := Prod.mk.inj (Option.some.inj ha)
      refine ⟨rfl, _, rfl, fun e he => ?_⟩
      obtain ⟨row, -, rfl⟩ := List.mem_map.mp he
      rfl
  | storedPassword | changeOwnPassword =>
      obtain ⟨-, rfl⟩ := Prod.mk.inj (Option.some.inj ha)
      exact ⟨rfl, _, rfl, by simp [attemptTask]⟩
  | createSession now user =>
      obtain ⟨token, -, ha⟩ := Option.bind_eq_some_iff.mp ha
      split at ha
      · cases ha
      · obtain ⟨-, rfl⟩ := Prod.mk.inj (Option.some.inj ha)
        exact ⟨rfl, _, rfl, by simp [attemptTask]⟩
  | createInvitation role permissions expiresAt =>
      obtain ⟨code, -, ha⟩ := Option.bind_eq_some_iff.mp ha
      split at ha
      · cases ha
      · obtain ⟨-, rfl⟩ := Prod.mk.inj (Option.some.inj ha)
        exact ⟨rfl, [], (List.append_nil _).symm, nofun⟩
  | acknowledgePasswordReset user session =>
      have ha : some ((), (w.withTables (w.tables.acknowledgePasswordReset user session).2).record
          (if (w.tables.acknowledgePasswordReset user session).1 then
            [.acknowledged user session] else [])) = some (r, w') := ha
      obtain ⟨-, rfl⟩ := Prod.mk.inj (Option.some.inj ha)
      refine ⟨rfl, _, rfl, fun e he => ?_⟩
      split at he
      · rw [List.mem_singleton.mp he]
        rfl
      · cases he
  | bootstrapAdmin | adminResetPassword =>
      rcases commit_cases (Option.some.inj ha) with ⟨_, t, -, heq⟩ | ⟨failure, -, heq⟩
      · obtain ⟨-, rfl⟩ := Prod.mk.inj heq
        exact ⟨rfl, _, rfl, by simp [attemptTask]⟩
      · obtain ⟨-, rfl⟩ := Prod.mk.inj heq
        exact ⟨rfl, _, rfl, by simp⟩
  | adminUpdateUser now admin target changes =>
      rcases commit_cases (Option.some.inj ha) with ⟨account, t, -, heq⟩ | ⟨failure, -, heq⟩
      · obtain ⟨-, rfl⟩ := Prod.mk.inj heq
        refine ⟨rfl, _, rfl, fun e he => ?_⟩
        unfold disables at he
        split at he
        · rw [List.mem_singleton.mp he]
          rfl
        · cases he
      · obtain ⟨-, rfl⟩ := Prod.mk.inj heq
        exact ⟨rfl, _, rfl, by simp⟩

/-- A secret is checked for an attempt that has not been taken back. -/
theorem AttemptInvariant.judged (h : AttemptInvariant w n) (hi : i < n) {ok : Bool}
    (he : e = .verified i ok ∨ e = .lookedUp i ok)
    (hbegan : .began i attempting now true ∈ w.journal)
    (hnot : ∀ attempt, .succeeded i attempt ∉ w.journal) (hlimiter : w'.limiter = w.limiter)
    (hjournal : w'.journal = w.journal ++ [e]) : AttemptInvariant w' n := by
  have htask : e.attemptTask = some i := by rcases he with rfl | rfl <;> rfl
  refine h.snoc hjournal ?_ ?_ ?_ ?_ ?_ ?_
  · rintro _ _ _ rfl
    rcases he with he | he <;> cases he
  · rintro _ _ rfl
    rcases he with he | he <;> cases he
  · intro task htask'
    obtain rfl := Option.some.inj (htask.symm.trans htask')
    exact hi
  · intro task ok' he'
    have htask' : e.attemptTask = some task := by rcases he' with rfl | rfl <;> rfl
    obtain rfl := Option.some.inj (htask.symm.trans htask')
    exact ⟨attempting, now, hbegan⟩
  · intro task attempt hmem htask'
    obtain rfl := Option.some.inj (htask.symm.trans htask')
    exact hnot attempt hmem
  · intro now' hnow'
    rw [hlimiter]
    refine h.follows now' fun task attempting time admitted hmem => hnow' task attempting time
      admitted ?_
    rw [hjournal]
    exact List.mem_append_left _ hmem

/-- What a task knows once its secret has been checked. -/
theorem AttemptKnowledge.judged {attempt : Attempt} {ok : Bool}
    (hK : AttemptKnowledge w i (.admitted attempting attempt))
    (he : e = if isCode attempting then .lookedUp i ok else .verified i ok)
    (hjournal : w'.journal = w.journal ++ [e]) :
    AttemptKnowledge w' i (AttemptPhase.judged (.admitted attempting attempt) ok) := by
  obtain ⟨hkeys, hbegan, honly⟩ := hK
  have hfresh : ∀ {x}, x.attemptTask = some i → x ≠ .began i attempting attempt.time true →
      x ≠ e → x ∉ w'.journal := by
    intro x htask hbegan' hne hx
    rw [hjournal] at hx
    rcases List.mem_append.mp hx with hx | hx
    · exact hbegan' (honly x hx htask)
    · exact hne (List.mem_singleton.mp hx)
  have hmem : e ∈ w'.journal := hjournal ▸ List.mem_append_right _ (List.mem_singleton_self _)
  cases ok with
  | false => trivial
  | true =>
      refine ⟨hkeys, hjournal ▸ List.mem_append_left _ hbegan, fun attempt' => ?_, ?_⟩
      · refine hfresh rfl nofun ?_
        rw [he]
        split <;> exact nofun
      · cases attempting with
        | invitation address =>
            obtain rfl : e = .lookedUp i true := he
            exact ⟨hmem, hfresh rfl nofun nofun⟩
        | signIn username address accountExists =>
            obtain rfl : e = .verified i true := he
            exact ⟨hmem, hfresh rfl nofun nofun⟩
        | passwordChange user =>
            obtain rfl : e = .verified i true := he
            exact ⟨hmem, hfresh rfl nofun nofun⟩

theorem AttemptInvariant.begin (h : AttemptInvariant w n) (hi : i < n)
    (hfresh : ∀ e ∈ w.journal, e.attemptTask ≠ some i)
    (hlimiter : LimiterHolds i (.begin attempting now) w)
    (hw' : w' = (w.withLimiter (w.limiter.begin attempting now).2).record
      [.began i attempting now (w.limiter.begin attempting now).1.isSome]) :
    AttemptInvariant w' n ∧ AttemptKnowledge w' i
      (AttemptPhase.after .start (.begin attempting now) (w.limiter.begin attempting now).1) := by
  obtain ⟨hpast, hroom⟩ := hlimiter
  subst hw'
  rcases (h.follows now hpast).begin hroom with ⟨hnone, hfollows, -⟩ | ⟨hsome, hfollows, hbelow⟩
  · rw [hnone]
    refine ⟨h.snoc (e := .began i attempting now false) rfl (by simp) (by simp) ?_ (by simp) ?_ ?_,
      trivial⟩
    · intro task htask
      obtain rfl := Option.some.inj htask
      exact hi
    · intro task attempt hmem htask
      obtain rfl := Option.some.inj htask
      exact hfresh _ hmem rfl
    · exact fun now' hnow' => hfollows.later
        (hnow' i attempting now false (List.mem_append_right _ (List.mem_singleton_self _)))
  · rw [hsome]
    refine ⟨h.admitted hi hfresh rfl hfollows hpast hbelow, rfl,
      List.mem_append_right _ (List.mem_singleton_self _), fun e he htask => ?_⟩
    rcases List.mem_append.mp he with he | he
    · exact absurd htask (hfresh e he)
    · exact List.mem_singleton.mp he

/-- What a task's call does to the limiter's counts, and what the task knows after it. -/
theorem attempt_answer {hashing : Hashing} {choice : AccountChoice} {β : Type} {op : AccountCall β}
    {r : β} {φ : AttemptPhase} (h : AttemptInvariant w n) (hi : i < n)
    (hK : AttemptKnowledge w i φ) (hallows : φ.Allows op) (hlimiter : LimiterHolds i op w)
    (ha : w.answer hashing i choice op = some (r, w')) :
    AttemptInvariant w' n ∧ AttemptKnowledge w' i (φ.after op r) ∧
      ∃ es, w'.journal = w.journal ++ es ∧ ∀ e ∈ es, ∀ j ≠ i, e.attemptTask ≠ some j := by
  have hothers : ∀ {es : List AccountEvent}, (∀ e ∈ es, e.attemptTask = none) →
      ∀ e ∈ es, ∀ j ≠ i, e.attemptTask ≠ some j := fun hes e he j _ => by
    rw [hes e he]
    exact nofun
  have hone : ∀ {e : AccountEvent}, e.attemptTask = some i →
      ∀ e' ∈ [e], ∀ j ≠ i, e'.attemptTask ≠ some j := fun htask e' he' j hj heq => by
    rw [List.mem_singleton.mp he', htask] at heq
    exact hj (Option.some.inj heq).symm
  have hunrelated : (op.plain ∨ ∀ φ : AttemptPhase, φ.Allows op ∧ φ.after op r = φ) →
      AttemptInvariant w' n ∧ AttemptKnowledge w' i (φ.after op r) ∧
        ∃ es, w'.journal = w.journal ++ es ∧ ∀ e ∈ es, ∀ j ≠ i, e.attemptTask ≠ some j := by
    intro hop
    obtain ⟨hsame, es, hjournal, hes⟩ := answer_unrelated hop ha
    have hafter : φ.after op r = φ := hop.elim (fun h => (plain_attempt h).2 r) fun h => (h φ).2
    refine ⟨h.appends hsame hjournal hes, ?_, es, hjournal, hothers hes⟩
    rw [hafter]
    exact hK.others hjournal fun e he => by
      rw [hes e he]
      exact nofun
  cases op with
  | begin attempting now =>
      obtain ⟨rfl, rfl⟩ := Prod.mk.inj (Option.some.inj ha)
      obtain rfl : φ = .start := hallows
      obtain ⟨hinv, hknown⟩ := h.begin hi hK hlimiter rfl
      exact ⟨hinv, hknown, _, rfl, hone rfl⟩
  | verifyPassword password stored =>
      obtain ⟨rfl, rfl⟩ := Prod.mk.inj (Option.some.inj ha)
      obtain ⟨attempting, attempt, rfl, hcode⟩ := hallows
      obtain ⟨hkeys, hbegan, honly⟩ := hK
      refine ⟨h.judged hi (.inl rfl) hbegan (fun attempt' hmem => ?_) rfl rfl,
        AttemptKnowledge.judged ⟨hkeys, hbegan, honly⟩ (by simp [hcode]) rfl, _, rfl, hone rfl⟩
      cases honly _ hmem rfl
  | invitation now code =>
      obtain ⟨rfl, rfl⟩ := Prod.mk.inj (Option.some.inj ha)
      obtain ⟨attempting, attempt, rfl, hcode⟩ := hallows
      obtain ⟨hkeys, hbegan, honly⟩ := hK
      refine ⟨h.judged hi (.inr rfl) hbegan (fun attempt' hmem => ?_) rfl rfl,
        AttemptKnowledge.judged ⟨hkeys, hbegan, honly⟩ (by simp [hcode]) rfl, _, rfl, hone rfl⟩
      cases honly _ hmem rfl
  | acceptInvitation now code username displayName role permissions hash =>
      obtain ⟨attempting, attempt, rfl, hcode⟩ := hallows
      obtain ⟨hkeys, hbegan, hnot, hright⟩ := hK
      have hK : AttemptKnowledge w i (.proved attempting attempt) := ⟨hkeys, hbegan, hnot, hright⟩
      rcases commit_cases (Option.some.inj ha) with ⟨user, t, hok, heq⟩ | ⟨failure, herror, heq⟩
      · obtain ⟨rfl, rfl⟩ := Prod.mk.inj heq
        have hes : ∀ e ∈ [AccountEvent.signIn i user], e.attemptTask = none := by simp [attemptTask]
        refine ⟨h.appends rfl rfl hes, hK.others rfl fun e he => ?_, _, rfl, hothers hes⟩
        rw [hes e he]
        exact nofun
      · obtain ⟨rfl, rfl⟩ := Prod.mk.inj heq
        rw [herror]
        by_cases hcounts : Routes.counts (Except.error (α := ℕ × Tables) failure) = true
        · rw [if_pos hcounts]
          refine ⟨h.judged hi (.inr rfl) hbegan hnot rfl rfl, ?_, _, rfl, hone rfl⟩
          have hcounts' : Routes.counts (Except.error (α := ℕ) failure) = true := hcounts
          simp only [AttemptPhase.after, hcounts', if_true]
          trivial
        · rw [if_neg hcounts]
          have hcounts' : ¬ Routes.counts (Except.error (α := ℕ) failure) = true := hcounts
          refine ⟨h.appends rfl rfl (by simp), ?_, _, rfl, by simp⟩
          simp only [AttemptPhase.after, if_neg hcounts']
          exact hK.others rfl (by simp)
  | succeeded attempt =>
      obtain ⟨-, rfl⟩ := Prod.mk.inj (Option.some.inj ha)
      obtain ⟨attempting, rfl⟩ := hallows
      obtain ⟨hkeys, hbegan, hnot, hright⟩ := hK
      exact ⟨h.succeeded hi hkeys hbegan hnot hright rfl rfl, trivial, _, rfl, hone rfl⟩
  | credentials | storedPassword | createSession | changeOwnPassword =>
      exact hunrelated (.inr fun φ => ⟨trivial, rfl⟩)
  | _ => exact hunrelated (.inl trivial)

end Steps

theorem attempt_initial (order : Order) : AttemptInvariant (AccountState.initial order) 0 where
  tasks := nofun
  once := nofun
  nodup := fun name => List.nodup_nil
  attempts := nofun
  checked := fun task ok h => by rcases h with h | h <;> cases h
  follows := fun now _ => follows_initial order now
  bounded := fun _ _ _ => AtMost.nil
  below := fun before after _ _ _ h => by simp [AccountState.initial] at h

theorem attempt_taskInvariant (hashing : Hashing) :
    ((system hashing).guarded (fun i {_} op w => LimiterHolds i op w) fun request _ =>
      request.wellFormed).TaskInvariant attemptDiscipline (fun _ => True) AttemptInvariant
      AttemptKnowledge where
  task := by
    intro w φs i φ β op choice r w' hJ hK hi hop hr
    obtain ⟨hlimiter, ha⟩ := System.guarded_answer.mp hr
    have hlt := (List.getElem?_eq_some_iff.mp hi).1
    obtain ⟨hJ', hK', es, hjournal, hes⟩ := attempt_answer hJ hlt (hK i φ hi) hop hlimiter ha
    exact ⟨hJ', hK', fun j ψ hij hj => (hK j ψ hj).others hjournal fun e he =>
      hes e he j (Ne.symm hij)⟩
  surroundings := by
    intro w φs request w' ps hJ hK he
    obtain ⟨hrequest, he⟩ := System.guarded_surroundings.mp he
    obtain ⟨rfl, rfl⟩ := Prod.mk.inj (Option.some.inj he)
    refine ⟨[.start], .cons (fair_request hrequest) .nil, ?_, hK, fun j ψ hψ => ?_⟩
    · exact { hJ with tasks := fun e he task htask =>
        (hJ.tasks e he task htask).trans (Nat.lt_succ_self _) }
    · have hj := (List.getElem?_eq_some_iff.mp hψ).1
      obtain rfl := List.mem_singleton.mp (List.mem_of_getElem? hψ)
      intro e he htask
      have := hJ.tasks e he _ htask
      omega
  restart := by
    intro w φs w' ps _ h
    cases h

section Limits

variable {w : AccountState} {n limit : ℕ} {name : String} {kind : Attempting → Bool}

/-- Guesses that need a key are among what is counted for it. -/
theorem AttemptInvariant.guesses_le (h : AttemptInvariant w n)
    (hkind : ∀ attempting, kind attempting = true → name ∈ names attempting)
    (hbounded : AtMost limit WINDOW_MS (countedTimes w.journal name)) (start : ℤ) :
    guesses w.journal kind start (since (clears name) w.journal) ≤ limit := by
  refine le_trans ?_ (hbounded start)
  rw [countedTimes, List.countP_map, counted, List.countP_filterMap]
  refine List.countP_mono_left fun e he hguess => ?_
  have hmem := (since_suffix _ _).subset he
  cases e with
  | began task attempting now admitted =>
      cases admitted with
      | false => cases hguess
      | true =>
          obtain ⟨hattempting, hstart, hend, hwrong⟩ := of_decide_eq_true hguess
          have hnot : w.journal.any (takesBack name task) = false := by
            refine List.any_eq_false.mpr fun other hother hback => ?_
            cases other with
            | succeeded task' attempt =>
                obtain ⟨rfl, -⟩ := of_decide_eq_true hback
                obtain ⟨attempting', now', hbegan, -, hright⟩ := h.attempts task' attempt hother
                obtain ⟨rfl, -⟩ := h.once task' _ _ _ _ hmem hbegan
                exact not_wrong hright hwrong
            | _ => cases hback
          simp [count, hkind attempting hattempting, hnot, hstart, hend]
  | _ => cases hguess

/-- A key is cleared exactly when its secret is proved. -/
theorem AttemptInvariant.since_proves (h : AttemptInvariant w n)
    (hkind : ∀ attempting, kind attempting = true ↔
      ∃ key ∈ keys attempting, key.name = name ∧ key.clear = true)
    (hcode : ∀ attempting, kind attempting = true → isCode attempting = false) :
    since (proves w.journal kind) w.journal = since (clears name) w.journal := by
  refine since_congr fun e he => ?_
  cases e with
  | succeeded task attempt =>
      obtain ⟨attempting, now, hbegan, rfl, hright⟩ := h.attempts task attempt he
      rw [Bool.eq_iff_iff]
      constructor
      · intro hproves
        obtain ⟨-, hany⟩ := of_decide_eq_true hproves
        obtain ⟨other, hother, hmatch⟩ := List.any_eq_true.mp hany
        cases other with
        | began task' attempting' now' admitted =>
            cases admitted with
            | false => cases hmatch
            | true =>
                obtain ⟨rfl, hattempting⟩ := of_decide_eq_true hmatch
                obtain ⟨rfl, -⟩ := h.once task' _ _ _ _ hbegan hother
                obtain ⟨key, hkey, hclear⟩ := (hkind attempting).mp hattempting
                exact List.any_eq_true.mpr ⟨key, hkey, decide_eq_true hclear⟩
        | _ => cases hmatch
      · intro hclears
        obtain ⟨key, hkey, hclear⟩ := List.any_eq_true.mp hclears
        have hattempting := (hkind attempting).mpr ⟨key, hkey, of_decide_eq_true hclear⟩
        have hverified : .verified task true ∈ w.journal := by
          have hcode := hcode attempting hattempting
          cases attempting with
          | invitation address => cases hcode
          | signIn username address accountExists => exact hright.1
          | passwordChange user => exact hright.1
        exact decide_eq_true ⟨hverified, List.any_eq_true.mpr
          ⟨_, hbegan, decide_eq_true ⟨rfl, hattempting⟩⟩⟩
  | _ => rfl

theorem signsIn_iff {username : String} {attempting : Attempting} :
    signsIn username attempting = true ↔
      ∃ key ∈ keys attempting, key.name = (usernameLimit username true).name ∧ key.clear = true := by
  cases attempting with
  | signIn username' address accountExists =>
      simp [signsIn, keys, usernameLimit, addressLimit, String.append_right_inj]
  | invitation address => simp [signsIn, keys, addressLimit]
  | passwordChange user =>
      have hne : (passwordLimit user).name ≠ (usernameLimit username true).name := fun h => by
        have := congrArg (fun s => s.toList.head?) h
        simp [passwordLimit, usernameLimit] at this
      simp [signsIn, keys, hne]

theorem changesPassword_iff {user : ℕ} {attempting : Attempting} :
    changesPassword user attempting = true ↔
      ∃ key ∈ keys attempting, key.name = (passwordLimit user).name ∧ key.clear = true := by
  cases attempting with
  | signIn username address accountExists =>
      have hne : (usernameLimit username accountExists).name ≠ (passwordLimit user).name := fun h => by
        have := congrArg (fun s => s.toList.head?) h
        simp [passwordLimit, usernameLimit] at this
      simp [changesPassword, keys, hne, addressLimit]
  | invitation address => simp [changesPassword, keys, addressLimit]
  | passwordChange user' =>
      simp only [changesPassword, keys, List.mem_singleton, exists_eq_left, decide_eq_true_eq]
      exact ⟨fun h => ⟨by rw [h], rfl⟩, fun h => passwordLimit_inj h.1⟩

theorem comesFrom_names {address : String} {attempting : Attempting}
    (h : comesFrom address attempting = true) : (addressLimit address).name ∈ names attempting := by
  cases attempting with
  | signIn username address' accountExists =>
      obtain rfl := of_decide_eq_true h
      exact List.mem_cons_of_mem _ (List.mem_singleton_self _)
  | invitation address' =>
      obtain rfl := of_decide_eq_true h
      exact List.mem_singleton_self _
  | passwordChange user => cases h

theorem AttemptInvariant.limited (h : AttemptInvariant w n) : GuessingLimited w.journal where
  usernames := by
    intro username start
    rw [h.since_proves (fun _ => signsIn_iff) fun attempting hkind => ?_]
    · refine h.guesses_le (fun attempting hkind => ?_)
        (h.bounded (.signIn username "" true) _ (List.mem_cons_self ..)) start
      obtain ⟨key, hkey, hname, -⟩ := signsIn_iff.mp hkind
      exact List.mem_map.mpr ⟨key, hkey, hname⟩
    · cases attempting <;> first | rfl | cases hkind
  passwords := by
    intro user start
    rw [h.since_proves (fun _ => changesPassword_iff) fun attempting hkind => ?_]
    · refine h.guesses_le (fun attempting hkind => ?_)
        (h.bounded (.passwordChange user) _ (List.mem_cons_self ..)) start
      obtain ⟨key, hkey, hname, -⟩ := changesPassword_iff.mp hkind
      exact List.mem_map.mpr ⟨key, hkey, hname⟩
    · cases attempting <;> first | rfl | cases hkind
  addresses := by
    intro address start
    have hkey : addressLimit address ∈ keys (.invitation address) := List.mem_singleton_self _
    have hle := h.guesses_le (fun _ => comesFrom_names) (h.bounded _ _ hkey) start
    rwa [h.since_shared hkey rfl rfl] at hle
  checked := by
    intro task ok hmem
    obtain ⟨attempting, now, hbegan⟩ := h.checked task ok hmem
    obtain ⟨before, after, hsplit⟩ := List.append_of_mem hbegan
    exact ⟨before, after, attempting, now, hsplit, h.below before after task attempting now hsplit⟩

end Limits

/-- In every run at limiter times that do not go back, with room in the limiter, in which requests
bring nothing malformed besides their secret, guessing is limited. -/
theorem guessing_limited (hashing : Hashing) {order : Order}
    {as : List (Action AccountChoice Request)} {s : State}
    (hrun : Runs.Run (fun s a t => (system hashing).step s a = some t ∧
      System.Meets (fun i {_} op w => LimiterHolds i op w) (fun request _ => request.wellFormed)
        s a) (initial order) as s) :
    GuessingLimited s.world.journal := by
  obtain ⟨φs, -, hinv, -⟩ := (attempt_taskInvariant hashing).invariant.run (System.run_guarded hrun)
    ⟨[], .nil, attempt_initial order, nofun⟩
  exact hinv.limited

section Example

/-- A change of the password through the first session, with a wrong current one. -/
def guess (newPassword : String) : Action AccountChoice Request :=
  .surroundings (.changePassword (some "one") "a guess" newPassword)

/-- Its current password is checked. -/
def wrongRun (task : ℕ) : List (Action AccountChoice Request) :=
  [guess "second password", .task task (.time 3), .task task .none, .task task (.time 3),
    .task task .none, .task task .none, .task task .none]

/-- Its new password is too short, so the attempt is taken back. -/
def shortRun (task : ℕ) : List (Action AccountChoice Request) :=
  [guess "short", .task task (.time 3), .task task .none, .task task (.time 3), .task task .none,
    .task task .none]

/-- Whether a call meets what the limiter goes by. -/
def limiterHolds (w : AccountState) {β : Type} : AccountCall β → Bool
  | .begin attempting now =>
    (w.journal.all fun e =>
      match e with
      | .began _ _ time _ => time ≤ now
      | _ => true) ∧ (liveKeys now w.limiter.failures).size + (keys attempting).length ≤ MAX_KEYS
  | _ => true

theorem limiterHolds_iff {w : AccountState} {task : ℕ} {β : Type} {op : AccountCall β} :
    limiterHolds w op = true ↔ LimiterHolds task op w := by
  cases op with
  | begin attempting now =>
      refine decide_eq_true_iff.trans (and_congr_left fun _ => ?_)
      rw [List.all_eq_true]
      constructor
      · exact fun h task attempting time admitted hmem => of_decide_eq_true (h _ hmem)
      · intro h e he
        cases e with
        | began task attempting time admitted => exact decide_eq_true (h _ _ _ _ he)
        | _ => rfl
  | _ => exact iff_of_true rfl trivial

/-- Whether a step's call does. -/
def stepHolds (s : State) : Action AccountChoice Request → Bool
  | .task i _ =>
    match s.tasks[i]? with
    | some (.call op _) => limiterHolds s.world op
    | _ => true
  | _ => true

theorem meets_of_stepHolds {s : State} {a : Action AccountChoice Request} {R : Request → Prop}
    (h : stepHolds s a = true) (hR : ∀ request, a = .surroundings request → R request) :
    System.Meets (fun i {_} op w => LimiterHolds i op w) (fun request _ => R request) s a := by
  cases a with
  | task i choice =>
      intro β op next hi
      simp only [stepHolds, hi] at h
      exact limiterHolds_iff.mp h
  | surroundings request => exact hR request rfl
  | restart => trivial

/-- Six wrong passwords in one window, at times that do not go back and with room in the limiter. -/
theorem six_wrong_passwords : ∃ as s, Runs.Run (fun s a t =>
      (system saltedHashing).step s a = some t ∧
      System.Meets (fun i {_} op w => LimiterHolds i op w) (fun _ _ => True) s a)
        (initial .byName) as s ∧
    ¬ GuessingLimited s.world.journal := by
  have h : (Runs.exec (fun s a => if stepHolds s a then (system saltedHashing).step s a else none)
      (initial .byName) (signedInAdminRun ++ wrongRun 2 ++ wrongRun 3 ++ wrongRun 4 ++ shortRun 5 ++
        wrongRun 6 ++ wrongRun 7 ++ wrongRun 8)).any (fun s =>
      PER_ACCOUNT < guesses s.world.journal (changesPassword 1) 0
        (since (proves s.world.journal (changesPassword 1)) s.world.journal)) = true := by
    decide +kernel
  obtain ⟨s, hs, hmany⟩ := Option.any_eq_true .. |>.mp h
  refine ⟨_, s, Runs.run_of_exec_checked (fun s a hholds => ?_) hs, fun hlimited => ?_⟩
  · exact meets_of_stepHolds (R := fun _ => True) hholds fun _ _ => trivial
  · exact absurd (hlimited.passwords 1 0) (Nat.not_le_of_lt (of_decide_eq_true hmany))

/-- The step starts only what brings nothing malformed. -/
def startsWellFormed : Action AccountChoice Request → Bool
  | .surroundings (.changePassword _ _ newPassword) => (checkPassword newPassword).isOk
  | .surroundings (.acceptInvitation _ _ _ _ _) => false
  | _ => true

theorem wellFormed_of_starts {request : Request}
    (h : startsWellFormed (.surroundings request) = true) : request.wellFormed := by
  cases request with
  | changePassword token currentPassword newPassword =>
      simp only [startsWellFormed, Except.isOk, Except.toBool] at h
      change checkPassword newPassword = .ok ()
      cases hcheck : checkPassword newPassword with
      | ok a => rfl
      | error failure => simp [hcheck] at h
  | acceptInvitation => cases h
  | _ => trivial

theorem guessing_limited_changes : ∃ s : State,
    .began 4 (.passwordChange 1) 3 true ∈ s.world.journal ∧ GuessingLimited s.world.journal := by
  have h : (Runs.exec (fun s a => if stepHolds s a && startsWellFormed a then
      (system saltedHashing).step s a else none) (initial .byName)
      (signedInAdminRun ++ wrongRun 2 ++ wrongRun 3 ++ wrongRun 4)).any (fun s =>
      .began 4 (.passwordChange 1) 3 true ∈ s.world.journal) = true := by
    decide +kernel
  obtain ⟨s, hs, hbegan⟩ := Option.any_eq_true .. |>.mp h
  refine ⟨s, of_decide_eq_true hbegan, guessing_limited saltedHashing
    (Runs.run_of_exec_checked (fun s a hcheck => ?_) hs)⟩
  obtain ⟨hholds, hstarts⟩ := Bool.and_eq_true_iff.mp hcheck
  exact meets_of_stepHolds hholds fun request ha => wellFormed_of_starts (ha ▸ hstarts)

end Example

end Bokkie.Accounts
