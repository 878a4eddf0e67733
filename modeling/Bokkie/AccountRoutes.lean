import Bokkie.Journal
import Bokkie.LoginLimiter
import Bokkie.Tasks

/-!
# Signing in, passwords and invitations

What the gateway's routes do for a request about an account, as programs of calls on the database,
the limiter and the hash functions, and the system of any number of such requests at once. A journal
keeps what happened, with the task that did it.
-/

namespace Bokkie

open Tasks

namespace Accounts

/-- A call that a route makes. Each is one statement or one transaction, or one use of the
limiter. -/
inductive AccountCall : Type → Type
  | now : AccountCall ℤ
  | hashPassword (password : String) : AccountCall String
  | verifyPassword (password : String) (stored : Option String) : AccountCall Bool
  | begin (attempting : Attempting) (now : ℤ) : AccountCall (Option Attempt)
  | succeeded (attempt : Attempt) : AccountCall Unit
  | usernameExists (username : String) : AccountCall Bool
  | credentials (username : String) : AccountCall (Option UserRow)
  | storedPassword (user : ℕ) : AccountCall (Option String)
  | role (user : ℕ) : AccountCall (Option Role)
  | account (user : ℕ) : AccountCall (Option Account)
  | liveSession (now : ℤ) (token : String) : AccountCall (Option (SessionRow × Account))
  | touchSession (now : ℤ) (session : ℕ) : AccountCall Unit
  | createSession (now : ℤ) (user : ℕ) : AccountCall String
  | revokeSession (now : ℤ) (user session : ℕ) : AccountCall ℕ
  | bootstrapAdmin (now : ℤ) (username displayName passwordHash : String) :
      AccountCall (Except Failure ℕ)
  | adminUpdateUser (now : ℤ) (admin target : ℕ) (changes : AccountChanges) :
      AccountCall (Except Failure Account)
  | adminResetPassword (now : ℤ) (admin target : ℕ) (passwordHash : String) :
      AccountCall (Except Failure Unit)
  | acknowledgePasswordReset (user session : ℕ) : AccountCall Unit
  | changeOwnPassword (now : ℤ) (user currentSession : ℕ) (passwordHash : String) :
      AccountCall Unit
  | createInvitation (role : Role) (permissions : Permissions) (expiresAt : ℤ) :
      AccountCall (ℕ × String)
  | withdrawInvitation (now : ℤ) (id : ℕ) : AccountCall ℕ
  | invitation (now : ℤ) (code : String) : AccountCall (Option InvitationRow)
  | acceptInvitation (now : ℤ) (code username displayName : String) (role : Role)
      (permissions : Permissions) (passwordHash : String) : AccountCall (Except Failure ℕ)

/-- The work of a route. -/
abbrev Handler := ExceptT Failure (Prog AccountCall)

namespace Handler

variable {α : Type}

def call (op : AccountCall α) : Handler α := ExceptT.lift (Prog.perform op)

def transaction (op : AccountCall (Except Failure α)) : Handler α := ExceptT.mk (Prog.perform op)

def ofResult (result : Except Failure α) : Handler α := ExceptT.mk (pure result)

def found (a : Option α) (failure : Failure) : Handler α :=
  match a with
  | some a => pure a
  | none => throw failure

end Handler

open Handler

structure SignedIn where
  sessionId : ℕ
  account : Account

def findSession (now : ℤ) (token : String) : Handler (Option SignedIn) := do
  match ← call (.liveSession now token) with
  | none => return none
  | some (session, account) =>
    if now - session.lastSeenAt > HOUR_MS then call (.touchSession now session.id)
    return some ⟨session.id, account⟩

/-- The user that the session token of a request signs in. -/
def signedIn (token : Option String) : Handler SignedIn := do
  let token ← found token .unauthenticated
  let now ← call .now
  let session ← findSession now token
  found session .unauthenticated

def signedInAdmin (token : Option String) : Handler SignedIn := do
  let signedIn ← signedIn token
  if signedIn.account.role ≠ .admin then throw (.forbidden "Only an admin can do that")
  return signedIn

/-- The account, if the password is its own and it is not disabled. -/
def checkCredentials (username password : String) : Handler (Option Account) := do
  let row ← call (.credentials (usernameKey username))
  let ok ← call (.verifyPassword password (row.map (·.passwordHash)))
  return ((row.filter fun _ => ok).map accountFrom).filter fun account => !account.disabled

def changeOwnPassword (now : ℤ) (user currentSession : ℕ) (currentPassword newPassword : String) :
    Handler Unit := do
  ofResult (checkPassword newPassword)
  let stored ← call (.storedPassword user)
  let ok ← call (.verifyPassword currentPassword stored)
  if !ok then throw (.forbidden "The current password is wrong")
  let hash ← call (.hashPassword newPassword)
  call (.changeOwnPassword now user currentSession hash)

def adminResetPassword (now : ℤ) (admin target : ℕ) (newPassword : String) : Handler Unit := do
  -- the target is checked before time is spent on the password hash
  let role ← found (← call (.role target)) .notFound
  if role = .admin ∧ target ≠ admin then
    throw (.forbidden "No admin can reset another admin's password")
  ofResult (checkPassword newPassword)
  let hash ← call (.hashPassword newPassword)
  transaction (.adminResetPassword now admin target hash)

def acceptInvitation (now : ℤ) (code username displayName password : String) : Handler ℕ := do
  let username ← ofResult (normaliseUsername username)
  let displayName ← ofResult (normaliseDisplayName displayName)
  ofResult (checkPassword password)
  let invitation ← found (← call (.invitation now code)) Tables.invalidInvitation
  let hash ← call (.hashPassword password)
  transaction (.acceptInvitation now code username displayName invitation.role
    invitation.permissions hash)

namespace Routes

/-- The rejection for a rate-limited sign-in. -/
def rateLimited : Failure :=
  ⟨.rateLimited, "Too many sign-in attempts. Try again in a few minutes"⟩

/-- Only a wrong current password, or a refused code, counts against a limit. -/
def counts {α : Type} : Except Failure α → Bool
  | .error failure => failure.code = .forbidden
  | .ok _ => false

def login (username password address : String) : Handler (String × Account) := do
  let now ← call .now
  let accountExists ← call (.usernameExists (usernameKey username))
  let attempt ← found (← call (.begin (.signIn username address accountExists) now)) rateLimited
  let account ← found (← checkCredentials username password)
    ⟨.unauthenticated, "The username or password is wrong"⟩
  call (.succeeded attempt)
  let token ← call (.createSession now account.id)
  return (token, account)

def current (token : Option String) : Handler Account := do
  return (← signedIn token).account

def logout (token : Option String) : Handler Unit := do
  let signedIn ← signedIn token
  let now ← call .now
  if (← call (.revokeSession now signedIn.account.id signedIn.sessionId)) = 0 then throw .notFound

def acknowledgePasswordReset (token : Option String) : Handler Unit := do
  let signedIn ← signedIn token
  call (.acknowledgePasswordReset signedIn.account.id signedIn.sessionId)

def revokeSession (token : Option String) (session : ℕ) : Handler Unit := do
  let signedIn ← signedIn token
  let now ← call .now
  if (← call (.revokeSession now signedIn.account.id session)) = 0 then throw .notFound

def changePassword (token : Option String) (currentPassword newPassword : String) :
    Handler Unit := do
  let signedIn ← signedIn token
  let now ← call .now
  let attempt ← found (← call (.begin (.passwordChange signedIn.account.id) now)) rateLimited
  let result ← ExceptT.lift
    (changeOwnPassword now signedIn.account.id signedIn.sessionId currentPassword newPassword).run
  if !counts result then call (.succeeded attempt)
  ofResult result

def acceptInvitation (code username displayName password address : String) :
    Handler (String × Account) := do
  let now ← call .now
  let attempt ← found (← call (.begin (.invitation address) now)) rateLimited
  let result ← ExceptT.lift (Accounts.acceptInvitation now code username displayName password).run
  if !counts result then call (.succeeded attempt)
  let user ← ofResult result
  let account ← found (← call (.account user)) .notFound
  let token ← call (.createSession now user)
  return (token, account)

def updateUser (token : Option String) (target : ℕ) (changes : AccountChanges) :
    Handler Account := do
  let admin ← signedInAdmin token
  let now ← call .now
  transaction (.adminUpdateUser now admin.account.id target changes)

def resetPassword (token : Option String) (target : ℕ) (newPassword : String) : Handler Unit := do
  let admin ← signedInAdmin token
  let now ← call .now
  adminResetPassword now admin.account.id target newPassword

def createInvitation (token : Option String) (role : Role) (permissions : Permissions)
    (displayName : Option String) (expiresInHours : Option ℕ) : Handler (ℕ × String × ℤ) := do
  let _ ← signedInAdmin token
  let now ← call .now
  ofResult (checkPermissions role permissions)
  let _ ← ofResult (displayName.mapM normaliseDisplayName)
  let lifetime := match expiresInHours with
    | some hours => hours * HOUR_MS
    | none => INVITATION_DEFAULT_MS
  if lifetime ≤ 0 ∨ lifetime > INVITATION_MAX_MS then
    throw (.invalid "Invitations last from 1 hour to 30 days")
  let (id, code) ← call (.createInvitation role permissions (now + lifetime))
  return (id, code, now + lifetime)

def withdrawInvitation (token : Option String) (id : ℕ) : Handler Unit := do
  let _ ← signedInAdmin token
  let now ← call .now
  if (← call (.withdrawInvitation now id)) = 0 then throw .notFound

/-- The command that makes the first admin. -/
def bootstrapAdmin (username displayName password : String) : Handler Account := do
  let now ← call .now
  let username ← ofResult (normaliseUsername username)
  let displayName ← ofResult (normaliseDisplayName displayName)
  ofResult (checkPassword password)
  let hash ← call (.hashPassword password)
  let id ← transaction (.bootstrapAdmin now username displayName hash)
  found (← call (.account id)) .notFound

end Routes

/-- A request about an account. -/
inductive Request where
  | login (username password address : String)
  | current (token : Option String)
  | logout (token : Option String)
  | acknowledgePasswordReset (token : Option String)
  | revokeSession (token : Option String) (session : ℕ)
  | changePassword (token : Option String) (currentPassword newPassword : String)
  | acceptInvitation (code username displayName password address : String)
  | updateUser (token : Option String) (target : ℕ) (changes : AccountChanges)
  | resetPassword (token : Option String) (target : ℕ) (newPassword : String)
  | createInvitation (token : Option String) (role : Role) (permissions : Permissions)
      (displayName : Option String) (expiresInHours : Option ℕ)
  | withdrawInvitation (token : Option String) (id : ℕ)
  | bootstrapAdmin (username displayName password : String)

/-- A route whose answer goes to the client. -/
def answered {α : Type} (handler : Handler α) : Prog AccountCall Unit := do
  let _ ← handler.run
  return

def Request.prog : Request → Prog AccountCall Unit
  | .login username password address => answered (Routes.login username password address)
  | .current token => answered (Routes.current token)
  | .logout token => answered (Routes.logout token)
  | .acknowledgePasswordReset token => answered (Routes.acknowledgePasswordReset token)
  | .revokeSession token session => answered (Routes.revokeSession token session)
  | .changePassword token currentPassword newPassword =>
    answered (Routes.changePassword token currentPassword newPassword)
  | .acceptInvitation code username displayName password address =>
    answered (Routes.acceptInvitation code username displayName password address)
  | .updateUser token target changes => answered (Routes.updateUser token target changes)
  | .resetPassword token target newPassword =>
    answered (Routes.resetPassword token target newPassword)
  | .createInvitation token role permissions displayName expiresInHours =>
    answered (Routes.createInvitation token role permissions displayName expiresInHours)
  | .withdrawInvitation token id => answered (Routes.withdrawInvitation token id)
  | .bootstrapAdmin username displayName password =>
    answered (Routes.bootstrapAdmin username displayName password)

/-- What happened, and the task that did it. -/
inductive AccountEvent where
  /-- A request reached the limiter. -/
  | began (task : ℕ) (attempting : Attempting) (now : ℤ) (admitted : Bool)
  /-- An attempt was taken back. -/
  | succeeded (task : ℕ) (attempt : Attempt)
  /-- A password was checked. -/
  | verified (task : ℕ) (ok : Bool)
  /-- An invitation code was looked up, or used. -/
  | lookedUp (task : ℕ) (ok : Bool)
  /-- A sign-in took the stored password that it checks, or an accepted invitation stored one. -/
  | signIn (task user : ℕ)
  | created (task user session : ℕ)
  /-- An own change took the stored password that it checks. -/
  | confirmed (task user : ℕ)
  | changed (task user session : ℕ) (passwordHash : String)
  | reset (user : ℕ) (passwordHash : String) (recorded : Option ℤ)
  | disabled (user : ℕ)
  /-- The record of a reset was cleared. -/
  | acknowledged (user session : ℕ)
deriving DecidableEq

/-- The tables, the limiter, and what happened. -/
structure AccountState where
  tables : Tables
  limiter : LoginLimiter
  journal : List AccountEvent

namespace AccountState

def initial (order : LoginLimiter.Order) : AccountState := ⟨.initial, .initial order, []⟩

def record (w : AccountState) (events : List AccountEvent) : AccountState :=
  { w with journal := w.journal ++ events }

def withTables (w : AccountState) (tables : Tables) : AccountState := { w with tables := tables }

def withLimiter (w : AccountState) (limiter : LoginLimiter) : AccountState :=
  { w with limiter := limiter }

/-- A transaction that can fail: it leaves the tables as they are then. -/
def commit {α β : Type} (w : AccountState) (result : Except Failure (α × Tables)) (answer : α → β)
    (events : α → List AccountEvent) (failed : List AccountEvent) :
    Except Failure β × AccountState :=
  match result with
  | .ok (a, tables) => (.ok (answer a), (w.withTables tables).record (events a))
  | .error failure => (.error failure, w.record failed)

end AccountState

/-- What the clock and the random source answer. -/
inductive AccountChoice where
  | none
  | time (now : ℤ)
  | text (random : String)

namespace AccountChoice

def asTime : AccountChoice → Option ℤ
  | .time now => some now
  | _ => Option.none

def asText : AccountChoice → Option String
  | .text random => some random
  | _ => Option.none

end AccountChoice

/-- What a change of an account is in the journal. -/
def disables (target : ℕ) (changes : AccountChanges) : List AccountEvent :=
  if changes.disabled = some true then [.disabled target] else []

/-- The answer to a task's call, and what the call does. -/
def AccountState.answer (w : AccountState) (h : Hashing) (task : ℕ) (choice : AccountChoice)
    {β : Type} : AccountCall β → Option (β × AccountState)
  | .now => choice.asTime.map (·, w)
  | .hashPassword password => choice.asText.map fun salt => (h.argon2 salt password, w)
  | .verifyPassword password stored =>
    let ok := h.verifyPassword password stored
    some (ok, w.record [.verified task ok])
  | .begin attempting now =>
    let (attempt, limiter) := w.limiter.begin attempting now
    some (attempt, (w.withLimiter limiter).record [.began task attempting now attempt.isSome])
  | .succeeded attempt =>
    some ((), (w.withLimiter (w.limiter.succeeded attempt)).record [.succeeded task attempt])
  | .usernameExists username => some ((w.tables.byUsername username).isSome, w)
  | .credentials username =>
    let row := w.tables.byUsername username
    some (row, w.record (row.toList.map fun row => .signIn task row.id))
  | .storedPassword user =>
    some ((w.tables.user user).map (·.passwordHash), w.record [.confirmed task user])
  | .role user => some ((w.tables.user user).map (·.role), w)
  | .account user => some ((w.tables.user user).map accountFrom, w)
  | .liveSession now token =>
    some ((w.tables.liveSession now (h.sha256 token)).map fun (session, row) =>
      (session, accountFrom row), w)
  | .touchSession now session => some ((), w.withTables (w.tables.touchSession now session))
  | .createSession now user =>
    -- a token is random, and its hash unique
    choice.asText.bind fun token =>
      if w.tables.sessions.any fun row => row.tokenHash = h.sha256 token then none
      else some (token, (w.withTables (w.tables.createSession now user (h.sha256 token))).record
        [.created task user (nextId (w.tables.sessions.map (·.id)))])
  | .revokeSession now user session =>
    let (revoked, tables) := w.tables.revokeSession now user session
    some (revoked, w.withTables tables)
  | .bootstrapAdmin now username displayName passwordHash =>
    some (w.commit (w.tables.bootstrapAdmin now username displayName passwordHash) id
      (fun _ => []) [])
  | .adminUpdateUser now admin target changes =>
    some (w.commit (w.tables.adminUpdateUser now admin target changes) id
      (fun _ => disables target changes) [])
  | .adminResetPassword now admin target passwordHash =>
    some (w.commit (w.tables.adminResetPassword now admin target passwordHash) (fun _ => ())
      (fun recorded => [.reset target passwordHash recorded]) [])
  | .acknowledgePasswordReset user session =>
    let (cleared, tables) := w.tables.acknowledgePasswordReset user session
    some ((), (w.withTables tables).record (if cleared then [.acknowledged user session] else []))
  | .changeOwnPassword now user currentSession passwordHash =>
    some ((), (w.withTables
      (w.tables.changeOwnPassword now user currentSession passwordHash)).record
        [.changed task user currentSession passwordHash])
  | .createInvitation role permissions expiresAt =>
    choice.asText.bind fun code =>
      if w.tables.invitations.any fun row => row.codeHash = h.sha256 code then none
      else
        let (id, tables) := w.tables.createInvitation (h.sha256 code) role permissions expiresAt
        some ((id, code), w.withTables tables)
  | .withdrawInvitation now id =>
    let (withdrawn, tables) := w.tables.withdrawInvitation now id
    some (withdrawn, w.withTables tables)
  | .invitation now code =>
    let row := w.tables.invitation now (h.sha256 (trim code))
    some (row, w.record [.lookedUp task row.isSome])
  | .acceptInvitation now code username displayName role permissions passwordHash =>
    let result := w.tables.acceptInvitation now (h.sha256 (trim code)) username displayName role
      permissions passwordHash
    some (w.commit result id (fun user => [.signIn task user])
      (if Routes.counts result then [.lookedUp task false] else []))

/-- Any number of requests at once. -/
def system (h : Hashing) : System AccountCall AccountState AccountChoice Request where
  answer := fun task {_} op choice w => w.answer h task choice op
  surroundings := fun request w => some (w, [request.prog])
  restart := fun _ => none

abbrev State := Pool AccountCall AccountState

def initial (order : LoginLimiter.Order) : State := ⟨.initial order, []⟩

theorem commit_cases {w : AccountState} {α β : Type} {result : Except Failure (α × Tables)}
    {answer : α → β} {events : α → List AccountEvent} {failed : List AccountEvent} {r : Except Failure β × AccountState}
    (hr : w.commit result answer events failed = r) :
    (∃ a t, result = .ok (a, t) ∧ r = (.ok (answer a), (w.withTables t).record (events a))) ∨
      ∃ failure, result = .error failure ∧ r = (.error failure, w.record failed) := by
  subst hr
  cases result with
  | ok found => exact .inl ⟨found.1, found.2, rfl, rfl⟩
  | error failure => exact .inr ⟨failure, rfl, rfl⟩

section Obeys

variable {Φ α β : Type} {D : Discipline AccountCall Φ} {φ : Φ} {Q : Except Failure α → Φ → Prop}

theorem obeys_call {op : AccountCall β} {f : β → Handler α} :
    D.Obeys φ (call op >>= f).run Q ↔ D.allows φ op ∧ ∀ r, D.Obeys (D.after φ op r) (f r).run Q :=
  Discipline.obeys_runPerform

theorem obeys_transaction {op : AccountCall (Except Failure α)} :
    D.Obeys φ (transaction op).run Q ↔ D.allows φ op ∧ ∀ r, Q r (D.after φ op r) := Iff.rfl

theorem obeys_found {a : Option β} {failure : Failure} {f : β → Handler α}
    (hnone : a = none → Q (.error failure) φ) (hsome : ∀ b, a = some b → D.Obeys φ (f b).run Q) :
    D.Obeys φ (found a failure >>= f).run Q := by
  cases a with
  | none => exact hnone rfl
  | some b => exact hsome b rfl

theorem obeys_ofResult {result : Except Failure β} {f : β → Handler α}
    (herror : ∀ failure, result = .error failure → Q (.error failure) φ)
    (hok : ∀ b, result = .ok b → D.Obeys φ (f b).run Q) :
    D.Obeys φ (ofResult result >>= f).run Q := by
  cases result with
  | error failure => exact herror failure rfl
  | ok b => exact hok b rfl

/-- What a route ends with, failures included. -/
theorem obeys_attempt {p : Handler β} {f : Except Failure β → Handler α}
    {P : Except Failure β → Φ → Prop} (hp : D.Obeys φ p.run P)
    (hf : ∀ r φ', P r φ' → D.Obeys φ' (f r).run Q) :
    D.Obeys φ (ExceptT.lift p.run >>= f).run Q := by
  rw [Discipline.obeys_runBind, Discipline.obeys_runLift]
  exact hp.mono hf

end Obeys

/-- A call that neither checks a secret, nor counts an attempt, nor lets anyone in. -/
def AccountCall.plain {β : Type} : AccountCall β → Prop
  | .begin _ _ | .succeeded _ | .verifyPassword _ _ | .credentials _ | .storedPassword _
  | .createSession _ _ | .changeOwnPassword _ _ _ _ | .invitation _ _
  | .acceptInvitation _ _ _ _ _ _ _ => False
  | _ => True

/-- A route makes only plain calls. -/
structure Plain {α : Type} (handler : Handler α) : Prop where
  only : handler.run.Only fun {_} op => op.plain

section Plain

variable {α β : Type}

theorem plain_pure (a : α) : Plain (pure a) := ⟨trivial⟩

theorem plain_throw (failure : Failure) : Plain (throw failure : Handler α) := ⟨trivial⟩

theorem plain_call {op : AccountCall α} (h : op.plain) : Plain (call op) :=
  ⟨Prog.Only.runLift (Prog.only_perform h)⟩

theorem plain_transaction {op : AccountCall (Except Failure α)} (h : op.plain) :
    Plain (transaction op) := ⟨Prog.only_perform h⟩

theorem Plain.bind {p : Handler β} {f : β → Handler α} (hp : Plain p) (hf : ∀ b, Plain (f b)) :
    Plain (p >>= f) := ⟨Prog.Only.runBind hp.only fun b => (hf b).only⟩

theorem plain_found (a : Option α) (failure : Failure) : Plain (found a failure) := by
  cases a with
  | none => exact plain_throw failure
  | some a => exact plain_pure a

theorem plain_ofResult (result : Except Failure α) : Plain (ofResult result) := ⟨trivial⟩

theorem plain_unless {b : Prop} [Decidable b] {failure : Failure} {p : Handler α} (hp : Plain p) :
    Plain (do
      if b then throw failure
      p) := by
  by_cases hb : b
  · simpa only [hb, if_true] using Plain.bind (plain_throw failure) fun _ => hp
  · simpa only [hb, if_false] using hp

theorem plain_findSession (now : ℤ) (token : String) : Plain (findSession now token) := by
  unfold findSession
  refine Plain.bind (plain_call trivial) fun session => ?_
  cases session with
  | none => exact plain_pure _
  | some session =>
      simp only
      split
      · exact Plain.bind (plain_call trivial) fun _ => plain_pure _
      · exact plain_pure _

theorem plain_signedIn (token : Option String) : Plain (signedIn token) :=
  (plain_found _ _).bind fun _ => Plain.bind (plain_call trivial) fun _ =>
    (plain_findSession _ _).bind fun _ =>
    plain_found _ _

theorem plain_signedInAdmin (token : Option String) : Plain (signedInAdmin token) :=
  (plain_signedIn token).bind fun _ => plain_unless (plain_pure _)

theorem plain_adminResetPassword (now : ℤ) (admin target : ℕ) (newPassword : String) :
    Plain (adminResetPassword now admin target newPassword) :=
  Plain.bind (plain_call trivial) fun _ => (plain_found _ _).bind fun _ => plain_unless
    ((plain_ofResult _).bind fun _ => Plain.bind (plain_call trivial) fun _ =>
      plain_transaction trivial)

theorem plain_bootstrapAdmin (username displayName password : String) :
    Plain (Routes.bootstrapAdmin username displayName password) := by
  unfold Routes.bootstrapAdmin
  refine Plain.bind (plain_call trivial) fun now => ?_
  refine Plain.bind (plain_ofResult _) fun username => ?_
  refine Plain.bind (plain_ofResult _) fun displayName => ?_
  refine Plain.bind (plain_ofResult _) fun _ => ?_
  refine Plain.bind (plain_call trivial) fun hash => ?_
  exact Plain.bind (plain_transaction trivial) fun id => Plain.bind (plain_call trivial) fun account =>
    plain_found _ _

/-- The routes that touch neither a limit nor a sign-in. -/
def Request.isPlain : Request → Bool
  | .login _ _ _ | .changePassword _ _ _ | .acceptInvitation _ _ _ _ _ => false
  | _ => true

theorem plain_answered {handler : Handler α} (h : Plain handler) :
    (answered handler).Only fun {_} op => op.plain :=
  Prog.Only.bind h.only fun _ => trivial

theorem Request.plain_prog {request : Request} (h : request.isPlain) :
    request.prog.Only fun {_} op => op.plain := by
  cases request with
  | login | changePassword | acceptInvitation => cases h
  | current token => exact plain_answered ((plain_signedIn token).bind fun _ => plain_pure _)
  | logout token =>
      exact plain_answered ((plain_signedIn token).bind fun _ =>
        Plain.bind (plain_call trivial) fun _ =>
        Plain.bind (plain_call trivial) fun _ => plain_unless (plain_pure _))
  | acknowledgePasswordReset token =>
      exact plain_answered ((plain_signedIn token).bind fun _ => plain_call trivial)
  | revokeSession token session =>
      exact plain_answered ((plain_signedIn token).bind fun _ =>
        Plain.bind (plain_call trivial) fun _ =>
        Plain.bind (plain_call trivial) fun _ => plain_unless (plain_pure _))
  | updateUser token target changes =>
      exact plain_answered ((plain_signedInAdmin token).bind fun _ =>
        Plain.bind (plain_call trivial) fun _ =>
        (plain_transaction trivial))
  | resetPassword token target newPassword =>
      exact plain_answered ((plain_signedInAdmin token).bind fun _ =>
        Plain.bind (plain_call trivial) fun _ =>
        plain_adminResetPassword _ _ _ _)
  | createInvitation token role permissions displayName expiresInHours =>
      exact plain_answered ((plain_signedInAdmin token).bind fun _ =>
        Plain.bind (plain_call trivial) fun _ =>
        (plain_ofResult _).bind fun _ => (plain_ofResult _).bind fun _ =>
          plain_unless (Plain.bind (plain_call trivial) fun _ => plain_pure _))
  | withdrawInvitation token id =>
      exact plain_answered ((plain_signedInAdmin token).bind fun _ =>
        Plain.bind (plain_call trivial) fun _ =>
        Plain.bind (plain_call trivial) fun _ => plain_unless (plain_pure _))
  | bootstrapAdmin username displayName password =>
      exact plain_answered (plain_bootstrapAdmin username displayName password)

end Plain

section Example

/-- Hashing with salts of four characters. -/
def saltedHashing : Hashing where
  argon2 := fun salt password => salt ++ password
  verifies := fun password stored => stored.toList.drop 4 = password.toList
  sha256 := fun text => text
  dummy := "saltbokkie-dummy-password"

/-- The first admin is made and signs in. -/
def signedInAdminRun : List (Action AccountChoice Request) :=
  [.surroundings (.bootstrapAdmin "rob" "Rob" "first password"), .task 0 (.time 1),
    .task 0 (.text "salt"), .task 0 .none, .task 0 .none,
    .surroundings (.login "rob" "first password" "10.0.0.1"), .task 1 (.time 2), .task 1 .none,
    .task 1 .none, .task 1 .none, .task 1 .none, .task 1 .none, .task 1 (.text "one")]

end Example

end Accounts

end Bokkie
