import Mathlib.Algebra.Group.Nat.Defs
import Mathlib.Data.Int.Basic

/-!
# Accounts, sessions and invitations

The rows the gateway keeps of its users, their sessions and the invitations, the checks that names
and passwords pass before they are stored, and the transactions that change the rows. Argon2 and
SHA-256 are parameters.
-/

namespace Bokkie

inductive ErrorCode where
  | invalidRequest
  | unauthenticated
  | forbidden
  | notFound
  | conflict
  | rateLimited
  | limitReached
  | unavailable
  | internal
deriving DecidableEq

/-- A failed request. -/
structure Failure where
  code : ErrorCode
  message : String
deriving DecidableEq

namespace Failure

def invalid (message : String) : Failure := ⟨.invalidRequest, message⟩

def unauthenticated : Failure := ⟨.unauthenticated, "Sign in to continue"⟩

def forbidden (message : String) : Failure := ⟨.forbidden, message⟩

def notFound : Failure := ⟨.notFound, "Not found"⟩

def conflict (message : String) : Failure := ⟨.conflict, message⟩

def unavailable (message : String) : Failure := ⟨.unavailable, message⟩

def internal : Failure := ⟨.internal, "Something went wrong"⟩

end Failure

/-- The characters that `str::trim` trims: Unicode's `White_Space`. -/
def isWhitespace (c : Char) : Bool :=
  (9 ≤ c.val ∧ c.val ≤ 13) ∨ c.val = 32 ∨ c.val = 0x85 ∨ c.val = 0xA0 ∨ c.val = 0x1680 ∨
    (0x2000 ≤ c.val ∧ c.val ≤ 0x200A) ∨ c.val = 0x2028 ∨ c.val = 0x2029 ∨ c.val = 0x202F ∨
    c.val = 0x205F ∨ c.val = 0x3000

def trim (s : String) : String :=
  String.ofList (((s.toList.dropWhile isWhitespace).reverse.dropWhile isWhitespace).reverse)

/-- `str::to_ascii_lowercase`. -/
def toAsciiLowercase (s : String) : String := String.ofList (s.toList.map Char.toLower)

/-- `char::is_control`: Unicode's `Cc`. -/
def isControl (c : Char) : Bool := c.val ≤ 0x1F ∨ (0x7F ≤ c.val ∧ c.val ≤ 0x9F)

namespace Accounts

def HOUR_MS : ℤ := 3600000

def DAY_MS : ℤ := 24 * HOUR_MS

/-- A session lasts this long after its last use. -/
def SESSION_IDLE_MS : ℤ := 400 * DAY_MS

def INVITATION_DEFAULT_MS : ℤ := 3 * DAY_MS

def INVITATION_MAX_MS : ℤ := 30 * DAY_MS

def MIN_PASSWORD_CHARS : ℕ := 10

def MAX_PASSWORD_BYTES : ℕ := 256

/-- A username as it is stored and looked up. -/
def usernameKey (username : String) : String := toAsciiLowercase (trim username)

def normaliseUsername (username : String) : Except Failure String :=
  let username := usernameKey username
  let valid := (2 ≤ username.utf8ByteSize ∧ username.utf8ByteSize ≤ 32) ∧
    (username.toList.all fun c => c.isLower ∨ c.isDigit ∨ c ∈ ['.', '_', '-']) ∧
    (username.toList.head?.any Char.isAlphanum)
  if valid then .ok username
  else .error (.invalid "Usernames have 2 to 32 letters, digits, dots, dashes or underscores")

def normaliseDisplayName (name : String) : Except Failure String :=
  let name := trim name
  if (1 ≤ name.length ∧ name.length ≤ 64) ∧ !name.toList.any isControl then .ok name
  else .error (.invalid "Display names have 1 to 64 characters")

/-- `check_new_password`. -/
def checkPassword (password : String) : Except Failure Unit :=
  if password.length < MIN_PASSWORD_CHARS then
    .error (.invalid ("Passwords need at least " ++ toString MIN_PASSWORD_CHARS ++ " characters"))
  else if MAX_PASSWORD_BYTES < password.utf8ByteSize then
    .error (.invalid ("Passwords may have at most " ++ toString MAX_PASSWORD_BYTES ++ " bytes"))
  else .ok ()

/-- The hash functions the gateway uses. -/
structure Hashing where
  /-- Argon2id with a salt. -/
  argon2 : (salt password : String) → String
  /-- Whether a stored text is an Argon2id hash, and of this password. -/
  verifies : (password stored : String) → Bool
  sha256 : String → String
  /-- The hash verified against where no password is stored. -/
  dummy : String

def Hashing.verifyPassword (h : Hashing) (password : String) (stored : Option String) : Bool :=
  if MAX_PASSWORD_BYTES < password.utf8ByteSize then false
  else h.verifies password (stored.getD h.dummy) && stored.isSome

inductive Role where
  | admin
  | member
deriving DecidableEq

structure Permissions where
  mayCreateBots : Bool
  mayEditBotProfiles : Bool
deriving DecidableEq

/-- Both on. -/
def Permissions.default : Permissions := ⟨true, true⟩

/-- What an admin allows an account; `none` is no limit. -/
structure Limits where
  dailyTurns : Option ℕ
  weeklyTokens : Option ℕ
deriving DecidableEq

/-- The limits as their columns hold them, tokens in an `i64`. -/
def Limits.stored (limits : Limits) : Limits :=
  { limits with weeklyTokens := limits.weeklyTokens.map (min (2 ^ 63 - 1)) }

structure UserRow where
  id : ℕ
  username : String
  displayName : String
  role : Role
  disabled : Bool
  createdAt : ℤ
  permissions : Permissions
  oversight : Bool
  oversightChangedAt : Option ℤ
  limits : Limits
  passwordHash : String
  /-- When an admin reset the password, until the owner acknowledges it. -/
  passwordResetByAdminAt : Option ℤ

structure SessionRow where
  id : ℕ
  userId : ℕ
  tokenHash : String
  lastSeenAt : ℤ
  expiresAt : ℤ
  revokedAt : Option ℤ

structure InvitationRow where
  id : ℕ
  codeHash : String
  role : Role
  permissions : Permissions
  expiresAt : ℤ
  usedAt : Option ℤ
  usedBy : Option ℕ
  withdrawnAt : Option ℤ

/-- What the gateway shows of a user row. -/
structure Account where
  id : ℕ
  username : String
  displayName : String
  role : Role
  disabled : Bool
  createdAt : ℤ
  permissions : Permissions
  oversight : Bool
  oversightChangedAt : Option ℤ
  limits : Limits
  passwordResetByAdmin : Option ℤ

/-- `account_from`: an admin always has both permissions, and is never overseen. -/
def accountFrom (row : UserRow) : Account :=
  let admin : Bool := row.role = .admin
  { id := row.id
    username := row.username
    displayName := row.displayName
    role := row.role
    disabled := row.disabled
    createdAt := row.createdAt
    permissions := ⟨admin || row.permissions.mayCreateBots, admin || row.permissions.mayEditBotProfiles⟩
    oversight := !admin && row.oversight
    oversightChangedAt := row.oversightChangedAt
    limits := row.limits
    passwordResetByAdmin := row.passwordResetByAdminAt }

def checkPermissions (role : Role) (permissions : Permissions) : Except Failure Unit :=
  if role = .admin ∧ permissions ≠ .default then
    .error (.invalid "Admins always have both permissions")
  else .ok ()

/-- What an admin changes about an account; `none` leaves a field alone. -/
structure AccountChanges where
  displayName : Option String
  disabled : Option Bool
  limits : Option Limits
  permissions : Option Permissions
  oversight : Option Bool

namespace AccountChanges

/-- What is refused of a change, in order; else the display name to store, and the account. -/
def check (changes : AccountChanges) (admin target : ℕ) (row : Option UserRow) :
    Except Failure (Option String × UserRow) := do
  if target = admin ∧ changes.disabled = some true then
    throw (.invalid "You cannot disable your own account")
  let displayName ← changes.displayName.mapM normaliseDisplayName
  match row with
  | none => throw .notFound
  | some row =>
    if row.role = .admin ∧ changes.oversight = some true then
      throw (.forbidden "Oversight applies to members only")
    if let some permissions := changes.permissions then checkPermissions row.role permissions
    return (displayName, row)

def apply (changes : AccountChanges) (now : ℤ) (displayName : Option String) (row : UserRow) :
    UserRow :=
  let oversight := changes.oversight.getD row.oversight
  { row with
    permissions := changes.permissions.getD row.permissions
    -- the time records when it last changed, not when it was last set
    oversightChangedAt := if row.oversight ≠ oversight then some now else row.oversightChangedAt
    oversight := oversight
    displayName := displayName.getD row.displayName
    disabled := changes.disabled.getD row.disabled
    limits := (changes.limits.map Limits.stored).getD row.limits }

end AccountChanges

/-- The tables of accounts. -/
structure Tables where
  users : List UserRow
  sessions : List SessionRow
  invitations : List InvitationRow

/-- The id of a new row: one more than the greatest. -/
def nextId (ids : List ℕ) : ℕ := ids.foldr max 0 + 1

theorem lt_nextId {ids : List ℕ} {i : ℕ} (h : i ∈ ids) : i < nextId ids := by
  induction ids with
  | nil => cases h
  | cons j ids ih =>
      rw [nextId, List.foldr_cons]
      rcases List.mem_cons.mp h with rfl | h
      · omega
      · have := ih h
        rw [nextId] at this
        omega

namespace Tables

def initial : Tables := ⟨[], [], []⟩

def user (t : Tables) (id : ℕ) : Option UserRow := t.users.find? fun row => row.id = id

def byUsername (t : Tables) (username : String) : Option UserRow :=
  t.users.find? fun row => row.username = username

def updateUser (t : Tables) (id : ℕ) (f : UserRow → UserRow) : Tables :=
  { t with users := t.users.map fun row => if row.id = id then f row else row }

/-- `revoke_all_sessions`. -/
def revokeAllSessions (t : Tables) (now : ℤ) (user : ℕ) (except : Option ℕ) : Tables :=
  { t with sessions := t.sessions.map fun row =>
      if row.userId = user ∧ row.revokedAt = none ∧ some row.id ≠ except then
        { row with revokedAt := some now }
      else row }

/-- `revoke_session`, with the number of rows it changed. -/
def revokeSession (t : Tables) (now : ℤ) (user session : ℕ) : ℕ × Tables :=
  let revokes (row : SessionRow) : Bool :=
    row.id = session ∧ row.userId = user ∧ row.revokedAt = none
  (t.sessions.countP revokes,
    { t with sessions := t.sessions.map fun row =>
        if revokes row then { row with revokedAt := some now } else row })

/-- The live session of a token: not revoked, not expired, of an account that is not disabled. -/
def liveSession (t : Tables) (now : ℤ) (tokenHash : String) : Option (SessionRow × UserRow) := do
  let session ← t.sessions.find? fun row =>
    row.tokenHash = tokenHash ∧ row.revokedAt = none ∧ now < row.expiresAt
  let row ← t.user session.userId
  if row.disabled then none else some (session, row)

def touchSession (t : Tables) (now : ℤ) (session : ℕ) : Tables :=
  { t with sessions := t.sessions.map fun row =>
      if row.id = session then
        { row with lastSeenAt := now, expiresAt := now + SESSION_IDLE_MS }
      else row }

/-- The insert of `create_session`. -/
def createSession (t : Tables) (now : ℤ) (user : ℕ) (tokenHash : String) : Tables :=
  { t with sessions := t.sessions ++ [{
      id := nextId (t.sessions.map (·.id))
      userId := user
      tokenHash := tokenHash
      lastSeenAt := now
      expiresAt := now + SESSION_IDLE_MS
      revokedAt := none }] }

def insertUser (t : Tables) (now : ℤ) (username displayName : String) (role : Role)
    (permissions : Permissions) (passwordHash : String) : Except Failure (ℕ × Tables) := do
  checkPermissions role permissions
  if (t.byUsername username).isSome then throw (.conflict "That username is taken")
  let id := nextId (t.users.map (·.id))
  return (id, { t with users := t.users ++ [{
    id := id
    username := username
    displayName := displayName
    role := role
    disabled := false
    createdAt := now
    permissions := permissions
    oversight := false
    oversightChangedAt := none
    limits := ⟨none, none⟩
    passwordHash := passwordHash
    passwordResetByAdminAt := none }] })

/-- The transaction of `bootstrap_admin`. -/
def bootstrapAdmin (t : Tables) (now : ℤ) (username displayName passwordHash : String) :
    Except Failure (ℕ × Tables) := do
  if t.users.any fun row => row.role = .admin then throw (.conflict "An admin already exists")
  t.insertUser now username displayName .admin .default passwordHash

/-- The transaction of `admin_update_user`. -/
def adminUpdateUser (t : Tables) (now : ℤ) (admin target : ℕ) (changes : AccountChanges) :
    Except Failure (Account × Tables) := do
  let (displayName, row) ← changes.check admin target (t.user target)
  let t := t.updateUser target (changes.apply now displayName)
  let t := if changes.disabled = some true then t.revokeAllSessions now target none else t
  return (accountFrom (changes.apply now displayName row), t)

/-- A new password, with the time an admin set it, if that is recorded. -/
def resetPassword (passwordHash : String) (resetByAdmin : Option ℤ) (row : UserRow) : UserRow :=
  { row with
    passwordHash := passwordHash
    passwordResetByAdminAt := resetByAdmin.or row.passwordResetByAdminAt }

/-- The transaction of `admin_reset_password`, with the time it recorded for a member. -/
def adminResetPassword (t : Tables) (now : ℤ) (admin target : ℕ) (passwordHash : String) :
    Except Failure (Option ℤ × Tables) :=
  match t.user target with
  | none => .error .notFound
  | some row =>
    if row.role = .admin ∧ target ≠ admin then
      .error (.forbidden "No admin can reset another admin's password")
    else
      let resetByAdmin := if row.role = .member then some now else none
      .ok (resetByAdmin, (t.updateUser target (resetPassword passwordHash resetByAdmin)
        ).revokeAllSessions now target none)

/-- The update of `acknowledge_password_reset`, with whether the session is live enough for it. -/
def acknowledgePasswordReset (t : Tables) (user session : ℕ) : Bool × Tables :=
  if t.sessions.any fun row => row.id = session ∧ row.userId = user ∧ row.revokedAt = none then
    (true, t.updateUser user fun row => { row with passwordResetByAdminAt := none })
  else (false, t)

/-- The transaction of `change_own_password`. -/
def changeOwnPassword (t : Tables) (now : ℤ) (user currentSession : ℕ) (passwordHash : String) :
    Tables :=
  (t.updateUser user fun row => { row with passwordHash := passwordHash }).revokeAllSessions
    now user (some currentSession)

/-- An invitation that can be used. -/
def isOutstanding (now : ℤ) (codeHash : String) (row : InvitationRow) : Bool :=
  row.codeHash = codeHash ∧ row.usedAt = none ∧ row.withdrawnAt = none ∧ now < row.expiresAt

def invitation (t : Tables) (now : ℤ) (codeHash : String) : Option InvitationRow :=
  t.invitations.find? (isOutstanding now codeHash)

def createInvitation (t : Tables) (codeHash : String) (role : Role) (permissions : Permissions)
    (expiresAt : ℤ) : ℕ × Tables :=
  let id := nextId (t.invitations.map (·.id))
  (id, { t with invitations := t.invitations ++ [{
    id := id
    codeHash := codeHash
    role := role
    permissions := permissions
    expiresAt := expiresAt
    usedAt := none
    usedBy := none
    withdrawnAt := none }] })

/-- `admin_withdraw_invitation`, with the number of rows it changed. -/
def withdrawInvitation (t : Tables) (now : ℤ) (id : ℕ) : ℕ × Tables :=
  let withdraws (row : InvitationRow) : Bool :=
    row.id = id ∧ row.usedAt = none ∧ row.withdrawnAt = none
  (t.invitations.countP withdraws,
    { t with invitations := t.invitations.map fun row =>
        if withdraws row then { row with withdrawnAt := some now } else row })

/-- That a code cannot be used reads the same whatever is wrong with it. -/
def invalidInvitation : Failure := .forbidden "That invitation is not valid"

def useInvitation (t : Tables) (now : ℤ) (codeHash : String) (user : ℕ) : Tables :=
  { t with invitations := t.invitations.map fun row =>
      if isOutstanding now codeHash row then { row with usedAt := some now, usedBy := some user }
      else row }

/-- The transaction of `accept_invitation`: the account and the use of the code together. -/
def acceptInvitation (t : Tables) (now : ℤ) (codeHash username displayName : String) (role : Role)
    (permissions : Permissions) (passwordHash : String) : Except Failure (ℕ × Tables) := do
  let (user, t) ← t.insertUser now username displayName role permissions passwordHash
  let consumed := t.invitations.countP (isOutstanding now codeHash)
  if consumed ≠ 1 then throw invalidInvitation
  return (user, t.useInvitation now codeHash user)

section Specs

variable {ε α β : Type} {t t' : Tables} {now : ℤ}

theorem bind_eq_ok {x : Except ε α} {f : α → Except ε β} {b : β} :
    (x >>= f) = .ok b ↔ ∃ a, x = .ok a ∧ f a = .ok b := by
  cases x with
  | error e => exact ⟨nofun, fun ⟨a, ha, _⟩ => nomatch ha⟩
  | ok a =>
      constructor
      · intro h
        exact ⟨a, rfl, h⟩
      · rintro ⟨a', ha, h⟩
        rwa [Except.ok.inj ha]

/-- A new account has an id of its own, and nothing else changes. -/
theorem insertUser_ok {username displayName hash : String} {role : Role}
    {permissions : Permissions} {user : ℕ}
    (h : t.insertUser now username displayName role permissions hash = .ok (user, t')) :
    ∃ row : UserRow, row.id = user ∧ user = nextId (t.users.map (·.id)) ∧
      t' = { t with users := t.users ++ [row] } := by
  obtain ⟨u, -, h⟩ := bind_eq_ok.mp h
  split at h
  · cases h
  · obtain ⟨rfl, rfl⟩ := Prod.mk.inj (Except.ok.inj h)
    exact ⟨_, rfl, rfl, rfl⟩

theorem bootstrapAdmin_ok {username displayName hash : String} {user : ℕ}
    (h : t.bootstrapAdmin now username displayName hash = .ok (user, t')) :
    t.insertUser now username displayName .admin .default hash = .ok (user, t') := by
  unfold bootstrapAdmin at h
  split at h
  · cases h
  · exact h

/-- An account that an admin disables is left without a session. -/
theorem adminUpdateUser_ok {admin target : ℕ} {changes : AccountChanges} {account : Account}
    (h : t.adminUpdateUser now admin target changes = .ok (account, t')) :
    ∃ displayName, t' = if changes.disabled = some true then
      (t.updateUser target (changes.apply now displayName)).revokeAllSessions now target none
      else t.updateUser target (changes.apply now displayName) := by
  obtain ⟨⟨displayName, row⟩, -, h⟩ := bind_eq_ok.mp h
  obtain ⟨rfl, rfl⟩ := Prod.mk.inj (Except.ok.inj h)
  exact ⟨displayName, rfl⟩

theorem adminResetPassword_ok {admin target : ℕ} {hash : String} {recorded : Option ℤ}
    (h : t.adminResetPassword now admin target hash = .ok (recorded, t')) :
    (∃ row ∈ t.users, row.id = target) ∧
      t' = (t.updateUser target (resetPassword hash recorded)).revokeAllSessions now target none := by
  unfold adminResetPassword at h
  split at h
  · cases h
  · next row hrow =>
      by_cases hrefused : row.role = .admin ∧ target ≠ admin
      · rw [if_pos hrefused] at h
        cases h
      · rw [if_neg hrefused] at h
        obtain ⟨rfl, rfl⟩ := Prod.mk.inj (Except.ok.inj h)
        exact ⟨⟨row, List.mem_of_find?_eq_some hrow, by simpa using List.find?_some hrow⟩, rfl⟩

theorem acceptInvitation_ok {codeHash username displayName hash : String} {role : Role}
    {permissions : Permissions} {user : ℕ}
    (h : t.acceptInvitation now codeHash username displayName role permissions hash =
      .ok (user, t')) :
    ∃ t₁, t.insertUser now username displayName role permissions hash = .ok (user, t₁) ∧
      t' = t₁.useInvitation now codeHash user := by
  obtain ⟨⟨user', t₁⟩, hinsert, h⟩ := bind_eq_ok.mp h
  simp only at h
  split at h
  · cases h
  · obtain ⟨rfl, rfl⟩ := Prod.mk.inj (Except.ok.inj h)
    exact ⟨t₁, hinsert, rfl⟩

end Specs

end Tables

end Accounts

end Bokkie
