import Bokkie.Accounts
import Bokkie.Runs

/-!
# The account a client holds

The signed-in account as the client has it, from sign-in, session checks, `account_updated` events
and the replies to its own changes of the time zone. An answer to a session check carries no number:
a flag says whether an event came since the latest check was sent.
-/

namespace Bokkie.ClientAccount

open Accounts

/-- An account, as its owner sees it. -/
structure User where
  id : ℕ
  username : String
  displayName : String
  role : Role
  disabled : Bool
  createdAt : ℤ
  permissions : Permissions
  oversight : Bool
  oversightChangedAt : Option ℤ
  timeZone : String
deriving DecidableEq

structure SessionResponse where
  user : User
  passwordResetByAdmin : Option ℤ

/-- Why a request failed. -/
structure CommandError where
  isUnauthenticated : Bool
  message : String

/-- What an account may allow to be shown. -/
inductive Screen where
  | profileEditor
  | household
  | admin

/-- What the user does in the time zone sheet, short of saving it. -/
inductive Sheet where
  | changeTimeZone
  | closeTimeZone
  | editTimeZone (text : String)

/-- What the client keeps of a sign-in, as far as the account decides it. `ζ` is the platform's time
zones. -/
structure SignedIn (ζ : Type) where
  user : User
  resetNotice : Option ℤ
  acknowledging : Bool
  acknowledged : Option ℤ
  editor : Bool
  household : Bool
  admin : Bool
  zone : Option ζ
  zoneDraft : Option String
  zoneSaving : Bool
  zoneError : Option String

namespace SignedIn

variable {ζ : Type} (s : SignedIn ζ)

def isAdmin : Bool := s.user.role = .admin

def mayEditProfiles : Bool := s.isAdmin || s.user.permissions.mayEditBotProfiles

/-- Since when an admin can read the member's Bots and conversations, if oversight is on. -/
def overseen : Option (Option ℤ) :=
  if s.user.role = .member ∧ s.user.oversight then some s.user.oversightChangedAt else none

/-- Takes the account as it now is, and drops what it no longer allows. -/
def accountChanged (named : String → Option ζ) (user : User) : SignedIn ζ :=
  let zone := if user.timeZone ≠ s.user.timeZone then named user.timeZone else s.zone
  let s := { s with zone := zone, user := user }
  { s with
    editor := s.editor && s.mayEditProfiles
    household := s.household && s.isAdmin
    admin := s.admin && s.isAdmin }

/-- The screen opens, where the account allows it. -/
def opens : Screen → Option (SignedIn ζ)
  | .profileEditor => if s.mayEditProfiles then some { s with editor := true } else none
  | .household => if s.isAdmin then some { s with household := true } else none
  | .admin => if s.isAdmin then some { s with admin := true } else none

/-- Whether an admin's reset is still to be acknowledged, as a session check answered. -/
def noticed (reset : Option ℤ) : SignedIn ζ :=
  if s.acknowledging then s
  -- acknowledged here after the check was read
  else if reset.isSome ∧ reset = s.acknowledged then s
  else { s with resetNotice := reset }

def sheet : Sheet → Option (SignedIn ζ)
  | .changeTimeZone =>
    if s.zoneSaving ∨ s.zoneDraft.isSome then none
    else some { s with zoneDraft := some s.user.timeZone, zoneError := none }
  | .closeTimeZone =>
    if s.zoneSaving ∨ s.zoneDraft.isNone then none
    else some { s with zoneDraft := none, zoneError := none }
  | .editTimeZone text =>
    if s.zoneSaving ∨ s.zoneDraft.isNone then none else some { s with zoneDraft := some text }

def acknowledge : Option (SignedIn ζ) :=
  if s.resetNotice.isNone ∨ s.acknowledging then none else some { s with acknowledging := true }

/-- The save of the time zone sheet, with the name that is sent. -/
def saveTimeZone : Option (String × SignedIn ζ) := do
  let zone := trim (← s.zoneDraft)
  if s.zoneSaving ∨ zone = "" ∨ zone = s.user.timeZone then none
  else some (zone, { s with zoneSaving := true, zoneError := none })

end SignedIn

/-- The client: what it keeps while it is signed in, and the flag. -/
structure Client (ζ : Type) where
  signedIn : Option (SignedIn ζ)
  accountEventSeen : Bool

namespace Client

variable {ζ : Type} (named : String → Option ζ) (c : Client ζ)

/-- The session is gone; later replies are another sign-in's. -/
def ended : Client ζ := ⟨none, false⟩

def checkSession : Client ζ := { c with accountEventSeen := false }

/-- The reply to a session check. -/
def sessionReply (result : Except CommandError SessionResponse) : Client ζ :=
  match c.signedIn, result with
  | none, _ => c
  | some s, .ok session =>
    if session.user.id ≠ s.user.id then ended
    else
      let s := if !c.accountEventSeen then s.accountChanged named session.user else s
      { c with signedIn := some (s.noticed session.passwordResetByAdmin) }
  | some _, .error error => if error.isUnauthenticated then ended else c

/-- The reply to a change of the time zone. -/
def timeZoneSet (result : Except CommandError SessionResponse) : Client ζ :=
  match c.signedIn with
  | none => c
  | some s =>
    if !s.zoneSaving then c
    else
      let s := { s with zoneSaving := false }
      match result with
      | .ok session =>
        if session.user.id = s.user.id then
          let s := { s with zoneDraft := none, zoneError := none }
          { c with signedIn := some (s.accountChanged named session.user) }
        else ended
      | .error error =>
        if error.isUnauthenticated then ended
        else { c with signedIn := some { s with zoneError := some error.message } }

/-- The reply to an acknowledgement of an admin's reset. -/
def acknowledgedReply (result : Except CommandError Unit) : Client ζ :=
  match c.signedIn with
  | none => c
  | some s =>
    if !s.acknowledging then c
    else
      let s := { s with acknowledging := false }
      match result with
      | .ok () =>
        { c with signedIn := some { s with acknowledged := s.resetNotice, resetNotice := none } }
      | .error error =>
        -- the notice stays, to acknowledge again
        if error.isUnauthenticated then ended else { c with signedIn := some s }

/-- An `account_updated` event. -/
def accountUpdated (user : User) : Client ζ :=
  match c.signedIn with
  | none => c
  | some s =>
    if user.id = s.user.id then ⟨some (s.accountChanged named user), true⟩ else c

/-- What only the screens change. -/
def updates (f : SignedIn ζ → Option (SignedIn ζ)) : Option (Client ζ) :=
  c.signedIn.bind fun s => (f s).map fun s => { c with signedIn := some s }

end Client

/-- An own change of the time zone, until its reply arrives. -/
inductive ZoneChange where
  | asked (zone : String)
  /-- Committed as this version of the account. -/
  | committed (version : ℕ)
  | refused (message : String)

/-- The gateway's account with what it was, the client, and what is on its way between them. -/
structure World (ζ : Type) where
  /-- The account when the client signed in. -/
  first : User
  /-- The account as each change since left it: what the `account_updated` events carry. -/
  events : List User
  /-- How many of the events the client has applied. -/
  applied : ℕ
  /-- The unanswered session checks: how many changes were committed as each was sent. -/
  checks : List ℕ
  changes : List ZoneChange
  client : Client ζ

namespace World

variable {ζ : Type} (w : World ζ)

/-- The gateway's account. -/
def account : User := w.events.getLastD w.first

/-- The account after this many changes. -/
def version (n : ℕ) : Option User := (w.first :: w.events)[n]?

end World

/-- What the platform and the gateway make of a time zone's name. -/
structure Zones (ζ : Type) where
  /-- The platform's zone of the name. -/
  named : String → Option ζ
  /-- The name as the gateway stores it, or why it is refused. -/
  checkTimeZone : String → Except String String

inductive Action where
  /-- An admin's change leaves the account like this. -/
  | change (user : User)
  /-- The client applies its next event. -/
  | deliver
  | check
  /-- A session check is answered with the account after this many changes. -/
  | answer (i version : ℕ) (reset : Option ℤ)
  | failed (i : ℕ) (error : CommandError)
  | sheet (change : Sheet)
  | save
  /-- The gateway handles an own change. -/
  | serve (i : ℕ)
  | reply (i : ℕ) (reset : Option ℤ)
  | lost (i : ℕ) (error : CommandError)
  | acknowledge
  | acknowledged (result : Except CommandError Unit)
  | opens (screen : Screen)

variable {ζ : Type} (zones : Zones ζ)

namespace World

variable (w : World ζ)

/-- The reply to an own change that the gateway has handled. -/
def replied (change : ZoneChange) (reset : Option ℤ) : Option (Except CommandError SessionResponse) :=
  match change with
  | .asked _ => none
  | .committed version => (w.version version).map fun user => .ok ⟨user, reset⟩
  | .refused message => some (.error ⟨false, message⟩)

def serves (i : ℕ) : ZoneChange → Option (World ζ)
  | .asked zone => match zones.checkTimeZone zone with
    | .ok zone => some { w with
        events := w.events ++ [{ w.account with timeZone := zone }]
        changes := w.changes.set i (.committed (w.events.length + 1)) }
    | .error message => some { w with changes := w.changes.set i (.refused message) }
  | _ => none

def step : Action → Option (World ζ)
  | .change user =>
    if user.id = w.account.id then some { w with events := w.events ++ [user] } else none
  | .deliver => w.events[w.applied]?.map fun user =>
    { w with applied := w.applied + 1, client := w.client.accountUpdated zones.named user }
  | .check => some { w with
      checks := w.checks ++ [w.events.length]
      client := w.client.checkSession }
  | .answer i version reset => do
    let since ← w.checks[i]?
    let user ← w.version version
    if since ≤ version then
      some { w with
        checks := w.checks.eraseIdx i
        client := w.client.sessionReply zones.named (.ok ⟨user, reset⟩) }
    else none
  | .failed i error => w.checks[i]?.map fun _ => { w with
      checks := w.checks.eraseIdx i
      client := w.client.sessionReply zones.named (.error error) }
  | .sheet change => (w.client.updates (·.sheet change)).map fun client => { w with client := client }
  | .save => do
    let s ← w.client.signedIn
    let (zone, s) ← s.saveTimeZone
    some { w with
      changes := w.changes ++ [.asked zone]
      client := { w.client with signedIn := some s } }
  | .serve i => w.changes[i]?.bind (w.serves zones i)
  | .reply i reset => do
    let result ← w.replied (← w.changes[i]?) reset
    some { w with
      changes := w.changes.eraseIdx i
      client := w.client.timeZoneSet zones.named result }
  | .lost i error => w.changes[i]?.map fun _ => { w with
      changes := w.changes.eraseIdx i
      client := w.client.timeZoneSet zones.named (.error error) }
  | .acknowledge => (w.client.updates (·.acknowledge)).map fun client => { w with client := client }
  | .acknowledged result => some { w with client := w.client.acknowledgedReply result }
  | .opens screen => (w.client.updates (·.opens screen)).map fun client => { w with client := client }

end World

/-- The client has just signed in. -/
def start (user : User) (reset : Option ℤ) : World ζ where
  first := user
  events := []
  applied := 0
  checks := []
  changes := []
  client := ⟨some {
    user := user
    resetNotice := reset
    acknowledging := false
    acknowledged := none
    editor := false
    household := false
    admin := false
    zone := zones.named user.timeZone
    zoneDraft := none
    zoneSaving := false
    zoneError := none }, false⟩

end Bokkie.ClientAccount
