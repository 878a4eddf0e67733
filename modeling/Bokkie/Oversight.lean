import Bokkie.Accounts
import Bokkie.Messages
import Bokkie.Runs

/-!
# A member under oversight

What an admin's client holds of a member: the Bots that the gateway lets an admin see, and a
conversation being read while oversight is on. Requests are numbered, so that an answer can be told
from one to a request made later; the answers come in any order.
-/

namespace Bokkie.Oversight

open Accounts (Role)

/-- A member's Bot as an admin sees it. -/
structure MemberBot (δ : Type) where
  id : ℕ
  madeByAdmin : Bool
  details : δ
  /-- The Bot as its owner has it, only under oversight. -/
  overseen : Option (Bot δ)
deriving DecidableEq

structure MemberBotList (δ : Type) where
  oversight : Bool
  bots : List (MemberBot δ)
deriving DecidableEq

/-- An account, as the admin section lists it. -/
structure AdminUser where
  id : ℕ
  role : Role
  oversight : Bool
deriving DecidableEq

inductive Request where
  | listAccounts
  /-- An update of the account, of its oversight or of something else. -/
  | updateAccount (id : ℕ) (oversight : Option Bool)
  | memberBots (id : ℕ)
  | createMemberBot (id : ℕ)
  | updateMemberBot (id bot : ℕ)
  | memberMessages (id bot : ℕ) (before : Option ℕ)
deriving DecidableEq

inductive Reply (δ : Type) where
  | accounts (result : Except Failure (List AdminUser))
  | accountUpdated (id : ℕ) (result : Except Failure AdminUser)
  | memberBots (id : ℕ) (result : Except Failure (MemberBotList δ))
  | memberBotCreated (id : ℕ) (result : Except Failure Unit)
  | memberBotUpdated (id bot : ℕ) (result : Except Failure Unit)
  | memberMessages (id bot : ℕ) (before : Option ℕ)
      (result : Except Failure (List (Message δ) × Option ℕ))

variable {δ : Type}

/-! ## The gateway -/

/-- A Bot's row, with who made it. -/
structure BotRow (δ : Type) where
  bot : Bot δ
  madeBy : Option ℕ
deriving DecidableEq

/-- An account, its Bots in its own order, and its messages. -/
structure Member (δ : Type) where
  user : AdminUser
  bots : List (BotRow δ)
  messages : Table δ

namespace Member

/-- Whether an admin may see this Bot of the member. -/
def visible (m : Member δ) (row : BotRow δ) : Bool := m.user.oversight || row.madeBy.isSome

/-- The overseen view leaves out what the member has read. -/
def memberBot (row : BotRow δ) (overseen : Option (Bot δ)) : MemberBot δ :=
  { id := row.bot.id
    madeByAdmin := row.madeBy.isSome
    details := row.bot.details
    overseen := overseen.map fun bot => { bot with readUpTo := none, unread := false } }

def memberBots (m : Member δ) : MemberBotList δ :=
  let rows := m.bots.filter m.visible
  let rows := if m.user.oversight then rows
    else rows.insertionSort fun a b => a.bot.id ≤ b.bot.id
  ⟨m.user.oversight,
    rows.map fun row => memberBot row (if m.user.oversight then some row.bot else none)⟩

def memberMessages (m : Member δ) (bot : ℕ) (before : Option ℕ) :
    Except Failure (List (Message δ) × Option ℕ) :=
  if !m.user.oversight then .error (.forbidden "Oversight of this account is off")
  else if m.bots.all (·.bot.id ≠ bot) then .error .notFound
  else .ok (m.messages.messages bot before 50)

end Member

/-- What the gateway answers, with what it has of the accounts. -/
def answer (members : List (Member δ)) : Request → Reply δ
  | .listAccounts => .accounts (.ok (members.map (·.user)))
  | .updateAccount id _ =>
    .accountUpdated id (match members.find? (·.user.id = id) with
      | some m => .ok m.user
      | none => .error .notFound)
  | .memberBots id =>
    .memberBots id (match members.find? (·.user.id = id) with
      | some m =>
        if m.user.role = .admin then
          .error (.forbidden "An admin's Bots and conversations are their own")
        else .ok m.memberBots
      | none => .error .notFound)
  | .createMemberBot id => .memberBotCreated id (.ok ())
  | .updateMemberBot id bot => .memberBotUpdated id bot (.ok ())
  | .memberMessages id bot before =>
    .memberMessages id bot before (match members.find? (·.user.id = id) with
      | some m =>
        if m.user.role = .admin then
          .error (.forbidden "An admin's Bots and conversations are their own")
        else m.memberMessages bot before
      | none => .error .notFound)

/-- A request that the gateway refuses, or that gets no answer. -/
def refused (failure : Failure) : Request → Reply δ
  | .listAccounts => .accounts (.error failure)
  | .updateAccount id _ => .accountUpdated id (.error failure)
  | .memberBots id => .memberBots id (.error failure)
  | .createMemberBot id => .memberBotCreated id (.error failure)
  | .updateMemberBot id bot => .memberBotUpdated id bot (.error failure)
  | .memberMessages id bot before => .memberMessages id bot before (.error failure)

/-- What an update of an account does to the accounts. -/
def updated (members : List (Member δ)) : Request → List (Member δ)
  | .updateAccount id (some oversight) => members.map fun m =>
    if m.user.id = id then { m with user := { m.user with oversight } } else m
  | _ => members

/-! ## The client -/

/-- A member's conversation, read-only, under oversight. -/
structure Reading (δ : Type) where
  bot : ℕ
  messages : IdMap (Message δ)
  older : Option ℕ
  loaded : Bool
  /-- The page being loaded: `some none` the newest, `some (some id)` the one before `id`. -/
  loading : Option (Option ℕ)
  error : Option String

/-- One account, open in the admin section. -/
structure AccountScreen (δ : Type) where
  id : ℕ
  saving : Bool
  error : Option String
  bots : Option (MemberBotList δ)
  botsLoading : Bool
  botsError : Option String
  /-- A Bot is being made for the member. -/
  creating : Bool
  /-- The Bot whose profile is edited, and whether the edit is being saved. -/
  editing : Option (ℕ × Bool)
  reading : Option (Reading δ)

/-- The admin section. -/
structure Admin (δ : Type) where
  accounts : Option (List AdminUser)
  account : Option (AccountScreen δ)

/-- The client's admin section while it is open, and the requests it makes of the gateway. -/
abbrev Client (δ : Type) := Option (Admin δ)

namespace AccountScreen

def new (id : ℕ) : AccountScreen δ := ⟨id, false, none, none, false, none, false, none, none⟩

/-- Oversight is off: drop the conversation being read and everything the Bot list showed under
oversight. -/
def endOversight (s : AccountScreen δ) : AccountScreen δ := { s with
  reading := none
  bots := s.bots.map fun list => ⟨false, (list.bots.filter (·.madeByAdmin)).map fun bot =>
    { bot with overseen := none }⟩ }

end AccountScreen

namespace Client

def screen (c : Client δ) : Option (AccountScreen δ) := c.bind Admin.account

/-- The account's screen, if it is the one open. -/
def screenOf (c : Client δ) (id : ℕ) : Option (AccountScreen δ) := c.screen.filter (·.id = id)

def setScreen (c : Client δ) (s : AccountScreen δ) : Client δ :=
  c.map fun admin => { admin with account := some s }

/-- What a client's handling leaves, and what it asks for. -/
abbrev Handled (δ : Type) := Client δ × List Request

def ended (failure : Failure) : Bool := failure.code = .unauthenticated

/-- The open account, as last listed. -/
def account (c : Client δ) : Option AdminUser := do
  let admin ← c
  let s ← admin.account
  (admin.accounts.getD []).find? (·.id = s.id)

def loadMemberBots (c : Client δ) (s : AccountScreen δ) : Handled δ :=
  (c.setScreen { s with botsLoading := true }, [.memberBots s.id])

def accountsReply (c : Client δ) : Except Failure (List AdminUser) → Handled δ
  | .ok users => (c.map fun admin => { admin with accounts := some users }, [])
  | .error failure => if ended failure then (none, []) else (c, [])

/-- What the list or the Bots shown had of the account's oversight is not what it is now. -/
def oversightChanged (was : Option AdminUser) (s : AccountScreen δ) (user : AdminUser) : Bool :=
  was.map AdminUser.oversight ≠ some user.oversight ∨
    s.bots.map MemberBotList.oversight ≠ some user.oversight

def accountUpdated (c : Client δ) (id : ℕ) (result : Except Failure AdminUser) : Handled δ :=
  match (c.screenOf id).filter (·.saving) with
  | none => (c, [])
  | some s =>
    let s := { s with saving := false }
    match result with
    | .error failure =>
      if ended failure then (none, [])
      else (c.setScreen { s with error := some failure.message }, [])
    | .ok user =>
      let s := { s with error := none }
      let was : Option AdminUser := ((c.bind Admin.accounts).getD []).find? (·.id = id)
      let changed := oversightChanged was s user
      -- access ends at once: nothing read under it stays
      let s := if user.oversight then s else s.endOversight
      let c : Client δ := c.map fun admin =>
        let accounts := admin.accounts.getD []
        { admin with accounts := some (if was.isSome then
            accounts.map fun a => if a.id = id then user else a
          else accounts ++ [user]) }
      if user.role = .member ∧ changed then c.loadMemberBots s else (c.setScreen s, [])

def memberBotsReply (c : Client δ) (id : ℕ) (result : Except Failure (MemberBotList δ)) :
    Handled δ :=
  match c.screenOf id with
  | none => (c, [])
  | some s =>
    let s := { s with botsLoading := false }
    match result with
    | .ok list =>
      (c.setScreen { s with
        reading := if list.oversight then s.reading else none
        bots := some list
        botsError := none }, [])
    | .error failure =>
      if ended failure then (none, [])
      else (c.setScreen { s with botsError := some failure.message }, [])

def memberBotCreated (c : Client δ) (id : ℕ) (result : Except Failure Unit) : Handled δ :=
  match (c.screenOf id).filter (·.creating) with
  | none => (c, [])
  | some s =>
    let s := { s with creating := false }
    match result with
    | .ok _ => c.loadMemberBots s
    | .error failure => if ended failure then (none, []) else (c.setScreen s, [])

def memberBotUpdated (c : Client δ) (id bot : ℕ) (result : Except Failure Unit) : Handled δ :=
  match (c.screenOf id).filter (·.editing = some (bot, true)) with
  | none => (c, [])
  | some s =>
    match result with
    | .ok _ => c.loadMemberBots { s with editing := none }
    | .error failure =>
      if ended failure then (none, [])
      else (c.setScreen { s with editing := some (bot, false) }, [])

/-- The page is the one the conversation waits for. -/
def awaits (s : AccountScreen δ) (bot : ℕ) (before : Option ℕ) : Option (Reading δ) :=
  s.reading.filter fun r => r.bot = bot ∧ r.loading = some before

def memberMessages (c : Client δ) (id bot : ℕ) (before : Option ℕ)
    (result : Except Failure (List (Message δ) × Option ℕ)) : Handled δ :=
  match c.screenOf id with
  | none => (c, [])
  | some s =>
    match awaits s bot before with
    | none => (c, [])
    | some r =>
      let r := { r with loading := none }
      match result with
      | .ok (messages, older) =>
        -- the newest page starts the copy afresh
        let held := if before.isNone then ∅ else r.messages
        let r := { r with
          error := none
          messages := (messages.filter (·.botId = bot)).foldl
            (fun m message => m.insert message.id message) held
          older
          loaded := true }
        (c.setScreen { s with reading := some r }, [])
      | .error failure =>
        if ended failure then (none, [])
        else if failure.code = .forbidden then
          let s := { s.endOversight with error := some failure.message, botsLoading := true }
          (c.setScreen s, [.listAccounts, .memberBots id])
        else
          let r := { r with error := some failure.message }
          (c.setScreen { s with reading := some r }, [])

def hear (c : Client δ) : Reply δ → Handled δ
  | .accounts result => c.accountsReply result
  | .accountUpdated id result => c.accountUpdated id result
  | .memberBots id result => c.memberBotsReply id result
  | .memberBotCreated id result => c.memberBotCreated id result
  | .memberBotUpdated id bot result => c.memberBotUpdated id bot result
  | .memberMessages id bot before result => c.memberMessages id bot before result

/-! ### What the admin does -/

inductive Choice where
  | openAdmin
  | openAccount (id : ℕ)
  /-- The oversight switch. -/
  | oversight
  /-- Another change of the account. -/
  | change
  | makeMemberBot
  | editMemberBot (bot : ℕ)
  /-- The profile's edit is saved, if anything changed. -/
  | saveMemberBot (changed : Bool)
  | cancelMemberBot
  | readConversation (bot : ℕ)
  | loadEarlier
  | refresh
  | back
  /-- The content pane holds something else. -/
  | close

def openAccount (c : Client δ) (id : ℕ) : Handled δ :=
  match c with
  | none => (c, [])
  | some admin =>
    match (admin.accounts.getD []).find? (·.id = id) with
    | some user =>
      if admin.account.isSome then (c, [])
      else if user.role = .member then loadMemberBots c (.new id)
      else (setScreen c (.new id), [])
    | none => (c, [])

/-- An update of the open account, of its oversight where it is a member's. -/
def updateAccount (c : Client δ) (oversight : Bool) : Handled δ :=
  match c.screen, c.account with
  | some s, some user =>
    if s.saving ∨ (oversight ∧ user.role = .admin) then (c, [])
    else
      (c.setScreen { s with saving := true, error := none },
        [.updateAccount s.id (if oversight then some (!user.oversight) else none)])
  | _, _ => (c, [])

def makeMemberBot (c : Client δ) : Handled δ :=
  match c.screen, c.account with
  | some s, some user =>
    if user.role = .admin ∨ s.creating then (c, [])
    else (c.setScreen { s with creating := true }, [.createMemberBot s.id])
  | _, _ => (c, [])

/-- The Bots shown. -/
def shownBots (s : AccountScreen δ) : List (MemberBot δ) := (s.bots.map (·.bots)).getD []

def editMemberBot (c : Client δ) (bot : ℕ) : Handled δ :=
  match c.screen with
  | some s =>
    if s.editing.isNone ∧ (shownBots s).any (fun b => b.id = bot ∧ b.madeByAdmin) then
      (c.setScreen { s with editing := some (bot, false) }, [])
    else (c, [])
  | none => (c, [])

def saveMemberBot (c : Client δ) (changed : Bool) : Handled δ :=
  match c.screen with
  | some s =>
    match s.editing with
    | some (bot, false) =>
      if changed then
        (c.setScreen { s with editing := some (bot, true) }, [.updateMemberBot s.id bot])
      else (c.setScreen { s with editing := none }, [])
    | _ => (c, [])
  | none => (c, [])

def cancelMemberBot (c : Client δ) : Handled δ :=
  match c.screen with
  | some s =>
    match s.editing with
    | some (_, false) => (c.setScreen { s with editing := none }, [])
    | _ => (c, [])
  | none => (c, [])

/-- Only while the list shown was read under oversight. -/
def readConversation (c : Client δ) (bot : ℕ) : Handled δ :=
  match c.screen with
  | some s =>
    if s.reading.isNone ∧ (s.bots.map (·.oversight)).getD false ∧
        (shownBots s).any (·.id = bot) then
      (c.setScreen { s with reading := some ⟨bot, ∅, none, false, some none, none⟩ },
        [.memberMessages s.id bot none])
    else (c, [])
  | none => (c, [])

def loadEarlier (c : Client δ) : Handled δ :=
  match c.screen with
  | some s =>
    match s.reading with
    | some r =>
      match r.older with
      | some before =>
        if r.loading.isSome then (c, [])
        else
          let r := { r with loading := some (some before), error := none }
          (c.setScreen { s with reading := some r }, [.memberMessages s.id r.bot (some before)])
      | none => (c, [])
    | none => (c, [])
  | none => (c, [])

/-- What the screen shows, loaded again. -/
def refresh (c : Client δ) : Handled δ :=
  match c.screen with
  | none => if c.isSome then (c, [.listAccounts]) else (c, [])
  | some s =>
    match s.reading with
    | some r =>
      let r := { r with loading := some none, error := none }
      (c.setScreen { s with reading := some r }, [.memberMessages s.id r.bot none])
    | none =>
      if c.account.any (·.role = .member) then
        (c.setScreen { s with botsLoading := true }, [.listAccounts, .memberBots s.id])
      else (c, [.listAccounts])

/-- From a conversation to the account, from the account to the accounts, and from there out. -/
def back (c : Client δ) : Handled δ :=
  match c with
  | none => (c, [])
  | some admin =>
    match admin.account with
    | none => (none, [])
    | some s =>
      if s.reading.isSome then (setScreen c { s with reading := none }, [])
      else (some { admin with account := none }, [.listAccounts])

def perform (c : Client δ) : Choice → Handled δ
  | .openAdmin => (some ⟨none, none⟩, [.listAccounts])
  | .openAccount id => c.openAccount id
  | .oversight => c.updateAccount true
  | .change => c.updateAccount false
  | .makeMemberBot => c.makeMemberBot
  | .editMemberBot bot => c.editMemberBot bot
  | .saveMemberBot changed => c.saveMemberBot changed
  | .cancelMemberBot => c.cancelMemberBot
  | .readConversation bot => c.readConversation bot
  | .loadEarlier => c.loadEarlier
  | .refresh => c.refresh
  | .back => c.back
  | .close => (none, [])

end Client

/-! ## Requests and answers in any order -/

/-- The gateway's accounts, the client, and what is on its way. `off` has, for an account, the
number of the last request made when an answer said that its oversight is off, until an answer to a
later request says that it is on. -/
structure World (δ : Type) where
  members : List (Member δ)
  client : Client δ
  requests : List (ℕ × Request)
  replies : List (ℕ × Reply δ)
  last : ℕ
  off : ℕ → Option ℕ

inductive Action (δ : Type) where
  | choose (choice : Client.Choice)
  /-- The gateway answers a request. -/
  | serve (number : ℕ)
  /-- The gateway refuses a request, or it gets no answer. -/
  | refuse (number : ℕ) (failure : Failure)
  | deliver (number : ℕ)
  /-- The accounts change otherwise. -/
  | gateway (members : List (Member δ))
  | endSession

/-- What an answer says of an account's oversight. -/
def Reply.tells : Reply δ → Option (ℕ × Bool)
  | .accountUpdated id (.ok user) => some (id, user.oversight)
  | .memberBots id (.ok list) => some (id, list.oversight)
  | .memberMessages id _ _ (.error failure) =>
    if failure.code = .forbidden then some (id, false) else none
  | _ => none

namespace World

def new (members : List (Member δ)) : World δ := ⟨members, none, [], [], 0, fun _ => none⟩

def ask (w : World δ) : List Request → World δ
  | [] => w
  | request :: requests =>
    ask { w with requests := w.requests ++ [(w.last + 1, request)], last := w.last + 1 } requests

def handled (w : World δ) (h : Client.Handled δ) : World δ := ask { w with client := h.1 } h.2

def request (w : World δ) (number : ℕ) : Option (ℕ × Request) :=
  w.requests.find? (·.1 = number)

def reply (w : World δ) (number : ℕ) : Option (ℕ × Reply δ) := w.replies.find? (·.1 = number)

def answered (w : World δ) (number : ℕ) (reply : Reply δ) : World δ := { w with
  requests := w.requests.filter (·.1 ≠ number)
  replies := w.replies ++ [(number, reply)] }

/-- What is known of an account's oversight after an answer. -/
def heard (w : World δ) (number : ℕ) (reply : Reply δ) : ℕ → Option ℕ :=
  match reply.tells with
  | none => w.off
  | some (id, false) => Function.update w.off id (some w.last)
  | some (id, true) =>
    if (w.off id).any (· < number) then Function.update w.off id none else w.off

def deliver (w : World δ) (number : ℕ) (reply : Reply δ) : World δ :=
  handled { w with
    replies := w.replies.filter (·.1 ≠ number)
    off := w.heard number reply } (w.client.hear reply)

def step (w : World δ) : Action δ → Option (World δ)
  | .choose choice => some (w.handled (w.client.perform choice))
  | .serve number => (w.request number).map fun p =>
      let members := updated w.members p.2
      answered { w with members } number (answer members p.2)
  | .refuse number failure => (w.request number).map fun p =>
      w.answered number (refused failure p.2)
  | .deliver number => (w.reply number).map fun p => w.deliver number p.2
  | .gateway members => some { w with members }
  | .endSession => some { w with client := none, requests := [], replies := [] }

end World

/-! ## Answers that come in time -/

/-- Nothing read under oversight is held of the account. -/
structure ScreenClear (s : AccountScreen δ) : Prop where
  reading : s.reading = none
  oversight : ∀ list ∈ s.bots, list.oversight = false
  bots : ∀ list ∈ s.bots, ∀ bot ∈ list.bots, bot.madeByAdmin = true ∧ bot.overseen = none

def Clear (c : Client δ) (id : ℕ) : Prop := ∀ s ∈ c.screenOf id, ScreenClear s

/-- A Bot list read under oversight, asked for before an answer said that it is off, does not find
its account open; and an answer that says so is taken, or finds nothing to drop. -/
def InTime (w : World δ) (number : ℕ) : Reply δ → Prop
  | .memberBots id (.ok list) =>
    list.oversight = true → (∃ last ∈ w.off id, number ≤ last) → w.client.screenOf id = none
  | .accountUpdated id (.ok user) =>
    user.oversight = false → Clear w.client id ∨ ∀ s ∈ w.client.screenOf id, s.saving = true
  | .memberMessages id bot before (.error failure) =>
    failure.code = .forbidden → Clear w.client id ∨
      ∀ s ∈ w.client.screenOf id, (Client.awaits s bot before).isSome
  | _ => True

/-- The answers come in time. -/
def Timely (w : World δ) : Action δ → Prop
  | .deliver number => ∀ p ∈ w.reply number, InTime w number p.2
  | _ => True

section Decidable

instance (s : AccountScreen δ) : Decidable (ScreenClear s) :=
  decidable_of_iff (s.reading.isNone ∧ ∀ list ∈ s.bots, list.oversight = false ∧
      ∀ bot ∈ list.bots, bot.madeByAdmin = true ∧ bot.overseen.isNone)
    ⟨fun h => ⟨Option.isNone_iff_eq_none.mp h.1, fun list hlist => (h.2 list hlist).1,
      fun list hlist bot hbot => ⟨((h.2 list hlist).2 bot hbot).1,
        Option.isNone_iff_eq_none.mp ((h.2 list hlist).2 bot hbot).2⟩⟩,
    fun h => ⟨Option.isNone_iff_eq_none.mpr h.reading, fun list hlist =>
      ⟨h.oversight list hlist, fun bot hbot => ⟨(h.bots list hlist bot hbot).1,
        Option.isNone_iff_eq_none.mpr (h.bots list hlist bot hbot).2⟩⟩⟩⟩

instance (c : Client δ) (id : ℕ) : Decidable (Clear c id) :=
  inferInstanceAs (Decidable (∀ s ∈ c.screenOf id, ScreenClear s))

instance (c : Client δ) (id : ℕ) : Decidable (c.screenOf id = none) :=
  decidable_of_iff ((c.screenOf id).isNone = true) Option.isNone_iff_eq_none

instance (w : World δ) (number : ℕ) : (reply : Reply δ) → Decidable (InTime w number reply)
  | .memberBots id (.ok list) => inferInstanceAs (Decidable
      (list.oversight = true → (∃ last ∈ w.off id, number ≤ last) → w.client.screenOf id = none))
  | .accountUpdated id (.ok user) => inferInstanceAs (Decidable (user.oversight = false →
      Clear w.client id ∨ ∀ s ∈ w.client.screenOf id, s.saving = true))
  | .memberMessages id bot before (.error failure) => inferInstanceAs (Decidable
      (failure.code = .forbidden → Clear w.client id ∨
        ∀ s ∈ w.client.screenOf id, (Client.awaits s bot before).isSome))
  | .accounts _ => isTrue trivial
  | .accountUpdated _ (.error _) => isTrue trivial
  | .memberBots _ (.error _) => isTrue trivial
  | .memberBotCreated _ _ => isTrue trivial
  | .memberBotUpdated _ _ _ => isTrue trivial
  | .memberMessages _ _ _ (.ok _) => isTrue trivial

instance (w : World δ) : (a : Action δ) → Decidable (Timely w a)
  | .deliver number =>
    inferInstanceAs (Decidable (∀ p ∈ w.reply number, InTime w number p.2))
  | .choose _ => isTrue trivial
  | .serve _ => isTrue trivial
  | .refuse _ _ => isTrue trivial
  | .gateway _ => isTrue trivial
  | .endSession => isTrue trivial

end Decidable

end Bokkie.Oversight
