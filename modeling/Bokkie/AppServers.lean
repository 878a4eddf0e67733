import Bokkie.Messages
import Bokkie.ServeChecks
import Bokkie.Tasks
import Bokkie.Watch

/-!
# App servers and the supervisor

The supervisor starts, checks and stops each user's app server; a thread is served on an app server
once it passed its checks there, and turns start on served threads only. Every lock taken, every
request sent and every answer awaited is a call of its own, so that tasks interleave between them.
-/

namespace Bokkie

open Tasks

/-- A failure to use a user's app server. -/
inductive CodexError where
  | refused (refusal : Refusal)
  | threadRefused (refusal : Refusal)
  | signedOut (message : String)
  | appServer (message : String)
  | rejected (message : String)
deriving DecidableEq

/-- Whether the request certainly had no effect on Codex. -/
def CodexError.hadNoEffect : CodexError → Bool
  | .appServer _ => false
  | _ => true

/-- An app server as those who hold it know it. -/
structure AppServer where
  serial : ℕ
  owner : Owner
  expected : Expected
deriving DecidableEq

/-- The developer instructions of a thread: whom the Bot works for, its profile and its grants. -/
structure Instructions where
  owner : String
  name : String
  label : String
  description : String
  grants : GrantSet
deriving DecidableEq

/-- What the conversation says when it goes on in a fresh thread: the text messages before the
thread's marker, and the notes of a Bot that keeps them. -/
structure Carryover where
  owner : String
  marker : ℕ
  notes : Option String
  messages : List (Author × List Char)
deriving DecidableEq

/-- A context fragment of a turn. -/
inductive Fragment where
  | profile (name label description : String)
  | carryover (text : Carryover)
  | routine (about : String)
deriving DecidableEq

abbrev Context := List Fragment

structure TurnStartParams where
  threadId : String
  input : String
  context : Option Context
deriving DecidableEq

structure TurnSteerParams where
  threadId : String
  expectedTurnId : String
  input : String
  clientUserMessageId : String
  context : Option Context
deriving DecidableEq

/-- What an `auth.json` is. -/
inductive AuthFile where
  | link
  | missing
  | file
  | other (what : String)
deriving DecidableEq

inductive TurnStatus where
  | completed
  | interrupted
  | failed
  | inProgress
deriving DecidableEq, Repr

/-- What an app server reports to the router, its notifications decoded. -/
inductive RuntimeEvent where
  | turnStarted (threadId turnId : String)
  | itemStarted (threadId turnId : String) (item : ThreadItem)
  | agentMessageDelta (threadId turnId itemId : String) (delta : List Char)
  | itemCompleted (threadId turnId : String) (item : ThreadItem)
  | turnCompleted (threadId turnId : String) (status : TurnStatus)
  | tokenUsageUpdated (threadId turnId : String) (total : ℤ)
  | rateLimitsUpdated
  | error (threadId message : String) (willRetry : Bool)
  | webSearchCompleted (threadId turnId itemId query : String) (action : Option Json)
      (granted : Bool)
  | toolCall (call : DynamicToolCallParams) (reply : RequestId)
  | refused (threadId : String) (reason : Refusal)
  | exited

/-- One call of a task on the supervisor, an app server or the latch. -/
inductive CodexCall : Type → Type
  -- the latch
  | tainted : CodexCall (Option Refusal)
  | taint (reason : Refusal) : CodexCall Unit
  | threadRefusal (user : ℕ) (threadId : String) : CodexCall (Option Refusal)
  | refuseThread (user : ℕ) (threadId : String) (reason : Refusal) : CodexCall Unit
  -- one app server
  | isAlive (serial : ℕ) : CodexCall Bool
  | stop (serial : ℕ) : CodexCall Unit
  | threadGrants (serial : ℕ) (threadId : String) : CodexCall (Option GrantSet)
  | serve (serial : ℕ) (threadId : String) (grants : GrantSet) : CodexCall Unit
  | unserve (serial : ℕ) (threadId : String) : CodexCall Unit
  | report (serial : ℕ) (event : RuntimeEvent) : CodexCall Unit
  /-- The watcher has handled a message, and reads the next if it still reads. -/
  | watched (serial : ℕ) (reads : Bool) : CodexCall Unit
  -- requests to an app server
  | initializeClient (serial : ℕ) : CodexCall (Except CodexError Unit)
  | configRead (serial : ℕ) : CodexCall (Except CodexError Json)
  | modelList (serial : ℕ) : CodexCall (Except CodexError (List String))
  | accountLogout (serial : ℕ) : CodexCall (Except CodexError Unit)
  | threadStart (serial : ℕ) (instructions : Instructions) (grants : GrantSet) :
      CodexCall (Except CodexError ThreadSession)
  | threadResume (serial : ℕ) (threadId : String) (instructions : Instructions)
      (grants : GrantSet) : CodexCall (Except CodexError ThreadSession)
  | turnStart (serial : ℕ) (params : TurnStartParams) : CodexCall ℕ
  | turnStarted (request : ℕ) : CodexCall (Except CodexError String)
  | turnSteer (serial : ℕ) (params : TurnSteerParams) : CodexCall ℕ
  | turnSteered (request : ℕ) : CodexCall (Except CodexError String)
  | turnInterrupt (serial : ℕ) (threadId turnId : String) : CodexCall (Except CodexError Unit)
  -- the supervisor
  | lockSlot (user : ℕ) : CodexCall Unit
  | unlockSlot (user : ℕ) : CodexCall Unit
  | slot (user : ℕ) : CodexCall (Option AppServer)
  | setSlot (user : ℕ) (server : Option AppServer) : CodexCall Unit
  | ensureHousehold : CodexCall (Except CodexError Unit)
  | inspect (user : ℕ) : CodexCall (Except CodexError AuthFile)
  | makeLink (user : ℕ) : CodexCall (Except CodexError Unit)
  | launch (owner : Owner) : CodexCall (Except CodexError AppServer)
  | startRecovering (user : ℕ) : CodexCall Bool
  | stopRecovering (user : ℕ) : CodexCall Unit

/-- Work with Codex that can fail. -/
abbrev Codex := ExceptT CodexError (Prog CodexCall)

namespace Codex

variable {α : Type}

def call (op : CodexCall α) : Codex α := ExceptT.lift (Prog.perform op)

def request (op : CodexCall (Except CodexError α)) : Codex α := ExceptT.mk (Prog.perform op)

/-- A failed check refuses. -/
def check (checked : Except Refusal Unit) : Codex Unit :=
  match checked with
  | .ok () => pure ()
  | .error refusal => throw (.refused refusal)

end Codex

namespace AppServer

open Codex ServeChecks

def user (r : AppServer) : Codex ℕ :=
  match r.owner with
  | .user user => pure user
  | .household => throw (.refused "the household's app server runs no threads")

def checkConfig (r : AppServer) : Codex Unit := do
  let config ← request (.configRead r.serial)
  check (ServeChecks.checkConfig config r.expected)

def startupChecks (r : AppServer) : Codex Unit := do
  request (.initializeClient r.serial)
  r.checkConfig
  let models ← request (.modelList r.serial)
  check (ServeChecks.checkModels models r.expected)

def refuse (r : AppServer) (user : ℕ) (threadId : String) (reason : Refusal) : Codex Unit := do
  call (.unserve r.serial threadId)
  call (.refuseThread user threadId reason)

def served (r : AppServer) (response : ThreadSession) (grants : GrantSet) :
    Codex ThreadSession := do
  let user ← r.user
  match ServeChecks.checkThread response r.expected with
  | .error refusal =>
    r.refuse user response.threadId refusal
    throw (.threadRefused refusal)
  | .ok () =>
    call (.serve r.serial response.threadId grants)
    return response

/-- Starts a thread offering the tools of `grants`, and checks it before serving it. -/
def startThread (r : AppServer) (instructions : Instructions) (grants : GrantSet) :
    Codex ThreadSession := do
  let _ ← r.user
  if let some reason ← call .tainted then throw (.refused reason)
  r.checkConfig
  let response ← request (.threadStart r.serial instructions grants)
  r.served response grants

def ensureNotRefused (r : AppServer) (threadId : String) : Codex Unit := do
  let user ← r.user
  if let some reason ← call .tainted then throw (.refused reason)
  if let some reason ← call (.threadRefusal user threadId) then throw (.threadRefused reason)

/-- Loads a thread into this app server and checks it before serving it. -/
def resumeThread (r : AppServer) (threadId : String) (instructions : Instructions)
    (grants : GrantSet) : Codex ThreadSession := do
  r.ensureNotRefused threadId
  r.checkConfig
  let response ← request (.threadResume r.serial threadId instructions grants)
  if response.threadId ≠ threadId then
    throw (.refused "thread/resume answered for a different thread")
  r.served response grants

/-- Whether the thread passed its checks on this app server. -/
def isServed (r : AppServer) (threadId : String) : Codex Bool :=
  match r.owner with
  | .household => pure false
  | .user user => do
    if !(← call (.isAlive r.serial)) then return false
    if (← call (.threadGrants r.serial threadId)).isNone then return false
    return (← call (.threadRefusal user threadId)).isNone

def ensureServed (r : AppServer) (threadId : String) : Codex Unit := do
  r.ensureNotRefused threadId
  if (← call (.threadGrants r.serial threadId)).isNone then
    throw (.refused "the thread has not passed its checks on this app server")

/-- Starts a turn on a served thread. -/
def startTurn (r : AppServer) (threadId input : String) (context : Option Context) :
    Codex String := do
  r.ensureServed threadId
  let sent ← call (.turnStart r.serial ⟨threadId, input, context⟩)
  request (.turnStarted sent)

/-- Adds a message to the running turn of a served thread. -/
def steerTurn (r : AppServer) (threadId turnId input clientId : String)
    (context : Option Context) : Codex String := do
  r.ensureServed threadId
  let sent ← call (.turnSteer r.serial ⟨threadId, turnId, input, clientId, context⟩)
  request (.turnSteered sent)

/-- Interrupts a turn. Works on refused threads too. -/
def interruptTurn (r : AppServer) (threadId turnId : String) : Codex Unit := do
  let _ ← r.user
  request (.turnInterrupt r.serial threadId turnId)

/-- Handles a broken safety rule. -/
def violation (r : AppServer) (threadId : Option String) (refusal : Refusal) : Codex Unit := do
  match threadId, r.owner with
  | some threadId, .user user =>
    r.refuse user threadId refusal
    call (.report r.serial (.refused threadId refusal))
  | _, _ => pure ()
  call (.taint refusal)
  call (.stop r.serial)

/-- What the watcher does with one message: the rule it breaks, if it does, is handled first, and
then what the router is to hear of it is reported. -/
def watch (r : AppServer) (broken : Option (Option String × Refusal))
    (reports : List RuntimeEvent) : Codex Unit := do
  if let some (threadId, refusal) := broken then r.violation threadId refusal
  reports.forM fun event => call (.report r.serial event)
  call (.watched r.serial true)

/-- How the watcher ends, once its app server closed or Codex is tainted. -/
def watchEnd (r : AppServer) : Codex Unit := do
  call (.stop r.serial)
  call (.report r.serial .exited)
  call (.watched r.serial false)

end AppServer

namespace Supervisor

open Codex

/-- `ensure_untainted`. -/
def ensureUntainted : Codex Unit := do
  if let some reason ← call .tainted then
    throw (.refused ("Codex is refused until the gateway restarts: " ++ reason))

/-- What is done while the user's slot is held; it is let go however that ends. -/
def holdingSlot {α : Type} (user : ℕ) (work : Codex α) : Codex α := do
  call (.lockSlot user)
  let done ← ExceptT.lift work.run
  call (.unlockSlot user)
  liftExcept done
where
  liftExcept (done : Except CodexError α) : Codex α := ExceptT.mk (pure done)

/-- An app server, started and checked; one that fails its checks is stopped. -/
def start (owner : Owner) : Codex AppServer := do
  let r ← request (.launch owner)
  match ← ExceptT.lift r.startupChecks.run with
  | .ok () => return r
  | .error error =>
    call (.stop r.serial)
    throw error

/-- Signs out a user's own earlier sign-in, through an app server of the user's. -/
def signOutOwn (user : ℕ) : Codex Unit := do
  let r ← start (.user user)
  let result ← ExceptT.lift (request (.accountLogout r.serial)).run
  call (.stop r.serial)
  if let .error error := result then throw error
  match ← ExceptT.lift (request (.inspect user)).run with
  | .ok .missing => return
  | _ => throw (.refused "the user's own earlier sign-in was not signed out")

def notTheHouseholds (what : String) : CodexError :=
  .refused ("the user's auth.json is " ++ what ++ ", not the household's sign-in")

/-- Makes the user's `auth.json` the link to the household's. -/
def link (user : ℕ) : Codex Unit := do
  match ← request (.inspect user) with
  | .link => return
  | .missing => pure ()
  | .file => signOutOwn user
  | .other what => throw (notTheHouseholds what)
  request (.makeLink user)
  match ← ExceptT.lift (request (.inspect user)).run with
  | .ok .link => return
  | _ => throw (.refused "the user's auth.json is not the household's sign-in")

/-- The user's running app server, started and checked if needed. -/
def runtime (user : ℕ) : Codex AppServer := do
  ensureUntainted
  request .ensureHousehold
  holdingSlot user do
    if let some r ← call (.slot user) then
      if ← call (.isAlive r.serial) then
        -- The link must still be the household's.
        match ← ExceptT.lift (request (.inspect user)).run with
        | .ok .link => return r
        | _ =>
          call (.stop r.serial)
          call (.setSlot user none)
          throw (.refused "the user's auth.json is not the household's sign-in")
      call (.setSlot user none)
      call (.stop r.serial)
    link user
    let r ← start (.user user)
    call (.setSlot user (some r))
    return r

/-- The user's app server if it is running, without starting one. -/
def running (user : ℕ) : Codex (Option AppServer) :=
  holdingSlot user do
    match ← call (.slot user) with
    | some r => return if ← call (.isAlive r.serial) then some r else none
    | none => return none

/-- Stops the user's app server, if any. -/
def stop (user : ℕ) : Codex Unit :=
  holdingSlot user do
    if let some r ← call (.slot user) then
      call (.setSlot user none)
      call (.stop r.serial)

/-- Restarts a user's app server whose turn failed on its credential, once. -/
def recover (user : ℕ) (failed : AppServer) : Codex Unit := do
  if !(← call (.startRecovering user)) then return
  match ← ExceptT.lift (request .ensureHousehold).run with
  | .error _ => call (.stopRecovering user)
  | .ok () =>
    holdingSlot user do
      if let some r ← call (.slot user) then
        if r = failed then
          call (.setSlot user none)
          call (.stop r.serial)
    let _ ← ExceptT.lift (runtime user).run

end Supervisor

end Bokkie
