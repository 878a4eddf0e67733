import Bokkie.AppServers

/-!
# What the supervisor holds, and how its calls are answered

The state behind the calls of `CodexCall`: the latch, the app servers, the users' slots, the turn
requests sent, and a journal of the configurations and threads that app servers answered with. The
choice that answers a call is what lies outside the gateway: an app server's answer, a request that
times out, a file found.
-/

namespace Bokkie

/-- An app server's state in the gateway. -/
structure ServerState where
  owner : Owner
  expected : Expected
  alive : Bool
  served : List (String × GrantSet)
  /-- Its watcher reads its messages. -/
  watching : Bool
  /-- Its watcher is handling one. -/
  handling : Bool

inductive TurnParams where
  | start (params : TurnStartParams)
  | steer (params : TurnSteerParams)
deriving DecidableEq

def TurnParams.threadId : TurnParams → String
  | .start params => params.threadId
  | .steer params => params.threadId

/-- A `turn/start` or `turn/steer` that was sent: the turn Codex took it into, if it did, and the
answer the gateway got, if it got one. -/
structure TurnRequest where
  serial : ℕ
  params : TurnParams
  turn : Option String
  answer : Option (Except CodexError String)

/-- What an app server answered a task's request with. -/
inductive Exchange where
  | config (task serial : ℕ) (config : Json)
  | started (task serial : ℕ) (grants : GrantSet) (session : ThreadSession)
  | resumed (task serial : ℕ) (session : ThreadSession)

/-- What a call that leaves the gateway is answered with. -/
inductive Choice where
  | none
  | unit (answer : Except CodexError Unit)
  | config (answer : Except CodexError Json)
  | models (answer : Except CodexError (List String))
  | thread (answer : Except CodexError ThreadSession)
  | turn (answer : Except CodexError String)
  | auth (answer : Except CodexError AuthFile)
  | launch (answer : Except CodexError Expected)

structure Supervisor where
  latch : Latch
  /-- Every app server started, in the order of their serials. -/
  servers : List ServerState
  slots : List (ℕ × AppServer)
  /-- The slots held, each with the task that holds it. -/
  slotHolders : List (ℕ × ℕ)
  recovering : List ℕ
  requests : List TurnRequest
  journal : List Exchange
  /-- The events sent to the router and not yet taken from its channel, with their app server. -/
  events : List (ℕ × RuntimeEvent)

namespace Supervisor

def initial : Supervisor := ⟨⟨[], none⟩, [], [], [], [], [], [], []⟩

/-- A stopped gateway takes its app servers with it. What they have done stays done. -/
def restart (w : Supervisor) : Supervisor :=
  { initial with
    servers := w.servers.map fun server =>
      { server with alive := false, served := [], watching := false, handling := false }
    requests := w.requests
    journal := w.journal }

def modifyServer (w : Supervisor) (serial : ℕ) (f : ServerState → ServerState) : Supervisor :=
  { w with servers := w.servers.modify serial f }

def modifyRequest (w : Supervisor) (request : ℕ) (f : TurnRequest → TurnRequest) : Supervisor :=
  { w with requests := w.requests.modify request f }

/-- The grants a thread served on an app server started with. -/
def threadGrants (w : Supervisor) (serial : ℕ) (threadId : String) : Option GrantSet :=
  (w.servers[serial]?).bind fun server => server.served.lookup threadId

def send (w : Supervisor) (serial : ℕ) (params : TurnParams) : Supervisor :=
  { w with requests := w.requests ++ [⟨serial, params, none, none⟩] }

/-- Codex answers a request with the turn it took it into, and rejects one only if there is none. An
answer that is lost says nothing. -/
def honest (request : TurnRequest) : Except CodexError String → Bool
  | .ok turn => request.turn = some turn
  | .error (.rejected _) => request.turn.isNone
  | .error (.appServer _) => true
  | .error _ => false

def answerTurn (w : Supervisor) (request : ℕ) (answer : Except CodexError String) :
    Option (Except CodexError String × Supervisor) := do
  let sent ← w.requests[request]?
  if sent.answer.isNone && honest sent answer then
    some (answer, w.modifyRequest request fun sent => { sent with answer := some answer })
  else none

/-- An app server's failures: it rejects, or does not answer. -/
def failure : CodexError → Bool
  | .rejected _ | .appServer _ => true
  | _ => false

/-- An answer that is a success or one of an app server's failures. -/
def fromServer {α : Type} (answer : Except CodexError α) : Option (Except CodexError α) :=
  match answer with
  | .ok a => some (.ok a)
  | .error e => if failure e then some (.error e) else none

end Supervisor

namespace Choice

def asUnit : Choice → Option (Except CodexError Unit)
  | .unit answer => some answer
  | _ => Option.none

def asConfig : Choice → Option (Except CodexError Json)
  | .config answer => some answer
  | _ => Option.none

def asModels : Choice → Option (Except CodexError (List String))
  | .models answer => some answer
  | _ => Option.none

def asThread : Choice → Option (Except CodexError ThreadSession)
  | .thread answer => some answer
  | _ => Option.none

def asTurn : Choice → Option (Except CodexError String)
  | .turn answer => some answer
  | _ => Option.none

def asAuth : Choice → Option (Except CodexError AuthFile)
  | .auth answer => some answer
  | _ => Option.none

def asLaunch : Choice → Option (Except CodexError Expected)
  | .launch answer => some answer
  | _ => Option.none

end Choice

namespace Supervisor

/-- Keeps an exchange in the journal, if the app server answered. -/
def record {α : Type} (w : Supervisor) (exchange : α → Exchange) (answer : Except CodexError α) :
    Supervisor :=
  match answer with
  | .ok a => { w with journal := w.journal ++ [exchange a] }
  | .error _ => w

/-- A new app server, known by the next serial. -/
def launched (w : Supervisor) (owner : Owner) (answer : Except CodexError Expected) :
    Except CodexError AppServer × Supervisor :=
  match answer with
  | .ok expected => (.ok ⟨w.servers.length, owner, expected⟩,
      { w with servers := w.servers ++ [⟨owner, expected, true, [], true, false⟩] })
  | .error e => (.error e, w)

end Supervisor

open Supervisor in
/-- The answer to a task's call, and what the call does. -/
def CodexCall.answer (task : ℕ) (choice : Choice) (w : Supervisor) {β : Type} :
    CodexCall β → Option (β × Supervisor)
  | .tainted => some (w.latch.tainted, w)
  | .taint reason => some ((), { w with latch := w.latch.taint reason })
  | .threadRefusal user threadId => some (w.latch.threadRefusal user threadId, w)
  | .refuseThread user threadId reason =>
    some ((), { w with latch := w.latch.refuseThread user threadId reason })
  | .isAlive serial => some ((w.servers[serial]?).any (·.alive), w)
  | .stop serial =>
    some ((), w.modifyServer serial fun server => { server with alive := false })
  | .threadGrants serial threadId => some (w.threadGrants serial threadId, w)
  | .serve serial threadId grants =>
    some ((), w.modifyServer serial fun server =>
      { server with served := (threadId, grants) :: server.served })
  | .unserve serial threadId =>
    some ((), w.modifyServer serial fun server =>
      { server with served := server.served.filter fun entry => entry.1 ≠ threadId })
  | .report serial event => some ((), { w with events := w.events ++ [(serial, event)] })
  | .watched serial reads =>
    some ((), w.modifyServer serial fun server =>
      { server with handling := false, watching := reads })
  | .initializeClient _ => (choice.asUnit.bind fromServer).map (·, w)
  | .configRead serial =>
    (choice.asConfig.bind fromServer).map fun a => (a, w.record (.config task serial) a)
  | .modelList _ => (choice.asModels.bind fromServer).map (·, w)
  | .accountLogout _ => (choice.asUnit.bind fromServer).map (·, w)
  | .threadStart serial _ grants =>
    (choice.asThread.bind fromServer).map fun a => (a, w.record (.started task serial grants) a)
  | .threadResume serial _ _ _ =>
    (choice.asThread.bind fromServer).map fun a => (a, w.record (.resumed task serial) a)
  | .turnStart serial params => some (w.requests.length, w.send serial (.start params))
  | .turnStarted request => choice.asTurn.bind (w.answerTurn request)
  | .turnSteer serial params => some (w.requests.length, w.send serial (.steer params))
  | .turnSteered request => choice.asTurn.bind (w.answerTurn request)
  | .turnInterrupt _ _ _ => (choice.asUnit.bind fromServer).map (·, w)
  | .lockSlot user =>
    if (w.slotHolders.lookup user).isNone then
      some ((), { w with slotHolders := (user, task) :: w.slotHolders })
    else none
  | .unlockSlot user =>
    some ((), { w with slotHolders := w.slotHolders.filter fun entry => entry.1 ≠ user })
  | .slot user => some (w.slots.lookup user, w)
  | .setSlot user server =>
    let slots := w.slots.filter fun entry => entry.1 ≠ user
    some ((), { w with slots := (server.map (user, ·)).toList ++ slots })
  | .ensureHousehold => choice.asUnit.map (·, w)
  | .inspect _ => choice.asAuth.map (·, w)
  | .makeLink _ => choice.asUnit.map (·, w)
  | .launch owner => choice.asLaunch.map (w.launched owner)
  | .startRecovering user =>
    some (!w.recovering.contains user, { w with recovering := w.recovering.insert user })
  | .stopRecovering user => some ((), { w with recovering := w.recovering.filter (· ≠ user) })

end Bokkie
