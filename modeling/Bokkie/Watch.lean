import Bokkie.Guard

/-!
# The watcher of one app server

What the watcher does with each message: it checks every item, answers every server request, and
forwards a user's notifications. A broken safety rule refuses the thread, taints Codex for the
whole gateway and stops the app server.
-/

namespace Bokkie

/-- Whose app server: the household's, or a user's. -/
inductive Owner where
  | household
  | user (id : ℕ)
deriving DecidableEq, Repr

/-- Refusals that outlive any one app server. -/
structure Latch where
  threads : List ((ℕ × String) × Refusal)
  tainted : Option Refusal
deriving DecidableEq

namespace Latch

def refuseThread (latch : Latch) (user : ℕ) (threadId : String) (reason : Refusal) : Latch :=
  { latch with threads := ((user, threadId), reason) :: latch.threads }

def threadRefusal (latch : Latch) (user : ℕ) (threadId : String) : Option Refusal :=
  latch.threads.lookup (user, threadId)

/-- Set once, with the first reason. -/
def taint (latch : Latch) (reason : Refusal) : Latch :=
  { latch with tainted := some (latch.tainted.getD reason) }

end Latch

inductive ApprovalDecision where
  | accept
  | acceptForSession
  | decline
  | cancel
deriving DecidableEq, Repr

/-- What the gateway answers a server request with. -/
inductive Answer where
  | toolCall (success : Bool) (text : String)
  | approval (decision : ApprovalDecision)
  | error (error : RpcError)

/-- What a user's app server reports to the router. -/
inductive RuntimeEventKind where
  | notification (notification : ServerNotification)
  | toolCall (call : DynamicToolCallParams) (reply : RequestId)
  | webSearchCompleted (threadId turnId itemId query : String) (action : Option Json)
      (granted : Bool)
  | refused (threadId : String) (reason : Refusal)
  | exited

/-- A running app server as its watcher sees it: the gateway's latch, the threads served with
their grants, and what has been answered and reported. -/
structure Runtime where
  owner : Owner
  latch : Latch
  served : List (String × GrantSet)
  alive : Bool
  /-- The child process runs. -/
  server : Bool
  answers : List (RequestId × Answer)
  events : List RuntimeEventKind

namespace Runtime

def threadGrants (r : Runtime) (threadId : String) : Option GrantSet := r.served.lookup threadId

def stop (r : Runtime) : Runtime := { r with alive := false, server := false }

/-- Only a user's app server reports to the router. -/
def send (r : Runtime) (event : RuntimeEventKind) : Runtime :=
  match r.owner with
  | .user _ => { r with events := r.events ++ [event] }
  | .household => r

def respond (r : Runtime) (id : RequestId) (answer : Answer) : Runtime :=
  { r with answers := r.answers ++ [(id, answer)] }

def refuse (r : Runtime) (user : ℕ) (threadId : String) (reason : Refusal) : Runtime :=
  { r with
    served := r.served.filter fun entry => entry.1 ≠ threadId
    latch := r.latch.refuseThread user threadId reason }

def taint (r : Runtime) (reason : Refusal) : Runtime := { r with latch := r.latch.taint reason }

/-- Handles a broken safety rule. -/
def violation (r : Runtime) (threadId : Option String) (refusal : Refusal) : Runtime :=
  let r := match threadId, r.owner with
    | some threadId, .user user =>
      (r.refuse user threadId refusal).send (.refused threadId refusal)
    | _, _ => r
  (r.taint refusal).stop

/-- The method names an approval. -/
def namesApproval (method : String) : Bool := "pproval".toList <:+: method.toList

/-- The thread an unknown approval names. -/
def approvalThread (params : Option Json) : Option String := do
  let p ← params
  ((p.get "threadId").or (p.get "conversationId")).bind Json.asStr

def watchItem (r : Runtime) (n : ItemNotification) (completed : Bool) : Runtime :=
  let checked := checkItem n.item ((r.threadGrants n.threadId).getD ∅)
  let r := match checked with
    | some refusal => r.violation (some n.threadId) refusal
    | none => r
  match completed, n.item with
  | true, .webSearch id query action _ =>
    r.send (.webSearchCompleted n.threadId n.turnId id query action checked.isNone)
  | _, _ => r

def watchNotification (r : Runtime) (n : ServerNotification) : Runtime :=
  let r := match n with
    | .itemStarted item => r.watchItem item false
    | .itemCompleted item => r.watchItem item true
    | .other _ _ => r
  r.send (.notification n)

def watchToolCall (r : Runtime) (id : RequestId) (call : DynamicToolCallParams) : Runtime :=
  match r.owner, r.threadGrants call.threadId with
  | owner, some grants =>
    if owner ≠ .household ∧ Tool.allows grants call.tool call.namespaceName then
      r.send (.toolCall call id)
    else
      let refusal := "the model called " ++ Tool.displayName call.tool call.namespaceName ++
        ", which its thread was not granted"
      (r.violation (some call.threadId) refusal).respond id (.toolCall false Tool.notAvailable)
  | _, none => r.respond id (.toolCall false Tool.notAvailable)

def watchRequest (r : Runtime) (id : RequestId) (kind : ServerRequestKind) : Runtime :=
  match kind with
  | .dynamicToolCall call => r.watchToolCall id call
  | .commandExecutionApproval params =>
    (r.violation (some params.threadId) "the app server asked to approve a command").respond id
      (.approval .decline)
  | .fileChangeApproval params =>
    (r.violation (some params.threadId) "the app server asked to approve a file change").respond id
      (.approval .decline)
  | .unknown method params =>
    let r :=
      if namesApproval method then
        match approvalThread params with
        | some threadId => r.violation (some threadId) ("the app server sent " ++ method)
        | none => r
      else r
    r.respond id (.error (.methodNotFound method))

/-- The method of a line that did not decode, if the line is a readable document. -/
def malformedMethod (document : Option Json) : Option String := do
  let v ← document
  if v.readable then (← v.get "method").asStr else none

def malformedThread (document : Option Json) : Option String := do
  let v ← document
  if v.readable then (← (← v.get "params").get "threadId").asStr else none

def watch (parse : String → Option Json) (r : Runtime) : Incoming → Runtime
  | .notification n => r.watchNotification n
  | .request id kind => r.watchRequest id kind
  | .malformedRequest id method =>
    let r := r.respond id (.error (.methodNotFound method))
    if namesApproval method then
      r.violation none ("the app server sent an unreadable " ++ method)
    else r
  | .malformed line =>
    match malformedMethod (parse line) with
    | some "item/started" | some "item/completed" =>
      r.violation (malformedThread (parse line))
        "the app server sent an item that could not be checked"
    | _ => r

/-- One line of the app server, read and handled. -/
def handle (parse : String → Option Json) (typed : String → Json → Bool) (r : Runtime)
    (line : Line) : Runtime :=
  match Incoming.ofLine parse typed line with
  | some incoming => r.watch parse incoming
  | none => r

end Runtime

end Bokkie
