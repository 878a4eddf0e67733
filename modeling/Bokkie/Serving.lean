import Bokkie.SupervisorState

/-!
# Turns start on checked threads

Any number of calls on the supervisor and its app servers run at once: app servers started, stopped
and restarted, threads started and resumed, turns started, steered and interrupted, and the watchers
at work. A turn request names a thread that passed its checks on the app server it goes to, and what
a call found when it looked: a thread not refused and a Codex not tainted.
-/

namespace Bokkie

open Tasks Codex ServeChecks

namespace CodexCall

variable {β : Type}

/-- The app server and the thread of a `turn/start` or `turn/steer`. -/
def turnOf : CodexCall β → Option (ℕ × String)
  | .turnStart serial params => some (serial, params.threadId)
  | .turnSteer serial params => some (serial, params.threadId)
  | _ => none

/-- The app server that a thread is from then on served on. -/
def serves : CodexCall β → Option (ℕ × String)
  | .serve serial threadId _ => some (serial, threadId)
  | _ => none

end CodexCall

namespace Serving

/-- A call made on the supervisor or an app server. -/
inductive Job where
  | runtime (user : ℕ)
  | running (user : ℕ)
  | stop (user : ℕ)
  | recover (user : ℕ) (failed : AppServer)
  | startThread (r : AppServer) (instructions : Instructions) (grants : GrantSet)
  | resumeThread (r : AppServer) (threadId : String) (instructions : Instructions)
      (grants : GrantSet)
  | isServed (r : AppServer) (threadId : String)
  | startTurn (r : AppServer) (threadId input : String) (context : Option Context)
  | steerTurn (r : AppServer) (threadId turnId input clientId : String)
      (context : Option Context)
  | interruptTurn (r : AppServer) (threadId turnId : String)
  | watch (r : AppServer) (broken : Option (Option String × Refusal))
      (reports : List RuntimeEvent)
  | watchEnd (r : AppServer)

/-- A call whose result nobody waits for here. -/
def discard {α : Type} (call : Codex α) : Prog CodexCall Unit := do
  let _ ← call.run
  return

namespace Job

def prog : Job → Prog CodexCall Unit
  | .runtime user => discard (Supervisor.runtime user)
  | .running user => discard (Supervisor.running user)
  | .stop user => discard (Supervisor.stop user)
  | .recover user failed => discard (Supervisor.recover user failed)
  | .startThread r instructions grants => discard (r.startThread instructions grants)
  | .resumeThread r threadId instructions grants =>
    discard (r.resumeThread threadId instructions grants)
  | .isServed r threadId => discard (r.isServed threadId)
  | .startTurn r threadId input context => discard (r.startTurn threadId input context)
  | .steerTurn r threadId turnId input clientId context =>
    discard (r.steerTurn threadId turnId input clientId context)
  | .interruptTurn r threadId turnId => discard (r.interruptTurn threadId turnId)
  | .watch r broken reports => discard (r.watch broken reports)
  | .watchEnd r => discard r.watchEnd

/-- The app server a call is made on. -/
def server : Job → Option AppServer
  | .runtime _ | .running _ | .stop _ | .recover _ _ => none
  | .startThread r _ _ | .resumeThread r _ _ _ | .isServed r _ | .startTurn r _ _ _
  | .steerTurn r _ _ _ _ _ | .interruptTurn r _ _ | .watch r _ _ | .watchEnd r => some r

/-- A watcher handles one message at a time, and none once it has ended. -/
def watches : Job → Bool
  | .watch _ _ _ | .watchEnd _ => true
  | _ => false

end Job

/-- What happens around the tasks: a call is made, an app server takes a request into a turn, and
the router takes an event. -/
inductive Surroundings where
  | call (job : Job)
  | takes (request : ℕ) (turn : String)
  | routed

/-- An app server is known by what it was started with. -/
def Knows (w : Supervisor) (r : AppServer) : Bool :=
  (w.servers[r.serial]?).any fun server => server.owner = r.owner ∧ server.expected = r.expected

def surroundings (w : Supervisor) : Surroundings → Option (Supervisor × List (Prog CodexCall Unit))
  | .call job =>
    match job.server with
    | none => some (w, [job.prog])
    | some r =>
      if !Knows w r then none
      else if job.watches then
        if (w.servers[r.serial]?).any fun server => server.watching ∧ !server.handling then
          some (w.modifyServer r.serial fun server => { server with handling := true }, [job.prog])
        else none
      else some (w, [job.prog])
  | .takes request turn =>
    if (w.requests[request]?).any fun sent => sent.turn.isNone ∧
        sent.answer.all fun answer => match answer with
          | .error (.appServer _) => true
          | _ => false then
      some (w.modifyRequest request fun sent => { sent with turn := some turn }, [])
    else none
  | .routed => some ({ w with events := w.events.tail }, [])

/-- The calls on the supervisor, in any number and order, over any app servers. -/
def system : System CodexCall Supervisor Choice Surroundings where
  answer := fun task {_} op choice w => op.answer task choice w
  surroundings := fun e w => surroundings w e
  restart := fun w => some (w.restart, [])

abbrev State := Pool CodexCall Supervisor

def initial : State := ⟨Supervisor.initial, []⟩

/-- Task `i` is about to send a `turn/start` or `turn/steer` for the thread to the app server. -/
def Sends (s : State) (i serial : ℕ) (threadId : String) : Prop :=
  ∃ (β : Type) (op : CodexCall β) (next : β → Prog CodexCall Unit),
    s.tasks[i]? = some (.call op next) ∧ op.turnOf = some (serial, threadId)

/-- One call read the app server's configuration, which passed `check_config`, and then started or
resumed the thread on it, which passed `check_thread`. -/
def Passed (w : Supervisor) (serial : ℕ) (threadId : String) : Prop :=
  ∃ server task config session before after, w.servers[serial]? = some server ∧
    w.journal = before ++ after ∧ .config task serial config ∈ before ∧
    ((∃ grants, .started task serial grants session ∈ after) ∨
      .resumed task serial session ∈ after) ∧
    checkConfig config server.expected = .ok () ∧
    checkThread session server.expected = .ok () ∧ session.threadId = threadId

end Serving

end Bokkie
