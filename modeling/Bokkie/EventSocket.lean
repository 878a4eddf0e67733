import Bokkie.EventLogNumbering

/-!
# The gateway's side of the event WebSocket

One call of `serve`: it waits for the client's first frame, subscribes to the user's live events,
reads the log, replays or resets, and then forwards live events. The frames it has decided to send
stand in its outbox, and it goes on once they are sent.
-/

namespace Bokkie

namespace EventSocket

open EventLog

/-- How many events one replay query reads. -/
def replayPage : ℕ := 500

/-- Where a call of `serve` stands. -/
inductive Phase where
  | accepted
  | subscribing (after : Option ℕ)
  | asking (after : Option ℕ)
  /-- `latest` reads the stored maximum, holding the log's lock. -/
  | readingLatest (after : Option ℕ)
  | checking (after latest : ℕ)
  | replaying (sent latest : ℕ)
  | live (sent : ℕ)
  | closed
deriving DecidableEq, Repr

structure Server (ε : Type) where
  phase : Phase
  outbox : List (ServerFrame ε)
  /-- What the broadcast receiver still holds, once subscribed. -/
  queue : Option (List (EventEnvelope ε))
deriving DecidableEq

namespace Server

variable {ε β : Type}

def new : Server ε := ⟨.accepted, [], none⟩

def close (_ : Server ε) : Server ε := ⟨.closed, [], none⟩

/-- The first frame must be a resume. -/
def receiveFirst (sv : Server ε) : ClientFrame β → Server ε
  | .resume after => { sv with phase := .subscribing after }
  | _ => sv.close

/-- A frame that arrives while live. -/
def receiveLive (sv : Server ε) : ClientFrame β → Server ε
  | .ping => { sv with outbox := [.pong] }
  | .viewing _ => sv
  | .resume _ => sv.close

def subscribe (sv : Server ε) (after : Option ℕ) : Server ε :=
  { sv with phase := .asking after, queue := some [] }

def goLive (sv : Server ε) (sent : ℕ) : Server ε :=
  { sv with phase := .live sent, outbox := [.live sent] }

def reset (sv : Server ε) (latest : ℕ) : Server ε :=
  { sv with phase := .live latest, outbox := [.reset latest, .live latest] }

def afterLatest (sv : Server ε) (after : Option ℕ) (latest : ℕ) : Server ε :=
  match after with
  | none => sv.goLive latest
  | some after => { sv with phase := .checking after latest }

def afterEarliest (sv : Server ε) (after latest : ℕ) (earliest : Option ℕ) : Server ε :=
  let dropped := decide (after < latest) && earliest.all fun e => after + 1 < e
  if after > latest ∨ dropped = true then sv.reset latest
  else { sv with phase := .replaying after latest }

/-- The rest of one turn of the replay loop, once its page is read. -/
def afterPage (sv : Server ε) (sent latest : ℕ) (page : List (EventEnvelope ε)) : Server ε :=
  match page.getLast? with
  | none => sv.goLive latest
  | some last =>
    if page.head?.any (fun first => first.seq ≠ sent + 1) then sv.reset latest
    else
      { sv with
        phase := .replaying (min last.seq latest) latest
        outbox := (page.takeWhile fun e => e.seq ≤ latest).map .event }

/-- A live event from the receiver. -/
def afterEvent (sv : Server ε) (sent : ℕ) (e : EventEnvelope ε) : Server ε :=
  if e.seq > sent then
    if e.seq ≠ sent + 1 then sv.close
    else { sv with phase := .live e.seq, outbox := [.event e] }
  else sv

end Server

/-- What a call of `serve` does next. -/
inductive Action where
  /-- It reads the client's next frame. -/
  | receive
  | subscribe
  | latest
  | latestRead
  | earliest
  | page
  | send
  /-- It takes the next live event. -/
  | event
  /-- It ends: the receiver lagged, a frame could not be sent, the session or the socket ended. -/
  | stop
deriving DecidableEq, Repr

/-- A socket: the call that serves it, and the frames on their way in either direction. -/
structure Socket (ε β : Type) where
  server : Server ε
  toServer : List (ClientFrame β)
  toClient : List (ServerFrame ε)
deriving DecidableEq

variable {ε β : Type}

namespace Socket

def new : Socket ε β := ⟨Server.new, [], []⟩

/-- The receiver of a subscribed call gets a broadcast event. -/
def broadcast (e : EventEnvelope ε) (k : Socket ε β) : Socket ε β :=
  { k with server := { k.server with queue := k.server.queue.map (· ++ [e]) } }

/-- The gateway stops: the call is gone, frames on their way still arrive. -/
def kill (k : Socket ε β) : Socket ε β := { k with server := k.server.close }

end Socket

/-- One action of the call that serves socket `k`, with the log it reads. -/
def step (limits : Limits) (log : UserLog ε) (k : Socket ε β) :
    Action → Option (UserLog ε × Socket ε β)
  | .receive => match k.server.phase, k.server.outbox, k.toServer with
    | .accepted, [], f :: rest =>
      some (log, { k with server := k.server.receiveFirst f, toServer := rest })
    | .live _, [], f :: rest =>
      some (log, { k with server := k.server.receiveLive f, toServer := rest })
    | _, _, _ => none
  | .subscribe => match k.server.phase with
    | .subscribing after => some (log, { k with server := k.server.subscribe after })
    | _ => none
  | .latest => match k.server.phase, EventLog.step limits log .latest with
    | .asking after, some log' => match log.last with
      | some latest => some (log', { k with server := k.server.afterLatest after latest })
      | none =>
        some (log', { k with server := { k.server with phase := .readingLatest after } })
    | _, _ => none
  | .latestRead => match k.server.phase, EventLog.step limits log .latestRead with
    | .readingLatest after, some log' =>
      some (log', { k with server := k.server.afterLatest after log.storedLast })
    | _, _ => none
  | .earliest => match k.server.phase with
    | .checking after latest =>
      some (log, { k with server := k.server.afterEarliest after latest log.earliest })
    | _ => none
  | .page => match k.server.phase, k.server.outbox with
    | .replaying sent latest, [] =>
      if sent < latest then
        some (log, { k with
          server := k.server.afterPage sent latest (log.since sent replayPage) })
      else some (log, { k with server := k.server.goLive latest })
    | _, _ => none
  | .send => match k.server.outbox with
    | f :: rest =>
      some (log, { k with
        server := { k.server with outbox := rest }, toClient := k.toClient ++ [f] })
    | [] => none
  | .event => match k.server.phase, k.server.outbox, k.server.queue with
    | .live sent, [], some (e :: rest) =>
      some (log, { k with server := { k.server with queue := some rest }.afterEvent sent e })
    | _, _, _ => none
  | .stop => some (log, k.kill)

end EventSocket

end Bokkie
