import Bokkie.Connection
import Bokkie.EventSocket

/-!
# End-to-end event delivery

One user's log with its writers, the sockets the client has opened, and the client's connection.
The transport carries out the connection's commands: it keeps one socket at a time, and once told
to close it reports nothing more from it.
-/

namespace Bokkie

namespace Delivery

open EventLog Connection EventSocket Runs

/-- What the connection has passed on since its last reload, and from which position. -/
structure Progress (ε : Type) where
  position : Option ℕ
  passed : List (EventEnvelope ε)
deriving DecidableEq

variable {ε β : Type}

namespace Progress

/-- The position that a frame names for the reload it causes. -/
def named (p : Progress ε) : Input ε β → Option ℕ
  | .frame (.reset after) => some after
  | .frame (.live latest) => some latest
  | _ => p.position

def noteCommand (input : Input ε β) (p : Progress ε) : Command ε β → Progress ε
  | .apply e => { p with passed := p.passed ++ [e] }
  | .reload => ⟨p.named input, []⟩
  | _ => p

def note (p : Progress ε) (input : Input ε β) (commands : List (Command ε β)) : Progress ε :=
  commands.foldl (noteCommand input) p

end Progress

structure World (ε β : Type) where
  log : UserLog ε
  /-- Every socket the client has opened. -/
  sockets : List (Socket ε β)
  /-- The socket whose reports reach the connection. -/
  current : Option ℕ
  client : Connection β
  progress : Progress ε
deriving DecidableEq

def World.new : World ε β := ⟨UserLog.new, [], none, Connection.new, ⟨none, []⟩⟩

/-- The next frame that the connection will hear. -/
def World.arriving (w : World ε β) : Option (ServerFrame ε) := do
  let i ← w.current
  let k ← w.sockets[i]?
  k.toClient.head?

/-- Its socket has handed that frame over. -/
def World.arrived (w : World ε β) : World ε β :=
  match w.current with
  | none => w
  | some i =>
    { w with sockets := w.sockets.modify i fun k => { k with toClient := k.toClient.tail } }

/-- The transport carries out one command. -/
def perform (w : World ε β) : Command ε β → World ε β
  | .connect => { w with sockets := w.sockets ++ [Socket.new], current := some w.sockets.length }
  | .close => { w with current := none }
  | .send f => match w.current with
    | none => w
    | some i =>
      { w with sockets := w.sockets.modify i fun k => { k with toServer := k.toServer ++ [f] } }
  | _ => w

/-- The connection handles an input and the transport carries out its commands. -/
def World.handle [DecidableEq β] (w : World ε β) (input : Input ε β) : World ε β :=
  let o := w.client.handle input
  o.2.foldl perform { w with client := o.1, progress := w.progress.note input o.2 }

inductive Action (ε β : Type) where
  | log (a : EventLog.Action ε)
  | server (i : ℕ) (a : EventSocket.Action)
  /-- The current socket opens. -/
  | opened
  /-- The next frame of the current socket arrives. -/
  | deliver
  /-- The current socket carries a text that is not a frame. -/
  | garble
  /-- The current socket closes or fails. -/
  | closed (code : Option ℕ)
  /-- A timer or the application. -/
  | input (i : Input ε β)
deriving DecidableEq

/-- The inputs that do not come from the socket. -/
def offSocket : Input ε β → Bool
  | .opened | .frame _ | .unreadable | .closed _ => false
  | _ => true

/-- What a step of the log does to the calls that serve the sockets. -/
def spread (log : UserLog ε) (a : EventLog.Action ε) (k : Socket ε β) : Socket ε β :=
  match a, log.holder with
  | .broadcast, .broadcasting _ (e :: _) => k.broadcast e
  | .restart, _ => k.kill
  | _, _ => k

def step [DecidableEq β] (limits : Limits) (w : World ε β) : Action ε β → Option (World ε β)
  | .log a => (EventLog.step limits w.log a).map fun log =>
    { w with log := log, sockets := w.sockets.map (spread w.log a) }
  | .server i a => do
    let k ← w.sockets[i]?
    let (log, k') ← EventSocket.step limits w.log k a
    return { w with log := log, sockets := w.sockets.set i k' }
  | .opened => w.current.map fun _ => w.handle .opened
  | .deliver => w.arriving.map fun f => w.arrived.handle (.frame f)
  | .garble => w.current.map fun _ => w.handle .unreadable
  | .closed code => w.current.map fun _ => { w with current := none }.handle (.closed code)
  | .input i => if offSocket i then some (w.handle i) else none

end Delivery

end Bokkie
