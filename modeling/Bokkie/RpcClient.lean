import Bokkie.Accounts
import Bokkie.CodexProtocol
import Bokkie.Runs
import Mathlib.Algebra.Group.Nat.Defs

/-!
# The client of an app server

Requests wait in one table for the responses that carry their ids. Any number of callers put their
entries in and take them out, a reader completes them from the server's lines, and a reader or a
writer that ends empties the table. Each use of the table under its lock is a step of its own, and so
is each message to a channel. A failed write, or the end of the output, touches nothing before it
empties the table, so the two are one step.
-/

namespace Bokkie

namespace RpcError

def PARSE_ERROR : ℤ := -32700

end RpcError

namespace RpcClient

/-- What the result of a response is. -/
abbrev Reply := Except RpcError Json

/-- What a request future ends with. -/
inductive Outcome where
  | answered (reply : Reply)
  | closed

/-- The channel that a request waits on: its sender is alive, has sent, or was dropped. -/
inductive Channel where
  | empty
  | sent (reply : Reply)
  | closed

/-- Where a request future is. -/
inductive Phase where
  /-- It has an id. -/
  | begun
  /-- Its entry is in the table, and its guard stands. -/
  | inserted
  /-- Its line is with the writer. -/
  | waiting
  /-- Its guard is to take the entry out: it ends with an outcome, or was dropped. -/
  | leaving (outcome : Option Outcome)
  | resolved (outcome : Outcome)
  | dropped

structure Request where
  id : ℤ
  line : String
  phase : Phase
  channel : Channel

inductive Reader where
  | reading
  /-- A reply taken from the table is to be sent, and then the line's event. -/
  | sending (request : ℕ) (reply : Reply) (event : Option Incoming)
  | ended

inductive Writer where
  | writing
  /-- A write failed, and the table is emptied. -/
  | failed
  /-- Its channel takes no more lines. -/
  | gone
deriving DecidableEq

/-- What happened. A line comes with the reply that it is, and to which id. -/
inductive Event where
  | asked (request : ℕ) (id : ℤ)
  | line (text : String) (reply : Option (RequestId × Reply))
  | emptied
  | resolved (request : ℕ) (outcome : Outcome)
  | dropped (request : ℕ)

/-- The entries, by id. -/
abbrev Pending := List (ℤ × ℕ)

structure World where
  nextId : ℤ
  pending : Option Pending
  requests : List Request
  /-- The lines for the writer. -/
  lines : List String
  writer : Writer
  /-- What the server wrote and the reader has not read. -/
  unread : List UInt8
  outputEnded : Bool
  reader : Reader
  incoming : List Incoming
  journal : List Event

/-- What the client makes of text: the documents and their texts, which typed parameters decode, how
bytes that are not UTF-8 read, and why a line does not decode. -/
structure Codec where
  parse : String → Option Json
  typed : String → Json → Bool
  lossy : List UInt8 → String
  encode : RpcMessage → String
  error : String → String

/-- `std::str::from_utf8`. -/
def fromUtf8 (bytes : List UInt8) : Option String := String.fromUTF8? ⟨bytes.toArray⟩

/-- Without the newlines and carriage returns at its end. -/
def trimEndMatches (line : String) : String :=
  String.ofList (line.toList.reverse.dropWhile fun c => c = '\n' ∨ c = '\r').reverse

def NEWLINE : UInt8 := 10

/-- The bytes up to the first newline, and with it. -/
def untilNewline : List UInt8 → List UInt8
  | [] => []
  | b :: bytes => if b = NEWLINE then [b] else b :: untilNewline bytes

/-- `read_until` under `take`: what it fills the buffer with, once it returns. -/
def readUntil (limit : ℕ) (unread : List UInt8) (outputEnded : Bool) : Option (List UInt8) :=
  let buffer := untilNewline (unread.take limit)
  if buffer.getLast? = some NEWLINE ∨ buffer.length = limit ∨ outputEnded then some buffer else none

/-- `AtomicI64::fetch_add` wraps. -/
def wrap (n : ℤ) : ℤ := (n + 2 ^ 63) % 2 ^ 64 - 2 ^ 63

section Messages

variable (codec : Codec)

/-- The reply that a line is, to the request of an id, if it is one. -/
def replyOf (line : String) : Option (RequestId × Reply) :=
  match RpcMessage.decode (codec.parse line) with
  | some (.response id result) => some (id, .ok result)
  | some (.error (some id) error) => some (id, .error error)
  | some _ => none
  | none => do
    -- an undecodable response still answers its request
    let value ← codec.parse line
    if value.readable ∧ (value.get "method").isNone then
      let id ← RpcMessage.readId (some (← value.get "id"))
      some (id, .error ⟨RpcError.PARSE_ERROR, "undecodable response: " ++ codec.error line, none⟩)
    else none

end Messages

namespace World

variable (codec : Codec) (maxLine : ℕ) (w : World)

/-- `Client::with_max_line`. -/
def start : World where
  nextId := 1
  pending := some []
  requests := []
  lines := []
  writer := .writing
  unread := []
  outputEnded := false
  reader := .reading
  incoming := []
  journal := []

def modify (request : ℕ) (f : Request → Request) : World :=
  { w with requests := w.requests.modify request f }

def record (event : Event) : World := { w with journal := w.journal ++ [event] }

def push (event : Option Incoming) : World := { w with incoming := w.incoming ++ event.toList }

/-- Takes the entry of an id out of the table, if there is one. -/
def remove (id : ℤ) : World :=
  { w with pending := w.pending.map fun table => table.filter fun entry => entry.1 ≠ id }

def entry (id : ℤ) : Option ℕ :=
  w.pending.bind fun table => (table.find? fun entry => entry.1 = id).map (·.2)

/-- A sender is dropped without having sent. -/
def close (request : Option ℕ) : World :=
  match request with
  | some request => w.modify request fun q => { q with channel := .closed }
  | none => w

/-- `lock(&pending).take()`: no entry is left, and no more are taken. -/
def empty : World :=
  let entries := w.pending.getD []
  { w with
    pending := none
    requests := w.requests.mapIdx fun i q =>
      if entries.any fun entry => entry.2 = i then { q with channel := .closed } else q
    journal := w.journal ++ [.emptied] }

/-- The future's first use of the table: there is none, or its entry goes in. -/
def insert (request : ℕ) (id : ℤ) : World :=
  match w.pending with
  | none => (w.modify request fun q => { q with phase := .resolved .closed }).record
      (.resolved request .closed)
  | some _ =>
    let w := (w.close (w.entry id)).remove id
    { w.modify request fun q => { q with phase := .inserted } with
      pending := w.pending.map ((id, request) :: ·)
      journal := w.journal ++ [.asked request id] }

/-- The drop of the future's guard, and the end of the future. -/
def leave (request : ℕ) (id : ℤ) (outcome : Option Outcome) : World :=
  let w := (w.close (w.entry id)).remove id
  match outcome with
  | some outcome => (w.modify request fun q => { q with phase := .resolved outcome }).record
      (.resolved request outcome)
  | none => (w.modify request fun q => { q with phase := .dropped }).record (.dropped request)

/-- The next thing that a request future does, if it is not to wait. -/
def poll (request : ℕ) (q : Request) : Option World :=
  match q.phase, q.channel with
  | .begun, _ => some (w.insert request q.id)
  | .inserted, _ =>
    if w.writer = .gone then
      some (w.modify request fun q => { q with phase := .leaving (some .closed) })
    else some { w.modify request fun q => { q with phase := .waiting } with
      lines := w.lines ++ [q.line] }
  | .waiting, .empty => none
  | .waiting, .sent reply =>
    some (w.modify request fun q => { q with phase := .leaving (some (.answered reply)) })
  | .waiting, .closed =>
    some (w.modify request fun q => { q with phase := .leaving (some .closed) })
  | .leaving outcome, _ => some (w.leave request q.id outcome)
  | .resolved _, _ | .dropped, _ => none

/-- What the reader does with a line's text: a reply is taken to its request's sender. -/
def dispatch (line : String) : World :=
  let reply := replyOf codec line
  let event := Incoming.dispatch codec.parse codec.typed line
  let w := w.record (.line line reply)
  match reply with
  | some (.integer id, reply) => match w.entry id with
    | some request => { w.remove id with reader := .sending request reply event }
    | none => w.push event
  | _ => w.push event

/-- What the reader does with what it has read. -/
def handle (buffer : List UInt8) : World :=
  if buffer = [] then { w.empty with reader := .ended }
  else if maxLine < buffer.length ∧ buffer.getLast? ≠ some NEWLINE then
    { (w.push (some (.malformed (codec.lossy (buffer.take 256))))).empty with reader := .ended }
  else match fromUtf8 buffer with
    | none => w.push (some (.malformed (codec.lossy buffer)))
    | some line =>
      let line := trimEndMatches line
      if trim line = "" then w else w.dispatch codec line

end World

inductive Action where
  /-- A request future is polled for the first time. -/
  | begin (method : String) (params : Option Json)
  | poll (request : ℕ)
  /-- A request future is dropped where it waits. -/
  | drop (request : ℕ)
  /-- A notification, or an answer to a server's request. -/
  | send (message : RpcMessage)
  | write
  | writeFails
  /-- The writer's channel closes. -/
  | hangUp
  /-- The server writes, or ends its output. -/
  | serve (bytes : List UInt8)
  | serverEnds
  | read
  | readFails
  /-- The reader sends the reply that it took a sender for. -/
  | complete

def World.step (codec : Codec) (maxLine : ℕ) (w : World) : Action → Option World
  | .begin method params =>
    some { w with
      nextId := wrap (w.nextId + 1)
      requests := w.requests ++ [⟨w.nextId,
        codec.encode (.request (.integer w.nextId) method params) ++ "\n", .begun, .empty⟩] }
  | .poll request => w.requests[request]?.bind (w.poll request)
  | .drop request => w.requests[request]?.bind fun q => match q.phase with
    | .waiting => some (w.modify request fun q => { q with phase := .leaving none })
    | _ => none
  | .send message =>
    if w.writer = .gone then some w
    else some { w with lines := w.lines ++ [codec.encode message ++ "\n"] }
  | .write => match w.writer, w.lines with
    | .writing, _ :: lines => some { w with lines := lines }
    | _, _ => none
  | .writeFails => match w.writer, w.lines with
    | .writing, _ :: lines => some { w.empty with lines := lines, writer := .failed }
    | _, _ => none
  | .hangUp => if w.writer = .failed then some { w with writer := .gone, lines := [] } else none
  | .serve bytes => if w.outputEnded then none else some { w with unread := w.unread ++ bytes }
  | .serverEnds => some { w with outputEnded := true }
  | .read => match w.reader with
    | .reading => (readUntil (maxLine + 1) w.unread w.outputEnded).map fun buffer =>
      { w with unread := w.unread.drop buffer.length }.handle codec maxLine buffer
    | _ => none
  | .readFails => match w.reader with
    | .reading => some { w.empty with reader := .ended }
    | _ => none
  | .complete => match w.reader with
    | .sending request reply event =>
      some (({ w with reader := .reading }.modify request fun q =>
        { q with channel := .sent reply }).push event)
    | _ => none

end RpcClient

end Bokkie
