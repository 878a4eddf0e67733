import Bokkie.MessageHistory
import Bokkie.Runs

/-!
# Replies that stream

The event router's state of the replies that stream: the text that Codex sent and that is not yet
written out, and the writes and ends of replies, one database transaction each. The router handles
one event at a time; a flush takes what is pending of every reply first and then writes it, and an
end of replies flushes before it ends them.
-/

namespace Bokkie

namespace ReplyStream

/-- What a row holds besides the message: its owner, and for a reply its turn. -/
structure Origin where
  user : ℕ
  turn : Option String
deriving DecidableEq

/-- A reply still streaming. -/
structure Reply where
  user : ℕ
  bot : ℕ
  turn : String
  message : ℕ
  /-- Streamed text not yet written out. -/
  pending : List Char
  /-- How much text is written out: the next delta's offset. -/
  written : ℕ
deriving DecidableEq

/-- The user, thread and Codex item of a reply. -/
abbrev Key := ℕ × String × String

/-- What a flush took of one reply. -/
structure Chunk where
  user : ℕ
  bot : ℕ
  message : ℕ
  offset : ℕ
  text : List Char
deriving DecidableEq

/-- The end of a user's replies, of every Bot, of one Bot, or of one turn. -/
structure Ending where
  user : ℕ
  bot : Option ℕ
  turn : Option String
  state : MessageState
deriving DecidableEq

/-- What the router is at: a flush with chunks left to write, before an end of replies if any. -/
inductive Router where
  | idle
  | flushing (rest : List Chunk) (ending : Option Ending)
deriving DecidableEq

structure World where
  table : Table Origin
  /-- The events committed, each in its user's log. -/
  log : List (ℕ × Event Origin)
  replies : List (Key × Reply)
  router : Router
  /-- What Codex has said in each reply: the text it began with and the deltas since. -/
  told : IdMap (List Char)

/-! ## The store -/

/-- Appends streamed text to a Bot reply that is still streaming. -/
def appendText (t : Table Origin) (now : ℤ) (user id : ℕ) (text : List Char) : Table Origin :=
  match t[id]? with
  | some m => if m.details.user = user then t.appendText now id text else t
  | none => t

/-- Sets a streaming message's final text, when given, and state. -/
def finishMessage (t : Table Origin) (now : ℤ) (user id : ℕ) (text : Option (List Char))
    (state : MessageState) : Option (Message Origin) :=
  match t[id]? with
  | some m =>
    if m.details.user = user ∧ m.state = .streaming then
      some { m with text := text.getD m.text, state, updatedAt := now }
    else none
  | none => none

/-- The replies still streaming that an end is about. -/
def streamingMessages (t : Table Origin) (e : Ending) : List ℕ :=
  ((IdMap.records t).filter fun m : Message Origin =>
    m.details.user = e.user && m.state = .streaming && e.bot.all (· = m.botId) &&
      e.turn.all fun turn => m.details.turn = some turn).map (·.id)

/-! ## The router -/

/-- What a flush takes: each reply's pending text, and where it belongs. -/
def takePending (replies : List (Key × Reply)) : List Chunk :=
  replies.filterMap fun (_, r) =>
    if r.pending = [] then none else some ⟨r.user, r.bot, r.message, r.written, r.pending⟩

/-- A reply whose pending text a flush took counts it as written. -/
def Reply.taken (r : Reply) : Reply :=
  { r with pending := [], written := r.written + r.pending.length }

namespace World

/-- Whether a reply of a key streams. -/
def streams (w : World) (key : Key) : Bool := w.replies.any (·.1 = key)

/-- Starts a Bot reply for a Codex agent message item. `bot` is the thread's Bot, if it has one, and
`id` the row's id. `none` is a failure of the database. -/
def reply (w : World) (user : ℕ) (thread turn item : String) (text : List Char) (bot : Option ℕ)
    (id : ℕ) (now : ℤ) (ok : Bool) : Option World :=
  match bot with
  | none => some w
  | some bot =>
    if w.streams (user, thread, item) then some w
    else if ok then
      let m : Message Origin := ⟨id, bot, .bot, text, .streaming, now, now, ⟨user, some turn⟩⟩
      some { w with
        table := w.table.insert id m
        log := w.log ++ [(user, .messageCreated m)]
        replies := w.replies ++ [((user, thread, item), ⟨user, bot, turn, id, [], text.length⟩)]
        told := w.told.insert id text }
    else none

/-- Adds to the pending text of a reply. -/
def push (w : World) (key : Key) (delta : List Char) : World :=
  match w.replies.find? (·.1 = key) with
  | none => w
  | some (_, r) =>
    { w with
      replies := w.replies.map fun (k, r) =>
        if k = key then (k, { r with pending := r.pending ++ delta }) else (k, r)
      told := w.told.insert r.message ((w.told[r.message]?).getD [] ++ delta) }

/-- Takes every reply's pending text, to be written out next. -/
def beginFlush (w : World) (order : List Chunk) (ending : Option Ending) : World :=
  { w with
    replies := w.replies.map fun (k, r) => (k, r.taken)
    router := .flushing order ending }

/-- Ends a row, if it still streams, and announces it. -/
def finishRow (w : World) (now : ℤ) (user id : ℕ) (text : Option (List Char))
    (state : MessageState) : World :=
  match finishMessage w.table now user id text state with
  | some m => { w with
      table := w.table.insert id m
      log := w.log ++ [(user, .messageCompleted m)] }
  | none => w

/-- Writes one chunk out. -/
def writeChunk (w : World) (now : ℤ) (p : Chunk) : World :=
  { w with
    table := appendText w.table now p.user p.message p.text
    log := w.log ++ [(p.user, .messageDelta p.bot p.message p.offset p.text)] }

/-- Whether an end is about a reply. -/
def ends (e : Ending) (kr : Key × Reply) : Bool :=
  kr.1.1 = e.user && e.bot.all (· = kr.2.bot) && e.turn.all (· = kr.2.turn)

end World

/-- What may happen. `ok` says whether the database takes the write; `order` is the order in which
a flush comes to the replies. -/
inductive Action where
  | itemStarted (user : ℕ) (thread turn item : String) (text : List Char) (bot : Option ℕ)
      (id : ℕ) (now : ℤ) (ok : Bool)
  | delta (user : ℕ) (thread turn item : String) (text : List Char) (bot : Option ℕ)
      (id : ℕ) (now : ℤ) (ok : Bool)
  | itemCompleted (user : ℕ) (thread item : String) (text : List Char) (now : ℤ) (ok : Bool)
  /-- A flush begins, by itself or before an end of replies. -/
  | flush (order : List Chunk) (ending : Option Ending)
  | write (now : ℤ) (ok : Bool)
  | flushed (now : ℤ) (ok : Bool)

namespace World

def step (w : World) : Action → Option World
  | .itemStarted user thread turn item text bot id now ok =>
    if w.router = .idle ∧ w.table[id]? = none then
      some ((w.reply user thread turn item text bot id now ok).getD w)
    else none
  | .delta user thread turn item text bot id now ok =>
    if w.router = .idle ∧ w.table[id]? = none then
      let key := (user, thread, item)
      let begun := if w.streams key then some w else w.reply user thread turn item [] bot id now ok
      -- a failure to begin the reply drops the delta with it
      some ((begun.map fun w => w.push key text).getD w)
    else none
  | .itemCompleted user thread item text now ok =>
    if w.router = .idle then
      let key := (user, thread, item)
      match w.replies.find? (·.1 = key) with
      | none => some w
      | some (_, r) =>
        let w := { w with replies := w.replies.filter (·.1 ≠ key) }
        some (if ok then w.finishRow now user r.message (some text) .complete else w)
    else none
  | .flush order ending =>
    if w.router = .idle ∧ order.Perm (takePending w.replies) then
      some (w.beginFlush order ending)
    else none
  | .write now ok =>
    match w.router with
    | .flushing (p :: rest) ending =>
      -- a failed write abandons the rest, and the end that was to follow
      if ok then some { w.writeChunk now p with router := .flushing rest ending }
      else some { w with router := .idle }
    | _ => none
  | .flushed now ok =>
    match w.router with
    | .flushing [] none => some { w with router := .idle }
    | .flushing [] (some e) =>
      let w := { w with router := .idle, replies := w.replies.filter fun kr => !ends e kr }
      some (if ok then
        (streamingMessages w.table e).foldl (fun w id => w.finishRow now e.user id none e.state) w
      else w)
    | _ => none

end World

/-- What the text of a message is to a reader of its events: a delta goes at its offset. -/
def foldText (id : ℕ) (held : Option (List Char)) : Event Origin → Option (List Char)
  | .messageCreated m | .messageCompleted m => if m.id = id then some m.text else held
  | .messageDelta _ message offset delta =>
    if message = id then
      held.bind fun text =>
        if offset ≤ text.length then some (text ++ delta.drop (text.length - offset)) else none
    else held
  | _ => held

def folded (log : List (ℕ × Event Origin)) (id : ℕ) : Option (List Char) :=
  log.foldl (fun held entry => foldText id held entry.2) none

end ReplyStream

end Bokkie
