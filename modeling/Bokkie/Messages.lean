import Bokkie.EventFrames
import Bokkie.IdMap
import Mathlib.Data.List.Sort

/-!
# Messages and the gateway's table of them

The records that pages and events carry, the gateway's `messages` table as its events change it,
and the pages read from it. What a record carries for others only is of type `δ`.
-/

namespace Bokkie

inductive Author where
  | user
  | bot
deriving DecidableEq, Repr

inductive MessageState where
  | streaming
  | complete
  | interrupted
  | failed
deriving DecidableEq, Repr

/-- A message. `details` are its kind and what a marker carries. -/
structure Message (δ : Type) where
  id : ℕ
  botId : ℕ
  author : Author
  text : List Char
  state : MessageState
  createdAt : ℤ
  updatedAt : ℤ
  details : δ
deriving DecidableEq

structure MessagePreview where
  author : Author
  text : List Char
  atTime : ℤ
deriving DecidableEq

inductive BotStatus where
  | idle
  | working
  | refused
deriving DecidableEq, Repr

/-- A Bot. `details` are its profile, its place in the list and its grants. -/
structure Bot (δ : Type) where
  id : ℕ
  status : BotStatus
  lastMessage : Option MessagePreview
  readUpTo : Option ℕ
  unread : Bool
  details : δ
deriving DecidableEq

/-- A routine. `details` are its prompt, its schedule and how it last went. -/
structure Routine (δ : Type) where
  id : ℕ
  botId : ℕ
  updatedAt : ℤ
  details : δ
deriving DecidableEq

structure ReadState where
  botId : ℕ
  readUpTo : Option ℕ
  unread : Bool
deriving DecidableEq

inductive Event (δ : Type) where
  | botCreated (bot : Bot δ)
  | botUpdated (bot : Bot δ)
  | botStatusChanged (botId : ℕ) (status : BotStatus)
  | messageCreated (message : Message δ)
  | messageDelta (botId messageId offset : ℕ) (delta : List Char)
  | messageCompleted (message : Message δ)
  | usageUpdated (usage : δ)
  | botError (botId : ℕ) (message : String)
  | accountUpdated (user : δ)
  | routineCreated (routine : Routine δ)
  | routineUpdated (routine : Routine δ)
  | routineDeleted (botId routineId : ℕ)
  | routineRunUpdated (run : δ)
  | readUpdated (read : ReadState)
deriving DecidableEq

structure MessagePage (δ : Type) where
  messages : List (Message δ)
  older : Option ℕ
  seq : ℕ
deriving DecidableEq

structure BotList (δ : Type) where
  bots : List (Bot δ)
  seq : ℕ
deriving DecidableEq

structure RoutineList (δ : Type) where
  routines : List (Routine δ)
  seq : ℕ
deriving DecidableEq

variable {δ : Type}

/-- `Message::is_unread`. -/
def Message.isUnread (m : Message δ) (readUpTo : Option ℕ) : Bool :=
  m.author = .bot && readUpTo.all fun read => m.id > read

/-- The Bot whose conversation an event changes. -/
def Event.messageBot : Event δ → Option ℕ
  | .messageCreated message | .messageCompleted message => some message.botId
  | .messageDelta botId _ _ _ => some botId
  | _ => none

/-- One change of the gateway's: its event, and the time it writes beside it. -/
structure Change (δ : Type) where
  envelope : EventEnvelope (Event δ)
  now : ℤ

/-- The `messages` table. -/
abbrev Table (δ : Type) := IdMap (Message δ)

namespace Table

/-- `append_text`. -/
def appendText (t : Table δ) (now : ℤ) (id : ℕ) (text : List Char) : Table δ :=
  match t[id]? with
  | some m =>
    if m.state = .streaming then
      t.insert id { m with text := m.text ++ text, updatedAt := now }
    else t
  | none => t

/-- What the change behind an event does to the table. -/
def apply (t : Table δ) (c : Change δ) : Table δ :=
  match c.envelope.event with
  | .messageCreated m => t.insert m.id m
  | .messageDelta _ id _ delta => t.appendText c.now id delta
  | .messageCompleted m => t.insert m.id m
  | _ => t

/-- The changes the gateway makes: it inserts under fresh ids, appends at the end of a text that
still streams, and completes only a message that still streams. -/
def Allows (t : Table δ) (c : Change δ) : Prop :=
  match c.envelope.event with
  | .messageCreated m => t[m.id]? = none
  | .messageDelta bot id offset _ => ∃ m, t[id]? = some m ∧ m.botId = bot ∧
      (m.state = .streaming → offset = m.text.length)
  | .messageCompleted m => ∃ m', t[m.id]? = some m' ∧ m'.botId = m.botId ∧
      m'.state = .streaming ∧ m.state ≠ .streaming
  | _ => True

/-- `store::messages`: a page of a Bot's conversation, oldest first, ending before `before`. -/
def messages (t : Table δ) (bot : ℕ) (before : Option ℕ) (limit : ℕ) :
    List (Message δ) × Option ℕ :=
  let limit := min (max limit 1) 200
  let rows := (((IdMap.records t).filter fun m : Message δ =>
    m.botId = bot && before.all (m.id < ·)).insertionSort fun a b => b.id ≤ a.id).take (limit + 1)
  if rows.length > limit then
    let kept := rows.take limit
    (kept.reverse, kept.getLast?.map (·.id))
  else (rows.reverse, none)

end Table

/-- A history of changes, their events numbered from one. -/
structure History (δ : Type) where
  changes : List (Change δ)
  numbered : Numbered 0 (changes.map (·.envelope))

namespace History

/-- The table after the first `n` changes. -/
def table (H : History δ) (n : ℕ) : Table δ := (H.changes.take n).foldl Table.apply ∅

def events (H : History δ) : List (EventEnvelope (Event δ)) := H.changes.map (·.envelope)

def length (H : History δ) : ℕ := H.changes.length

/-- Every change is one the gateway makes on the table it finds. -/
def Valid (H : History δ) : Prop :=
  ∀ n (h : n < H.changes.length), (H.table n).Allows H.changes[n]

end History

end Bokkie
