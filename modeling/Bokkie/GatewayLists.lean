import Bokkie.ClientStore
import Bokkie.MessageHistory

/-!
# The lists the gateway shows

The Bots and the routines as the gateway stores them after each change of its history, and the lists
it reads from them. What a Bot's entry shows of its conversation is read from the messages.
-/

namespace Bokkie

variable {δ : Type}

/-- A row of the `bots` table with its user's read marker. -/
structure BotRow (δ : Type) where
  id : ℕ
  status : BotStatus
  readUpTo : Option ℕ
  details : δ
deriving DecidableEq

namespace Table

/-- The greatest id among some of the messages. -/
def newestId (t : Table δ) (p : Message δ → Bool) : Option ℕ := (t.filter fun _ m => p m).keys.max?

/-- A Bot's latest message. -/
def latest (t : Table δ) (bot : ℕ) : Option (Message δ) :=
  (t.newestId fun m => m.botId = bot).bind (t[·]?)

/-- `is_unread`: whether a Bot has written after the read marker. -/
def isUnread (t : Table δ) (bot : ℕ) (readUpTo : Option ℕ) : Bool :=
  (t.newestId fun m => m.botId = bot && m.author = .bot).any fun newest =>
    readUpTo.all fun read => newest > read

end Table

/-- A Bot as its owner sees it, with the activity of its conversation. -/
def BotRow.toApi (row : BotRow δ) (t : Table δ) : Bot δ where
  id := row.id
  status := row.status
  lastMessage := (t.latest row.id).map (·.preview)
  readUpTo := row.readUpTo
  unread := t.isUnread row.id row.readUpTo
  details := row.details

/-- What the change behind an event does to the Bots. -/
def applyBot (t : IdMap (BotRow δ)) : Event δ → IdMap (BotRow δ)
  | .botCreated bot | .botUpdated bot =>
    t.insert bot.id ⟨bot.id, bot.status, bot.readUpTo, bot.details⟩
  | .botStatusChanged bot status =>
    match t[bot]? with
    | some row => t.insert bot { row with status := status }
    | none => t
  | .readUpdated read =>
    match t[read.botId]? with
    | some row => t.insert read.botId { row with readUpTo := read.readUpTo }
    | none => t
  | _ => t

/-- What the change behind an event does to the routines. -/
def applyRoutine (t : IdMap (Routine δ)) : Event δ → IdMap (Routine δ)
  | .routineCreated routine | .routineUpdated routine => t.insert routine.id routine
  | .routineDeleted _ id => t.erase id
  | _ => t

/-- The changes the gateway makes: to a Bot's own routines only. -/
def AllowsRoutine (t : IdMap (Routine δ)) : Event δ → Prop
  | .routineCreated routine => t[routine.id]? = none
  | .routineUpdated routine => ∃ r, t[routine.id]? = some r ∧ r.botId = routine.botId
  | .routineDeleted bot id => ∃ r, t[id]? = some r ∧ r.botId = bot
  | _ => True

namespace History

variable (H : History δ)

def botRows (n : ℕ) : IdMap (BotRow δ) :=
  (H.changes.take n).foldl (fun t c => applyBot t c.envelope.event) ∅

/-- The Bots the gateway lists after the first `n` changes. -/
def bots (n : ℕ) : IdMap (Bot δ) := (H.botRows n).map fun _ row => row.toApi (H.table n)

def allRoutines (n : ℕ) : IdMap (Routine δ) :=
  (H.changes.take n).foldl (fun t c => applyRoutine t c.envelope.event) ∅

/-- The routines the gateway lists for a Bot after the first `n` changes. -/
def routines (bot n : ℕ) : IdMap (Routine δ) := (H.allRoutines n).filter fun _ r => r.botId = bot

/-- The list of the Bots, its `seq` read as `seq` and its rows as they stood after `reflects`
changes. -/
def botList (seq reflects : ℕ) : BotList δ := ⟨(H.bots reflects).records, seq⟩

def routineList (bot seq reflects : ℕ) : RoutineList δ :=
  ⟨(H.routines bot reflects).records, seq⟩

/-- Every change to the routines is one the gateway makes on those it finds. -/
def RoutinesValid : Prop :=
  ∀ n (h : n < H.changes.length), AllowsRoutine (H.allRoutines n) H.changes[n].envelope.event

/-- An event about a Bot tells what the gateway shows of it after the change; a message is created
under an id above all others, its text grows only while it streams, and its author stays. -/
def BotAllows (n : ℕ) : Event δ → Prop
  | .botCreated bot | .botUpdated bot => (H.bots (n + 1))[bot.id]? = some bot
  | .botStatusChanged bot _ => bot ∈ H.botRows n
  | .readUpdated read => ∃ bot, (H.bots (n + 1))[read.botId]? = some bot ∧ bot.unread = read.unread
  | .messageCreated m => ∀ i ∈ H.table n, i < m.id
  | .messageDelta _ id _ _ => ∃ m, (H.table n)[id]? = some m ∧ m.state = .streaming
  | .messageCompleted m => ∃ m', (H.table n)[m.id]? = some m' ∧ m'.author = m.author
  | _ => True

def BotsValid : Prop :=
  H.Valid ∧ ∀ n (h : n < H.changes.length), H.BotAllows n H.changes[n].envelope.event

end History

end Bokkie
