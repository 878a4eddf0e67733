import Mathlib.Data.Finset.Basic
import Bokkie.Messages

/-!
# The client's store

The client's copy of the Bots and conversations: HTTP snapshots merged with the event log. Events
that arrive while a snapshot loads are held and replayed onto it.
-/

namespace Bokkie

/-- How many characters of a conversation's latest message the Bot list shows. -/
def previewChars : ℕ := 140

/-- At most this many events are held while snapshots load. -/
def maxHeld : ℕ := 5000

inductive Snapshot where
  | bots
  | messages (bot : ℕ)
  | older (bot : ℕ)
  | routines (bot : ℕ)
deriving DecidableEq, Repr

structure Routines (δ : Type) where
  seq : ℕ
  routines : IdMap (Routine δ)

/-- What applying a snapshot or an event did. -/
structure Applied where
  changed : Bool
  reload : Finset Snapshot
deriving DecidableEq

namespace Applied

def default : Applied := ⟨false, ∅⟩

def ofChanged (changed : Bool) : Applied := ⟨changed, ∅⟩

def ofReload (snapshot : Snapshot) : Applied := ⟨false, {snapshot}⟩

def merge (a b : Applied) : Applied := ⟨a.changed || b.changed, a.reload ∪ b.reload⟩

end Applied

variable {δ : Type}

structure Conversation (δ : Type) where
  seq : ℕ
  messages : IdMap (Message δ)
  older : Option ℕ
  /-- The cursor of the older page requested for this copy, until it loads. -/
  requestedOlder : Option ℕ

structure Store (δ : Type) where
  bots : IdMap (Bot δ)
  botsSeq : Option ℕ
  newest : IdMap ℕ
  conversations : IdMap (Conversation δ)
  routines : IdMap (Routines δ)
  errors : IdMap String
  usage : Option δ
  usageEventSeen : Bool
  /-- Snapshots requested and not yet loaded. -/
  loading : Finset Snapshot
  /-- Events received while anything was loading. -/
  held : List (EventEnvelope (Event δ))
  /-- Snapshots that were loading when held events had to be dropped. -/
  stale : Finset Snapshot

/-- `append_delta`: `none` when the delta starts beyond the text held. -/
def Message.appendDelta (m : Message δ) (offset : ℕ) (delta : List Char) :
    Option (Message δ × Bool) :=
  if m.state ≠ .streaming then some (m, false)
  else if offset > m.text.length then none
  else
    let known := m.text.length - offset
    let new := delta.drop known
    some ({ m with text := m.text ++ new }, !new.isEmpty)

def Message.preview (m : Message δ) : MessagePreview :=
  ⟨m.author, m.text.take previewChars, m.updatedAt⟩

/-- The part of `apply_to_conversation` past the checks: one event on one conversation. It does
not ask which Bot the event is about. -/
def Conversation.apply [DecidableEq δ] (c : Conversation δ) (bot : ℕ) (event : Event δ) :
    Conversation δ × Applied :=
  match event with
  | .messageCreated message =>
    let ahead := (c.messages[message.id]?).any fun held =>
      held.state ≠ .streaming || message.text.isPrefixOf held.text
    if ahead then (c, .default)
    else ({ c with messages := c.messages.insert message.id message }, .ofChanged true)
  | .messageDelta _ messageId offset delta =>
    match c.messages[messageId]? with
    | none => (c, .ofReload (.messages bot))
    | some message => match message.appendDelta offset delta with
      | some (message', changed) =>
        ({ c with messages := c.messages.insert messageId message' }, .ofChanged changed)
      | none => (c, .ofReload (.messages bot))
  | .messageCompleted message =>
    ({ c with messages := c.messages.insert message.id message },
      .ofChanged (c.messages[message.id]? ≠ some message))
  | _ => (c, .default)

namespace Store

def new : Store δ where
  bots := ∅
  botsSeq := none
  newest := ∅
  conversations := ∅
  routines := ∅
  errors := ∅
  usage := none
  usageEventSeen := false
  loading := ∅
  held := []
  stale := ∅

def request (s : Store δ) (snapshot : Snapshot) : Store δ × Bool :=
  ({ s with loading := insert snapshot s.loading }, snapshot ∉ s.loading)

def settle (s : Store δ) : Store δ := if s.loading = ∅ then { s with held := [] } else s

/-- Report only reloads that are not already under way, and count them as loading. -/
def finish (s : Store δ) (applied : Applied) : Store δ × Applied :=
  ({ s with loading := s.loading ∪ applied.reload },
    { applied with reload := applied.reload \ s.loading })

def reloadIfStale (s : Store δ) (snapshot : Snapshot) : Store δ × Applied :=
  if snapshot ∈ s.stale then
    ({ s with stale := s.stale.erase snapshot }, .ofReload snapshot)
  else (s, .default)

def reloadAll (s : Store δ) : Store δ × Finset Snapshot :=
  let all := insert .bots ((s.conversations.keys.map .messages).toFinset ∪
    (s.routines.keys.map .routines).toFinset)
  ({ s with loading := s.loading ∪ all }, all)

/-- A snapshot stops counting as loading, and as stale. -/
def forget (s : Store δ) (snapshot : Snapshot) : Store δ :=
  { s with loading := s.loading.erase snapshot, stale := s.stale.erase snapshot }

def clearRequestedOlder (s : Store δ) (bot : ℕ) : Store δ :=
  match s.conversations[bot]? with
  | some c => { s with conversations := s.conversations.insert bot { c with requestedOlder := none } }
  | none => s

def loadFailed (s : Store δ) (snapshot : Snapshot) : Store δ :=
  let s := s.forget snapshot
  let s := match snapshot with
    | .older bot => s.clearRequestedOlder bot
    | _ => s
  s.settle

def requestOlder (s : Store δ) (bot : ℕ) : Store δ × Option ℕ :=
  match s.conversations[bot]? with
  | some c =>
    let s := { s with
      conversations := s.conversations.insert bot { c with requestedOlder := c.older } }
    match c.older with
    | some cursor => ({ s with loading := insert (.older bot) s.loading }, some cursor)
    | none => (s.loadFailed (.older bot), none)
  | none => (s.loadFailed (.older bot), none)

def closeConversation (s : Store δ) (bot : ℕ) : Store δ :=
  let s := { s with conversations := s.conversations.erase bot }
  let s := s.forget (.messages bot)
  let s := s.forget (.older bot)
  s.settle

def closeRoutines (s : Store δ) (bot : ℕ) : Store δ :=
  let s := { s with routines := s.routines.erase bot }
  (s.forget (.routines bot)).settle

def noteNewest (s : Store δ) (bot message : ℕ) : Store δ :=
  { s with newest := s.newest.insert bot (max (s.newest[bot]?.getD message) message) }

variable [DecidableEq δ]

/-- The part of an event that concerns one open conversation. -/
def applyToConversation (s : Store δ) (bot : ℕ) (envelope : EventEnvelope (Event δ)) :
    Store δ × Applied :=
  match s.conversations[bot]? with
  | none => (s, .default)
  | some c =>
    if envelope.seq ≤ c.seq then (s, .default)
    else
      let o := c.apply bot envelope.event
      ({ s with conversations := s.conversations.insert bot o.1 }, o.2)

/-- The part of an event that concerns a Bot's loaded routines. -/
def applyToRoutines (s : Store δ) (envelope : EventEnvelope (Event δ)) : Store δ × Applied :=
  let edit (bot : ℕ) (f : IdMap (Routine δ) → IdMap (Routine δ) × Bool) : Store δ × Applied :=
    match s.routines[bot]? with
    | none => (s, .default)
    | some r =>
      if envelope.seq ≤ r.seq then (s, .default)
      else
        let o := f r.routines
        ({ s with routines := s.routines.insert bot { r with routines := o.1 } }, .ofChanged o.2)
  match envelope.event with
  | .routineCreated routine | .routineUpdated routine =>
    edit routine.botId fun m => (m.insert routine.id routine, m[routine.id]? ≠ some routine)
  | .routineDeleted bot routineId =>
    edit bot fun m => (m.erase routineId, m[routineId]?.isSome)
  | _ => (s, .default)

/-- A preview of a message from the open conversation's copy. -/
def heldPreview (s : Store δ) (bot message : ℕ) : Option MessagePreview := do
  let c ← s.conversations[bot]?
  let m ← c.messages[message]?
  return m.preview

def setPreview (s : Store δ) (bot : ℕ) (preview : MessagePreview) : Store δ × Applied :=
  match s.bots[bot]? with
  | some entry =>
    ({ s with bots := s.bots.insert bot { entry with lastMessage := some preview } },
      .ofChanged (entry.lastMessage ≠ some preview))
  | none => (s, .ofReload .bots)

def noteUnread (s : Store δ) (message : Message δ) : Store δ × Applied :=
  match s.bots[message.botId]? with
  | some bot =>
    if !bot.unread && message.isUnread bot.readUpTo then
      ({ s with bots := s.bots.insert message.botId { bot with unread := true } }, .ofChanged true)
    else (s, .default)
  | none => (s, .default)

def previewCreated (s : Store δ) (message : Message δ) : Store δ × Applied :=
  let newest := s.newest[message.botId]?
  let s := s.noteNewest message.botId message.id
  if newest.any (· > message.id) then (s, .default)
  else if newest = some message.id then
    match s.heldPreview message.botId message.id with
    | some preview => s.setPreview message.botId preview
    | none => (s, .default)
  else
    s.setPreview message.botId ((s.heldPreview message.botId message.id).getD message.preview)

/-- The part of an event that concerns the Bot list, once it has loaded. -/
def applyToLoadedBots (s : Store δ) (event : Event δ) : Store δ × Applied :=
  match event with
  | .botCreated bot | .botUpdated bot =>
    ({ s with bots := s.bots.insert bot.id bot }, .ofChanged (s.bots[bot.id]? ≠ some bot))
  | .botStatusChanged botId status => match s.bots[botId]? with
    | some bot =>
      ({ s with bots := s.bots.insert botId { bot with status := status } },
        .ofChanged (bot.status ≠ status))
    | none => (s, .ofReload .bots)
  | .messageCreated message =>
    let unread := s.noteUnread message
    let preview := unread.1.previewCreated message
    (preview.1, unread.2.merge preview.2)
  | .messageDelta botId messageId _ _ =>
    if s.newest[botId]? ≠ some messageId then (s, .default)
    else match s.heldPreview botId messageId with
      | some preview => s.setPreview botId preview
      | none => (s, .default)
  | .messageCompleted message => match s.newest[message.botId]? with
    | some newest =>
      if newest > message.id then (s, .default)
      else (s.noteNewest message.botId message.id).setPreview message.botId message.preview
    | none => if message.botId ∈ s.bots then (s, .ofReload .bots) else (s, .default)
  | .botError botId message =>
    ({ s with errors := s.errors.insert botId message },
      .ofChanged (s.errors[botId]? ≠ some message))
  | .readUpdated read => match s.bots[read.botId]? with
    | some bot =>
      let bot' := { bot with readUpTo := read.readUpTo, unread := read.unread }
      ({ s with bots := s.bots.insert read.botId bot' },
        .ofChanged (bot.readUpTo ≠ read.readUpTo || bot.unread ≠ read.unread))
    | none => (s, .ofReload .bots)
  | .usageUpdated _ | .accountUpdated _ | .routineCreated _ | .routineUpdated _
  | .routineDeleted _ _ | .routineRunUpdated _ => (s, .default)

def applyToBots (s : Store δ) (envelope : EventEnvelope (Event δ)) : Store δ × Applied :=
  match s.botsSeq with
  | none => (s, .default)
  | some seq =>
    if envelope.seq ≤ seq then (s, .default) else s.applyToLoadedBots envelope.event

/-- Replay the held events after `seq`, merging what they did. -/
def replay (f : Store δ → EventEnvelope (Event δ) → Store δ × Applied) (seq : ℕ)
    (held : List (EventEnvelope (Event δ))) (o : Store δ × Applied) : Store δ × Applied :=
  held.foldl (fun o envelope =>
    if envelope.seq > seq then
      let o' := f o.1 envelope
      (o'.1, o.2.merge o'.2)
    else o) o

/-- What a load does once its snapshot is in place: replay, reload if stale, settle. -/
def loaded (s : Store δ) (f : Store δ → EventEnvelope (Event δ) → Store δ × Applied) (seq : ℕ)
    (snapshot : Snapshot) : Store δ × Applied :=
  let s := { s with loading := s.loading.erase snapshot }
  let replayed := replay f seq s.held (s, .ofChanged true)
  let reloaded := replayed.1.reloadIfStale snapshot
  reloaded.1.settle.finish (replayed.2.merge reloaded.2)

def loadRoutines (s : Store δ) (bot : ℕ) (list : RoutineList δ) : Store δ × Applied :=
  let routines := IdMap.collect (·.id) (list.routines.filter fun r => r.botId = bot)
  loaded { s with routines := s.routines.insert bot ⟨list.seq, routines⟩ } applyToRoutines list.seq
    (.routines bot)

/-- A routine as a reply to the user's own change reported it. -/
def routineChanged (s : Store δ) (routine : Routine δ) : Store δ × Bool :=
  match s.routines[routine.botId]? with
  | none => (s, false)
  | some r =>
    let newer := (r.routines[routine.id]?).any fun held =>
      held.updatedAt > routine.updatedAt || held = routine
    if newer then (s, false)
    else
      let r := { r with routines := r.routines.insert routine.id routine }
      ({ s with routines := s.routines.insert routine.botId r }, true)

/-- A routine the user deleted. -/
def routineDeleted (s : Store δ) (bot routine : ℕ) : Store δ × Bool :=
  match s.routines[bot]? with
  | none => (s, false)
  | some r =>
    ({ s with routines := s.routines.insert bot { r with routines := r.routines.erase routine } },
      r.routines[routine]?.isSome)

def loadBots (s : Store δ) (list : BotList δ) : Store δ × Applied :=
  let bots := IdMap.collect (·.id) list.bots
  loaded { s with
    bots := bots
    botsSeq := some list.seq
    newest := s.newest.filter fun bot _ => bot ∈ bots
    errors := s.errors.filter fun bot _ => bot ∈ bots } applyToBots list.seq .bots

def loadMessages (s : Store δ) (bot : ℕ) (page : MessagePage δ) : Store δ × Applied :=
  let s := match (page.messages.map (·.id)).max? with
    | some newest => s.noteNewest bot newest
    | none => s
  let c : Conversation δ := ⟨page.seq, IdMap.collect (·.id) page.messages, page.older, none⟩
  -- Every held event is replayed onto this conversation, whichever Bot it is about.
  loaded { s with conversations := s.conversations.insert bot c }
    (fun s envelope => s.applyToConversation bot envelope) page.seq (.messages bot)

/-- One held event replayed onto the messages of an older page. -/
def replayEarlier (earlier : IdMap (Message δ)) (event : Event δ) : IdMap (Message δ) × Bool :=
  match event with
  | .messageDelta _ messageId offset delta => match earlier[messageId]? with
    | some message => match message.appendDelta offset delta with
      | some (message', _) => (earlier.insert messageId message', true)
      | none => (earlier, false)
    | none => (earlier, true)
  | .messageCompleted message =>
    if message.id ∈ earlier then (earlier.insert message.id message, true) else (earlier, true)
  | _ => (earlier, true)

def replayAllEarlier (earlier : IdMap (Message δ)) (complete : Bool)
    (events : List (EventEnvelope (Event δ))) : IdMap (Message δ) × Bool :=
  events.foldl (fun o envelope =>
    let o' := replayEarlier o.1 envelope.event
    (o'.1, o.2 && o'.2)) (earlier, complete)

/-- The messages of an older page that the conversation does not hold. -/
def earlierOf (c : Conversation δ) (bot before : ℕ) (page : MessagePage δ) : IdMap (Message δ) :=
  IdMap.collect (·.id) (page.messages.filter fun m =>
    m.botId = bot && decide (m.id < before) && decide (m.id ∉ c.messages))

def loadOlder (s : Store δ) (bot before : ℕ) (page : MessagePage δ) : Store δ × Applied :=
  let snapshot := Snapshot.older bot
  let stale := decide (snapshot ∈ s.stale)
  let s := s.forget snapshot
  let o : Store δ × Applied := match s.conversations[bot]? with
    | some c =>
      if c.requestedOlder = some before ∧ c.older = some before then
        let replayed := replayAllEarlier (earlierOf c bot before page) (!stale)
          (s.held.filter fun envelope => envelope.seq > page.seq)
        if replayed.2 then
          ({ s with conversations := s.conversations.insert bot { c with
              requestedOlder := none
              messages := c.messages ∪ replayed.1
              older := page.older } },
            .ofChanged (!replayed.1.isEmpty || c.older ≠ page.older))
        else
          ({ s with conversations := s.conversations.insert bot { c with requestedOlder := none } },
            .ofReload snapshot)
      else (s, .default)
    | none => (s, .default)
  o.1.settle.finish o.2

/-- Hold an event if anything is loading. -/
def hold (s : Store δ) (envelope : EventEnvelope (Event δ)) : Store δ :=
  if s.loading = ∅ then s
  else if s.held.length ≥ maxHeld then
    { s with held := [envelope], stale := s.stale ∪ s.loading }
  else { s with held := s.held ++ [envelope] }

/-- The part of an event that concerns the usage meter. -/
def applyToUsage (s : Store δ) (event : Event δ) : Store δ × Applied :=
  match event with
  | .usageUpdated usage =>
    ({ s with usage := some usage, usageEventSeen := true }, .ofChanged (s.usage ≠ some usage))
  | _ => (s, .default)

/-- Apply one event from the log. -/
def apply (s : Store δ) (envelope : EventEnvelope (Event δ)) : Store δ × Applied :=
  let s := s.hold envelope
  let conversation := match envelope.event.messageBot with
    | some bot => s.applyToConversation bot envelope
    | none => (s, .default)
  let bots := conversation.1.applyToBots envelope
  let routines := bots.1.applyToRoutines envelope
  let usage := routines.1.applyToUsage envelope.event
  usage.1.finish (((conversation.2.merge bots.2).merge routines.2).merge usage.2)

end Store

end Bokkie
