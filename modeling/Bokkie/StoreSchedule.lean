import Bokkie.ClientStore
import Bokkie.Runs

/-!
# The store among its requests, pages and events

The client's store under any schedule: snapshots are asked for, answered or fail, conversations
close, and the events of a history arrive in order. A page is read from the gateway's table after
a prefix of the history; its `seq` was read before.
-/

namespace Bokkie

variable {δ : Type}

/-- An outstanding request: what the client had when it made it, and an older page's cursor. -/
structure Ask where
  had : ℕ
  before : Option ℕ
deriving DecidableEq

/-- What the schedule remembers of a conversation's copy. -/
structure Copy where
  /-- How many changes the pages loaded into the copy reflect. -/
  reflects : ℕ
  /-- Its newest page was marked stale: held events after it had been dropped. -/
  lossy : Bool
  /-- The reload of a lossy copy failed. -/
  abandoned : Bool
deriving DecidableEq

def Copy.none : Copy := ⟨0, false, false⟩

structure App (δ : Type) where
  store : Store δ
  /-- How many changes' events have been delivered, or came before the first. -/
  position : ℕ
  asks : Snapshot → Option Ask
  copies : ℕ → Copy

namespace App

/-- A client whose first event follows the first `start` changes. -/
def new (start : ℕ) : App δ := ⟨Store.new, start, fun _ => none, fun _ => Copy.none⟩

/-- The newest event the client has of a Bot: delivered, or covered by a page it loaded. -/
def had (app : App δ) (bot : ℕ) : ℕ :=
  max app.position ((app.store.conversations[bot]?).elim 0 (·.seq))

/-- What the client has when it asks for a snapshot. -/
def hadFor (app : App δ) : Snapshot → ℕ
  | .messages bot | .older bot => app.had bot
  | .bots | .routines _ => app.position

def setAsk (app : App δ) (snapshot : Snapshot) (ask : Option Ask) : App δ :=
  { app with asks := Function.update app.asks snapshot ask }

def setCopy (app : App δ) (bot : ℕ) (f : Copy → Copy) : App δ :=
  { app with copies := Function.update app.copies bot (f (app.copies bot)) }

inductive Action (δ : Type) where
  | request (snapshot : Snapshot)
  | requestOlder (bot : ℕ)
  | reloadAll
  /-- The newest page of a conversation, its `seq` read as `seq` and its messages as the table
  stood after `reflects` changes. -/
  | messages (bot seq reflects limit : ℕ)
  | older (bot seq reflects limit : ℕ)
  | bots (list : BotList δ)
  | routines (bot : ℕ) (list : RoutineList δ)
  | failed (snapshot : Snapshot)
  | closeConversation (bot : ℕ)
  | closeRoutines (bot : ℕ)
  | deliver

/-- Whether a page read so may answer an outstanding request. -/
def answers (H : History δ) (seq reflects : ℕ) (ask : Ask) : Bool :=
  ask.had ≤ seq && seq ≤ reflects && reflects ≤ H.length

def page (H : History δ) (bot : ℕ) (before : Option ℕ) (seq reflects limit : ℕ) : MessagePage δ :=
  let rows := (H.table reflects).messages bot before limit
  ⟨rows.1, rows.2, seq⟩

variable [DecidableEq δ]

def step (H : History δ) (app : App δ) : Action δ → Option (App δ)
  | .request snapshot =>
    some ({ app with store := (app.store.request snapshot).1 }.setAsk snapshot
      (some ⟨app.hadFor snapshot, none⟩))
  | .requestOlder bot =>
    let o := app.store.requestOlder bot
    some ({ app with store := o.1 }.setAsk (.older bot)
      (o.2.map fun cursor => ⟨app.had bot, some cursor⟩))
  | .reloadAll =>
    let o := app.store.reloadAll
    some { app with
      store := o.1
      asks := fun snapshot =>
        if snapshot ∈ o.2 then some ⟨app.hadFor snapshot, none⟩ else app.asks snapshot }
  | .messages bot seq reflects limit =>
    match app.asks (.messages bot) with
    | some ask =>
      if answers H seq reflects ask then
        let stale := decide (Snapshot.messages bot ∈ app.store.stale)
        some (({ app with
          store := (app.store.loadMessages bot (page H bot none seq reflects limit)).1 }.setAsk
            (.messages bot) none).setCopy bot fun _ => ⟨reflects, stale, false⟩)
      else none
    | none => none
  | .older bot seq reflects limit =>
    match app.asks (.older bot) with
    | some ⟨had, some before⟩ =>
      if answers H seq reflects ⟨had, some before⟩ then
        some (({ app with
          store := (app.store.loadOlder bot before
            (page H bot (some before) seq reflects limit)).1 }.setAsk (.older bot) none).setCopy
            bot fun copy => { copy with reflects := max copy.reflects reflects })
      else none
    | _ => none
  | .bots list => some ({ app with store := (app.store.loadBots list).1 }.setAsk .bots none)
  | .routines bot list =>
    some ({ app with store := (app.store.loadRoutines bot list).1 }.setAsk (.routines bot) none)
  | .failed snapshot =>
    let failed := { app with store := app.store.loadFailed snapshot }.setAsk snapshot none
    match snapshot with
    | .messages bot =>
      some (failed.setCopy bot fun copy => { copy with abandoned := copy.abandoned || copy.lossy })
    | _ => some failed
  | .closeConversation bot =>
    some ((({ app with store := app.store.closeConversation bot }.setAsk (.messages bot)
      none).setAsk (.older bot) none).setCopy bot fun _ => Copy.none)
  | .closeRoutines bot =>
    some ({ app with store := app.store.closeRoutines bot }.setAsk (.routines bot) none)
  | .deliver =>
    match H.events[app.position]? with
    | some envelope =>
      some { app with store := (app.store.apply envelope).1, position := app.position + 1 }
    | none => none

end App

end Bokkie
