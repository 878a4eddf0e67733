import Bokkie.GatewayLists
import Bokkie.StoreLoads

/-!
# The store among its lists and replies

The client's store under any schedule, where the lists of Bots and routines too are read from the
gateway's tables, and the replies to the user's own changes reach it at any time.
-/

namespace Bokkie

variable {δ : Type}

/-- What the schedule remembers of the routines kept for a Bot. -/
structure RoutineCopy where
  /-- How many changes the list loaded reflects. -/
  reflects : ℕ
  /-- The changes whose replies have reached it. -/
  replies : List ℕ
  /-- A load of it failed since. -/
  failed : Bool
deriving DecidableEq

namespace RoutineCopy

def none : RoutineCopy := ⟨0, [], false⟩

/-- How many changes it may show something of. -/
def reach (copy : RoutineCopy) : ℕ :=
  copy.replies.foldr (fun n reach => max (n + 1) reach) copy.reflects

end RoutineCopy

/-- What the schedule remembers of the Bot list. -/
structure BotsCopy where
  reflects : ℕ
  /-- How many changes the pages loaded reflect, at most. -/
  pages : ℕ
  /-- A load of it failed since. -/
  failed : Bool
deriving DecidableEq

structure Client (δ : Type) where
  app : App δ
  bots : BotsCopy
  routines : ℕ → RoutineCopy
  /-- A reply changed routines that a later change of its routine had reached. -/
  overtaken : Bool

namespace Client

/-- A client whose first event follows the first `start` changes. -/
def new (start : ℕ) : Client δ := ⟨App.new start, ⟨0, 0, false⟩, fun _ => RoutineCopy.none, false⟩

inductive Action (δ : Type) where
  /-- Anything but the answers to a request for a list. -/
  | app (action : App.Action δ)
  /-- A list, its `seq` read as `seq` and its rows as they stood after `reflects` changes. -/
  | bots (seq reflects : ℕ)
  | routines (bot seq reflects : ℕ)
  /-- The reply to the user's own change that was made after the first `n`. -/
  | replied (n : ℕ)

/-- The routine that an event is about, with its Bot. -/
def routineOf : Event δ → Option (ℕ × ℕ)
  | .routineCreated routine | .routineUpdated routine => some (routine.botId, routine.id)
  | .routineDeleted bot id => some (bot, id)
  | _ => none

def eventAt (H : History δ) (n : ℕ) : Option (Event δ) := (H.events[n]?).map (·.event)

/-- A later change of the routine has reached the store: by its event, by the list, or by its own
reply. -/
def overtakes (H : History δ) (client : Client δ) (bot routine n : ℕ) : Bool :=
  (List.range (max client.app.position (client.routines bot).reach)).any fun m =>
    n < m ∧ (eventAt H m).bind routineOf = some (bot, routine) ∧
      (m < max client.app.position (client.routines bot).reflects ∨
        m ∈ (client.routines bot).replies)

def setRoutines (client : Client δ) (bot : ℕ) (f : RoutineCopy → RoutineCopy) : Client δ :=
  { client with routines := Function.update client.routines bot (f (client.routines bot)) }

variable [DecidableEq δ]

/-- What a reply does to the store, with whether it changed it. -/
def reply (s : Store δ) : Event δ → Store δ × Bool
  | .routineCreated routine | .routineUpdated routine => s.routineChanged routine
  | .routineDeleted bot id => s.routineDeleted bot id
  | _ => (s, false)

def step (H : History δ) (client : Client δ) : Action δ → Option (Client δ)
  | .app (.bots _) | .app (.routines _ _) => none
  | .app (.messages bot seq reflects limit) =>
    (client.app.step H (.messages bot seq reflects limit)).map fun app =>
      { client with
        app := app, bots := { client.bots with pages := max client.bots.pages reflects } }
  | .app (.failed .bots) =>
    (client.app.step H (.failed .bots)).map fun app =>
      { client with app := app, bots := { client.bots with failed := true } }
  | .app (.failed (.routines bot)) =>
    (client.app.step H (.failed (.routines bot))).map fun app =>
      ({ client with app := app } : Client δ).setRoutines bot fun copy => { copy with failed := true }
  | .app action => (client.app.step H action).map fun app => { client with app := app }
  | .bots seq reflects =>
    match client.app.asks .bots with
    | some ask =>
      if App.answers H seq reflects ask then
        (client.app.step H (.bots (H.botList seq reflects))).map fun app =>
          { client with
            app := app, bots := { client.bots with reflects := reflects, failed := false } }
      else none
    | none => none
  | .routines bot seq reflects =>
    match client.app.asks (.routines bot) with
    | some ask =>
      if App.answers H seq reflects ask then
        (client.app.step H (.routines bot (H.routineList bot seq reflects))).map fun app =>
          ({ client with app := app } : Client δ).setRoutines bot fun _ => ⟨reflects, [], false⟩
      else none
    | none => none
  | .replied n =>
    match eventAt H n with
    | some event =>
      match routineOf event with
      | some (bot, routine) =>
        let (store, changed) := reply client.app.store event
        some (({ client with
          app := { client.app with store := store }
          overtaken := client.overtaken || (changed && overtakes H client bot routine n) } :
            Client δ).setRoutines bot fun copy => { copy with replies := n :: copy.replies })
      | none => none
    | none => none

end Client

end Bokkie
