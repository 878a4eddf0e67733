import Bokkie.ConversationTurns
import Bokkie.QuietCalls

/-!
# What a task that starts turns holds

The discipline that the tasks of `Conversations` obey about counted turns: a request for a turn is
sent only for the count that the task made before it, and that is taken back only before the request
or after an answer that says it had no effect. Every task ends holding no count.
-/

namespace Bokkie.Conversations

open Tasks Work

/-- The count that a task holds, and the request it sent for it. -/
inductive Hold where
  | free
  | reserved (user turn : ℕ)
  | sent (user turn request : ℕ)
  | rejected (user turn request : ℕ)
deriving DecidableEq

namespace Hold

/-- The hold once a request was sent. -/
def send (hold : Hold) (request : ℕ) : Hold :=
  match hold with
  | .reserved user turn => .sent user turn request
  | hold => hold

/-- The hold once a request was answered with a failure that had no effect. -/
def reject (hold : Hold) : Hold :=
  match hold with
  | .sent user turn request => .rejected user turn request
  | hold => hold

/-- The count may be taken back: it has no turn. -/
def MayRelease (hold : Hold) (user turn : ℕ) : Prop :=
  hold = .reserved user turn ∨ ∃ request, hold = .rejected user turn request

end Hold

/-- What a task holds, and the steer whose answer it waits for. -/
structure TurnPhase where
  hold : Hold
  steered : Option ℕ

namespace TurnPhase

def idle : TurnPhase := ⟨.free, none⟩

def Allows (φ : TurnPhase) : {β : Type} → Call β → Prop
  | _, .gateway (.reserveTurn _ _) => φ.hold = .free
  | _, .gateway (.releaseTurn user turn) => φ.hold.MayRelease user turn
  | _, .codex (.turnStart _ _) => ∃ user turn, φ.hold = .reserved user turn
  | _, .codex (.turnStarted request) => ∃ user turn, φ.hold = .sent user turn request
  | _, .codex (.turnSteered request) => φ.steered = some request
  | _, _ => True

def after (φ : TurnPhase) : {β : Type} → Call β → β → TurnPhase
  | _, .gateway (.reserveTurn user _), .ok (some turn) => { φ with hold := .reserved user turn }
  | _, .gateway (.releaseTurn _ _), _ => { φ with hold := .free }
  | _, .codex (.turnStart _ _), request => { φ with hold := φ.hold.send request }
  | _, .codex (.turnStarted _), .ok _ => { φ with hold := .free }
  | _, .codex (.turnStarted _), .error e =>
    { φ with hold := if e.hadNoEffect then φ.hold.reject else .free }
  | _, .codex (.turnSteer _ _), request => { φ with steered := some request }
  | _, .codex (.turnSteered _), _ => { φ with steered := none }
  | _, _, _ => φ

end TurnPhase

def discipline : Discipline Call TurnPhase where
  allows := fun φ {_} op => φ.Allows op
  after := fun φ {_} op r => φ.after op r

/-- The call is about no turn request and no count. -/
def Call.isPlain : {β : Type} → Call β → Bool
  | _, .codex op => op.isQuiet
  | _, .gateway (.reserveTurn _ _) | _, .gateway (.releaseTurn _ _) => false
  | _, .gateway _ => true

/-- Work that neither counts a turn nor asks for one. -/
def Plain {α : Type} (work : Work α) : Prop := work.run.Only fun op => op.isPlain = true

section Plain

variable {α β : Type}

theorem plain_pure (a : α) : Plain (pure a : Work α) := trivial

theorem plain_throw (e : Failure) : Plain (throw e : Work α) := trivial

theorem plain_call {op : GatewayCall α} (h : (Call.gateway op).isPlain = true) :
    Plain (call op) :=
  Prog.Only.runLift (Prog.only_perform h)

theorem plain_fallible {op : GatewayCall (Except Failure α)}
    (h : (Call.gateway op).isPlain = true) : Plain (fallible op) :=
  Prog.only_perform h

theorem plain_codex {work : Codex α} (h : Quiet work) : Plain (codex work) :=
  Prog.Only.runLift (Prog.Only.lift h)

theorem Plain.bind {p : Work β} {f : β → Work α} (hp : Plain p) (hf : ∀ b, Plain (f b)) :
    Plain (p >>= f) :=
  Prog.Only.runBind hp hf

theorem plain_refusing {user : ℕ} {bot : BotRow} (result : Except CodexError α) :
    Plain (refusing user bot result) := by
  unfold refusing
  cases result with
  | ok a => exact plain_pure a
  | error e =>
      cases e
      case threadRefused => exact (plain_call rfl).bind fun _ => plain_throw _
      all_goals exact plain_throw _

variable {r : AppServer} {owner : AccountRow} {bot : BotRow}

theorem plain_serveThread {threadId : String} : Plain (serveThread r owner bot threadId) := by
  unfold serveThread
  have hresume : Plain (do
      let resumed ← codex (r.resumeThread threadId
        (instructions owner.displayName bot bot.threadGrants) bot.threadGrants)
      let _ ← refusing owner.id bot resumed : Work Unit) :=
    (plain_codex quiet_resumeThread).bind fun _ => (plain_refusing _).bind fun _ => plain_pure _
  refine (plain_codex quiet_isServed).bind fun served => ?_
  split
  · exact plain_pure _
  · exact hresume

theorem plain_prepareThread : Plain (prepareThread r owner bot) := by
  unfold prepareThread
  cases bot.threadId with
  | none =>
      refine (plain_codex quiet_startThread).bind fun _ => (plain_refusing _).bind fun started => ?_
      exact (plain_call rfl).bind fun _ => plain_pure _
  | some threadId =>
      dsimp only
      split
      · exact plain_serveThread.bind fun _ => (plain_pure threadId : Plain _)
      · refine (plain_codex quiet_startThread).bind fun _ =>
          (plain_refusing _).bind fun started => (plain_call rfl).bind fun replaced => ?_
        cases replaced with
        | true => exact plain_pure _
        | false => exact plain_throw _

theorem plain_pendingCarryover {botId sending : ℕ} :
    Plain (pendingCarryover owner botId sending) := by
  unfold pendingCarryover
  refine (plain_call rfl).bind fun bot => ?_
  cases bot with
  | none => exact plain_throw _
  | some bot =>
      dsimp only
      cases bot.carryoverMarker with
      | none => exact plain_pure _
      | some marker =>
          refine (plain_call rfl).bind fun messages => ?_
          split
          · exact (plain_call rfl).bind fun _ => plain_pure _
          · exact plain_pure _

theorem plain_ownBot {user bot : ℕ} : Plain (ownBot user bot) := by
  unfold ownBot
  refine (plain_call rfl).bind fun bot => ?_
  cases bot with
  | none => exact plain_throw _
  | some bot => exact plain_pure bot

theorem plain_runtime {user : ℕ} : Plain (runtime user) := by
  unfold runtime
  refine (plain_codex quiet_runtime).bind fun res => ?_
  cases res with
  | ok r => exact plain_pure r
  | error e => exact plain_throw _

end Plain

section Obeys

variable {α β : Type} {φ : TurnPhase} {r : AppServer} {owner : AccountRow} {bot : BotRow}

theorem plain_op {φ : TurnPhase} {β : Type} {op : Call β} (h : op.isPlain = true) :
    φ.Allows op ∧ ∀ r, φ.after op r = φ := by
  cases op with
  | codex op => cases op <;> first | exact ⟨trivial, fun _ => rfl⟩ | cases h
  | gateway op => cases op <;> first | exact ⟨trivial, fun _ => rfl⟩ | cases h

theorem Plain.obeys {work : Work α} (h : Plain work) :
    discipline.Obeys φ work.run fun _ φ' => φ' = φ :=
  Discipline.Obeys.of_only plain_op h

theorem obeys_call {op : GatewayCall α} {Q : Except Failure α → TurnPhase → Prop} :
    discipline.Obeys φ (call op).run Q ↔
      φ.Allows (.gateway op) ∧ ∀ a, Q (.ok a) (φ.after (.gateway op) a) := by
  unfold call
  rw [Discipline.obeys_runLift]
  exact Iff.rfl

theorem obeys_fallible {op : GatewayCall (Except Failure α)}
    {Q : Except Failure α → TurnPhase → Prop} :
    discipline.Obeys φ (fallible op).run Q ↔
      φ.Allows (.gateway op) ∧ ∀ a, Q a (φ.after (.gateway op) a) := Iff.rfl

/-- A failure of plain work lets the count go. -/
theorem obeys_releasing {user turn : ℕ} {work : Work α} (hwork : Plain work) :
    discipline.Obeys ⟨.reserved user turn, none⟩ (releasing user turn work).run fun res φ' =>
      (∀ a, res = .ok a → φ' = ⟨.reserved user turn, none⟩) ∧
        ∀ e, res = .error e → φ' = .idle := by
  unfold releasing
  refine Discipline.obeys_runBind.mpr (Discipline.obeys_runLift.mpr (hwork.obeys.mono ?_))
  rintro res φ' rfl
  cases res with
  | ok a => exact ⟨fun _ _ => rfl, fun e he => by cases he⟩
  | error failure =>
      dsimp only
      refine Discipline.obeys_runBind.mpr (obeys_call.mpr ⟨.inl rfl, fun _ => ?_⟩)
      exact ⟨fun a ha => (by cases ha), fun _ _ => rfl⟩

theorem after_turnStarted_error {request : ℕ} {e : CodexError} :
    discipline.after φ (.codex (.turnStarted request)) (.error e) =
      { φ with hold := if e.hadNoEffect then φ.hold.reject else .free } := rfl

/-- Codex started the turn, or may have, or the count may be taken back. -/
theorem obeys_startTurn {user turn : ℕ} {threadId input : String} {context : Option Context} :
    discipline.Obeys ⟨.reserved user turn, none⟩ (codex (r.startTurn threadId input context)).run
      fun res φ' => ∃ answer, res = .ok answer ∧ φ'.steered = none ∧
        ((∃ e, answer = .error e ∧ e.hadNoEffect = true ∧ φ'.hold.MayRelease user turn) ∨
          (∀ e, answer = .error e → e.hadNoEffect = false) ∧ φ'.hold = .free) := by
  unfold codex AppServer.startTurn
  rw [Discipline.obeys_runLift]
  refine Discipline.Obeys.liftBind (Discipline.Obeys.of_only_returns plain_op
    (Prog.Only.lift quiet_ensureServed) (Prog.Returns.lift ensureServed_returns)) ?_ ?_
  · rintro u φ' ⟨rfl, -⟩
    refine Discipline.Obeys.liftBind (P := fun res φ' => ∃ request, res = .ok request ∧
      φ' = ⟨.sent user turn request, none⟩) ⟨⟨user, turn, rfl⟩, fun request => ⟨request, rfl, rfl⟩⟩
      ?_ ?_
    · rintro request φ' ⟨_, hrequest, rfl⟩
      cases hrequest
      refine ⟨⟨user, turn, rfl⟩, fun answer => ⟨answer, rfl, ?_⟩⟩
      cases answer with
      | ok id => exact ⟨rfl, .inr ⟨fun e he => (by cases he), rfl⟩⟩
      | error e =>
          refine ⟨rfl, ?_⟩
          cases he : e.hadNoEffect with
          | true =>
              refine .inl ⟨e, rfl, he, .inr ⟨request, ?_⟩⟩
              rw [after_turnStarted_error, if_pos he]
              rfl
          | false =>
              refine .inr ⟨fun e' he' => Except.error.inj he' ▸ he, ?_⟩
              rw [after_turnStarted_error, if_neg (by simp [he])]
    · rintro e φ' ⟨_, he, -⟩
      cases he
  · rintro e φ' ⟨rfl, he⟩
    exact ⟨_, rfl, rfl, .inl ⟨e, rfl, he e rfl, .inl rfl⟩⟩

/-- A steer asks for no turn of its own. -/
theorem obeys_steerTurn {threadId turnId input clientId : String} {context : Option Context} :
    discipline.Obeys .idle (codex (r.steerTurn threadId turnId input clientId context)).run
      fun res φ' => (∃ answer, res = .ok answer) ∧ φ' = .idle := by
  unfold codex AppServer.steerTurn
  rw [Discipline.obeys_runLift]
  refine Discipline.Obeys.liftBind
    (Discipline.Obeys.of_only plain_op (Prog.Only.lift quiet_ensureServed)) ?_ ?_
  · rintro u φ' rfl
    refine Discipline.Obeys.liftBind (P := fun res φ' => ∃ request, res = .ok request ∧
      φ' = ⟨.free, some request⟩) ⟨trivial, fun request => ⟨request, rfl, rfl⟩⟩ ?_ ?_
    · rintro request φ' ⟨_, hrequest, rfl⟩
      cases hrequest
      exact ⟨rfl, fun answer => ⟨⟨answer, rfl⟩, rfl⟩⟩
    · rintro e φ' ⟨_, he, -⟩
      cases he
  · rintro e φ' rfl
    exact ⟨⟨_, rfl⟩, rfl⟩

/-- Work that holds no count before it or after it. -/
def Idle (work : Work α) : Prop := discipline.Obeys .idle work.run fun _ φ' => φ' = .idle

/-- Work that settles the counted turn it is given. -/
def Settles (user turn : ℕ) (work : Work α) : Prop :=
  discipline.Obeys ⟨.reserved user turn, none⟩ work.run fun _ φ' => φ' = .idle

theorem Plain.idle {work : Work α} (h : Plain work) : Idle work := h.obeys

theorem Idle.bind {p : Work β} {f : β → Work α} (hp : Idle p) (hf : ∀ b, Idle (f b)) :
    Idle (p >>= f) :=
  Discipline.Obeys.runBind hp (fun b φ' h => by subst h; exact hf b) fun _ _ h => h

theorem Plain.idle_bind {p : Work β} {f : β → Work α} (hp : Plain p) (hf : ∀ b, Idle (f b)) :
    Idle (p >>= f) :=
  hp.idle.bind hf

/-- Work that is not done if a condition holds. -/
theorem Idle.unless {c : Prop} [Decidable c] {failure : Failure} {work : Work α} (h : Idle work) :
    Idle (if c then throw failure >>= fun _ : PUnit => work else work) := by
  split
  · exact (plain_throw _).idle_bind fun _ => h
  · exact h

/-- What follows a counted turn settles it. -/
theorem idle_reserve {user bot : ℕ} {f : ℕ → Work α} (hf : ∀ turn, Settles user turn (f turn)) :
    Idle (reserve user bot >>= f) := by
  refine Discipline.Obeys.runBind (P := fun res φ' =>
    (∀ turn, res = .ok turn → φ' = ⟨.reserved user turn, none⟩) ∧
      ∀ e, res = .error e → φ' = .idle) ?_ (fun turn φ' h => h.1 turn rfl ▸ hf turn)
    fun e φ' h => h.2 e rfl
  unfold reserve
  refine Discipline.obeys_runBind.mpr (obeys_fallible.mpr ⟨rfl, fun found => ?_⟩)
  cases found with
  | error e => exact ⟨fun turn ht => (by cases ht), fun _ _ => rfl⟩
  | ok found =>
      cases found with
      | none => exact ⟨fun turn ht => (by cases ht), fun _ _ => rfl⟩
      | some turn => exact ⟨fun _ ht => Except.ok.inj ht ▸ rfl, fun e he => (by cases he)⟩

/-- Plain work and then what settles the turn, which a failure takes back. -/
theorem settles_releasing {user turn : ℕ} {work : Work β} {f : β → Work α} (hwork : Plain work)
    (hf : ∀ b, Settles user turn (f b)) : Settles user turn (releasing user turn work >>= f) :=
  Discipline.Obeys.runBind (obeys_releasing hwork) (fun b _ h => h.1 b rfl ▸ hf b)
    fun e _ h => h.2 e rfl

theorem Settles.bind {user turn : ℕ} {p : Work β} {f : β → Work α} (hp : Settles user turn p)
    (hf : ∀ b, Idle (f b)) : Settles user turn (p >>= f) :=
  Discipline.Obeys.runBind hp (fun b φ' h => by subst h; exact hf b) fun _ _ h => h

theorem plain_call_bind {op : GatewayCall β} {f : β → Work α}
    (h : (Call.gateway op).isPlain = true) (hf : ∀ b, Plain (f b)) : Plain (call op >>= f) :=
  (plain_call h).bind hf

theorem settles_beginTurn {threadId input : String} {reserved begunBy : ℕ}
    {context : Option Context} : Settles owner.id reserved
      (beginTurn r owner bot ⟨threadId, reserved, begunBy, input, context⟩) := by
  unfold beginTurn
  refine settles_releasing plain_pendingCarryover fun carried => ?_
  refine Discipline.Obeys.runBind obeys_startTurn ?_ (by rintro e φ' ⟨_, he, -⟩; cases he)
  rintro answer ⟨hold, steered⟩ ⟨_, hanswer, rfl, hcases⟩
  cases hanswer
  cases answer with
  | ok turnId =>
      rcases hcases with ⟨e, he, -⟩ | ⟨-, rfl⟩
      · cases he
      have hbegan : Plain (do
          call (.began bot.id ⟨owner.id, threadId, turnId⟩)
          return turnId : Work String) := plain_call_bind rfl fun _ => plain_pure _
      refine (Plain.idle_bind (plain_call rfl) fun _ => ?_)
      cases carried with
      | none => exact hbegan.idle
      | some entry => exact (plain_call_bind rfl fun _ => hbegan).idle
  | error e =>
      rcases hcases with ⟨_, he', he, hrelease⟩ | ⟨he, rfl⟩
      · cases he'
        dsimp only
        rw [if_pos he]
        exact Discipline.obeys_runBind.mpr
          (obeys_call.mpr ⟨hrelease, fun _ => (plain_refusing _).idle⟩)
      · dsimp only
        rw [if_neg (by simp [he e rfl])]
        exact (plain_refusing _).idle

theorem settles_sendNew {message reserved : ℕ} {threadId text : String} :
    Settles owner.id reserved (sendNew r owner bot message reserved threadId text) := by
  unfold sendNew
  exact settles_beginTurn.bind fun _ => (plain_pure _).idle

theorem idle_sendIdle {text : String} : Idle (sendIdle r owner bot text) := by
  unfold sendIdle
  refine idle_reserve fun reserved => settles_releasing ?_ fun found => settles_sendNew
  exact plain_prepareThread.bind fun _ => plain_ownBot.bind fun _ =>
    plain_call_bind rfl fun _ => plain_pure _

theorem idle_sendActive {text : String} {active : ActiveTurn} :
    Idle (sendActive r owner bot text active) := by
  unfold sendActive
  refine plain_serveThread.idle_bind fun _ => plain_ownBot.idle_bind fun bot' =>
    (plain_call rfl).idle_bind fun message => ?_
  refine Discipline.Obeys.runBind obeys_steerTurn ?_ (by rintro e φ' ⟨⟨_, he⟩, -⟩; cases he)
  rintro answer φ' ⟨-, rfl⟩
  have hnew : Idle (do
      let reserved ← reserve owner.id bot'.id
      let threadId ← releasing owner.id reserved (prepareThread r owner bot')
      sendNew r owner bot' message.id reserved threadId text) :=
    idle_reserve fun _ => settles_releasing plain_prepareThread fun _ => settles_sendNew
  cases answer with
  | ok turnId => exact (plain_call_bind rfl fun _ => plain_pure _).idle
  | error e =>
      cases e
      case refused | threadRefused => exact (plain_refusing _).idle
      case signedOut => exact (plain_throw _).idle
      all_goals exact hnew

/-- The lock is let go whatever the work came to. -/
theorem Idle.holdingBot {user bot : ℕ} {work : Work α} (h : Idle work) :
    Idle (holdingBot user bot work) := by
  unfold Work.holdingBot
  refine (plain_call rfl).idle_bind fun _ => Idle.bind (Discipline.obeys_runLift.mpr h) fun done =>
    (plain_call rfl).idle_bind fun _ => ?_
  exact rfl

theorem idle_send {botId : ℕ} {text : String} : Idle (send owner botId text) := by
  unfold send
  refine Idle.bind (Discipline.obeys_pure.mpr rfl) fun text =>
    Idle.holdingBot (plain_ownBot.idle_bind fun bot => Idle.unless ?_)
  refine (plain_fallible rfl).idle_bind fun allowance => (plain_call rfl).idle_bind fun active =>
    Idle.unless (plain_runtime.idle_bind fun r => ?_)
  cases active with
  | none => exact idle_sendIdle
  | some active => exact idle_sendActive

theorem settles_startCounted {routine : RoutineRow} {run reserved : ℕ} {marker about : String} :
    Settles owner.id reserved (startCounted r owner routine run marker about bot reserved) := by
  unfold startCounted
  refine settles_releasing ?_ ?_
  case refine_2 =>
    rintro ⟨threadId, bot, message⟩
    exact settles_beginTurn.bind fun turnId => (plain_call_bind rfl fun _ => plain_pure _).idle
  exact plain_prepareThread.bind fun _ => plain_ownBot.bind fun _ =>
    plain_call_bind rfl fun _ => plain_pure _

theorem idle_startRoutineLocked {routineId run : ℕ} {marker about : String} :
    Idle (startRoutineLocked owner routineId run marker about) := by
  unfold startRoutineLocked
  refine (plain_call rfl).idle_bind fun row => ?_
  cases row with
  | none => exact (plain_pure _).idle
  | some row =>
    dsimp only
    split
    · exact (plain_pure _).idle
    refine (plain_call rfl).idle_bind fun routine => ?_
    cases routine with
    | none => exact (plain_pure _).idle
    | some routine =>
      dsimp only
      split
      · exact (plain_pure _).idle
      refine (plain_call rfl).idle_bind fun bot => ?_
      cases bot with
      | none => exact (plain_pure _).idle
      | some bot =>
        dsimp only
        split
        · exact (plain_pure _).idle
        refine (plain_call rfl).idle_bind fun working => ?_
        split
        · exact (plain_pure _).idle
        refine (plain_fallible rfl).idle_bind fun allowance => ?_
        split
        · exact (plain_pure _).idle
        refine (plain_codex quiet_runtime).idle_bind fun res => ?_
        cases res with
        | error e => cases e <;> exact (plain_pure _).idle
        | ok r =>
          refine Discipline.obeys_runBind.mpr (obeys_fallible.mpr ⟨rfl, fun found => ?_⟩)
          cases found with
          | error e => exact rfl
          | ok found =>
            cases found with
            | none => exact (plain_pure _).idle
            | some reserved => exact settles_startCounted

theorem idle_startRoutine {routine : RoutineRow} {run : ℕ} {marker about : String} :
    Idle (startRoutine owner routine run marker about) := by
  unfold startRoutine
  refine (plain_call rfl).idle_bind fun locked => ?_
  split
  · exact (plain_pure _).idle
  refine Idle.bind (Discipline.obeys_runLift.mpr idle_startRoutineLocked) fun start =>
    (plain_call rfl).idle_bind fun _ => ?_
  cases start with
  | ok start => exact (plain_pure _).idle
  | error failure => exact (plain_pure _).idle

theorem idle_startOwed {user botId : ℕ} : Idle (startOwed user botId) := by
  unfold startOwed
  refine Idle.holdingBot ((plain_call rfl).idle_bind ?_)
  rintro ⟨owed, running⟩
  dsimp only
  split
  · exact (plain_pure _).idle
  cases owed.bind List.getLast? with
  | none => exact (plain_pure _).idle
  | some latest =>
    refine (plain_call rfl).idle_bind fun found => ?_
    obtain _ | ⟨owner, rfl⟩ := found
    · exact (plain_pure _).idle
    · -- the account found is the user's own
      refine (plain_call rfl).idle_bind fun found => ?_
      cases found with
      | none => exact (plain_pure _).idle
      | some bot =>
        refine (plain_call rfl).idle_bind fun found => ?_
        cases found with
        | none => exact (plain_pure _).idle
        | some message =>
          dsimp only
          split
          · exact (plain_pure _).idle
          split
          · exact (plain_pure _).idle
          refine (plain_fallible rfl).idle_bind fun allowance => Idle.unless
            (plain_runtime.idle_bind fun r => idle_reserve fun reserved => ?_)
          refine settles_releasing
            (plain_prepareThread.bind fun _ => plain_ownBot.bind fun _ => plain_pure _) ?_
          rintro ⟨threadId, bot⟩
          exact settles_beginTurn.bind fun _ => (plain_pure _).idle

theorem idle_attempt {run : RunRow} {now : ℤ} {at' local' : String} :
    Idle (attempt run now at' local') := by
  unfold attempt
  refine (plain_call rfl).idle_bind fun found => ?_
  obtain _ | ⟨account, haccount⟩ := found
  · exact (plain_pure _).idle
  dsimp only
  split
  · exact (plain_call_bind rfl fun _ => plain_pure _).idle
  refine (plain_call rfl).idle_bind fun routine => ?_
  cases routine with
  | none => exact (plain_pure _).idle
  | some routine =>
    refine idle_startRoutine.bind fun start => ?_
    cases start
    case started | notWaiting => exact (plain_pure _).idle
    case paused | failed => exact (plain_call rfl).idle
    all_goals
      dsimp only
      split
      · exact (plain_call rfl).idle
      · exact (plain_call rfl).idle

theorem obeys_discard {work : Work α} (h : Idle work) :
    discipline.Obeys .idle (discard work) fun _ φ' => φ' = .idle := by
  unfold discard
  rw [Discipline.obeys_bind]
  exact h

theorem obeys_job (job : Job) : discipline.Obeys .idle job.prog fun _ φ' => φ' = .idle := by
  cases job with
  | send owner bot text => exact obeys_discard idle_send
  | answerOwed user bot => exact obeys_discard idle_startOwed
  | attempt run now at' local' =>
      refine (obeys_discard idle_attempt).bind ?_
      rintro _ _ rfl
      exact ⟨trivial, fun _ => rfl⟩
  | changeGrants user bot grants =>
      exact obeys_discard (Idle.holdingBot (plain_call rfl).idle)

/-- Supervisor work that asks for no turn. -/
theorem obeys_quiet {work : Codex α} (h : Quiet work) :
    discipline.Obeys .idle ((Serving.discard work).lift fun op => .codex op)
      fun _ φ' => φ' = .idle := by
  unfold Serving.discard
  rw [Prog.lift_bind, Discipline.obeys_bind]
  exact Discipline.Obeys.of_only (P := fun {_} (op : Call _) => op.isPlain = true) plain_op
    (Prog.Only.lift h)

theorem obeys_supervisorJob {job : Serving.Job} (h : ofSupervisor (.call job) = true) :
    discipline.Obeys .idle (job.prog.lift fun op => .codex op) fun _ φ' => φ' = .idle := by
  cases job with
  | runtime user => exact obeys_quiet quiet_runtime
  | running user => exact obeys_quiet quiet_running
  | stop user => exact obeys_quiet quiet_stop
  | recover user failed => exact obeys_quiet quiet_recover
  | isServed r threadId => exact obeys_quiet quiet_isServed
  | interruptTurn r threadId turnId => exact obeys_quiet quiet_interruptTurn
  | watch r broken reports => exact obeys_quiet quiet_watch
  | watchEnd r => exact obeys_quiet quiet_watchEnd
  | startThread | resumeThread | startTurn | steerTurn => cases h

end Obeys

end Bokkie.Conversations
