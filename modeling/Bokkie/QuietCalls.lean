import Bokkie.ServingDiscipline

/-!
# Work with Codex that asks for no turn

All that is done with the supervisor and the app servers, apart from starting and steering turns,
makes no call about a turn request.
-/

namespace Tasks.Prog

variable {Op Op' : Type → Type} {P : {β : Type} → Op' β → Prop} {α : Type}

/-- A program over other calls makes the calls that the program's own stand for. -/
theorem Only.lift {f : {β : Type} → Op β → Op' β} {p : Prog Op α}
    (h : p.Only fun op => P (f op)) : (p.lift f).Only P := by
  induction p with
  | pure a => trivial
  | call op next ih => exact ⟨h.1, fun r => ih r (h.2 r)⟩

/-- Whatever the answers, the program ends with a result in `Q`. -/
def Returns {Op : Type → Type} {α : Type} (Q : α → Prop) : Prog Op α → Prop
  | .pure a => Q a
  | .call _ next => ∀ r, (next r).Returns Q

theorem Returns.lift {f : {β : Type} → Op β → Op' β} {p : Prog Op α} {Q : α → Prop}
    (h : p.Returns Q) : (p.lift f).Returns Q := by
  induction p with
  | pure a => exact h
  | call op next ih => exact fun r => ih r (h r)

end Tasks.Prog

namespace Tasks.Discipline

variable {Op Op' : Type → Type} {Φ : Type} {D : Discipline Op' Φ} {φ : Φ} {α β ε : Type}

/-- As `Obeys.of_only`, with what is known of the result. -/
theorem Obeys.of_only_returns {P : {β : Type} → Op' β → Prop} {R : α → Prop} {p : Prog Op' α}
    (hP : ∀ {φ} {β : Type} {op : Op' β}, P op → D.allows φ op ∧ ∀ r, D.after φ op r = φ)
    (hp : p.Only P) (hr : p.Returns R) : D.Obeys φ p fun a φ' => φ' = φ ∧ R a := by
  induction p with
  | pure a => exact ⟨rfl, hr⟩
  | call op next ih =>
      refine ⟨(hP hp.1).1, fun r => ?_⟩
      rw [(hP hp.1).2 r]
      exact ih r (hp.2 r) (hr r)

/-- A program that can fail followed by another, both over other calls. -/
theorem Obeys.liftBind {l : {β : Type} → Op β → Op' β} {p : ExceptT ε (Prog Op) β}
    {f : β → ExceptT ε (Prog Op) α} {P : Except ε β → Φ → Prop} {Q : Except ε α → Φ → Prop}
    (hp : D.Obeys φ (p.run.lift l) P)
    (hok : ∀ b φ', P (.ok b) φ' → D.Obeys φ' ((f b).run.lift l) Q)
    (herror : ∀ e φ', P (.error e) φ' → Q (.error e) φ') :
    D.Obeys φ ((p >>= f).run.lift l) Q := by
  rw [ExceptT.run_bind, Prog.lift_bind]
  refine hp.bind fun r φ' hr => ?_
  cases r with
  | ok b => exact hok b φ' hr
  | error e => exact herror e φ' hr

end Tasks.Discipline

namespace Bokkie

open Tasks Codex

namespace CodexCall

/-- The call is not about a turn request. -/
def isQuiet {β : Type} : CodexCall β → Bool
  | .turnStart _ _ | .turnStarted _ | .turnSteer _ _ | .turnSteered _ => false
  | _ => true

end CodexCall

/-- A program that makes no call about a turn request. -/
def Quiet {α : Type} (p : Codex α) : Prop := p.run.Only fun op => op.isQuiet = true

section Quiet

variable {α β : Type} {r : AppServer} {threadId : String}

theorem quiet_pure (a : α) : Quiet (pure a : Codex α) := trivial

theorem quiet_throw (e : CodexError) : Quiet (throw e : Codex α) := trivial

/-- What follows a failure is not run. -/
theorem quiet_throw_bind {e : CodexError} {f : β → Codex α} : Quiet (throw e >>= f) := trivial

theorem quiet_call {op : CodexCall α} (h : op.isQuiet = true) : Quiet (call op) :=
  Prog.Only.runLift (Prog.only_perform h)

theorem quiet_request {op : CodexCall (Except CodexError α)} (h : op.isQuiet = true) :
    Quiet (request op) :=
  Prog.only_perform h

theorem Quiet.bind {p : Codex β} {f : β → Codex α} (hp : Quiet p) (hf : ∀ b, Quiet (f b)) :
    Quiet (p >>= f) :=
  Prog.Only.runBind hp hf

theorem Quiet.attempt {p : Codex β} (hp : Quiet p) : Quiet (ExceptT.lift p.run) :=
  Prog.Only.runLift hp

theorem Quiet.forM {l : List β} {f : β → Codex PUnit} (hf : ∀ b ∈ l, Quiet (f b)) :
    Quiet (l.forM f) := by
  induction l with
  | nil => exact quiet_pure _
  | cons b l ih =>
      exact (hf b (by simp)).bind fun _ => ih fun c hc => hf c (List.mem_cons_of_mem _ hc)

theorem quiet_check (checked : Except Refusal Unit) : Quiet (check checked) := by
  cases checked with
  | ok u => exact quiet_pure _
  | error e => exact quiet_throw _

theorem quiet_user : Quiet r.user := by
  unfold AppServer.user
  cases r.owner with
  | household => exact quiet_throw _
  | user user => exact quiet_pure _

theorem quiet_checkConfig : Quiet r.checkConfig :=
  (quiet_request rfl).bind fun _ => quiet_check _

theorem quiet_startupChecks : Quiet r.startupChecks :=
  (quiet_request rfl).bind fun _ => quiet_checkConfig.bind fun _ =>
    (quiet_request rfl).bind fun _ => quiet_check _

theorem quiet_refuse {user : ℕ} {reason : Refusal} : Quiet (r.refuse user threadId reason) :=
  (quiet_call rfl).bind fun _ => quiet_call rfl

theorem quiet_served {response : ThreadSession} {grants : GrantSet} :
    Quiet (r.served response grants) := by
  unfold AppServer.served
  refine quiet_user.bind fun user => ?_
  cases ServeChecks.checkThread response r.expected with
  | error refusal => exact quiet_refuse.bind fun _ => quiet_throw _
  | ok u => exact (quiet_call rfl).bind fun _ => quiet_pure _

theorem quiet_startThread {instructions : Instructions} {grants : GrantSet} :
    Quiet (r.startThread instructions grants) := by
  unfold AppServer.startThread
  refine quiet_user.bind fun _ => (quiet_call rfl).bind fun reason => ?_
  cases reason with
  | some reason => exact quiet_throw_bind
  | none => exact quiet_checkConfig.bind fun _ => (quiet_request rfl).bind fun _ => quiet_served

theorem quiet_ensureNotRefused : Quiet (r.ensureNotRefused threadId) := by
  unfold AppServer.ensureNotRefused
  refine quiet_user.bind fun user => (quiet_call rfl).bind fun reason => ?_
  cases reason with
  | some reason => exact quiet_throw_bind
  | none =>
      refine (quiet_call rfl).bind fun reason => ?_
      cases reason with
      | none => exact quiet_pure _
      | some reason => exact quiet_throw _

theorem quiet_resumeThread {instructions : Instructions} {grants : GrantSet} :
    Quiet (r.resumeThread threadId instructions grants) := by
  unfold AppServer.resumeThread
  refine quiet_ensureNotRefused.bind fun _ => quiet_checkConfig.bind fun _ =>
    (quiet_request rfl).bind fun response => ?_
  split
  · exact quiet_throw_bind
  · exact quiet_served

theorem quiet_isServed : Quiet (r.isServed threadId) := by
  unfold AppServer.isServed
  cases r.owner with
  | household => exact quiet_pure _
  | user user =>
      have hrest : Quiet (do
          if (← call (.threadGrants r.serial threadId)).isNone then return false
          return (← call (.threadRefusal user threadId)).isNone : Codex Bool) := by
        refine (quiet_call rfl).bind fun grants => ?_
        cases grants with
        | none => exact quiet_pure _
        | some grants => exact (quiet_call rfl).bind fun _ => quiet_pure _
      refine (quiet_call rfl).bind fun alive => ?_
      cases alive with
      | false => exact quiet_pure _
      | true => exact hrest

theorem quiet_ensureServed : Quiet (r.ensureServed threadId) := by
  unfold AppServer.ensureServed
  refine quiet_ensureNotRefused.bind fun _ => (quiet_call rfl).bind fun grants => ?_
  cases grants with
  | none => exact quiet_throw _
  | some grants => exact quiet_pure _

/-- A thread that is not to be used is found out before a request is sent. -/
theorem ensureServed_returns : (r.ensureServed threadId).run.Returns fun res =>
    ∀ e, res = .error e → e.hadNoEffect = true := by
  have hdone {α : Type} (a : α) : ∀ e : CodexError, Except.ok a = .error e →
      e.hadNoEffect = true := by simp
  unfold AppServer.ensureServed AppServer.ensureNotRefused AppServer.user
  cases r.owner with
  | household =>
      rintro e he
      rw [← Except.error.inj he]
      rfl
  | user user =>
      intro reason
      cases reason with
      | some reason =>
          rintro e he
          rw [← Except.error.inj he]
          rfl
      | none =>
          intro reason
          cases reason with
          | some reason =>
              rintro e he
              rw [← Except.error.inj he]
              rfl
          | none =>
              intro grants
              cases grants with
              | none =>
                  rintro e he
                  rw [← Except.error.inj he]
                  rfl
              | some grants => exact hdone _

theorem quiet_interruptTurn {turnId : String} : Quiet (r.interruptTurn threadId turnId) :=
  quiet_user.bind fun _ => quiet_request rfl

theorem quiet_violation {reason : Refusal} {broken : Option String} :
    Quiet (r.violation broken reason) := by
  have hend : Quiet (do call (.taint reason); call (.stop r.serial) : Codex Unit) :=
    (quiet_call rfl).bind fun _ => quiet_call rfl
  unfold AppServer.violation
  cases broken with
  | none => exact hend
  | some threadId =>
      cases r.owner with
      | household => exact hend
      | user user => exact quiet_refuse.bind fun _ => (quiet_call rfl).bind fun _ => hend

theorem quiet_watch {broken : Option (Option String × Refusal)} {reports : List RuntimeEvent} :
    Quiet (r.watch broken reports) := by
  have hreports : Quiet (do
      reports.forM fun event => call (.report r.serial event)
      call (.watched r.serial true) : Codex Unit) :=
    (Quiet.forM fun _ _ => quiet_call rfl).bind fun _ => quiet_call rfl
  unfold AppServer.watch
  cases broken with
  | none => exact hreports
  | some broken => exact quiet_violation.bind fun _ => hreports

theorem quiet_watchEnd : Quiet r.watchEnd :=
  (quiet_call rfl).bind fun _ => (quiet_call rfl).bind fun _ => quiet_call rfl

theorem quiet_holdingSlot {user : ℕ} {work : Codex α} (hwork : Quiet work) :
    Quiet (Supervisor.holdingSlot user work) := by
  unfold Supervisor.holdingSlot
  refine (quiet_call rfl).bind fun _ => hwork.attempt.bind fun done =>
    (quiet_call rfl).bind fun _ => ?_
  cases done with
  | ok a => exact quiet_pure a
  | error e => exact quiet_throw e

theorem quiet_start {owner : Owner} : Quiet (Supervisor.start owner) := by
  unfold Supervisor.start
  refine (quiet_request rfl).bind fun r => quiet_startupChecks.attempt.bind fun done => ?_
  cases done with
  | ok u => exact quiet_pure r
  | error e => exact (quiet_call rfl).bind fun _ => quiet_throw e

theorem quiet_signOutOwn {user : ℕ} : Quiet (Supervisor.signOutOwn user) := by
  unfold Supervisor.signOutOwn
  refine quiet_start.bind fun r => (quiet_request rfl).attempt.bind fun result =>
    (quiet_call rfl).bind fun _ => ?_
  cases result
  case' error e => refine (quiet_throw e).bind fun _ => ?_
  all_goals
    -- the user's directory is looked at again
    refine (quiet_request rfl).attempt.bind fun found => ?_
    split
    · exact quiet_pure _
    · exact quiet_throw _

theorem quiet_link {user : ℕ} : Quiet (Supervisor.link user) := by
  unfold Supervisor.link
  refine (quiet_request rfl).bind fun found => ?_
  cases found
  case link => exact quiet_pure _
  case' file => refine quiet_signOutOwn.bind fun _ => ?_
  case' other what => refine (quiet_throw _).bind fun _ => ?_
  all_goals
    -- the link is made, and looked at
    refine (quiet_request rfl).bind fun _ => (quiet_request rfl).attempt.bind fun found => ?_
    split
    · exact quiet_pure _
    · exact quiet_throw _

theorem quiet_ensureUntainted : Quiet Supervisor.ensureUntainted := by
  unfold Supervisor.ensureUntainted
  refine (quiet_call rfl).bind fun reason => ?_
  cases reason with
  | none => exact quiet_pure _
  | some reason => exact quiet_throw _

theorem quiet_runtime {user : ℕ} : Quiet (Supervisor.runtime user) := by
  have hstart : Quiet (do
      Supervisor.link user
      let r ← Supervisor.start (.user user)
      call (.setSlot user (some r))
      return r : Codex AppServer) :=
    quiet_link.bind fun _ => quiet_start.bind fun r => (quiet_call rfl).bind fun _ => quiet_pure r
  have hreplace (r : AppServer) : Quiet (do
      call (.setSlot user none)
      call (.stop r.serial)
      Supervisor.link user
      let r ← Supervisor.start (.user user)
      call (.setSlot user (some r))
      return r : Codex AppServer) :=
    (quiet_call rfl).bind fun _ => (quiet_call rfl).bind fun _ => hstart
  unfold Supervisor.runtime
  refine quiet_ensureUntainted.bind fun _ => (quiet_request rfl).bind fun _ => quiet_holdingSlot ?_
  refine (quiet_call rfl).bind fun found => ?_
  cases found with
  | none => exact hstart
  | some r =>
      refine (quiet_call rfl).bind fun alive => ?_
      cases alive with
      | false => exact hreplace r
      | true =>
          refine (quiet_request rfl).attempt.bind fun found => ?_
          split
          · exact quiet_pure r
          · exact (quiet_call rfl).bind fun _ => (quiet_call rfl).bind fun _ =>
              (quiet_throw _).bind fun _ => hreplace r

theorem quiet_running {user : ℕ} : Quiet (Supervisor.running user) := by
  unfold Supervisor.running
  refine quiet_holdingSlot ((quiet_call rfl).bind fun found => ?_)
  cases found with
  | none => exact quiet_pure _
  | some r => exact (quiet_call rfl).bind fun alive => quiet_pure _

theorem quiet_stop {user : ℕ} : Quiet (Supervisor.stop user) := by
  unfold Supervisor.stop
  refine quiet_holdingSlot ((quiet_call rfl).bind fun found => ?_)
  cases found with
  | none => exact quiet_pure _
  | some r => exact (quiet_call rfl).bind fun _ => quiet_call rfl

theorem quiet_recover {user : ℕ} : Quiet (Supervisor.recover user r) := by
  unfold Supervisor.recover
  refine (quiet_call rfl).bind fun first => ?_
  cases first with
  | false => exact quiet_pure _
  | true =>
      refine (quiet_request rfl).attempt.bind fun household => ?_
      cases household with
      | error e => exact quiet_call rfl
      | ok u =>
          refine (quiet_holdingSlot ?_).bind fun _ =>
            quiet_runtime.attempt.bind fun _ => quiet_pure _
          refine (quiet_call rfl).bind fun found => ?_
          cases found with
          | none => exact quiet_pure _
          | some current =>
              by_cases hr : current = r
              · simp only [hr, if_true]
                exact (quiet_call rfl).bind fun _ => quiet_call rfl
              · simp only [hr, if_false]
                exact quiet_pure _

end Quiet

end Bokkie
