import Bokkie.Serving

/-!
# What a call on an app server knows

The discipline that the calls of `Serving` obey: a thread is served only after the configuration and
the thread passed their checks in the same call, and a turn request is sent only for a thread found
served, not refused, with Codex not tainted.
-/

namespace Bokkie.Serving

open Tasks Codex ServeChecks

/-- What a task has found out so far. -/
structure Phase where
  /-- The app server it works with. -/
  server : Option AppServer
  untainted : Bool
  unrefused : Option (ℕ × String)
  config : Option Json
  session : Option ThreadSession
  granted : Option String

namespace Phase

def fresh (server : Option AppServer) : Phase := ⟨server, false, none, none, none, none⟩

/-- The app server a task works with has this serial. -/
def Works (φ : Phase) (serial : ℕ) : Prop := ∃ r, φ.server = some r ∧ r.serial = serial

/-- The configuration it read there has passed. -/
def Configured (φ : Phase) (serial : ℕ) : Prop :=
  ∃ r config, φ.server = some r ∧ r.serial = serial ∧ φ.config = some config ∧
    checkConfig config r.expected = .ok ()

def Loaded (φ : Phase) (serial : ℕ) (threadId : String) : Prop :=
  ∃ r config session, φ.server = some r ∧ r.serial = serial ∧ φ.config = some config ∧
    φ.session = some session ∧ checkConfig config r.expected = .ok () ∧
    checkThread session r.expected = .ok () ∧ session.threadId = threadId

def MaySend (φ : Phase) (serial : ℕ) (threadId : String) : Prop :=
  ∃ r user, φ.server = some r ∧ r.serial = serial ∧ r.owner = .user user ∧ φ.untainted = true ∧
    φ.unrefused = some (user, threadId) ∧ φ.granted = some threadId

def Allows (φ : Phase) : {β : Type} → CodexCall β → Prop
  | _, .configRead serial | _, .threadGrants serial _ => φ.Works serial
  | _, .threadStart serial _ _ | _, .threadResume serial _ _ _ => φ.Configured serial
  | _, .serve serial threadId _ => φ.Loaded serial threadId
  | _, .turnStart serial params => φ.MaySend serial params.threadId
  | _, .turnSteer serial params => φ.MaySend serial params.threadId
  | _, _ => True

def after (φ : Phase) : {β : Type} → CodexCall β → β → Phase
  | _, .tainted, reason => { φ with untainted := reason.isNone }
  | _, .threadRefusal user threadId, reason =>
    { φ with unrefused := if reason.isNone then some (user, threadId) else none }
  | _, .configRead _, .ok config => { φ with config := some config, session := none }
  | _, .threadStart _ _ _, .ok session | _, .threadResume _ _ _ _, .ok session =>
    { φ with session := some session }
  | _, .threadGrants _ threadId, grants =>
    { φ with granted := if grants.isSome then some threadId else none }
  | _, .launch _, .ok r => fresh (some r)
  | _, _, _ => φ

end Phase

def discipline : Discipline CodexCall Phase where
  allows := fun φ {_} op => φ.Allows op
  after := fun φ {_} op r => φ.after op r

section Obeys

variable {α : Type} {φ : Phase} {r : AppServer} {threadId : String} {grants : GrantSet}
  {Q : Except CodexError α → Phase → Prop}

@[simp] theorem obeys_call {op : CodexCall α} :
    discipline.Obeys φ (call op).run Q ↔ φ.Allows op ∧ ∀ a, Q (.ok a) (φ.after op a) := by
  unfold call
  rw [Discipline.obeys_runLift]
  exact Iff.rfl

@[simp] theorem obeys_request {op : CodexCall (Except CodexError α)} :
    discipline.Obeys φ (request op).run Q ↔ φ.Allows op ∧ ∀ a, Q a (φ.after op a) := Iff.rfl

theorem obeys_check {checked : Except Refusal Unit} {Q : Except CodexError Unit → Phase → Prop}
    (hok : checked = .ok () → Q (.ok ()) φ) (herror : ∀ e, Q (.error e) φ) :
    discipline.Obeys φ (check checked).run Q := by
  unfold check
  cases checked with
  | ok u => exact hok rfl
  | error e => exact herror _

theorem obeys_discard {call : Codex α} {ends : Phase → Prop}
    (h : discipline.Obeys φ call.run fun _ => ends) :
    discipline.Obeys φ (discard call) fun _ => ends := by
  unfold discard
  rw [Discipline.obeys_bind]
  exact h

/-- The task works with `r`. -/
def On (r : AppServer) (φ : Phase) : Prop := φ.server = some r

theorem obeys_checkConfig (hφ : On r φ) :
    discipline.Obeys φ r.checkConfig.run fun res φ' => On r φ' ∧ φ'.untainted = φ.untainted ∧
      φ'.unrefused = φ.unrefused ∧ ∀ u, res = .ok u →
        ∃ config, φ'.config = some config ∧ checkConfig config r.expected = .ok () := by
  unfold AppServer.checkConfig
  rw [Discipline.obeys_runBind, obeys_request]
  refine ⟨⟨r, hφ, rfl⟩, fun res => ?_⟩
  cases res with
  | error e => exact ⟨hφ, rfl, rfl, fun u hu => by cases hu⟩
  | ok config =>
      refine obeys_check (fun hc => ?_) fun e => ?_
      · exact ⟨hφ, rfl, rfl, fun _ _ => ⟨config, rfl, hc⟩⟩
      · exact ⟨hφ, rfl, rfl, fun u hu => by cases hu⟩

theorem obeys_refuse {user : ℕ} {reason : Refusal} :
    discipline.Obeys φ (r.refuse user threadId reason).run fun _ _ => True := by
  unfold AppServer.refuse
  simp [Phase.Allows]

/-- A thread that passes its checks is served; one that does not is refused. -/
theorem obeys_served {config : Json} {session : ThreadSession} (hφ : On r φ)
    (hconfig : φ.config = some config) (hchecked : checkConfig config r.expected = .ok ())
    (hsession : φ.session = some session) :
    discipline.Obeys φ (r.served session grants).run fun _ _ => True := by
  unfold AppServer.served AppServer.user
  cases r.owner with
  | household => simp
  | user user =>
      simp only [pure_bind]
      cases hthread : checkThread session r.expected with
      | error refusal =>
          rw [Discipline.obeys_runBind]
          refine obeys_refuse.mono fun res φ' _ => ?_
          cases res <;> trivial
      | ok u =>
          rw [Discipline.obeys_runBind, obeys_call]
          exact ⟨⟨r, config, session, hφ, rfl, hconfig, hsession, hchecked, hthread, rfl⟩,
            fun _ => trivial⟩

theorem obeys_startThread {instructions : Instructions} (hφ : On r φ) :
    discipline.Obeys φ (r.startThread instructions grants).run fun _ _ => True := by
  unfold AppServer.startThread AppServer.user
  cases r.owner with
  | household => simp
  | user user =>
      simp only [pure_bind, Discipline.obeys_runBind, obeys_call]
      refine ⟨trivial, fun reason => ?_⟩
      cases reason with
      | some reason => trivial
      | none =>
          rw [Discipline.obeys_runBind]
          have hon : On r (φ.after .tainted none) := hφ
          refine (obeys_checkConfig hon).mono fun res φ' h => ?_
          cases res with
          | error e => trivial
          | ok u =>
              obtain ⟨hon, -, -, hconfig⟩ := h
              obtain ⟨config, hconfig, hchecked⟩ := hconfig u rfl
              refine ⟨⟨r, config, hon, rfl, hconfig, hchecked⟩, fun res => ?_⟩
              cases res with
              | error e => trivial
              | ok session => exact obeys_served (r := r) hon hconfig hchecked rfl

/-- What `ensure_not_refused` finds out when it passes. -/
theorem obeys_ensureNotRefused (hφ : On r φ) :
    discipline.Obeys φ (r.ensureNotRefused threadId).run fun res φ' => On r φ' ∧
      ∀ u, res = .ok u → φ'.untainted = true ∧
        ∃ user, r.owner = .user user ∧ φ'.unrefused = some (user, threadId) := by
  unfold AppServer.ensureNotRefused AppServer.user
  cases hr : r.owner with
  | household => exact ⟨hφ, fun u hu => by cases hu⟩
  | user user =>
      simp only [pure_bind, Discipline.obeys_runBind, obeys_call]
      refine ⟨trivial, fun reason => ?_⟩
      cases reason with
      | some reason => exact ⟨hφ, fun u hu => by cases hu⟩
      | none =>
          refine ⟨trivial, fun reason => ?_⟩
          cases reason with
          | some reason => exact ⟨hφ, fun u hu => by cases hu⟩
          | none => exact ⟨hφ, fun _ _ => ⟨rfl, user, rfl, rfl⟩⟩

theorem obeys_resumeThread {instructions : Instructions} (hφ : On r φ) :
    discipline.Obeys φ (r.resumeThread threadId instructions grants).run fun _ _ => True := by
  unfold AppServer.resumeThread
  rw [Discipline.obeys_runBind]
  refine (obeys_ensureNotRefused hφ).mono fun res φ' h => ?_
  cases res with
  | error e => trivial
  | ok u =>
      rw [Discipline.obeys_runBind]
      refine (obeys_checkConfig h.1).mono fun res φ' h => ?_
      cases res with
      | error e => trivial
      | ok u =>
          obtain ⟨hon, -, -, hconfig⟩ := h
          obtain ⟨config, hconfig, hchecked⟩ := hconfig u rfl
          simp only [Discipline.obeys_runBind, obeys_request]
          refine ⟨⟨r, config, hon, rfl, hconfig, hchecked⟩, fun res => ?_⟩
          cases res with
          | error e => trivial
          | ok session =>
              by_cases hid : session.threadId = threadId
              · simp only [hid, ne_eq, not_true_eq_false, if_false]
                exact obeys_served (r := r) hon hconfig hchecked rfl
              · simp [hid]

/-- What `ensure_served` finds out when it passes is all a turn request needs. -/
theorem obeys_ensureServed (hφ : On r φ) :
    discipline.Obeys φ (r.ensureServed threadId).run fun res φ' =>
      ∀ u, res = .ok u → φ'.MaySend r.serial threadId := by
  unfold AppServer.ensureServed
  rw [Discipline.obeys_runBind]
  refine (obeys_ensureNotRefused hφ).mono fun res φ' h => ?_
  cases res with
  | error e => exact fun u hu => by cases hu
  | ok u =>
      obtain ⟨hon, hfound⟩ := h
      obtain ⟨huntainted, user, howner, hunrefused⟩ := hfound u rfl
      simp only [Discipline.obeys_runBind, obeys_call]
      refine ⟨⟨r, hon, rfl⟩, fun granted => ?_⟩
      cases granted with
      | none => exact fun u hu => by cases hu
      | some grants => exact fun _ _ => ⟨r, user, hon, rfl, howner, huntainted, hunrefused, rfl⟩

theorem obeys_startTurn {input : String} {context : Option Context} (hφ : On r φ) :
    discipline.Obeys φ (r.startTurn threadId input context).run fun _ _ => True := by
  unfold AppServer.startTurn
  rw [Discipline.obeys_runBind]
  refine (obeys_ensureServed hφ).mono fun res φ' h => ?_
  cases res with
  | error e => trivial
  | ok u =>
      rw [Discipline.obeys_runBind, obeys_call]
      exact ⟨h u rfl, fun sent => ⟨trivial, fun _ => trivial⟩⟩

theorem obeys_steerTurn {turnId input clientId : String} {context : Option Context}
    (hφ : On r φ) :
    discipline.Obeys φ (r.steerTurn threadId turnId input clientId context).run
      fun _ _ => True := by
  unfold AppServer.steerTurn
  rw [Discipline.obeys_runBind]
  refine (obeys_ensureServed hφ).mono fun res φ' h => ?_
  cases res with
  | error e => trivial
  | ok u =>
      rw [Discipline.obeys_runBind, obeys_call]
      exact ⟨h u rfl, fun sent => ⟨trivial, fun _ => trivial⟩⟩

theorem obeys_isServed (hφ : On r φ) :
    discipline.Obeys φ (r.isServed threadId).run fun _ _ => True := by
  unfold AppServer.isServed
  cases r.owner with
  | household => trivial
  | user user =>
      simp only [Discipline.obeys_runBind, obeys_call]
      refine ⟨trivial, fun alive => ?_⟩
      cases alive with
      | false => trivial
      | true =>
          refine ⟨⟨r, hφ, rfl⟩, fun granted => ?_⟩
          cases granted with
          | none => trivial
          | some grants => exact ⟨trivial, fun _ => trivial⟩

/-- A program that asks nothing of what its task knows. -/
def Harmless (p : Codex α) : Prop := ∀ φ, discipline.Obeys φ p.run fun _ _ => True

theorem harmless_pure (a : α) : Harmless (pure a : Codex α) := fun _ => trivial

theorem harmless_throw (e : CodexError) : Harmless (throw e : Codex α) := fun _ => trivial

/-- A call that is allowed whatever its task knows. -/
def anyTime : {β : Type} → CodexCall β → Bool
  | _, .configRead _ | _, .threadGrants _ _ | _, .threadStart _ _ _
  | _, .threadResume _ _ _ _ | _, .serve _ _ _ | _, .turnStart _ _ | _, .turnSteer _ _ => false
  | _, _ => true

theorem allows_anyTime {op : CodexCall α} (h : anyTime op) : φ.Allows op := by
  cases op <;> first | exact True.intro | cases h

theorem harmless_call {op : CodexCall α} (h : anyTime op) :
    Harmless (call op) :=
  fun _ => obeys_call.mpr ⟨allows_anyTime h, fun _ => trivial⟩

theorem harmless_request {op : CodexCall (Except CodexError α)}
    (h : anyTime op) : Harmless (request op) :=
  fun _ => obeys_request.mpr ⟨allows_anyTime h, fun _ => trivial⟩

variable {β : Type}

theorem Harmless.bind {p : Codex β} {f : β → Codex α} (hp : Harmless p)
    (hf : ∀ b, Harmless (f b)) : Harmless (p >>= f) := fun φ => by
  rw [Discipline.obeys_runBind]
  refine (hp φ).mono fun res φ' _ => ?_
  cases res with
  | error e => trivial
  | ok b => exact hf b φ'

/-- What a harmless program ends with, failures included. -/
theorem Harmless.attempt {p : Codex β} (hp : Harmless p) : Harmless (ExceptT.lift p.run) :=
  fun φ => Discipline.obeys_runLift.mpr ((hp φ).mono fun _ _ _ => trivial)

theorem Harmless.forM {l : List β} {f : β → Codex PUnit} (hf : ∀ b ∈ l, Harmless (f b)) :
    Harmless (l.forM f) := fun φ => by
  refine Discipline.obeys_forM (P := fun _ => True) trivial (fun b hb φ' _ => ?_) fun _ _ => trivial
  exact (hf b hb φ').mono fun res _ _ => by cases res <;> trivial

theorem harmless_violation {reason : Refusal} {broken : Option String} :
    Harmless (r.violation broken reason) := by
  have hend : Harmless (do call (.taint reason); call (.stop r.serial) : Codex Unit) :=
    Harmless.bind (harmless_call rfl) fun _ => harmless_call rfl
  unfold AppServer.violation
  cases broken with
  | none => exact hend
  | some threadId =>
      cases r.owner with
      | household => exact hend
      | user user =>
          exact Harmless.bind (fun _ => obeys_refuse) fun _ =>
            Harmless.bind (harmless_call rfl) fun _ => hend

theorem harmless_watch {broken : Option (Option String × Refusal)}
    {reports : List RuntimeEvent} : Harmless (r.watch broken reports) := by
  have hreports : Harmless (do
      reports.forM fun event => call (.report r.serial event)
      call (.watched r.serial true) : Codex Unit) :=
    (Harmless.forM fun _ _ => harmless_call rfl).bind fun _ =>
      harmless_call rfl
  unfold AppServer.watch
  cases broken with
  | none => exact hreports
  | some broken => exact harmless_violation.bind fun _ => hreports

theorem harmless_watchEnd : Harmless r.watchEnd :=
  Harmless.bind (harmless_call rfl) fun _ => Harmless.bind (harmless_call rfl) fun _ =>
    harmless_call rfl

theorem harmless_interruptTurn {turnId : String} : Harmless (r.interruptTurn threadId turnId) := by
  unfold AppServer.interruptTurn AppServer.user
  cases r.owner with
  | household => exact (harmless_throw _).bind fun _ => harmless_request rfl
  | user user => exact (harmless_pure user).bind fun _ => harmless_request rfl

theorem harmless_holdingSlot {user : ℕ} {work : Codex α} (hwork : Harmless work) :
    Harmless (Supervisor.holdingSlot user work) := by
  unfold Supervisor.holdingSlot
  refine Harmless.bind (harmless_call rfl) fun _ => hwork.attempt.bind fun done => ?_
  refine Harmless.bind (harmless_call rfl) fun _ => ?_
  intro φ
  cases done <;> trivial

/-- An app server that was launched is checked by the task that launched it. -/
theorem harmless_start {owner : Owner} : Harmless (Supervisor.start owner) := by
  intro φ
  unfold Supervisor.start
  rw [Discipline.obeys_runBind, obeys_request]
  refine ⟨trivial, fun res => ?_⟩
  cases res with
  | error e => trivial
  | ok r =>
      have hchecks : discipline.Obeys (Phase.fresh (some r)) r.startupChecks.run
          fun _ _ => True := by
        unfold AppServer.startupChecks
        rw [Discipline.obeys_runBind, obeys_request]
        refine ⟨trivial, fun res => ?_⟩
        cases res with
        | error e => trivial
        | ok u =>
            rw [Discipline.obeys_runBind]
            have hon : On r (Phase.fresh (some r)) := rfl
            refine (obeys_checkConfig hon).mono fun res φ' _ => ?_
            cases res with
            | error e => trivial
            | ok u =>
                rw [Discipline.obeys_runBind, obeys_request]
                refine ⟨trivial, fun res => ?_⟩
                cases res with
                | error e => trivial
                | ok models => exact obeys_check (fun _ => trivial) fun _ => trivial
      simp only [Discipline.obeys_runBind, Discipline.obeys_runLift]
      refine hchecks.mono fun res φ' _ => ?_
      cases res with
      | ok u => exact harmless_pure r φ'
      | error e =>
          exact (Harmless.bind (harmless_call rfl) fun _ => harmless_throw e : Harmless (do
            call (.stop r.serial); throw e : Codex AppServer)) φ'

theorem harmless_signOutOwn {user : ℕ} : Harmless (Supervisor.signOutOwn user) := by
  unfold Supervisor.signOutOwn
  refine harmless_start.bind fun r => ?_
  refine Harmless.bind (Harmless.attempt (harmless_request rfl)) fun result => ?_
  refine Harmless.bind (harmless_call rfl) fun _ => ?_
  cases result
  case' error e => refine (harmless_throw e).bind fun _ => ?_
  all_goals
    -- the user's directory is looked at again
    refine Harmless.bind (Harmless.attempt (harmless_request rfl)) fun found => ?_
    split
    · exact harmless_pure _
    · exact harmless_throw _

theorem harmless_link {user : ℕ} : Harmless (Supervisor.link user) := by
  unfold Supervisor.link
  refine Harmless.bind (harmless_request rfl) fun found => ?_
  cases found
  case link => exact harmless_pure _
  case' file => refine harmless_signOutOwn.bind fun _ => ?_
  case' other what => refine (harmless_throw _).bind fun _ => ?_
  all_goals
    -- the link is made, and looked at
    refine Harmless.bind (harmless_request rfl) fun _ => ?_
    refine Harmless.bind (Harmless.attempt (harmless_request rfl)) fun found => ?_
    split
    · exact harmless_pure _
    · exact harmless_throw _

theorem harmless_ensureUntainted : Harmless Supervisor.ensureUntainted := by
  unfold Supervisor.ensureUntainted
  refine Harmless.bind (harmless_call rfl) fun reason => ?_
  cases reason with
  | none => exact harmless_pure _
  | some reason => exact harmless_throw _

theorem harmless_runtime {user : ℕ} : Harmless (Supervisor.runtime user) := by
  have hstart : Harmless (do
      Supervisor.link user
      let r ← Supervisor.start (.user user)
      call (.setSlot user (some r))
      return r : Codex AppServer) :=
    harmless_link.bind fun _ => harmless_start.bind fun r =>
      Harmless.bind (harmless_call rfl) fun _ => harmless_pure r
  unfold Supervisor.runtime
  refine harmless_ensureUntainted.bind fun _ => ?_
  refine Harmless.bind (harmless_request rfl) fun _ => harmless_holdingSlot ?_
  refine Harmless.bind (harmless_call rfl) fun found => ?_
  cases found with
  | none => exact hstart
  | some r =>
      have hreplace : Harmless (do
          call (.setSlot user none)
          call (.stop r.serial)
          Supervisor.link user
          let r ← Supervisor.start (.user user)
          call (.setSlot user (some r))
          return r : Codex AppServer) :=
        Harmless.bind (harmless_call rfl) fun _ =>
          Harmless.bind (harmless_call rfl) fun _ => hstart
      refine Harmless.bind (harmless_call rfl) fun alive => ?_
      cases alive with
      | false => exact hreplace
      | true =>
          refine Harmless.bind (Harmless.attempt (harmless_request rfl)) fun found => ?_
          split
          · exact harmless_pure r
          · exact Harmless.bind (harmless_call rfl) fun _ =>
              Harmless.bind (harmless_call rfl) fun _ => (harmless_throw _).bind fun _ =>
                hreplace

theorem harmless_running {user : ℕ} : Harmless (Supervisor.running user) := by
  unfold Supervisor.running
  refine harmless_holdingSlot (Harmless.bind (harmless_call rfl) fun found => ?_)
  cases found with
  | none => exact harmless_pure _
  | some r => exact Harmless.bind (harmless_call rfl) fun alive => harmless_pure _

theorem harmless_stop {user : ℕ} : Harmless (Supervisor.stop user) := by
  unfold Supervisor.stop
  refine harmless_holdingSlot (Harmless.bind (harmless_call rfl) fun found => ?_)
  cases found with
  | none => exact harmless_pure _
  | some r => exact Harmless.bind (harmless_call rfl) fun _ => harmless_call rfl

theorem harmless_recover {user : ℕ} : Harmless (Supervisor.recover user r) := by
  unfold Supervisor.recover
  refine Harmless.bind (harmless_call rfl) fun first => ?_
  cases first with
  | false => exact harmless_pure _
  | true =>
      refine Harmless.bind (Harmless.attempt (harmless_request rfl)) fun household => ?_
      cases household with
      | error e => exact harmless_call rfl
      | ok u =>
          refine Harmless.bind (harmless_holdingSlot ?_) fun _ =>
            harmless_runtime.attempt.bind fun _ => harmless_pure _
          refine Harmless.bind (harmless_call rfl) fun found => ?_
          cases found with
          | none => exact harmless_pure _
          | some current =>
              by_cases hr : current = r
              · simp only [hr, if_true]
                exact Harmless.bind (harmless_call rfl) fun _ => harmless_call rfl
              · simp only [hr, if_false]
                exact harmless_pure _

/-- Every call the gateway makes obeys, from what it is known to be made on. -/
theorem obeys_prog (job : Job) :
    discipline.Obeys (Phase.fresh job.server) job.prog fun _ _ => True := by
  cases job with
  | runtime user => exact obeys_discard (harmless_runtime _)
  | running user => exact obeys_discard (harmless_running _)
  | stop user => exact obeys_discard (harmless_stop _)
  | recover user failed => exact obeys_discard (harmless_recover _)
  | startThread r instructions grants => exact obeys_discard (obeys_startThread rfl)
  | resumeThread r threadId instructions grants => exact obeys_discard (obeys_resumeThread rfl)
  | isServed r threadId => exact obeys_discard (obeys_isServed rfl)
  | startTurn r threadId input context => exact obeys_discard (obeys_startTurn rfl)
  | steerTurn r threadId turnId input clientId context =>
      exact obeys_discard (obeys_steerTurn rfl)
  | interruptTurn r threadId turnId => exact obeys_discard (harmless_interruptTurn _)
  | watch r broken reports => exact obeys_discard (harmless_watch _)
  | watchEnd r => exact obeys_discard (harmless_watchEnd _)

end Obeys

end Bokkie.Serving
