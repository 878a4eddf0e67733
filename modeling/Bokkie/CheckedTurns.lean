import Bokkie.ServedThreads

/-!
# Turn requests and refusals

In every run of the calls of `Serving`, a turn request names a thread that passed its checks on the
app server it goes to. A refusal and a taint last until the gateway restarts, and hold back every
call that begins after them; a call that looked before can still send.
-/

namespace Bokkie.Serving

open Tasks Runs

section Invariant

variable {w w' : Supervisor} {e : Surroundings} {ps : List (Prog CodexCall Unit)}

/-- A step of the surroundings starts at most one call, on an app server known for what it is. -/
theorem surroundings_cases (h : surroundings w e = some (w', ps)) :
    Changes none w.servers w'.servers ∧ w'.journal = w.journal ∧ w'.latch = w.latch ∧
      (ps = [] ∨ ∃ job : Job, ps = [job.prog] ∧ ∀ r, job.server = some r → Knows w r) := by
  cases e with
  | call job =>
      simp only [surroundings] at h
      cases hjob : job.server with
      | none =>
          simp only [hjob] at h
          obtain ⟨rfl, rfl⟩ := Prod.mk.inj (Option.some.inj h)
          exact ⟨.none, rfl, rfl, .inr ⟨job, rfl, fun r hr => by simp [hjob] at hr⟩⟩
      | some r =>
          simp only [hjob] at h
          by_cases hknows : Knows w r
          · have hserver : ∀ r', job.server = some r' → Knows w r' := fun r' hr' => by
              obtain rfl : r = r' := Option.some.inj (hjob.symm.trans hr')
              exact hknows
            simp only [hknows, Bool.not_true, if_false, Bool.false_eq_true] at h
            split at h
            · split at h
              · obtain ⟨rfl, rfl⟩ := Prod.mk.inj (Option.some.inj h)
                exact ⟨.one _ _ (fun _ => ⟨rfl, rfl⟩) fun _ _ => .inl, rfl, rfl,
                  .inr ⟨job, rfl, hjob ▸ hserver⟩⟩
              · cases h
            · obtain ⟨rfl, rfl⟩ := Prod.mk.inj (Option.some.inj h)
              exact ⟨.none, rfl, rfl, .inr ⟨job, rfl, hjob ▸ hserver⟩⟩
          · simp [hknows] at h
  | takes request turn =>
      simp only [surroundings] at h
      split at h
      · obtain ⟨rfl, rfl⟩ := Prod.mk.inj (Option.some.inj h)
        exact ⟨.none, rfl, rfl, .inl rfl⟩
      · cases h
  | routed =>
      obtain ⟨rfl, rfl⟩ := Prod.mk.inj (Option.some.inj h)
      exact ⟨.none, rfl, rfl, .inl rfl⟩

theorem Knows.knowledge {job : Job} (h : ∀ r, job.server = some r → Knows w r) {i : ℕ} :
    Knowledge w i (Phase.fresh job.server) := by
  refine Knowledge.fresh fun r hr => ?_
  obtain ⟨server, hserver, hsame⟩ := Option.any_eq_true .. |>.mp (h r hr)
  exact ⟨server, hserver, by simpa using hsame⟩

theorem ServedPassed.surroundings (hJ : ServedPassed w)
    (hs : Changes none w.servers w'.servers) (hj : w'.journal = w.journal) :
    Grows w w' ∧ ServedPassed w' := by
  have hgrows : Grows w w' := ⟨⟨[], by rw [hj, List.append_nil]⟩, fun h => hs.kept h⟩
  refine ⟨hgrows, fun serial server entry hserver hentry => ?_⟩
  rcases hs.served hserver hentry with ⟨old, hold, hmem⟩ | hnone
  · exact hgrows.passed (hJ serial old entry hold hmem)
  · cases hnone

/-- The calls that a step of the surroundings starts obey, from what is known. -/
theorem surroundings_obeys (hps : ps = [] ∨ ∃ job : Job, ps = [job.prog] ∧
      ∀ r, job.server = some r → Knows w r) (hgrows : Grows w w') :
    ∃ ψs : List Phase, List.Forall₂ (fun φ p => discipline.Obeys φ p fun _ _ => True) ψs ps ∧
      ∀ (j : ℕ) ψ, ψs[j]? = some ψ → (∀ i, Knowledge w' i ψ) ∧ ∃ server, ψ = .fresh server := by
  rcases hps with rfl | ⟨job, rfl, hknows⟩
  · exact ⟨[], .nil, fun j ψ hψ => by simp at hψ⟩
  · refine ⟨[.fresh job.server], .cons (obeys_prog job) .nil, fun j ψ hψ => ?_⟩
    obtain rfl : ψ = .fresh job.server := List.mem_singleton.mp (List.mem_of_getElem? hψ)
    exact ⟨fun i => (Knows.knowledge hknows).mono hgrows, _, rfl⟩

theorem served_invariant :
    system.LocalInvariant discipline (fun _ => True) ServedPassed Knowledge where
  task := by
    intro w φs i φ β op choice r w' hJ hK hi hallowed h
    refine ⟨hJ.step (hK i φ hi) hallowed h, (hK i φ hi).step hJ hallowed h, fun j ψ _ hj => ?_⟩
    exact (hK j ψ hj).mono (answer_grows h)
  surroundings := by
    intro w φs e w' ps hJ hK h
    obtain ⟨hs, hj, -, hps⟩ := surroundings_cases h
    obtain ⟨hgrows, hJ'⟩ := hJ.surroundings hs hj
    obtain ⟨ψs, hobeys, hψs⟩ := surroundings_obeys hps hgrows
    exact ⟨ψs, hobeys, hJ', fun j ψ hj => (hK j ψ hj).mono hgrows, fun j ψ hj => (hψs j ψ hj).1 _⟩
  restart := by
    intro w w' ps hJ h
    obtain ⟨rfl, rfl⟩ := Prod.mk.inj (Option.some.inj h)
    refine ⟨[], .nil, fun serial server entry hserver hentry => ?_, fun j ψ hj => by simp at hj⟩
    simp only [Supervisor.restart, List.getElem?_map, Option.map_eq_some_iff] at hserver
    obtain ⟨old, -, rfl⟩ := hserver
    cases hentry

end Invariant

section Refusals

variable {w₀ w w' : Supervisor} {n i : ℕ} {φ : Phase} {β : Type} {op : CodexCall β}
  {choice : Choice} {r : β}

/-- What was refused or tainted in `w₀` still is. -/
structure Latched (w₀ w : Supervisor) : Prop where
  threads : ∀ user threadId, w.latch.threadRefusal user threadId = none →
    w₀.latch.threadRefusal user threadId = none
  tainted : w.latch.tainted = none → w₀.latch.tainted = none

theorem Latched.refl (w : Supervisor) : Latched w w := ⟨fun _ _ h => h, id⟩

theorem answer_latched (h : op.answer i choice w = some (r, w')) : Latched w w' := by
  have heq : ∀ {w' : Supervisor}, w'.latch = w.latch → Latched w w' := fun h =>
    ⟨fun _ _ hn => h ▸ hn, fun hn => h ▸ hn⟩
  cases op
  case taint reason =>
    obtain ⟨-, rfl⟩ := Prod.mk.inj (Option.some.inj h)
    exact ⟨fun _ _ h => h, fun h => by simp [Latch.taint] at h⟩
  case refuseThread user threadId reason =>
    obtain ⟨-, rfl⟩ := Prod.mk.inj (Option.some.inj h)
    refine ⟨fun u t h => ?_, fun h => h⟩
    simp only [Latch.refuseThread, Latch.threadRefusal, List.lookup_cons] at h ⊢
    split at h
    · cases h
    · exact h
  case configRead | threadStart | threadResume =>
    obtain ⟨a, -, he⟩ := Option.map_eq_some_iff.mp h
    obtain ⟨-, rfl⟩ := Prod.mk.inj he
    exact heq (by cases a <;> rfl)
  case initializeClient | modelList | accountLogout | turnInterrupt | ensureHousehold | inspect
      | makeLink =>
    obtain ⟨a, -, he⟩ := Option.map_eq_some_iff.mp h
    obtain ⟨-, rfl⟩ := Prod.mk.inj he
    exact heq rfl
  case turnStarted | turnSteered =>
    obtain ⟨a, -, he⟩ := Option.bind_eq_some_iff.mp h
    exact heq (by rw [(answerTurn_eq he).2]; rfl)
  case launch owner =>
    obtain ⟨a, -, he⟩ := Option.map_eq_some_iff.mp h
    rw [show w' = (w.launched owner a).2 from (congrArg Prod.snd he).symm]
    exact heq (by cases a <;> rfl)
  case lockSlot user => exact heq (by rw [(lockSlot_eq h).2])
  all_goals
    obtain ⟨-, rfl⟩ := Prod.mk.inj (Option.some.inj h)
    exact heq rfl

theorem Latched.trans (h : Latched w₀ w) (h' : Latched w w') : Latched w₀ w' :=
  ⟨fun u t hn => h.threads u t (h'.threads u t hn), fun hn => h.tainted (h'.tainted hn)⟩

/-- What a task that began after `w₀` found not refused was not refused in `w₀`. -/
structure Unrefused (w₀ : Supervisor) (φ : Phase) : Prop where
  threads : ∀ user threadId, φ.unrefused = some (user, threadId) →
    w₀.latch.threadRefusal user threadId = none
  tainted : φ.untainted = true → w₀.latch.tainted = none

theorem Unrefused.fresh (server : Option AppServer) : Unrefused w₀ (.fresh server) :=
  ⟨fun _ _ h => (by cases h), fun h => by cases h⟩

theorem Unrefused.step (hU : Unrefused w₀ φ) (hL : Latched w₀ w)
    (h : op.answer i choice w = some (r, w')) : Unrefused w₀ (φ.after op r) := by
  cases op
  case tainted =>
    obtain ⟨rfl, -⟩ := Prod.mk.inj (Option.some.inj h)
    exact ⟨hU.threads, fun hn => hL.tainted (by simpa [Phase.after] using hn)⟩
  case threadRefusal user threadId =>
    obtain ⟨rfl, -⟩ := Prod.mk.inj (Option.some.inj h)
    refine ⟨fun u t hn => hL.threads u t ?_, hU.tainted⟩
    simp only [Phase.after] at hn
    split at hn
    · next hnone =>
        obtain ⟨rfl, rfl⟩ := Prod.mk.inj (Option.some.inj hn)
        simpa using hnone
    · cases hn
  case configRead | threadStart | threadResume =>
    cases r <;> exact ⟨hU.threads, hU.tainted⟩
  case launch =>
    cases r with
    | ok r => exact Unrefused.fresh _
    | error e => exact hU
  all_goals exact ⟨hU.threads, hU.tainted⟩

theorem refusal_invariant (w₀ : Supervisor) (n : ℕ) :
    system.unbroken.LocalInvariant discipline (fun _ => True)
      (fun w => ServedPassed w ∧ Latched w₀ w)
      (fun w i φ => Knowledge w i φ ∧ (n ≤ i → Unrefused w₀ φ)) where
  task := by
    rintro w φs i φ β op choice r w' ⟨hJ, hL⟩ hK hi hallowed h
    obtain ⟨hJ', hK', hothers⟩ :=
      served_invariant.task hJ (fun j ψ hj => (hK j ψ hj).1) hi hallowed h
    refine ⟨⟨hJ', hL.trans (answer_latched h)⟩, ⟨hK', fun hn => ?_⟩, fun j ψ hij hj => ?_⟩
    · exact ((hK i φ hi).2 hn).step hL h
    · exact ⟨hothers j ψ hij hj, (hK j ψ hj).2⟩
  surroundings := by
    rintro w φs e w' ps ⟨hJ, hL⟩ hK h
    obtain ⟨hs, hj, hlatch, hps⟩ := surroundings_cases h
    obtain ⟨hgrows, hJ'⟩ := hJ.surroundings hs hj
    obtain ⟨ψs, hobeys, hψs⟩ := surroundings_obeys hps hgrows
    refine ⟨ψs, hobeys, ⟨hJ', ?_⟩, fun j ψ hj => ⟨(hK j ψ hj).1.mono hgrows, (hK j ψ hj).2⟩,
      fun j ψ hj => ⟨(hψs j ψ hj).1 _, fun _ => ?_⟩⟩
    · exact ⟨fun u t hn => hL.threads u t (hlatch ▸ hn), fun hn => hL.tainted (hlatch ▸ hn)⟩
    · obtain ⟨-, server, rfl⟩ := hψs j ψ hj
      exact Unrefused.fresh server
  restart := by
    intro w w' ps _ h
    cases h

end Refusals

theorem phase_of_sends {D : Discipline CodexCall Phase} {ends : Phase → Prop}
    {I : Supervisor → List Phase → Prop} {s : State} {i serial : ℕ} {threadId : String}
    (h : System.Holds D ends I s) (hsend : Sends s i serial threadId) :
    ∃ φs φ, φs[i]? = some φ ∧ I s.world φs ∧ ∃ (β : Type) (op : CodexCall β), D.allows φ op ∧
      op.turnOf = some (serial, threadId) := by
  obtain ⟨β, op, next, hi, hop⟩ := hsend
  obtain ⟨φs, φ, hφ, hallowed, hI⟩ := h.phase hi
  exact ⟨φs, φ, hφ, hI, β, op, hallowed, hop⟩

theorem Phase.Allows.maySend {φ : Phase} {β : Type} {op : CodexCall β} {serial : ℕ}
    {threadId : String} (h : φ.Allows op) (hop : op.turnOf = some (serial, threadId)) :
    φ.MaySend serial threadId := by
  cases op <;> cases hop <;> exact h

theorem holds_initial : System.Holds discipline (fun _ => True)
    (fun w φs => ServedPassed w ∧ ∀ (j : ℕ) ψ, φs[j]? = some ψ → Knowledge w j ψ) initial :=
  ⟨[], .nil, fun serial server entry h => by simp [initial, Supervisor.initial] at h,
    fun j ψ h => by simp at h⟩

/-- A turn request names a thread that passed its checks on the app server it goes to; and a request
of a call that began after `s` names one that was not refused in `s`, with Codex not tainted. -/
theorem turns_checked {s t : State} {as bs : List (Action Choice Surroundings)}
    (hs : Run (Steps system.step) initial as s) (ht : Run (Steps system.step) s bs t)
    (hbs : Action.restart ∉ bs) {i serial : ℕ} {threadId : String}
    (hsend : Sends t i serial threadId) :
    Passed t.world serial threadId ∧
      (s.tasks.length ≤ i → s.world.latch.tainted = none ∧
        ∀ server user, t.world.servers[serial]? = some server → server.owner = .user user →
          s.world.latch.threadRefusal user threadId = none) := by
  obtain ⟨φs, hobeys, hJ, hK⟩ := served_invariant.invariant.run hs holds_initial
  have hstart : System.Holds discipline (fun _ => True)
      (fun w φs => (ServedPassed w ∧ Latched s.world w) ∧ ∀ (j : ℕ) ψ, φs[j]? = some ψ →
        Knowledge w j ψ ∧ (s.tasks.length ≤ j → Unrefused s.world ψ)) s := by
    refine ⟨φs, hobeys, ⟨hJ, Latched.refl _⟩, fun j ψ hj => ⟨hK j ψ hj, fun hle => ?_⟩⟩
    -- the calls of `s` itself have indices below
    have hlt : j < φs.length := (List.getElem?_eq_some_iff.mp hj).1
    have hlength := hobeys.length_eq
    omega
  have hend := (refusal_invariant s.world s.tasks.length).invariant.run
    (System.run_unbroken ht hbs) hstart
  obtain ⟨φs, φ, hφ, ⟨-, hK⟩, β, op, hallowed, hop⟩ := phase_of_sends hend hsend
  obtain ⟨hknown, hlate⟩ := hK i φ hφ
  obtain ⟨r, user, hr, rfl, howner, huntainted, hunrefused, hgranted⟩ :=
    Phase.Allows.maySend hallowed hop
  obtain ⟨r', hr', hpassed⟩ := hknown.granted threadId hgranted
  obtain rfl : r = r' := Option.some.inj (hr.symm.trans hr')
  refine ⟨hpassed, fun hi => ⟨(hlate hi).tainted huntainted, fun server u hserver hu => ?_⟩⟩
  obtain ⟨server', hserver', howner', -⟩ := hknown.server r hr
  obtain rfl : server = server' := Option.some.inj (hserver.symm.trans hserver')
  obtain rfl : u = user := by simpa [hu, howner] using howner'
  exact (hlate hi).threads u threadId hunrefused

section Example

def goodConfig : Json :=
  .obj [("default_permissions", .str "bokkie"), ("approval_policy", .str "never"),
    ("web_search", .str "disabled"), ("model_catalog_json", .str "/data/models.json"),
    ("project_doc_max_bytes", .int 0), ("cli_auth_credentials_store", .str "file"),
    ("features", .obj (ServeChecks.disabledFeatures.map (·, .bool false))),
    ("permissions", .obj [("bokkie", .obj [
      ("filesystem", .obj [("/data", .str "deny"), (":minimal", .str "read"),
        (":workspace_roots", .str "write")]),
      ("network", .obj [("enabled", .bool false)])])])]

def goodExpected : Expected := ⟨"/data", "/data/models.json", ["gpt"], "/data/users/1/workspace"⟩

def goodSession : ThreadSession :=
  ⟨"thread", "gpt", "/data/users/1/workspace", .str "never", some ⟨"bokkie", none⟩⟩

/-- The app server of user 1. -/
def goodServer : AppServer := ⟨0, .user 1, goodExpected⟩

def noInstructions : Instructions := ⟨"", "", "", "", ∅⟩

/-- An app server is started for user 1, a thread is served on it, and a turn is to start there:
its call has looked, and has yet to send. -/
def served : List (Action Choice Surroundings) :=
  [.surroundings (.call (.runtime 1)), .task 0 .none, .task 0 (.unit (.ok ())), .task 0 .none,
    .task 0 .none, .task 0 (.auth (.ok .link)), .task 0 (.launch (.ok goodExpected)),
    .task 0 (.unit (.ok ())), .task 0 (.config (.ok goodConfig)), .task 0 (.models (.ok ["gpt"])),
    .task 0 .none, .task 0 .none,
    .surroundings (.call (.startThread goodServer noInstructions ∅)), .task 1 .none,
    .task 1 (.config (.ok goodConfig)), .task 1 (.thread (.ok goodSession)), .task 1 .none,
    .surroundings (.call (.startTurn goodServer "thread" "Hello" none)), .task 2 .none,
    .task 2 .none, .task 2 .none]

/-- The watcher then sees a broken rule on the thread. -/
def refused : List (Action Choice Surroundings) :=
  [.surroundings (.call (.watch goodServer (some (some "thread", "the model ran a command")) [])),
    .task 3 .none, .task 3 .none, .task 3 .none, .task 3 .none]

/-- The turn request a program is about to send. -/
def nextTurn : Prog CodexCall Unit → Option (ℕ × String)
  | .call op _ => op.turnOf
  | .pure _ => none

theorem sends_of_nextTurn {s : State} {i serial : ℕ} {threadId : String}
    (h : (s.tasks[i]?).bind nextTurn = some (serial, threadId)) : Sends s i serial threadId := by
  obtain ⟨p, hp, hnext⟩ := Option.bind_eq_some_iff.mp h
  cases p with
  | pure a => cases hnext
  | call op next => exact ⟨_, op, next, hp, hnext⟩

/-- A call that looked before its thread was refused and Codex tainted still sends its request. -/
theorem sent_once_refused : ∃ s, exec system.step initial (served ++ refused) = some s ∧
    Sends s 2 0 "thread" ∧ s.world.latch.threadRefusal 1 "thread" ≠ none ∧
    s.world.latch.tainted ≠ none := by
  have h : (exec system.step initial (served ++ refused)).map (fun s =>
      ((s.tasks[2]?).bind nextTurn, (s.world.latch.threadRefusal 1 "thread").isSome,
        s.world.latch.tainted.isSome)) = some (some (0, "thread"), true, true) := by
    decide +kernel
  obtain ⟨s, hs, he⟩ := Option.map_eq_some_iff.mp h
  obtain ⟨hnext, hrest⟩ := Prod.mk.inj he
  obtain ⟨hrefused, htainted⟩ := Prod.mk.inj hrest
  exact ⟨s, hs, sends_of_nextTurn hnext, Option.isSome_iff_ne_none.mp hrefused,
    Option.isSome_iff_ne_none.mp htainted⟩

/-- A turn is to start on the same thread once more. -/
def startedLate : List (Action Choice Surroundings) :=
  [.surroundings (.call (.startTurn goodServer "thread" "Again" none)), .task 4 .none]

/-- The thread that a request names passed its checks, and a call that begins after the refusal sends
none. -/
theorem turns_checked_served : ∃ s t u, exec system.step initial served = some s ∧
    Sends s 2 0 "thread" ∧ Passed s.world 0 "thread" ∧
    exec system.step initial (served ++ refused) = some t ∧ exec system.step t startedLate = some u ∧
    u.tasks.length = 5 ∧ ∀ serial threadId, ¬ Sends u 4 serial threadId := by
  have h : (exec system.step initial served).map (fun s => (s.tasks[2]?).bind nextTurn) =
      some (some (0, "thread")) := by decide +kernel
  have h' : (exec system.step initial (served ++ refused)).any (fun t =>
      decide (t.tasks.length = 4) && t.world.latch.tainted.isSome &&
        (exec system.step t startedLate).any fun u => decide (u.tasks.length = 5)) = true := by
    decide +kernel
  obtain ⟨s, hs, he⟩ := Option.map_eq_some_iff.mp h
  obtain ⟨t, ht, hlate⟩ := Option.any_eq_true .. |>.mp h'
  obtain ⟨hstate, hnext⟩ := Bool.and_eq_true_iff.mp hlate
  obtain ⟨hlength, htainted⟩ := Bool.and_eq_true_iff.mp hstate
  obtain ⟨u, hu, hcalls⟩ := Option.any_eq_true .. |>.mp hnext
  have hsend : Sends s 2 0 "thread" := sends_of_nextTurn he
  refine ⟨s, t, u, hs, hsend, (turns_checked (run_of_exec hs) .nil (by simp) hsend).1, ht, hu,
    of_decide_eq_true hcalls, fun serial threadId hsend' => ?_⟩
  have hnone := ((turns_checked (run_of_exec ht) (run_of_exec hu) (by simp [startedLate])
    hsend').2 (of_decide_eq_true hlength).le).1
  rw [hnone] at htainted
  cases htainted

end Example

end Bokkie.Serving
