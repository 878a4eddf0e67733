import Bokkie.ServingDiscipline

/-!
# Served threads have passed their checks

What every call keeps: a thread served on an app server passed its checks there, what a task knows
is so, and a refusal lasts as long as the gateway runs.
-/

namespace Bokkie.Serving

open Tasks Codex ServeChecks

/-- `w'` comes after `w`: the journal is longer, and an app server is what it was started as. -/
structure Grows (w w' : Supervisor) : Prop where
  journal : ∃ l, w'.journal = w.journal ++ l
  servers : ∀ {serial : ℕ} {server}, w.servers[serial]? = some server →
    ∃ server', w'.servers[serial]? = some server' ∧ server'.owner = server.owner ∧
      server'.expected = server.expected

/-- What a call does to the app servers: nothing, or it changes one, keeping what that was started
as, or it adds one that serves nothing. `serves` is the thread it serves from then on. -/
inductive Changes (serves : Option (ℕ × String)) (servers : List ServerState) :
    List ServerState → Prop
  | none : Changes serves servers servers
  | one (serial : ℕ) (f : ServerState → ServerState)
      (hf : ∀ server, (f server).owner = server.owner ∧ (f server).expected = server.expected)
      (hserved : ∀ server entry, entry ∈ (f server).served →
        entry ∈ server.served ∨ serves = some (serial, entry.1)) :
      Changes serves servers (servers.modify serial f)
  | add (server : ServerState) (hserved : server.served = []) :
      Changes serves servers (servers ++ [server])

namespace Changes

variable {serves : Option (ℕ × String)} {servers servers' : List ServerState}

theorem kept (h : Changes serves servers servers') {serial : ℕ} {server : ServerState}
    (hserver : servers[serial]? = some server) :
    ∃ server', servers'[serial]? = some server' ∧ server'.owner = server.owner ∧
      server'.expected = server.expected := by
  cases h with
  | none => exact ⟨server, hserver, rfl, rfl⟩
  | one changed f hf =>
      rw [List.getElem?_modify, hserver]
      by_cases hi : changed = serial
      · exact ⟨f server, by simp [hi], hf server⟩
      · exact ⟨server, by simp [hi], rfl, rfl⟩
  | add added =>
      have hlt : serial < servers.length := (List.getElem?_eq_some_iff.mp hserver).1
      exact ⟨server, by rwa [List.getElem?_append_left hlt], rfl, rfl⟩

/-- A thread that is served was served before, or is the one that is served from then on. -/
theorem served (h : Changes serves servers servers') {serial : ℕ} {server' : ServerState}
    {entry : String × GrantSet} (hserver : servers'[serial]? = some server')
    (hentry : entry ∈ server'.served) :
    (∃ server, servers[serial]? = some server ∧ entry ∈ server.served) ∨
      serves = some (serial, entry.1) := by
  cases h with
  | none => exact .inl ⟨server', hserver, hentry⟩
  | one changed f hf hserved =>
      rw [List.getElem?_modify] at hserver
      obtain ⟨server, hget, hserver⟩ := Option.map_eq_some_iff.mp hserver
      by_cases hi : changed = serial
      · simp only [hi, if_true] at hserver
        subst hserver
        refine (hserved server entry hentry).imp (fun h => ⟨server, hget, h⟩) ?_
        exact fun h => hi ▸ h
      · simp only [hi, if_false] at hserver
        exact .inl ⟨server, hget, hserver ▸ hentry⟩
  | add added hadded =>
      by_cases hlt : serial < servers.length
      · rw [List.getElem?_append_left hlt] at hserver
        exact .inl ⟨server', hserver, hentry⟩
      · rw [List.getElem?_append_right (by omega)] at hserver
        obtain rfl : server' = added := List.mem_singleton.mp (List.mem_of_getElem? hserver)
        simp [hadded] at hentry

end Changes

section Answer

variable {β : Type} {op : CodexCall β} {choice : Choice} {i : ℕ} {r : β} {w w' : Supervisor}

theorem answerTurn_eq {request : ℕ} {answer res : Except CodexError String}
    (h : w.answerTurn request answer = some (res, w')) :
    res = answer ∧ w' = w.modifyRequest request fun sent => { sent with answer := some answer } := by
  unfold Supervisor.answerTurn at h
  cases hsent : w.requests[request]? with
  | none => simp [hsent] at h
  | some sent =>
      simp only [hsent, Option.bind_eq_bind, Option.bind_some] at h
      split at h
      · obtain ⟨rfl, rfl⟩ := Prod.mk.inj (Option.some.inj h)
        exact ⟨rfl, rfl⟩
      · cases h

theorem lockSlot_eq {user : ℕ} {res : Unit}
    (h : (CodexCall.lockSlot user).answer i choice w = some (res, w')) :
    w.slotHolders.lookup user = none ∧
      w' = { w with slotHolders := (user, i) :: w.slotHolders } := by
  simp only [CodexCall.answer] at h
  split at h
  · next hfree => exact ⟨by simpa using hfree, (congrArg Prod.snd (Option.some.inj h)).symm⟩
  · cases h

theorem record_servers {α : Type} {exchange : α → Exchange} {answer : Except CodexError α} :
    (w.record exchange answer).servers = w.servers ∧
      ∃ l, (w.record exchange answer).journal = w.journal ++ l := by
  cases answer with
  | ok a => exact ⟨rfl, [exchange a], rfl⟩
  | error e => exact ⟨rfl, [], (List.append_nil _).symm⟩

theorem launched_servers {owner : Owner} {answer : Except CodexError Expected} :
    Changes none w.servers (w.launched owner answer).2.servers ∧
      (w.launched owner answer).2.journal = w.journal := by
  cases answer with
  | ok expected => exact ⟨.add _ rfl, rfl⟩
  | error e => exact ⟨.none, rfl⟩

/-- What any call does to the app servers and the journal. -/
theorem answer_changes (h : op.answer i choice w = some (r, w')) :
    Changes op.serves w.servers w'.servers ∧ ∃ l, w'.journal = w.journal ++ l := by
  have hnil : ∃ l, w.journal = w.journal ++ l := ⟨[], (List.append_nil _).symm⟩
  cases op
  case configRead | threadStart | threadResume =>
    obtain ⟨a, -, he⟩ := Option.map_eq_some_iff.mp h
    obtain ⟨-, rfl⟩ := Prod.mk.inj he
    exact ⟨record_servers.1 ▸ .none, record_servers.2⟩
  case initializeClient | modelList | accountLogout | turnInterrupt | ensureHousehold | inspect
      | makeLink =>
    obtain ⟨a, -, he⟩ := Option.map_eq_some_iff.mp h
    obtain ⟨-, rfl⟩ := Prod.mk.inj he
    exact ⟨.none, hnil⟩
  case turnStarted | turnSteered =>
    obtain ⟨a, -, he⟩ := Option.bind_eq_some_iff.mp h
    rw [(answerTurn_eq he).2]
    exact ⟨.none, hnil⟩
  case launch owner =>
    obtain ⟨a, -, he⟩ := Option.map_eq_some_iff.mp h
    rw [show w' = (w.launched owner a).2 from (congrArg Prod.snd he).symm]
    exact ⟨launched_servers.1, launched_servers.2.symm ▸ hnil⟩
  case lockSlot user =>
    rw [(lockSlot_eq h).2]
    exact ⟨.none, hnil⟩
  case stop | watched =>
    obtain ⟨-, rfl⟩ := Prod.mk.inj (Option.some.inj h)
    exact ⟨.one _ _ (fun _ => ⟨rfl, rfl⟩) fun _ _ => .inl, hnil⟩
  case unserve serial threadId =>
    obtain ⟨-, rfl⟩ := Prod.mk.inj (Option.some.inj h)
    exact ⟨.one _ _ (fun _ => ⟨rfl, rfl⟩) fun _ _ h => .inl (List.mem_filter.mp h).1, hnil⟩
  case serve serial threadId grants =>
    obtain ⟨-, rfl⟩ := Prod.mk.inj (Option.some.inj h)
    refine ⟨.one _ _ (fun _ => ⟨rfl, rfl⟩) fun _ entry h => ?_, hnil⟩
    rcases List.mem_cons.mp h with rfl | h
    · exact .inr rfl
    · exact .inl h
  all_goals
    obtain ⟨-, rfl⟩ := Prod.mk.inj (Option.some.inj h)
    exact ⟨.none, hnil⟩

theorem answer_grows (h : op.answer i choice w = some (r, w')) : Grows w w' :=
  ⟨(answer_changes h).2, fun hserver => (answer_changes h).1.kept hserver⟩

end Answer

section Knowledge

variable {w w' : Supervisor} {i serial : ℕ} {threadId : String} {φ : Phase}

/-- One call's answers: the app server's configuration, and later a thread. -/
def Exchanged (w : Supervisor) (i serial : ℕ) (config : Json) (session : ThreadSession) : Prop :=
  ∃ before after, w.journal = before ++ after ∧ .config i serial config ∈ before ∧
    ((∃ grants, .started i serial grants session ∈ after) ∨ .resumed i serial session ∈ after)

theorem Grows.exchanged (h : Grows w w') {config : Json} {session : ThreadSession}
    (he : Exchanged w i serial config session) : Exchanged w' i serial config session := by
  obtain ⟨before, after, hj, hconfig, hsession⟩ := he
  obtain ⟨l, hl⟩ := h.journal
  refine ⟨before, after ++ l, by rw [hl, hj, List.append_assoc], hconfig, ?_⟩
  exact hsession.imp (fun ⟨grants, hg⟩ => ⟨grants, List.mem_append_left _ hg⟩)
    (List.mem_append_left _)

theorem Grows.passed (h : Grows w w') (hp : Passed w serial threadId) :
    Passed w' serial threadId := by
  obtain ⟨server, i, config, session, before, after, hserver, hj, hconfig, hsession, hchecks⟩ := hp
  obtain ⟨server', hserver', -, hexpected⟩ := h.servers hserver
  obtain ⟨before, after, hj, hconfig, hsession⟩ := h.exchanged ⟨before, after, hj, hconfig, hsession⟩
  exact ⟨server', i, config, session, before, after, hserver', hj, hconfig, hsession,
    hexpected ▸ hchecks⟩

/-- What a task in phase `φ` knows is so. -/
structure Knowledge (w : Supervisor) (i : ℕ) (φ : Phase) : Prop where
  server : ∀ r, φ.server = some r → ∃ server, w.servers[r.serial]? = some server ∧
    server.owner = r.owner ∧ server.expected = r.expected
  config : ∀ config, φ.config = some config →
    ∃ r, φ.server = some r ∧ .config i r.serial config ∈ w.journal
  session : ∀ session, φ.session = some session → ∃ r config, φ.server = some r ∧
    φ.config = some config ∧ Exchanged w i r.serial config session
  granted : ∀ threadId, φ.granted = some threadId →
    ∃ r, φ.server = some r ∧ Passed w r.serial threadId

theorem Knowledge.fresh {server : Option AppServer}
    (h : ∀ r, server = some r → ∃ s, w.servers[r.serial]? = some s ∧ s.owner = r.owner ∧
      s.expected = r.expected) : Knowledge w i (Phase.fresh server) where
  server := h
  config _ h := by cases h
  session _ h := by cases h
  granted _ h := by cases h

theorem Knowledge.mono (h : Grows w w') (hK : Knowledge w i φ) : Knowledge w' i φ where
  server r hr := by
    obtain ⟨server, hserver, howner, hexpected⟩ := hK.server r hr
    obtain ⟨server', hserver', howner', hexpected'⟩ := h.servers hserver
    exact ⟨server', hserver', howner'.trans howner, hexpected'.trans hexpected⟩
  config config hc := by
    obtain ⟨r, hr, hmem⟩ := hK.config config hc
    obtain ⟨l, hl⟩ := h.journal
    exact ⟨r, hr, hl ▸ List.mem_append_left _ hmem⟩
  session session hs := by
    obtain ⟨r, config, hr, hc, he⟩ := hK.session session hs
    exact ⟨r, config, hr, hc, h.exchanged he⟩
  granted threadId ht := by
    obtain ⟨r, hr, hp⟩ := hK.granted threadId ht
    exact ⟨r, hr, h.passed hp⟩

/-- A thread that an app server answers with, after the configuration the task has read. -/
theorem Knowledge.exchanged (hK : Knowledge w i φ) {server : AppServer} {config : Json}
    {session : ThreadSession} (hserver : φ.server = some server) (hconfig : φ.config = some config)
    (exchange : Exchange) (hexchange : (∃ grants, exchange =
      .started i server.serial grants session) ∨ exchange = .resumed i server.serial session) :
    Exchanged { w with journal := w.journal ++ [exchange] } i server.serial config session := by
  obtain ⟨r, hr, hmem⟩ := hK.config config hconfig
  obtain rfl : server = r := Option.some.inj (hserver.symm.trans hr)
  refine ⟨w.journal, [exchange], rfl, hmem, ?_⟩
  exact hexchange.imp (fun ⟨grants, h⟩ => ⟨grants, by simp [h]⟩) fun h => by simp [h]

theorem Knowledge.load (hK : Knowledge w i φ) {server : AppServer} {config : Json}
    {session : ThreadSession} (hserver : φ.server = some server) (hconfig : φ.config = some config)
    (he : Exchanged w i server.serial config session) :
    Knowledge w i { φ with session := some session } where
  server := hK.server
  config := hK.config
  session s hs := by
    obtain rfl : session = s := Option.some.inj hs
    exact ⟨server, config, hserver, hconfig, he⟩
  granted := hK.granted

/-- A thread loaded by a task that checked it and the configuration has passed. -/
theorem Knowledge.passed (hK : Knowledge w i φ) (h : φ.Loaded serial threadId) :
    Passed w serial threadId := by
  obtain ⟨r, config, session, hr, rfl, hconfig, hsession, hchecked, hthread, hid⟩ := h
  obtain ⟨server, hserver, -, hexpected⟩ := hK.server r hr
  obtain ⟨r', config', hr', hconfig', before, after, hj, hmem, hloaded⟩ := hK.session session hsession
  obtain rfl : r = r' := Option.some.inj (hr.symm.trans hr')
  obtain rfl : config = config' := Option.some.inj (hconfig.symm.trans hconfig')
  exact ⟨server, i, config, session, before, after, hserver, hj, hmem, hloaded,
    hexpected ▸ hchecked, hexpected ▸ hthread, hid⟩

/-- Every thread served on an app server has passed its checks there. -/
def ServedPassed (w : Supervisor) : Prop :=
  ∀ (serial : ℕ) server entry, w.servers[serial]? = some server → entry ∈ server.served →
    Passed w serial entry.1

end Knowledge

section Step

variable {β : Type} {op : CodexCall β} {choice : Choice} {i : ℕ} {r : β} {w w' : Supervisor}
  {φ : Phase}

theorem Phase.Allows.loaded {serial : ℕ} {threadId : String} (h : φ.Allows op)
    (hs : op.serves = some (serial, threadId)) : φ.Loaded serial threadId := by
  cases op <;> cases hs
  exact h

theorem ServedPassed.step (hJ : ServedPassed w) (hK : Knowledge w i φ) (hallowed : φ.Allows op)
    (h : op.answer i choice w = some (r, w')) : ServedPassed w' := by
  intro serial server entry hserver hentry
  rcases (answer_changes h).1.served hserver hentry with ⟨old, hold, hmem⟩ | hserves
  · exact (answer_grows h).passed (hJ serial old entry hold hmem)
  · exact (answer_grows h).passed (hK.passed (hallowed.loaded hserves))

theorem threadGrants_served {serial : ℕ} {threadId : String} {grants : GrantSet}
    (h : w.threadGrants serial threadId = some grants) :
    ∃ server, w.servers[serial]? = some server ∧ (threadId, grants) ∈ server.served := by
  obtain ⟨server, hserver, hlookup⟩ := Option.bind_eq_some_iff.mp h
  obtain ⟨l₁, l₂, he, -⟩ := List.lookup_eq_some_iff.mp hlookup
  exact ⟨server, hserver, by simp [he]⟩

/-- A task learns only what is so. -/
theorem Knowledge.step (hK : Knowledge w i φ) (hJ : ServedPassed w) (hallowed : φ.Allows op)
    (h : op.answer i choice w = some (r, w')) : Knowledge w' i (φ.after op r) := by
  have hgrows := answer_grows h
  have hK' := hK.mono hgrows
  cases op
  case configRead serial =>
    cases r with
    | error e => exact hK'
    | ok config =>
        obtain ⟨a, -, he⟩ := Option.map_eq_some_iff.mp h
        obtain ⟨rfl, rfl⟩ := Prod.mk.inj he
        obtain ⟨r, hr, rfl⟩ := hallowed
        refine ⟨hK'.server, fun c hc => ⟨r, hr, ?_⟩, (fun _ hs => by cases hs), hK'.granted⟩
        obtain rfl : config = c := Option.some.inj hc
        exact List.mem_append_right _ (List.mem_singleton_self _)
  case threadStart serial instructions grants =>
    obtain ⟨a, -, he⟩ := Option.map_eq_some_iff.mp h
    obtain ⟨rfl, rfl⟩ := Prod.mk.inj he
    obtain ⟨server, config, hserver, rfl, hconfig, -⟩ := hallowed
    cases a with
    | error e => exact hK'
    | ok session =>
        exact hK'.load hserver hconfig (hK.exchanged hserver hconfig
          (.started i server.serial grants session) (.inl ⟨grants, rfl⟩))
  case threadResume serial threadId instructions grants =>
    obtain ⟨a, -, he⟩ := Option.map_eq_some_iff.mp h
    obtain ⟨rfl, rfl⟩ := Prod.mk.inj he
    obtain ⟨server, config, hserver, rfl, hconfig, -⟩ := hallowed
    cases a with
    | error e => exact hK'
    | ok session =>
        exact hK'.load hserver hconfig (hK.exchanged hserver hconfig
          (.resumed i server.serial session) (.inr rfl))
  case threadGrants serial threadId =>
    obtain ⟨rfl, rfl⟩ := Prod.mk.inj (Option.some.inj h)
    obtain ⟨r, hr, rfl⟩ := hallowed
    refine ⟨hK.server, hK.config, hK.session, fun t ht => ⟨_, hr, ?_⟩⟩
    cases hgrants : w.threadGrants r.serial threadId with
    | none => simp [Phase.after, hgrants] at ht
    | some grants =>
        obtain rfl : threadId = t := by simpa [Phase.after, hgrants] using ht
        obtain ⟨server, hserver, hmem⟩ := threadGrants_served hgrants
        exact hJ _ _ _ hserver hmem
  case launch owner =>
    cases r with
    | error e => exact hK'
    | ok r =>
        obtain ⟨answer, -, he⟩ := Option.map_eq_some_iff.mp h
        cases answer with
        | error e => cases congrArg Prod.fst he
        | ok expected =>
            obtain ⟨hr, rfl⟩ := Prod.mk.inj he
            obtain rfl : _ = r := Except.ok.inj hr
            refine Knowledge.fresh fun r' hr' => ?_
            obtain rfl : _ = r' := Option.some.inj hr'
            exact ⟨⟨owner, expected, true, [], true, false⟩, by simp, rfl, rfl⟩
  all_goals exact ⟨hK'.server, hK'.config, hK'.session, hK'.granted⟩

end Step

end Bokkie.Serving
