import Bokkie.TaskHistories
import Bokkie.WebFetch

/-!
# Fetching from public addresses only

What a `web_fetch` does on the network, wherever it stops and whatever the servers and the resolver
answer. Each thing it does is judged by what it did before: the request it belongs to is the last one
begun.
-/

open Tasks

namespace Bokkie.Http

inductive Event where
  | request (url : Url)
  | resolved (host : String) (port : ℕ) (answer : Option (List IpAddr))
  | connected (address : IpAddr) (port : ℕ) (connected : Bool)
  | exchanged (outgoing : Outgoing) (response : Except String Response)
  /-- What is not done on a network, or on a connection already made. -/
  | other

def tell : {β : Type} → Net β → β → Event
  | _, .request url, _ => .request url
  | _, .resolve host port, answer => .resolved host port answer
  | _, .connect address port, connected => .connected address port connected
  | _, .exchange outgoing _, response => .exchanged outgoing response
  | _, .reserve, _ | _, .handshake _, _ | _, .convert, _ => .other

namespace Event

def isRequest : Event → Bool
  | .request _ => true
  | _ => false

def isExchange : Event → Bool
  | .exchanged _ _ => true
  | _ => false

end Event

/-- The events since the last request for a link began. -/
def Since (past : List Event) (url : Url) (since : List Event) : Prop :=
  ∃ before, past = before ++ .request url :: since ∧ ∀ e ∈ since, e.isRequest = false

/-- The addresses that a link's host has: its own, or those in an answer obtained since. -/
inductive HostAddresses (url : Url) (since : List Event) : List IpAddr → Prop
  | ipv4 {address : Ipv4Addr} : url.host = some (.ipv4 address) →
      HostAddresses url since [.v4 address]
  | ipv6 {address : Ipv6Addr} : url.host = some (.ipv6 address) →
      HostAddresses url since [.v6 address]
  | domain {name : String} {port : ℕ} {answer : List IpAddr} : url.host = some (.domain name) →
      .resolved name port (some answer) ∈ since → HostAddresses url since answer

/-- The message is a fetch's request for the link: its path and query, asked of its host. -/
def Asks (url : Url) (message : Outgoing) : Prop :=
  ∃ host, url.host = some host ∧
    message = outgoing { Request.get url with headers := [("accept", ACCEPT)] } host

/-- What may happen after what has happened. -/
def Rule : List Event → Event → Prop
  | past, .request url => past.countP Event.isRequest < MAX_REDIRECTS + 1 ∧ check url = .ok ()
  | past, .connected address port _ => ∃ url since answer, Since past url since ∧
      url.portOrKnownDefault = some port ∧ HostAddresses url since answer ∧ address ∈ answer ∧
      ∀ a ∈ answer, Public a
  | past, .exchanged message _ => ∃ url since address port, Since past url since ∧
      .connected address port true ∈ since ∧ (∀ e ∈ since, e.isExchange = false) ∧ Asks url message
  | _, .resolved _ _ _ | _, .other => True

abbrev rules : Discipline Net (List Event) := Discipline.ofRule tell Rule

section Requests

variable {α ε : Type} {past since : List Event} {url : Url} {n : ℕ}

/-- A request for the link is the last begun, of so many, and nothing has been exchanged for it. -/
structure Begun (n : ℕ) (url : Url) (since past : List Event) : Prop where
  last : Since past url since
  unexchanged : ∀ e ∈ since, e.isExchange = false
  count : past.countP Event.isRequest = n

theorem Begun.snoc (h : Begun n url since past) {e : Event} (hrequest : e.isRequest = false)
    (hexchange : e.isExchange = false) : Begun n url (since ++ [e]) (past ++ [e]) where
  last := by
    obtain ⟨before, rfl, hsince⟩ := h.last
    refine ⟨before, by simp, fun e' he' => ?_⟩
    rcases List.mem_append.mp he' with hold | hnew
    · exact hsince e' hold
    · rwa [List.mem_singleton.mp hnew]
  unexchanged := by
    intro e' he'
    rcases List.mem_append.mp he' with hold | hnew
    · exact h.unexchanged e' hold
    · rwa [List.mem_singleton.mp hnew]
  count := by simp [List.countP_append, h.count, hrequest]

theorem obeys_call {op : Net α} {Q : Except ε α → List Event → Prop} :
    rules.Obeys past (call op : Work ε α).run Q ↔
      (∀ r, Rule past (tell op r)) ∧ ∀ r, Q (.ok r) (past ++ [tell op r]) := by
  rw [call, Discipline.obeys_runLift]
  exact Iff.rfl

/-- A partial value is had, or nothing is done. -/
theorem obeys_orThrow {value : Option α} {e : ε} {Q : Except ε α → List Event → Prop}
    (hsome : ∀ a, value = some a → Q (.ok a) past) (hnone : Q (.error e) past) :
    rules.Obeys past (orThrow value e : Work ε α).run Q := by
  unfold orThrow
  cases value with
  | none => exact hnone
  | some a => exact hsome a rfl

theorem HostAddresses.mono {later : List Event} {answer : List IpAddr}
    (h : HostAddresses url since answer) (hsub : since ⊆ later) :
    HostAddresses url later answer := by
  cases h with
  | ipv4 hhost => exact .ipv4 hhost
  | ipv6 hhost => exact .ipv6 hhost
  | domain hhost hanswer => exact .domain hhost (hsub hanswer)

/-- The addresses of the link's host, which are all public. -/
def CheckedAddresses (url : Url) (since : List Event) (found : List IpAddr) : Prop :=
  ∃ answer, HostAddresses url since answer ∧ (∀ a ∈ found, a ∈ answer) ∧ ∀ a ∈ answer, Public a

/-- A host's own address is checked as it stands, and a name's are those of the answer. -/
theorem obeys_hostAddresses (h : Begun n url since past) {host : Host} (hhost : url.host = some host)
    (port : ℕ) :
    rules.Obeys past (hostAddresses host port).run fun r past' => ∃ since', Begun n url since' past' ∧
      ∀ found, r = .ok found →
        ∃ answer, HostAddresses url since' answer ∧ ∀ a, a ∈ found ↔ a ∈ answer := by
  cases host with
  | ipv4 address =>
      refine ⟨since, h, fun found hfound => ⟨_, .ipv4 hhost, fun a => ?_⟩⟩
      rw [← Except.ok.inj hfound]
  | ipv6 address =>
      refine ⟨since, h, fun found hfound => ⟨_, .ipv6 hhost, fun a => ?_⟩⟩
      rw [← Except.ok.inj hfound]
  | domain name =>
      unfold hostAddresses resolve
      dsimp only
      rw [Discipline.obeys_runBind, obeys_call]
      refine ⟨fun _ => trivial, fun answer => ?_⟩
      have hbegun : Begun n url (since ++ [.resolved name port answer])
          (past ++ [.resolved name port answer]) := h.snoc rfl rfl
      cases answer with
      | none => exact ⟨_, hbegun, nofun⟩
      | some answer =>
          have hanswer : .resolved name port (some answer) ∈
              since ++ [.resolved name port (some answer)] :=
            List.mem_append_right _ (List.mem_singleton_self _)
          refine ⟨_, hbegun, fun found hfound => ⟨answer, .domain hhost hanswer, fun a => ?_⟩⟩
          rw [← Except.ok.inj hfound, List.mem_eraseDups]

theorem obeys_addresses (h : Begun n url since past) :
    rules.Obeys past (addresses url).run fun r past' => ∃ since', Begun n url since' past' ∧
      ∀ found, r = .ok found → CheckedAddresses url since' found := by
  unfold addresses
  rw [Discipline.obeys_runBind]
  refine obeys_orThrow (fun port hport => ?_) ⟨since, h, nofun⟩
  dsimp only
  rw [Discipline.obeys_runBind]
  refine obeys_orThrow (fun host hhost => ?_) ⟨since, h, nofun⟩
  dsimp only
  refine (obeys_hostAddresses h hhost port).runBind ?_ ?_
  · rintro found past' ⟨since', hbegun, hfound⟩
    obtain ⟨answer, hhostAddresses, hmem⟩ := hfound found rfl
    split
    · exact ⟨since', hbegun, nofun⟩
    · split
      · exact ⟨since', hbegun, nofun⟩
      · next hpublic =>
          refine ⟨since', hbegun, fun found' heq => ?_⟩
          rw [← Except.ok.inj heq]
          refine ⟨answer, hhostAddresses, fun a => (hmem a).mp, fun a ha => ?_⟩
          rw [List.any_eq_true] at hpublic
          by_contra hnot
          refine hpublic ⟨a, (hmem a).mpr ha, ?_⟩
          rw [Bool.not_eq_true', ← Bool.not_eq_true, isPublic_iff]
          exact hnot
  · rintro e past' ⟨since', hbegun, -⟩
    exact ⟨since', hbegun, nofun⟩

/-- Each connection is to a checked address, on the link's port. -/
theorem obeys_connectAny {port : ℕ} (hport : url.portOrKnownDefault = some port)
    {found : List IpAddr} (h : Begun n url since past) (hfound : CheckedAddresses url since found) :
    rules.Obeys past (connectAny port found) fun r past' => ∃ since', Begun n url since' past' ∧
      ∀ address, r = some address → .connected address port true ∈ since' := by
  induction found generalizing past since with
  | nil => exact ⟨since, h, nofun⟩
  | cons ip found ih =>
      obtain ⟨answer, hhost, hmem, hpublic⟩ := hfound
      unfold connectAny
      rw [Discipline.obeys_bind, Discipline.obeys_perform]
      refine ⟨fun _ => ?_, fun connected => ?_⟩
      · exact ⟨url, since, answer, h.last, hport, hhost, hmem ip (List.mem_cons_self ..), hpublic⟩
      · have hbegun : Begun n url (since ++ [.connected ip port connected])
            (past ++ [.connected ip port connected]) := h.snoc rfl rfl
        cases connected with
        | true =>
            refine ⟨_, hbegun, fun address heq => ?_⟩
            rw [← Option.some.inj heq]
            exact List.mem_append_right _ (List.mem_singleton_self _)
        | false =>
            refine ih hbegun ⟨answer, hhost.mono (List.subset_append_left ..), fun a ha => ?_, hpublic⟩
            exact hmem a (List.mem_cons_of_mem _ ha)

/-- TLS is on the connection made: nothing is done on the network. -/
theorem obeys_secure {https : Bool} {host : Host} {address : IpAddr} {port : ℕ}
    (h : Begun n url since past) (hconnected : .connected address port true ∈ since) :
    rules.Obeys past (secure https host).run fun _ past' => ∃ since', Begun n url since' past' ∧
      .connected address port true ∈ since' := by
  unfold secure
  cases https with
  | false => exact ⟨since, h, hconnected⟩
  | true =>
      rw [if_pos rfl, Discipline.obeys_runBind, obeys_call]
      refine ⟨fun _ => trivial, fun failure => ?_⟩
      have hbegun : Begun n url (since ++ [.other]) (past ++ [.other]) := h.snoc rfl rfl
      cases failure with
      | none => exact ⟨_, hbegun, List.mem_append_left _ hconnected⟩
      | some reason => exact ⟨_, hbegun, List.mem_append_left _ hconnected⟩

/-- The exchange is on a connection of its own request, and asks for its link. -/
theorem obeys_exchange {https : Bool} {host : Host} {address : IpAddr} {port limit : ℕ}
    {message : Outgoing} (h : Begun n url since past)
    (hconnected : .connected address port true ∈ since) (hasks : Asks url message) :
    rules.Obeys past (do
      secure https host
      match ← call (.exchange message limit) with
      | .ok response => return response
      | .error reason => throw (.exchange host.display reason) : Work HttpError Response).run
      fun _ past' => past'.countP Event.isRequest = n := by
  refine (obeys_secure h hconnected).runBind ?_ ?_
  · rintro - past' ⟨since', hbegun, hconnected'⟩
    rw [Discipline.obeys_runBind, obeys_call]
    refine ⟨fun _ => ?_, fun response => ?_⟩
    · exact ⟨url, since', address, port, hbegun.last, hconnected', hbegun.unexchanged, hasks⟩
    · have hcount : (past' ++ [Event.exchanged message response]).countP Event.isRequest = n := by
        simp [List.countP_append, hbegun.count, Event.isRequest]
      cases response with
      | ok response => exact hcount
      | error reason => exact hcount
  · rintro e past' ⟨since', hbegun, -⟩
    exact hbegun.count

/-- One request, for a link that passes the check. -/
theorem obeys_send {refused : Outgoing → Option String} {request : Request} {limit : ℕ}
    (hmade : past.countP Event.isRequest < MAX_REDIRECTS + 1) (hcheck : check request.url = .ok ())
    (hasks : ∀ host, request.url.host = some host → Asks request.url (outgoing request host)) :
    rules.Obeys past (send refused request limit).run fun _ past' =>
      past'.countP Event.isRequest = past.countP Event.isRequest + 1 := by
  unfold send
  rw [Discipline.obeys_runBind, obeys_call]
  refine ⟨fun _ => ⟨hmade, hcheck⟩, fun _ => ?_⟩
  dsimp only [tell]
  have hbegun : Begun (past.countP Event.isRequest + 1) request.url []
      (past ++ [.request request.url]) :=
    ⟨⟨past, rfl, nofun⟩, nofun, by simp [List.countP_append, Event.isRequest]⟩
  generalize past ++ [Event.request request.url] = past₁ at hbegun
  have hscheme : rules.Obeys past₁ (isHttps request.url.scheme).run fun _ past' => past' = past₁ := by
    unfold isHttps
    split
    · rfl
    · split <;> rfl
  refine hscheme.runBind ?_ ?_
  · rintro https _ rfl
    split
    · exact hbegun.count
    · rw [Discipline.obeys_runBind]
      refine obeys_orThrow (fun host hhost => ?_) hbegun.count
      dsimp only
      rw [Discipline.obeys_runBind]
      refine obeys_orThrow (fun port hport => ?_) hbegun.count
      dsimp only
      refine (obeys_addresses hbegun).runBind ?_ ?_
      · rintro found past₂ ⟨since₂, hbegun₂, hfound⟩
        rw [Discipline.obeys_runBind, Discipline.obeys_runLift]
        refine (obeys_connectAny hport hbegun₂ (hfound found rfl)).mono ?_
        rintro connected past₃ ⟨since₃, hbegun₃, hconnected⟩
        cases connected with
        | none => exact hbegun₃.count
        | some address =>
            dsimp only
            split
            · exact hbegun₃.count
            · exact obeys_exchange hbegun₃ (hconnected address rfl) (hasks host hhost)
      · rintro e past₂ ⟨since₂, hbegun₂, -⟩
        exact hbegun₂.count
  · rintro e _ rfl
    exact hbegun.count

end Requests

section Fetches

variable {libraries : Libraries} {past : List Event} {requested url : Url}

/-- Without its fragment, a link passes the check too. -/
theorem check_withoutFragment (h : check url = .ok ()) : check url.withoutFragment = .ok () := by
  have hlength := url.length_withoutFragment_le
  unfold check at h ⊢
  split at h
  · cases h
  · next hshort =>
      rw [if_neg (by omega)]
      exact h

theorem obeys_requestOnce (hmade : past.countP Event.isRequest < MAX_REDIRECTS + 1)
    (hcheck : check url = .ok ()) :
    rules.Obeys past (requestOnce libraries requested url).run fun _ past' =>
      past'.countP Event.isRequest = past.countP Event.isRequest + 1 := by
  unfold requestOnce
  rw [Discipline.obeys_runBind, Discipline.obeys_runLift]
  refine (obeys_send hmade ?_ ?_).mono fun sent past' hcount => ?_
  · exact check_withoutFragment hcheck
  · exact fun host hhost => ⟨host, hhost, rfl⟩
  · cases sent with
    | ok response => exact hcount
    | error error => exact hcount

/-- Reading an answer does nothing on the network. -/
theorem obeys_read (response : Response) :
    rules.Obeys past (read libraries requested url response).run fun _ _ => True := by
  unfold read
  split
  · trivial
  · split
    · trivial
    · unfold convert
      simp only [bind_assoc]
      rw [Discipline.obeys_runBind, obeys_call]
      refine ⟨fun _ => trivial, fun ended => ?_⟩
      dsimp only
      cases ended with
      | true => cases libraries.render _ _ _ _ <;> trivial
      | false => trivial

/-- With so many redirects left, the requests still to make are one more. -/
theorem obeys_fetchFrom {left : ℕ} (hmade : past.countP Event.isRequest + left ≤ MAX_REDIRECTS)
    (hcheck : check url = .ok ()) :
    rules.Obeys past (fetchFrom libraries requested left url).run fun _ _ => True := by
  induction left generalizing past url with
  | zero =>
      unfold fetchFrom
      refine (obeys_requestOnce (by omega) hcheck).runBind ?_ fun _ _ _ => trivial
      intro response past' hcount
      split
      · rw [Discipline.obeys_runBind]
        exact obeys_orThrow (fun next hnext => trivial) trivial
      · exact obeys_read response
  | succ left ih =>
      unfold fetchFrom
      refine (obeys_requestOnce (by omega) hcheck).runBind ?_ fun _ _ _ => trivial
      intro response past' hcount
      split
      · rw [Discipline.obeys_runBind]
        refine obeys_orThrow (fun next hnext => ?_) trivial
        dsimp only
        split
        · trivial
        · next hpasses => exact ih (by omega) hpasses
      · exact obeys_read response

theorem check_of_parse {arguments : Json} (h : parse libraries arguments = .ok url) :
    check url = .ok () := by
  unfold parse at h
  split at h
  · cases h
  · dsimp only at h
    split at h
    · cases h
    · split at h
      · cases h
      · split at h
        · cases h
        · next hcheck =>
            rw [← Except.ok.inj h]
            exact hcheck

theorem obeys_serve (arguments : Json) :
    rules.Obeys [] (serve libraries arguments) fun _ _ => True := by
  unfold serve
  split
  · trivial
  · next url hparse =>
      rw [Discipline.obeys_bind, Discipline.obeys_perform]
      refine ⟨fun _ => trivial, fun refusal => ?_⟩
      cases refusal with
      | some refusal => trivial
      | none =>
          rw [Discipline.obeys_bind]
          have hmade : (rules.after [] Net.reserve none).countP Event.isRequest + MAX_REDIRECTS ≤
              MAX_REDIRECTS := le_refl _
          exact (obeys_fetchFrom hmade (check_of_parse hparse)).mono fun _ _ _ => trivial

end Fetches

/-- What a `web_fetch` has done, wherever it stopped: so many requests and exchanges at most, each
request for a link that passes the check; each connection is of the last request begun, on its port,
to an address of its host, all of whose addresses are public; and each exchange is on a connection of
the last request begun, and sends the request for its link. -/
structure PublicOnly (past : List Event) : Prop where
  requests : past.countP Event.isRequest ≤ 6
  exchanges : past.countP Event.isExchange ≤ past.countP Event.isRequest
  checked : ∀ url, .request url ∈ past → check url = .ok ()
  connections : ∀ before address port connected after,
    past = before ++ .connected address port connected :: after →
    ∃ url since answer, Since before url since ∧ url.portOrKnownDefault = some port ∧
      HostAddresses url since answer ∧ address ∈ answer ∧ ∀ a ∈ answer, Public a
  exchanged : ∀ before outgoing response after,
    past = before ++ .exchanged outgoing response :: after →
    ∃ url since address port, Since before url since ∧ .connected address port true ∈ since ∧
      (∀ e ∈ since, e.isExchange = false) ∧ Asks url outgoing

/-- Between two exchanges a request begins. -/
theorem exchanges_le {past : List Event} (h : RuleKept Rule past) :
    past.countP Event.isExchange ≤ past.countP Event.isRequest := by
  induction hn : past.length using Nat.strong_induction_on generalizing past with
  | _ n ih =>
      rcases List.eq_nil_or_concat' past with rfl | ⟨es, e, rfl⟩
      · exact le_refl 0
      · have hlength : es.length < n := by
          rw [← hn, List.length_append]
          exact Nat.lt_succ_self _
        rw [List.countP_append, List.countP_append, List.countP_singleton]
        by_cases he : e.isExchange = true
        · rw [if_pos he]
          obtain ⟨outgoing, response, rfl⟩ : ∃ outgoing response, e = .exchanged outgoing response := by
            cases e with
            | exchanged outgoing response => exact ⟨outgoing, response, rfl⟩
            | request | resolved | connected | other => cases he
          obtain ⟨url, since, -, -, ⟨before, rfl, hsince⟩, -, hunexchanged, -⟩ := h.last
          have hbefore : before.countP Event.isExchange ≤ before.countP Event.isRequest :=
            ih before.length (lt_of_le_of_lt (by simp) hlength) h.of_append.of_append rfl
          have hnone : since.countP Event.isExchange = 0 :=
            List.countP_eq_zero.mpr fun e he => by simp [hunexchanged e he]
          rw [List.countP_append, List.countP_append, List.countP_cons, List.countP_cons, hnone]
          simp only [Event.isExchange, Event.isRequest, if_true, Bool.false_eq_true, if_false]
          omega
        · rw [if_neg he]
          have hbefore := ih es.length hlength h.of_append rfl
          omega

/-- The requests of a `web_fetch` go to public addresses only. -/
theorem publicOnly_of_makes {libraries : Libraries} {arguments : Json} {past : List Event}
    {rest : Prog Net Served} (h : (serve libraries arguments).Makes tell past rest) :
    PublicOnly past ∧ ∀ address, isPublic address = true ↔ Public address := by
  have hkept : RuleKept Rule past := h.ruleKept (obeys_serve arguments)
  refine ⟨?_, isPublic_iff⟩
  constructor
  case requests =>
    refine hkept.countP_le fun past e hrule he => ?_
    cases e with
    | request url => exact hrule.1
    | resolved | connected | exchanged | other => cases he
  case exchanges => exact exchanges_le hkept
  case checked =>
    intro url hurl
    obtain ⟨before, after, rfl⟩ := List.append_of_mem hurl
    exact (hkept before _ after rfl).2
  case connections => exact fun before _ _ _ after hpast => hkept before _ after hpast
  case exchanged => exact fun before _ _ after hpast => hkept before _ after hpast

section Example

def page (path : String) : Url :=
  ⟨"https", "", none, some (.domain "example.com"), none, path, none, none⟩

/-- Links to one site, by their paths. -/
def site : Libraries where
  parse text := if text = "https://example.com/" then .ok (page "/") else .error .other
  join _ location := some (page location)
  refused _ := none
  canonicalReason _ := none
  render _ _ _ _ := .ok "A page."

/-- The site redirects once, and its name resolves elsewhere the second time. -/
def respond (past : List Event) : {β : Type} → Net β → β
  | _, .reserve | _, .handshake _ => none
  | _, .request _ => ()
  | _, .resolve _ _ =>
    some [.v4 (if past.any Event.isExchange then octets 10 0 0 1 else octets 93 184 216 34)]
  | _, .connect _ _ | _, .convert => true
  | _, .exchange _ _ => .ok ⟨302, [("location", "/next".toUTF8.data.toList)], [], false⟩

/-- Redirected to an address that is not public, the fetch makes its request and connects to
nothing. -/
theorem publicOnly_redirected : ∃ past, past.countP Event.isRequest = 2 ∧
    past.countP Event.isExchange = 1 ∧ PublicOnly past := by
  obtain ⟨rest, h⟩ := Prog.makes_play tell respond
    (serve site (.obj [("url", .str "https://example.com/")])) []
  refine ⟨_, ?_, ?_, (publicOnly_of_makes h).1⟩ <;> decide +kernel

end Example

end Bokkie.Http
