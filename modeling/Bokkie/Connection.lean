import Bokkie.EventFrames

/-!
# The client's connection

`Connection` is the client's connection policy: a state machine that takes what the transport and
the application report and answers with commands. It owns the position in the event log.
-/

namespace Bokkie

namespace Connection

/-- Delays in milliseconds. -/
def firstRetry : ℕ := 250
def lastRetry : ℕ := 8000
def closeSignedOut : ℕ := 4002
def closeProtocol : ℕ := 4000
def pongDeadline : ℕ := 5000
def unreadableLimit : ℕ := 3
def viewingRenew : ℕ := 30000

/-- `u32::saturating_add(1)`. -/
def saturatingSucc (n : ℕ) : ℕ := min (n + 1) (2 ^ 32 - 1)

/-- `u32::wrapping_add(1)`. -/
def wrappingSucc (n : ℕ) : ℕ := (n + 1) % 2 ^ 32

inductive State where
  | stopped
  | connecting
  | resuming
  | replaying
  | live
  | backingOff (attempt delay : ℕ)
  | signedOut
  | outdated
deriving DecidableEq, Repr

inductive Input (ε β : Type) where
  | start
  | opened
  | frame (frame : ServerFrame ε)
  | unreadable
  | closed (code : Option ℕ)
  | retryDue
  | visible
  | hidden
  | viewing (bot : Option β)
  | viewingDue (renewal : ℕ)
  | pongOverdue (ping : ℕ)
  | unauthenticated
  | stop
deriving DecidableEq, Repr

inductive Command (ε β : Type) where
  | connect
  | send (frame : ClientFrame β)
  | close
  | retryAfter (delay : ℕ)
  | cancelRetry
  | awaitPong (ping after : ℕ)
  | renewViewing (renewal after : ℕ)
  | apply (envelope : EventEnvelope ε)
  | reload
  | checkSession
  | signedOut
  | outdated
deriving DecidableEq, Repr

end Connection

open Connection in
structure Connection (β : Type) where
  state : State
  failures : ℕ
  /-- The last sequence number passed on, if any. -/
  last : Option ℕ
  /-- Whether the snapshots have been asked for since this user signed in. -/
  synced : Bool
  pings : ℕ
  awaiting : Option ℕ
  unreadable : ℕ
  refusals : ℕ
  viewing : Option β
  hidden : Bool
  told : Option β
  renewals : ℕ
deriving DecidableEq, Repr

namespace Connection

variable {ε β : Type}

def new : Connection β where
  state := .stopped
  failures := 0
  last := none
  synced := false
  pings := 0
  awaiting := none
  unreadable := 0
  refusals := 0
  viewing := none
  hidden := false
  told := none
  renewals := 0

/-- What a call leaves behind: the connection and the commands, in order. -/
abbrev Outcome (ε β : Type) := Connection β × List (Command ε β)

def shown (c : Connection β) : Option β := if c.hidden then none else c.viewing

def delay (attempt : ℕ) : ℕ := min (firstRetry * 2 ^ min (attempt - 1) 6) lastRetry

def renewLater (c : Connection β) : Outcome ε β :=
  match c.told with
  | none => (c, [])
  | some _ =>
    let renewals := wrappingSucc c.renewals
    ({ c with renewals := renewals }, [.renewViewing renewals viewingRenew])

def sayViewing [DecidableEq β] (c : Connection β) : Outcome ε β :=
  if c.state ≠ .live ∨ c.told = c.shown then (c, [])
  else
    let o := renewLater { c with told := c.shown }
    (o.1, .send (.viewing c.shown) :: o.2)

def connect (c : Connection β) : Outcome ε β :=
  ({ c with state := .connecting, awaiting := none }, [.connect])

def closed (c : Connection β) (code : Option ℕ) : Outcome ε β :=
  if code = some closeSignedOut then ({ c with state := .signedOut }, [.signedOut])
  else
    let c := if code = some closeProtocol then { c with refusals := saturatingSucc c.refusals }
      else c
    if code = some closeProtocol ∧ unreadableLimit ≤ c.refusals then
      ({ c with state := .outdated }, [.outdated])
    else
      let failures := saturatingSucc c.failures
      ({ c with failures := failures, state := .backingOff failures (delay failures) },
        [.retryAfter (delay failures)])

/-- Give up on this socket and back off, as if it had closed. -/
def resync (c : Connection β) : Outcome ε β :=
  let o := c.closed none
  (o.1, .close :: o.2)

def frameEvent (c : Connection β) (envelope : EventEnvelope ε) : Outcome ε β :=
  let pass : Outcome ε β :=
    ({ c with
        last := some envelope.seq
        unreadable := 0
        state := if c.state = .resuming then .replaying else c.state },
      [.apply envelope])
  match c.last with
  | some last =>
    if envelope.seq ≤ last then (c, [])
    else if envelope.seq ≠ last + 1 then c.resync
    else pass
  | none => pass

/-- The fields that reaching live sets. -/
def goLive (c : Connection β) (latest : ℕ) (reload : Bool) : Connection β :=
  { c with
    last := some latest
    state := .live
    failures := 0
    refusals := 0
    synced := c.synced || reload
    told := none }

def frameLive [DecidableEq β] (c : Connection β) (latest : ℕ) : Outcome ε β :=
  if c.state = .live then (c, [])
  else if c.last.any (· < latest) then c.resync
  else
    let replaced := c.last.any (latest < ·)
    let reload := !c.synced || replaced
    let o := (c.goLive latest reload).sayViewing
    (o.1, (if reload then [.reload] else []) ++ o.2)

def frame [DecidableEq β] (c : Connection β) : ServerFrame ε → Outcome ε β
  | .event envelope => c.frameEvent envelope
  | .live latest => c.frameLive latest
  | .reset after =>
    ({ c with
        last := some after
        synced := true
        state := if c.state = .resuming then .replaying else c.state },
      [.reload])
  | .pong => (c, [])

/-- A frame the gateway would never send. -/
def onUnreadable (c : Connection β) : Outcome ε β :=
  let c := { c with awaiting := none, unreadable := saturatingSucc c.unreadable }
  if unreadableLimit ≤ c.unreadable then
    ({ c with state := .outdated }, [.close, .outdated])
  else c.resync

def onPongOverdue (c : Connection β) (ping : ℕ) : Outcome ε β :=
  if c.awaiting = some ping then resync { c with awaiting := none } else (c, [])

def onViewingDue (c : Connection β) (renewal : ℕ) : Outcome ε β :=
  if renewal = c.renewals ∧ c.told.isSome then
    let o := c.renewLater
    (o.1, .send (.viewing c.told) :: o.2)
  else (c, [])

def transition [DecidableEq β] (c : Connection β) (input : Input ε β) : Outcome ε β :=
  match c.state, input with
  | .signedOut, _ => (c, [])
  | .outdated, .stop => ({ c with state := .stopped }, [])
  | .outdated, _ => (c, [])
  | _, .unauthenticated => ({ c with state := .signedOut }, [.close, .cancelRetry, .signedOut])
  | _, .stop => ({ c with state := .stopped }, [.close, .cancelRetry])
  | .stopped, .start => c.connect
  | .backingOff _ _, .retryDue => c.connect
  | .backingOff _ _, .visible =>
    let o := c.connect
    (o.1, .cancelRetry :: o.2)
  | .live, .visible =>
    let pings := wrappingSucc c.pings
    ({ c with pings := pings, awaiting := some pings },
      [.send .ping, .awaitPong pings pongDeadline])
  | .live, .pongOverdue ping => c.onPongOverdue ping
  | .live, .viewingDue renewal => c.onViewingDue renewal
  | .connecting, .opened => ({ c with state := .resuming }, [.send (.resume c.last)])
  | .connecting, .closed code =>
    let o := c.closed code
    (o.1, o.2 ++ if o.1.state ≠ .signedOut then [.checkSession] else [])
  | .resuming, .closed code | .replaying, .closed code | .live, .closed code => c.closed code
  | .resuming, .frame f | .replaying, .frame f | .live, .frame f =>
    frame { c with awaiting := none } f
  | .resuming, .unreadable | .replaying, .unreadable | .live, .unreadable => c.onUnreadable
  | _, _ => (c, [])

/-- What an input says about the page, noted before it is handled. -/
def note (c : Connection β) : Input ε β → Connection β × Bool
  | .visible => ({ c with hidden := false }, true)
  | .hidden => ({ c with hidden := true }, true)
  | .viewing bot => ({ c with viewing := bot }, true)
  | _ => (c, false)

def handle [DecidableEq β] (c : Connection β) (input : Input ε β) : Outcome ε β :=
  let (noted, viewing) := c.note input
  let o := noted.transition input
  if viewing then
    let said := o.1.sayViewing
    (said.1, o.2 ++ said.2)
  else o

section Effect

/-- Neither an event passed on nor a reload. -/
def Command.quiet : Command ε β → Bool
  | .apply _ | .reload => false
  | _ => true

/-- A call that leaves the position alone, passes nothing on and does not go live. -/
structure Quiet (c : Connection β) (o : Outcome ε β) : Prop where
  live : o.1.state = .live → c.state = .live
  last : o.1.last = c.last
  synced : o.1.synced = c.synced
  commands : ∀ k ∈ o.2, k.quiet

variable {c : Connection β}

theorem quiet_nil : Quiet c ((c, []) : Outcome ε β) := ⟨id, rfl, rfl, by simp⟩

/-- Other fields of the connection do not matter. -/
theorem Quiet.congr {c₁ : Connection β} {o : Outcome ε β} (h : Quiet c₁ o)
    (hstate : c₁.state = c.state) (hlast : c₁.last = c.last) (hsynced : c₁.synced = c.synced) :
    Quiet c o :=
  ⟨fun hl => hstate ▸ h.live hl, h.last.trans hlast, h.synced.trans hsynced, h.commands⟩

theorem Quiet.cons {o : Outcome ε β} (h : Quiet c o) {k : Command ε β} (hk : k.quiet) :
    Quiet c (o.1, k :: o.2) :=
  ⟨h.live, h.last, h.synced, by simpa [hk] using h.commands⟩

theorem Quiet.append {o : Outcome ε β} (h : Quiet c o) {ks : List (Command ε β)}
    (hks : ∀ k ∈ ks, k.quiet) : Quiet c (o.1, o.2 ++ ks) :=
  ⟨h.live, h.last, h.synced, fun k hk => (List.mem_append.mp hk).elim (h.commands k) (hks k)⟩

/-- A call that changes other fields only and asks for nothing that matters here. -/
theorem quiet_of_eq {c' : Connection β} {ks : List (Command ε β)}
    (hlive : c'.state = .live → c.state = .live) (hlast : c'.last = c.last)
    (hsynced : c'.synced = c.synced) (hks : ∀ k ∈ ks, k.quiet) : Quiet c (c', ks) :=
  ⟨hlive, hlast, hsynced, hks⟩

theorem quiet_connect : Quiet c (c.connect : Outcome ε β) := 
  ⟨by simp [connect], rfl, rfl, by simp [connect, Command.quiet]⟩

theorem quiet_renewLater : Quiet c (c.renewLater : Outcome ε β) := by
  unfold renewLater
  split
  · exact quiet_nil
  · exact ⟨id, rfl, rfl, by simp [Command.quiet]⟩

theorem quiet_sayViewing [DecidableEq β] : Quiet c (c.sayViewing : Outcome ε β) := by
  unfold sayViewing
  split
  · exact quiet_nil
  · have h : Quiet c (renewLater { c with told := c.shown } : Outcome ε β) :=
      quiet_renewLater.congr rfl rfl rfl
    exact ⟨h.live, h.last, h.synced, by simpa [Command.quiet] using h.commands⟩

theorem quiet_closed (code : Option ℕ) : Quiet c (c.closed code : Outcome ε β) := by
  unfold closed
  split
  · exact ⟨by simp, rfl, rfl, by simp [Command.quiet]⟩
  · dsimp only
    split <;> split <;> exact ⟨by simp, rfl, rfl, by simp [Command.quiet]⟩

theorem quiet_resync : Quiet c (c.resync : Outcome ε β) := by
  exact (quiet_closed none).cons rfl

theorem quiet_onUnreadable : Quiet c (c.onUnreadable : Outcome ε β) := by
  unfold onUnreadable
  dsimp only
  split
  · exact quiet_of_eq (by simp_all) rfl rfl (by simp [Command.quiet])
  · exact quiet_resync.congr rfl rfl rfl

theorem quiet_onPongOverdue (ping : ℕ) : Quiet c (c.onPongOverdue ping : Outcome ε β) := by
  unfold onPongOverdue
  split
  · exact quiet_resync.congr rfl rfl rfl
  · exact quiet_nil

theorem quiet_onViewingDue (renewal : ℕ) : Quiet c (c.onViewingDue renewal : Outcome ε β) := by
  unfold onViewingDue
  split
  · exact quiet_renewLater.cons rfl
  · exact quiet_nil

/-- What one call can do to the position and what it passes on. -/
inductive Effect (c : Connection β) (input : Input ε β) (o : Outcome ε β) : Prop
  | quiet (h : Quiet c o)
  | apply {e : EventEnvelope ε} (hinput : input = .frame (.event e)) (hcommands : o.2 = [.apply e])
      (hnext : ∀ l, c.last = some l → e.seq = l + 1) (hlast : o.1.last = some e.seq)
      (hsynced : o.1.synced = c.synced)
  | reload {n : ℕ} {rest : List (Command ε β)}
      (hinput : input = .frame (.reset n) ∨ input = .frame (.live n))
      (hcommands : o.2 = .reload :: rest) (hrest : ∀ k ∈ rest, k.quiet)
      (hlast : o.1.last = some n) (hsynced : o.1.synced = true)
  | live {n : ℕ} (hinput : input = .frame (.live n)) (hc : c.synced = true)
      (hnext : ∀ l, c.last = some l → l = n) (hlast : o.1.last = some n)
      (hsynced : o.1.synced = true) (hcommands : ∀ k ∈ o.2, k.quiet)

theorem effect_frameEvent (e : EventEnvelope ε) :
    Effect c (.frame (.event e)) (c.frameEvent e) := by
  unfold frameEvent
  cases hl : c.last with
  | none => exact .apply rfl rfl (by simp [hl]) rfl rfl
  | some last =>
      dsimp only
      split_ifs with hle hne
      · exact .quiet quiet_nil
      · exact .quiet quiet_resync
      · exact .apply rfl rfl (fun l h => by simp_all) rfl rfl
      · exact .apply rfl rfl (fun l h => by simp_all) rfl rfl

theorem effect_frameLive [DecidableEq β] (latest : ℕ) :
    Effect (ε := ε) c (.frame (.live latest)) (c.frameLive latest) := by
  unfold frameLive
  split_ifs with hlive hbehind
  · exact .quiet quiet_nil
  · exact .quiet quiet_resync
  · dsimp only
    generalize hr : (!c.synced || c.last.any (latest < ·)) = reload
    have hq : Quiet (c.goLive latest reload) ((c.goLive latest reload).sayViewing : Outcome ε β) :=
      quiet_sayViewing
    cases reload with
    | true =>
        exact .reload (.inr rfl) rfl hq.commands hq.last (hq.synced.trans (by simp [goLive]))
    | false =>
        obtain ⟨hsynced, hahead⟩ : c.synced = true ∧ ¬ c.last.any (latest < ·) = true := by
          simpa using hr
        refine .live rfl hsynced (fun l hl => ?_) hq.last (hq.synced.trans (by simp [goLive, hsynced]))
          hq.commands
        simp only [hl, Option.any_some, decide_eq_true_eq] at hbehind hahead
        omega

theorem effect_frame [DecidableEq β] (f : ServerFrame ε) : Effect c (.frame f) (c.frame f) := by
  cases f with
  | event e => exact effect_frameEvent e
  | live latest => exact effect_frameLive latest
  | reset after => exact .reload (.inl rfl) rfl (by simp) rfl rfl
  | pong => exact .quiet quiet_nil

theorem transition_frame [DecidableEq β] (f : ServerFrame ε) :
    c.transition (.frame f) = (c, []) ∨
      c.transition (.frame f) = frame { c with awaiting := none } f := by
  unfold transition
  split <;> simp_all

theorem quiet_transition [DecidableEq β] {input : Input ε β} (hf : ∀ f, input ≠ .frame f) :
    Quiet c (c.transition input) := by
  unfold transition
  split
  all_goals first
    | exact quiet_nil
    | exact quiet_connect
    | exact quiet_connect.cons rfl
    | exact quiet_closed _
    | exact (quiet_closed _).append (by split <;> simp [Command.quiet])
    | exact quiet_onUnreadable
    | exact quiet_onPongOverdue _
    | exact quiet_onViewingDue _
    | exact absurd rfl (hf _)
    | exact quiet_of_eq (by simp_all) rfl rfl (by simp [Command.quiet])

theorem effect_handle [DecidableEq β] (input : Input ε β) : Effect c input (c.handle input) := by
  by_cases hf : ∃ f, input = .frame f
  · obtain ⟨f, rfl⟩ := hf
    change Effect c (.frame f) (c.transition (.frame f))
    rcases transition_frame (c := c) f with h | h <;> rw [h]
    · exact .quiet quiet_nil
    · cases effect_frame (c := { c with awaiting := none }) f with
      | quiet h => exact .quiet (h.congr rfl rfl rfl)
      | apply hi hc hn hl hs => exact .apply hi hc hn hl hs
      | reload hi hc hr hl hs => exact .reload hi hc hr hl hs
      | live hi hc hn hl hs hk => exact .live hi hc hn hl hs hk
  · have hnoted : (c.note input).1.state = c.state ∧ (c.note input).1.last = c.last ∧
        (c.note input).1.synced = c.synced := by
      cases input <;> exact ⟨rfl, rfl, rfl⟩
    have hq : Quiet c ((c.note input).1.transition input) :=
      (quiet_transition fun f h => hf ⟨f, h⟩).congr hnoted.1 hnoted.2.1 hnoted.2.2
    have hsaid : Quiet ((c.note input).1.transition input).1
        (((c.note input).1.transition input).1.sayViewing : Outcome ε β) := quiet_sayViewing
    unfold handle
    dsimp only
    split
    · refine .quiet ⟨fun hl => hq.live (hsaid.live hl), hsaid.last.trans hq.last,
        hsaid.synced.trans hq.synced, ?_⟩
      exact fun k hk => (List.mem_append.mp hk).elim (hq.commands k) (hsaid.commands k)
    · exact .quiet hq

/-- A connection that goes live without a reload stood exactly where the gateway's log ends. -/
theorem goes_live [DecidableEq β] {latest : ℕ}
    (hbefore : c.state ≠ .live)
    (hafter : (c.handle (.frame (.live latest) : Input ε β)).1.state = .live)
    (hreload : .reload ∉ (c.handle (.frame (.live latest) : Input ε β)).2) :
    c.synced = true ∧ (∀ l, c.last = some l → l = latest) ∧
      ∀ k ∈ (c.handle (.frame (.live latest) : Input ε β)).2, k.quiet := by
  cases effect_handle (c := c) (.frame (.live latest) : Input ε β) with
  | quiet h => exact absurd (h.live hafter) hbefore
  | apply hi => cases hi
  | reload hi hcommands => exact absurd (by simp [hcommands]) hreload
  | live hi hc hnext hlast hsynced hcommands =>
      cases hi
      exact ⟨hc, hnext, hcommands⟩

end Effect

end Connection

end Bokkie
