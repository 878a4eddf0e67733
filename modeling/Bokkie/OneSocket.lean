import Bokkie.Connection
import Bokkie.Reactors

/-!
# One socket, one timer

What the transport sees of the connection: the sockets it was told to open, whether a retry is
pending, what the socket said it shows and the renewal it was last told to time. An input is about
the socket opened last: the transport detaches the one before it.
-/

namespace Bokkie

namespace Connection

open Reactor

variable {ε β : Type}

/-- What became of a socket. -/
inductive Socket where
  | connecting
  | opened
  | closed
deriving DecidableEq, Repr

def Socket.opens : Socket → Socket
  | .connecting => .opened
  | s => s

/-- What the transport holds. -/
structure Transport (β : Type) where
  /-- Every socket so far, the last first. -/
  sockets : List Socket
  /-- A retry is pending. -/
  retry : Bool
  /-- What the last socket last said it shows. -/
  said : Option β
  /-- The renewal last asked for, until it is due. -/
  renewal : Option ℕ
deriving DecidableEq, Repr

namespace Transport

/-- Before the first socket. -/
def idle : Transport β := ⟨[], false, none, none⟩

def opened (t : Transport β) : Transport β := { t with sockets := t.sockets.modifyHead .opens }

def closed (t : Transport β) : Transport β :=
  { t with sockets := t.sockets.modifyHead fun _ => .closed }

/-- What an input reports. -/
def hear (t : Transport β) : Input ε β → Transport β
  | .opened => t.opened
  | .closed _ => t.closed
  | .retryDue => { t with retry := false }
  | .viewingDue renewal => { t with renewal := t.renewal.filter (· ≠ renewal) }
  | _ => t

/-- What carrying out a command leaves. -/
def see (t : Transport β) : Command ε β → Transport β
  | .connect => { t with sockets := .connecting :: t.sockets, said := none }
  | .send (.viewing bot) => { t with said := bot }
  | .close => t.closed
  | .retryAfter _ => { t with retry := true }
  | .cancelRetry => { t with retry := false }
  | .renewViewing renewal _ => { t with renewal := some renewal }
  | _ => t

/-- A socket is opened once every other has closed, sent to once it opened and before it closes,
and one retry is pending at most. -/
def Allows (t : Transport β) : Command ε β → Prop
  | .connect => ∀ s ∈ t.sockets, s = .closed
  | .send _ => t.sockets.head? = some .opened
  | .retryAfter _ => t.retry = false
  | _ => True

end Transport

/-- The connection, answering the transport. -/
def machine (ε β : Type) [DecidableEq β] : Reactor (Connection β) (Input ε β) (Command ε β) where
  start := new
  handle := handle

/-- The transport, carrying out what the connection asks for. -/
def transport (ε β : Type) : Observer (Transport β) (Input ε β) (Command ε β) where
  hear := Transport.hear
  see := Transport.see

section Fits

/-- All sockets but the last have closed. -/
def Transport.Last (t : Transport β) (s : Socket) : Prop :=
  ∃ rest, t.sockets = s :: rest ∧ ∀ s' ∈ rest, s' = .closed

def Transport.AllClosed (t : Transport β) : Prop := ∀ s ∈ t.sockets, s = .closed

/-- The sockets that the transport holds while the connection is in a state. -/
def Transport.Holds (t : Transport β) : State → Prop
  | .connecting => t.Last .connecting ∧ t.said = none
  | .resuming | .replaying => t.Last .opened ∧ t.said = none
  | .live => t.Last .opened
  | _ => t.AllClosed

/-- The socket is open. -/
def State.isOpen : State → Bool
  | .resuming | .replaying | .live => true
  | _ => false

def State.isBackingOff : State → Bool
  | .backingOff _ _ => true
  | _ => false

/-- The transport holds what the connection takes it to hold. -/
structure Fits (c : Connection β) (t : Transport β) : Prop where
  holds : t.Holds c.state
  retry : t.retry = c.state.isBackingOff
  said : c.state = .live → t.said = c.told
  renewal : c.state = .live → c.told.isSome → t.renewal = some c.renewals

/-- The commands are allowed, and what they leave fits the connection. -/
def Suits (t : Transport β) (o : Outcome ε β) : Prop :=
  (transport ε β).Proper Transport.Allows t o.2 ∧ Fits o.1 ((transport ε β).seen t o.2)

variable {c : Connection β} {t : Transport β}

theorem Transport.Last.closed {s : Socket} (h : t.Last s) : t.closed.AllClosed := by
  obtain ⟨rest, hsockets, hrest⟩ := h
  intro s' hs'
  simp only [Transport.closed, hsockets, List.modifyHead_cons, List.mem_cons] at hs'
  exact hs'.elim id (hrest s')

theorem Transport.Last.opened (h : t.Last .opened) : t.opened.Last .opened := by
  obtain ⟨rest, hsockets, hrest⟩ := h
  exact ⟨rest, by simp [Transport.opened, hsockets, Socket.opens], hrest⟩

theorem Transport.AllClosed.closed (h : t.AllClosed) : t.closed.AllClosed := by
  intro s hs
  unfold Transport.closed at hs
  cases hsockets : t.sockets with
  | nil => simp [hsockets] at hs
  | cons s' rest =>
      simp only [hsockets, List.modifyHead_cons, List.mem_cons] at hs
      exact hs.elim id fun hs => h s (hsockets ▸ List.mem_cons_of_mem s' hs)

theorem Transport.AllClosed.opened (h : t.AllClosed) : t.opened.AllClosed := by
  intro s hs
  unfold Transport.opened at hs
  cases hsockets : t.sockets with
  | nil => simp [hsockets] at hs
  | cons s' rest =>
      have hs' : s' = .closed := h s' (by simp [hsockets])
      simp only [hsockets, List.modifyHead_cons, List.mem_cons, hs', Socket.opens] at hs
      exact hs.elim id fun hs => h s (hsockets ▸ List.mem_cons_of_mem s' hs)

theorem fits_congr {c' : Connection β} (h : Fits c t) (hstate : c'.state = c.state)
    (htold : c'.told = c.told) (hrenewals : c'.renewals = c.renewals) : Fits c' t := by
  obtain ⟨hholds, hretry, hsaid, hrenewal⟩ := h
  constructor
  · rwa [hstate]
  · rwa [hstate]
  · rwa [hstate, htold]
  · rwa [hstate, htold, hrenewals]

/-- Nothing but the sockets and the retry matters before the connection is live. -/
theorem fits_not_live (hholds : t.Holds c.state) (hretry : t.retry = c.state.isBackingOff)
    (hlive : c.state ≠ .live) : Fits c t :=
  ⟨hholds, hretry, fun h => absurd h hlive, fun h => absurd h hlive⟩

theorem suits_nil (h : Fits c t) : Suits t ((c, []) : Outcome ε β) := ⟨trivial, h⟩

theorem suits_connect (hsockets : t.AllClosed) (hretry : t.retry = false) :
    Suits t (c.connect : Outcome ε β) := by
  refine ⟨⟨hsockets, trivial⟩, fits_not_live ?_ hretry ?_⟩
  · exact ⟨⟨t.sockets, rfl, hsockets⟩, rfl⟩
  · simp [connect]

theorem suits_closed (hsockets : t.AllClosed) (hretry : t.retry = false) (code : Option ℕ) :
    Suits t (c.closed code : Outcome ε β) := by
  unfold closed
  split
  · exact ⟨⟨trivial, trivial⟩, fits_not_live hsockets hretry (by simp)⟩
  · dsimp only
    generalize (if code = some closeProtocol then
      { c with refusals := saturatingSucc c.refusals } else c) = c'
    split
    · exact ⟨⟨trivial, trivial⟩, fits_not_live hsockets hretry (by simp)⟩
    · exact ⟨⟨hretry, trivial⟩, fits_not_live hsockets rfl (by simp)⟩

theorem suits_close {o : Outcome ε β} (h : Suits t.closed o) :
    Suits t (o.1, .close :: o.2) := ⟨⟨trivial, h.1⟩, h.2⟩

theorem suits_resync (hsocket : t.Last .opened) (hretry : t.retry = false) :
    Suits t (c.resync : Outcome ε β) :=
  suits_close (suits_closed hsocket.closed hretry none)

theorem suits_renewLater (hlive : c.state = .live) (hsocket : t.Last .opened)
    (hretry : t.retry = false) (hsaid : t.said = c.told) :
    Suits t (c.renewLater : Outcome ε β) := by
  unfold renewLater
  split
  · next htold =>
    refine ⟨trivial, ⟨?_, ?_, fun _ => hsaid, fun _ h => ?_⟩⟩
    · rwa [hlive]
    · rwa [hlive]
    · simp [htold] at h
  · refine ⟨⟨trivial, trivial⟩, ⟨?_, ?_, fun _ => hsaid, fun _ _ => rfl⟩⟩
    · dsimp only
      rwa [hlive]
    · dsimp only
      rwa [hlive]

/-- Saying what the page shows, and timing the next time. -/
theorem suits_say (hlive : c.state = .live) (hsocket : t.Last .opened)
    (hretry : t.retry = false) :
    let said : Outcome ε β := c.renewLater
    Suits t (said.1, .send (.viewing c.told) :: said.2) := by
  obtain ⟨hproper, hfits⟩ := suits_renewLater (ε := ε) (t := { t with said := c.told })
    hlive hsocket hretry rfl
  obtain ⟨rest, hsockets, -⟩ := hsocket
  exact ⟨⟨by simp [Transport.Allows, hsockets], hproper⟩, hfits⟩

theorem suits_sayViewing [DecidableEq β] (h : Fits c t) :
    Suits t (c.sayViewing : Outcome ε β) := by
  unfold sayViewing
  split_ifs with hskip
  · exact suits_nil h
  · obtain ⟨hlive, -⟩ : c.state = .live ∧ c.told ≠ c.shown := by simpa using hskip
    have hholds := h.holds
    have hretry := h.retry
    rw [hlive] at hholds hretry
    exact suits_say (c := { c with told := c.shown }) hlive hholds hretry

/-- What is said after an answer suits what the answer leaves. -/
theorem Suits.sayViewing [DecidableEq β] {o : Outcome ε β} (h : Suits t o) :
    let said : Outcome ε β := o.1.sayViewing
    Suits t (said.1, o.2 ++ said.2) := by
  obtain ⟨hproper, hfits⟩ := suits_sayViewing (ε := ε) h.2
  refine ⟨Observer.proper_append.mpr ⟨h.1, hproper⟩, ?_⟩
  rwa [Observer.seen_append]

theorem Fits.last_opened (h : Fits c t) (hopen : c.state.isOpen) : t.Last .opened := by
  have hholds := h.holds
  cases hstate : c.state <;> rw [hstate] at hopen hholds
  case resuming => exact hholds.1
  case replaying => exact hholds.1
  case live => exact hholds
  all_goals exact absurd hopen (by simp [State.isOpen])

theorem Fits.no_retry (h : Fits c t) (hstate : c.state.isBackingOff = false) : t.retry = false :=
  h.retry.trans hstate

theorem not_isBackingOff_of_isOpen {s : State} (h : s.isOpen) : s.isBackingOff = false := by
  cases s <;> first | rfl | exact absurd h (by simp [State.isOpen])

/-- An open socket that has resumed is replaying, and otherwise stays what it was. -/
theorem Fits.resumed {c' : Connection β} (h : Fits c t)
    (hstate : c'.state = if c.state = .resuming then .replaying else c.state)
    (htold : c'.told = c.told) (hrenewals : c'.renewals = c.renewals) : Fits c' t := by
  by_cases hresuming : c.state = .resuming
  · rw [if_pos hresuming] at hstate
    have hholds := h.holds
    have hretry := h.retry
    rw [hresuming] at hholds hretry
    exact fits_not_live (by rwa [hstate]) (by rwa [hstate]) (by simp [hstate])
  · rw [if_neg hresuming] at hstate
    exact fits_congr h hstate htold hrenewals

theorem suits_frameEvent (hopen : c.state.isOpen) (h : Fits c t) (e : EventEnvelope ε) :
    Suits t (c.frameEvent e) := by
  have hresync : Suits t (c.resync : Outcome ε β) :=
    suits_resync (h.last_opened hopen) (h.no_retry (not_isBackingOff_of_isOpen hopen))
  have hpass : Fits { c with
      last := some e.seq
      unreadable := 0
      state := if c.state = .resuming then .replaying else c.state } t :=
    h.resumed rfl rfl rfl
  unfold frameEvent
  cases c.last with
  | none => exact ⟨⟨trivial, trivial⟩, hpass⟩
  | some last =>
      dsimp only
      split
      · exact suits_nil h
      · split
        · exact hresync
        · exact ⟨⟨trivial, trivial⟩, hpass⟩

theorem fits_goLive (hopen : c.state.isOpen) (hlive : c.state ≠ .live) (h : Fits c t)
    (latest : ℕ) (reload : Bool) : Fits (c.goLive latest reload) t := by
  have hsaid : t.said = none := by
    have hholds := h.holds
    cases hstate : c.state <;> rw [hstate] at hopen hlive hholds
    case resuming => exact hholds.2
    case replaying => exact hholds.2
    all_goals first | exact absurd rfl hlive | exact absurd hopen (by simp [State.isOpen])
  refine ⟨h.last_opened hopen, ?_, fun _ => hsaid, fun _ htold => by simp [goLive] at htold⟩
  exact h.no_retry (not_isBackingOff_of_isOpen hopen)

theorem suits_frameLive [DecidableEq β] (hopen : c.state.isOpen) (h : Fits c t) (latest : ℕ) :
    Suits t (c.frameLive latest : Outcome ε β) := by
  unfold frameLive
  split_ifs with hlive hbehind
  · exact suits_nil h
  · exact suits_resync (h.last_opened hopen) (h.no_retry (not_isBackingOff_of_isOpen hopen))
  · dsimp only
    generalize (!c.synced || c.last.any (latest < ·)) = reload
    obtain ⟨hproper, hfits⟩ := suits_sayViewing (ε := ε) (fits_goLive hopen hlive h latest reload)
    cases reload with
    | false => exact ⟨hproper, hfits⟩
    | true => exact ⟨⟨trivial, hproper⟩, hfits⟩

theorem suits_frame [DecidableEq β] (hopen : c.state.isOpen) (h : Fits c t)
    (f : ServerFrame ε) : Suits t (c.frame f) := by
  cases f with
  | event e => exact suits_frameEvent hopen h e
  | live latest => exact suits_frameLive hopen h latest
  | reset after => exact ⟨⟨trivial, trivial⟩, h.resumed rfl rfl rfl⟩
  | pong => exact suits_nil h

theorem suits_onUnreadable (hsocket : t.Last .opened) (hretry : t.retry = false) :
    Suits t (c.onUnreadable : Outcome ε β) := by
  unfold onUnreadable
  dsimp only
  split
  · exact ⟨⟨trivial, trivial, trivial⟩, fits_not_live hsocket.closed hretry (by simp)⟩
  · exact suits_resync hsocket hretry

/-- An input that reports nothing about the socket or the timers the connection relies on. -/
theorem Fits.hear (h : Fits c t) {input : Input ε β}
    (hopened : input = .opened → c.state ≠ .connecting)
    (hclosed : ∀ code, input = .closed code → c.state ≠ .connecting ∧ c.state.isOpen = false)
    (hretry : input = .retryDue → c.state.isBackingOff = false)
    (hdue : ∀ renewal, input = .viewingDue renewal → c.state ≠ .live) :
    Fits c (t.hear input) := by
  cases input with
  | opened =>
      refine { h with holds := ?_ }
      have hholds := h.holds
      cases hstate : c.state <;> rw [hstate] at hholds
      case connecting => exact absurd hstate (hopened rfl)
      case resuming => exact ⟨hholds.1.opened, hholds.2⟩
      case replaying => exact ⟨hholds.1.opened, hholds.2⟩
      case live => exact Transport.Last.opened hholds
      all_goals exact Transport.AllClosed.opened hholds
  | closed code =>
      obtain ⟨hconnecting, hopen⟩ := hclosed code rfl
      refine { h with holds := ?_ }
      have hholds := h.holds
      cases hstate : c.state <;> rw [hstate] at hholds hopen
      case connecting => exact absurd hstate hconnecting
      case resuming => cases hopen
      case replaying => cases hopen
      case live => cases hopen
      all_goals exact Transport.AllClosed.closed hholds
  | retryDue =>
      refine ⟨h.holds, (hretry rfl).symm, h.said, h.renewal⟩
  | viewingDue renewal =>
      exact ⟨h.holds, h.retry, h.said, fun hlive => absurd hlive (hdue renewal rfl)⟩
  | _ => exact h

/-- The renewal that is due is said again, unless another was asked for since. -/
theorem suits_onViewingDue (hlive : c.state = .live) (h : Fits c t) (renewal : ℕ) :
    Suits (t.hear (.viewingDue renewal : Input ε β)) (c.onViewingDue renewal : Outcome ε β) := by
  have hholds := h.holds
  have hretry := h.retry
  rw [hlive] at hholds hretry
  unfold onViewingDue
  split
  · exact suits_say hlive hholds hretry
  · next hother =>
    refine suits_nil ⟨h.holds, h.retry, h.said, fun _ htold => ?_⟩
    have hne : c.renewals ≠ renewal := fun heq => hother ⟨heq.symm, htold⟩
    simp [Transport.hear, h.renewal hlive htold, hne]

/-- Stopping, or signing out, closes what is open and forgets the retry. -/
theorem suits_end (h : Fits c t) {c' : Connection β} {ks : List (Command ε β)}
    (hstate : c'.state = .stopped ∨ c'.state = .signedOut)
    (hks : ks = [] ∨ ks = [.signedOut]) : Suits t (c', .close :: .cancelRetry :: ks) := by
  have hclosed : t.closed.AllClosed := by
    have hholds := h.holds
    cases hc : c.state <;> rw [hc] at hholds
    case connecting => exact hholds.1.closed
    case resuming => exact hholds.1.closed
    case replaying => exact hholds.1.closed
    case live => exact Transport.Last.closed hholds
    all_goals exact Transport.AllClosed.closed hholds
  have hfits : Fits c' ({ t.closed with retry := false } : Transport β) := by
    rcases hstate with hc' | hc'
    · exact fits_not_live (by rwa [hc']) (by rw [hc']; rfl) (by simp [hc'])
    · exact fits_not_live (by rwa [hc']) (by rw [hc']; rfl) (by simp [hc'])
  rcases hks with rfl | rfl
  · exact ⟨⟨trivial, trivial, trivial⟩, hfits⟩
  · exact ⟨⟨trivial, trivial, trivial, trivial⟩, hfits⟩

theorem suits_transition [DecidableEq β] (h : Fits c t) (input : Input ε β) :
    Suits (t.hear input) (c.transition input) := by
  have hholds := h.holds
  have hretry := h.retry
  unfold transition
  split
  case h_1 hstate =>
    exact suits_nil (h.hear (by simp [hstate]) (by simp [hstate, State.isOpen])
      (by simp [hstate, State.isBackingOff]) (by simp [hstate]))
  case h_2 hstate =>
    rw [hstate] at hholds hretry
    exact ⟨trivial, fits_not_live hholds hretry (by simp)⟩
  case h_3 hstate _ =>
    exact suits_nil (h.hear (by simp [hstate]) (by simp [hstate, State.isOpen])
      (by simp [hstate, State.isBackingOff]) (by simp [hstate]))
  case h_4 => exact suits_end h (.inr rfl) (.inr rfl)
  case h_5 => exact suits_end h (.inl rfl) (.inl rfl)
  case h_6 hstate =>
    rw [hstate] at hholds hretry
    exact suits_connect hholds hretry
  case h_7 hstate =>
    rw [hstate] at hholds
    exact suits_connect hholds rfl
  case h_8 hstate =>
    rw [hstate] at hholds
    obtain ⟨hproper, hfits⟩ := suits_connect (ε := ε) (c := c)
      (t := { t with retry := false }) hholds rfl
    exact ⟨⟨trivial, hproper⟩, hfits⟩
  case h_9 hstate =>
    have hhead : t.sockets.head? = some .opened := by
      rw [hstate] at hholds
      obtain ⟨rest, hsockets, -⟩ := hholds
      rw [hsockets, List.head?_cons]
    exact ⟨⟨hhead, trivial, trivial⟩, fits_congr h rfl rfl rfl⟩
  case h_10 ping hstate =>
    rw [hstate] at hholds hretry
    unfold onPongOverdue
    split
    · exact suits_resync hholds hretry
    · exact suits_nil h
  case h_11 renewal hstate => exact suits_onViewingDue hstate h renewal
  case h_12 hstate =>
    rw [hstate] at hholds hretry
    obtain ⟨⟨rest, hsockets, hrest⟩, hsaid⟩ := hholds
    have hopened : t.opened.sockets = .opened :: rest := by
      simp [Transport.opened, hsockets, Socket.opens]
    refine ⟨⟨?_, trivial⟩, fits_not_live ⟨⟨rest, hopened, hrest⟩, hsaid⟩ hretry (by simp)⟩
    exact (congrArg List.head? hopened).trans List.head?_cons
  case h_13 code hstate =>
    rw [hstate] at hholds hretry
    obtain ⟨hproper, hfits⟩ := suits_closed (ε := ε) (c := c) (t := t.closed) hholds.1.closed
      hretry code
    dsimp only
    split
    · refine ⟨Observer.proper_append.mpr ⟨hproper, trivial, trivial⟩, ?_⟩
      rw [Observer.seen_append]
      exact hfits
    · rw [List.append_nil]
      exact ⟨hproper, hfits⟩
  case h_14 code hstate =>
    rw [hstate] at hholds hretry
    exact suits_closed hholds.1.closed hretry code
  case h_15 code hstate =>
    rw [hstate] at hholds hretry
    exact suits_closed hholds.1.closed hretry code
  case h_16 code hstate =>
    rw [hstate] at hholds hretry
    exact suits_closed (Transport.Last.closed hholds) hretry code
  case h_17 f hstate =>
    exact suits_frame (c := { c with awaiting := none }) (by simp [hstate, State.isOpen])
      (fits_congr h rfl rfl rfl) f
  case h_18 f hstate =>
    exact suits_frame (c := { c with awaiting := none }) (by simp [hstate, State.isOpen])
      (fits_congr h rfl rfl rfl) f
  case h_19 f hstate =>
    exact suits_frame (c := { c with awaiting := none }) (by simp [hstate, State.isOpen])
      (fits_congr h rfl rfl rfl) f
  case h_20 hstate =>
    rw [hstate] at hholds hretry
    exact suits_onUnreadable hholds.1 hretry
  case h_21 hstate =>
    rw [hstate] at hholds hretry
    exact suits_onUnreadable hholds.1 hretry
  case h_22 hstate =>
    rw [hstate] at hholds hretry
    exact suits_onUnreadable hholds hretry
  case h_23 =>
    refine suits_nil (h.hear (fun hinput hstate => ?_) (fun code hinput => ?_) ?_
      fun renewal hinput => ?_)
    · simp_all
    · cases hstate : c.state <;> simp_all [State.isOpen]
    · cases hstate : c.state <;> simp_all [State.isBackingOff]
    · simp_all

end Fits

section Told

variable {c : Connection β}

/-- A live socket was told what the page shows. -/
def Told (c : Connection β) : Prop := c.state = .live → c.told = c.shown

theorem told_of_not_live (h : c.state ≠ .live) : Told c := fun hlive => absurd hlive h

theorem told_renewLater (h : Told c) : Told (c.renewLater : Outcome ε β).1 := by
  unfold renewLater
  split
  · exact h
  · exact h

theorem told_sayViewing [DecidableEq β] : Told (c.sayViewing : Outcome ε β).1 := by
  unfold sayViewing
  split_ifs with hskip
  · intro hlive
    simpa [show c.state = .live from hlive] using hskip
  · exact told_renewLater (ε := ε) (c := { c with told := c.shown }) fun _ => rfl

theorem told_closed (code : Option ℕ) : Told (c.closed code : Outcome ε β).1 := by
  unfold closed
  split
  · exact told_of_not_live (by simp)
  · dsimp only
    generalize (if code = some closeProtocol then
      { c with refusals := saturatingSucc c.refusals } else c) = c'
    split
    · exact told_of_not_live (by simp)
    · exact told_of_not_live (by simp)

theorem told_frame [DecidableEq β] (h : Told c) (f : ServerFrame ε) : Told (c.frame f).1 := by
  cases f with
  | event e =>
      have hpass : Told { c with
          last := some e.seq
          unreadable := 0
          state := if c.state = .resuming then .replaying else c.state } := by
        intro hlive
        refine h ?_
        by_cases hresuming : c.state = .resuming
        · simp [hresuming] at hlive
        · simpa [hresuming] using hlive
      simp only [frame, frameEvent]
      split
      · split
        · exact h
        · split
          · exact told_closed (ε := ε) none
          · exact hpass
      · exact hpass
  | live latest =>
      simp only [frame, frameLive]
      split
      · exact h
      · split
        · exact told_closed (ε := ε) none
        · exact told_sayViewing (ε := ε)
  | reset after =>
      intro hlive
      refine h ?_
      by_cases hresuming : c.state = .resuming
      · simp [frame, hresuming] at hlive
      · simpa [frame, hresuming] using hlive
  | pong => exact h

theorem told_onUnreadable : Told (c.onUnreadable : Outcome ε β).1 := by
  unfold onUnreadable
  dsimp only
  split
  · exact told_of_not_live (by simp)
  · exact told_closed (ε := ε) none

theorem told_onPongOverdue (h : Told c) (ping : ℕ) :
    Told (c.onPongOverdue ping : Outcome ε β).1 := by
  unfold onPongOverdue
  split
  · exact told_closed (ε := ε) none
  · exact h

theorem told_onViewingDue (h : Told c) (renewal : ℕ) :
    Told (c.onViewingDue renewal : Outcome ε β).1 := by
  unfold onViewingDue
  split
  · exact told_renewLater (ε := ε) h
  · exact h

theorem told_transition [DecidableEq β] (h : Told c) (input : Input ε β) :
    Told (c.transition input).1 := by
  unfold transition
  split
  all_goals first
    | exact h
    | exact told_closed (ε := ε) _
    | exact told_onUnreadable (ε := ε)
    | exact told_onPongOverdue (ε := ε) h _
    | exact told_onViewingDue (ε := ε) h _
    | exact told_frame (c := { c with awaiting := none }) h _
    | exact told_of_not_live (by simp [connect])

end Told

section Run

/-- The connection between two inputs, and what the transport then holds. -/
structure Settled (c : Connection β) (t : Transport β) : Prop where
  fits : Fits c t
  told : Told c

theorem settled_new : Settled (new : Connection β) .idle :=
  ⟨fits_not_live (by simp [new, Transport.Holds, Transport.AllClosed, Transport.idle]) rfl
    (by simp [new]), told_of_not_live (by simp [new])⟩

/-- Noting what an input says about the page changes what the page shows, and nothing else. -/
theorem fits_note {c : Connection β} {t : Transport β} (h : Fits c t) (input : Input ε β) :
    Fits (c.note input).1 t := by
  cases input <;> exact fits_congr h rfl rfl rfl

/-- An input after which nothing is said leaves what the page shows. -/
theorem told_note {c : Connection β} (h : Told c) {input : Input ε β}
    (hquiet : (c.note input).2 = false) : Told (c.note input).1 := by
  cases input <;> first | exact h | cases hquiet

theorem settled_handle [DecidableEq β] {c : Connection β} {t : Transport β} (input : Input ε β)
    (h : Settled c t) :
    (transport ε β).Proper Transport.Allows (t.hear input) (c.handle input).2 ∧
      Settled (c.handle input).1 ((transport ε β).seen (t.hear input) (c.handle input).2) := by
  have hsuits : Suits (t.hear input) ((c.note input).1.transition input) :=
    suits_transition (fits_note h.fits input) input
  unfold handle
  dsimp only
  split
  · obtain ⟨hproper, hfits⟩ := hsuits.sayViewing
    exact ⟨hproper, hfits, told_sayViewing (ε := ε)⟩
  · next hquiet =>
    exact ⟨hsuits.1, hsuits.2, told_transition (told_note h.told (by simpa using hquiet)) input⟩

theorem state_sayViewing [DecidableEq β] (c : Connection β) :
    (c.sayViewing : Outcome ε β).1.state = c.state := by
  unfold sayViewing
  split
  · rfl
  · unfold renewLater
    split <;> rfl

/-- What ends the wait for a retry is the retry, or forgets it. -/
theorem leaves_backingOff [DecidableEq β] {c : Connection β} {input : Input ε β}
    (hbefore : c.state.isBackingOff) (hafter : (c.handle input).1.state.isBackingOff = false) :
    input = .retryDue ∨ .cancelRetry ∈ (c.handle input).2 := by
  cases hstate : c.state <;> rw [hstate] at hbefore
  case backingOff attempt delay =>
    cases input <;> simp_all [handle, note, transition, state_sayViewing, State.isBackingOff]
  all_goals cases hbefore

variable [DecidableEq β] (inputs : List (Input ε β))

/-- The connection after the inputs. -/
def current : Connection β := (machine ε β).after new inputs

/-- The inputs, each with the commands that answered it. -/
def history : List (Entry (Input ε β) (Command ε β)) := (machine ε β).log new inputs

/-- What the transport holds after what happened. -/
def held (entries : List (Entry (Input ε β) (Command ε β))) : Transport β :=
  (transport ε β).after .idle entries

/-- One socket, one timer, and a gateway that was told what the page shows. -/
structure OneSocket : Prop where
  connect : ∀ before after, history inputs = before ++ .command .connect :: after →
    ∀ s ∈ (held before).sockets, s = .closed
  send : ∀ before f after, history inputs = before ++ .command (.send f) :: after →
    (held before).sockets.head? = some .opened
  timer : ∀ before delay after, history inputs = before ++ .command (.retryAfter delay) :: after →
    (held before).retry = false
  retry : (held (history inputs)).retry = true ↔
    ∃ attempt delay, (current inputs).state = .backingOff attempt delay
  cancelled : (∃ attempt delay, (current inputs).state = .backingOff attempt delay) →
    ∀ input : Input ε β,
      (∃ attempt delay, ((current inputs).handle input).1.state = .backingOff attempt delay) ∨
        input = .retryDue ∨ .cancelRetry ∈ ((current inputs).handle input).2
  viewing : (current inputs).state = .live →
    (held (history inputs)).said = (current inputs).shown ∧
      ((current inputs).shown.isSome →
        (held (history inputs)).renewal = some (current inputs).renewals)

theorem State.isBackingOff_iff {s : State} :
    s.isBackingOff = true ↔ ∃ attempt delay, s = .backingOff attempt delay := by
  cases s <;> simp [State.isBackingOff]

theorem one_socket : OneSocket inputs := by
  have hstep : ∀ (c : Connection β) (t : Transport β) (input : Input ε β), Settled c t →
      (transport ε β).Proper Transport.Allows ((transport ε β).hear t input)
          ((machine ε β).handle c input).2 ∧
        Settled ((machine ε β).handle c input).1
          ((transport ε β).seen ((transport ε β).hear t input) ((machine ε β).handle c input).2) :=
    fun _ _ input h => settled_handle input h
  obtain ⟨hobeyed, hfits, htold⟩ := run_kept (machine ε β) (transport ε β) hstep settled_new inputs
  refine ⟨fun before after h => ?_, fun before f after h => ?_, fun before delay after h => ?_,
    ?_, ?_, fun hlive => ?_⟩
  · exact hobeyed.allowed_at h
  · exact hobeyed.allowed_at h
  · exact hobeyed.allowed_at h
  · rw [← State.isBackingOff_iff]
    exact Bool.eq_iff_iff.mp hfits.retry
  · intro hbefore input
    rw [← State.isBackingOff_iff] at hbefore ⊢
    cases hafter : ((current inputs).handle input).1.state.isBackingOff with
    | true => exact .inl rfl
    | false => exact .inr (leaves_backingOff hbefore hafter)
  · have hshown : (current inputs).told = (current inputs).shown := htold hlive
    exact ⟨(hfits.said hlive).trans hshown, fun h => hfits.renewal hlive (by rwa [← hshown] at h)⟩

/-- A socket that the gateway closes is followed by a second once the retry is due. -/
example : (held (history [.start, .opened, .closed none, .retryDue] :
    List (Entry (Input Unit ℕ) (Command Unit ℕ)))).sockets = [.connecting, .closed] := by
  decide

end Run

end Connection

end Bokkie
