import Bokkie.ClientAccount
import Bokkie.IdMap
import Bokkie.Messages
import Bokkie.Runs

/-!
# Unsent drafts

The text typed for a Bot lives in its open conversation, is set aside when the conversation is left
and taken back when it opens again. A reply to a send names only the Bot, and a flag says that a
send is under way. Sends are numbered, and what was typed and is not yet accepted is kept, to tell
what becomes of it.
-/

namespace Bokkie.Drafts

open ClientAccount (CommandError)

/-- The open conversation, as far as its draft goes. -/
structure Open where
  bot : ℕ
  draft : String
  /-- A send is under way. -/
  sending : Bool
deriving DecidableEq

/-- A message on its way to a Bot. -/
structure Send where
  id : ℕ
  bot : ℕ
  text : String
deriving DecidableEq

/-- The gateway's answer to a send, or what the client is told for want of one. -/
structure Sent where
  send : Send
  result : Except CommandError Unit

/-- The signed-in client, its sends, and the gateway's answers on their way. `last` is the latest
send's number, and `typed` what the user typed for each Bot that no accepted message has said. -/
structure World where
  bots : IdMap BotStatus
  opened : Option Open
  drafts : IdMap String
  requests : List Send
  replies : List Sent
  last : ℕ
  accepted : List ℕ
  typed : ℕ → String

inductive Action where
  /-- The client's copy of a Bot changes. -/
  | bot (id : ℕ) (status : BotStatus)
  | openConversation (bot : ℕ)
  /-- Back, or another screen. -/
  | leave
  | editDraft (draft : String)
  | sendText (text : String)
  /-- The gateway accepts a message; its answer may be lost. -/
  | accept (id : ℕ) (lost : Option CommandError)
  /-- The gateway refuses a message, or it never gets there. -/
  | refuse (id : ℕ) (error : CommandError)
  | deliver (id : ℕ)
  /-- The session ends, and nothing of it is heard of again. -/
  | endSession

namespace World

def new : World := ⟨∅, none, ∅, [], [], 0, [], fun _ => ""⟩

/-- Close the open conversation, keeping its unsent draft for when it opens again. A draft being
sent is not kept. -/
def takeOpen (w : World) : World :=
  match w.opened with
  | none => w
  | some o => { w with
      opened := none
      drafts := if !o.sending ∧ o.draft ≠ "" then w.drafts.insert o.bot o.draft else w.drafts }

def openConversation (w : World) (bot : ℕ) : World :=
  if w.bots[bot]?.isNone then w
  else if w.opened.any (·.bot = bot) then w
  else
    let w := w.takeOpen
    { w with
      opened := some ⟨bot, w.drafts[bot]?.getD "", false⟩
      drafts := w.drafts.erase bot }

/-- Whether a text can be sent to the open Bot. -/
def canSend (w : World) (text : String) : Bool :=
  match w.opened with
  | none => false
  | some o => !o.sending ∧ trim text ≠ "" ∧ w.bots[o.bot]? ≠ some .refused

def editDraft (w : World) (draft : String) : World :=
  match w.opened with
  | some o =>
    if o.sending then w
    else { w with
      opened := some { o with draft }
      typed := Function.update w.typed o.bot draft }
  | none => w

/-- Send a text to the open Bot, as the composer or an agent gives it. -/
def sendText (w : World) (text : String) : World :=
  match w.opened with
  | some o =>
    if w.canSend text then { w with
      opened := some { o with sending := true }
      requests := w.requests ++ [⟨w.last + 1, o.bot, trim text⟩]
      last := w.last + 1 }
    else w
  | none => w

def sessionEnded (w : World) : World := { w with
  opened := none
  drafts := ∅
  requests := []
  replies := []
  typed := fun _ => "" }

/-- The reply to a send. -/
def sent (w : World) (bot : ℕ) (result : Except CommandError Unit) : World :=
  match w.opened with
  | none => w
  | some o =>
    if o.bot = bot ∧ o.sending then
      match result with
      | .ok _ => { w with opened := some { o with sending := false, draft := "" } }
      | .error error =>
        if error.isUnauthenticated then w.sessionEnded
        else { w with opened := some { o with sending := false } }
    else w

/-- The gateway has a message: what was typed for the Bot is said, if this was it. -/
def accept (w : World) (s : Send) (lost : Option CommandError) : World := { w with
  requests := w.requests.filter (·.id ≠ s.id)
  replies := w.replies ++ [⟨s, lost.elim (.ok ()) .error⟩]
  accepted := s.id :: w.accepted
  typed := if trim (w.typed s.bot) = s.text then Function.update w.typed s.bot "" else w.typed }

def refuse (w : World) (s : Send) (error : CommandError) : World := { w with
  requests := w.requests.filter (·.id ≠ s.id)
  replies := w.replies ++ [⟨s, .error error⟩] }

def deliver (w : World) (r : Sent) : World :=
  sent { w with replies := w.replies.filter (·.send.id ≠ r.send.id) } r.send.bot r.result

def request (w : World) (id : ℕ) : Option Send := w.requests.find? (·.id = id)

def reply (w : World) (id : ℕ) : Option Sent := w.replies.find? (·.send.id = id)

def step (w : World) : Action → Option World
  | .bot id status => some { w with bots := w.bots.insert id status }
  | .openConversation bot => some (w.openConversation bot)
  | .leave => some w.takeOpen
  | .editDraft draft => some (w.editDraft draft)
  | .sendText text => some (w.sendText text)
  | .accept id lost => (w.request id).map fun s => w.accept s lost
  | .refuse id error => (w.request id).map fun s => w.refuse s error
  | .deliver id => (w.reply id).map w.deliver
  | .endSession => some w.sessionEnded

/-- The draft the client has for a Bot. -/
def draftOf (w : World) (bot : ℕ) : String :=
  match w.opened with
  | some o => if o.bot = bot then o.draft else w.drafts[bot]?.getD ""
  | none => w.drafts[bot]?.getD ""

end World

/-! ## Sends that are waited for -/

/-- The conversation may be left: no send is under way that the gateway has yet to accept. -/
def MayLeave (w : World) : Prop := ∀ o ∈ w.opened, o.sending → w.last ∈ w.accepted

/-- What is sent is the draft, a conversation is not left while the gateway has yet to accept its
send, and an answer that comes while a send to its Bot is under way answers that send. -/
def Waited (w : World) : Action → Prop
  | .openConversation bot => w.bots[bot]?.isSome → ¬ w.opened.any (·.bot = bot) → MayLeave w
  | .leave => MayLeave w
  | .sendText text => w.canSend text → ∀ o ∈ w.opened, trim text = trim o.draft
  | .deliver id => ∀ r ∈ w.reply id, ∀ o ∈ w.opened, o.bot = r.send.bot → o.sending →
      r.send.id = w.last
  | _ => True

/-! ## What the client keeps -/

section Invariant

variable {w : World} {o : Open} {s : Send} {r : Sent}

/-- A send is under way. -/
def Sending (w : World) : Prop := ∃ o ∈ w.opened, o.sending = true

/-- What was typed and not yet accepted is the draft. What the gateway has yet to accept, or has
refused, is the send under way, whose text is the draft's. -/
structure Inv (w : World) : Prop where
  kept : ∀ bot, w.typed bot ≠ "" → w.draftOf bot = w.typed bot
  requests : ∀ s ∈ w.requests, Sending w ∧ s.id = w.last
  fresh : ∀ s ∈ w.requests, s.id ∉ w.accepted
  refused : ∀ r ∈ w.replies, r.send.id ∉ w.accepted → Sending w ∧ r.send.id = w.last
  requested : ∀ o ∈ w.opened, o.sending = true → ∀ s ∈ w.requests,
    s.bot = o.bot ∧ s.text = trim o.draft
  answered : ∀ o ∈ w.opened, o.sending = true → ∀ r ∈ w.replies, r.send.id = w.last →
    r.send.bot = o.bot ∧ r.send.text = trim o.draft
  said : ∀ o ∈ w.opened, o.sending = true → w.last ∈ w.accepted → w.typed o.bot = ""
  ok : ∀ r ∈ w.replies, r.result = .ok () → r.send.id ∈ w.accepted
  apart : ∀ s ∈ w.requests, ∀ r ∈ w.replies, s.id ≠ r.send.id
  numbered : ∀ r ∈ w.replies, r.send.id ≤ w.last
  numberedAccepted : ∀ i ∈ w.accepted, i ≤ w.last

theorem inv_new : Inv .new where
  kept := fun _ h => absurd rfl h
  requests := fun _ h => by cases h
  fresh := fun _ h => by cases h
  refused := fun _ h => by cases h
  requested := fun _ h => by cases h
  answered := fun _ h => by cases h
  said := fun _ h => by cases h
  ok := fun _ h => by cases h
  apart := fun _ h => by cases h
  numbered := fun _ h => by cases h
  numberedAccepted := fun _ h => by cases h

/-- No send is under way: every message was accepted, and the conversation may change. -/
structure Quiet (w : World) : Prop where
  requests : ∀ s, s ∉ w.requests
  replies : ∀ r ∈ w.replies, r.send.id ∈ w.accepted

theorem Inv.quiet_of (h : Inv w) (hno : Sending w → w.last ∈ w.accepted) : Quiet w where
  requests := fun s hs => by
    obtain ⟨hsending, hid⟩ := h.requests s hs
    exact h.fresh s hs (hid ▸ hno hsending)
  replies := fun r hr => by
    by_contra hnot
    obtain ⟨hsending, hid⟩ := h.refused r hr hnot
    exact hnot (hid ▸ hno hsending)

theorem not_sending (hopened : w.opened = some o) (hidle : o.sending = false) : ¬ Sending w := by
  rintro ⟨o', ho', hsending⟩
  rw [hopened] at ho'
  obtain rfl := Option.some.inj ho'
  rw [hidle] at hsending
  cases hsending

/-- A conversation in which nothing is being sent, with what was typed as its drafts. -/
theorem Inv.idle (h : Inv w) (hquiet : Quiet w) (opened : Option Open) (drafts : IdMap String)
    (typed : ℕ → String) (hidle : ∀ o ∈ opened, o.sending = false)
    (hkept : ∀ bot, typed bot ≠ "" →
      World.draftOf { w with opened, drafts, typed } bot = typed bot) :
    Inv { w with opened, drafts, typed } where
  kept := hkept
  requests := fun s hs => absurd hs (hquiet.requests s)
  fresh := h.fresh
  refused := fun r hr hnot => absurd (hquiet.replies r hr) hnot
  requested := fun o ho hsending => by
    rw [hidle o ho] at hsending
    cases hsending
  answered := fun o ho hsending => by
    rw [hidle o ho] at hsending
    cases hsending
  said := fun o ho hsending => by
    rw [hidle o ho] at hsending
    cases hsending
  ok := h.ok
  apart := h.apart
  numbered := h.numbered
  numberedAccepted := h.numberedAccepted

theorem draftOf_opened (h : w.opened = some o) : w.draftOf o.bot = o.draft := by
  simp [World.draftOf, h]

theorem draftOf_other {bot : ℕ} (h : ∀ o ∈ w.opened, o.bot ≠ bot) :
    w.draftOf bot = w.drafts[bot]?.getD "" := by
  unfold World.draftOf
  split
  · next o ho => rw [if_neg (h o ho)]
  · rfl

/-- Leaving sets the draft aside, unless it is said. -/
theorem Inv.takeOpen (h : Inv w) (hleave : MayLeave w) : Inv w.takeOpen := by
  unfold World.takeOpen
  split
  · exact h
  · next o ho =>
      have hquiet := h.quiet_of fun ⟨o, ho, hsending⟩ => hleave o ho hsending
      refine h.idle hquiet none _ w.typed (fun o ho => by cases ho) fun bot htyped => ?_
      have hkept := h.kept bot htyped
      by_cases hbot : o.bot = bot
      · subst hbot
        rw [draftOf_opened ho] at hkept
        have hidle : o.sending = false := by
          by_contra hsending
          have hsending : o.sending = true := by simpa using hsending
          exact htyped (h.said o ho hsending (hleave o ho hsending))
        simp [World.draftOf, hidle, hkept, htyped]
      · rw [draftOf_other fun o' ho' => by
          rw [ho] at ho'
          obtain rfl := Option.some.inj ho'
          exact hbot] at hkept
        rw [← hkept]
        unfold World.draftOf
        dsimp only
        split
        · rw [IdMap.getElem?_insert', if_neg hbot]
        · rfl

theorem opened_takeOpen : w.takeOpen.opened = none := by
  unfold World.takeOpen
  split
  · next h => exact h
  · rfl

theorem Inv.openConversation (h : Inv w) {bot : ℕ} (hwaited : Waited w (.openConversation bot)) :
    Inv (w.openConversation bot) := by
  unfold World.openConversation
  split
  · exact h
  · next hknown =>
      split
      · exact h
      · next hother =>
          have hleave : MayLeave w := hwaited (by simpa [Option.isSome_iff_ne_none] using hknown)
            hother
          have htaken := h.takeOpen hleave
          have hquiet := htaken.quiet_of fun ⟨o, ho, _⟩ => by
            rw [opened_takeOpen] at ho
            cases ho
          refine htaken.idle hquiet _ _ w.takeOpen.typed (fun o ho => ?_) fun b htyped => ?_
          · obtain rfl := Option.some.inj ho
            rfl
          · rw [← htaken.kept b htyped, draftOf_other (w := w.takeOpen) fun o ho => by
              rw [opened_takeOpen] at ho
              cases ho]
            unfold World.draftOf
            dsimp only
            split
            · next heq => rw [heq]
            · next hne => rw [IdMap.getElem?_erase', if_neg hne]

theorem Inv.editDraft (h : Inv w) (draft : String) : Inv (w.editDraft draft) := by
  unfold World.editDraft
  split
  · next o ho =>
      split
      · exact h
      · next hidle =>
          have hidle : o.sending = false := by simpa using hidle
          have hquiet := h.quiet_of fun hsending => absurd hsending (not_sending ho hidle)
          refine h.idle hquiet _ w.drafts _ (fun o' ho' => ?_) fun bot htyped => ?_
          · obtain rfl := Option.some.inj ho'
            exact hidle
          · by_cases hbot : o.bot = bot
            · subst hbot
              simp [World.draftOf]
            · have hsame : Function.update w.typed o.bot draft bot = w.typed bot :=
                Function.update_of_ne (Ne.symm hbot) _ _
              rw [hsame] at htyped ⊢
              rw [← h.kept bot htyped]
              simp [World.draftOf, ho, hbot]
  · exact h

theorem Inv.sendText (h : Inv w) {text : String} (hwaited : Waited w (.sendText text)) :
    Inv (w.sendText text) := by
  unfold World.sendText
  split
  · next o ho =>
      split
      · next hcan =>
          have hidle : o.sending = false := by
            unfold World.canSend at hcan
            rw [ho] at hcan
            simp only [decide_eq_true_eq, Bool.not_eq_true'] at hcan
            exact hcan.1
          have hquiet := h.quiet_of fun hsending => absurd hsending (not_sending ho hidle)
          have hnew : w.last + 1 ∉ w.accepted := fun hmem =>
            absurd (h.numberedAccepted _ hmem) (Nat.not_succ_le_self _)
          have honly : ∀ s, s ∈ w.requests ++ [⟨w.last + 1, o.bot, trim text⟩] →
              s = ⟨w.last + 1, o.bot, trim text⟩ := fun s hs => by
            rcases List.mem_append.mp hs with hs | hs
            · exact absurd hs (hquiet.requests s)
            · exact List.mem_singleton.mp hs
          exact
            { kept := fun bot htyped => by
                have hkept := h.kept bot htyped
                unfold World.draftOf at hkept ⊢
                rw [ho] at hkept
                exact hkept
              requests := fun s hs => by
                rw [honly s hs]
                exact ⟨⟨_, rfl, rfl⟩, rfl⟩
              fresh := fun s hs => by
                rw [honly s hs]
                exact hnew
              refused := fun r hr hnot => absurd (hquiet.replies r hr) hnot
              requested := fun o' ho' _ s hs => by
                obtain rfl := Option.some.inj ho'
                rw [honly s hs]
                exact ⟨rfl, hwaited hcan o ho⟩
              answered := fun o' _ _ r hr hid => by
                have hle := h.numbered r hr
                have hid : r.send.id = w.last + 1 := hid
                omega
              said := fun o' _ _ hmem => absurd hmem hnew
              ok := h.ok
              apart := fun s hs r hr => by
                rw [honly s hs]
                have hle := h.numbered r hr
                dsimp only
                omega
              numbered := fun r hr => (h.numbered r hr).trans (Nat.le_succ _)
              numberedAccepted := fun i hi => (h.numberedAccepted i hi).trans (Nat.le_succ _) }
      · exact h
  · exact h

theorem mem_of_request {id : ℕ} (h : w.request id = some s) : s ∈ w.requests :=
  List.mem_of_find?_eq_some h

theorem mem_of_reply {id : ℕ} (h : w.reply id = some r) : r ∈ w.replies :=
  List.mem_of_find?_eq_some h

theorem mem_filter_requests {id : ℕ} (hs : s ∈ w.requests.filter (·.id ≠ id)) :
    s ∈ w.requests ∧ s.id ≠ id := by
  obtain ⟨hmem, hne⟩ := List.mem_filter.mp hs
  exact ⟨hmem, of_decide_eq_true hne⟩

/-- The send is told from the draft: what was typed is said once the gateway has it. -/
theorem Inv.accept (h : Inv w) (hs : s ∈ w.requests) (lost : Option CommandError) :
    Inv (w.accept s lost) := by
  obtain ⟨hsending, hid⟩ := h.requests s hs
  have htyped : ∀ bot, (w.accept s lost).typed bot ≠ "" →
      (w.accept s lost).typed bot = w.typed bot := by
    intro bot hne
    unfold World.accept at hne ⊢
    dsimp only at hne ⊢
    split at hne
    · next hsaid =>
        rw [if_pos hsaid]
        by_cases hbot : bot = s.bot
        · subst hbot
          exact absurd (Function.update_self _ _ _) hne
        · exact Function.update_of_ne hbot _ _
    · next hsaid => rw [if_neg hsaid]
  exact
    { kept := fun bot hne => by
        have hsame := htyped bot hne
        rw [hsame] at hne ⊢
        exact h.kept bot hne
      requests := fun s' hs' => h.requests s' (mem_filter_requests hs').1
      fresh := fun s' hs' => by
        obtain ⟨hmem, hne⟩ := mem_filter_requests hs'
        exact List.not_mem_cons_of_ne_of_not_mem hne (h.fresh s' hmem)
      refused := fun r hr hnot => by
        rcases List.mem_append.mp hr with hr | hr
        · exact h.refused r hr fun hmem => hnot (List.mem_cons_of_mem _ hmem)
        · rw [List.mem_singleton.mp hr] at hnot
          exact absurd List.mem_cons_self hnot
      requested := fun o ho ho' s' hs' => h.requested o ho ho' s' (mem_filter_requests hs').1
      answered := fun o ho ho' r hr hlast => by
        rcases List.mem_append.mp hr with hr | hr
        · exact h.answered o ho ho' r hr hlast
        · rw [List.mem_singleton.mp hr]
          exact h.requested o ho ho' s hs
      said := fun o ho ho' _ => by
        have ho : w.opened = some o := ho
        obtain ⟨hbot, htext⟩ := h.requested o ho ho' s hs
        by_contra hne
        have hsame := htyped o.bot hne
        rw [hsame] at hne
        have hdraft := h.kept o.bot hne
        rw [draftOf_opened ho] at hdraft
        unfold World.accept at hsame
        dsimp only at hsame
        rw [hbot, if_pos (by rw [← hdraft, htext]), Function.update_self] at hsame
        exact hne hsame.symm
      ok := fun r hr hok => by
        rcases List.mem_append.mp hr with hr | hr
        · exact List.mem_cons_of_mem _ (h.ok r hr hok)
        · rw [List.mem_singleton.mp hr]
          exact List.mem_cons_self
      apart := fun s' hs' r hr => by
        obtain ⟨hmem, hne⟩ := mem_filter_requests hs'
        rcases List.mem_append.mp hr with hr | hr
        · exact h.apart s' hmem r hr
        · rw [List.mem_singleton.mp hr]
          exact hne
      numbered := fun r hr => by
        rcases List.mem_append.mp hr with hr | hr
        · exact h.numbered r hr
        · rw [List.mem_singleton.mp hr]
          exact hid.le
      numberedAccepted := fun i hi => by
        rcases List.mem_cons.mp hi with rfl | hi
        · exact hid.le
        · exact h.numberedAccepted i hi }

theorem Inv.refuse (h : Inv w) (hs : s ∈ w.requests) (error : CommandError) :
    Inv (w.refuse s error) where
  kept := h.kept
  requests := fun s' hs' => h.requests s' (mem_filter_requests hs').1
  fresh := fun s' hs' => h.fresh s' (mem_filter_requests hs').1
  refused := fun r hr hnot => by
    rcases List.mem_append.mp hr with hr | hr
    · exact h.refused r hr hnot
    · rw [List.mem_singleton.mp hr]
      exact h.requests s hs
  requested := fun o ho ho' s' hs' => h.requested o ho ho' s' (mem_filter_requests hs').1
  answered := fun o ho ho' r hr hlast => by
    rcases List.mem_append.mp hr with hr | hr
    · exact h.answered o ho ho' r hr hlast
    · rw [List.mem_singleton.mp hr]
      exact h.requested o ho ho' s hs
  said := h.said
  ok := fun r hr hok => by
    rcases List.mem_append.mp hr with hr | hr
    · exact h.ok r hr hok
    · rw [List.mem_singleton.mp hr] at hok
      cases hok
  apart := fun s' hs' r hr => by
    obtain ⟨hmem, hne⟩ := mem_filter_requests hs'
    rcases List.mem_append.mp hr with hr | hr
    · exact h.apart s' hmem r hr
    · rw [List.mem_singleton.mp hr]
      exact hne
  numbered := fun r hr => by
    rcases List.mem_append.mp hr with hr | hr
    · exact h.numbered r hr
    · rw [List.mem_singleton.mp hr]
      exact (h.requests s hs).2.le
  numberedAccepted := h.numberedAccepted

theorem Inv.sessionEnded (h : Inv w) : Inv w.sessionEnded where
  kept := fun _ htyped => absurd rfl htyped
  requests := fun _ hs => by cases hs
  fresh := fun _ hs => by cases hs
  refused := fun _ hr => by cases hr
  requested := fun _ ho => by cases ho
  answered := fun _ ho => by cases ho
  said := fun _ ho => by cases ho
  ok := fun _ hr => by cases hr
  apart := fun _ hs => by cases hs
  numbered := fun _ hr => by cases hr
  numberedAccepted := h.numberedAccepted

/-- The world without the replies to a send. -/
def without (w : World) (id : ℕ) : World :=
  { w with replies := w.replies.filter (·.send.id ≠ id) }

theorem mem_without {id : ℕ} (hr : r ∈ (without w id).replies) :
    r ∈ w.replies ∧ r.send.id ≠ id := by
  obtain ⟨hmem, hne⟩ := List.mem_filter.mp hr
  exact ⟨hmem, of_decide_eq_true hne⟩

theorem Inv.without (h : Inv w) (id : ℕ) : Inv (without w id) where
  kept := h.kept
  requests := h.requests
  fresh := h.fresh
  refused := fun r hr => h.refused r (mem_without hr).1
  requested := h.requested
  answered := fun o ho ho' r hr => h.answered o ho ho' r (mem_without hr).1
  said := h.said
  ok := fun r hr => h.ok r (mem_without hr).1
  apart := fun s hs r hr => h.apart s hs r (mem_without hr).1
  numbered := fun r hr => h.numbered r (mem_without hr).1
  numberedAccepted := h.numberedAccepted

/-- Once the answer to the send under way is taken, nothing is waited for. -/
theorem Inv.quiet_without (h : Inv w) (hr : r ∈ w.replies) (hlast : r.send.id = w.last) :
    Quiet (Drafts.without w r.send.id) where
  requests := fun s hs => h.apart s hs r hr ((h.requests s hs).2.trans hlast.symm)
  replies := fun r' hr' => by
    obtain ⟨hmem, hne⟩ := mem_without hr'
    by_contra hnot
    exact hne ((h.refused r' hmem hnot).2.trans hlast.symm)

theorem Inv.deliver (h : Inv w) {id : ℕ} (hr : w.reply id = some r)
    (hwaited : Waited w (.deliver id)) : Inv (w.deliver r) := by
  have hmem := mem_of_reply hr
  have hdropped := h.without r.send.id
  show Inv ((Drafts.without w r.send.id).sent r.send.bot r.result)
  unfold World.sent
  split
  · exact hdropped
  · next o ho =>
      split
      · next htaken =>
          have hlast := hwaited r hr o ho htaken.1 htaken.2
          have hquiet := h.quiet_without hmem hlast
          have hother : ∀ o' : Open, o'.bot = o.bot → ∀ bot, w.typed bot ≠ "" → bot ≠ o.bot →
              World.draftOf { Drafts.without w r.send.id with opened := some o' } bot =
                w.typed bot := by
            intro o' hbot bot htyped hne
            rw [← h.kept bot htyped]
            have ho : w.opened = some o := ho
            simp [World.draftOf, ho, hbot, Ne.symm hne, Drafts.without]
          split
          · next result hok =>
              have hsaid : w.typed o.bot = "" :=
                h.said o ho htaken.2 (hlast ▸ h.ok r hmem hok)
              refine hdropped.idle hquiet _ w.drafts w.typed (fun o' ho' => ?_)
                fun bot htyped => ?_
              · obtain rfl := Option.some.inj ho'
                rfl
              · refine hother { o with sending := false, draft := "" } rfl bot htyped ?_
                rintro rfl
                exact htyped hsaid
          · next error herror =>
              split
              · exact hdropped.sessionEnded
              · refine hdropped.idle hquiet _ w.drafts w.typed (fun o' ho' => ?_)
                  fun bot htyped => ?_
                · obtain rfl := Option.some.inj ho'
                  rfl
                · by_cases hbot : bot = o.bot
                  · subst hbot
                    have hkept := h.kept o.bot htyped
                    have ho : w.opened = some o := ho
                    rw [draftOf_opened ho] at hkept
                    simp [World.draftOf, hkept]
                  · exact hother { o with sending := false } rfl bot htyped hbot
      · exact hdropped

theorem Inv.step {w' : World} {a : Action} (h : Inv w) (hwaited : Waited w a)
    (hstep : w.step a = some w') : Inv w' := by
  cases a with
  | bot id status =>
      obtain rfl := Option.some.inj hstep
      exact { h with kept := h.kept }
  | openConversation bot =>
      obtain rfl := Option.some.inj hstep
      exact h.openConversation hwaited
  | leave =>
      obtain rfl := Option.some.inj hstep
      exact h.takeOpen hwaited
  | editDraft draft =>
      obtain rfl := Option.some.inj hstep
      exact h.editDraft draft
  | sendText text =>
      obtain rfl := Option.some.inj hstep
      exact h.sendText hwaited
  | accept id lost =>
      obtain ⟨s, hs, rfl⟩ := Option.map_eq_some_iff.mp hstep
      exact h.accept (mem_of_request hs) lost
  | refuse id error =>
      obtain ⟨s, hs, rfl⟩ := Option.map_eq_some_iff.mp hstep
      exact h.refuse (mem_of_request hs) error
  | deliver id =>
      obtain ⟨r, hr, rfl⟩ := Option.map_eq_some_iff.mp hstep
      exact h.deliver hr hwaited
  | endSession =>
      obtain rfl := Option.some.inj hstep
      exact h.sessionEnded

/-- The gateway says that the session has ended. -/
def Sent.ends (r : Sent) : Prop :=
  ∃ error, r.result = .error error ∧ error.isUnauthenticated = true

/-- A reply clears no draft but the one whose send it answers, accepted, and a refused message is
the Bot's draft. -/
structure Answers (w : World) (r : Sent) : Prop where
  cleared : ¬ r.ends → ∀ bot, (w.deliver r).draftOf bot ≠ w.draftOf bot →
    bot = r.send.bot ∧ trim (w.draftOf bot) = r.send.text ∧ r.send.id ∈ w.accepted
  refused : ¬ r.ends → r.send.id ∉ w.accepted →
    trim ((w.deliver r).draftOf r.send.bot) = r.send.text

theorem Inv.answers (h : Inv w) {id : ℕ} (hr : w.reply id = some r)
    (hwaited : Waited w (.deliver id)) : Answers w r where
  cleared := fun hends bot hchanged => by
    have hmem := mem_of_reply hr
    have hdeliver : w.deliver r = (Drafts.without w r.send.id).sent r.send.bot r.result := rfl
    rw [hdeliver] at hchanged
    unfold World.sent at hchanged
    split at hchanged
    · exact absurd rfl hchanged
    · next o ho =>
        have ho : w.opened = some o := ho
        split at hchanged
        · next htaken =>
            have hlast := hwaited r hr o ho htaken.1 htaken.2
            obtain ⟨-, htext⟩ := h.answered o ho htaken.2 r hmem hlast
            split at hchanged
            · next result hok =>
                by_cases hbot : bot = o.bot
                · subst hbot
                  rw [draftOf_opened ho, htext]
                  exact ⟨htaken.1, rfl, h.ok r hmem hok⟩
                · refine absurd ?_ hchanged
                  simp [World.draftOf, ho, Ne.symm hbot, Drafts.without]
            · next error herror =>
                split at hchanged
                · next hended => exact absurd ⟨error, herror, hended⟩ hends
                · refine absurd ?_ hchanged
                  simp [World.draftOf, ho, Drafts.without]
        · exact absurd rfl hchanged
  refused := fun hends hrefused => by
    have hmem := mem_of_reply hr
    obtain ⟨⟨o, ho, hsending⟩, hlast⟩ := h.refused r hmem hrefused
    obtain ⟨hbot, htext⟩ := h.answered o ho hsending r hmem hlast
    have ho : (Drafts.without w r.send.id).opened = some o := ho
    have hdeliver : w.deliver r = (Drafts.without w r.send.id).sent r.send.bot r.result := rfl
    rw [hdeliver, World.sent, ho]
    dsimp only
    rw [if_pos ⟨hbot.symm, hsending⟩]
    split
    · next result hok => exact absurd (h.ok r hmem hok) hrefused
    · next error herror =>
        rw [if_neg fun hended => hends ⟨error, herror, hended⟩, htext, hbot]
        simp [World.draftOf]

/-- In every run whose sends are waited for: what was typed for a Bot stays its draft until an
accepted message has said it, a refused message stays as the draft, and a reply clears no other
draft than the one it answers. -/
theorem drafts_kept {as : List Action}
    (h : Runs.Run (fun s a t => World.step s a = some t ∧ Waited s a) .new as w) :
    (∀ bot, w.typed bot ≠ "" → w.draftOf bot = w.typed bot) ∧
    ∀ id r, w.reply id = some r → Waited w (.deliver id) → Answers w r := by
  have hinv : Inv w := h.invariant (fun s a t hs hstep => hs.step hstep.2 hstep.1) inv_new
  exact ⟨hinv.kept, fun id r hr hwaited => hinv.answers hr hwaited⟩

end Invariant

instance (w : World) : Decidable (MayLeave w) :=
  inferInstanceAs (Decidable (∀ o ∈ w.opened, o.sending → w.last ∈ w.accepted))

instance (w : World) : (a : Action) → Decidable (Waited w a)
  | .openConversation bot => inferInstanceAs (Decidable
      (w.bots[bot]?.isSome → ¬ w.opened.any (·.bot = bot) → MayLeave w))
  | .leave => inferInstanceAs (Decidable (MayLeave w))
  | .sendText text => inferInstanceAs (Decidable
      (w.canSend text → ∀ o ∈ w.opened, trim text = trim o.draft))
  | .deliver id => inferInstanceAs (Decidable
      (∀ r ∈ w.reply id, ∀ o ∈ w.opened, o.bot = r.send.bot → o.sending → r.send.id = w.last))
  | .bot _ _ => isTrue trivial
  | .editDraft _ => isTrue trivial
  | .accept _ _ => isTrue trivial
  | .refuse _ _ => isTrue trivial
  | .endSession => isTrue trivial

/-- A message is refused while its conversation is open. -/
def refusedHere : List Action :=
  [.bot 1 .idle, .openConversation 1, .editDraft "hello", .sendText "hello",
    .refuse 1 ⟨false, "Unavailable"⟩, .deliver 1]

theorem drafts_kept_refused : ∃ w : World, w.typed 1 = "hello" ∧
    ((∀ bot, w.typed bot ≠ "" → w.draftOf bot = w.typed bot) ∧
      ∀ id r, w.reply id = some r → Waited w (.deliver id) → Answers w r) := by
  have hend : ((Runs.exec (fun s a => if decide (Waited s a) then World.step s a else none) .new
      refusedHere).any fun w => decide (w.typed 1 = "hello")) = true := by decide +kernel
  cases hexec : Runs.exec (fun s a => if decide (Waited s a) then World.step s a else none) .new
      refusedHere with
  | none =>
      rw [hexec] at hend
      cases hend
  | some w =>
      rw [hexec] at hend
      exact ⟨w, of_decide_eq_true hend,
        drafts_kept (Runs.run_of_exec_checked (fun _ _ => of_decide_eq_true) hexec)⟩

/-- The conversation is left before the message is refused. -/
def refusedAway : List Action :=
  [.bot 1 .idle, .openConversation 1, .editDraft "hello", .sendText "hello", .leave,
    .refuse 1 ⟨false, "Unavailable"⟩, .deliver 1, .openConversation 1]

/-- The text of a message that was refused is gone. -/
theorem draft_lost : (Runs.exec World.step .new refusedAway).any (fun w =>
    decide (w.typed 1 = "hello" ∧ w.accepted = [] ∧ w.draftOf 1 = "")) = true := by
  decide +kernel

end Bokkie.Drafts
