import Bokkie.Journal
import Bokkie.RpcClient

/-!
# Responses reach their requests

A request waits from when its entry goes into the table until a line carries its id, the table is
emptied, or its future ends. The table holds just the requests that wait, so a line answers the
request of its id if that waits, and nothing else.
-/

namespace Bokkie.RpcClient

open Journal

section Journal

variable {j : List Event} {e : Event} {k : ℕ} {id : ℤ} {reply : Reply}

/-- The future has neither resolved nor been dropped. -/
def Unended (j : List Event) (k : ℕ) : Prop := (∀ outcome, .resolved k outcome ∉ j) ∧ .dropped k ∉ j

/-- The request waits: it was asked, and nothing has ended that since. -/
structure Outstanding (j : List Event) (k : ℕ) (id : ℤ) : Prop where
  asked : .asked k id ∈ j
  notEmptied : .emptied ∉ j
  unended : Unended j k
  unanswered : ∀ text reply, ¬ Precedes j (.asked k id) (.line text (some (.integer id, reply)))

/-- A line that carried its id came while the request waited. -/
def Answered (j : List Event) (k : ℕ) (id : ℤ) (reply : Reply) : Prop :=
  ∃ before text after, j = before ++ .line text (some (.integer id, reply)) :: after ∧
    Outstanding before k id

/-- The outcome is the reply to the request, or the table was emptied. -/
def Settles (j : List Event) (k : ℕ) (id : ℤ) : Outcome → Prop
  | .answered reply => Answered j k id reply
  | .closed => .emptied ∈ j

/-- The event is of this request's future. -/
def Event.About (k : ℕ) : Event → Prop
  | .asked k' _ | .resolved k' _ | .dropped k' => k' = k
  | .line _ _ | .emptied => False

theorem Unended.snoc (h : Unended j k) (he : ¬ e.About k) : Unended (j ++ [e]) k := by
  constructor
  · intro outcome hmem
    rcases List.mem_append.mp hmem with hold | hnew
    · exact h.1 outcome hold
    · rw [← List.mem_singleton.mp hnew] at he
      exact he rfl
  · intro hmem
    rcases List.mem_append.mp hmem with hold | hnew
    · exact h.2 hold
    · rw [← List.mem_singleton.mp hnew] at he
      exact he rfl

theorem Unended.of_snoc (h : Unended (j ++ [e]) k) : Unended j k :=
  ⟨fun outcome hmem => h.1 outcome (List.mem_append_left _ hmem),
    fun hmem => h.2 (List.mem_append_left _ hmem)⟩

theorem Answered.asked (h : Answered j k id reply) : .asked k id ∈ j := by
  obtain ⟨before, text, after, rfl, hout⟩ := h
  exact List.mem_append_left _ hout.asked

theorem Answered.not_outstanding (h : Answered j k id reply) : ¬ Outstanding j k id := by
  obtain ⟨before, text, after, rfl, hout⟩ := h
  intro hout'
  exact hout'.unanswered text reply (precedes_iff.mpr ⟨before, after, rfl, hout.asked⟩)

theorem answered_snoc : Answered (j ++ [e]) k id reply ↔ Answered j k id reply ∨
    (∃ text, e = .line text (some (.integer id, reply))) ∧ Outstanding j k id := by
  constructor
  · rintro ⟨before, text, after, hj, hout⟩
    rcases snoc_eq_append_cons.mp hj with ⟨rfl, rfl, -⟩ | ⟨rest, -, rfl⟩
    · exact .inr ⟨⟨text, rfl⟩, hout⟩
    · exact .inl ⟨before, text, rest, rfl, hout⟩
  · rintro (⟨before, text, after, rfl, hout⟩ | ⟨⟨text, rfl⟩, hout⟩)
    · exact ⟨before, text, after ++ [e], by simp, hout⟩
    · exact ⟨j, text, [], rfl, hout⟩

/-- After the table is emptied no request is answered any more. -/
theorem not_answered_snoc (hemptied : .emptied ∈ j) (h : ∀ reply, ¬ Answered j k id reply)
    (reply : Reply) : ¬ Answered (j ++ [e]) k id reply := by
  intro hanswered
  rcases answered_snoc.mp hanswered with hold | ⟨-, hout⟩
  · exact h reply hold
  · exact hout.notEmptied hemptied

theorem Settles.snoc {outcome : Outcome} (h : Settles j k id outcome) :
    Settles (j ++ [e]) k id outcome := by
  cases outcome with
  | answered reply => exact answered_snoc.mpr (.inl h)
  | closed => exact List.mem_append_left _ h

/-- A request is answered once. -/
theorem Answered.unique {reply' : Reply} (h : Answered j k id reply) (h' : Answered j k id reply') :
    reply = reply' := by
  induction j using List.reverseRecOn with
  | nil => cases h.asked
  | append_singleton j e ih =>
      rcases answered_snoc.mp h with hold | ⟨⟨text, rfl⟩, hout⟩ <;>
        rcases answered_snoc.mp h' with hold' | ⟨⟨text', heq⟩, hout'⟩
      · exact ih hold hold'
      · exact absurd hout' hold.not_outstanding
      · exact absurd hout hold'.not_outstanding
      · obtain ⟨-, hreply⟩ := Event.line.inj heq
        exact (Prod.mk.inj (Option.some.inj hreply)).2

/-- A request waits on, but for the table emptied, an event of its own future, and a line of its
id. -/
theorem Outstanding.snoc (h : Outstanding j k id) (habout : ¬ e.About k) (hemptied : e ≠ .emptied)
    (hline : ∀ text reply, e ≠ .line text (some (.integer id, reply))) :
    Outstanding (j ++ [e]) k id where
  asked := List.mem_append_left _ h.asked
  notEmptied := by
    intro hmem
    rcases List.mem_append.mp hmem with hold | hnew
    · exact h.notEmptied hold
    · exact hemptied (List.mem_singleton.mp hnew).symm
  unended := h.unended.snoc habout
  unanswered := by
    intro text reply hprecedes
    rcases precedes_snoc.mp hprecedes with hold | ⟨-, hnew⟩
    · exact h.unanswered text reply hold
    · exact hline text reply hnew.symm

theorem Outstanding.of_snoc (h : Outstanding (j ++ [e]) k id) (hasked : .asked k id ∈ j) :
    Outstanding j k id where
  asked := hasked
  notEmptied := fun hmem => h.notEmptied (List.mem_append_left _ hmem)
  unended := h.unended.of_snoc
  unanswered := fun text reply hprecedes => h.unanswered text reply hprecedes.snoc

theorem outstanding_line {text : String} {reply : Option (RequestId × Reply)} :
    Outstanding (j ++ [.line text reply]) k id ↔
      Outstanding j k id ∧ ∀ r, reply ≠ some (.integer id, r) := by
  constructor
  · intro h
    have hasked : .asked k id ∈ j := by
      rcases List.mem_append.mp h.asked with hold | hnew
      · exact hold
      · cases List.mem_singleton.mp hnew
    refine ⟨h.of_snoc hasked, ?_⟩
    rintro r rfl
    exact h.unanswered text r (precedes_snoc.mpr (.inr ⟨hasked, rfl⟩))
  · rintro ⟨h, hreply⟩
    refine h.snoc (fun habout => habout) nofun fun text' r heq => ?_
    exact hreply r (Event.line.inj heq).2

/-- The event ends the future of a request. -/
def Event.Ends (k : ℕ) (e : Event) : Prop := (∃ outcome, e = .resolved k outcome) ∨ e = .dropped k

theorem outstanding_ends {k' : ℕ} (he : e.Ends k') :
    Outstanding (j ++ [e]) k id ↔ Outstanding j k id ∧ k ≠ k' := by
  have hlast : e ∈ j ++ [e] := List.mem_append_right _ (List.mem_singleton_self _)
  constructor
  · intro h
    have hasked : .asked k id ∈ j := by
      rcases List.mem_append.mp h.asked with hold | hnew
      · exact hold
      · rcases he with ⟨outcome, rfl⟩ | rfl <;> cases List.mem_singleton.mp hnew
    refine ⟨h.of_snoc hasked, ?_⟩
    rintro rfl
    rcases he with ⟨outcome, rfl⟩ | rfl
    · exact h.unended.1 outcome hlast
    · exact h.unended.2 hlast
  · rintro ⟨h, hne⟩
    rcases he with ⟨outcome, rfl⟩ | rfl
    · exact h.snoc (fun heq => hne heq.symm) nofun nofun
    · exact h.snoc (fun heq => hne heq.symm) nofun nofun

/-- The entry of a request goes into the table. -/
theorem outstanding_asked (hasked : .asked k id ∉ j) (hemptied : .emptied ∉ j)
    (hunended : Unended j k) : Outstanding (j ++ [.asked k id]) k id where
  asked := List.mem_append_right _ (List.mem_singleton_self _)
  notEmptied := by
    intro hmem
    rcases List.mem_append.mp hmem with hold | hnew
    · exact hemptied hold
    · cases List.mem_singleton.mp hnew
  unended := by
    constructor
    · intro outcome hmem
      rcases List.mem_append.mp hmem with hold | hnew
      · exact hunended.1 outcome hold
      · cases List.mem_singleton.mp hnew
    · intro hmem
      rcases List.mem_append.mp hmem with hold | hnew
      · exact hunended.2 hold
      · cases List.mem_singleton.mp hnew
  unanswered := by
    intro text reply hprecedes
    rcases precedes_snoc.mp hprecedes with hold | ⟨-, hnew⟩
    · exact hasked hold.left_mem
    · cases hnew

end Journal

/-- A line is the reply to a request that waits, or the client only tells of it. -/
theorem World.dispatch_cases (codec : Codec) (w : World) (line : String) :
    (∃ id k r, replyOf codec line = some (.integer id, r) ∧ w.entry id = some k ∧
      w.dispatch codec line = { (w.record (.line line (replyOf codec line))).remove id with
        reader := .sending k r (Incoming.dispatch codec.parse codec.typed line) }) ∨
    (∀ id r, replyOf codec line = some (.integer id, r) → w.entry id = none) ∧
      w.dispatch codec line = (w.record (.line line (replyOf codec line))).push
        (Incoming.dispatch codec.parse codec.typed line) := by
  unfold World.dispatch
  rcases replyOf codec line with _ | ⟨id | id, r⟩
  · exact .inr ⟨nofun, rfl⟩
  · cases hentry : w.entry id with
    | none =>
        refine .inr ⟨fun id' r' heq => ?_, ?_⟩
        · rwa [← RequestId.integer.inj (Prod.mk.inj (Option.some.inj heq)).1]
        · simp only [show (w.record _).entry id = none from hentry]
    | some k =>
        refine .inl ⟨id, k, r, rfl, hentry, ?_⟩
        simp only [show (w.record _).entry id = some k from hentry]
  · exact .inr ⟨nofun, rfl⟩

section Invariant

/-- The table holds just the requests that wait, until it is emptied. -/
def TableHolds (j : List Event) : Option Pending → Prop
  | none => .emptied ∈ j
  | some table => .emptied ∉ j ∧ ∀ id k, (id, k) ∈ table ↔ Outstanding j k id

/-- The reader has taken the request's sender out of the table. -/
def Sending (reader : Reader) (k : ℕ) : Prop := ∃ reply event, reader = .sending k reply event

/-- What the channel of a request says of it. -/
def ChannelHolds (j : List Event) (reader : Reader) (k : ℕ) (id : ℤ) : Channel → Prop
  | .empty => Outstanding j k id ∨ Sending reader k
  | .sent reply => Answered j k id reply
  | .closed => .emptied ∈ j ∧ ∀ reply, ¬ Answered j k id reply

/-- What the phase of a request says of it. -/
def Request.Knows (j : List Event) (reader : Reader) (k : ℕ) (q : Request) : Prop :=
  match q.phase with
  | .begun => (∀ id, .asked k id ∉ j) ∧ Unended j k ∧ q.channel = .empty
  | .inserted | .waiting => .asked k q.id ∈ j ∧ Unended j k ∧ ChannelHolds j reader k q.id q.channel
  | .leaving outcome =>
    .asked k q.id ∈ j ∧ Unended j k ∧ ∀ o, outcome = some o → Settles j k q.id o
  | .resolved outcome => .resolved k outcome ∈ j ∧ Settles j k q.id outcome
  | .dropped => True

structure Inv (codec : Codec) (w : World) : Prop where
  ids : ∀ (k : ℕ) q, w.requests[k]? = some q → q.id = k + 1
  next : w.nextId = wrap (w.requests.length + 1)
  asked : ∀ k id, .asked k id ∈ w.journal → ∃ q, w.requests[k]? = some q ∧ q.id = id
  table : TableHolds w.journal w.pending
  knows : ∀ (k : ℕ) q, w.requests[k]? = some q → q.Knows w.journal w.reader k
  resolved : ∀ k outcome, .resolved k outcome ∈ w.journal →
    ∃ q, w.requests[k]? = some q ∧ q.phase = .resolved outcome
  dropped : ∀ k, .dropped k ∈ w.journal → k < w.requests.length
  once : ∀ before k outcome after, w.journal = before ++ .resolved k outcome :: after →
    Unended before k
  sending : ∀ k reply event, w.reader = .sending k reply event → Answered w.journal k (k + 1) reply
  ended : w.reader = .ended ∨ w.writer ≠ .writing → .emptied ∈ w.journal
  lines : ∀ text reply, .line text reply ∈ w.journal → reply = replyOf codec text

variable {codec : Codec} {j : List Event} {reader reader' : Reader} {e : Event} {q : Request}
  {w w' : World} {k : ℕ} {id : ℤ}

/-- What a request knows stays while its own part of the journal does, and its sender is somewhere. -/
theorem Request.Knows.snoc (h : q.Knows j reader k) (he : ¬ e.About k)
    (hchannel : Outstanding j k q.id ∨ Sending reader k →
      Outstanding (j ++ [e]) k q.id ∨ Sending reader' k) :
    q.Knows (j ++ [e]) reader' k := by
  have hmem : ∀ {e'}, e' ∈ j → e' ∈ j ++ [e] := List.mem_append_left _
  unfold Request.Knows at h ⊢
  cases hphase : q.phase with
  | begun =>
      rw [hphase] at h
      refine ⟨fun id hasked => ?_, h.2.1.snoc he, h.2.2⟩
      rcases List.mem_append.mp hasked with hold | hnew
      · exact h.1 id hold
      · rw [← List.mem_singleton.mp hnew] at he
        exact he rfl
  | inserted | waiting =>
      rw [hphase] at h
      refine ⟨hmem h.1, h.2.1.snoc he, ?_⟩
      have hholds := h.2.2
      cases hstate : q.channel with
      | empty =>
          rw [hstate] at hholds
          exact hchannel hholds
      | sent reply =>
          rw [hstate] at hholds
          exact answered_snoc.mpr (.inl hholds)
      | closed =>
          rw [hstate] at hholds
          exact ⟨hmem hholds.1, not_answered_snoc hholds.1 hholds.2⟩
  | leaving outcome =>
      rw [hphase] at h
      exact ⟨hmem h.1, h.2.1.snoc he, fun o ho => (h.2.2 o ho).snoc⟩
  | resolved outcome =>
      rw [hphase] at h
      exact ⟨hmem h.1, h.2.snoc⟩
  | dropped => trivial

/-- What a request knows says nothing of what the reader sends to others. -/
theorem Request.Knows.of_reader (h : q.Knows j reader k)
    (hsending : Sending reader k → Sending reader' k) : q.Knows j reader' k := by
  unfold Request.Knows at h ⊢
  cases hphase : q.phase with
  | inserted | waiting =>
      rw [hphase] at h
      refine ⟨h.1, h.2.1, ?_⟩
      have hholds := h.2.2
      cases hstate : q.channel with
      | empty =>
          rw [hstate] at hholds
          exact hholds.imp_right hsending
      | sent reply =>
          rw [hstate] at hholds
          exact hholds
      | closed =>
          rw [hstate] at hholds
          exact hholds
  | begun | leaving | resolved | dropped =>
      rw [hphase] at h
      exact h

/-- The requests keep their places and ids, and what has resolved stays so. -/
structure Keeps (requests requests' : List Request) : Prop where
  length : requests'.length = requests.length
  get : ∀ (k : ℕ) q', requests'[k]? = some q' → ∃ q, requests[k]? = some q ∧ q'.id = q.id ∧
    ∀ outcome, q.phase = .resolved outcome → q'.phase = .resolved outcome

namespace Keeps

variable {requests requests' : List Request} {f : Request → Request}

theorem refl (requests : List Request) : Keeps requests requests :=
  ⟨rfl, fun _ q' hq' => ⟨q', hq', rfl, fun _ hresolved => hresolved⟩⟩

theorem modify (hid : ∀ q, (f q).id = q.id)
    (hphase : ∀ q, requests[k]? = some q →
      ∀ outcome, q.phase = .resolved outcome → (f q).phase = .resolved outcome) :
    Keeps requests (requests.modify k f) where
  length := List.length_modify ..
  get := by
    intro i q' hq'
    rw [List.getElem?_modify] at hq'
    obtain ⟨q, hq, rfl⟩ := Option.map_eq_some_iff.mp hq'
    refine ⟨q, hq, ?_⟩
    by_cases hki : k = i
    · subst hki
      simpa using ⟨hid q, hphase q hq⟩
    · simp [hki]

theorem forward (h : Keeps requests requests') (hq : requests[k]? = some q) :
    ∃ q', requests'[k]? = some q' ∧ q'.id = q.id ∧
      ∀ outcome, q.phase = .resolved outcome → q'.phase = .resolved outcome := by
  have hlt : k < requests'.length := h.length ▸ (List.getElem?_eq_some_iff.mp hq).1
  obtain ⟨q₀, hq₀, hkept⟩ := h.get k _ (List.getElem?_eq_getElem hlt)
  obtain rfl := Option.some.inj (hq.symm.trans hq₀)
  exact ⟨_, List.getElem?_eq_getElem hlt, hkept⟩

end Keeps

/-- What an entry of the journal says of its request is so. -/
def Event.Fits (codec : Codec) (w w' : World) : Event → Prop
  | .asked k id => ∃ q, w.requests[k]? = some q ∧ q.id = id
  | .resolved k outcome => Unended w.journal k ∧
    ∃ q, w'.requests[k]? = some q ∧ q.phase = .resolved outcome
  | .dropped k => k < w.requests.length
  | .line text reply => reply = replyOf codec text
  | .emptied => True

namespace Inv

theorem id_of_outstanding (h : Inv codec w) (hout : Outstanding w.journal k id) : id = k + 1 := by
  obtain ⟨q, hq, rfl⟩ := h.asked k id hout.asked
  exact h.ids k q hq

/-- The entry of an id is the request that waits under it. -/
theorem entry (h : Inv codec w) : w.entry id = some k ↔ Outstanding w.journal k id := by
  have htable := h.table
  unfold World.entry
  cases hp : w.pending with
  | none =>
      rw [hp] at htable
      exact ⟨nofun, fun hout => absurd htable hout.notEmptied⟩
  | some table =>
      rw [hp] at htable
      rw [Option.bind_some]
      constructor
      · intro hentry
        obtain ⟨⟨id', k'⟩, hfound, rfl⟩ := Option.map_eq_some_iff.mp hentry
        have hid : id' = id := by simpa using List.find?_some hfound
        exact hid ▸ (htable.2 id' k').mp (List.mem_of_find?_eq_some hfound)
      · intro hout
        have hmem := (htable.2 id k).mpr hout
        cases hfound : table.find? fun entry => entry.1 = id with
        | none => simpa using List.find?_eq_none.mp hfound _ hmem
        | some entry =>
            obtain ⟨id', k'⟩ := entry
            obtain rfl : id' = id := by simpa using List.find?_some hfound
            have hout' := (htable.2 id' k').mp (List.mem_of_find?_eq_some hfound)
            have hsame := (h.id_of_outstanding hout').symm.trans (h.id_of_outstanding hout)
            obtain rfl : k' = k := by omega
            rfl

theorem entry_none (h : Inv codec w) : w.entry id = none ↔ ∀ k, ¬ Outstanding w.journal k id := by
  rw [Option.eq_none_iff_forall_ne_some]
  exact forall_congr' fun k => not_congr h.entry

/-- Nothing changes that the invariant is about. -/
theorem same (h : Inv codec w) (hrequests : w'.requests = w.requests) (hnext : w'.nextId = w.nextId)
    (hj : w'.journal = w.journal) (hpending : w'.pending = w.pending)
    (hreader : w'.reader = w.reader) (hwriter : w'.writer ≠ .writing → w.writer ≠ .writing) :
    Inv codec w' where
  ids := by rw [hrequests]; exact h.ids
  next := by rw [hrequests, hnext]; exact h.next
  asked := by rw [hrequests, hj]; exact h.asked
  table := by rw [hj, hpending]; exact h.table
  knows := by rw [hrequests, hj, hreader]; exact h.knows
  resolved := by rw [hrequests, hj]; exact h.resolved
  dropped := by rw [hrequests, hj]; exact h.dropped
  once := by rw [hj]; exact h.once
  sending := by rw [hj, hreader]; exact h.sending
  ended := by
    rw [hj, hreader]
    exact fun hended => h.ended (hended.imp_right hwriter)
  lines := by rw [hj]; exact h.lines

section Requests

theorem ids_of_keeps (h : Inv codec w) (hkeeps : Keeps w.requests w'.requests) (k : ℕ) (q : Request)
    (hq : w'.requests[k]? = some q) : q.id = k + 1 := by
  obtain ⟨q₀, hq₀, hid, -⟩ := hkeeps.get k q hq
  rw [hid, h.ids k q₀ hq₀]

theorem asked_of_keeps (h : Inv codec w) (hkeeps : Keeps w.requests w'.requests)
    (hasked : .asked k id ∈ w.journal) : ∃ q, w'.requests[k]? = some q ∧ q.id = id := by
  obtain ⟨q, hq, rfl⟩ := h.asked k id hasked
  obtain ⟨q', hq', hid, -⟩ := hkeeps.forward hq
  exact ⟨q', hq', hid⟩

theorem resolved_of_keeps (h : Inv codec w) (hkeeps : Keeps w.requests w'.requests)
    {outcome : Outcome} (hresolved : .resolved k outcome ∈ w.journal) :
    ∃ q, w'.requests[k]? = some q ∧ q.phase = .resolved outcome := by
  obtain ⟨q, hq, hphase⟩ := h.resolved k outcome hresolved
  obtain ⟨q', hq', -, hkept⟩ := hkeeps.forward hq
  exact ⟨q', hq', hkept outcome hphase⟩

end Requests

/-- One request changes, and nothing is recorded. -/
theorem modify (h : Inv codec w) {f : Request → Request} (hid : ∀ q, (f q).id = q.id)
    (hrequests : w'.requests = w.requests.modify k f) (hnext : w'.nextId = w.nextId)
    (hj : w'.journal = w.journal) (hpending : w'.pending = w.pending)
    (hreader : w'.reader = w.reader ∨ w'.reader = .reading ∧ Sending w.reader k)
    (hwriter : w'.writer = w.writer)
    (hphase : ∀ q, w.requests[k]? = some q →
      ∀ outcome, q.phase = .resolved outcome → (f q).phase = .resolved outcome)
    (hknows : ∀ q, w.requests[k]? = some q → (f q).Knows w.journal w'.reader k) : Inv codec w' := by
  have hkeeps : Keeps w.requests w'.requests := hrequests ▸ Keeps.modify hid hphase
  constructor
  case ids => exact h.ids_of_keeps hkeeps
  case next => rw [hnext, hkeeps.length]; exact h.next
  case asked => rw [hj]; exact fun i id => h.asked_of_keeps hkeeps
  case table => rw [hj, hpending]; exact h.table
  case knows =>
    intro i q hq
    rw [hrequests, List.getElem?_modify] at hq
    obtain ⟨q₀, hq₀, rfl⟩ := Option.map_eq_some_iff.mp hq
    rw [hj]
    by_cases hki : k = i
    · subst hki
      rw [if_pos rfl]
      exact hknows q₀ hq₀
    · rw [if_neg hki]
      refine (h.knows i q₀ hq₀).of_reader fun hsending => ?_
      rcases hreader with hsame | ⟨-, hsent⟩
      · rwa [hsame]
      · obtain ⟨reply, event, hr⟩ := hsent
        obtain ⟨reply', event', hr'⟩ := hsending
        exact absurd (Reader.sending.inj (hr.symm.trans hr')).1 hki
  case resolved => rw [hj]; exact fun i outcome => h.resolved_of_keeps hkeeps
  case dropped => rw [hkeeps.length, hj]; exact h.dropped
  case once => rw [hj]; exact h.once
  case sending =>
    intro i reply event hsending
    rw [hj]
    rcases hreader with hsame | ⟨hreading, -⟩
    · exact h.sending i reply event (hsame ▸ hsending)
    · rw [hreading] at hsending
      cases hsending
  case ended =>
    intro hended
    rw [hj]
    rw [hwriter] at hended
    rcases hreader with hsame | ⟨hreading, -⟩
    · exact h.ended (hsame ▸ hended)
    · exact h.ended (.inr (hended.resolve_left fun hend => by rw [hreading] at hend; cases hend))
  case lines => rw [hj]; exact h.lines

section Record

theorem asked_record (h : Inv codec w) (hkeeps : Keeps w.requests w'.requests)
    (he : e.Fits codec w w') (hasked : .asked k id ∈ w.journal ++ [e]) :
    ∃ q, w'.requests[k]? = some q ∧ q.id = id := by
  rcases List.mem_append.mp hasked with hold | hnew
  · exact h.asked_of_keeps hkeeps hold
  · obtain rfl := List.mem_singleton.mp hnew
    obtain ⟨q, hq, rfl⟩ := he
    obtain ⟨q', hq', hid, -⟩ := hkeeps.forward hq
    exact ⟨q', hq', hid⟩

theorem resolved_record (h : Inv codec w) (hkeeps : Keeps w.requests w'.requests)
    (he : e.Fits codec w w') {outcome : Outcome} (hresolved : .resolved k outcome ∈ w.journal ++ [e]) :
    ∃ q, w'.requests[k]? = some q ∧ q.phase = .resolved outcome := by
  rcases List.mem_append.mp hresolved with hold | hnew
  · exact h.resolved_of_keeps hkeeps hold
  · obtain rfl := List.mem_singleton.mp hnew
    exact he.2

theorem dropped_record (h : Inv codec w) (he : e.Fits codec w w')
    (hdropped : .dropped k ∈ w.journal ++ [e]) : k < w.requests.length := by
  rcases List.mem_append.mp hdropped with hold | hnew
  · exact h.dropped k hold
  · obtain rfl := List.mem_singleton.mp hnew
    exact he

theorem once_record (h : Inv codec w) (he : e.Fits codec w w') {before after : List Event}
    {outcome : Outcome} (hsplit : w.journal ++ [e] = before ++ .resolved k outcome :: after) :
    Unended before k := by
  rcases snoc_eq_append_cons.mp hsplit with ⟨rfl, rfl, -⟩ | ⟨rest, -, hold⟩
  · exact he.1
  · exact h.once before k outcome rest hold

theorem lines_record (h : Inv codec w) (he : e.Fits codec w w') {text : String}
    {reply : Option (RequestId × Reply)} (hline : .line text reply ∈ w.journal ++ [e]) :
    reply = replyOf codec text := by
  rcases List.mem_append.mp hline with hold | hnew
  · exact h.lines text reply hold
  · obtain rfl := List.mem_singleton.mp hnew
    exact he

/-- One thing happens, with what the table, the requests and the reader then say of it. -/
theorem record (h : Inv codec w) (hj : w'.journal = w.journal ++ [e])
    (hkeeps : Keeps w.requests w'.requests) (hnext : w'.nextId = w.nextId)
    (he : e.Fits codec w w') (htable : TableHolds w'.journal w'.pending)
    (hknows : ∀ (k : ℕ) q, w'.requests[k]? = some q → q.Knows w'.journal w'.reader k)
    (hsending : ∀ k reply event, w'.reader = .sending k reply event →
      w.reader = w'.reader ∨ Answered w'.journal k (k + 1) reply)
    (hended : w'.reader = .ended ∨ w'.writer ≠ .writing →
      (w.reader = .ended ∨ w.writer ≠ .writing) ∨ e = .emptied) : Inv codec w' where
  ids := h.ids_of_keeps hkeeps
  next := by rw [hnext, hkeeps.length]; exact h.next
  asked := by rw [hj]; exact fun k id => h.asked_record hkeeps he
  table := htable
  knows := hknows
  resolved := by rw [hj]; exact fun k outcome => h.resolved_record hkeeps he
  dropped := by rw [hkeeps.length, hj]; exact fun k => h.dropped_record he
  once := by rw [hj]; exact fun before k outcome after => h.once_record he
  sending := by
    intro k reply event hr
    rcases hsending k reply event hr with hsame | hanswered
    · rw [hj]
      exact answered_snoc.mpr (.inl (h.sending k reply event (hsame.trans hr)))
    · exact hanswered
  ended := by
    intro hor
    rw [hj]
    rcases hended hor with hold | rfl
    · exact List.mem_append_left _ (h.ended hold)
    · exact List.mem_append_right _ (List.mem_singleton_self _)
  lines := by rw [hj]; exact fun text reply => h.lines_record he

end Record

section Empty

/-- The requests whose senders the table holds are those that wait. -/
theorem holds_iff (h : Inv codec w) (hq : w.requests[k]? = some q) :
    ((w.pending.getD []).any fun entry => entry.2 = k) = true ↔ Outstanding w.journal k q.id := by
  have htable := h.table
  cases hp : w.pending with
  | none =>
      rw [hp] at htable
      exact ⟨nofun, fun hout => absurd htable hout.notEmptied⟩
  | some table =>
      rw [hp] at htable
      rw [Option.getD_some, List.any_eq_true]
      constructor
      · rintro ⟨⟨id, k'⟩, hentry, hk⟩
        obtain rfl : k' = k := of_decide_eq_true hk
        have hout := (htable.2 id k').mp hentry
        rwa [h.ids k' q hq, ← h.id_of_outstanding hout]
      · exact fun hout => ⟨_, (htable.2 _ _).mpr hout, by simp⟩

/-- A request that waited and whose sender is dropped. -/
theorem knows_closed (h : q.Knows j reader k) (hout : Outstanding j k q.id) :
    ({ q with channel := .closed } : Request).Knows (j ++ [.emptied]) reader' k := by
  have hmem : (.emptied : Event) ∈ j ++ [.emptied] :=
    List.mem_append_right _ (List.mem_singleton_self _)
  have hchannel : ChannelHolds (j ++ [.emptied]) reader' k q.id .closed := by
    refine ⟨hmem, fun reply hanswered => ?_⟩
    rcases answered_snoc.mp hanswered with hold | ⟨⟨text, heq⟩, -⟩
    · exact hold.not_outstanding hout
    · cases heq
  have habout : ¬ Event.emptied.About k := fun habout => habout
  unfold Request.Knows at h ⊢
  cases hphase : q.phase with
  | begun =>
      rw [hphase] at h
      exact absurd hout.asked (h.1 _)
  | inserted | waiting =>
      rw [hphase] at h
      exact ⟨List.mem_append_left _ h.1, h.2.1.snoc habout, hchannel⟩
  | leaving outcome =>
      rw [hphase] at h
      exact ⟨List.mem_append_left _ h.1, h.2.1.snoc habout, fun o ho => (h.2.2 o ho).snoc⟩
  | resolved outcome =>
      rw [hphase] at h
      exact ⟨List.mem_append_left _ h.1, h.2.snoc⟩
  | dropped => trivial

theorem keeps_empty (w : World) : Keeps w.requests w.empty.requests where
  length := List.length_mapIdx
  get := by
    intro i q' hq'
    rw [World.empty, List.getElem?_mapIdx] at hq'
    obtain ⟨q, hq, rfl⟩ := Option.map_eq_some_iff.mp hq'
    refine ⟨q, hq, ?_⟩
    split <;> exact ⟨rfl, fun _ hresolved => hresolved⟩

theorem knows_empty (h : Inv codec w) (hsending : Sending w.reader k → Sending reader' k)
    (hq : w.empty.requests[k]? = some q) : q.Knows (w.journal ++ [.emptied]) reader' k := by
  rw [World.empty, List.getElem?_mapIdx] at hq
  obtain ⟨q₀, hq₀, rfl⟩ := Option.map_eq_some_iff.mp hq
  have hknows := h.knows k q₀ hq₀
  have hiff := h.holds_iff hq₀
  split
  · next hany => exact knows_closed hknows (hiff.mp hany)
  · next hany =>
      refine hknows.snoc (fun habout => habout) ?_
      rintro (hout | hsent)
      · exact absurd (hiff.mpr hout) hany
      · exact .inr (hsending hsent)

/-- The table is emptied, by a reader that ends or a writer that fails. -/
theorem empty (h : Inv codec w)
    (hreader : w'.reader = w.reader ∨ w.reader = .reading ∧ w'.reader = .ended)
    (hrequests : w'.requests = w.empty.requests) (hnext : w'.nextId = w.nextId)
    (hj : w'.journal = w.journal ++ [.emptied]) (hpending : w'.pending = none) : Inv codec w' := by
  refine h.record hj (hrequests ▸ keeps_empty w) hnext trivial ?_ ?_ ?_ fun _ => .inr rfl
  · rw [hpending, hj]
    exact List.mem_append_right _ (List.mem_singleton_self _)
  · intro k q hq
    rw [hrequests] at hq
    rw [hj]
    refine h.knows_empty ?_ hq
    rcases hreader with hsame | ⟨hreading, -⟩
    · rw [hsame]
      exact fun hsent => hsent
    · rintro ⟨reply, event, hr⟩
      rw [hreading] at hr
      cases hr
  · intro k reply event hr
    rcases hreader with hsame | ⟨-, hended⟩
    · exact .inl hsame.symm
    · rw [hended] at hr
      cases hr

end Empty

/-- An entry leaves the table with what made its request wait no more. -/
theorem tableHolds_remove {j' : List Event} {pending : Option Pending} (h : TableHolds j pending)
    (hemptied : .emptied ∈ j' ↔ .emptied ∈ j)
    (hout : ∀ id' k, Outstanding j' k id' ↔ Outstanding j k id' ∧ id' ≠ id) :
    TableHolds j' (pending.map fun table => table.filter fun entry => entry.1 ≠ id) := by
  cases pending with
  | none => exact hemptied.mpr h
  | some table =>
      refine ⟨fun hmem => h.1 (hemptied.mp hmem), fun id' k => ?_⟩
      rw [hout, ← h.2 id' k, List.mem_filter]
      simp

theorem tableHolds_same {j' : List Event} {pending : Option Pending} (h : TableHolds j pending)
    (hemptied : .emptied ∈ j' ↔ .emptied ∈ j)
    (hout : ∀ id' k, Outstanding j' k id' ↔ Outstanding j k id') : TableHolds j' pending := by
  cases pending with
  | none => exact hemptied.mpr h
  | some table =>
      refine ⟨fun hmem => h.1 (hemptied.mp hmem), fun id' k => ?_⟩
      rw [hout, ← h.2 id' k]

/-- The reader reads a line: the request that waits under its id is to get the reply. -/
theorem line (h : Inv codec w) {text : String} (hreading : w.reader = .reading)
    (hrequests : w'.requests = w.requests) (hnext : w'.nextId = w.nextId)
    (hj : w'.journal = w.journal ++ [.line text (replyOf codec text)])
    (hpending : TableHolds w'.journal w'.pending)
    (hsent : ∀ k id r, replyOf codec text = some (.integer id, r) → Outstanding w.journal k id →
      Sending w'.reader k)
    (hsending : ∀ k r event, w'.reader = .sending k r event →
      replyOf codec text = some (.integer (k + 1), r) ∧ Outstanding w.journal k (k + 1))
    (hended : w'.reader ≠ .ended) (hwriter : w'.writer = w.writer) : Inv codec w' := by
  refine h.record hj (hrequests ▸ Keeps.refl _) hnext rfl hpending ?_ ?_ ?_
  · intro k q hq
    rw [hrequests] at hq
    rw [hj]
    refine (h.knows k q hq).snoc (fun habout => habout) ?_
    rintro (hout | ⟨reply, event, hr⟩)
    · by_cases hown : ∃ r, replyOf codec text = some (.integer q.id, r)
      · obtain ⟨r, hr⟩ := hown
        exact .inr (hsent k q.id r hr hout)
      · exact .inl (outstanding_line.mpr ⟨hout, fun r hr => hown ⟨r, hr⟩⟩)
    · rw [hreading] at hr
      cases hr
  · intro k r event hr
    obtain ⟨hreply, hout⟩ := hsending k r event hr
    rw [hj]
    exact .inr (answered_snoc.mpr (.inr ⟨⟨text, by rw [hreply]⟩, hout⟩))
  · intro hor
    rw [← hwriter]
    exact .inl (.inr (hor.resolve_left hended))

section Ends

/-- A request's own entry leaves the table with its future. -/
theorem table_ends (h : Inv codec w) (hq : w.requests[k]? = some q) (he : e.Ends k) :
    TableHolds (w.journal ++ [e])
      (w.pending.map fun table => table.filter fun entry => entry.1 ≠ q.id) := by
  refine tableHolds_remove h.table ?_ fun id' i => ?_
  · rw [List.mem_append, or_iff_left]
    intro hnew
    rcases he with ⟨outcome, rfl⟩ | rfl <;> cases List.mem_singleton.mp hnew
  · rw [outstanding_ends he]
    refine and_congr_right fun hout => not_congr ?_
    rw [h.id_of_outstanding hout, h.ids k q hq]
    omega

/-- Others know what they knew when one's future ends. -/
theorem knows_others {i : ℕ} (h : Inv codec w) (hq : w.requests[i]? = some q) (he : e.Ends k)
    (hik : i ≠ k) : q.Knows (w.journal ++ [e]) w.reader i := by
  have habout : ¬ e.About i := by
    rcases he with ⟨outcome, rfl⟩ | rfl
    · exact fun heq => hik heq.symm
    · exact fun heq => hik heq.symm
  refine (h.knows i q hq).snoc habout (Or.imp_left fun hout => ?_)
  exact (outstanding_ends he).mpr ⟨hout, hik⟩

/-- A request whose future has not ended is not resolved. -/
theorem not_resolved (h : Inv codec w) (hq : w.requests[k]? = some q)
    (hunended : Unended w.journal k) (outcome : Outcome) : q.phase ≠ .resolved outcome := by
  intro hphase
  have hknows := h.knows k q hq
  unfold Request.Knows at hknows
  rw [hphase] at hknows
  exact hunended.1 outcome hknows.1

theorem keeps_ends (h : Inv codec w) {q' : Request} (hq : w.requests[k]? = some q)
    (hunended : Unended w.journal k) (hid : q'.id = q.id)
    (hrequests : ∀ i, w'.requests[i]? = if i = k then some q' else w.requests[i]?)
    (hlength : w'.requests.length = w.requests.length) : Keeps w.requests w'.requests where
  length := hlength
  get := by
    intro i q₀ hq₀
    rw [hrequests] at hq₀
    split at hq₀
    · next hik =>
        subst hik
        rw [← Option.some.inj hq₀]
        exact ⟨q, hq, hid, fun outcome hphase => absurd hphase (h.not_resolved hq hunended outcome)⟩
    · exact ⟨q₀, hq₀, rfl, fun _ hresolved => hresolved⟩

/-- The future of a request ends, and its entry leaves the table if it is there. -/
theorem ends (h : Inv codec w) (e : Event) (q' : Request) (hq : w.requests[k]? = some q)
    (he : e.Ends k) (hsettles : ∀ outcome, e = .resolved k outcome →
      Settles w.journal k q.id outcome ∧ q'.phase = .resolved outcome)
    (hdropped : e = .dropped k → q'.phase = .dropped)
    (hunended : Unended w.journal k) (hid : q'.id = q.id)
    (hrequests : ∀ i, w'.requests[i]? = if i = k then some q' else w.requests[i]?)
    (hlength : w'.requests.length = w.requests.length) (hnext : w'.nextId = w.nextId)
    (hj : w'.journal = w.journal ++ [e])
    (hpending : w'.pending = w.pending.map fun table => table.filter fun entry => entry.1 ≠ q.id)
    (hreader : w'.reader = w.reader) (hwriter : w'.writer = w.writer) : Inv codec w' := by
  have hthis : w'.requests[k]? = some q' := by rw [hrequests, if_pos rfl]
  have hfits : e.Fits codec w w' := by
    rcases he with ⟨outcome, rfl⟩ | rfl
    · exact ⟨hunended, q', hthis, (hsettles outcome rfl).2⟩
    · exact (List.getElem?_eq_some_iff.mp hq).1
  have hknows : q'.Knows (w.journal ++ [e]) w.reader k := by
    unfold Request.Knows
    rcases he with ⟨outcome, rfl⟩ | rfl
    · obtain ⟨hsettled, hphase⟩ := hsettles outcome rfl
      rw [hphase, hid]
      exact ⟨List.mem_append_right _ (List.mem_singleton_self _), hsettled.snoc⟩
    · rw [hdropped rfl]
      trivial
  refine h.record hj (h.keeps_ends hq hunended hid hrequests hlength) hnext hfits ?_ ?_ ?_ ?_
  · rw [hj, hpending]
    exact h.table_ends hq he
  · intro i q₀ hq₀
    rw [hj, hreader]
    rw [hrequests] at hq₀
    split at hq₀
    · next hik =>
        rw [← Option.some.inj hq₀, hik]
        exact hknows
    · next hik => exact h.knows_others hq₀ he hik
  · exact fun _ _ _ _ => .inl hreader.symm
  · rw [hreader, hwriter]
    exact .inl

end Ends

section Inserts

/-- Others wait as they did when one's entry goes into the table. -/
theorem outstanding_asked_others {i : ℕ} {id' : ℤ} (hik : i ≠ k) :
    Outstanding (j ++ [.asked k id]) i id' ↔ Outstanding j i id' := by
  constructor
  · intro hout
    refine hout.of_snoc ?_
    rcases List.mem_append.mp hout.asked with hold | hnew
    · exact hold
    · exact absurd (Event.asked.inj (List.mem_singleton.mp hnew)).1 hik
  · exact fun hout => hout.snoc (fun heq => hik heq.symm) nofun nofun

/-- The entry of a request that was not asked before takes its place in the table. -/
theorem table_inserts (h : Inv codec w) {table : Pending} (hq : w.requests[k]? = some q)
    (htable : w.pending = some table) (hnotAsked : ∀ id, .asked k id ∉ w.journal)
    (hunended : Unended w.journal k) : TableHolds (w.journal ++ [.asked k q.id])
      (some ((q.id, k) :: table.filter fun entry => entry.1 ≠ q.id)) := by
  have hholds := h.table
  rw [htable] at hholds
  have hthis := outstanding_asked (hnotAsked q.id) hholds.1 hunended
  refine ⟨hthis.notEmptied, fun id i => ?_⟩
  rw [List.mem_cons, List.mem_filter, hholds.2 id i]
  by_cases hik : i = k
  · subst hik
    constructor
    · rintro (heq | ⟨hout, -⟩)
      · rw [(Prod.mk.inj heq).1]
        exact hthis
      · exact absurd hout.asked (hnotAsked id)
    · intro hout
      rcases List.mem_append.mp hout.asked with hold | hnew
      · exact absurd hold (hnotAsked id)
      · rw [(Event.asked.inj (List.mem_singleton.mp hnew)).2]
        exact .inl rfl
  · rw [outstanding_asked_others hik]
    constructor
    · rintro (heq | ⟨hout, -⟩)
      · exact absurd (Prod.mk.inj heq).2 hik
      · exact hout
    · intro hout
      refine .inr ⟨hout, ?_⟩
      rw [h.id_of_outstanding hout, h.ids k q hq]
      exact decide_eq_true (by omega)

/-- A request's entry goes into the table. -/
theorem inserts (h : Inv codec w) {table : Pending} (hq : w.requests[k]? = some q)
    (hphase : q.phase = .begun) (htable : w.pending = some table)
    (hrequests : w'.requests = w.requests.modify k fun q => { q with phase := .inserted })
    (hnext : w'.nextId = w.nextId) (hj : w'.journal = w.journal ++ [.asked k q.id])
    (hpending : w'.pending =
      some ((q.id, k) :: table.filter fun entry => entry.1 ≠ q.id))
    (hreader : w'.reader = w.reader) (hwriter : w'.writer = w.writer) : Inv codec w' := by
  have hknows := h.knows k q hq
  unfold Request.Knows at hknows
  rw [hphase] at hknows
  obtain ⟨hnotAsked, hunended, hempty⟩ := hknows
  have hemptied : .emptied ∉ w.journal := by
    have hholds := h.table
    rw [htable] at hholds
    exact hholds.1
  have hthis := outstanding_asked (hnotAsked q.id) hemptied hunended
  have hkeeps : Keeps w.requests w'.requests := by
    rw [hrequests]
    refine Keeps.modify (fun _ => rfl) fun q₀ hq₀ outcome hresolved => ?_
    exact absurd hresolved (h.not_resolved hq₀ hunended outcome)
  refine h.record hj hkeeps hnext ⟨q, hq, rfl⟩ ?_ ?_ ?_ ?_
  · rw [hj, hpending]
    exact h.table_inserts hq htable hnotAsked hunended
  · intro i q' hq'
    rw [hrequests, List.getElem?_modify] at hq'
    obtain ⟨q₀, hq₀, rfl⟩ := Option.map_eq_some_iff.mp hq'
    rw [hj, hreader]
    by_cases hki : k = i
    · subst hki
      obtain rfl := Option.some.inj (hq.symm.trans hq₀)
      rw [if_pos rfl]
      refine ⟨hthis.asked, hthis.unended, ?_⟩
      rw [hempty]
      exact .inl hthis
    · rw [if_neg hki]
      refine (h.knows i q₀ hq₀).snoc hki (Or.imp_left fun hout => ?_)
      exact (outstanding_asked_others (Ne.symm hki)).mpr hout
  · exact fun _ _ _ _ => .inl hreader.symm
  · rw [hreader, hwriter]
    exact .inl

end Inserts

theorem wrap_eq {n : ℤ} (hn : 0 ≤ n) (hlt : n < 2 ^ 63) : wrap n = n := by
  unfold wrap
  omega

/-- A request is begun, under an id that none had before. -/
theorem begins (h : Inv codec w) (hq : q.id = w.nextId ∧ q.phase = .begun ∧ q.channel = .empty)
    (hfew : w.requests.length + 1 < 2 ^ 63) (hrequests : w'.requests = w.requests ++ [q])
    (hnext : w'.nextId = wrap (w.nextId + 1)) (hj : w'.journal = w.journal)
    (hpending : w'.pending = w.pending) (hreader : w'.reader = w.reader)
    (hwriter : w'.writer = w.writer) : Inv codec w' := by
  have hid : w.nextId = w.requests.length + 1 := by
    rw [h.next]
    exact wrap_eq (by omega) (by omega)
  have hold : ∀ (i : ℕ) (q₀ : Request), w.requests[i]? = some q₀ → w'.requests[i]? = some q₀ := by
    intro i q₀ hq₀
    rw [hrequests, List.getElem?_append_left (List.getElem?_eq_some_iff.mp hq₀).1]
    exact hq₀
  have hget : ∀ (i : ℕ) (q₀ : Request), w'.requests[i]? = some q₀ →
      w.requests[i]? = some q₀ ∨ i = w.requests.length ∧ q₀ = q := by
    intro i q₀ hq₀
    rw [hrequests] at hq₀
    rcases lt_or_ge i w.requests.length with hlt | hge
    · rw [List.getElem?_append_left hlt] at hq₀
      exact .inl hq₀
    · rw [List.getElem?_append_right hge, List.getElem?_singleton] at hq₀
      split at hq₀
      · exact .inr ⟨by omega, (Option.some.inj hq₀).symm⟩
      · cases hq₀
  constructor
  case ids =>
    intro i q₀ hq₀
    rcases hget i q₀ hq₀ with hq₀ | ⟨rfl, rfl⟩
    · exact h.ids i q₀ hq₀
    · rw [hq.1, hid]
  case next =>
    rw [hnext, hid, hrequests]
    simp
  case asked =>
    intro i id hasked
    rw [hj] at hasked
    obtain ⟨q₀, hq₀, hid'⟩ := h.asked i id hasked
    exact ⟨q₀, hold i q₀ hq₀, hid'⟩
  case table => rw [hj, hpending]; exact h.table
  case knows =>
    intro i q₀ hq₀
    rw [hj, hreader]
    rcases hget i q₀ hq₀ with hq₀ | ⟨rfl, rfl⟩
    · exact h.knows i q₀ hq₀
    · have hnone : w.requests[w.requests.length]? = none := List.getElem?_eq_none (le_refl _)
      unfold Request.Knows
      rw [hq.2.1]
      refine ⟨fun id hasked => ?_, ⟨fun outcome hresolved => ?_, fun hdropped => ?_⟩, hq.2.2⟩
      · obtain ⟨q₁, hq₁, -⟩ := h.asked _ id hasked
        rw [hnone] at hq₁
        cases hq₁
      · obtain ⟨q₁, hq₁, -⟩ := h.resolved _ outcome hresolved
        rw [hnone] at hq₁
        cases hq₁
      · exact absurd (h.dropped _ hdropped) (lt_irrefl _)
  case resolved =>
    intro i outcome hresolved
    rw [hj] at hresolved
    obtain ⟨q₀, hq₀, hphase⟩ := h.resolved i outcome hresolved
    exact ⟨q₀, hold i q₀ hq₀, hphase⟩
  case dropped =>
    intro i hdropped
    rw [hj] at hdropped
    have := h.dropped i hdropped
    rw [hrequests, List.length_append]
    omega
  case once => rw [hj]; exact h.once
  case sending => rw [hj, hreader]; exact h.sending
  case ended => rw [hj, hreader, hwriter]; exact h.ended
  case lines => rw [hj]; exact h.lines

/-- The entry that a future takes out of the table is its own. -/
theorem close_entry (h : Inv codec w) (hq : w.requests[k]? = some q) :
    w.close (w.entry q.id) = w ∨
      w.close (w.entry q.id) = w.modify k fun q => { q with channel := .closed } := by
  cases hentry : w.entry q.id with
  | none => exact .inl rfl
  | some k' =>
      have hk' := h.id_of_outstanding (h.entry.mp hentry)
      rw [h.ids k q hq] at hk'
      obtain rfl : k' = k := by omega
      exact .inr rfl

/-- A guard is dropped, and the future ends. -/
theorem leave (h : Inv codec w) {outcome : Option Outcome} (hq : w.requests[k]? = some q)
    (hphase : q.phase = .leaving outcome) : Inv codec (w.leave k q.id outcome) := by
  have hknows := h.knows k q hq
  unfold Request.Knows at hknows
  rw [hphase] at hknows
  obtain ⟨-, hunended, hsettles⟩ := hknows
  have hclosed : ∃ q₀, q₀.id = q.id ∧ (w.close (w.entry q.id)).requests.length = w.requests.length ∧
      (∀ i, (w.close (w.entry q.id)).requests[i]? = if i = k then some q₀ else w.requests[i]?) ∧
      (w.close (w.entry q.id)).nextId = w.nextId ∧ (w.close (w.entry q.id)).journal = w.journal ∧
      (w.close (w.entry q.id)).pending = w.pending ∧ (w.close (w.entry q.id)).reader = w.reader ∧
      (w.close (w.entry q.id)).writer = w.writer := by
    rcases h.close_entry hq with heq | heq
    · rw [heq]
      refine ⟨q, rfl, rfl, fun i => ?_, rfl, rfl, rfl, rfl, rfl⟩
      split
      · next hik => rw [hik, hq]
      · rfl
    · rw [heq]
      refine ⟨{ q with channel := .closed }, rfl, List.length_modify .., fun i => ?_, rfl, rfl, rfl,
        rfl, rfl⟩
      rw [World.modify, List.getElem?_modify]
      by_cases hik : i = k
      · simp [hik, hq]
      · simp [hik, Ne.symm hik]
  obtain ⟨q₀, hid, hlength, hrequests, hnext, hj, hpending, hreader, hwriter⟩ := hclosed
  have hmodified : ∀ (f : Request → Request) (i : ℕ),
      ((w.close (w.entry q.id)).requests.modify k f)[i]? =
        if i = k then some (f q₀) else w.requests[i]? := by
    intro f i
    rw [List.getElem?_modify, hrequests]
    by_cases hik : i = k
    · simp [hik]
    · simp [hik, Ne.symm hik]
  have hremoved : ((w.close (w.entry q.id)).remove q.id).pending =
      w.pending.map fun table => table.filter fun entry => entry.1 ≠ q.id := by
    rw [World.remove, hpending]
  unfold World.leave
  cases outcome with
  | some outcome =>
      exact h.ends (.resolved k outcome) { q₀ with phase := .resolved outcome } hq
        (.inl ⟨outcome, rfl⟩)
        (fun o ho => by rw [← (Event.resolved.inj ho).2]; exact ⟨hsettles outcome rfl, rfl⟩)
        nofun hunended hid (hmodified _) (by rw [← hlength]; exact List.length_modify ..) hnext
        (congrArg (· ++ _) hj) hremoved hreader hwriter
  | none =>
      exact h.ends (.dropped k) { q₀ with phase := .dropped } hq (.inr rfl) nofun
        (fun _ => rfl) hunended hid (hmodified _) (by rw [← hlength]; exact List.length_modify ..)
        hnext (congrArg (· ++ _) hj) hremoved hreader hwriter

/-- A future's first use of the table. -/
theorem insert (h : Inv codec w) (hq : w.requests[k]? = some q) (hphase : q.phase = .begun) :
    Inv codec (w.insert k q.id) := by
  have hknows := h.knows k q hq
  unfold Request.Knows at hknows
  rw [hphase] at hknows
  obtain ⟨hnotAsked, hunended, -⟩ := hknows
  have htable := h.table
  unfold World.insert
  cases hp : w.pending with
  | none =>
      rw [hp] at htable
      refine h.ends (.resolved k .closed) { q with phase := .resolved .closed } hq
        (.inl ⟨_, rfl⟩) (fun o ho => ?_) nofun hunended rfl (fun i => ?_) (List.length_modify ..)
        rfl rfl (by rw [hp]; exact hp) rfl rfl
      · rw [← (Event.resolved.inj ho).2]
        exact ⟨htable, rfl⟩
      · rw [World.record, World.modify, List.getElem?_modify]
        by_cases hik : i = k
        · simp [hik, hq]
        · simp [hik, Ne.symm hik]
  | some table =>
      have hentry : w.entry q.id = none := by
        refine h.entry_none.mpr fun k' hout => ?_
        have hk' := h.id_of_outstanding hout
        rw [h.ids k q hq] at hk'
        obtain rfl : k' = k := by omega
        exact hnotAsked _ hout.asked
      rw [hentry]
      exact h.inserts hq hphase hp rfl rfl rfl (by simp [World.remove, World.close, hp]) rfl rfl

/-- A line that is no reply to a request that waits. -/
theorem inert (h : Inv codec w) {text : String} (hreading : w.reader = .reading)
    (hnone : ∀ id r k, replyOf codec text = some (.integer id, r) → ¬ Outstanding w.journal k id)
    (event : Option Incoming) :
    Inv codec ((w.record (.line text (replyOf codec text))).push event) := by
  refine h.line hreading rfl rfl rfl (tableHolds_same h.table ?_ fun id k => ?_) ?_ ?_ ?_ rfl
  · exact ⟨fun hmem => (List.mem_append.mp hmem).resolve_right (by simp),
      fun hmem => List.mem_append_left _ hmem⟩
  · exact outstanding_line.trans (and_iff_left_of_imp fun hout r hr => hnone id r k hr hout)
  · exact fun k id r hr hout => absurd hout (hnone id r k hr)
  · intro k r event' hr
    have hsending : w.reader = .sending k r event' := hr
    rw [hreading] at hsending
    cases hsending
  · intro hended
    have hended' : w.reader = .ended := hended
    rw [hreading] at hended'
    cases hended'

/-- A line that is the reply to a request that waits. -/
theorem sends (h : Inv codec w) {text : String} {reply : Reply} (hreading : w.reader = .reading)
    (hreply : replyOf codec text = some (.integer id, reply)) (hout : Outstanding w.journal k id)
    (event : Option Incoming) :
    Inv codec { (w.record (.line text (replyOf codec text))).remove id with
      reader := .sending k reply event } := by
  have hid := h.id_of_outstanding hout
  refine h.line hreading rfl rfl rfl (tableHolds_remove h.table ?_ fun id' k' => ?_) ?_ ?_ nofun rfl
  · exact ⟨fun hmem => (List.mem_append.mp hmem).resolve_right (by simp),
      fun hmem => List.mem_append_left _ hmem⟩
  · refine outstanding_line.trans (and_congr_right fun _ => ?_)
    rw [hreply]
    constructor
    · rintro hne rfl
      exact hne reply rfl
    · intro hne r heq
      exact hne (RequestId.integer.inj (Prod.mk.inj (Option.some.inj heq)).1).symm
  · intro k' id' r hr hout'
    rw [hreply] at hr
    obtain ⟨heq, rfl⟩ := Prod.mk.inj (Option.some.inj hr)
    obtain rfl := RequestId.integer.inj heq
    have hid' := h.id_of_outstanding hout'
    obtain rfl : k' = k := by omega
    exact ⟨reply, event, rfl⟩
  · intro k' r event' hr
    obtain ⟨rfl, rfl, -⟩ := Reader.sending.inj hr
    exact ⟨by rw [hreply, hid], hid ▸ hout⟩

theorem dispatch (h : Inv codec w) (hreading : w.reader = .reading) (line : String) :
    Inv codec (w.dispatch codec line) := by
  rcases w.dispatch_cases codec line with ⟨id, k, r, hreply, hentry, heq⟩ | ⟨hnone, heq⟩
  · rw [heq]
    exact h.sends hreading hreply (h.entry.mp hentry) _
  · rw [heq]
    refine h.inert hreading (fun id r k hreply hout => ?_) _
    exact h.entry_none.mp (hnone id r hreply) k hout

theorem handle (h : Inv codec w) (hreading : w.reader = .reading) (maxLine : ℕ)
    (buffer : List UInt8) : Inv codec (w.handle codec maxLine buffer) := by
  unfold World.handle
  split
  · exact h.empty (.inr ⟨hreading, rfl⟩) rfl rfl rfl rfl
  · split
    · exact h.empty (.inr ⟨hreading, rfl⟩) rfl rfl rfl rfl
    · split
      · exact h.same rfl rfl rfl rfl rfl id
      · dsimp only
        split
        · exact h
        · exact h.dispatch hreading _

variable {maxLine : ℕ} {a : Action}

theorem poll (h : Inv codec w) (hq : w.requests[k]? = some q) (ha : w.poll k q = some w') :
    Inv codec w' := by
  have hknows := h.knows k q hq
  have hgoes : ∀ phase : Phase, (∀ outcome, q.phase ≠ .resolved outcome) →
      ({ q with phase := phase } : Request).Knows w.journal w.reader k →
      Inv codec (w.modify k fun q => { q with phase := phase }) := by
    intro phase hphase hknows
    refine h.modify (f := fun q => { q with phase := phase }) (fun _ => rfl) rfl rfl rfl rfl
      (.inl rfl) rfl (fun q₀ hq₀ outcome hresolved => ?_) fun q₀ hq₀ => ?_
    · obtain rfl := Option.some.inj (hq.symm.trans hq₀)
      exact absurd hresolved (hphase outcome)
    · obtain rfl := Option.some.inj (hq.symm.trans hq₀)
      exact hknows
  unfold World.poll at ha
  unfold Request.Knows at hknows
  cases hphase : q.phase with
  | begun =>
      rw [hphase] at ha
      rw [← Option.some.inj ha]
      exact h.insert hq hphase
  | inserted =>
      rw [hphase] at ha hknows
      dsimp only at ha
      split at ha
      · next hgone =>
          rw [← Option.some.inj ha]
          refine hgoes _ (by simp [hphase]) ⟨hknows.1, hknows.2.1, ?_⟩
          rintro o ho
          rw [← Option.some.inj ho]
          exact h.ended (.inr (by rw [hgone]; exact nofun))
      · rw [← Option.some.inj ha]
        exact (hgoes .waiting (by simp [hphase]) hknows).same rfl rfl rfl rfl rfl id
  | waiting =>
      rw [hphase] at ha hknows
      obtain ⟨hasked, hunended, hchannel⟩ := hknows
      cases hstate : q.channel with
      | empty =>
          rw [hstate] at ha
          cases ha
      | sent reply =>
          rw [hstate] at ha hchannel
          rw [← Option.some.inj ha]
          refine hgoes _ (by simp [hphase]) ⟨hasked, hunended, ?_⟩
          rintro o ho
          rw [← Option.some.inj ho]
          exact hchannel
      | closed =>
          rw [hstate] at ha hchannel
          rw [← Option.some.inj ha]
          refine hgoes _ (by simp [hphase]) ⟨hasked, hunended, ?_⟩
          rintro o ho
          rw [← Option.some.inj ho]
          exact hchannel.1
  | leaving outcome =>
      rw [hphase] at ha
      rw [← Option.some.inj ha]
      exact h.leave hq hphase
  | resolved outcome =>
      rw [hphase] at ha
      cases ha
  | dropped =>
      rw [hphase] at ha
      cases ha

theorem step (h : Inv codec w) (ha : w.step codec maxLine a = some w')
    (hfew : w'.requests.length < 2 ^ 63) : Inv codec w' := by
  cases a with
  | begin method params =>
      obtain rfl := Option.some.inj ha
      rw [List.length_append] at hfew
      exact h.begins ⟨rfl, rfl, rfl⟩ hfew rfl rfl rfl rfl rfl rfl
  | poll k =>
      obtain ⟨q, hq, ha⟩ := Option.bind_eq_some_iff.mp ha
      exact h.poll hq ha
  | drop k =>
      obtain ⟨q, hq, ha⟩ := Option.bind_eq_some_iff.mp ha
      have hknows := h.knows k q hq
      unfold Request.Knows at hknows
      split at ha
      · next hphase =>
          rw [hphase] at hknows
          rw [← Option.some.inj ha]
          refine h.modify (f := fun q => { q with phase := .leaving none }) (fun _ => rfl) rfl rfl rfl
            rfl (.inl rfl) rfl (fun q₀ hq₀ outcome hresolved => ?_) fun q₀ hq₀ => ?_
          · obtain rfl := Option.some.inj (hq.symm.trans hq₀)
            rw [hphase] at hresolved
            cases hresolved
          · obtain rfl := Option.some.inj (hq.symm.trans hq₀)
            exact ⟨hknows.1, hknows.2.1, nofun⟩
      · cases ha
  | send message =>
      simp only [World.step] at ha
      split at ha <;>
      · obtain rfl := Option.some.inj ha
        exact h.same rfl rfl rfl rfl rfl id
  | write =>
      simp only [World.step] at ha
      split at ha
      · obtain rfl := Option.some.inj ha
        exact h.same rfl rfl rfl rfl rfl id
      · cases ha
  | writeFails =>
      simp only [World.step] at ha
      split at ha
      · obtain rfl := Option.some.inj ha
        exact h.empty (.inl rfl) rfl rfl rfl rfl
      · cases ha
  | hangUp =>
      obtain ⟨hfailed, heq⟩ := Option.ite_none_right_eq_some.mp ha
      obtain rfl := Option.some.inj heq
      exact h.same rfl rfl rfl rfl rfl fun _ => by rw [hfailed]; exact nofun
  | serve bytes =>
      obtain ⟨-, heq⟩ := Option.ite_none_left_eq_some.mp ha
      obtain rfl := Option.some.inj heq
      exact h.same rfl rfl rfl rfl rfl id
  | serverEnds =>
      obtain rfl := Option.some.inj ha
      exact h.same rfl rfl rfl rfl rfl id
  | read =>
      simp only [World.step] at ha
      split at ha
      · next hreading =>
          obtain ⟨buffer, -, rfl⟩ := Option.map_eq_some_iff.mp ha
          have hrest : Inv codec { w with unread := w.unread.drop buffer.length } :=
            h.same rfl rfl rfl rfl rfl id
          exact hrest.handle hreading maxLine buffer
      · cases ha
  | readFails =>
      simp only [World.step] at ha
      split at ha
      · next hreading =>
          obtain rfl := Option.some.inj ha
          exact h.empty (.inr ⟨hreading, rfl⟩) rfl rfl rfl rfl
      · cases ha
  | complete =>
      simp only [World.step] at ha
      split at ha
      · next k reply event hsending =>
          obtain rfl := Option.some.inj ha
          have hanswered := h.sending k reply event hsending
          have hsent : Inv codec ({ w with reader := .reading }.modify k fun q =>
              { q with channel := .sent reply }) := by
            refine h.modify (f := fun q => { q with channel := .sent reply }) (fun _ => rfl) rfl rfl rfl
              rfl (.inr ⟨rfl, reply, event, hsending⟩) rfl (fun q₀ hq₀ outcome hresolved => hresolved)
              fun q₀ hq₀ => ?_
            have hknows := h.knows k q₀ hq₀
            have hid := h.ids k q₀ hq₀
            unfold Request.Knows at hknows ⊢
            cases hphase : q₀.phase with
            | begun =>
                rw [hphase] at hknows
                exact absurd hanswered.asked (hknows.1 _)
            | inserted | waiting =>
                rw [hphase] at hknows
                exact ⟨hknows.1, hknows.2.1, hid ▸ hanswered⟩
            | leaving outcome | resolved outcome | dropped =>
                rw [hphase] at hknows
                exact hknows
          exact hsent.same rfl rfl rfl rfl rfl id
      · cases ha

theorem start : Inv codec World.start where
  ids := by simp [World.start]
  next := (wrap_eq (by simp [World.start]) (by simp [World.start])).symm
  asked := by simp [World.start]
  table := by
    refine ⟨by simp [World.start], fun id k => ⟨nofun, fun hout => ?_⟩⟩
    exact absurd hout.asked (by simp [World.start])
  knows := by simp [World.start]
  resolved := by simp [World.start]
  dropped := by simp [World.start]
  once := by simp [World.start]
  sending := by simp [World.start]
  ended := by simp [World.start]
  lines := by simp [World.start]

end Inv

end Invariant

end Bokkie.RpcClient
