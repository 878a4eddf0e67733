import Bokkie.RpcCorrelation

/-!
# What requests end with

What the client promises of its requests in every run, and the lines for which it does not: those
that are documents beyond what the reader of documents takes.
-/

namespace Bokkie.RpcClient

/-- The line is a document without a method and with the id, and does not decode as a message. -/
structure Undecodable (codec : Codec) (text : String) (id : RequestId) (doc : Json) : Prop where
  document : codec.parse text = some doc
  method : doc.get "method" = none
  id : ∃ value, doc.get "id" = some value ∧ RpcMessage.readId (some value) = some id
  undecoded : RpcMessage.decode (some doc) = none

/-- The line carries the id, and the reply is its result, its error, or that it does not decode. -/
inductive IsReply (codec : Codec) (text : String) (id : RequestId) : Reply → Prop
  | result {result : Json} : RpcMessage.decode (codec.parse text) = some (.response id result) →
      IsReply codec text id (.ok result)
  | error {error : RpcError} : RpcMessage.decode (codec.parse text) = some (.error (some id) error) →
      IsReply codec text id (.error error)
  | undecodable {doc : Json} {message : String} : Undecodable codec text id doc →
      IsReply codec text id (.error ⟨RpcError.PARSE_ERROR, message, none⟩)

/-- The text that the reader dispatches when it reads next. -/
def World.nextText (maxLine : ℕ) (w : World) : Option String := do
  let buffer ← readUntil (maxLine + 1) w.unread w.outputEnded
  if buffer = [] ∨ (maxLine < buffer.length ∧ buffer.getLast? ≠ some NEWLINE) then none
  else
    let line := trimEndMatches (← fromUtf8 buffer)
    if trim line = "" then none else some line

/-- The future has not been dropped. -/
def Request.Live (q : Request) : Prop := q.phase ≠ .leaving none ∧ q.phase ≠ .dropped

/-- Polled, the future resolves with the outcome, once the reader has sent what it is sending. -/
def ResolvesTo (codec : Codec) (maxLine : ℕ) (w : World) (k : ℕ) (outcome : Outcome) : Prop :=
  ∃ as w', (∀ a ∈ as, a = .poll k ∨ a = .complete) ∧
    Runs.Run (Runs.Steps (World.step codec maxLine)) w as w' ∧ .resolved k outcome ∈ w'.journal

/-- What the client promises of its requests. -/
structure Correlated (codec : Codec) (maxLine : ℕ) (w : World) : Prop where
  /-- Every request has an id of its own. -/
  ids : ∀ (k k' : ℕ) q q', w.requests[k]? = some q → w.requests[k']? = some q' → q.id = q'.id →
    k = k'
  /-- A future resolves at most once. -/
  once : ∀ before k outcome after, w.journal = before ++ .resolved k outcome :: after →
    Unended before k
  /-- It resolves with the reply of a line that came while the request waited, or as closed once the
  table was emptied. -/
  own : ∀ k outcome, .resolved k outcome ∈ w.journal →
    ∃ q, w.requests[k]? = some q ∧ Settles w.journal k q.id outcome
  /-- The reply of a line is what the line carries, with its id. -/
  carries : ∀ text id reply, .line text (some (id, reply)) ∈ w.journal → IsReply codec text id reply
  /-- A line touches no request, and ends the wait of no other than its own id's; where none waits
  under that, it changes nothing. -/
  others : ∀ w', w.step codec maxLine .read = some w' → ∀ text reply,
    w'.journal = w.journal ++ [.line text reply] → w'.requests = w.requests ∧
      (∀ k id, Outstanding w.journal k id → (∀ r, reply ≠ some (.integer id, r)) →
        Outstanding w'.journal k id) ∧
      ((∀ k id r, reply = some (.integer id, r) → ¬ Outstanding w.journal k id) →
        w'.pending = w.pending ∧ w'.reader = w.reader)
  /-- A line that does not decode fails the request that waits under its id. -/
  undecodable : ∀ before text reply after k id doc, w.journal = before ++ .line text reply :: after →
    Undecodable codec text (.integer id) doc → Outstanding before k id →
    ∃ message, reply = some (.integer id, .error ⟨RpcError.PARSE_ERROR, message, none⟩)
  /-- A request that is answered, and whose line can still be sent, resolves with the reply. -/
  answers : ∀ (k : ℕ) q reply, w.requests[k]? = some q → Answered w.journal k q.id reply →
    q.phase = .waiting ∨ q.phase = .inserted ∧ w.writer ≠ .gone →
    ResolvesTo codec maxLine w k (.answered reply)
  /-- A reader that has ended, or a writer that has failed, has emptied the table. -/
  ended : w.reader = .ended ∨ w.writer ≠ .writing → .emptied ∈ w.journal
  /-- The reader ends once it has read all of an output that ended. -/
  outputEnded : w.outputEnded = true → w.unread = [] → w.reader = .reading →
    ∃ w', w.step codec maxLine .read = some w' ∧ w'.reader = .ended ∧ .emptied ∈ w'.journal
  /-- With the table emptied, a request that has not been answered resolves as closed. -/
  closes : .emptied ∈ w.journal → ∀ (k : ℕ) q, w.requests[k]? = some q → q.Live →
    (∀ reply, ¬ Answered w.journal k q.id reply) → ResolvesTo codec maxLine w k .closed
  /-- A line that goes on past the bound ends the reader. -/
  overlong : w.reader = .reading → maxLine < w.unread.length →
    NEWLINE ∉ w.unread.take (maxLine + 1) →
    ∃ w', w.step codec maxLine .read = some w' ∧ w'.reader = .ended ∧ .emptied ∈ w'.journal

/-- Of the lines that do not decode and carry the id of a request that waits, those that are read are
documents that can be read. -/
def Legible (codec : Codec) (maxLine : ℕ) (w : World) (a : Action) : Prop :=
  a = .read → ∀ text, w.nextText maxLine = some text → ∀ k id doc,
    Undecodable codec text (.integer id) doc → Outstanding w.journal k id → doc.readable = true

variable {codec : Codec} {maxLine : ℕ} {w w' : World} {k : ℕ} {q : Request} {outcome : Outcome}

section Lines

variable {text : String} {id : RequestId} {reply : Reply} {doc : Json}

theorem isReply_of_replyOf (h : replyOf codec text = some (id, reply)) :
    IsReply codec text id reply := by
  unfold replyOf at h
  split at h
  · next hdecode =>
      obtain ⟨rfl, rfl⟩ := Prod.mk.inj (Option.some.inj h)
      exact .result hdecode
  · next hdecode =>
      obtain ⟨rfl, rfl⟩ := Prod.mk.inj (Option.some.inj h)
      exact .error hdecode
  · cases h
  · next hdecode =>
      obtain ⟨doc, hdoc, h⟩ := Option.bind_eq_some_iff.mp h
      obtain ⟨⟨-, hmethod⟩, h⟩ := Option.ite_none_right_eq_some.mp h
      obtain ⟨value, hvalue, h⟩ := Option.bind_eq_some_iff.mp h
      obtain ⟨id', hid, h⟩ := Option.bind_eq_some_iff.mp h
      obtain ⟨rfl, rfl⟩ := Prod.mk.inj (Option.some.inj h)
      rw [hdoc] at hdecode
      exact .undecodable ⟨hdoc, Option.isNone_iff_eq_none.mp hmethod, ⟨value, hvalue, hid⟩, hdecode⟩

theorem replyOf_of_undecodable (h : Undecodable codec text id doc) (hreadable : doc.readable = true) :
    ∃ message, replyOf codec text = some (id, .error ⟨RpcError.PARSE_ERROR, message, none⟩) := by
  obtain ⟨value, hvalue, hid⟩ := h.id
  unfold replyOf
  rw [h.document, h.undecoded]
  simp [hreadable, h.method, hvalue, hid]

end Lines

section Reading

theorem journal_dispatch (line : String) :
    (w.dispatch codec line).journal = w.journal ++ [.line line (replyOf codec line)] := by
  rcases w.dispatch_cases codec line with ⟨id, k, r, -, -, heq⟩ | ⟨-, heq⟩ <;>
  · rw [heq]
    rfl

theorem not_snoc_self {j : List Event} {e : Event} : j ≠ j ++ [e] := by
  intro h
  have := congrArg List.length h
  simp at this

/-- A read that adds a line to the journal dispatches the text that was next. -/
theorem dispatch_of_read {text : String} {reply : Option (RequestId × Reply)}
    (ha : w.step codec maxLine .read = some w')
    (hj : w'.journal = w.journal ++ [.line text reply]) :
    w.reader = .reading ∧ w.nextText maxLine = some text ∧ reply = replyOf codec text ∧
      ∃ rest, w' = ({ w with unread := rest } : World).dispatch codec text := by
  simp only [World.step] at ha
  split at ha
  · next hreading =>
      obtain ⟨buffer, hbuffer, rfl⟩ := Option.map_eq_some_iff.mp ha
      have hlast : ∀ {v : World}, v.journal = w.journal →
          v.empty.journal ≠ w.journal ++ [.line text reply] := by
        intro v hv heq
        rw [World.empty, hv] at heq
        cases (List.append_inj' heq rfl).2
      unfold World.handle at hj ⊢
      unfold World.nextText
      rw [hbuffer, Option.bind_eq_bind, Option.bind_some]
      by_cases hend : buffer = []
      · rw [if_pos hend] at hj
        exact absurd hj (hlast rfl)
      · rw [if_neg hend] at hj ⊢
        by_cases hover : maxLine < buffer.length ∧ buffer.getLast? ≠ some NEWLINE
        · rw [if_pos hover] at hj
          exact absurd hj (hlast rfl)
        · rw [if_neg hover] at hj ⊢
          rw [if_neg (not_or_intro hend hover)]
          cases hraw : fromUtf8 buffer with
          | none =>
              rw [hraw] at hj
              exact absurd hj not_snoc_self
          | some raw =>
              rw [hraw] at hj
              dsimp only at hj ⊢
              by_cases hblank : trim (trimEndMatches raw) = ""
              · rw [if_pos hblank] at hj
                exact absurd hj not_snoc_self
              · rw [if_neg hblank] at hj ⊢
                rw [journal_dispatch] at hj
                obtain ⟨rfl, rfl⟩ := Event.line.inj (List.cons.inj (List.append_inj' hj rfl).2).1
                exact ⟨hreading, by simp [hblank], rfl, _, rfl⟩
  · cases ha

/-- A line touches no request, and no entry but that of its own id. -/
theorem others_of_read (h : Inv codec w) (ha : w.step codec maxLine .read = some w') {text : String}
    {reply : Option (RequestId × Reply)} (hj : w'.journal = w.journal ++ [.line text reply]) :
    w'.requests = w.requests ∧
      (∀ k id, Outstanding w.journal k id → (∀ r, reply ≠ some (.integer id, r)) →
        Outstanding w'.journal k id) ∧
      ((∀ k id r, reply = some (.integer id, r) → ¬ Outstanding w.journal k id) →
        w'.pending = w.pending ∧ w'.reader = w.reader) := by
  obtain ⟨-, -, rfl, rest, rfl⟩ := dispatch_of_read ha hj
  have hkeeps : ∀ k id, Outstanding w.journal k id →
      (∀ r, replyOf codec text ≠ some (.integer id, r)) →
      Outstanding (({ w with unread := rest } : World).dispatch codec text).journal k id := by
    intro k id hout hother
    rw [hj]
    exact outstanding_line.mpr ⟨hout, hother⟩
  rcases World.dispatch_cases codec { w with unread := rest } text with
    ⟨id, k, r, hreply, hentry, heq⟩ | ⟨-, heq⟩
  · have hout := h.entry.mp hentry
    refine ⟨by rw [heq]; rfl, hkeeps, fun hnone => absurd hout (hnone k id r hreply)⟩
  · exact ⟨by rw [heq]; rfl, hkeeps, fun _ => by rw [heq]; exact ⟨rfl, rfl⟩⟩

theorem readUntil_ended : readUntil (maxLine + 1) [] true = some [] := rfl

theorem outputEnded_of_reading (hended : w.outputEnded = true) (hunread : w.unread = [])
    (hreading : w.reader = .reading) :
    ∃ w', w.step codec maxLine .read = some w' ∧ w'.reader = .ended ∧ .emptied ∈ w'.journal := by
  simp only [World.step]
  rw [hreading, hended, hunread, readUntil_ended]
  exact ⟨_, rfl, rfl, List.mem_append_right _ (List.mem_singleton_self _)⟩

theorem untilNewline_of_not_mem {bytes : List UInt8} (h : NEWLINE ∉ bytes) :
    untilNewline bytes = bytes := by
  induction bytes with
  | nil => rfl
  | cons b bytes ih =>
      have hb : b ≠ NEWLINE := fun heq => h (heq ▸ List.mem_cons_self ..)
      rw [untilNewline, if_neg hb, ih fun hmem => h (List.mem_cons_of_mem _ hmem)]

/-- Without a newline within the bound, the reader reads one byte past it. -/
theorem overlong_of_reading (hreading : w.reader = .reading) (hlong : maxLine < w.unread.length)
    (hnewline : NEWLINE ∉ w.unread.take (maxLine + 1)) :
    ∃ w', w.step codec maxLine .read = some w' ∧ w'.reader = .ended ∧ .emptied ∈ w'.journal := by
  have hlength : (w.unread.take (maxLine + 1)).length = maxLine + 1 := by
    rw [List.length_take]
    omega
  have hbuffer : readUntil (maxLine + 1) w.unread w.outputEnded =
      some (w.unread.take (maxLine + 1)) := by
    unfold readUntil
    rw [untilNewline_of_not_mem hnewline]
    exact if_pos (.inr (.inl hlength))
  have hne : w.unread.take (maxLine + 1) ≠ [] := by
    intro hnil
    rw [hnil] at hlength
    cases hlength
  have hover : maxLine < (w.unread.take (maxLine + 1)).length ∧
      (w.unread.take (maxLine + 1)).getLast? ≠ some NEWLINE := by
    refine ⟨by omega, fun hlast => hnewline (List.mem_of_getLast? hlast)⟩
  simp only [World.step]
  rw [hreading, hbuffer]
  refine ⟨_, rfl, ?_⟩
  unfold World.handle
  dsimp only
  rw [if_neg hne, if_pos hover]
  exact ⟨rfl, List.mem_append_right _ (List.mem_singleton_self _)⟩

end Reading

section Polls

theorem resolvesTo_of_poll (w' : World) (hq : w.requests[k]? = some q) (hp : w.poll k q = some w')
    (h : ResolvesTo codec maxLine w' k outcome) : ResolvesTo codec maxLine w k outcome := by
  obtain ⟨as, v, has, hrun, hresolved⟩ := h
  have hstep : w.step codec maxLine (.poll k) = some w' := by
    rw [World.step, hq, Option.bind_some, hp]
  refine ⟨.poll k :: as, v, ?_, hrun.cons hstep, hresolved⟩
  exact List.forall_mem_cons.mpr ⟨.inl rfl, has⟩

theorem resolvesTo_of_complete (hc : w.step codec maxLine .complete = some w')
    (h : ResolvesTo codec maxLine w' k outcome) : ResolvesTo codec maxLine w k outcome := by
  obtain ⟨as, v, has, hrun, hresolved⟩ := h
  exact ⟨.complete :: as, v, List.forall_mem_cons.mpr ⟨.inr rfl, has⟩, hrun.cons hc, hresolved⟩

theorem resolvesTo_of_resolved (h : .resolved k outcome ∈ w.journal) :
    ResolvesTo codec maxLine w k outcome := ⟨[], w, nofun, .nil, h⟩

theorem getElem?_modify_self (hq : w.requests[k]? = some q) (f : Request → Request) :
    (w.modify k f).requests[k]? = some (f q) := by
  rw [World.modify, List.getElem?_modify, hq]
  simp

/-- The guard is dropped, and the future resolves. -/
theorem resolvesTo_of_leaving (hq : w.requests[k]? = some q)
    (hphase : q.phase = .leaving (some outcome)) : ResolvesTo codec maxLine w k outcome := by
  refine resolvesTo_of_poll (w.leave k q.id (some outcome)) hq ?_
    (resolvesTo_of_resolved (List.mem_append_right _ (List.mem_singleton_self _)))
  unfold World.poll
  rw [hphase]

theorem resolvesTo_of_sent {reply : Reply} (hq : w.requests[k]? = some q)
    (hphase : q.phase = .waiting) (hchannel : q.channel = .sent reply) :
    ResolvesTo codec maxLine w k (.answered reply) := by
  refine resolvesTo_of_poll (w.modify k fun q =>
      { q with phase := .leaving (some (.answered reply)) }) hq ?_
    (resolvesTo_of_leaving (getElem?_modify_self hq _) rfl)
  unfold World.poll
  rw [hphase, hchannel]

theorem resolvesTo_of_closed (hq : w.requests[k]? = some q) (hphase : q.phase = .waiting)
    (hchannel : q.channel = .closed) : ResolvesTo codec maxLine w k .closed := by
  refine resolvesTo_of_poll (w.modify k fun q =>
      { q with phase := .leaving (some .closed) }) hq ?_
    (resolvesTo_of_leaving (getElem?_modify_self hq _) rfl)
  unfold World.poll
  rw [hphase, hchannel]

/-- A request whose line is with the writer resolves with what it is answered. -/
theorem answers_of_waiting (h : Inv codec w) {reply : Reply} (hq : w.requests[k]? = some q)
    (hphase : q.phase = .waiting) (hanswered : Answered w.journal k q.id reply) :
    ResolvesTo codec maxLine w k (.answered reply) := by
  have hknows := h.knows k q hq
  unfold Request.Knows at hknows
  rw [hphase] at hknows
  have hholds := hknows.2.2
  cases hchannel : q.channel with
  | empty =>
      rw [hchannel] at hholds
      obtain ⟨reply', event, hsending⟩ := hholds.resolve_left hanswered.not_outstanding
      have hanswered' := h.sending k reply' event hsending
      rw [← h.ids k q hq] at hanswered'
      obtain rfl := hanswered.unique hanswered'
      have hstep : w.step codec maxLine .complete = some (({ w with reader := .reading }.modify k
          fun q => { q with channel := .sent reply }).push event) := by
        simp only [World.step]
        rw [hsending]
      exact resolvesTo_of_complete hstep (resolvesTo_of_sent
        (q := { q with channel := .sent reply }) (getElem?_modify_self hq _) hphase rfl)
  | sent reply' =>
      rw [hchannel] at hholds
      obtain rfl := hanswered.unique hholds
      exact resolvesTo_of_sent hq hphase hchannel
  | closed =>
      rw [hchannel] at hholds
      exact absurd hanswered (hholds.2 reply)

/-- The future queues its line. -/
theorem poll_inserted (hphase : q.phase = .inserted) (hwriter : w.writer ≠ .gone) :
    w.poll k q = some { w.modify k fun q => { q with phase := .waiting } with
      lines := w.lines ++ [q.line] } := by
  unfold World.poll
  rw [hphase]
  exact if_neg hwriter

theorem answers_of_inserted (h : Inv codec w) {reply : Reply} (hq : w.requests[k]? = some q)
    (hphase : q.phase = .inserted) (hwriter : w.writer ≠ .gone)
    (hanswered : Answered w.journal k q.id reply) :
    ResolvesTo codec maxLine w k (.answered reply) := by
  have hp := poll_inserted (k := k) hphase hwriter
  exact resolvesTo_of_poll _ hq hp (answers_of_waiting (q := { q with phase := .waiting })
    (h.poll hq hp) (getElem?_modify_self hq _) rfl hanswered)

theorem closes_of_waiting (h : Inv codec w) (hemptied : .emptied ∈ w.journal)
    (hq : w.requests[k]? = some q) (hphase : q.phase = .waiting)
    (hnone : ∀ reply, ¬ Answered w.journal k q.id reply) : ResolvesTo codec maxLine w k .closed := by
  have hknows := h.knows k q hq
  unfold Request.Knows at hknows
  rw [hphase] at hknows
  have hholds := hknows.2.2
  cases hchannel : q.channel with
  | empty =>
      rw [hchannel] at hholds
      rcases hholds with hout | ⟨reply, event, hsending⟩
      · exact absurd hemptied hout.notEmptied
      · have hanswered := h.sending k reply event hsending
        rw [← h.ids k q hq] at hanswered
        exact absurd hanswered (hnone reply)
  | sent reply =>
      rw [hchannel] at hholds
      exact absurd hholds (hnone reply)
  | closed => exact resolvesTo_of_closed hq hphase hchannel

/-- With the table emptied, a request that was not answered resolves as closed. -/
theorem closes_of_emptied (h : Inv codec w) (hemptied : .emptied ∈ w.journal)
    (hq : w.requests[k]? = some q) (hlive : q.Live)
    (hnone : ∀ reply, ¬ Answered w.journal k q.id reply) : ResolvesTo codec maxLine w k .closed := by
  have hknows := h.knows k q hq
  unfold Request.Knows at hknows
  cases hphase : q.phase with
  | begun =>
      have hpending : w.pending = none := by
        have htable := h.table
        cases hp : w.pending with
        | none => rfl
        | some table =>
            rw [hp] at htable
            exact absurd hemptied htable.1
      refine resolvesTo_of_poll (w.insert k q.id) hq ?_ (resolvesTo_of_resolved ?_)
      · unfold World.poll
        rw [hphase]
      · unfold World.insert
        rw [hpending]
        exact List.mem_append_right _ (List.mem_singleton_self _)
  | inserted =>
      by_cases hgone : w.writer = .gone
      · refine resolvesTo_of_poll (w.modify k fun q =>
            { q with phase := .leaving (some .closed) }) hq ?_
          (resolvesTo_of_leaving (getElem?_modify_self hq _) rfl)
        unfold World.poll
        rw [hphase]
        exact if_pos hgone
      · have hp := poll_inserted (k := k) hphase hgone
        exact resolvesTo_of_poll _ hq hp (closes_of_waiting (q := { q with phase := .waiting })
          (h.poll hq hp) hemptied (getElem?_modify_self hq _) rfl hnone)
  | waiting => exact closes_of_waiting h hemptied hq hphase hnone
  | leaving outcome =>
      rw [hphase] at hknows
      cases outcome with
      | none => exact absurd hphase hlive.1
      | some outcome =>
          cases outcome with
          | answered reply => exact absurd (hknows.2.2 _ rfl) (hnone reply)
          | closed => exact resolvesTo_of_leaving hq hphase
  | resolved outcome =>
      rw [hphase] at hknows
      cases outcome with
      | answered reply => exact absurd hknows.2 (hnone reply)
      | closed => exact resolvesTo_of_resolved hknows.1
  | dropped => exact absurd hphase hlive.2

end Polls

section Runs

variable {a : Action}

/-- What a step may do to the requests and the journal: no request goes, and one thing is recorded at
most, a line only by a read. -/
structure Grows (a : Action) (w w' : World) : Prop where
  requests : w.requests.length ≤ w'.requests.length
  journal : w'.journal = w.journal ∨ ∃ e, w'.journal = w.journal ++ [e] ∧
    ∀ text reply, e = .line text reply → a = .read

theorem Grows.quiet (hrequests : w'.requests.length = w.requests.length)
    (hjournal : w'.journal = w.journal) : Grows a w w' := ⟨hrequests.ge, .inl hjournal⟩

theorem Grows.records {e : Event} (hrequests : w'.requests.length = w.requests.length)
    (hjournal : w'.journal = w.journal ++ [e]) (he : ∀ text reply, e ≠ .line text reply) :
    Grows a w w' :=
  ⟨hrequests.ge, .inr ⟨e, hjournal, fun text reply heq => absurd heq (he text reply)⟩⟩

@[simp] theorem length_modify (f : Request → Request) :
    (w.modify k f).requests.length = w.requests.length := List.length_modify ..

@[simp] theorem length_empty : w.empty.requests.length = w.requests.length := List.length_mapIdx

theorem close_grows (request : Option ℕ) :
    (w.close request).requests.length = w.requests.length ∧
      (w.close request).journal = w.journal := by
  cases request with
  | none => exact ⟨rfl, rfl⟩
  | some request => exact ⟨length_modify _, rfl⟩

theorem poll_grows (ha : w.poll k q = some w') : Grows (.poll k) w w' := by
  obtain ⟨hlength, hj⟩ := close_grows (w := w) (w.entry q.id)
  have hmodify : ∀ f, ((w.close (w.entry q.id)).requests.modify k f).length = w.requests.length :=
    fun f => (List.length_modify ..).trans hlength
  unfold World.poll at ha
  split at ha
  · obtain rfl := Option.some.inj ha
    unfold World.insert
    split
    · exact .records (length_modify _) rfl nofun
    · exact .records (hmodify _) (congrArg (· ++ _) hj) nofun
  · split at ha <;>
    · obtain rfl := Option.some.inj ha
      exact .quiet (length_modify _) rfl
  · cases ha
  · obtain rfl := Option.some.inj ha
    exact .quiet (length_modify _) rfl
  · obtain rfl := Option.some.inj ha
    exact .quiet (length_modify _) rfl
  · next outcome _ =>
      obtain rfl := Option.some.inj ha
      unfold World.leave
      cases outcome with
      | some outcome =>
          exact .records (e := .resolved k outcome) (hmodify _) (congrArg (· ++ _) hj) nofun
      | none => exact .records (e := .dropped k) (hmodify _) (congrArg (· ++ _) hj) nofun
  · cases ha
  · cases ha

theorem handle_grows (codec : Codec) (maxLine : ℕ) (buffer : List UInt8) :
    Grows .read w (w.handle codec maxLine buffer) := by
  unfold World.handle
  split
  · exact .records length_empty rfl nofun
  · split
    · exact .records length_empty rfl nofun
    · split
      · exact .quiet rfl rfl
      · dsimp only
        split
        · exact .quiet rfl rfl
        · refine ⟨?_, .inr ⟨_, journal_dispatch _, fun _ _ _ => rfl⟩⟩
          rcases w.dispatch_cases codec _ with ⟨id, k, r, -, -, heq⟩ | ⟨-, heq⟩ <;>
          · rw [heq]
            exact le_refl _

theorem step_grows (ha : w.step codec maxLine a = some w') : Grows a w w' := by
  cases a with
  | begin =>
      obtain rfl := Option.some.inj ha
      exact ⟨by simp, .inl rfl⟩
  | serverEnds =>
      obtain rfl := Option.some.inj ha
      exact .quiet rfl rfl
  | poll k =>
      obtain ⟨q, -, ha⟩ := Option.bind_eq_some_iff.mp ha
      exact poll_grows ha
  | drop k =>
      obtain ⟨q, -, ha⟩ := Option.bind_eq_some_iff.mp ha
      split at ha
      · obtain rfl := Option.some.inj ha
        exact .quiet (length_modify _) rfl
      · cases ha
  | send =>
      simp only [World.step] at ha
      split at ha <;>
      · obtain rfl := Option.some.inj ha
        exact .quiet rfl rfl
  | write =>
      simp only [World.step] at ha
      split at ha
      · obtain rfl := Option.some.inj ha
        exact .quiet rfl rfl
      · cases ha
  | hangUp =>
      obtain ⟨-, heq⟩ := Option.ite_none_right_eq_some.mp ha
      obtain rfl := Option.some.inj heq
      exact .quiet rfl rfl
  | serve =>
      obtain ⟨-, heq⟩ := Option.ite_none_left_eq_some.mp ha
      obtain rfl := Option.some.inj heq
      exact .quiet rfl rfl
  | writeFails | readFails =>
      simp only [World.step] at ha
      split at ha
      · obtain rfl := Option.some.inj ha
        exact .records length_empty rfl (by simp)
      · cases ha
  | complete =>
      simp only [World.step] at ha
      split at ha
      · obtain rfl := Option.some.inj ha
        exact .quiet (length_modify _) rfl
      · cases ha
  | read =>
      simp only [World.step] at ha
      split at ha
      · obtain ⟨buffer, -, rfl⟩ := Option.map_eq_some_iff.mp ha
        obtain ⟨hrequests, hjournal⟩ := handle_grows (w := { w with
          unread := w.unread.drop buffer.length }) codec maxLine buffer
        exact ⟨hrequests, hjournal⟩
      · cases ha

/-- Each line that did not decode failed the request that waited under its id. -/
def Failed (codec : Codec) (j : List Event) : Prop :=
  ∀ before text reply after k id doc, j = before ++ .line text reply :: after →
    Undecodable codec text (.integer id) doc → Outstanding before k id →
    ∃ message, reply = some (.integer id, .error ⟨RpcError.PARSE_ERROR, message, none⟩)

theorem Failed.step (h : Failed codec w.journal) (ha : w.step codec maxLine a = some w')
    (hlegible : Legible codec maxLine w a) : Failed codec w'.journal := by
  rcases (step_grows ha).journal with hsame | ⟨e, hj, hread⟩
  · rw [hsame]
    exact h
  · intro before text reply after k id doc hsplit hundecodable hout
    rw [hj] at hsplit
    rcases Journal.snoc_eq_append_cons.mp hsplit with ⟨rfl, rfl, -⟩ | ⟨rest, -, hsplit⟩
    · obtain rfl := hread text reply rfl
      obtain ⟨-, hnext, rfl, -⟩ := dispatch_of_read ha hj
      exact replyOf_of_undecodable hundecodable
        (hlegible rfl text hnext k id doc hundecodable hout)
    · exact h before text reply rest k id doc hsplit hundecodable hout

theorem correlated_of_inv (h : Inv codec w) (hfailed : Failed codec w.journal) :
    Correlated codec maxLine w where
  ids := by
    intro k k' q q' hq hq' hid
    have hk := h.ids k q hq
    have hk' := h.ids k' q' hq'
    omega
  once := h.once
  own := by
    intro k outcome hresolved
    obtain ⟨q, hq, hphase⟩ := h.resolved k outcome hresolved
    have hknows := h.knows k q hq
    unfold Request.Knows at hknows
    rw [hphase] at hknows
    exact ⟨q, hq, hknows.2⟩
  carries := fun text id reply hline => isReply_of_replyOf (h.lines text (some (id, reply)) hline).symm
  others := fun w' ha text reply hj => others_of_read h ha hj
  undecodable := hfailed
  answers := by
    rintro k q reply hq hanswered (hphase | ⟨hphase, hwriter⟩)
    · exact answers_of_waiting h hq hphase hanswered
    · exact answers_of_inserted h hq hphase hwriter hanswered
  ended := h.ended
  outputEnded := outputEnded_of_reading
  closes := fun hemptied k q hq hlive hnone => closes_of_emptied h hemptied hq hlive hnone
  overlong := overlong_of_reading

/-- In every run of fewer requests than there are ids, in which every line that does not decode and
carries the id of a request that waits can be read as a document, the client keeps what it
promises. -/
theorem requests_correlated {as : List Action}
    (hrun : Runs.Run (fun w a w' => w.step codec maxLine a = some w' ∧ Legible codec maxLine w a)
      World.start as w) (hfew : w.requests.length < 2 ^ 63) : Correlated codec maxLine w := by
  have hinv : w.requests.length < 2 ^ 63 → Inv codec w ∧ Failed codec w.journal := by
    refine hrun.invariant (I := fun w => w.requests.length < 2 ^ 63 →
      Inv codec w ∧ Failed codec w.journal) ?_ ?_
    · rintro v a v' h ⟨ha, hlegible⟩ hfew
      obtain ⟨hinv, hfailed⟩ := h (lt_of_le_of_lt (step_grows ha).requests hfew)
      exact ⟨hinv.step ha hfew, hfailed.step ha hlegible⟩
    · refine fun _ => ⟨Inv.start, ?_⟩
      intro before text reply after k id doc hsplit
      cases before <;> cases hsplit
  obtain ⟨h, hfailed⟩ := hinv hfew
  exact correlated_of_inv h hfailed

end Runs

section Examples

/-- Two responses to the first request, the second with a number out of range. -/
def answered : String := "\x7b\"id\":1,\"result\":true\x7d"

def unreadable : String := "\x7b\"id\":1,\"result\":1e999\x7d"

def documents : Codec where
  parse text :=
    if text = answered then some (.obj [("id", .int 1), ("result", .bool true)])
    else if text = unreadable then some (.obj [("id", .int 1), ("result", .beyond)])
    else none
  typed _ _ := true
  lossy _ := ""
  encode _ := ""
  error _ := "number out of range at line 1 column 22"

/-- One request goes out, and its answer is read. -/
def askThenRead (answer : String) : List Action :=
  [.begin "model/list" none, .poll 0, .poll 0,
    .serve ((answer ++ "\n").toUTF8.data.toList), .read]

def Event.isAsked (k : ℕ) (id : ℤ) : Event → Bool
  | .asked k' id' => k' = k ∧ id' = id
  | _ => false

def Event.isUnreplied (text : String) : Event → Bool
  | .line text' none => text' = text
  | _ => false

def Event.isResolvedTrue (k : ℕ) : Event → Bool
  | .resolved k' (.answered (.ok (.bool true))) => k' = k
  | _ => false

theorem eq_of_isAsked {e : Event} {k : ℕ} {id : ℤ} (h : e.isAsked k id = true) : e = .asked k id := by
  unfold Event.isAsked at h
  split at h
  · obtain ⟨rfl, rfl⟩ := of_decide_eq_true h
    rfl
  · cases h

theorem eq_of_isUnreplied {e : Event} {text : String} (h : e.isUnreplied text = true) :
    e = .line text none := by
  unfold Event.isUnreplied at h
  split at h
  · rw [of_decide_eq_true h]
  · cases h

theorem eq_of_isResolvedTrue {e : Event} {k : ℕ} (h : e.isResolvedTrue k = true) :
    e = .resolved k (.answered (.ok (.bool true))) := by
  unfold Event.isResolvedTrue at h
  split at h
  · rw [of_decide_eq_true h]
  · cases h

/-- A request, and a line that answers no request. -/
def isAskedThenUnreplied : List Event → Bool
  | [first, second] => first.isAsked 0 1 && second.isUnreplied unreadable
  | _ => false

theorem eq_of_isAskedThenUnreplied {j : List Event} (h : isAskedThenUnreplied j = true) :
    j = [.asked 0 1, .line unreadable none] := by
  unfold isAskedThenUnreplied at h
  split at h
  · obtain ⟨hasked, hline⟩ := Bool.and_eq_true_iff.mp h
    rw [eq_of_isAsked hasked, eq_of_isUnreplied hline]
  · cases h

/-- A response with a number out of range answers nothing, and its request waits on. -/
theorem unreadable_response_waits : ∃ as w,
    Runs.Run (Runs.Steps (World.step documents 64)) World.start as w ∧
    w.requests.length < 2 ^ 63 ∧ ¬ Correlated documents 64 w := by
  have h : (Runs.exec (World.step documents 64) World.start (askThenRead unreadable)).any (fun w =>
      w.requests.length == 1 && isAskedThenUnreplied w.journal) = true := by
    decide
  obtain ⟨w, hw, hfacts⟩ := Option.any_eq_true .. |>.mp h
  obtain ⟨hlength, hjournal⟩ := Bool.and_eq_true_iff.mp hfacts
  refine ⟨_, w, Runs.run_of_exec hw, by rw [beq_iff_eq.mp hlength]; decide, fun hcorrelated => ?_⟩
  have hout : Outstanding [.asked 0 1] 0 1 :=
    outstanding_asked (j := []) List.not_mem_nil List.not_mem_nil
      ⟨fun _ => List.not_mem_nil, List.not_mem_nil⟩
  obtain ⟨_, hreply⟩ := hcorrelated.undecodable [.asked 0 1] unreadable none [] 0 1
    (.obj [("id", .int 1), ("result", .beyond)]) (eq_of_isAskedThenUnreplied hjournal)
    ⟨rfl, rfl, ⟨_, rfl, rfl⟩, rfl⟩ hout
  cases hreply

/-- What is read decodes. -/
def isDecoded (w : World) : Action → Bool
  | .read => (w.nextText 64).all fun text => (RpcMessage.decode (documents.parse text)).isSome
  | _ => true

theorem legible_of_isDecoded {w : World} {a : Action} (h : isDecoded w a = true) :
    Legible documents 64 w a := by
  rintro rfl text htext k id doc hundecodable -
  have hsome : (RpcMessage.decode (documents.parse text)).isSome = true := by
    simpa [isDecoded, htext] using h
  rw [hundecodable.document, hundecodable.undecoded] at hsome
  cases hsome

/-- The response that can be read resolves its request. -/
theorem requests_correlated_answered : ∃ w, .resolved 0 (.answered (.ok (.bool true))) ∈ w.journal ∧
    Correlated documents 64 w := by
  have h : (Runs.exec (fun w a => if isDecoded w a then w.step documents 64 a else none) World.start
      (askThenRead answered ++ [.complete, .poll 0, .poll 0])).any (fun w =>
        w.requests.length = 1 ∧ w.journal.any (·.isResolvedTrue 0)) = true := by
    decide
  obtain ⟨w, hw, hfacts⟩ := Option.any_eq_true .. |>.mp h
  obtain ⟨hlength, hjournal⟩ := of_decide_eq_true hfacts
  obtain ⟨e, he, hresolved⟩ := List.any_eq_true.mp hjournal
  have hrun := Runs.run_of_exec_checked (fun _ _ => legible_of_isDecoded) hw
  refine ⟨w, eq_of_isResolvedTrue hresolved ▸ he, requests_correlated hrun ?_⟩
  rw [hlength]
  decide

end Examples

end Bokkie.RpcClient
