import Bokkie.ReplyStream

/-!
# Streamed text is kept

While every write of a flush goes through, a reply's stored text, what a flush has taken of it and
what is pending are together what Codex has said, each delta event goes at the end of what was
stored, and the events of a message fold to its stored text.
-/

namespace Bokkie

namespace ReplyStream

open Runs

variable {w w' : World} {id : ℕ} {m : Message Origin} {key : Key} {r : Reply} {p : Chunk}

/-! ## Folding events -/

theorem folded_append {log : List (ℕ × Event Origin)} {entry : ℕ × Event Origin} :
    folded (log ++ [entry]) id = foldText id (folded log id) entry.2 := by
  rw [folded, List.foldl_append]
  rfl

theorem foldText_of_ne {held : Option (List Char)} {e : Event Origin}
    (h : e.messageId ≠ some id) : foldText id held e = held := by
  cases e with
  | messageCreated m | messageCompleted m =>
      rw [foldText, if_neg]
      exact fun heq => h (congrArg some heq)
  | messageDelta bot message offset delta =>
      rw [foldText, if_neg]
      exact fun heq => h (congrArg some heq)
  | _ => rfl

/-- A delta at the end of the text held is added to it. -/
theorem foldText_delta {bot : ℕ} {text delta : List Char} :
    foldText id (some text) (.messageDelta bot id text.length delta) = some (text ++ delta) := by
  simp [foldText]

/-! ## The invariant -/

/-- What a flush has taken of a message and not yet written. -/
def World.writing (w : World) (id : ℕ) : List Char :=
  match w.router with
  | .idle => []
  | .flushing rest _ => ((rest.find? (·.message = id)).map (·.text)).getD []

/-- The chunks left to write. -/
def World.chunks (w : World) : List Chunk :=
  match w.router with
  | .idle => []
  | .flushing rest _ => rest

/-- The row of a reply that streams. -/
structure RowOf (w : World) (r : Reply) (m : Message Origin) : Prop where
  row : w.table[r.message]? = some m
  state : m.state = .streaming
  user : m.details.user = r.user
  bot : m.botId = r.bot
  turn : m.details.turn = some r.turn
  told : w.told[r.message]? = some (m.text ++ w.writing r.message ++ r.pending)
  written : r.written = (m.text ++ w.writing r.message).length

/-- What the router keeps while its flushes succeed. -/
structure Streaming (w : World) : Prop where
  keys : (w.replies.map (·.1)).Nodup
  messages : (w.replies.map (·.2.message)).Nodup
  live : ∀ kr ∈ w.replies, kr.1.1 = kr.2.user ∧ ∃ m, RowOf w kr.2 m
  chunkMessages : (w.chunks.map (·.message)).Nodup
  chunk : ∀ p ∈ w.chunks, ∃ kr ∈ w.replies, kr.2.message = p.message ∧ kr.2.user = p.user ∧
    kr.2.bot = p.bot ∧ ∃ m, w.table[p.message]? = some m ∧ p.offset = m.text.length
  keyed : w.table.Keyed
  stored : ∀ id : ℕ, w.told[id]? ≠ none → w.table[id]? ≠ none
  folds : ∀ id : ℕ, w.told[id]? ≠ none → folded w.log id = (w.table[id]?).map (·.text)
  offsets : ∀ before after user bot id offset delta,
    w.log = before ++ (user, .messageDelta bot id offset delta) :: after →
      ∃ text, folded before id = some text ∧ offset = text.length

/-- No streamed text is lost or out of order: what is stored, being written and pending of a reply
is what Codex said; each delta's offset is the length of the text before it; and a reply's events
fold to its stored text. -/
structure TextKept (w : World) : Prop where
  kept : ∀ kr ∈ w.replies, ∃ m, w.table[kr.2.message]? = some m ∧
    w.told[kr.2.message]? = some (m.text ++ w.writing kr.2.message ++ kr.2.pending)
  offsets : ∀ before after user bot id offset delta,
    w.log = before ++ (user, .messageDelta bot id offset delta) :: after →
      ∃ text, folded before id = some text ∧ offset = text.length
  folds : ∀ id : ℕ, w.told[id]? ≠ none → folded w.log id = (w.table[id]?).map (·.text)

theorem Streaming.textKept (h : Streaming w) : TextKept w where
  kept kr hkr := by
    obtain ⟨-, m, hm⟩ := h.live kr hkr
    exact ⟨m, hm.row, hm.told⟩
  offsets := h.offsets
  folds := h.folds

theorem writing_idle (h : w.router = .idle) (id : ℕ) : w.writing id = [] := by
  rw [World.writing, h]

theorem not_mem_chunks (h : w.router = .idle) : p ∉ w.chunks := by
  rw [World.chunks, h]
  exact List.not_mem_nil

/-- No text is being written of a message without a chunk. -/
theorem writing_of_not_mem (h : ∀ p ∈ w.chunks, p.message ≠ id) : w.writing id = [] := by
  rw [World.writing]
  rw [World.chunks] at h
  cases hrouter : w.router with
  | idle => rfl
  | flushing rest ending =>
      rw [hrouter] at h
      have hnone : rest.find? (·.message = id) = none :=
        List.find?_eq_none.mpr fun p hp => by simpa using h p hp
      simp [hnone]

/-- Replies of one message are one. -/
theorem Streaming.reply_unique (h : Streaming w) {kr kr' : Key × Reply} (hkr : kr ∈ w.replies)
    (hkr' : kr' ∈ w.replies) (heq : kr.2.message = kr'.2.message) : kr = kr' :=
  List.inj_on_of_nodup_map h.messages hkr hkr' heq

/-- An event that says what was done to a message's row keeps what is folded true. -/
theorem offsets_append {log : List (ℕ × Event Origin)} {entry : ℕ × Event Origin}
    (h : ∀ before after user bot id offset delta,
      log = before ++ (user, .messageDelta bot id offset delta) :: after →
        ∃ text, folded before id = some text ∧ offset = text.length)
    (hentry : ∀ bot id offset delta, entry.2 = .messageDelta bot id offset delta →
      ∃ text, folded log id = some text ∧ offset = text.length) :
    ∀ before after user bot id offset delta,
      log ++ [entry] = before ++ (user, .messageDelta bot id offset delta) :: after →
        ∃ text, folded before id = some text ∧ offset = text.length := by
  intro before after user bot id offset delta heq
  rcases List.eq_nil_or_concat after with rfl | ⟨after', last, rfl⟩
  · obtain ⟨hlog, hlast⟩ := List.append_inj' heq rfl
    rw [← hlog]
    exact hentry bot id offset delta (by rw [(List.cons.inj hlast).1])
  · rw [List.concat_eq_append, ← List.cons_append, ← List.append_assoc] at heq
    obtain ⟨hlog, -⟩ := List.append_inj' heq rfl
    exact h before after' user bot id offset delta hlog

/-! ## Steps -/

/-- Replies may leave. -/
theorem Streaming.filter (h : Streaming w) (hidle : w.router = .idle) (q : Key × Reply → Bool) :
    Streaming { w with replies := w.replies.filter q } where
  keys := h.keys.sublist (List.filter_sublist.map _)
  messages := h.messages.sublist (List.filter_sublist.map _)
  live kr hkr := by
    obtain ⟨howner, m, hm⟩ := h.live kr (List.mem_of_mem_filter hkr)
    exact ⟨howner, m, hm.row, hm.state, hm.user, hm.bot, hm.turn, hm.told, hm.written⟩
  chunkMessages := h.chunkMessages
  chunk p hp := absurd hp (not_mem_chunks hidle)
  keyed := h.keyed
  stored := h.stored
  folds := h.folds
  offsets := h.offsets

theorem finishMessage_spec {t : Table Origin} {now : ℤ} {user : ℕ} {text : Option (List Char)}
    {state : MessageState} {m' : Message Origin}
    (h : finishMessage t now user id text state = some m') :
    ∃ m, t[id]? = some m ∧ m'.id = m.id := by
  rw [finishMessage] at h
  split at h
  · next m hm =>
    split at h
    · obtain rfl := Option.some.inj h
      exact ⟨m, hm, rfl⟩
    · cases h
  · cases h

theorem finishRow_frame (w : World) (now : ℤ) (user id : ℕ) (text : Option (List Char))
    (state : MessageState) :
    (w.finishRow now user id text state).replies = w.replies ∧
      (w.finishRow now user id text state).router = w.router := by
  rw [World.finishRow]
  split <;> exact ⟨rfl, rfl⟩

/-- A row without a reply that streams may end. -/
theorem Streaming.finishRow (h : Streaming w) (hidle : w.router = .idle)
    (hnot : ∀ kr ∈ w.replies, kr.2.message ≠ id) (now : ℤ) (user : ℕ)
    (text : Option (List Char)) (state : MessageState) :
    Streaming (w.finishRow now user id text state) := by
  rw [World.finishRow]
  cases hfinish : finishMessage w.table now user id text state with
  | none => exact h
  | some m' =>
      obtain ⟨m, hm, hid⟩ := finishMessage_spec hfinish
      have hid' : m'.id = id := hid.trans (h.keyed id m hm)
      refine ⟨h.keys, h.messages, ?_, h.chunkMessages, ?_, ?_, ?_, ?_, ?_⟩
      · intro kr hkr
        obtain ⟨howner, row, hrow⟩ := h.live kr hkr
        refine ⟨howner, row, ?_, hrow.state, hrow.user, hrow.bot, hrow.turn, hrow.told,
          hrow.written⟩
        simp only [IdMap.getElem?_insert', if_neg (hnot kr hkr).symm]
        exact hrow.row
      · exact fun p hp => absurd hp (not_mem_chunks hidle)
      · intro i row hrow
        simp only [IdMap.getElem?_insert'] at hrow
        by_cases hi : id = i
        · rw [if_pos hi] at hrow
          rw [← Option.some.inj hrow, hid', hi]
        · rw [if_neg hi] at hrow
          exact h.keyed i row hrow
      · intro i htold
        simp only [IdMap.getElem?_insert']
        by_cases hi : id = i
        · simp [hi]
        · rw [if_neg hi]
          exact h.stored i htold
      · intro i htold
        simp only [IdMap.getElem?_insert', folded_append]
        by_cases hi : id = i
        · rw [if_pos hi, foldText, if_pos (hid'.trans hi)]
          rfl
        · rw [if_neg hi, foldText_of_ne, h.folds i htold]
          exact fun heq => hi (hid'.symm.trans (Option.some.inj heq))
      · exact offsets_append h.offsets fun _ _ _ _ heq => by cases heq

/-- Rows without a reply that streams may end together. -/
theorem Streaming.finishRows (h : Streaming w) (hidle : w.router = .idle) {ids : List ℕ}
    (hnot : ∀ id ∈ ids, ∀ kr ∈ w.replies, kr.2.message ≠ id) (now : ℤ) (user : ℕ)
    (state : MessageState) :
    Streaming (ids.foldl (fun w id => w.finishRow now user id none state) w) := by
  induction ids generalizing w with
  | nil => exact h
  | cons id rest ih =>
      obtain ⟨hreplies, hrouter⟩ := finishRow_frame w now user id none state
      refine ih (h.finishRow hidle (hnot id List.mem_cons_self) now user none state)
        (hrouter.trans hidle) fun other hother => ?_
      rw [hreplies]
      exact hnot other (List.mem_cons_of_mem _ hother)

theorem not_streams (hnot : w.streams key = false) {kr : Key × Reply} (hkr : kr ∈ w.replies) :
    kr.1 ≠ key := by
  intro heq
  have : w.streams key = true := List.any_eq_true.mpr ⟨kr, hkr, by simpa using heq⟩
  rw [hnot] at this
  cases this

/-- A reply begins. -/
theorem Streaming.reply (h : Streaming w) (hidle : w.router = .idle) (hfresh : w.table[id]? = none)
    {user : ℕ} {thread turn item : String} {text : List Char} {bot : Option ℕ} {now : ℤ} {ok : Bool}
    (hreply : w.reply user thread turn item text bot id now ok = some w') :
    Streaming w' ∧ w'.router = .idle := by
  cases bot with
  | none =>
      obtain rfl := Option.some.inj hreply
      exact ⟨h, hidle⟩
  | some bot =>
  rw [World.reply] at hreply
  by_cases hstreams : w.streams (user, thread, item) = true
  · rw [if_pos hstreams] at hreply
    obtain rfl := Option.some.inj hreply
    exact ⟨h, hidle⟩
  rw [if_neg hstreams] at hreply
  split at hreply
  case isFalse => cases hreply
  obtain rfl := Option.some.inj hreply
  refine ⟨?_, hidle⟩
  have hne : ∀ kr ∈ w.replies, kr.2.message ≠ id := by
    intro kr hkr heq
    obtain ⟨-, m, hm⟩ := h.live kr hkr
    have := hm.row
    rw [heq, hfresh] at this
    cases this
  have hnone : w.told[id]? = none := by
    by_contra htold
    exact h.stored id htold hfresh
  constructor
  case keys =>
    rw [List.map_append]
    refine h.keys.append (List.nodup_singleton _) ?_
    intro k hk hnew
    obtain ⟨kr, hkr, rfl⟩ := List.mem_map.mp hk
    exact not_streams (by simpa using hstreams) hkr (List.mem_singleton.mp hnew)
  case messages =>
    rw [List.map_append]
    refine h.messages.append (List.nodup_singleton _) ?_
    intro i hi hnew
    obtain ⟨kr, hkr, rfl⟩ := List.mem_map.mp hi
    exact hne kr hkr (List.mem_singleton.mp hnew)
  case live =>
    intro kr hkr
    rcases List.mem_append.mp hkr with hold | hnew
    · obtain ⟨howner, m, hm⟩ := h.live kr hold
      refine ⟨howner, m, ?_, hm.state, hm.user, hm.bot, hm.turn, ?_, hm.written⟩
      · simp only [IdMap.getElem?_insert', if_neg (hne kr hold).symm]
        exact hm.row
      · simp only [IdMap.getElem?_insert', if_neg (hne kr hold).symm]
        exact hm.told
    · obtain rfl := List.mem_singleton.mp hnew
      refine ⟨rfl, ⟨id, bot, .bot, text, .streaming, now, now, ⟨user, some turn⟩⟩, ?_, rfl, rfl, rfl,
        rfl, ?_, ?_⟩
      · simp
      · simp [World.writing, hidle]
      · simp [World.writing, hidle]
  case chunkMessages => exact h.chunkMessages
  case chunk => exact fun p hp => absurd hp (not_mem_chunks hidle)
  case keyed =>
    intro i row hrow
    simp only [IdMap.getElem?_insert'] at hrow
    by_cases hi : id = i
    · rw [if_pos hi] at hrow
      rw [← Option.some.inj hrow, hi]
    · rw [if_neg hi] at hrow
      exact h.keyed i row hrow
  case stored =>
    intro i htold
    simp only [IdMap.getElem?_insert'] at htold ⊢
    by_cases hi : id = i
    · simp [hi]
    · rw [if_neg hi] at htold ⊢
      exact h.stored i htold
  case folds =>
    intro i htold
    simp only [IdMap.getElem?_insert', folded_append] at htold ⊢
    by_cases hi : id = i
    · rw [if_pos hi, foldText, if_pos hi]
      rfl
    · rw [if_neg hi] at htold ⊢
      rw [foldText_of_ne, h.folds i htold]
      exact fun heq => hi (Option.some.inj heq)
  case offsets => exact offsets_append h.offsets fun _ _ _ _ heq => by cases heq

/-- The entries of a list of replies under one message or key after one of them is edited. -/
theorem map_edit {l : List (Key × Reply)} (f : Reply → Reply) (key : Key)
    (hf : ∀ r, (f r).message = r.message) :
    (l.map fun (k, r) => if k = key then (k, f r) else (k, r)).map (·.1) = l.map (·.1) ∧
      (l.map fun (k, r) => if k = key then (k, f r) else (k, r)).map (·.2.message) =
        l.map (·.2.message) := by
  rw [List.map_map, List.map_map]
  refine ⟨List.map_congr_left fun kr _ => ?_, List.map_congr_left fun kr _ => ?_⟩
  · by_cases hk : kr.1 = key <;> simp [hk]
  · by_cases hk : kr.1 = key <;> simp [hk, hf]

/-- A delta joins the pending text of its reply. -/
theorem Streaming.push (h : Streaming w) (hidle : w.router = .idle) (key : Key)
    (delta : List Char) : Streaming (w.push key delta) := by
  rw [World.push]
  cases hfind : w.replies.find? (·.1 = key) with
  | none => exact h
  | some found =>
  obtain ⟨k, r⟩ := found
  have hr : (k, r) ∈ w.replies := List.mem_of_find?_eq_some hfind
  have hk : k = key := by simpa using List.find?_some hfind
  subst hk
  obtain ⟨-, m, hm⟩ := h.live _ hr
  have hedit := map_edit (l := w.replies) (fun r => { r with pending := r.pending ++ delta }) k
    fun _ => rfl
  have htold : ∀ i : ℕ, (w.told.insert r.message ((w.told[r.message]?).getD [] ++ delta))[i]? ≠
      none → w.told[i]? ≠ none := by
    intro i hi
    rw [IdMap.getElem?_insert'] at hi
    by_cases hsame : r.message = i
    · rw [← hsame, hm.told]
      exact Option.some_ne_none _
    · rwa [if_neg hsame] at hi
  constructor
  case keys => rw [hedit.1]; exact h.keys
  case messages => rw [hedit.2]; exact h.messages
  case live =>
    intro kr hkr
    obtain ⟨old, hold, rfl⟩ := List.mem_map.mp hkr
    obtain ⟨howner, row, hrow⟩ := h.live old hold
    by_cases hkey : old.1 = k
    · have hsame : old = (k, r) := List.inj_on_of_nodup_map h.keys hold hr hkey
      subst hsame
      simp only [if_pos]
      refine ⟨howner, row, hrow.row, hrow.state, hrow.user, hrow.bot, hrow.turn, ?_, hrow.written⟩
      have := hrow.told
      simp only [IdMap.getElem?_insert', if_pos, this, Option.getD_some, List.append_assoc]
      rfl
    · simp only [if_neg hkey]
      refine ⟨howner, row, hrow.row, hrow.state, hrow.user, hrow.bot, hrow.turn, ?_, hrow.written⟩
      have hne : r.message ≠ old.2.message := by
        intro heq
        exact hkey (by rw [← h.reply_unique hr hold heq])
      simp only [IdMap.getElem?_insert', if_neg hne]
      exact hrow.told
  case chunkMessages => exact h.chunkMessages
  case chunk => exact fun p hp => absurd hp (not_mem_chunks hidle)
  case keyed => exact h.keyed
  case stored => exact fun i hi => h.stored i (htold i hi)
  case folds => exact fun i hi => h.folds i (htold i hi)
  case offsets => exact h.offsets

/-- The chunk of a message that is to be written, in any order. -/
theorem find?_chunk {l : List Chunk} (hnodup : (l.map (·.message)).Nodup) (hp : p ∈ l) :
    l.find? (·.message = p.message) = some p := by
  obtain ⟨q, hq⟩ := Option.isSome_iff_exists.mp
    (List.find?_isSome (p := fun q => decide (q.message = p.message)).mpr ⟨p, hp, by simp⟩)
  have hmessage : q.message = p.message := by simpa using List.find?_some hq
  rw [hq, List.inj_on_of_nodup_map hnodup (List.mem_of_find?_eq_some hq) hp hmessage]

theorem mem_takePending {replies : List (Key × Reply)} :
    p ∈ takePending replies ↔ ∃ kr ∈ replies, kr.2.pending ≠ [] ∧
      p = ⟨kr.2.user, kr.2.bot, kr.2.message, kr.2.written, kr.2.pending⟩ := by
  rw [takePending, List.mem_filterMap]
  refine exists_congr fun kr => and_congr_right fun _ => ?_
  by_cases hpending : kr.2.pending = []
  · simp [hpending]
  · simp [hpending, eq_comm]

theorem takePending_nodup {replies : List (Key × Reply)}
    (h : (replies.map (·.2.message)).Nodup) :
    ((takePending replies).map (·.message)).Nodup := by
  refine h.sublist ?_
  induction replies with
  | nil => exact List.Sublist.refl _
  | cons kr rest ih =>
      have hrest := ih (List.nodup_cons.mp h).2
      rw [takePending, List.filterMap_cons]
      by_cases hpending : kr.2.pending = []
      · simp only [hpending, if_pos]
        exact hrest.cons _
      · simp only [if_neg hpending, List.map_cons]
        exact hrest.cons_cons _

/-- A flush takes what is pending. -/
theorem Streaming.flush (h : Streaming w) (hidle : w.router = .idle) {order : List Chunk}
    (horder : order.Perm (takePending w.replies)) (ending : Option Ending) :
    Streaming (w.beginFlush order ending) := by
  have hnodup : (order.map (·.message)).Nodup :=
    (horder.map _).nodup_iff.mpr (takePending_nodup h.messages)
  have hwriting : ∀ kr ∈ w.replies,
      (w.beginFlush order ending).writing kr.2.message = kr.2.pending := by
    intro kr hkr
    rw [World.writing, World.beginFlush]
    by_cases hpending : kr.2.pending = []
    · have hnone : order.find? (·.message = kr.2.message) = none := by
        refine List.find?_eq_none.mpr fun p hp => ?_
        obtain ⟨other, hother, hne, rfl⟩ := mem_takePending.mp (horder.mem_iff.mp hp)
        simp only [decide_eq_true_eq]
        intro heq
        exact hne (by rw [h.reply_unique hother hkr heq]; exact hpending)
      simp [hnone, hpending]
    · have hin := horder.mem_iff.mpr (mem_takePending.mpr ⟨kr, hkr, hpending, rfl⟩)
      simp [find?_chunk hnodup hin]
  constructor
  case keys =>
    rw [World.beginFlush, List.map_map]
    exact h.keys
  case messages =>
    rw [World.beginFlush, List.map_map]
    exact h.messages
  case live =>
    intro kr hkr
    obtain ⟨⟨k, r⟩, hold, rfl⟩ := List.mem_map.mp hkr
    obtain ⟨howner, m, hm⟩ := h.live (k, r) hold
    have htold := hm.told
    have hwritten := hm.written
    rw [writing_idle hidle, List.append_nil] at htold hwritten
    have hnow : (w.beginFlush order ending).writing r.taken.message = r.pending :=
      hwriting (k, r) hold
    refine ⟨howner, m, hm.row, hm.state, hm.user, hm.bot, hm.turn, ?_, ?_⟩
    · simp only [hnow]
      exact htold.trans (by simp [Reply.taken])
    · simp only [hnow]
      simpa [Reply.taken] using hwritten
  case chunkMessages => exact hnodup
  case chunk =>
    intro p hp
    obtain ⟨kr, hkr, -, rfl⟩ := mem_takePending.mp (horder.mem_iff.mp hp)
    obtain ⟨-, m, hm⟩ := h.live kr hkr
    have hwritten := hm.written
    rw [writing_idle hidle, List.append_nil] at hwritten
    exact ⟨_, List.mem_map_of_mem hkr, rfl, rfl, rfl, m, hm.row, hwritten⟩
  case keyed => exact h.keyed
  case stored => exact h.stored
  case folds => exact h.folds
  case offsets => exact h.offsets

/-- One chunk is written, at the end of its row's text. -/
theorem Streaming.write (h : Streaming w) {rest : List Chunk} {ending : Option Ending}
    (hrouter : w.router = .flushing (p :: rest) ending) (now : ℤ) :
    Streaming { w.writeChunk now p with router := .flushing rest ending } := by
  have hchunks : w.chunks = p :: rest := by rw [World.chunks, hrouter]
  have hnodup := h.chunkMessages
  rw [hchunks] at hnodup
  have hnew : ∀ q ∈ rest, q.message ≠ p.message := fun q hq heq =>
    (List.nodup_cons.mp hnodup).1 (List.mem_map.mpr ⟨q, hq, heq⟩)
  obtain ⟨kr, hkr, hmessage, huser, hbot, m₀, hm₀, hoffset⟩ :=
    h.chunk p (by rw [hchunks]; exact List.mem_cons_self)
  obtain ⟨-, m, hm⟩ := h.live kr hkr
  have hrow : w.table[p.message]? = some m := by rw [← hmessage]; exact hm.row
  obtain rfl : m₀ = m := Option.some.inj (hm₀.symm.trans hrow)
  have htable : appendText w.table now p.user p.message p.text =
      w.table.appendText now p.message p.text := by
    simp only [appendText, hrow, hm.user, huser, if_pos]
  have hself : (w.table.appendText now p.message p.text)[p.message]? =
      some { m₀ with text := m₀.text ++ p.text, updatedAt := now } :=
    Table.appendText_self hrow hm.state
  have hother : ∀ i, p.message ≠ i →
      (w.table.appendText now p.message p.text)[i]? = w.table[i]? :=
    fun i hi => Table.appendText_of_ne hi
  have hwriting : w.writing p.message = p.text := by simp [World.writing, hrouter]
  have htold : w.told[p.message]? ≠ none := by
    rw [← hmessage, hm.told]
    exact Option.some_ne_none _
  have hfolded : folded w.log p.message = some m₀.text := by rw [h.folds _ htold, hrow]; rfl
  have hstored : ∀ i : ℕ, w.table[i]? ≠ none →
      (w.table.appendText now p.message p.text)[i]? ≠ none := by
    intro i hi
    by_cases hsame : p.message = i
    · rw [← hsame, hself]
      exact Option.some_ne_none _
    · rwa [hother i hsame]
  rw [World.writeChunk, htable]
  constructor
  case keys => exact h.keys
  case messages => exact h.messages
  case live =>
    intro other hin
    obtain ⟨howner, row, hold⟩ := h.live other hin
    by_cases hsame : p.message = other.2.message
    · obtain rfl : other = kr := h.reply_unique hin hkr (hsame.symm.trans hmessage.symm)
      obtain rfl : row = m₀ := Option.some.inj (hold.row.symm.trans hm.row)
      have hdone : World.writing { w with
          table := w.table.appendText now p.message p.text
          log := w.log ++ [(p.user, .messageDelta p.bot p.message p.offset p.text)]
          router := .flushing rest ending } other.2.message = [] :=
        writing_of_not_mem fun q hq => by rw [← hsame]; exact hnew q hq
      have htext := hold.told
      have hlength := hold.written
      rw [← hsame, hwriting] at htext hlength
      refine ⟨howner, { row with text := row.text ++ p.text, updatedAt := now },
        by rw [← hsame]; exact hself, hold.state, hold.user, hold.bot, hold.turn, ?_, ?_⟩
      · rw [hdone, List.append_nil, ← hsame]
        exact htext
      · rw [hdone, List.append_nil]
        exact hlength
    · have hkeep : World.writing { w with
          table := w.table.appendText now p.message p.text
          log := w.log ++ [(p.user, .messageDelta p.bot p.message p.offset p.text)]
          router := .flushing rest ending } other.2.message = w.writing other.2.message := by
        simp [World.writing, hrouter, hsame]
      refine ⟨howner, row, (hother _ hsame).trans hold.row, hold.state, hold.user, hold.bot,
        hold.turn, ?_, ?_⟩
      · rw [hkeep]
        exact hold.told
      · rw [hkeep]
        exact hold.written
  case chunkMessages => exact (List.nodup_cons.mp hnodup).2
  case chunk =>
    intro q hq
    obtain ⟨kr', hkr', hmessage', huser', hbot', row, hrow', hoffset'⟩ :=
      h.chunk q (by rw [hchunks]; exact List.mem_cons_of_mem _ hq)
    exact ⟨kr', hkr', hmessage', huser', hbot', row,
      (hother _ (hnew q hq).symm).trans hrow', hoffset'⟩
  case keyed =>
    intro i row hi
    by_cases hsame : p.message = i
    · rw [← hsame] at hi
      obtain rfl := Option.some.inj (hself.symm.trans hi)
      rw [← hsame]
      exact h.keyed _ m₀ hrow
    · exact h.keyed i row ((hother i hsame).symm.trans hi)
  case stored => exact fun i hi => hstored i (h.stored i hi)
  case folds =>
    intro i hi
    rw [folded_append]
    by_cases hsame : p.message = i
    · rw [← hsame, hfolded, hoffset, foldText_delta]
      exact (congrArg (Option.map (·.text)) hself).symm
    · have hne : Event.messageId (.messageDelta (δ := Origin) p.bot p.message p.offset p.text) ≠
          some i := fun heq => hsame (Option.some.inj heq)
      rw [foldText_of_ne hne, h.folds i hi]
      exact congrArg (Option.map (·.text)) (hother i hsame).symm
  case offsets =>
    refine offsets_append h.offsets fun bot id offset delta heq => ?_
    cases heq
    exact ⟨m₀.text, hfolded, hoffset⟩

/-- A flush is done. -/
theorem Streaming.idle (h : Streaming w) {ending : Option Ending}
    (hrouter : w.router = .flushing [] ending) : Streaming { w with router := .idle } where
  keys := h.keys
  messages := h.messages
  live kr hkr := by
    obtain ⟨howner, m, hm⟩ := h.live kr hkr
    have hnone : w.writing kr.2.message = [] := by simp [World.writing, hrouter]
    refine ⟨howner, m, hm.row, hm.state, hm.user, hm.bot, hm.turn, ?_, ?_⟩
    · have := hm.told
      rwa [hnone] at this
    · have := hm.written
      rwa [hnone] at this
  chunkMessages := List.nodup_nil
  chunk p hp := absurd hp List.not_mem_nil
  keyed := h.keyed
  stored := h.stored
  folds := h.folds
  offsets := h.offsets

/-- The rows an end finds streaming have no reply that is not of that end. -/
theorem Streaming.not_ended (h : Streaming w) {e : Ending} (hid : id ∈ streamingMessages w.table e)
    {kr : Key × Reply} (hkr : kr ∈ w.replies.filter fun kr => !World.ends e kr) :
    kr.2.message ≠ id := by
  intro heq
  obtain ⟨hin, hnot⟩ := List.mem_filter.mp hkr
  obtain ⟨howner, m, hm⟩ := h.live kr hin
  obtain ⟨row, hrow, hrowId⟩ := List.mem_map.mp hid
  obtain ⟨hmem, hof⟩ := List.mem_filter.mp hrow
  obtain ⟨i, hi⟩ := IdMap.mem_records.mp hmem
  have hsame : row = m := by
    have hkey := h.keyed i row hi
    rw [← hkey, hrowId, ← heq, hm.row] at hi
    exact (Option.some.inj hi).symm
  subst hsame
  have hends : World.ends e kr = true := by
    simp only [hm.user, hm.bot, hm.turn, Option.some.injEq, Bool.and_eq_true, decide_eq_true_eq]
      at hof
    simp only [World.ends, howner, Bool.and_eq_true, decide_eq_true_eq]
    refine ⟨⟨hof.1.1.1, hof.1.2⟩, ?_⟩
    cases hturn : e.turn with
    | none => rfl
    | some turn =>
        simp only [hturn, Option.all_some, decide_eq_true_eq] at hof ⊢
        exact hof.2.symm
  rw [hends] at hnot
  cases hnot

/-! ## Runs -/

/-- Every write of a flush goes through. -/
def Quiet : Action → Prop
  | .write _ ok => ok = true
  | _ => True

theorem Streaming.step (h : Streaming w) {a : Action} (hquiet : Quiet a)
    (hstep : w.step a = some w') : Streaming w' := by
  cases a with
  | itemStarted user thread turn item text bot id now ok =>
      obtain ⟨⟨hidle, hfresh⟩, hstep⟩ := Option.ite_none_right_eq_some.mp hstep
      obtain rfl := Option.some.inj hstep
      cases hreply : w.reply user thread turn item text bot id now ok with
      | none => exact h
      | some w₁ => exact (h.reply hidle hfresh hreply).1
  | delta user thread turn item text bot id now ok =>
      obtain ⟨⟨hidle, hfresh⟩, hstep⟩ := Option.ite_none_right_eq_some.mp hstep
      obtain rfl := Option.some.inj hstep
      by_cases hstreams : w.streams (user, thread, item) = true
      · simp only [if_pos hstreams]
        exact h.push hidle _ text
      · simp only [if_neg hstreams]
        cases hreply : w.reply user thread turn item [] bot id now ok with
        | none => exact h
        | some w₁ =>
            obtain ⟨hbegun, hidle'⟩ := h.reply hidle hfresh hreply
            exact hbegun.push hidle' _ text
  | itemCompleted user thread item text now ok =>
      obtain ⟨hidle, hstep⟩ := Option.ite_none_right_eq_some.mp hstep
      cases hfind : w.replies.find? (·.1 = (user, thread, item)) with
      | none =>
          simp only [hfind] at hstep
          obtain rfl := Option.some.inj hstep
          exact h
      | some found =>
          obtain ⟨k, r⟩ := found
          simp only [hfind] at hstep
          obtain rfl := Option.some.inj hstep
          have hleft := h.filter hidle (·.1 ≠ (user, thread, item))
          split
          · refine hleft.finishRow hidle (fun kr hkr heq => ?_) now user _ _
            obtain ⟨hin, hne⟩ := List.mem_filter.mp hkr
            have hsame := h.reply_unique hin (List.mem_of_find?_eq_some hfind) heq
            have hkey : k = (user, thread, item) := by simpa using List.find?_some hfind
            rw [hsame] at hne
            simp [hkey] at hne
          · exact hleft
  | flush order ending =>
      obtain ⟨⟨hidle, horder⟩, hstep⟩ := Option.ite_none_right_eq_some.mp hstep
      obtain rfl := Option.some.inj hstep
      exact h.flush hidle horder ending
  | write now ok =>
      rw [World.step] at hstep
      split at hstep
      · next p rest ending hrouter =>
        rw [show ok = true from hquiet, if_pos rfl] at hstep
        obtain rfl := Option.some.inj hstep
        exact h.write hrouter now
      · cases hstep
  | flushed now ok =>
      rw [World.step] at hstep
      split at hstep
      · next hrouter =>
        obtain rfl := Option.some.inj hstep
        exact h.idle hrouter
      · next e hrouter =>
        obtain rfl := Option.some.inj hstep
        have hidle := h.idle hrouter
        have hleft := hidle.filter rfl fun kr => !World.ends e kr
        split
        · exact hleft.finishRows rfl (fun id hid kr hkr => hidle.not_ended hid hkr) now _ _
        · exact hleft
      · cases hstep

/-- The router as it starts: the table as it finds it, and no reply that streams. -/
def World.start (table : Table Origin) : World := ⟨table, [], [], .idle, ∅⟩

theorem streaming_start {table : Table Origin} (hkeyed : table.Keyed) :
    Streaming (World.start table) where
  keys := List.nodup_nil
  messages := List.nodup_nil
  live kr hkr := absurd hkr List.not_mem_nil
  chunkMessages := List.nodup_nil
  chunk p hp := absurd hp List.not_mem_nil
  keyed := hkeyed
  stored id h := by simp [World.start] at h
  folds id h := by simp [World.start] at h
  offsets before after user bot id offset delta h := by simp [World.start] at h

/-- While every write of a flush goes through, no streamed text is lost or out of order, in every
state that the router reaches. -/
theorem streamed_text_kept {table : Table Origin} (hkeyed : table.Keyed) {as : List Action}
    (hrun : Run (Steps World.step) (World.start table) as w) (hquiet : ∀ a ∈ as, Quiet a) :
    TextKept w := by
  refine (hrun.invariant_of_forall (I := Streaming) (P := Quiet) ?_ hquiet
    (streaming_start hkeyed)).textKept
  intro v a v' ha h hstep
  exact h.step ha hstep

/-- A reply that says "ab", which a flush takes, and the write of it. -/
def oneReply (ok : Bool) : List Action :=
  [.itemStarted 1 "thread" "turn" "item" [] (some 1) 1 0 true,
    .delta 1 "thread" "turn" "item" ['a', 'b'] (some 1) 2 0 true,
    .flush [⟨1, 1, 1, 0, ['a', 'b']⟩] none, .write 0 ok]

theorem streamed_text_kept_of_oneReply :
    ∃ w, exec World.step (World.start ∅) (oneReply true) = some w ∧ TextKept w := by
  obtain ⟨w, hw⟩ : ∃ w, exec World.step (World.start ∅) (oneReply true) = some w :=
    Option.isSome_iff_exists.mp (by decide)
  refine ⟨w, hw, streamed_text_kept (fun i m h => ?_) (run_of_exec hw) ?_⟩
  · simp at h
  · simp [oneReply, Quiet]

/-- A write that fails loses what a flush took: neither stored nor pending. -/
theorem failed_write_loses_text :
    ∃ w, exec World.step (World.start ∅) (oneReply false) = some w ∧ ¬ TextKept w := by
  obtain ⟨w, hw⟩ : ∃ w, exec World.step (World.start ∅) (oneReply false) = some w :=
    Option.isSome_iff_exists.mp (by decide)
  have hreplies : (exec World.step (World.start ∅) (oneReply false)).map (·.replies) =
      some [((1, "thread", "item"), ⟨1, 1, "turn", 1, [], 2⟩)] := by decide
  have hrouter : (exec World.step (World.start ∅) (oneReply false)).map (·.router) =
      some .idle := by decide
  have hstored : (exec World.step (World.start ∅) (oneReply false)).map
      (fun w => (w.table[1]?).map (·.text)) = some (some []) := by decide
  have htold : (exec World.step (World.start ∅) (oneReply false)).map (fun w => w.told[1]?) =
      some (some ['a', 'b']) := by decide
  simp only [hw, Option.map_some, Option.some.injEq] at hreplies hrouter hstored htold
  refine ⟨w, hw, fun hkept => ?_⟩
  obtain ⟨m, hm, hsaid⟩ := hkept.kept _ (by rw [hreplies]; exact List.mem_singleton_self _)
  simp only at hm hsaid
  rw [hm, Option.map_some, Option.some.injEq] at hstored
  rw [htold, hstored, writing_idle hrouter] at hsaid
  cases hsaid

end ReplyStream

end Bokkie
