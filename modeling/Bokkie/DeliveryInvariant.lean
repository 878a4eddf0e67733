import Bokkie.Delivery

/-!
# What the connection passes on

Every frame on its way is the log's: its event is committed, its number no higher than the count.
The connection's own checks then make what it passes on a stretch of the log.
-/

namespace Bokkie

namespace Delivery

open EventLog Connection EventSocket Runs

variable {ε β : Type}

/-- Every number and event in a frame is one of the log's. -/
def FrameOk (log : UserLog ε) : ServerFrame ε → Prop
  | .event e => e ∈ log.committed
  | .reset n | .live n => n ≤ log.count
  | .pong => True

def PhaseOk (log : UserLog ε) : Phase → Prop
  | .checking _ latest | .replaying _ latest => latest ≤ log.count
  | _ => True

structure ServerOk (log : UserLog ε) (sv : Server ε) : Prop where
  phase : PhaseOk log sv.phase
  outbox : ∀ f ∈ sv.outbox, FrameOk log f
  queue : ∀ q, sv.queue = some q → ∀ e ∈ q, e ∈ log.committed

structure SocketOk (log : UserLog ε) (k : Socket ε β) : Prop where
  server : ServerOk log k.server
  toClient : ∀ f ∈ k.toClient, FrameOk log f

/-- What has been passed on is the stretch of the log after the position, up to `last`. -/
structure ProgressOk (log : UserLog ε) (c : Connection β) (p : Progress ε) : Prop where
  synced : c.synced = p.position.isSome
  last : ∀ pos, p.position = some pos → c.last = some (pos + p.passed.length)
  bounded : ∀ pos, p.position = some pos → pos + p.passed.length ≤ log.count
  passed : ∀ pos, p.position = some pos →
    p.passed = (log.committed.drop pos).take p.passed.length

structure Inv (limits : Limits) (w : World ε β) : Prop where
  log : EventLog.Inv limits w.log
  sockets : ∀ k ∈ w.sockets, SocketOk w.log k
  progress : ProgressOk w.log w.client w.progress

variable {limits : Limits} {log log' : UserLog ε}

theorem committed_prefix {a : EventLog.Action ε} (h : EventLog.step limits log a = some log') :
    log.committed <+: log'.committed := by
  rcases (move_of_step h).accounts with ⟨hc, -⟩ | ⟨-, hc, -⟩ | ⟨-, hc, -⟩ | ⟨-, -, -, b, -, hc, -⟩
  all_goals simp [hc]

theorem FrameOk.mono (h : log.committed <+: log'.committed) {f : ServerFrame ε}
    (hf : FrameOk log f) : FrameOk log' f := by
  cases f with
  | event e => exact h.subset hf
  | reset n | live n => exact le_trans hf h.length_le
  | pong => trivial

theorem PhaseOk.mono (h : log.committed <+: log'.committed) {p : Phase} (hp : PhaseOk log p) :
    PhaseOk log' p := by
  cases p <;> first | trivial | exact le_trans hp h.length_le

theorem ServerOk.mono (h : log.committed <+: log'.committed) {sv : Server ε}
    (hsv : ServerOk log sv) : ServerOk log' sv where
  phase := hsv.phase.mono h
  outbox f hf := (hsv.outbox f hf).mono h
  queue q hq e he := h.subset (hsv.queue q hq e he)

theorem SocketOk.mono (h : log.committed <+: log'.committed) {k : Socket ε β}
    (hk : SocketOk log k) : SocketOk log' k where
  server := hk.server.mono h
  toClient f hf := (hk.toClient f hf).mono h

theorem ProgressOk.mono (h : log.committed <+: log'.committed) {c : Connection β}
    {p : Progress ε} (hp : ProgressOk log c p) : ProgressOk log' c p where
  synced := hp.synced
  last := hp.last
  bounded pos hpos := le_trans (hp.bounded pos hpos) h.length_le
  passed pos hpos := by
    obtain ⟨later, hlater⟩ := h
    have hlen := hp.bounded pos hpos
    have hlen' : p.passed.length ≤ (log.committed.drop pos).length := by
      rw [List.length_drop]
      exact Nat.le_sub_of_add_le' hlen
    rw [← hlater, List.drop_append_of_le_length (le_trans (Nat.le_add_right _ _) hlen),
      List.take_append_of_le_length hlen']
    exact hp.passed pos hpos

theorem note_quiet {input : Input ε β} {ks : List (Command ε β)} (hks : ∀ k ∈ ks, k.quiet)
    (p : Progress ε) : p.note input ks = p := by
  induction ks with
  | nil => rfl
  | cons k ks ih =>
      have hk : Progress.noteCommand input p k = p := by
        have hquiet := hks k (by simp)
        cases k <;> first | rfl | cases hquiet
      rw [Progress.note, List.foldl_cons, hk]
      exact ih fun k' hk' => hks k' (List.mem_cons_of_mem _ hk')

/-- Passing on the next event of the log lengthens the stretch by one. -/
theorem stretch_snoc (hlog : EventLog.Inv limits log) {pos : ℕ} {passed : List (EventEnvelope ε)}
    (hpassed : passed = (log.committed.drop pos).take passed.length) {e : EventEnvelope ε}
    (he : e ∈ log.committed) (hseq : e.seq = pos + passed.length + 1) :
    pos + (passed ++ [e]).length ≤ log.count ∧
      passed ++ [e] = (log.committed.drop pos).take (passed ++ [e]).length := by
  obtain ⟨i, hi, rfl⟩ := List.mem_iff_getElem.mp he
  have hnum := hlog.numbered.getElem hi
  obtain rfl : i = pos + passed.length := by omega
  have hlt : passed.length < (log.committed.drop pos).length := by
    rw [List.length_drop]
    omega
  constructor
  · rw [List.length_append, List.length_singleton, UserLog.count]
    omega
  · rw [List.length_append, List.length_singleton, ← List.take_append_getElem hlt, ← hpassed,
      List.getElem_drop]

theorem progressOk_handle [DecidableEq β] (hlog : EventLog.Inv limits log) {c : Connection β}
    {p : Progress ε} (hp : ProgressOk log c p) {input : Input ε β}
    (hinput : ∀ f, input = .frame f → FrameOk log f) :
    ProgressOk log (c.handle input).1 (p.note input (c.handle input).2) := by
  cases effect_handle (c := c) input with
  | quiet h =>
      rw [note_quiet h.commands]
      exact { hp with synced := h.synced.trans hp.synced, last := h.last ▸ hp.last }
  | @apply e hi hcommands hnext hlast hsynced =>
      have he : e ∈ log.committed := hinput _ hi
      have hseq : ∀ pos, p.position = some pos → e.seq = pos + p.passed.length + 1 :=
        fun pos hpos => hnext _ (hp.last pos hpos)
      rw [hcommands]
      refine ⟨hsynced.trans hp.synced, fun pos hpos => ?_, fun pos hpos => ?_, fun pos hpos => ?_⟩
      · rw [hlast, hseq pos hpos]
        simp [Progress.note, Progress.noteCommand, Nat.add_assoc]
      · exact (stretch_snoc hlog (hp.passed pos hpos) he (hseq pos hpos)).1
      · exact (stretch_snoc hlog (hp.passed pos hpos) he (hseq pos hpos)).2
  | @reload n rest hi hcommands hrest hlast hsynced =>
      have hn : n ≤ log.count := by rcases hi with h | h <;> exact hinput _ h
      have hnote : p.note input (.reload :: rest) = ⟨some n, []⟩ := by
        change (Progress.mk (p.named input) []).note input rest = _
        rw [note_quiet hrest]
        rcases hi with rfl | rfl <;> rfl
      rw [hcommands, hnote]
      refine ⟨hsynced, ?_, ?_, ?_⟩
      · rintro pos ⟨⟩
        simpa using hlast
      · rintro pos ⟨⟩
        simpa using hn
      · simp
  | @live n hi hc hnext hlast hsynced hcommands =>
      rw [note_quiet hcommands]
      refine { hp with synced := ?_, last := fun pos hpos => ?_ }
      · rw [hsynced, ← hp.synced, hc]
      · rw [hlast, ← hnext _ (hp.last pos hpos)]

namespace ServerOk

variable {sv : Server ε}

theorem new : ServerOk log (Server.new : Server ε) :=
  ⟨trivial, by simp [Server.new], by simp [Server.new]⟩

theorem close (sv : Server ε) : ServerOk log sv.close :=
  ⟨trivial, by simp [Server.close], by simp [Server.close]⟩

/-- A phase that remembers no number of the log. -/
theorem setPhase (h : ServerOk log sv) {phase : Phase} (hphase : PhaseOk log phase) :
    ServerOk log { sv with phase := phase } :=
  { h with phase := hphase }

theorem receiveFirst (h : ServerOk log sv) (f : ClientFrame β) :
    ServerOk log (sv.receiveFirst f) := by
  cases f with
  | resume after => exact h.setPhase trivial
  | ping | viewing => exact close sv

theorem receiveLive (h : ServerOk log sv) (f : ClientFrame β) : ServerOk log (sv.receiveLive f) := by
  cases f with
  | ping => exact { h with outbox := by simp [Server.receiveLive, FrameOk] }
  | viewing => exact h
  | resume => exact close sv

theorem subscribe (h : ServerOk log sv) (after : Option ℕ) : ServerOk log (sv.subscribe after) :=
  ⟨trivial, h.outbox, by simp [Server.subscribe]⟩

theorem goLive (h : ServerOk log sv) {n : ℕ} (hn : n ≤ log.count) :
    ServerOk log (sv.goLive n) :=
  ⟨trivial, by simpa [Server.goLive, FrameOk] using hn, h.queue⟩

theorem reset (h : ServerOk log sv) {n : ℕ} (hn : n ≤ log.count) : ServerOk log (sv.reset n) :=
  ⟨trivial, by simpa [Server.reset, FrameOk] using hn, h.queue⟩

theorem afterLatest (h : ServerOk log sv) (after : Option ℕ) {n : ℕ} (hn : n ≤ log.count) :
    ServerOk log (sv.afterLatest after n) := by
  cases after with
  | none => exact h.goLive hn
  | some after => exact h.setPhase hn

theorem afterEarliest (h : ServerOk log sv) (after : ℕ) {n : ℕ} (hn : n ≤ log.count)
    (earliest : Option ℕ) : ServerOk log (sv.afterEarliest after n earliest) := by
  unfold Server.afterEarliest
  dsimp only
  split
  · exact h.reset hn
  · exact h.setPhase hn

theorem afterPage (h : ServerOk log sv) (sent : ℕ) {n : ℕ} (hn : n ≤ log.count)
    {page : List (EventEnvelope ε)} (hpage : ∀ e ∈ page, e ∈ log.committed) :
    ServerOk log (sv.afterPage sent n page) := by
  unfold Server.afterPage
  split
  · exact h.goLive hn
  · split
    · exact h.reset hn
    · refine ⟨hn, fun f hf => ?_, h.queue⟩
      obtain ⟨e, he, rfl⟩ := List.mem_map.mp hf
      exact hpage e (List.takeWhile_subset _ he)

theorem afterEvent (h : ServerOk log sv) (sent : ℕ) {e : EventEnvelope ε}
    (he : e ∈ log.committed) : ServerOk log (sv.afterEvent sent e) := by
  unfold Server.afterEvent
  split
  · split
    · exact close sv
    · exact ⟨trivial, by simpa [FrameOk] using he, h.queue⟩
  · exact h

theorem broadcast (h : ServerOk log sv) {e : EventEnvelope ε} (he : e ∈ log.committed) :
    ServerOk log { sv with queue := sv.queue.map (· ++ [e]) } := by
  refine { h with queue := fun q hq e' he' => ?_ }
  obtain ⟨q', hq', rfl⟩ := Option.map_eq_some_iff.mp hq
  rcases List.mem_append.mp he' with hold | hnew
  · exact h.queue q' hq' e' hold
  · rwa [List.mem_singleton.mp hnew]

end ServerOk

theorem mem_since (hlog : EventLog.Inv limits log) {after limit : ℕ} {e : EventEnvelope ε}
    (he : e ∈ log.since after limit) : e ∈ log.committed := by
  have hsorted := List.mem_of_mem_take he
  have hfilter := (List.perm_insertionSort _ _).mem_iff.mp hsorted
  have hstored := List.mem_of_mem_filter hfilter
  obtain ⟨k, hk, -⟩ := hlog.kept
  exact List.mem_of_mem_drop (hk ▸ hstored)

theorem latest_value (hlog : EventLog.Inv limits log) {n : ℕ} (hn : log.last = some n) :
    n ≤ log.count :=
  (hlog.last n hn).le

/-- A step of the call that serves a socket. -/
theorem socketOk_step (hlog : EventLog.Inv limits log) {k k' : Socket ε β} (hk : SocketOk log k)
    {a : EventSocket.Action} (h : EventSocket.step limits log k a = some (log', k')) :
    EventLog.Inv limits log' ∧ log.committed <+: log'.committed ∧ SocketOk log k' := by
  have hsame : ∀ {k₁}, some (log, k₁) = some (log', k') → SocketOk log k₁ →
      EventLog.Inv limits log' ∧ log.committed <+: log'.committed ∧ SocketOk log k' := by
    rintro k₁ h hk₁
    cases h
    exact ⟨hlog, List.prefix_rfl, hk₁⟩
  have hsv := hk.server
  cases a with
  | receive =>
      simp only [EventSocket.step] at h
      split at h
      · exact hsame h ⟨hsv.receiveFirst _, hk.toClient⟩
      · exact hsame h ⟨hsv.receiveLive _, hk.toClient⟩
      · cases h
  | subscribe =>
      simp only [EventSocket.step] at h
      split at h
      · exact hsame h ⟨hsv.subscribe _, hk.toClient⟩
      · cases h
  | latest =>
      simp only [EventSocket.step] at h
      split at h
      · next after log₁ _ hlog₁ =>
          split at h
          · next n hn =>
              cases h
              exact ⟨hlog.step hlog₁, committed_prefix hlog₁,
                hsv.afterLatest after (latest_value hlog hn), hk.toClient⟩
          · cases h
            exact ⟨hlog.step hlog₁, committed_prefix hlog₁, hsv.setPhase trivial, hk.toClient⟩
      · cases h
  | latestRead =>
      simp only [EventSocket.step] at h
      split at h
      · next after log₁ _ hlog₁ =>
          cases h
          exact ⟨hlog.step hlog₁, committed_prefix hlog₁,
            hsv.afterLatest after hlog.storedLast_eq.le, hk.toClient⟩
      · cases h
  | earliest =>
      simp only [EventSocket.step] at h
      split at h
      · next after latest hphase =>
          have hn : PhaseOk log (.checking after latest) := hphase ▸ hsv.phase
          exact hsame h ⟨hsv.afterEarliest after hn _, hk.toClient⟩
      · cases h
  | page =>
      simp only [EventSocket.step] at h
      split at h
      · next sent latest hphase _ =>
          have hn : PhaseOk log (.replaying sent latest) := hphase ▸ hsv.phase
          split at h
          · exact hsame h ⟨hsv.afterPage sent hn fun e he => mem_since hlog he, hk.toClient⟩
          · exact hsame h ⟨hsv.goLive hn, hk.toClient⟩
      · cases h
  | send =>
      simp only [EventSocket.step] at h
      split at h
      · next f rest houtbox =>
          have hall : ∀ f' ∈ f :: rest, FrameOk log f' := houtbox ▸ hsv.outbox
          refine hsame h ⟨{ hsv with outbox := fun f' hf' => hall f' (by simp [hf']) }, ?_⟩
          intro f' hf'
          rcases List.mem_append.mp hf' with hold | hnew
          · exact hk.toClient f' hold
          · exact hall f' (by simp_all)
      · cases h
  | event =>
      simp only [EventSocket.step] at h
      split at h
      · next sent e rest _ _ hqueue =>
          have hall : ∀ e' ∈ e :: rest, e' ∈ log.committed := hsv.queue _ hqueue
          have hrest : ServerOk log { k.server with queue := some rest } :=
            { hsv with queue := fun q hq e' he' => hall e' (by simp_all) }
          exact hsame h ⟨hrest.afterEvent sent (hall e (by simp)), hk.toClient⟩
      · cases h
  | stop => exact hsame h ⟨ServerOk.close k.server, hk.toClient⟩

theorem perform_frame (w : World ε β) (k : Command ε β) :
    (perform w k).log = w.log ∧ (perform w k).client = w.client ∧
      (perform w k).progress = w.progress := by
  cases k <;> simp only [perform, and_self]
  split <;> simp

theorem perform_sockets {w : World ε β} (hw : ∀ k ∈ w.sockets, SocketOk w.log k)
    (c : Command ε β) : ∀ k ∈ (perform w c).sockets, SocketOk w.log k := by
  cases c with
  | connect =>
      intro k hk
      rcases List.mem_append.mp hk with hold | hnew
      · exact hw k hold
      · rw [List.mem_singleton.mp hnew]
        exact ⟨ServerOk.new, by simp [Socket.new]⟩
  | send f =>
      simp only [perform]
      split
      · exact hw
      · intro k hk
        obtain ⟨j, hj, rfl⟩ := List.mem_iff_getElem.mp hk
        have hj' : j < w.sockets.length := by simpa using hj
        have hold := hw _ (List.getElem_mem hj')
        rw [List.getElem_modify]
        split
        · exact ⟨hold.server, hold.toClient⟩
        · exact hold
  | _ => exact hw

theorem performAll_frame (w : World ε β) (cs : List (Command ε β)) :
    (cs.foldl perform w).log = w.log ∧ (cs.foldl perform w).client = w.client ∧
      (cs.foldl perform w).progress = w.progress := by
  induction cs generalizing w with
  | nil => exact ⟨rfl, rfl, rfl⟩
  | cons c cs ih =>
      obtain ⟨hlog, hclient, hprogress⟩ := perform_frame w c
      have h := ih (perform w c)
      rwa [hlog, hclient, hprogress] at h

theorem performAll_sockets {w : World ε β} (hw : ∀ k ∈ w.sockets, SocketOk w.log k)
    (cs : List (Command ε β)) : ∀ k ∈ (cs.foldl perform w).sockets, SocketOk w.log k := by
  induction cs generalizing w with
  | nil => exact hw
  | cons c cs ih =>
      have hlog := (perform_frame w c).1
      have h := ih (w := perform w c) (hlog.symm ▸ perform_sockets hw c)
      rwa [hlog] at h

theorem handle_frame [DecidableEq β] (w : World ε β) (input : Input ε β) :
    (w.handle input).log = w.log ∧ (w.handle input).client = (w.client.handle input).1 ∧
      (w.handle input).progress = w.progress.note input (w.client.handle input).2 :=
  performAll_frame _ _

theorem Inv.handle [DecidableEq β] {w : World ε β} (hw : Inv limits w) {input : Input ε β}
    (hinput : ∀ f, input = .frame f → FrameOk w.log f) : Inv limits (w.handle input) := by
  obtain ⟨hlog, hclient, hprogress⟩ := handle_frame w input
  refine ⟨hlog.symm ▸ hw.log, ?_, ?_⟩
  · rw [hlog]
    exact performAll_sockets (w := { w with
      client := (w.client.handle input).1
      progress := w.progress.note input (w.client.handle input).2 }) hw.sockets _
  · rw [hlog, hclient, hprogress]
    exact progressOk_handle hw.log hw.progress hinput

theorem spread_ok (hlog : EventLog.Inv limits log) {a : EventLog.Action ε} {k : Socket ε β}
    (hk : SocketOk log k) : SocketOk log (spread log a k) := by
  unfold spread
  split
  · next b e rest hholder =>
      have he : e ∈ log.committed := hlog.sending.subset (by rw [hholder]; simp [Holder.rest])
      exact ⟨hk.server.broadcast he, hk.toClient⟩
  · exact ⟨ServerOk.close k.server, hk.toClient⟩
  · exact hk

theorem Inv.arrived {w : World ε β} (hw : Inv limits w) : Inv limits w.arrived := by
  unfold World.arrived
  split
  · exact hw
  · refine { hw with sockets := fun k hk => ?_ }
    obtain ⟨j, hj, rfl⟩ := List.mem_iff_getElem.mp hk
    have hj' : j < w.sockets.length := by simpa using hj
    have hold := hw.sockets _ (List.getElem_mem hj')
    rw [List.getElem_modify]
    split
    · exact ⟨hold.server, fun f hf => hold.toClient f (List.mem_of_mem_tail hf)⟩
    · exact hold

theorem arrived_frame (w : World ε β) :
    w.arrived.log = w.log ∧ w.arrived.client = w.client ∧ w.arrived.progress = w.progress := by
  unfold World.arrived
  split <;> exact ⟨rfl, rfl, rfl⟩

theorem Inv.arriving {w : World ε β} (hw : Inv limits w) {f : ServerFrame ε}
    (hf : w.arriving = some f) : FrameOk w.log f := by
  simp only [World.arriving, bind, Option.bind_eq_some_iff] at hf
  obtain ⟨i, -, k, hk, hhead⟩ := hf
  exact (hw.sockets k (List.mem_of_getElem? hk)).toClient f (List.mem_of_mem_head? hhead)

theorem Inv.step [DecidableEq β] {w w' : World ε β} {a : Action ε β} (hw : Inv limits w)
    (h : step limits w a = some w') : Inv limits w' := by
  cases a with
  | log a =>
      obtain ⟨log', hlog', rfl⟩ := Option.map_eq_some_iff.mp h
      have hpre := committed_prefix hlog'
      refine ⟨hw.log.step hlog', fun k hk => ?_, hw.progress.mono hpre⟩
      obtain ⟨k', hk', rfl⟩ := List.mem_map.mp hk
      exact (spread_ok hw.log (hw.sockets k' hk')).mono hpre
  | server i a =>
      simp only [Delivery.step, bind, Option.bind_eq_some_iff] at h
      obtain ⟨k, hk, ⟨log', k'⟩, hstep, h⟩ := h
      cases h
      have hkok := hw.sockets k (List.mem_of_getElem? hk)
      obtain ⟨hlog', hpre, hk'⟩ := socketOk_step hw.log hkok hstep
      refine ⟨hlog', fun k₁ hk₁ => ?_, hw.progress.mono hpre⟩
      rcases List.mem_or_eq_of_mem_set hk₁ with hold | rfl
      · exact (hw.sockets k₁ hold).mono hpre
      · exact hk'.mono hpre
  | opened =>
      obtain ⟨i, -, rfl⟩ := Option.map_eq_some_iff.mp h
      exact hw.handle (by simp)
  | deliver =>
      obtain ⟨f, hf, rfl⟩ := Option.map_eq_some_iff.mp h
      refine hw.arrived.handle fun f' hf' => ?_
      cases hf'
      rw [(arrived_frame w).1]
      exact hw.arriving hf
  | garble =>
      obtain ⟨i, -, rfl⟩ := Option.map_eq_some_iff.mp h
      exact hw.handle (by simp)
  | closed code =>
      obtain ⟨i, -, rfl⟩ := Option.map_eq_some_iff.mp h
      have hw' : Inv limits { w with current := none } := { hw with }
      exact hw'.handle (by simp)
  | input i =>
      simp only [Delivery.step] at h
      split at h
      · next hi =>
          cases h
          exact hw.handle fun f hf => by simp [hf, offSocket] at hi
      · cases h

theorem inv_new : Inv limits (World.new : World ε β) where
  log := EventLog.inv_new
  sockets := by simp [World.new]
  progress := ⟨rfl, by simp [World.new], by simp [World.new], by simp [World.new]⟩

theorem ProgressOk.numbered {limits : Limits} {log : UserLog ε} (hlog : EventLog.Inv limits log)
    {c : Connection β} {p : Progress ε} (hp : ProgressOk log c p) {pos : ℕ}
    (hpos : p.position = some pos) : Numbered pos p.passed := by
  have hle : pos ≤ log.committed.length :=
    le_trans (Nat.le_add_right _ _) (hp.bounded pos hpos)
  have hnum := (hlog.numbered.drop hle).take p.passed.length
  rwa [Nat.zero_add, ← hp.passed pos hpos] at hnum

/-- After its latest reload the connection passes on the log's events one after the other, and a
socket that goes live without a reload leaves none out. -/
theorem delivered [DecidableEq β] (limits : Limits) (acts : List (Action ε β)) (w : World ε β)
    (h : exec (step limits) World.new acts = some w) :
    (∀ pos, w.progress.position = some pos →
      (∀ e ∈ w.progress.passed, e ∈ w.log.committed) ∧
      w.progress.passed.map (·.seq) = List.range' (pos + 1) w.progress.passed.length) ∧
    (∀ latest w', w.arriving = some (.live latest) → step limits w .deliver = some w' →
      w.client.state ≠ .live → w'.client.state = .live →
      .reload ∉ (w.client.handle (.frame (.live latest) : Input ε β)).2 →
      ∃ pos, w.progress.position = some pos ∧ w'.progress = w.progress ∧
        ∀ e ∈ w'.log.committed, pos < e.seq → e.seq ≤ latest → e ∈ w'.progress.passed) := by
  have hw : Inv limits w := exec_invariant (fun _ _ _ hi hstep => hi.step hstep) h inv_new
  refine ⟨fun pos hpos => ⟨fun e he => ?_, hw.progress.numbered hw.log hpos⟩, ?_⟩
  · rw [hw.progress.passed pos hpos] at he
    exact List.mem_of_mem_drop (List.mem_of_mem_take he)
  · intro latest w' harriving hstep hbefore hafter hreload
    obtain ⟨f, hf, rfl⟩ := Option.map_eq_some_iff.mp hstep
    obtain rfl : f = .live latest := Option.some.inj (hf.symm.trans harriving)
    obtain ⟨hlog, hclient, hprogress⟩ := handle_frame w.arrived (.frame (.live latest))
    obtain ⟨hlog₁, hclient₁, hprogress₁⟩ := arrived_frame w
    rw [hclient₁] at hclient hprogress
    obtain ⟨hsynced, hlast, hquiet⟩ := goes_live hbefore (hclient ▸ hafter) hreload
    rw [note_quiet hquiet, hprogress₁] at hprogress
    obtain ⟨pos, hpos⟩ := Option.isSome_iff_exists.mp (hw.progress.synced ▸ hsynced)
    refine ⟨pos, hpos, hprogress, fun e he hafter_pos hupto => ?_⟩
    have hlen : pos + w.progress.passed.length = latest := hlast _ (hw.progress.last pos hpos)
    rw [hlog, hlog₁] at he
    obtain ⟨i, hi, rfl⟩ := List.mem_iff_getElem.mp he
    have hnum := hw.log.numbered.getElem hi
    rw [hprogress, hw.progress.passed pos hpos, List.mem_iff_getElem]
    have hbound : i - pos < ((w.log.committed.drop pos).take w.progress.passed.length).length := by
      rw [List.length_take, List.length_drop]
      omega
    refine ⟨i - pos, hbound, ?_⟩
    simp only [List.getElem_take, List.getElem_drop]
    congr 1
    omega

/-- One batch of one event, from the lock to its broadcast. -/
def writeEvent (event : ℕ) (begins : List (EventLog.Action ℕ)) : List (Action ℕ ℕ) :=
  begins.map .log ++ [.log (.emit 0 event), .log .inserted, .log .commit, .log .committed,
    .log .broadcast, .log .release]

/-- Two events, a first connection, an event while live, one while the socket is down, and a
second connection up to its `Live` frame. -/
def reconnectSchedule : List (Action ℕ ℕ) :=
  writeEvent 10 [.begin, .write, .readStored] ++ writeEvent 11 [.begin, .write] ++
  [.input .start, .opened, .server 0 .receive, .server 0 .subscribe, .server 0 .latest,
    .server 0 .send, .deliver] ++
  writeEvent 12 [.begin, .write] ++
  [.server 0 .event, .server 0 .send, .deliver, .closed none] ++
  writeEvent 13 [.begin, .write] ++
  [.input .retryDue, .opened, .server 1 .receive, .server 1 .subscribe, .server 1 .latest,
    .server 1 .earliest, .server 1 .page, .server 1 .send, .server 1 .page, .server 1 .send,
    .deliver]

theorem delivered_reconnect :
    ∃ w w', exec (step Limits.new) World.new reconnectSchedule = some w ∧
      step Limits.new w .deliver = some w' ∧ w'.client.state = .live ∧
      w'.progress = ⟨some 2, [⟨3, 0, 12⟩, ⟨4, 0, 13⟩]⟩ ∧
      ∀ e ∈ w'.log.committed, 2 < e.seq → e.seq ≤ 4 → e ∈ w'.progress.passed := by
  have hrun : (exec (step Limits.new) World.new reconnectSchedule).map (fun w =>
      (w.progress, w.arriving, w.client.state, (step Limits.new w .deliver).map (·.client.state),
        (w.client.handle (.frame (.live 4) : Input ℕ ℕ)).2)) =
      some (⟨some 2, [⟨3, 0, 12⟩, ⟨4, 0, 13⟩]⟩, some (.live 4), .replaying, some .live, []) := by
    rfl
  obtain ⟨w, hw, hfacts⟩ := Option.map_eq_some_iff.mp hrun
  simp only [Prod.mk.injEq] at hfacts
  obtain ⟨hprogress, harriving, hstate, hlive, hcommands⟩ := hfacts
  obtain ⟨w', hw', hlive'⟩ := Option.map_eq_some_iff.mp hlive
  obtain ⟨pos, hpos, hsame, hall⟩ := (delivered Limits.new reconnectSchedule w hw).2 4 w'
    harriving hw' (by simp [hstate]) hlive' (by simp [hcommands])
  rw [hprogress] at hpos hsame
  cases hpos
  exact ⟨w, w', hw, hw', hlive', hsame, hall⟩

end Delivery

end Bokkie
