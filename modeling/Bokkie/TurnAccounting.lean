import Bokkie.TurnDiscipline
import Bokkie.SlidingWindow
import Bokkie.CheckedTurns

/-!
# Every turn is counted, and nothing else

Whatever the order in which messages, routines' runs and owed answers start turns, for any number
of Bots, and whatever Codex answers: a request for a turn is sent for one count, made before it; a
count is taken back only if its turn certainly did not start; and once a task has ended, its count
is of a turn that started, or whose answer was lost, or it was taken back.
-/

namespace Bokkie

open Tasks

namespace TurnRequest

/-- It asks for a new turn. -/
def isStart (sent : TurnRequest) : Bool :=
  match sent.params with
  | .start _ => true
  | .steer _ => false

/-- Codex said that it did not take it into a turn. -/
def Rejected (sent : TurnRequest) : Prop :=
  sent.turn = none ∧ ∃ message, sent.answer = some (.error (.rejected message))

/-- Codex answered with the turn it took it into, or its answer was lost. -/
def MayRun (sent : TurnRequest) : Prop :=
  (∃ turn, sent.turn = some turn ∧ sent.answer = some (.ok turn)) ∨
    ∃ message, sent.answer = some (.error (.appServer message))

end TurnRequest

/-- What becomes of the requests that were sent: they are not taken back, an answer is final, and
Codex does not start what it rejected. Only the answer to `answered` is new. -/
def Later (answered : Option ℕ) (requests requests' : List TurnRequest) : Prop :=
  ∀ r sent, requests[r]? = some sent → ∃ sent', requests'[r]? = some sent' ∧
    sent'.params = sent.params ∧ (sent.Rejected → sent'.Rejected) ∧ (sent.MayRun → sent'.MayRun) ∧
    (answered ≠ some r → sent.answer = none → sent'.answer = none)

namespace Later

variable {answered : Option ℕ} {requests requests' : List TurnRequest} {r : ℕ}

theorem start (h : Later answered requests requests') {b : Bool}
    (hsent : ∃ sent, requests[r]? = some sent ∧ sent.isStart = b) :
    ∃ sent, requests'[r]? = some sent ∧ sent.isStart = b := by
  obtain ⟨sent, hsent, hstart⟩ := hsent
  obtain ⟨sent', hsent', hparams, -⟩ := h r sent hsent
  exact ⟨sent', hsent', by rwa [TurnRequest.isStart, hparams]⟩

theorem rejected (h : Later answered requests requests')
    (hsent : ∃ sent, requests[r]? = some sent ∧ sent.Rejected) :
    ∃ sent, requests'[r]? = some sent ∧ sent.Rejected := by
  obtain ⟨sent, hsent, hrejected⟩ := hsent
  obtain ⟨sent', hsent', -, hkept, -⟩ := h r sent hsent
  exact ⟨sent', hsent', hkept hrejected⟩

theorem mayRun (h : Later answered requests requests')
    (hsent : ∃ sent, requests[r]? = some sent ∧ sent.MayRun) :
    ∃ sent, requests'[r]? = some sent ∧ sent.MayRun := by
  obtain ⟨sent, hsent, hmay⟩ := hsent
  obtain ⟨sent', hsent', -, -, hkept, -⟩ := h r sent hsent
  exact ⟨sent', hsent', hkept hmay⟩

/-- A request that is there later was there, unless it is new. -/
theorem old (h : Later answered requests requests') {sent' : TurnRequest}
    (hsent' : requests'[r]? = some sent') (hr : r < requests.length) :
    ∃ sent, requests[r]? = some sent ∧ sent.isStart = sent'.isStart := by
  obtain ⟨sent, hsent, hparams, -⟩ := h r _ (List.getElem?_eq_getElem hr)
  obtain rfl : sent = sent' := Option.some.inj (hsent.symm.trans hsent')
  exact ⟨_, List.getElem?_eq_getElem hr, by rw [TurnRequest.isStart, ← hparams]; rfl⟩

theorem refl : Later answered requests requests :=
  fun _ sent h => ⟨sent, h, rfl, id, id, fun _ => id⟩

theorem append (sent : TurnRequest) : Later answered requests (requests ++ [sent]) :=
  fun r sent' h => ⟨sent', by
    rwa [List.getElem?_append_left (List.getElem?_eq_some_iff.mp h).1], rfl, id, id, fun _ => id⟩

/-- One request is answered, or taken into a turn. -/
theorem modify {request : ℕ} {f : TurnRequest → TurnRequest}
    (hf : ∀ sent, requests[request]? = some sent → (f sent).params = sent.params ∧
      (sent.Rejected → (f sent).Rejected) ∧ (sent.MayRun → (f sent).MayRun) ∧
      (answered ≠ some request → sent.answer = none → (f sent).answer = none)) :
    Later answered requests (requests.modify request f) := by
  intro r sent h
  rw [List.getElem?_modify]
  by_cases hr : request = r
  · subst hr
    exact ⟨f sent, by simp [h], hf sent h⟩
  · exact ⟨sent, by simp [hr, h], rfl, id, id, fun _ => id⟩

end Later

section Answers

variable {task : ℕ} {choice : Choice} {w w' : Supervisor} {β : Type} {op : CodexCall β} {r : β}

theorem quiet_requests (hop : op.isQuiet = true) (h : op.answer task choice w = some (r, w')) :
    w'.requests = w.requests := by
  have hrecord {α : Type} (w : Supervisor) (exchange : α → Exchange) (a : Except CodexError α) :
      (w.record exchange a).requests = w.requests := by
    cases a <;> rfl
  have hlaunched (w : Supervisor) (owner : Owner) (a : Except CodexError Expected) :
      (w.launched owner a).2.requests = w.requests := by
    cases a <;> rfl
  cases op
  case turnStart | turnStarted | turnSteer | turnSteered => cases hop
  case lockSlot user =>
    simp only [CodexCall.answer] at h
    split at h
    · obtain ⟨-, rfl⟩ := Prod.mk.inj (Option.some.inj h)
      rfl
    · cases h
  case launch owner =>
    obtain ⟨a, -, ha⟩ := Option.map_eq_some_iff.mp h
    rw [← hlaunched w owner a, ha]
  case configRead | threadStart | threadResume =>
    obtain ⟨a, -, ha⟩ := Option.map_eq_some_iff.mp h
    obtain ⟨-, rfl⟩ := Prod.mk.inj ha
    exact hrecord _ _ a
  case initializeClient | modelList | accountLogout | turnInterrupt | ensureHousehold | inspect |
      makeLink =>
    obtain ⟨a, -, ha⟩ := Option.map_eq_some_iff.mp h
    obtain ⟨-, rfl⟩ := Prod.mk.inj ha
    rfl
  all_goals
    obtain ⟨-, rfl⟩ := Prod.mk.inj (Option.some.inj h)
    rfl

/-- A request is answered once, with the turn it was taken into or with a failure. -/
theorem answerTurn_some {request : ℕ} {answer a : Except CodexError String}
    (h : w.answerTurn request answer = some (a, w')) :
    ∃ sent, w.requests[request]? = some sent ∧ sent.answer = none ∧
      Supervisor.honest sent a = true ∧
      w'.requests = w.requests.modify request fun sent => { sent with answer := some a } := by
  unfold Supervisor.answerTurn at h
  obtain ⟨sent, hsent, h⟩ := Option.bind_eq_some_iff.mp h
  split at h
  · rename_i hanswer
    obtain ⟨rfl, rfl⟩ := Prod.mk.inj (Option.some.inj h)
    simp only [Bool.and_eq_true, Option.isNone_iff_eq_none] at hanswer
    exact ⟨sent, hsent, hanswer.1, hanswer.2, rfl⟩
  · cases h

/-- The answer to a request leaves the others. -/
theorem later_answer {requests : List TurnRequest} {request : ℕ} {sent : TurnRequest}
    {a : Except CodexError String} (hsent : requests[request]? = some sent)
    (hanswer : sent.answer = none) :
    Later (some request) requests
      (requests.modify request fun sent => { sent with answer := some a }) := by
  refine .modify fun sent' hsent' => ?_
  obtain rfl : sent = sent' := Option.some.inj (hsent.symm.trans hsent')
  refine ⟨rfl, ?_, ?_, fun h => absurd rfl h⟩
  · rintro ⟨-, _, hrejected⟩
    rw [hanswer] at hrejected
    cases hrejected
  · rintro (⟨_, -, hmay⟩ | ⟨_, hmay⟩) <;>
    · rw [hanswer] at hmay
      cases hmay

/-- A call made on the supervisor starts its task, and sends nothing yet. -/
theorem surroundings_call {job : Serving.Job} {started : List (Prog CodexCall Unit)}
    (h : Serving.surroundings w (.call job) = some (w', started)) :
    w'.requests = w.requests ∧ started = [job.prog] := by
  simp only [Serving.surroundings] at h
  cases hjob : job.server with
  | none =>
      simp only [hjob] at h
      obtain ⟨rfl, rfl⟩ := Prod.mk.inj (Option.some.inj h)
      exact ⟨rfl, rfl⟩
  | some r =>
      simp only [hjob] at h
      split at h
      · cases h
      split at h
      · split at h
        · obtain ⟨rfl, rfl⟩ := Prod.mk.inj (Option.some.inj h)
          exact ⟨rfl, rfl⟩
        · cases h
      · obtain ⟨rfl, rfl⟩ := Prod.mk.inj (Option.some.inj h)
        exact ⟨rfl, rfl⟩

/-- Around the tasks, Codex takes requests into turns that it has not rejected. -/
theorem later_surroundings {e : Serving.Surroundings} {started : List (Prog CodexCall Unit)}
    {answered : Option ℕ} (h : Serving.surroundings w e = some (w', started)) :
    Later answered w.requests w'.requests ∧ w'.requests.length = w.requests.length := by
  cases e with
  | call job =>
      rw [(surroundings_call h).1]
      exact ⟨.refl, rfl⟩
  | takes request turn =>
      simp only [Serving.surroundings] at h
      split at h
      · rename_i htakes
        obtain ⟨rfl, -⟩ := Prod.mk.inj (Option.some.inj h)
        refine ⟨.modify fun sent hsent => ⟨rfl, ?_, ?_, fun _ => id⟩, List.length_modify ..⟩
        · rintro ⟨-, message, hanswer⟩
          simp [hsent, hanswer] at htakes
        · rintro (⟨turn, hturn, -⟩ | hlost)
          · simp [hsent, hturn] at htakes
          · exact .inr hlost
      · cases h
  | routed =>
      obtain ⟨rfl, -⟩ := Prod.mk.inj (Option.some.inj h)
      exact ⟨.refl, rfl⟩

end Answers

namespace Conversations

open Accounts (nextId lt_nextId DAY_MS)
open SlidingWindow

/-! ## The ledger -/

/-- What the accounting is about. -/
structure Ledger where
  clock : ℤ
  turns : List TurnRow
  counts : List Count
  requests : List TurnRequest

def World.ledger (w : World) : Ledger := ⟨w.clock, w.turns, w.counts, w.supervisor.requests⟩

/-- A turn still counts against the daily limit. -/
def isRecent (clock : ℤ) (row : TurnRow) : Bool := clock - row.time < DAY_MS

/-- The counts that a task holds. -/
def heldBy (counts : List Count) (task : ℕ) : List Count :=
  counts.filter fun c => c.task = task ∧ c.standing = .held

/-- The rows counted and not taken back. -/
def charged (counts : List Count) : List TurnRow :=
  (counts.filter fun c => c.standing ≠ .released).map (·.row)

namespace Ledger

variable (l : Ledger)

def settle (task : ℕ) (f : Count → Count) : List Count :=
  l.counts.map fun c => if c.task = task ∧ c.standing = .held then f c else c

structure Balanced (tasks : ℕ) : Prop where
  /-- A count that is held, is so by a task. -/
  tasks : ∀ c ∈ l.counts, c.standing = .held → c.task < tasks
  asked : ∀ c ∈ l.counts, ∀ r, c.request = some r →
    ∃ sent, l.requests[r]? = some sent ∧ sent.isStart = true
  once : (l.counts.filterMap (·.request)).Nodup
  counted : ∀ r sent, l.requests[r]? = some sent → sent.isStart = true →
    ∃ c ∈ l.counts, c.request = some r
  kept : ∀ c ∈ l.counts, c.standing = .kept →
    ∃ r, c.request = some r ∧ ∃ sent, l.requests[r]? = some sent ∧ sent.MayRun
  released : ∀ c ∈ l.counts, c.standing = .released → ∀ r, c.request = some r →
    ∃ sent, l.requests[r]? = some sent ∧ sent.Rejected
  ids : (l.turns.map (·.id)).Nodup
  past : ∀ c ∈ l.counts, c.row.time ≤ l.clock
  recent : ∀ c ∈ l.counts, c.standing = .held → isRecent l.clock c.row = true
  /-- The rows of the last day are those counted and not taken back. -/
  stored : ((charged l.counts).filter (isRecent l.clock)).Perm (l.turns.filter (isRecent l.clock))

/-- What a task holds, as the ledger has it. -/
def Backs (task : ℕ) : Hold → Prop
  | .free => heldBy l.counts task = []
  | .reserved user turn => ∃ c, heldBy l.counts task = [c] ∧ c.row.user = user ∧ c.row.id = turn ∧
    c.request = none
  | .sent user turn request => ∃ c, heldBy l.counts task = [c] ∧ c.row.user = user ∧
    c.row.id = turn ∧ c.request = some request ∧
    ∃ sent, l.requests[request]? = some sent ∧ sent.answer = none
  | .rejected user turn request => ∃ c, heldBy l.counts task = [c] ∧ c.row.user = user ∧
    c.row.id = turn ∧ c.request = some request ∧
    ∃ sent, l.requests[request]? = some sent ∧ sent.Rejected

/-- The steer whose answer a task waits for is no request for a turn. -/
def Steers (steered : Option ℕ) : Prop :=
  ∀ r, steered = some r → ∃ sent, l.requests[r]? = some sent ∧ sent.isStart = false

/-! ### Counts that are held -/

section Held

variable {l : Ledger} {counts before after : List Count} {c d : Count} {task other n : ℕ}
  {f : Count → Count}

theorem mem_heldBy : c ∈ heldBy counts task ↔ c ∈ counts ∧ c.task = task ∧ c.standing = .held := by
  simp [heldBy]

theorem heldBy_append (counts counts' : List Count) (task : ℕ) :
    heldBy (counts ++ counts') task = heldBy counts task ++ heldBy counts' task :=
  List.filter_append ..

theorem heldBy_cons (c : Count) (counts : List Count) (task : ℕ) :
    heldBy (c :: counts) task =
      if c.task = task ∧ c.standing = .held then c :: heldBy counts task
      else heldBy counts task := by
  simp [heldBy, List.filter_cons]

/-- The one count that a task holds, and what settling it makes of the counts. -/
theorem settle_eq (h : heldBy l.counts task = [c]) :
    ∃ before after, l.counts = before ++ c :: after ∧ heldBy before task = [] ∧
      heldBy after task = [] ∧ ∀ f, l.settle task f = before ++ f c :: after := by
  obtain ⟨before, after, hcounts, hbefore, hc, hafter⟩ := List.filter_eq_cons_iff.mp h
  have hbefore' : heldBy before task = [] := List.filter_eq_nil_iff.mpr hbefore
  have hkept (counts : List Count) (hcounts : heldBy counts task = []) (f : Count → Count) :
      (counts.map fun c => if c.task = task ∧ c.standing = .held then f c else c) = counts := by
    refine (List.map_congr_left fun d hd => ?_).trans counts.map_id
    have hd' := List.filter_eq_nil_iff.mp hcounts d hd
    exact if_neg (by simpa using hd')
  refine ⟨before, after, hcounts, hbefore', hafter, fun f => ?_⟩
  rw [settle, hcounts, List.map_append, List.map_cons, hkept before hbefore', hkept after hafter,
    if_pos (by simpa using hc)]

/-- Settling a task's count leaves what the others hold. -/
theorem heldBy_other (hc : c.task ≠ other) (hd : d.task ≠ other) :
    heldBy (before ++ d :: after) other = heldBy (before ++ c :: after) other := by
  simp [heldBy_append, heldBy_cons, hc, hd]

theorem heldBy_settled (hbefore : heldBy before task = []) (hafter : heldBy after task = []) :
    heldBy (before ++ d :: after) task =
      if d.task = task ∧ d.standing = .held then [d] else [] := by
  rw [heldBy_append, heldBy_cons, hbefore, hafter]
  rfl

/-- A request is sent for one count. -/
theorem Balanced.same (h : l.Balanced n) (hc : c ∈ l.counts) (hd : d ∈ l.counts) {r : ℕ}
    (hcr : c.request = some r) (hdr : d.request = some r) : c = d := by
  have hpair := List.pairwise_filterMap.mp h.once
  by_contra hne
  have hsymm : Std.Symm fun c d : Count =>
      ∀ r, c.request = some r → ∀ r', d.request = some r' → r ≠ r' :=
    ⟨fun c d hcd r hr r' hr' => (hcd r' hr' r hr).symm⟩
  exact hpair.forall hc hd hne r hcr r hdr rfl

end Held

/-! ### What the calls do -/

section Steps

variable {l : Ledger} {c : Count} {task n : ℕ} {hold : Hold} {requests : List TurnRequest}
  {answered : Option ℕ}

theorem Balanced.later (h : l.Balanced n) (hlater : Later answered l.requests requests)
    (hlength : requests.length = l.requests.length) :
    ({ l with requests } : Ledger).Balanced n := by
  refine ⟨h.tasks, fun c hc r hr => hlater.start (h.asked c hc r hr), h.once, ?_, ?_,
    fun c hc hreleased r hr => hlater.rejected (h.released c hc hreleased r hr), h.ids, h.past,
    h.recent, h.stored⟩
  · intro r sent' hsent' hstart
    obtain ⟨sent, hsent, hsame⟩ :=
      hlater.old hsent' (hlength ▸ (List.getElem?_eq_some_iff.mp hsent').1)
    exact h.counted r sent hsent (hsame.trans hstart)
  · intro c hc hkept
    obtain ⟨r, hr, hmay⟩ := h.kept c hc hkept
    exact ⟨r, hr, hlater.mayRun hmay⟩

/-- The answer to another's request leaves what a task holds. -/
theorem Backs.later (h : l.Backs task hold) (hlater : Later answered l.requests requests)
    (hother : ∀ c ∈ heldBy l.counts task, c.request ≠ none → c.request ≠ answered) :
    ({ l with requests } : Ledger).Backs task hold := by
  cases hold with
  | free => exact h
  | reserved user turn => exact h
  | sent user turn request =>
      obtain ⟨c, hheld, huser, hturn, hr, sent, hsent, hanswer⟩ := h
      obtain ⟨sent', hsent', -, -, -, hnone⟩ := hlater request sent hsent
      have hne : answered ≠ some request := fun heq =>
        hother c (by simp [hheld]) (by simp [hr]) (hr.trans heq.symm)
      exact ⟨c, hheld, huser, hturn, hr, sent', hsent', hnone hne hanswer⟩
  | rejected user turn request =>
      obtain ⟨c, hheld, huser, hturn, hr, sent, hsent, hrejected⟩ := h
      obtain ⟨sent', hsent', -, hrejected', -⟩ := hlater request sent hsent
      exact ⟨c, hheld, huser, hturn, hr, sent', hsent', hrejected' hrejected⟩

theorem Steers.later {steered : Option ℕ} (h : l.Steers steered)
    (hlater : Later answered l.requests requests) :
    ({ l with requests } : Ledger).Steers steered :=
  fun r hr => hlater.start (h r hr)

theorem Balanced.mono {m : ℕ} (h : l.Balanced n) (hle : n ≤ m) : l.Balanced m :=
  { h with tasks := fun c hc hheld => (h.tasks c hc hheld).trans_le hle }

/-- What a task holds depends on its own counts, and on the requests only as they go on. -/
theorem Backs.congr {counts : List Count} {clock : ℤ} {turns : List TurnRow}
    (h : l.Backs task hold) (hheld : heldBy counts task = heldBy l.counts task) :
    Backs ⟨clock, turns, counts, l.requests⟩ task hold := by
  cases hold with
  | free => exact hheld.trans h
  | reserved user turn =>
      obtain ⟨c, hc, hrest⟩ := h
      exact ⟨c, hheld.trans hc, hrest⟩
  | sent user turn request =>
      obtain ⟨c, hc, hrest⟩ := h
      exact ⟨c, hheld.trans hc, hrest⟩
  | rejected user turn request =>
      obtain ⟨c, hc, hrest⟩ := h
      exact ⟨c, hheld.trans hc, hrest⟩

/-- The turn that a task counts. -/
def counting (l : Ledger) (task user bot : ℕ) : Count :=
  ⟨⟨⟨user, bot, l.clock⟩, nextId (l.turns.map (·.id))⟩, task, none, .held⟩

def reserve (l : Ledger) (task user bot : ℕ) : Ledger :=
  { l with
    turns := l.turns ++ [(l.counting task user bot).row]
    counts := l.counts ++ [l.counting task user bot] }

theorem isRecent_now (l : Ledger) (task user bot : ℕ) :
    isRecent l.clock (l.counting task user bot).row = true := by
  simp [isRecent, counting, DAY_MS, Accounts.HOUR_MS]

theorem Balanced.reserve (h : l.Balanced n) (htask : task < n) (user bot : ℕ) :
    (l.reserve task user bot).Balanced n := by
  have hcounts : ∀ c ∈ (l.reserve task user bot).counts,
      c ∈ l.counts ∨ c = l.counting task user bot := by simp [Ledger.reserve]
  refine ⟨?_, ?_, ?_, ?_, ?_, ?_, ?_, ?_, ?_, ?_⟩
  · intro c hc hheld
    rcases hcounts c hc with hc | rfl
    · exact h.tasks c hc hheld
    · exact htask
  · intro c hc r hr
    rcases hcounts c hc with hc | rfl
    · exact h.asked c hc r hr
    · cases hr
  · simpa [Ledger.reserve, counting, List.filterMap_append] using h.once
  · intro r sent hsent hstart
    obtain ⟨c, hc, hr⟩ := h.counted r sent hsent hstart
    exact ⟨c, List.mem_append_left _ hc, hr⟩
  · intro c hc hkept
    rcases hcounts c hc with hc | rfl
    · exact h.kept c hc hkept
    · cases hkept
  · intro c hc hreleased
    rcases hcounts c hc with hc | rfl
    · exact h.released c hc hreleased
    · cases hreleased
  · rw [Ledger.reserve, List.map_append, List.map_singleton]
    refine List.nodup_append.mpr ⟨h.ids, List.nodup_singleton _, ?_⟩
    rintro i hi j hj rfl
    have := lt_nextId hi
    rw [List.mem_singleton.mp hj, counting] at this
    exact lt_irrefl _ this
  · intro c hc
    rcases hcounts c hc with hc | rfl
    · exact h.past c hc
    · exact le_rfl
  · intro c hc hheld
    rcases hcounts c hc with hc | rfl
    · exact h.recent c hc hheld
    · exact l.isRecent_now ..
  · simp only [Ledger.reserve, charged, List.filter_append, List.map_append]
    exact h.stored.append (by simp [counting])

/-- What is to be seen to when a task's count `c` is settled to `d`. -/
structure Settlement (l : Ledger) (c d : Count) (turns : List TurnRow)
    (requests : List TurnRequest) : Prop where
  row : d.row = c.row
  task : d.task = c.task
  request : d.request = c.request ∨ c.request = none ∧ d.request = some l.requests.length
  asked : ∀ r, d.request = some r → ∃ sent, requests[r]? = some sent ∧ sent.isStart = true
  counted : ∀ r sent, requests[r]? = some sent → sent.isStart = true →
    (∃ old, l.requests[r]? = some old ∧ old.isStart = true) ∨ d.request = some r
  kept : d.standing = .kept →
    ∃ r, d.request = some r ∧ ∃ sent, requests[r]? = some sent ∧ sent.MayRun
  released : d.standing = .released → ∀ r, d.request = some r →
    ∃ sent, requests[r]? = some sent ∧ sent.Rejected
  ids : (turns.map (·.id)).Nodup

theorem Balanced.settle {d : Count} {f : Count → Count} {turns : List TurnRow}
    (h : l.Balanced n) (hheld : heldBy l.counts task = [c]) (hf : f c = d)
    (hd : Settlement l c d turns requests) (hlater : Later answered l.requests requests)
    (hstored : ((charged (l.settle task f)).filter (isRecent l.clock)).Perm
      (turns.filter (isRecent l.clock))) :
    Balanced ⟨l.clock, turns, l.settle task f, requests⟩ n := by
  obtain ⟨before, after, hcounts, -, -, hsettle⟩ := settle_eq hheld
  obtain ⟨hmem, hctask, hcheld⟩ := mem_heldBy.mp (hheld ▸ List.mem_singleton_self c)
  -- the count that was settled, and the others as they were
  have hold : ∀ e ∈ l.settle task f, e ∈ l.counts ∨ e = d := by
    intro e he
    rw [hsettle, hf] at he
    rw [hcounts]
    simp only [List.mem_append, List.mem_cons] at he ⊢
    tauto
  have hmemd : d ∈ l.settle task f := by simp [hsettle, hf]
  refine ⟨?_, ?_, ?_, ?_, ?_, ?_, hd.ids, ?_, ?_, hstored⟩
  · intro e he heheld
    rcases hold e he with he | rfl
    · exact h.tasks e he heheld
    · exact hd.task ▸ h.tasks c hmem hcheld
  · intro e he r hr
    rcases hold e he with he | rfl
    · exact hlater.start (h.asked e he r hr)
    · exact hd.asked r hr
  · have honce := h.once
    rw [hcounts, List.filterMap_append, List.filterMap_cons] at honce
    rw [hsettle, hf, List.filterMap_append, List.filterMap_cons]
    rcases hd.request with hr | ⟨hnone, hr⟩
    · rwa [hr]
    · rw [hnone] at honce
      rw [hr]
      refine List.nodup_middle.mpr (List.nodup_cons.mpr ⟨?_, honce⟩)
      rw [← List.filterMap_append]
      intro hr
      obtain ⟨e, he, hr⟩ := List.mem_filterMap.mp hr
      have he' : e ∈ l.counts := by
        rw [hcounts]
        simp only [List.mem_append, List.mem_cons] at he ⊢
        tauto
      obtain ⟨sent, hsent, -⟩ := h.asked e he' _ hr
      exact absurd (List.getElem?_eq_some_iff.mp hsent).1 (lt_irrefl _)
  · intro r sent hsent hstart
    rcases hd.counted r sent hsent hstart with ⟨old, hold', hstart'⟩ | hr
    · obtain ⟨e, he, hr⟩ := h.counted r old hold' hstart'
      rw [hcounts] at he
      rcases List.mem_append.mp he with he | he
      · exact ⟨e, by rw [hsettle]; exact List.mem_append_left _ he, hr⟩
      rcases List.mem_cons.mp he with rfl | he
      · rcases hd.request with hsame | ⟨hnone, -⟩
        · exact ⟨d, hmemd, hsame.trans hr⟩
        · rw [hnone] at hr
          cases hr
      · exact ⟨e, by rw [hsettle]; exact List.mem_append_right _ (List.mem_cons_of_mem _ he), hr⟩
    · exact ⟨d, hmemd, hr⟩
  · intro e he hekept
    rcases hold e he with he | rfl
    · obtain ⟨r, hr, hmay⟩ := h.kept e he hekept
      exact ⟨r, hr, hlater.mayRun hmay⟩
    · exact hd.kept hekept
  · intro e he hreleased r hr
    rcases hold e he with he | rfl
    · exact hlater.rejected (h.released e he hreleased r hr)
    · exact hd.released hreleased r hr
  · intro e he
    rcases hold e he with he | rfl
    · exact h.past e he
    · exact hd.row ▸ h.past c hmem
  · intro e he heheld
    rcases hold e he with he | rfl
    · exact h.recent e he heheld
    · exact hd.row ▸ h.recent c hmem hcheld

/-- A count that is not taken back is charged as it was. -/
theorem charged_settle {f : Count → Count} (hheld : heldBy l.counts task = [c])
    (hrow : (f c).row = c.row) (hcharged : (f c).standing ≠ .released) :
    charged (l.settle task f) = charged l.counts := by
  obtain ⟨before, after, hcounts, -, -, hsettle⟩ := settle_eq hheld
  obtain ⟨-, -, hcheld⟩ := mem_heldBy.mp (hheld ▸ List.mem_singleton_self c)
  rw [hsettle, hcounts]
  simp [charged, hcheld, hrow, hcharged]

/-- The request that a task sends for the count it holds. -/
def send (l : Ledger) (task serial : ℕ) (params : TurnStartParams) : Ledger :=
  { l with
    counts := l.settle task fun c => { c with request := some l.requests.length }
    requests := l.requests ++ [⟨serial, .start params, none, none⟩] }

/-- A new request is the last one. -/
theorem getElem?_append_singleton {requests : List TurnRequest} {sent new : TurnRequest} {r : ℕ}
    (h : (requests ++ [new])[r]? = some sent) :
    requests[r]? = some sent ∨ r = requests.length ∧ sent = new := by
  rw [List.getElem?_append] at h
  split at h
  · exact .inl h
  · have hlt := (List.getElem?_eq_some_iff.mp h).1
    simp only [List.length_singleton] at hlt
    obtain rfl : r = requests.length := by omega
    simp only [Nat.sub_self, List.getElem?_cons_zero, Option.some.injEq] at h
    exact .inr ⟨rfl, h.symm⟩

theorem Balanced.send (h : l.Balanced n) (hheld : heldBy l.counts task = [c])
    (hnone : c.request = none) (serial : ℕ) (params : TurnStartParams) :
    (l.send task serial params).Balanced n := by
  obtain ⟨-, -, hcheld⟩ := mem_heldBy.mp (hheld ▸ List.mem_singleton_self c)
  refine h.settle hheld rfl ?_ (Later.append _ : Later none l.requests _) ?_
  · refine ⟨rfl, rfl, .inr ⟨hnone, rfl⟩, ?_, ?_, ?_, ?_, h.ids⟩
    · intro r hr
      obtain rfl := Option.some.inj hr
      exact ⟨_, List.getElem?_concat_length, rfl⟩
    · intro r sent hsent hstart
      rcases getElem?_append_singleton hsent with hold | ⟨rfl, -⟩
      · exact .inl ⟨sent, hold, hstart⟩
      · exact .inr rfl
    · exact fun hkept => absurd (hcheld.symm.trans hkept) (by simp)
    · exact fun hreleased => absurd (hcheld.symm.trans hreleased) (by simp)
  · rw [charged_settle hheld rfl (by simp [hcheld])]
    exact h.stored

/-- A count stays for good once its turn runs, or may run. -/
def keep (l : Ledger) (task : ℕ) (requests : List TurnRequest) : Ledger :=
  { l with counts := l.settle task fun c => { c with standing := .kept }, requests }

theorem Balanced.keep (h : l.Balanced n) (hheld : heldBy l.counts task = [c])
    (hlater : Later answered l.requests requests) (hlength : requests.length = l.requests.length)
    {r : ℕ} {sent : TurnRequest} (hr : c.request = some r) (hsent : requests[r]? = some sent)
    (hmay : sent.MayRun) : (l.keep task requests).Balanced n := by
  obtain ⟨hmem, -, hcheld⟩ := mem_heldBy.mp (hheld ▸ List.mem_singleton_self c)
  refine h.settle hheld rfl ?_ hlater ?_
  · refine ⟨rfl, rfl, .inl rfl, fun r hr => hlater.start (h.asked c hmem r hr), ?_, ?_, ?_, h.ids⟩
    · intro r' sent' hsent' hstart
      obtain ⟨old, hold, hsame⟩ :=
        hlater.old hsent' (hlength ▸ (List.getElem?_eq_some_iff.mp hsent').1)
      exact .inl ⟨old, hold, hsame.trans hstart⟩
    · exact fun _ => ⟨r, hr, sent, hsent, hmay⟩
    · exact fun hreleased => by cases hreleased
  · rw [charged_settle hheld rfl (by simp)]
    exact h.stored

/-- A counted turn is taken back. -/
def release (l : Ledger) (task user turn : ℕ) : Ledger :=
  { l with
    turns := l.turns.filter fun r => !(r.id = turn ∧ r.user = user)
    counts := l.settle task fun c => { c with standing := .released } }

theorem stored_release (h : l.Balanced n) (hheld : heldBy l.counts task = [c]) :
    ((charged (l.release task c.row.user c.row.id).counts).filter (isRecent l.clock)).Perm
      ((l.release task c.row.user c.row.id).turns.filter (isRecent l.clock)) := by
  obtain ⟨before, after, hcounts, -, -, hsettle⟩ := settle_eq hheld
  obtain ⟨hmem, -, hcheld⟩ := mem_heldBy.mp (hheld ▸ List.mem_singleton_self c)
  have hrecent := h.recent c hmem hcheld
  have hstored := h.stored
  simp only [hcounts, charged, List.filter_append, List.map_append, List.filter_cons, hcheld,
    hrecent, List.map_cons, ne_eq, reduceCtorEq, not_false_eq_true, decide_true, if_true] at hstored
  simp only [Ledger.release, hsettle, charged, List.filter_append, List.map_append,
    List.filter_cons, ne_eq, not_true_eq_false, decide_false, Bool.false_eq_true, if_false]
  have hperm := List.perm_middle.symm.trans hstored
  -- no other row of the last day has the row's id
  have hids := (hperm.map (·.id)).nodup_iff.mpr (h.ids.sublist (List.filter_sublist.map _))
  have hother := (List.nodup_cons.mp hids).1
  rw [List.filter_comm]
  refine List.Perm.trans (.of_eq (Eq.symm ?_)) (hperm.filter _)
  refine (List.filter_cons_of_neg (by simp)).trans (List.filter_eq_self.mpr fun row hrow => ?_)
  have hne : row.id ≠ c.row.id := fun heq => 
    hother (List.mem_map.mpr ⟨row, hrow, heq⟩)
  simp [hne]

theorem Balanced.release (h : l.Balanced n) (hheld : heldBy l.counts task = [c])
    (hnoTurn : ∀ r, c.request = some r → ∃ sent, l.requests[r]? = some sent ∧ sent.Rejected) :
    (l.release task c.row.user c.row.id).Balanced n := by
  obtain ⟨hmem, -, -⟩ := mem_heldBy.mp (hheld ▸ List.mem_singleton_self c)
  have hlater : Later none l.requests l.requests := .refl
  refine h.settle hheld rfl ?_ hlater (stored_release h hheld)
  refine ⟨rfl, rfl, .inl rfl, h.asked c hmem, fun r sent hsent hstart => .inl ⟨sent, hsent, hstart⟩,
    ?_, fun _ => hnoTurn, h.ids.sublist (List.filter_sublist.map _)⟩
  exact fun hkept => by cases hkept

/-- Steers count nothing. -/
theorem Balanced.steer (h : l.Balanced n) (serial : ℕ) (params : TurnSteerParams) :
    ({ l with requests := l.requests ++ [⟨serial, .steer params, none, none⟩] } : Ledger).Balanced
      n := by
  have hlater : Later none l.requests (l.requests ++ [⟨serial, .steer params, none, none⟩]) :=
    .append _
  refine ⟨h.tasks, fun c hc r hr => hlater.start (h.asked c hc r hr), h.once, ?_, ?_,
    fun c hc hreleased r hr => hlater.rejected (h.released c hc hreleased r hr), h.ids, h.past,
    h.recent, h.stored⟩
  · intro r sent hsent hstart
    rcases getElem?_append_singleton hsent with hold | ⟨-, rfl⟩
    · exact h.counted r sent hold hstart
    · cases hstart
  · intro c hc hkept
    obtain ⟨r, hr, hmay⟩ := h.kept c hc hkept
    exact ⟨r, hr, hlater.mayRun hmay⟩

/-- Time goes on, and old rows may be deleted. -/
theorem Balanced.tick (h : l.Balanced n) {now : ℤ} (hnow : l.clock ≤ now)
    (hrecent : ∀ c ∈ l.counts, c.standing = .held → isRecent now c.row = true) :
    ({ l with clock := now } : Ledger).Balanced n := by
  have hstill : ∀ rows : List TurnRow, (rows.filter (isRecent l.clock)).filter (isRecent now) =
      rows.filter (isRecent now) := by
    intro rows
    rw [List.filter_filter]
    refine List.filter_congr fun row _ => ?_
    simp only [isRecent, Bool.and_eq_left_iff_imp, decide_eq_true_eq]
    omega
  refine ⟨h.tasks, h.asked, h.once, h.counted, h.kept, h.released, h.ids,
    fun c hc => (h.past c hc).trans hnow, hrecent, ?_⟩
  rw [← hstill, ← hstill l.turns]
  exact h.stored.filter _

theorem Balanced.prune (h : l.Balanced n) :
    ({ l with turns := l.turns.filter (isRecent l.clock) } : Ledger).Balanced n := by
  refine ⟨h.tasks, h.asked, h.once, h.counted, h.kept, h.released,
    h.ids.sublist (List.filter_sublist.map _), h.past, h.recent, ?_⟩
  rw [List.filter_filter]
  simpa only [Bool.and_self] using h.stored

/-- A stopped gateway leaves the counts that were held as they are. -/
def cut (l : Ledger) : Ledger :=
  { l with counts := l.counts.map fun c =>
      if c.standing = .held then { c with standing := .cut } else c }

theorem Balanced.cut (h : l.Balanced n) : l.cut.Balanced 0 := by
  have hcut : ∀ c ∈ l.cut.counts, ∃ d ∈ l.counts, c.row = d.row ∧ c.request = d.request ∧
      c.standing ≠ .held ∧ (c.standing = .kept → d.standing = .kept) ∧
      (c.standing = .released → d.standing = .released) := by
    intro c hc
    obtain ⟨d, hd, rfl⟩ := List.mem_map.mp hc
    refine ⟨d, hd, ?_⟩
    split
    · simp
    · rename_i hheld
      exact ⟨rfl, rfl, hheld, id, id⟩
  have hrequest : (l.cut.counts.filterMap (·.request)) = l.counts.filterMap (·.request) := by
    rw [Ledger.cut, List.filterMap_map]
    refine List.filterMap_congr fun c _ => ?_
    simp only [Function.comp_apply]
    split <;> rfl
  have hcharged : charged l.cut.counts = charged l.counts := by
    rw [charged, charged, Ledger.cut, List.filter_map, List.map_map]
    have hfilter : (l.counts.filter ((fun c => decide (c.standing ≠ .released)) ∘ fun c =>
        if c.standing = .held then { c with standing := .cut } else c)) =
        l.counts.filter fun c => c.standing ≠ .released := by
      refine List.filter_congr fun c _ => ?_
      simp only [Function.comp_apply]
      split
      · rename_i hheld
        simp [hheld]
      · rfl
    rw [hfilter]
    refine List.map_congr_left fun c _ => ?_
    simp only [Function.comp_apply]
    split <;> rfl
  refine ⟨?_, ?_, hrequest ▸ h.once, ?_, ?_, ?_, h.ids, ?_, ?_, ?_⟩
  · intro c hc hheld
    obtain ⟨-, -, -, -, hnot, -⟩ := hcut c hc
    exact absurd hheld hnot
  · intro c hc r hr
    obtain ⟨d, hd, -, hsame, -⟩ := hcut c hc
    exact h.asked d hd r (hsame ▸ hr)
  · intro r sent hsent hstart
    obtain ⟨d, hd, hr⟩ := h.counted r sent hsent hstart
    have hmem : r ∈ l.counts.filterMap (·.request) := List.mem_filterMap.mpr ⟨d, hd, hr⟩
    exact List.mem_filterMap.mp (hrequest ▸ hmem)
  · intro c hc hkept
    obtain ⟨d, hd, -, hsame, -, hstanding, -⟩ := hcut c hc
    exact hsame ▸ h.kept d hd (hstanding hkept)
  · intro c hc hreleased r hr
    obtain ⟨d, hd, -, hsame, -, -, hstanding⟩ := hcut c hc
    exact h.released d hd (hstanding hreleased) r (hsame ▸ hr)
  · intro c hc
    obtain ⟨d, hd, hrow, -⟩ := hcut c hc
    exact hrow ▸ h.past d hd
  · intro c hc hheld
    obtain ⟨-, -, -, -, hnot, -⟩ := hcut c hc
    exact absurd hheld hnot
  · rw [hcharged]
    exact h.stored

/-- A step of a task that holds `hold` after it: the others hold what they did. -/
structure Moves (l l' : Ledger) (task n : ℕ) (hold : Hold) : Prop where
  balanced : l'.Balanced n
  own : l'.Backs task hold
  others : ∀ other hold, task ≠ other → l.Backs other hold → l'.Backs other hold
  later : ∃ answered, Later answered l.requests l'.requests

theorem heldBy_settle_other {other : ℕ} {f : Count → Count} (hheld : heldBy l.counts task = [c])
    (htask : (f c).task = c.task) (hne : task ≠ other) :
    heldBy (l.settle task f) other = heldBy l.counts other := by
  obtain ⟨before, after, hcounts, -, -, hsettle⟩ := settle_eq hheld
  obtain ⟨-, hctask, -⟩ := mem_heldBy.mp (hheld ▸ List.mem_singleton_self c)
  rw [hsettle, hcounts]
  exact heldBy_other (by rwa [hctask]) (by rwa [htask, hctask])

theorem heldBy_settle {f : Count → Count} (hheld : heldBy l.counts task = [c])
    (htask : (f c).task = c.task) :
    heldBy (l.settle task f) task = if (f c).standing = .held then [f c] else [] := by
  obtain ⟨before, after, -, hbefore, hafter, hsettle⟩ := settle_eq hheld
  obtain ⟨-, hctask, -⟩ := mem_heldBy.mp (hheld ▸ List.mem_singleton_self c)
  rw [hsettle, heldBy_settled hbefore hafter]
  simp [htask, hctask]

/-- The request of another task's count is another one. -/
theorem Balanced.request_ne (h : l.Balanced n) {other r : ℕ} (hheld : heldBy l.counts task = [c])
    (hr : c.request = some r) (hne : task ≠ other) :
    ∀ d ∈ heldBy l.counts other, d.request ≠ none → d.request ≠ some r := by
  intro d hd _ hdr
  obtain ⟨hc, hctask, -⟩ := mem_heldBy.mp (hheld ▸ List.mem_singleton_self c)
  obtain ⟨hd, hdtask, -⟩ := mem_heldBy.mp hd
  exact hne (hctask.symm.trans ((congrArg Count.task (h.same hc hd hr hdr)).trans hdtask))

theorem Balanced.moves_reserve (h : l.Balanced n) (htask : task < n) (hfree : l.Backs task .free)
    (user bot : ℕ) : Moves l (l.reserve task user bot) task n
      (.reserved user (l.counting task user bot).row.id) where
  balanced := h.reserve htask user bot
  own := by
    refine ⟨l.counting task user bot, ?_, rfl, rfl, rfl⟩
    rw [Ledger.reserve, heldBy_append, hfree]
    simp [counting, heldBy]
  others := fun other hold hne hother => hother.congr (by
    rw [heldBy_append]
    simp [counting, hne, heldBy])
  later := ⟨none, .refl⟩

theorem Balanced.moves_send (h : l.Balanced n) {user turn : ℕ}
    (hhold : l.Backs task (.reserved user turn)) (serial : ℕ) (params : TurnStartParams) :
    Moves l (l.send task serial params) task n (.sent user turn l.requests.length) := by
  obtain ⟨c, hheld, rfl, rfl, hnone⟩ := hhold
  have hlater : Later none l.requests (l.requests ++ [⟨serial, .start params, none, none⟩]) :=
    .append _
  obtain ⟨-, -, hcheld⟩ := mem_heldBy.mp (hheld ▸ List.mem_singleton_self c)
  refine ⟨h.send hheld hnone serial params, ?_, fun other hold hne hother => ?_, none, hlater⟩
  · refine ⟨{ c with request := some l.requests.length }, ?_, rfl, rfl, rfl, _,
      List.getElem?_concat_length, rfl⟩
    rw [Ledger.send, heldBy_settle hheld rfl]
    exact if_pos hcheld
  · have hsent := hother.later hlater fun d _ hr => hr
    exact hsent.congr (heldBy_settle_other hheld rfl hne)

theorem Balanced.moves_keep (h : l.Balanced n) {user turn r : ℕ}
    (hhold : l.Backs task (.sent user turn r)) (hlater : Later (some r) l.requests requests)
    (hlength : requests.length = l.requests.length)
    (hmay : ∃ sent, requests[r]? = some sent ∧ sent.MayRun) :
    Moves l (l.keep task requests) task n .free := by
  obtain ⟨c, hheld, rfl, rfl, hr, -⟩ := hhold
  obtain ⟨sent, hsent, hmay⟩ := hmay
  refine ⟨h.keep hheld hlater hlength hr hsent hmay, ?_, fun other hold hne hother => ?_, _, hlater⟩
  · refine (heldBy_settle hheld rfl).trans (if_neg ?_)
    simp
  · exact (hother.later hlater (h.request_ne hheld hr hne)).congr
      (heldBy_settle_other hheld rfl hne)

theorem Balanced.moves_reject (h : l.Balanced n) {user turn r : ℕ}
    (hhold : l.Backs task (.sent user turn r)) (hlater : Later (some r) l.requests requests)
    (hlength : requests.length = l.requests.length)
    (hrejected : ∃ sent, requests[r]? = some sent ∧ sent.Rejected) :
    Moves l { l with requests } task n (.rejected user turn r) := by
  obtain ⟨c, hheld, rfl, rfl, hr, -⟩ := hhold
  exact ⟨h.later hlater hlength, ⟨c, hheld, rfl, rfl, hr, hrejected⟩, fun other hold hne hother =>
    hother.later hlater (h.request_ne hheld hr hne), _, hlater⟩

theorem Balanced.moves_release (h : l.Balanced n) {user turn : ℕ} (hhold : l.Backs task hold)
    (hrelease : hold.MayRelease user turn) :
    Moves l (l.release task user turn) task n .free := by
  have hcount : ∃ c, heldBy l.counts task = [c] ∧ c.row.user = user ∧ c.row.id = turn ∧
      ∀ r, c.request = some r → ∃ sent, l.requests[r]? = some sent ∧ sent.Rejected := by
    rcases hrelease with rfl | ⟨request, rfl⟩
    · obtain ⟨c, hheld, huser, hturn, hnone⟩ := hhold
      exact ⟨c, hheld, huser, hturn, fun r hr => by rw [hnone] at hr; cases hr⟩
    · obtain ⟨c, hheld, huser, hturn, hrequest, hrejected⟩ := hhold
      refine ⟨c, hheld, huser, hturn, fun r hr => ?_⟩
      obtain rfl := Option.some.inj (hrequest.symm.trans hr)
      exact hrejected
  obtain ⟨c, hheld, rfl, rfl, hnoTurn⟩ := hcount
  refine ⟨h.release hheld hnoTurn, ?_, fun other hold hne hother => ?_, none, .refl⟩
  · refine (heldBy_settle hheld rfl).trans (if_neg ?_)
    simp
  · exact hother.congr (heldBy_settle_other hheld rfl hne)

/-- Steers, and answers to them, are no one's requests for turns. -/
theorem Balanced.steered_ne (h : l.Balanced n) {r : ℕ} (hr : l.Steers (some r)) {other : ℕ} :
    ∀ d ∈ heldBy l.counts other, d.request ≠ none → d.request ≠ some r := by
  intro d hd _ hdr
  obtain ⟨sent, hsent, hsteer⟩ := hr r rfl
  obtain ⟨sent', hsent', hstart⟩ := h.asked d (mem_heldBy.mp hd).1 r hdr
  rw [Option.some.inj (hsent.symm.trans hsent'), hstart] at hsteer
  cases hsteer

theorem Balanced.moves_steer (h : l.Balanced n) (hhold : l.Backs task hold) (serial : ℕ)
    (params : TurnSteerParams) :
    Moves l { l with requests := l.requests ++ [⟨serial, .steer params, none, none⟩] } task n
      hold := by
  have hlater : Later none l.requests (l.requests ++ [⟨serial, .steer params, none, none⟩]) :=
    .append _
  exact ⟨h.steer serial params, hhold.later hlater fun _ _ hr => hr,
    fun other hold _ hother => hother.later hlater fun _ _ hr => hr, _, hlater⟩

theorem Balanced.moves_steered (h : l.Balanced n) (hhold : l.Backs task hold) {r : ℕ}
    (hr : l.Steers (some r)) (hlater : Later (some r) l.requests requests)
    (hlength : requests.length = l.requests.length) : Moves l { l with requests } task n hold :=
  ⟨h.later hlater hlength, hhold.later hlater (h.steered_ne hr),
    fun _ _ _ hother => hother.later hlater (h.steered_ne hr), _, hlater⟩

theorem Moves.steers {l' : Ledger} {steered : Option ℕ} (h : Moves l l' task n hold)
    (hsteers : l.Steers steered) : l'.Steers steered := by
  obtain ⟨answered, hlater⟩ := h.later
  exact fun r hr => hlater.start (hsteers r hr)

end Steps

end Ledger

/-! ## The gateway's calls -/

section Calls

variable {task : ℕ} {choice : Choice} {w w' : World} {β : Type} {r : β}

/-- A call about no turn request and no count leaves the ledger. -/
theorem plain_ledger {op : Call β} (hop : op.isPlain = true)
    (h : op.answer task choice w = some (r, w')) : w'.ledger = w.ledger := by
  cases op with
  | codex op =>
      simp only [Call.answer] at h
      split at h
      · cases h
      rename_i a supervisor hanswer
      split at h
      · obtain ⟨rfl, rfl⟩ := Prod.mk.inj (Option.some.inj h)
        have hrequests := quiet_requests hop hanswer
        cases op
        case turnStart | turnStarted | turnSteer | turnSteered => cases hop
        all_goals simp only [World.ledger, World.noted, hrequests]
      · cases h
  | gateway op =>
      cases op
      case reserveTurn | releaseTurn => cases hop
      case lockBot user bot =>
        simp only [Call.answer, World.answer] at h
        split at h
        · obtain ⟨-, rfl⟩ := Prod.mk.inj (Option.some.inj h)
          rfl
        · cases h
      case tryLockBot user bot =>
        simp only [Call.answer, World.answer] at h
        split at h <;>
        · obtain ⟨-, rfl⟩ := Prod.mk.inj (Option.some.inj h)
          rfl
      case setThread user bot threadId revision grants =>
        obtain ⟨-, rfl⟩ := Prod.mk.inj (Option.some.inj h)
        unfold World.setThread
        split <;> rfl
      case replaceThread user bot old new revision grants marker =>
        have hw' : (w.replaceThread user bot old new revision grants marker).2 = w' :=
          congrArg Prod.snd (Option.some.inj h)
        rw [← hw']
        unfold World.replaceThread
        split <;> rfl
      case setRunning user run threadId turnId =>
        obtain ⟨-, rfl⟩ := Prod.mk.inj (Option.some.inj h)
        unfold World.setRunning
        dsimp only
        split <;> rfl
      all_goals
        obtain ⟨-, rfl⟩ := Prod.mk.inj (Option.some.inj h)
        rfl

/-- Codex's answer to a call, and what is noted of it. -/
theorem codex_answer {op : CodexCall β} (h : (Call.codex op).answer task choice w = some (r, w')) :
    ∃ supervisor, op.answer task choice w.supervisor = some (r, supervisor) ∧
      w' = ({ w with supervisor } : World).noted task op r := by
  simp only [Call.answer] at h
  split at h
  · cases h
  rename_i a supervisor hanswer
  split at h
  · obtain ⟨rfl, rfl⟩ := Prod.mk.inj (Option.some.inj h)
    exact ⟨supervisor, hanswer, rfl⟩
  · cases h

variable {n : ℕ} {φ : TurnPhase}

theorem moves_plain (hJ : w.ledger.Balanced n) (hK : w.ledger.Backs task φ.hold)
    (hledger : w'.ledger = w.ledger) : Ledger.Moves w.ledger w'.ledger task n φ.hold := by
  rw [hledger]
  exact ⟨hJ, hK, fun _ _ _ h => h, none, .refl⟩

theorem moves_reserveTurn {user bot : ℕ} {r : Except Failure (Option ℕ)}
    (hJ : w.ledger.Balanced n) (htask : task < n) (hK : w.ledger.Backs task φ.hold)
    (hfree : φ.hold = .free) (h : w.reserveTurn task user bot = (r, w')) :
    Ledger.Moves w.ledger w'.ledger task n (φ.after (.gateway (.reserveTurn user bot)) r).hold := by
  unfold World.reserveTurn at h
  split at h
  · obtain ⟨rfl, rfl⟩ := Prod.mk.inj h
    exact moves_plain hJ hK rfl
  · split at h
    · obtain ⟨rfl, rfl⟩ := Prod.mk.inj h
      exact moves_plain hJ hK rfl
    · split at h
      · obtain ⟨rfl, rfl⟩ := Prod.mk.inj h
        exact hJ.moves_reserve htask (hfree ▸ hK) user bot
      · obtain ⟨rfl, rfl⟩ := Prod.mk.inj h
        exact moves_plain hJ hK rfl

/-- What the answer to a turn request makes of the count it was sent for. -/
theorem moves_turnStarted {request user turn : ℕ} {r : Except CodexError String}
    (hJ : w.ledger.Balanced n) (hK : w.ledger.Backs task φ.hold)
    (hsent : φ.hold = .sent user turn request)
    (h : (Call.codex (.turnStarted request)).answer task choice w = some (r, w')) :
    Ledger.Moves w.ledger w'.ledger task n (φ.after (.codex (.turnStarted request)) r).hold := by
  obtain ⟨supervisor, hanswer, rfl⟩ := codex_answer h
  obtain ⟨answer, -, hanswer⟩ := Option.bind_eq_some_iff.mp hanswer
  obtain ⟨sent, hat, hnone, hhonest, hrequests⟩ := answerTurn_some hanswer
  have hlater := later_answer (a := r) hat hnone
  have hlength := List.length_modify (fun sent : TurnRequest => { sent with answer := some r })
    w.supervisor.requests request
  have hanswered : (w.supervisor.requests.modify request fun sent =>
      { sent with answer := some r })[request]? = some { sent with answer := some r } := by
    rw [List.getElem?_modify_eq, hat]
    rfl
  rw [hsent] at hK
  have hkeep (hmay : TurnRequest.MayRun { sent with answer := some r }) :
      Ledger.Moves w.ledger (w.ledger.keep task supervisor.requests) task n .free := by
    rw [hrequests]
    exact hJ.moves_keep hK hlater hlength ⟨_, hanswered, hmay⟩
  cases r with
  | ok turnId =>
      have hturn : sent.turn = some turnId := by simpa [Supervisor.honest] using hhonest
      exact hkeep (.inl ⟨turnId, hturn, rfl⟩)
  | error e =>
      cases e with
      | appServer message => exact hkeep (.inr ⟨message, rfl⟩)
      | rejected message =>
          have hturn : sent.turn = none := by simpa [Supervisor.honest] using hhonest
          have hreject := hJ.moves_reject hK hlater hlength ⟨_, hanswered, hturn, message, rfl⟩
          rw [← hrequests] at hreject
          have hhold : (φ.after (.codex (.turnStarted request))
              (.error (.rejected message))).hold = .rejected user turn request := by
            change φ.hold.reject = _
            rw [hsent]
            rfl
          rw [hhold]
          exact hreject
      | _ => simp [Supervisor.honest] at hhonest

/-- Every call that a task may make keeps the ledger balanced, and what the task holds. -/
theorem moves_answer {op : Call β} (hJ : w.ledger.Balanced n) (htask : task < n)
    (hK : w.ledger.Backs task φ.hold) (hsteers : w.ledger.Steers φ.steered) (hop : φ.Allows op)
    (h : op.answer task choice w = some (r, w')) :
    Ledger.Moves w.ledger w'.ledger task n (φ.after op r).hold ∧
      w'.ledger.Steers (φ.after op r).steered := by
  have hplain (hop : op.isPlain = true) :
      Ledger.Moves w.ledger w'.ledger task n (φ.after op r).hold ∧
        w'.ledger.Steers (φ.after op r).steered := by
    rw [(plain_op hop).2 r]
    have hledger := plain_ledger hop h
    exact ⟨moves_plain hJ hK hledger, hledger ▸ hsteers⟩
  cases op with
  | gateway op =>
      cases op
      case reserveTurn user bot =>
        have hmoves := moves_reserveTurn hJ htask hK hop (Option.some.inj h)
        refine ⟨hmoves, ?_⟩
        have hsame : (φ.after (.gateway (.reserveTurn user bot)) r).steered = φ.steered := by
          obtain _ | _ | turn := r <;> rfl
        rw [hsame]
        exact hmoves.steers hsteers
      case releaseTurn user turn =>
        obtain ⟨-, rfl⟩ := Prod.mk.inj (Option.some.inj h)
        exact ⟨hJ.moves_release hK hop, hsteers⟩
      all_goals exact hplain rfl
  | codex op =>
      cases op
      case turnStart serial params =>
        obtain ⟨user, turn, hreserved⟩ := hop
        obtain ⟨supervisor, hanswer, rfl⟩ := codex_answer h
        obtain ⟨rfl, rfl⟩ := Prod.mk.inj (Option.some.inj hanswer)
        have hmoves := hJ.moves_send (hreserved ▸ hK) serial params
        have hhold : (φ.after (.codex (.turnStart serial params))
            w.supervisor.requests.length).hold =
              .sent user turn w.supervisor.requests.length := by
          change φ.hold.send _ = _
          rw [hreserved]
          rfl
        rw [hhold]
        exact ⟨hmoves, hmoves.steers hsteers⟩
      case turnStarted request =>
        obtain ⟨user, turn, hsent⟩ := hop
        have hmoves := moves_turnStarted hJ hK hsent h
        refine ⟨hmoves, ?_⟩
        have hsame : (φ.after (.codex (.turnStarted request)) r).steered = φ.steered := by
          cases r <;> rfl
        rw [hsame]
        exact hmoves.steers hsteers
      case turnSteer serial params =>
        obtain ⟨supervisor, hanswer, rfl⟩ := codex_answer h
        obtain ⟨rfl, rfl⟩ := Prod.mk.inj (Option.some.inj hanswer)
        refine ⟨hJ.moves_steer hK serial params, fun r hr => ?_⟩
        obtain rfl := Option.some.inj hr
        exact ⟨_, List.getElem?_concat_length, rfl⟩
      case turnSteered request =>
        obtain ⟨supervisor, hanswer, rfl⟩ := codex_answer h
        obtain ⟨answer, -, hanswer⟩ := Option.bind_eq_some_iff.mp hanswer
        obtain ⟨sent, hat, hnone, -, hrequests⟩ := answerTurn_some hanswer
        have hmoves := hJ.moves_steered hK (hop ▸ hsteers) (hrequests ▸ later_answer hat hnone)
          (by rw [hrequests, List.length_modify]; rfl)
        exact ⟨hmoves, fun r hr => by cases hr⟩
      all_goals exact hplain rfl

end Calls

/-! ## Every run -/

section Run

variable {w w' : World} {e : Surroundings} {ps : List (Prog Call Unit)} {n : ℕ}

/-- What a step of the surroundings leaves of the accounting. -/
structure Undisturbed (w w' : World) (n : ℕ) : Prop where
  balanced : w'.ledger.Balanced n
  backs : ∀ task hold, w.ledger.Backs task hold → w'.ledger.Backs task hold
  steers : ∀ steered, w.ledger.Steers steered → w'.ledger.Steers steered

theorem Undisturbed.same (hJ : w.ledger.Balanced n) (h : w'.ledger = w.ledger) :
    Undisturbed w w' n := by
  refine ⟨?_, ?_, ?_⟩ <;> rw [h]
  · exact hJ
  · exact fun _ _ => id
  · exact fun _ => id

/-- No task takes a day to settle the turn that it counted. -/
def Timely (e : Surroundings) (w : World) : Prop :=
  ∀ now, e = .tick now → ∀ c ∈ w.counts, c.standing = .held → now - c.row.time < DAY_MS

/-- What a supervisor's step starts asks for no turn. -/
theorem obeys_supervisor {w w' : Supervisor} {e : Serving.Surroundings}
    {started : List (Prog CodexCall Unit)} (he : ofSupervisor e = true)
    (h : Serving.surroundings w e = some (w', started)) :
    ∀ p ∈ started, discipline.Obeys .idle (p.lift fun op => .codex op) fun _ φ' => φ' = .idle := by
  intro p hp
  cases e with
  | call job =>
      obtain rfl := List.mem_singleton.mp ((surroundings_call h).2 ▸ hp)
      exact obeys_supervisorJob he
  | takes request turn =>
      simp only [Serving.surroundings] at h
      split at h
      · obtain ⟨-, rfl⟩ := Prod.mk.inj (Option.some.inj h)
        cases hp
      · cases h
  | routed =>
      obtain ⟨-, rfl⟩ := Prod.mk.inj (Option.some.inj h)
      cases hp

theorem surroundings_undisturbed (hJ : w.ledger.Balanced n) (htimely : Timely e w)
    (h : w.surroundings e = some (w', ps)) :
    Undisturbed w w' n ∧
      ∀ p ∈ ps, discipline.Obeys .idle p fun _ φ' => φ' = .idle := by
  cases e
  case tick now =>
    simp only [World.surroundings] at h
    split at h
    · rename_i hnow
      obtain ⟨rfl, rfl⟩ := Prod.mk.inj (Option.some.inj h)
      refine ⟨⟨hJ.tick hnow fun c hc hheld => ?_, fun task hold hK => hK.congr rfl, fun _ => id⟩,
        by simp⟩
      exact decide_eq_true (htimely now rfl c hc hheld)
    · cases h
  case call job =>
    have hjob : w'.ledger = w.ledger ∧ ps = [job.prog] := by
      cases job
      case attempt run now at' local' =>
        simp only [World.surroundings] at h
        split at h
        · cases h
        · obtain ⟨rfl, rfl⟩ := Prod.mk.inj (Option.some.inj h)
          exact ⟨rfl, rfl⟩
      all_goals
        obtain ⟨rfl, rfl⟩ := Prod.mk.inj (Option.some.inj h)
        exact ⟨rfl, rfl⟩
    refine ⟨.same hJ hjob.1, fun p hp => ?_⟩
    obtain rfl := List.mem_singleton.mp (hjob.2 ▸ hp)
    exact obeys_job job
  case supervisor e =>
    simp only [World.surroundings] at h
    split at h
    · rename_i he
      obtain ⟨⟨supervisor, started⟩, hstep, h⟩ := Option.map_eq_some_iff.mp h
      obtain ⟨rfl, rfl⟩ := Prod.mk.inj h
      obtain ⟨hlater, hlength⟩ : Later none w.supervisor.requests supervisor.requests ∧ _ :=
        later_surroundings hstep
      refine ⟨⟨hJ.later hlater hlength, fun task hold hK => hK.later hlater fun _ _ hr => hr,
        fun steered hs => hs.later hlater⟩, fun p hp => ?_⟩
      obtain ⟨q, hq, rfl⟩ := List.mem_map.mp hp
      exact obeys_supervisor he hstep q hq
    · cases h
  case prune =>
    obtain ⟨rfl, rfl⟩ := Prod.mk.inj (Option.some.inj h)
    have hledger : w.prune.ledger =
        { w.ledger with turns := w.ledger.turns.filter (isRecent w.ledger.clock) } := by
      simp only [World.ledger, World.prune, Ledger.mk.injEq, true_and, and_true]
      refine List.filter_congr fun row _ => ?_
      exact decide_eq_decide.mpr (by
        simp only [TokenUsage.TURN_WINDOW_MS]
        omega)
    refine ⟨⟨?_, ?_, ?_⟩, by simp⟩
    · rw [hledger]
      exact hJ.prune
    · rw [hledger]
      exact fun task hold hK => hK.congr rfl
    · rw [hledger]
      exact fun _ => id
  case endRun user run state reason =>
    simp only [World.surroundings] at h
    split at h
    · obtain ⟨rfl, rfl⟩ := Prod.mk.inj (Option.some.inj h)
      exact ⟨.same hJ rfl, by simp⟩
    · cases h
  all_goals
    obtain ⟨rfl, rfl⟩ := Prod.mk.inj (Option.some.inj h)
    exact ⟨.same hJ rfl, by simp⟩

/-- A task holds what its phase says. -/
def Backed (w : World) (task : ℕ) (φ : TurnPhase) : Prop :=
  w.ledger.Backs task φ.hold ∧ w.ledger.Steers φ.steered

theorem backed_new (hJ : w.ledger.Balanced n) {task : ℕ} (htask : n ≤ task) :
    Backed w task .idle := by
  refine ⟨List.filter_eq_nil_iff.mpr fun c hc => ?_, fun r hr => by cases hr⟩
  simp only [decide_eq_true_eq, not_and]
  rintro rfl hheld
  exact absurd (hJ.tasks c hc hheld) (by omega)

theorem accounting : (system.guarded (fun _ {_} _ _ => True) Timely).TaskInvariant discipline
    (· = .idle) (fun w n => w.ledger.Balanced n) Backed where
  task := by
    intro w φs i φ β op choice r w' hJ hK hi hop h
    obtain ⟨-, h⟩ := System.guarded_answer.mp h
    have hi' := (List.getElem?_eq_some_iff.mp hi).1
    obtain ⟨hmoves, hsteers⟩ := moves_answer hJ hi' (hK i φ hi).1 (hK i φ hi).2 hop h
    exact ⟨hmoves.balanced, ⟨hmoves.own, hsteers⟩, fun j ψ hij hj =>
      ⟨hmoves.others j ψ.hold hij (hK j ψ hj).1, hmoves.steers (hK j ψ hj).2⟩⟩
  surroundings := by
    intro w φs e w' ps hJ hK h
    obtain ⟨htimely, h⟩ := System.guarded_surroundings.mp h
    obtain ⟨hsame, hps⟩ := surroundings_undisturbed hJ htimely h
    refine ⟨List.replicate ps.length .idle, ?_, ?_, ?_, ?_⟩
    · exact List.forall₂_iff_get.mpr ⟨by simp, fun j hj hj' => by
        simpa using hps _ (List.getElem_mem hj')⟩
    · exact hsame.balanced.mono (Nat.le_add_right ..)
    · exact fun j ψ hj => ⟨hsame.backs j _ (hK j ψ hj).1, hsame.steers _ (hK j ψ hj).2⟩
    · intro j ψ hj
      obtain rfl := List.eq_of_mem_replicate (List.mem_of_getElem? hj)
      exact backed_new hsame.balanced (Nat.le_add_right ..)
  restart := by
    intro w φs w' ps hJ h
    obtain ⟨rfl, rfl⟩ := Prod.mk.inj (Option.some.inj h)
    exact ⟨[], .nil, hJ.cut, fun j ψ hj => by simp at hj⟩

end Run

/-- How the turns that were counted and the requests that were sent stand to each other. -/
structure Accounted (s : State) : Prop where
  /-- No request for a turn is sent but for a count, -/
  counted : ∀ r sent, s.world.supervisor.requests[r]? = some sent → sent.isStart = true →
    ∃ c ∈ s.world.counts, c.request = some r
  /-- and none for the count of another. -/
  once : (s.world.counts.filterMap (·.request)).Nodup
  /-- A turn that Codex started stays counted. -/
  started : ∀ r sent turn, s.world.supervisor.requests[r]? = some sent → sent.isStart = true →
    sent.turn = some turn → ∃ c ∈ s.world.counts, c.request = some r ∧ c.standing ≠ .released
  /-- What is kept is of a turn that started, or of one whose answer was lost. -/
  kept : ∀ c ∈ s.world.counts, c.standing = .kept →
    ∃ r, c.request = some r ∧ ∃ sent, s.world.supervisor.requests[r]? = some sent ∧ sent.MayRun
  /-- What was taken back is of no request, or of one that Codex rejected. -/
  released : ∀ c ∈ s.world.counts, c.standing = .released → ∀ r, c.request = some r →
    ∃ sent, s.world.supervisor.requests[r]? = some sent ∧ sent.Rejected
  /-- A task that has ended holds no count. -/
  held : ∀ c ∈ s.world.counts, c.standing = .held →
    ∃ (β : Type) (op : Call β) (next : β → Prog Call Unit), s.tasks[c.task]? = some (.call op next)
  /-- The allowance's rows of the last day are those counted and not taken back. -/
  stored : ((charged s.world.counts).filter (isRecent s.world.clock)).Perm
    (s.world.turns.filter (isRecent s.world.clock))

theorem balanced_initial : World.start.ledger.Balanced 0 := by
  have hnone : ∀ (P : Count → Prop), ∀ c ∈ World.start.ledger.counts, P c :=
    fun _ _ h => nomatch h
  exact ⟨hnone _, hnone _, List.nodup_nil, fun r sent h => (by cases h), hnone _, hnone _,
    List.nodup_nil, hnone _, hnone _, .refl _⟩

/-- The phases that the tasks are in, whatever order they came to them in. -/
theorem holds_accounting {as : List (Action Choice Surroundings)} {s : State}
    (hrun : Runs.Run (fun s a t => system.step s a = some t ∧
      System.Meets (fun _ {_} _ _ => True) Timely s a) initial as s) :
    System.Holds discipline (· = .idle) (fun w φs => w.ledger.Balanced φs.length ∧
      ∀ j ψ, φs[j]? = some ψ → Backed w j ψ) s :=
  accounting.invariant.run (System.run_guarded hrun)
    ⟨[], .nil, balanced_initial, fun j ψ hj => by simp at hj⟩

/-- In every run in which no task takes a day to settle its count, restarts included: each turn was
counted before it was asked for, and is only taken back if Codex did not start it. -/
theorem turns_accounted {as : List (Action Choice Surroundings)} {s : State}
    (hrun : Runs.Run (fun s a t => system.step s a = some t ∧
      System.Meets (fun _ {_} _ _ => True) Timely s a) initial as s) : Accounted s := by
  obtain ⟨φs, hobeys, hJ, hK⟩ := holds_accounting hrun
  refine ⟨hJ.counted, hJ.once, ?_, hJ.kept, hJ.released, ?_, hJ.stored⟩
  · intro r sent turn hsent hstart hturn
    obtain ⟨c, hc, hr⟩ := hJ.counted r sent hsent hstart
    refine ⟨c, hc, hr, fun hreleased => ?_⟩
    obtain ⟨sent', hsent', hnoTurn, -⟩ := hJ.released c hc hreleased r hr
    rw [Option.some.inj (hsent'.symm.trans hsent), hturn] at hnoTurn
    cases hnoTurn
  · intro c hc hheld
    obtain ⟨hlength, hget⟩ := List.forall₂_iff_get.mp hobeys
    have hlt := hJ.tasks c hc hheld
    have hlt' : c.task < s.tasks.length := hlength ▸ hlt
    have hobey := hget c.task hlt hlt'
    simp only [List.get_eq_getElem] at hobey
    rw [List.getElem?_eq_getElem hlt']
    cases htask : s.tasks[c.task] with
    | call op next => exact ⟨_, op, next, rfl⟩
    | pure a =>
        -- it would have ended holding its count
        rw [htask] at hobey
        have hbacked := (hK c.task _ (List.getElem?_eq_getElem hlt)).1
        rw [show φs[c.task] = .idle from hobey] at hbacked
        have hmem : c ∈ heldBy s.world.counts c.task :=
          Ledger.mem_heldBy.mpr ⟨hc, rfl, hheld⟩
        rw [show heldBy s.world.counts c.task = [] from hbacked] at hmem
        cases hmem

section Example

open Serving (goodConfig goodExpected goodSession)

def ann : AccountRow := ⟨1, "Ann", false, ⟨some 2, none⟩⟩

def rounds (task n : ℕ) : List (Action Choice Surroundings) := List.replicate n (.task task .none)

/-- Ann writes to one of her Bots, whose turn starts, -/
def firstSend : List (Action Choice Surroundings) :=
  [.surroundings (.accounts [ann]), .surroundings (.createBot 1 "Bo" "" "" ∅),
    .surroundings (.createBot 1 "Cy" "" "" ∅), .surroundings (.call (.send ann 1 "Hello"))] ++
  rounds 0 5 ++ [.task 0 (.unit (.ok ()))] ++ rounds 0 2 ++
  [.task 0 (.auth (.ok .link)), .task 0 (.launch (.ok goodExpected)), .task 0 (.unit (.ok ())),
    .task 0 (.config (.ok goodConfig)), .task 0 (.models (.ok ["gpt"]))] ++ rounds 0 4 ++
  [.task 0 (.config (.ok goodConfig)), .task 0 (.thread (.ok goodSession))] ++ rounds 0 9 ++
  [.surroundings (.supervisor (.takes 0 "turn")), .task 0 (.turn (.ok "turn"))]

/-- and then to the other, whose turn Codex rejects. -/
def secondSend : List (Action Choice Surroundings) :=
  [.surroundings (.call (.send ann 2 "Hi"))] ++ rounds 1 5 ++ [.task 1 (.unit (.ok ()))] ++
  rounds 1 3 ++ [.task 1 (.auth (.ok .link))] ++ rounds 1 3 ++
  [.task 1 (.config (.ok goodConfig)),
    .task 1 (.thread (.ok { goodSession with threadId := "thread 2" }))] ++ rounds 1 9 ++
  [.task 1 (.turn (.error (.rejected "no"))), .task 1 .none, .task 1 .none]

def isTick : Action Choice Surroundings → Bool
  | .surroundings (.tick _) => true
  | _ => false

theorem meets_of_not_isTick {s : State} {a : Action Choice Surroundings} (h : (!isTick a) = true) :
    System.Meets (fun _ {_} _ _ => True) Timely s a := by
  cases a with
  | task i choice => exact fun _ _ _ => trivial
  | surroundings e =>
      rintro now rfl
      cases h
  | restart => trivial

theorem turns_accounted_two : ∃ s : State,
    Runs.Run (fun s a t => system.step s a = some t ∧
      System.Meets (fun _ {_} _ _ => True) Timely s a) initial (firstSend ++ secondSend) s ∧
    Accounted s ∧ s.world.counts.map (fun c => (c.request, c.standing)) =
      [(some 0, .kept), (some 1, .released)] := by
  have h : (Runs.exec (fun s a => if !isTick a then system.step s a else none) initial
      (firstSend ++ secondSend)).any (fun s => decide (s.world.counts.map (fun c =>
        (c.request, c.standing)) = [(some 0, .kept), (some 1, .released)])) = true := by
    decide +kernel
  obtain ⟨s, hs, hcounts⟩ := (Option.any_eq_true _ _).mp h
  have hrun : Runs.Run (fun s a t => system.step s a = some t ∧
      System.Meets (fun _ {_} _ _ => True) Timely s a) initial (firstSend ++ secondSend) s :=
    Runs.run_of_exec_checked (fun s a => meets_of_not_isTick) hs
  exact ⟨s, hrun, turns_accounted hrun, of_decide_eq_true hcounts⟩

end Example

end Conversations

end Bokkie
