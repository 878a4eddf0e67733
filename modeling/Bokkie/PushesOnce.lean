import Bokkie.Pushes
import Bokkie.SlidingWindow

/-!
# Pushes are handed over once, and not too many

Whatever the order of notifications, runs' starts and ends, the sender's reading and claiming,
restarts and pruning: a push is claimed at most once, a notification is handed to the push services
by its own push or by its run's but not by both, and a user's pushes in any hour are at most the
limit.
-/

namespace Bokkie.Push

open Accounts (HOUR_MS DAY_MS nextId lt_nextId)
open FetchLimits (bounded ID_CHARS)
open Scheduler (RunState)
open SlidingWindow

variable {t : Tables} {clock now : ℤ} {claims : List Claim} {read : List Queued} {q : Queued}

/-- A push that is in its table, or was claimed. -/
def Known (t : Tables) (claims : List Claim) (q : Queued) : Prop :=
  (∃ p ∈ t.pushes, p.queued = q) ∨ ∃ c ∈ claims, c.push = q

/-- When the user's pushes were claimed. -/
def claimTimes (claims : List Claim) (user : ℕ) : List ℤ :=
  (claims.filter (·.push.user = user)).map (·.time)

/-- What is known of every push, the notifications and the runs. -/
structure Inv (t : Tables) (clock : ℤ) (claims : List Claim) (read : List Queued) : Prop where
  rows : (t.pushes.map (·.queued.id)).Nodup
  -- an id is given out again only a day after the push that had it was queued
  ids : ∀ q q', Known t claims q → Known t claims q' → q.id = q'.id → q.createdAt = q'.createdAt →
    q = q'
  read : ∀ q ∈ read, clock - q.createdAt < DAY_MS → ∃ p ∈ t.pushes, p.queued = q
  -- a claimed push stays claimed, and stays in its table for a day
  claimed : ∀ c ∈ claims, ∀ p ∈ t.pushes, p.queued = c.push →
    p.state.isClaimed = true ∧ p.sentAt = some c.time
  once : (claims.map (·.push)).Nodup
  kept : ∀ c ∈ claims, clock - c.push.createdAt < DAY_MS → ∃ p ∈ t.pushes, p.queued = c.push
  soon : ∀ c ∈ claims, c.time - c.push.createdAt < HOUR_MS
  limited : ∀ user, AtMost HOURLY_LIMIT HOUR_MS (claimTimes claims user)
  runs : (t.runs.map (·.id)).Nodup
  notifications : (t.notifications.map (·.id)).Nodup
  -- a notification has at most one push of its own, and a run at most one, once it has ended
  own : ∀ q, Known t claims q → q.cause = .notify → ∃ i, q.notification = some i ∧
    i < t.nextNotification ∧
    ∀ n ∈ t.notifications, n.id = i → q.user = n.user ∧ q.createdAt = n.createdAt
  ownOnce : ∀ q q', Known t claims q → Known t claims q' → q.cause = .notify →
    q'.cause = .notify → q.notification = q'.notification → q = q'
  ended : ∀ q, Known t claims q → q.cause ≠ .notify → ∃ i, q.run = some i ∧ i < t.nextRun ∧
    ∀ r ∈ t.runs, r.id = i → r.state.isFinished = true
  endedOnce : ∀ q q', Known t claims q → Known t claims q' → q.cause ≠ .notify →
    q'.cause ≠ .notify → q.run = q'.run → q = q'
  -- a run's push carries a notification of the run, and no other run's push carries it
  carried : ∀ q, Known t claims q → q.cause ≠ .notify → ∀ i ∈ q.notification,
    i < t.nextNotification ∧ ∀ n ∈ t.notifications, n.id = i → n.run = q.run
  carriedOnce : ∀ q q', Known t claims q → Known t claims q' → q.cause ≠ .notify →
    q'.cause ≠ .notify → ∀ i, q.notification = some i → q'.notification = some i → q = q'
  -- a notification that a run's push carries is not sent by its own
  merged : ∀ q o, Known t claims q → Known t claims o → q.cause ≠ .notify → o.cause = .notify →
    q.notification = o.notification → (∀ c ∈ claims, c.push ≠ o) ∧
      ∀ p ∈ t.pushes, p.queued = o → p.state = .merged

/-! ## Steps that queue nothing -/

/-- Nothing is queued from `t` to `t'`: a claimed or merged push stays so, one queued in the last
day stays in its table, and notifications and ended runs keep what counts, new ones apart. -/
structure Follows (t t' : Tables) (clock : ℤ) : Prop where
  rows : (t'.pushes.map (·.queued.id)).Nodup
  pushes : ∀ p' ∈ t'.pushes, ∃ p ∈ t.pushes, p.queued = p'.queued ∧
    (p.state.isClaimed = true → p'.state.isClaimed = true ∧ p'.sentAt = p.sentAt) ∧
    (p.state = .merged → p'.state = .merged)
  kept : ∀ p ∈ t.pushes, clock - p.queued.createdAt < DAY_MS →
    ∃ p' ∈ t'.pushes, p'.queued = p.queued
  runs : (t'.runs.map (·.id)).Nodup
  nextRun : t.nextRun ≤ t'.nextRun
  ended : ∀ r' ∈ t'.runs, r'.id < t.nextRun → ∃ r ∈ t.runs, r.id = r'.id ∧
    (r.state.isFinished = true → r'.state.isFinished = true)
  notifications : (t'.notifications.map (·.id)).Nodup
  nextNotification : t.nextNotification ≤ t'.nextNotification
  sent : ∀ n' ∈ t'.notifications, n'.id < t.nextNotification → ∃ n ∈ t.notifications,
    n.id = n'.id ∧ n'.user = n.user ∧ n'.createdAt = n.createdAt ∧
    ∀ r, n.run = some r → n'.run = some r

theorem Known.of_follows {t' : Tables} (hf : Follows t t' clock) (h : Known t' claims q) :
    Known t claims q := by
  rcases h with ⟨p', hp', rfl⟩ | hc
  · obtain ⟨p, hp, hq, -⟩ := hf.pushes p' hp'
    exact .inl ⟨p, hp, hq⟩
  · exact .inr hc

theorem Inv.follows {t' : Tables} (inv : Inv t clock claims read) (hf : Follows t t' clock) :
    Inv t' clock claims read := by
  refine ⟨hf.rows, fun q q' hq hq' => inv.ids q q' (hq.of_follows hf) (hq'.of_follows hf),
    fun q hq hday => ?_, ?_, inv.once, ?_, inv.soon, inv.limited, hf.runs, hf.notifications,
    ?_, ?_, ?_, ?_, ?_, ?_, ?_⟩
  · obtain ⟨p, hp, rfl⟩ := inv.read q hq hday
    exact hf.kept p hp hday
  · intro c hc p' hp' hpc
    obtain ⟨p, hp, hq, hclaimed, -⟩ := hf.pushes p' hp'
    obtain ⟨hstate, hsent⟩ := inv.claimed c hc p hp (hq.trans hpc)
    exact ⟨(hclaimed hstate).1, (hclaimed hstate).2.trans hsent⟩
  · intro c hc hday
    obtain ⟨p, hp, hq⟩ := inv.kept c hc hday
    obtain ⟨p', hp', hq'⟩ := hf.kept p hp (by rwa [hq])
    exact ⟨p', hp', hq'.trans hq⟩
  · intro q hq hcause
    obtain ⟨i, hi, hlt, hof⟩ := inv.own q (hq.of_follows hf) hcause
    refine ⟨i, hi, hlt.trans_le hf.nextNotification, fun n' hn' hid' => ?_⟩
    obtain ⟨n, hn, hid, huser, hat, -⟩ := hf.sent n' hn' (hid' ▸ hlt)
    rw [huser, hat]
    exact hof n hn (hid.trans hid')
  · exact fun q q' hq hq' => inv.ownOnce q q' (hq.of_follows hf) (hq'.of_follows hf)
  · intro q hq hcause
    obtain ⟨i, hi, hlt, hof⟩ := inv.ended q (hq.of_follows hf) hcause
    refine ⟨i, hi, hlt.trans_le hf.nextRun, fun r' hr' hid' => ?_⟩
    obtain ⟨r, hr, hid, hkeeps⟩ := hf.ended r' hr' (hid' ▸ hlt)
    exact hkeeps (hof r hr (hid.trans hid'))
  · exact fun q q' hq hq' => inv.endedOnce q q' (hq.of_follows hf) (hq'.of_follows hf)
  · intro q hq hcause i hi
    obtain ⟨r, hr, -⟩ := inv.ended q (hq.of_follows hf) hcause
    obtain ⟨hlt, hof⟩ := inv.carried q (hq.of_follows hf) hcause i hi
    refine ⟨hlt.trans_le hf.nextNotification, fun n' hn' hid' => ?_⟩
    obtain ⟨n, hn, hid, -, -, hrun⟩ := hf.sent n' hn' (hid' ▸ hlt)
    exact (hrun r ((hof n hn (hid.trans hid')).trans hr)).trans hr.symm
  · exact fun q q' hq hq' => inv.carriedOnce q q' (hq.of_follows hf) (hq'.of_follows hf)
  · intro q o hq ho hqc hoc hsame
    obtain ⟨hnone, hmerged⟩ := inv.merged q o (hq.of_follows hf) (ho.of_follows hf) hqc hoc hsame
    refine ⟨hnone, fun p' hp' hq' => ?_⟩
    obtain ⟨p, hp, hpq, -, hkeeps⟩ := hf.pushes p' hp'
    exact hkeeps (hmerged p hp (hpq.trans hq'))

theorem Inv.later {clock' : ℤ} (inv : Inv t clock claims read) (hle : clock ≤ clock') :
    Inv t clock' claims read :=
  { inv with
    read := fun q hq hday => inv.read q hq (by omega)
    kept := fun c hc hday => inv.kept c hc (by omega) }

/-- Changes to the states of pushes that are not claimed and not merged, or that stay claimed. -/
theorem Inv.follows_settle (inv : Inv t clock claims read) {pushes : List PushRow}
    (f : PushRow → PushRow) (hpushes : pushes = t.pushes.map f)
    (hqueued : ∀ p, (f p).queued = p.queued)
    (hclaimed : ∀ p, p.state.isClaimed = true →
      (f p).state.isClaimed = true ∧ (f p).sentAt = p.sentAt)
    (hmerged : ∀ p, p.state = .merged → (f p).state = .merged) :
    Follows t { t with pushes } clock := by
  have hids : (pushes.map (·.queued.id)) = t.pushes.map (·.queued.id) := by
    rw [hpushes, List.map_map]
    exact List.map_congr_left fun p _ => by simp [hqueued]
  refine ⟨hids ▸ inv.rows, ?_, ?_, inv.runs, le_rfl, fun r hr _ => ⟨r, hr, rfl, id⟩,
    inv.notifications, le_rfl, fun n hn _ => ⟨n, hn, rfl, rfl, rfl, fun _ => id⟩⟩
  · intro p' hp'
    rw [hpushes] at hp'
    obtain ⟨p, hp, rfl⟩ := List.mem_map.mp hp'
    exact ⟨p, hp, (hqueued p).symm, hclaimed p, hmerged p⟩
  · intro p hp _
    exact ⟨f p, hpushes ▸ List.mem_map_of_mem hp, hqueued p⟩

/-! ## A push is queued -/

/-- The push of a notification that no run has, and that no push is for. -/
structure OwnPush (t : Tables) (claims : List Claim) (q : Queued) : Prop where
  cause : q.cause = .notify
  row : ∃ n ∈ t.notifications, n.run = none ∧ q.notification = some n.id ∧ q.user = n.user ∧
    q.createdAt = n.createdAt
  fresh : ∀ q', Known t claims q' → q'.cause = .notify → q'.notification ≠ q.notification

/-- The push of a run that ended and has none, with a notification of the run that is not sent by
its own. -/
structure EndPush (t : Tables) (claims : List Claim) (q : Queued) : Prop where
  cause : q.cause ≠ .notify
  row : ∃ r ∈ t.runs, q.run = some r.id ∧ r.state.isFinished = true
  fresh : ∀ q', Known t claims q' → q'.cause ≠ .notify → q'.run ≠ q.run
  carried : ∀ i ∈ q.notification, ∃ n ∈ t.notifications, n.id = i ∧ n.run = q.run
  alone : ∀ o, Known t claims o → o.cause = .notify → q.notification = o.notification →
    (∀ c ∈ claims, c.push ≠ o) ∧ ∀ p ∈ t.pushes, p.queued = o → p.state = .merged

/-- A table of pushes with one more. -/
def Tables.withPush (t : Tables) (q : Queued) : Tables :=
  { t with pushes := t.pushes ++ [⟨q, .queued, none, none⟩] }

theorem known_withPush {q' : Queued} :
    Known (t.withPush q) claims q' ↔ Known t claims q' ∨ q' = q := by
  simp only [Known, Tables.withPush, List.mem_append, List.mem_singleton, or_and_right, exists_or,
    exists_eq_left]
  constructor
  · rintro ((h | rfl) | h)
    exacts [.inl (.inl h), .inr rfl, .inl (.inr h)]
  · rintro ((h | h) | rfl)
    exacts [.inl (.inl h), .inr h, .inl (.inr rfl)]

theorem eq_of_notification {n n' : NotificationRow} (inv : Inv t clock claims read)
    (hn : n ∈ t.notifications) (hn' : n' ∈ t.notifications) (h : n.id = n'.id) : n = n' :=
  List.inj_on_of_nodup_map inv.notifications hn hn' h

theorem eq_of_run {r r' : RunRow} (inv : Inv t clock claims read) (hr : r ∈ t.runs)
    (hr' : r' ∈ t.runs) (h : r.id = r'.id) : r = r' :=
  List.inj_on_of_nodup_map inv.runs hr hr' h

theorem eq_of_row {p p' : PushRow} (inv : Inv t clock claims read) (hp : p ∈ t.pushes)
    (hp' : p' ∈ t.pushes) (h : p.queued.id = p'.queued.id) : p = p' :=
  List.inj_on_of_nodup_map inv.rows hp hp' h

/-- What no two known pushes have between them, no two have with one more that has it with none. -/
theorem eq_of_known_withPush {R : Queued → Queued → Prop} (hsymm : ∀ {a b}, R a b → R b a)
    (hold : ∀ a b, Known t claims a → Known t claims b → R a b → a = b)
    (hnew : ∀ a, Known t claims a → ¬ R a q) {a b : Queued} (hka : Known (t.withPush q) claims a)
    (hkb : Known (t.withPush q) claims b) (h : R a b) : a = b := by
  rcases known_withPush.mp hka with ha | rfl <;> rcases known_withPush.mp hkb with hb | rfl
  · exact hold a b ha hb h
  · exact absurd h (hnew a ha)
  · exact absurd (hsymm h) (hnew b hb)
  · rfl

theorem OwnPush.own (inv : Inv t clock claims read) (hq : OwnPush t claims q) :
    ∃ i, q.notification = some i ∧ i < t.nextNotification ∧
      ∀ n ∈ t.notifications, n.id = i → q.user = n.user ∧ q.createdAt = n.createdAt := by
  obtain ⟨n, hn, -, hid, huser, hat⟩ := hq.row
  refine ⟨n.id, hid, lt_nextId (List.mem_map_of_mem hn), fun n' hn' hid' => ?_⟩
  obtain rfl := eq_of_notification inv hn' hn hid'
  exact ⟨huser, hat⟩

theorem EndPush.ended (inv : Inv t clock claims read) (hq : EndPush t claims q) :
    ∃ i, q.run = some i ∧ i < t.nextRun ∧ ∀ r ∈ t.runs, r.id = i → r.state.isFinished = true := by
  obtain ⟨r, hr, hrun, hfinished⟩ := hq.row
  refine ⟨r.id, hrun, lt_nextId (List.mem_map_of_mem hr), fun r' hr' hid' => ?_⟩
  exact eq_of_run inv hr' hr hid' ▸ hfinished

theorem EndPush.carries (inv : Inv t clock claims read) (hq : EndPush t claims q) :
    ∀ i ∈ q.notification, i < t.nextNotification ∧
      ∀ n ∈ t.notifications, n.id = i → n.run = q.run := by
  intro i hi
  obtain ⟨n, hn, rfl, hrun⟩ := hq.carried i hi
  refine ⟨lt_nextId (List.mem_map_of_mem hn), fun n' hn' hid' => ?_⟩
  exact eq_of_notification inv hn' hn hid' ▸ hrun

/-- No run's push carries the notification of a push of its own, when that is new. -/
theorem OwnPush.not_carried (inv : Inv t clock claims read) (hq : OwnPush t claims q) {a : Queued}
    (ha : Known t claims a) (hcause : a.cause ≠ .notify) : a.notification ≠ q.notification := by
  intro hsame
  obtain ⟨n, hn, hnone, hid, -⟩ := hq.row
  obtain ⟨r, hr, -⟩ := inv.ended a ha hcause
  have hrun := (inv.carried a ha hcause n.id (hsame.trans hid)).2 n hn rfl
  exact Option.some_ne_none _ (hr.symm.trans (hrun.symm.trans hnone))

/-- A run's push that carries the notification of a new one would be of the same run. -/
theorem EndPush.not_carried (inv : Inv t clock claims read) (hq : EndPush t claims q) {a : Queued}
    (ha : Known t claims a) (hcause : a.cause ≠ .notify) {i : ℕ} (hi : a.notification = some i) :
    q.notification ≠ some i := by
  intro hqi
  obtain ⟨n, hn, rfl, hrun⟩ := hq.carried i hqi
  exact hq.fresh a ha hcause (((inv.carried a ha hcause n.id hi).2 n hn rfl).symm.trans hrun)

/-- A push that was queued within a day is not one that is known, though its id may be. -/
theorem Inv.fresh (inv : Inv t clock claims read) (hid : q.id = t.nextPush)
    (hday : clock - q.createdAt < DAY_MS) {a : Queued} (ha : Known t claims a)
    (hsame : a.id = q.id) : a.createdAt ≠ q.createdAt := by
  have hrow : ∀ p ∈ t.pushes, p.queued.id ≠ q.id := by
    intro p hp
    have hmem : p.queued.id ∈ t.pushes.map (·.queued.id) := List.mem_map.mpr ⟨p, hp, rfl⟩
    rw [hid]
    exact (lt_nextId hmem).ne
  rcases ha with ⟨p, hp, rfl⟩ | ⟨c, hc, rfl⟩
  · exact absurd hsame (hrow p hp)
  · intro hat
    obtain ⟨p, hp, hpc⟩ := inv.kept c hc (hat ▸ hday)
    exact hrow p hp ((congrArg (·.id) hpc).trans hsame)

/-- The new row is not that of a push that was known. -/
theorem Inv.mem_of_withPush (inv : Inv t clock claims read) (hid : q.id = t.nextPush)
    (hday : clock - q.createdAt < DAY_MS) {p : PushRow} (hp : p ∈ (t.withPush q).pushes)
    (hknown : Known t claims p.queued) : p ∈ t.pushes := by
  rcases List.mem_append.mp hp with hp | hp
  · exact hp
  · rw [List.mem_singleton.mp hp] at hknown
    exact absurd rfl (inv.fresh hid hday hknown rfl)

/-- A notification that a run's push carries is still not sent by its own. -/
theorem Inv.merged_withPush (inv : Inv t clock claims read) (hid : q.id = t.nextPush)
    (hday : clock - q.createdAt < DAY_MS) (hq : OwnPush t claims q ∨ EndPush t claims q)
    {a o : Queued} (hka : Known (t.withPush q) claims a) (hko : Known (t.withPush q) claims o)
    (hac : a.cause ≠ .notify) (hoc : o.cause = .notify) (hsame : a.notification = o.notification) :
    (∀ c ∈ claims, c.push ≠ o) ∧
      ∀ p ∈ (t.withPush q).pushes, p.queued = o → p.state = .merged := by
  rcases known_withPush.mp hko with ho | rfl
  · have hapart : (∀ c ∈ claims, c.push ≠ o) ∧
        ∀ p ∈ t.pushes, p.queued = o → p.state = .merged := by
      rcases known_withPush.mp hka with ha | rfl
      · exact inv.merged a o ha ho hac hoc hsame
      · exact (hq.resolve_left fun hq => hac hq.cause).alone o ho hoc hsame
    refine ⟨hapart.1, fun p hp hpo => ?_⟩
    exact hapart.2 p (inv.mem_of_withPush hid hday hp (by rwa [hpo])) hpo
  · have hown := hq.resolve_right fun hq => hq.cause hoc
    rcases known_withPush.mp hka with ha | rfl
    · exact absurd hsame (hown.not_carried inv ha hac)
    · exact absurd hoc hac

theorem Inv.withPush (inv : Inv t clock claims read) (hid : q.id = t.nextPush)
    (hday : clock - q.createdAt < DAY_MS) (hq : OwnPush t claims q ∨ EndPush t claims q) :
    Inv (t.withPush q) clock claims read := by
  have hids : (t.withPush q).pushes.map (·.queued.id) = t.pushes.map (·.queued.id) ++ [q.id] := by
    simp [Tables.withPush]
  have hkept : ∀ {a : Queued}, (∃ p ∈ t.pushes, p.queued = a) →
      ∃ p ∈ (t.withPush q).pushes, p.queued = a := by
    rintro a ⟨p, hp, hpa⟩
    exact ⟨p, List.mem_append_left _ hp, hpa⟩
  have hown : q.cause = .notify → OwnPush t claims q :=
    fun hcause => hq.resolve_right fun hq => hq.cause hcause
  have hend : q.cause ≠ .notify → EndPush t claims q :=
    fun hcause => hq.resolve_left fun hq => hcause hq.cause
  refine ⟨?_, fun a b ha hb hab hat => ?_, fun a ha hday => hkept (inv.read a ha hday), ?_, inv.once,
    fun c hc hday => hkept (inv.kept c hc hday), inv.soon, inv.limited, inv.runs,
    inv.notifications, ?_, fun a b ha hb hac hbc hab => ?_, ?_,
    fun a b ha hb hac hbc hab => ?_, ?_, fun a b ha hb hac hbc i hai hbi => ?_,
    fun a o ha ho => inv.merged_withPush hid hday hq ha ho⟩
  · rw [hids]
    refine inv.rows.append (List.nodup_singleton _) (List.disjoint_singleton.mpr fun hmem => ?_)
    exact (lt_nextId hmem).ne hid
  · refine eq_of_known_withPush (R := fun a b => a.id = b.id ∧ a.createdAt = b.createdAt)
      (fun h => ⟨h.1.symm, h.2.symm⟩) (fun a b ha hb h => inv.ids a b ha hb h.1 h.2)
      (fun a ha h => inv.fresh hid hday ha h.1 h.2) ha hb ⟨hab, hat⟩
  · intro c hc p hp hpc
    exact inv.claimed c hc p (inv.mem_of_withPush hid hday hp (.inr ⟨c, hc, hpc.symm⟩)) hpc
  · intro a ha hcause
    rcases known_withPush.mp ha with ha | rfl
    · exact inv.own a ha hcause
    · exact OwnPush.own (t := t) inv (hown hcause)
  · refine eq_of_known_withPush (R := fun a b => a.cause = .notify ∧ b.cause = .notify ∧
        a.notification = b.notification)
      (fun h => ⟨h.2.1, h.1, h.2.2.symm⟩)
      (fun a b ha hb h => inv.ownOnce a b ha hb h.1 h.2.1 h.2.2)
      (fun a ha h => (hown h.2.1).fresh a ha h.1 h.2.2) ha hb ⟨hac, hbc, hab⟩
  · intro a ha hcause
    rcases known_withPush.mp ha with ha | rfl
    · exact inv.ended a ha hcause
    · exact EndPush.ended (t := t) inv (hend hcause)
  · refine eq_of_known_withPush (R := fun a b => a.cause ≠ .notify ∧ b.cause ≠ .notify ∧
        a.run = b.run)
      (fun h => ⟨h.2.1, h.1, h.2.2.symm⟩)
      (fun a b ha hb h => inv.endedOnce a b ha hb h.1 h.2.1 h.2.2)
      (fun a ha h => (hend h.2.1).fresh a ha h.1 h.2.2) ha hb ⟨hac, hbc, hab⟩
  · intro a ha hcause
    rcases known_withPush.mp ha with ha | rfl
    · exact inv.carried a ha hcause
    · exact EndPush.carries (t := t) inv (hend hcause)
  · refine eq_of_known_withPush (R := fun a b => a.cause ≠ .notify ∧ b.cause ≠ .notify ∧
        a.notification = some i ∧ b.notification = some i)
      (fun h => ⟨h.2.1, h.1, h.2.2.2, h.2.2.1⟩)
      (fun a b ha hb h => inv.carriedOnce a b ha hb h.1 h.2.1 i h.2.2.1 h.2.2.2)
      (fun a ha h => (hend h.2.1).not_carried inv ha h.1 h.2.2.1 h.2.2.2) ha hb
      ⟨hac, hbc, hai, hbi⟩

theorem queue_eq (t : Tables) (now : ℤ) (push : NewPush) :
    t.queue now push = t ∨ ∃ q : Queued, t.queue now push = t.withPush q ∧ q.id = t.nextPush ∧
      q.createdAt = now ∧ q.user = push.user ∧ q.cause = push.cause ∧
      q.notification = push.notification ∧ q.run = push.run := by
  unfold Tables.queue
  dsimp only
  split
  · exact .inr ⟨_, rfl, rfl, rfl, rfl, rfl, rfl, rfl⟩
  · exact .inl rfl

theorem notified_eq (t : Tables) (now : ℤ) (user bot notification : ℕ) (request : Request) :
    t.notified now user bot notification request = t ∨
      ∃ q : Queued, t.notified now user bot notification request = t.withPush q ∧
        q.id = t.nextPush ∧ q.createdAt = now ∧ q.user = user ∧ q.cause = .notify ∧
        q.notification = some notification := by
  unfold Tables.notified
  split
  · exact .inl rfl
  · rcases queue_eq t now _ with h | ⟨q, h, hid, hat, huser, hcause, hnotification, -⟩
    · exact .inl h
    · exact .inr ⟨q, h, hid, hat, huser, hcause, hnotification⟩

/-! ## Notifications -/

theorem Inv.withNotification {n : NotificationRow} (inv : Inv t clock claims read)
    (hid : n.id = t.nextNotification) :
    Inv { t with notifications := t.notifications ++ [n] } clock claims read := by
  refine inv.follows ⟨inv.rows, fun p hp => ⟨p, hp, rfl, fun h => ⟨h, rfl⟩, id⟩,
    fun p hp _ => ⟨p, hp, rfl⟩, inv.runs, le_rfl, fun r hr _ => ⟨r, hr, rfl, id⟩, ?_, ?_, ?_⟩
  · rw [List.map_append, List.map_singleton]
    refine inv.notifications.append (List.nodup_singleton _)
      (List.disjoint_singleton.mpr fun hmem => ?_)
    exact (hid ▸ lt_nextId hmem).false
  · exact hid ▸ (lt_nextId (by simp)).le
  · intro n' hn' hlt
    rcases List.mem_append.mp hn' with hn' | hn'
    · exact ⟨n', hn', rfl, rfl, rfl, fun _ => id⟩
    · rw [List.mem_singleton.mp hn', hid] at hlt
      exact absurd hlt (lt_irrefl _)

/-- A recorded notification is new, and its push is queued unless it is a run's. -/
theorem record_eq {user bot : ℕ} {thread turn : String} {request : Request} {t' : Tables}
    (h : t.record now user bot thread turn request = some (.ok t')) :
    ∃ n : NotificationRow, n.id = t.nextNotification ∧ n.user = user ∧
      n.bot = bot ∧ n.threadId = bounded thread ID_CHARS ∧ n.turnId = bounded turn ID_CHARS ∧
      n.createdAt = now ∧
      (t.notifications.countP fun n' => n'.user = user ∧ n'.bot = bot ∧
        n'.threadId = n.threadId ∧ n'.turnId = n.turnId) < PER_TURN ∧
      (t.notifications.countP fun n' => n'.user = user ∧ now - HOUR_MS < n'.createdAt) <
        PER_HOUR ∧
      ((t' = { t with notifications := t.notifications ++ [n] }) ∨
        n.run = none ∧
          t' = { t with notifications := t.notifications ++ [n] }.notified now user bot n.id
            request) := by
  unfold Tables.record at h
  dsimp only at h
  split at h
  · cases h
  rename_i hturn
  split at h
  · cases h
  rename_i hhour
  split at h
  · refine ⟨⟨t.nextNotification, user, bot, bounded thread ID_CHARS,
      bounded turn ID_CHARS, t.runOfTurn user bot (bounded thread ID_CHARS) (bounded turn ID_CHARS),
      request.kind, request.title, request.body, now⟩, rfl, rfl, rfl, rfl, rfl, rfl,
      not_le.mp hturn, not_le.mp hhour, ?_⟩
    split at h
    · rename_i hrun
      exact .inr ⟨Option.isNone_iff_eq_none.mp hrun, (Except.ok.inj (Option.some.inj h)).symm⟩
    · exact .inl (Except.ok.inj (Option.some.inj h)).symm
  · cases h

theorem Inv.record {user bot : ℕ} {thread turn : String} {request : Request} {t' : Tables}
    (inv : Inv t clock claims read) (hday : clock - now < DAY_MS)
    (h : t.record now user bot thread turn request = some (.ok t')) :
    Inv t' clock claims read := by
  obtain ⟨n, hid, hnuser, -, -, -, hnat, -, -, hrecorded⟩ := record_eq h
  have inv' := inv.withNotification hid
  rcases hrecorded with rfl | ⟨hrun, rfl⟩
  · exact inv'
  rcases notified_eq { t with notifications := t.notifications ++ [n] } now user bot n.id request
    with hqueue | ⟨q, hqueue, hqid, hat, huser, hcause, hnotification⟩
  · rw [hqueue]
    exact inv'
  · rw [hqueue]
    refine inv'.withPush hqid (hat ▸ hday) (.inl ⟨hcause, ⟨n, by simp, hrun, hnotification,
      huser.trans hnuser.symm, hat.trans hnat.symm⟩, ?_⟩)
    -- what is known is about notifications that were there before
    intro q' hq' hcause' hsame
    obtain ⟨i, hi, hlt, -⟩ := inv.own q' hq' hcause'
    rw [hsame, hnotification, Option.some.injEq] at hi
    exact hlt.ne (hi.symm.trans hid)

theorem follows_attributeToRun (inv : Inv t clock claims read) (user bot : ℕ)
    (thread turn : String) (run : ℕ) :
    Follows t (t.attributeToRun user bot thread turn run) clock := by
  have hids : (t.attributeToRun user bot thread turn run).notifications.map (·.id) =
      t.notifications.map (·.id) := by
    rw [Tables.attributeToRun, List.map_map]
    refine List.map_congr_left fun n _ => ?_
    simp only [Function.comp]
    split <;> rfl
  refine ⟨inv.rows, fun p hp => ⟨p, hp, rfl, fun h => ⟨h, rfl⟩, id⟩,
    fun p hp _ => ⟨p, hp, rfl⟩, inv.runs, le_rfl, fun r hr _ => ⟨r, hr, rfl, id⟩, ?_, ?_, ?_⟩
  · rw [hids]
    exact inv.notifications
  · rw [Tables.nextNotification, Tables.nextNotification, hids]
  · intro n' hn' _
    obtain ⟨n, hn, rfl⟩ := List.mem_map.mp hn'
    refine ⟨n, hn, ?_⟩
    split
    · rename_i hnone
      exact ⟨rfl, rfl, rfl, fun r hr => by simp [hnone.2.2.2.2] at hr⟩
    · exact ⟨rfl, rfl, rfl, fun _ => id⟩

/-! ## Runs -/

/-- The table of runs with one of them changed. -/
def Tables.withRun (t : Tables) (run : RunRow) : Tables :=
  { t with runs := t.runs.map fun r : RunRow => if r.id = run.id then run else r }

theorem mem_withRun {run run' : RunRow} (hrun : run ∈ t.runs) (hid : run'.id = run.id) :
    run' ∈ (t.withRun run').runs :=
  List.mem_map.mpr ⟨run, hrun, by simp [hid]⟩

/-- A run that has not ended changes. -/
theorem Inv.follows_withRun {run : RunRow} (run' : RunRow) (inv : Inv t clock claims read)
    (hrun : run ∈ t.runs) (hid : run'.id = run.id) (hlive : run.state.isFinished = false) :
    Follows t (t.withRun run') clock := by
  have hids : (t.withRun run').runs.map (·.id) = t.runs.map (·.id) := by
    rw [Tables.withRun, List.map_map]
    refine List.map_congr_left fun r _ => ?_
    simp only [Function.comp]
    split
    · rename_i h
      exact h.symm ▸ rfl
    · rfl
  refine ⟨inv.rows, fun p hp => ⟨p, hp, rfl, fun h => ⟨h, rfl⟩, id⟩,
    fun p hp _ => ⟨p, hp, rfl⟩, ?_, ?_, ?_, inv.notifications, le_rfl,
    fun n hn _ => ⟨n, hn, rfl, rfl, rfl, fun _ => id⟩⟩
  · rw [hids]
    exact inv.runs
  · rw [Tables.nextRun, Tables.nextRun, hids]
  · intro r' hr' _
    obtain ⟨r, hr, rfl⟩ := List.mem_map.mp hr'
    refine ⟨r, hr, ?_⟩
    split
    · rename_i h
      refine ⟨h, fun hfinished => ?_⟩
      rw [eq_of_run inv hr hrun (h.trans hid), hlive] at hfinished
      cases hfinished
    · exact ⟨rfl, id⟩

theorem Inv.setRunning {user id : ℕ} {thread turn : String} {t' : Tables}
    (inv : Inv t clock claims read) (h : t.setRunning user id thread turn = some t') :
    Inv t' clock claims read := by
  obtain ⟨run, hfind, rfl⟩ := Option.map_eq_some_iff.mp h
  have hwaiting := List.find?_some hfind
  simp only [decide_eq_true_eq] at hwaiting
  have hrun := List.mem_of_find?_eq_some hfind
  have inv' := inv.follows (inv.follows_withRun { run with
    state := .running, threadId := some thread, turnId := some turn, reason := none } hrun rfl
    (by rw [hwaiting.2.2]; rfl))
  have := inv'.follows (follows_attributeToRun inv' user run.bot thread turn id)
  simpa only [Tables.withRun, hwaiting.1] using this

theorem Inv.setDeadlinePassed (inv : Inv t clock claims read) (user id : ℕ) :
    Inv (t.setDeadlinePassed user id) clock claims read := by
  have hids : (t.setDeadlinePassed user id).runs.map (·.id) = t.runs.map (·.id) := by
    rw [Tables.setDeadlinePassed, List.map_map]
    refine List.map_congr_left fun r _ => ?_
    simp only [Function.comp]
    split <;> rfl
  refine inv.follows ⟨inv.rows, fun p hp => ⟨p, hp, rfl, fun h => ⟨h, rfl⟩, fun h => h⟩,
    fun p hp _ => ⟨p, hp, rfl⟩, ?_, ?_, fun r' hr' _ => ?_, inv.notifications, le_rfl,
    fun n hn _ => ⟨n, hn, rfl, rfl, rfl, fun _ hr => hr⟩⟩
  · rw [hids]
    exact inv.runs
  · rw [Tables.nextRun, Tables.nextRun, hids]
  · obtain ⟨r, hr, rfl⟩ := List.mem_map.mp hr'
    refine ⟨r, hr, ?_⟩
    split <;> exact ⟨rfl, fun h => h⟩

theorem Inv.same {t' : Tables} (inv : Inv t clock claims read) (hpushes : t'.pushes = t.pushes)
    (hruns : t'.runs = t.runs) (hnotifications : t'.notifications = t.notifications) :
    Inv t' clock claims read := by
  refine inv.follows ⟨?_, fun p hp => ⟨p, hpushes ▸ hp, rfl, fun h => ⟨h, rfl⟩, id⟩,
    fun p hp _ => ⟨p, hpushes ▸ hp, rfl⟩, hruns ▸ inv.runs, ?_,
    fun r hr _ => ⟨r, hruns ▸ hr, rfl, id⟩, hnotifications ▸ inv.notifications, ?_,
    fun n hn _ => ⟨n, hnotifications ▸ hn, rfl, rfl, rfl, fun _ => id⟩⟩
  · rw [hpushes]
    exact inv.rows
  · rw [Tables.nextRun, Tables.nextRun, hruns]
  · rw [Tables.nextNotification, Tables.nextNotification, hnotifications]

theorem countOutcome_same (t : Tables) (run : RunRow) (failed : Bool) :
    (t.countOutcome run failed).1.pushes = t.pushes ∧
      (t.countOutcome run failed).1.runs = t.runs ∧
      (t.countOutcome run failed).1.notifications = t.notifications := by
  unfold Tables.countOutcome
  split
  · exact ⟨rfl, rfl, rfl⟩
  · dsimp only
    split
    · exact ⟨rfl, rfl, rfl⟩
    · split <;> exact ⟨rfl, rfl, rfl⟩

theorem mem_runNotification {run : RunRow} {n : NotificationRow}
    (h : t.runNotification run = some n) :
    n ∈ t.notifications ∧ n.user = run.user ∧ n.run = some run.id := by
  have hmem : n ∈ t.notifications.filter fun n => n.user = run.user ∧ n.run = some run.id := by
    simp only [Tables.runNotification, Option.orElse_eq_orElse, Option.orElse_eq_or,
      Option.or_eq_some_iff] at h
    rcases h with h | ⟨-, h⟩
    · exact List.mem_of_mem_filter (List.argmax_mem h)
    · exact List.argmax_mem h
  obtain ⟨hn, hof⟩ := List.mem_filter.mp hmem
  exact ⟨hn, of_decide_eq_true hof⟩

/-- The push for a run's end carries the run's notification or none. -/
theorem endMessage_eq {run : RunRow} {routine : RoutineRow} {state : RunState} {paused : Bool}
    {carried : Option NotificationRow} {line : Option Text} {message : Tables.Message}
    (h : t.endMessage run routine state paused carried line = some message) :
    message.cause ≠ .notify ∧ ∀ i ∈ message.notification, ∃ n, carried = some n ∧ n.id = i := by
  have hcarries : ∀ cause text, cause ≠ .notify →
      (Tables.withCarried carried cause text).cause ≠ .notify ∧
        ∀ i ∈ (Tables.withCarried carried cause text).notification,
          ∃ n, carried = some n ∧ n.id = i := by
    intro cause text hcause
    cases carried with
    | none => exact ⟨hcause, by simp [Tables.withCarried]⟩
    | some n => exact ⟨hcause, by simp [Tables.withCarried]⟩
  have hcarried : ∀ n, carried = some n → message = Tables.carriedMessage n →
      message.cause ≠ .notify ∧ ∀ i ∈ message.notification, ∃ n, carried = some n ∧ n.id = i := by
    rintro n hn rfl
    exact ⟨by simp [Tables.carriedMessage], by simp [Tables.carriedMessage, hn]⟩
  cases state with
  | waiting | running | skipped => cases h
  | failed | interrupted =>
      simp only [Tables.endMessage] at h
      split at h
      · obtain ⟨n, hn, hm⟩ := Option.map_eq_some_iff.mp h
        exact hcarried n hn hm.symm
      · split at h
        · exact Option.some.inj h ▸ hcarries _ _ (by simp)
        · exact Option.some.inj h ▸ hcarries _ _ (by simp)
  | succeeded =>
      simp only [Tables.endMessage] at h
      split at h
      · exact hcarried _ rfl (Option.some.inj h).symm
      · split at h
        · rw [← Option.some.inj h]
          exact ⟨by simp, by simp⟩
        · cases h
  | missed =>
      simp only [Tables.endMessage] at h
      split at h
      · rw [← Option.some.inj h]
        exact ⟨by simp, by simp⟩
      · cases h

/-- What the end of a run queues. -/
theorem runEnded_eq (t : Tables) (now : ℤ) (run : RunRow) (state : RunState) (paused : Bool)
    (line : Option Text) :
    t.runEnded now run state paused line = t.mergeQueued now run ∨
      ∃ q : Queued, t.runEnded now run state paused line = (t.mergeQueued now run).withPush q ∧
        q.id = (t.mergeQueued now run).nextPush ∧ q.createdAt = now ∧ q.cause ≠ .notify ∧
        q.run = some run.id ∧
        ∀ i ∈ q.notification, ∃ n ∈ t.notifications, n.id = i ∧ n.user = run.user ∧
          n.run = some run.id ∧ (t.mergeQueued now run).sentAlone run.user i = false := by
  unfold Tables.runEnded
  dsimp only
  generalize hmerge : t.mergeQueued now run = u
  have hn : u.notifications = t.notifications := hmerge ▸ rfl
  cases u.botName run.user run.bot with
  | none => exact .inl rfl
  | some name =>
  cases u.routineOfUser run.user run.routine with
  | none => exact .inl rfl
  | some routine =>
  dsimp only
  generalize hcarried : (if state = .missed then none
    else (u.runNotification run).filter fun n => !u.sentAlone run.user n.id) = carried
  cases hmessage : u.endMessage run routine state paused carried line with
  | none => exact .inl rfl
  | some message =>
  obtain ⟨hcause, hof⟩ := endMessage_eq hmessage
  refine (queue_eq u now _).imp id ?_
  rintro ⟨q, hq, hid, hat, -, hqcause, hqn, hqrun⟩
  refine ⟨q, hq, hid, hat, hqcause ▸ hcause, hqrun, fun i hi => ?_⟩
  obtain ⟨n, hsome, rfl⟩ := hof i (hqn.symm.trans hi)
  rw [hsome] at hcarried
  split at hcarried
  · cases hcarried
  · obtain ⟨hrun, halone⟩ := Option.filter_eq_some_iff.mp hcarried
    obtain ⟨hmem, huser, hrun⟩ := mem_runNotification hrun
    exact ⟨n, hn ▸ hmem, rfl, huser, hrun, by simpa using halone⟩

theorem follows_mergeQueued (inv : Inv t clock claims read) (now : ℤ) (run : RunRow) :
    Follows t (t.mergeQueued now run) clock := by
  refine inv.follows_settle _ rfl (fun p => ?_) (fun p hclaimed => ?_) (fun p hmerged => ?_)
  · split <;> rfl
  · split
    · rename_i hqueued
      rw [hqueued.2.1] at hclaimed
      cases hclaimed
    · exact ⟨hclaimed, rfl⟩
  · split
    · rfl
    · exact hmerged

theorem Inv.runEnded {run : RunRow} {state : RunState} {paused : Bool} {line : Option Text}
    (inv : Inv t clock claims read)
    (hrun : ∃ r ∈ t.runs, r.id = run.id ∧ r.state.isFinished = true)
    (hfresh : ∀ q, Known t claims q → q.cause ≠ .notify → q.run ≠ some run.id)
    (hnow : clock - now < DAY_MS)
    (hday : ∀ n ∈ t.notifications, n.run = some run.id → clock - n.createdAt < DAY_MS) :
    Inv (t.runEnded now run state paused line) clock claims read := by
  have hfollows := follows_mergeQueued inv now run
  have inv' := inv.follows hfollows
  rcases runEnded_eq t now run state paused line with
    h | ⟨q, h, hid, hat, hcause, hqrun, hcarried⟩
  · exact h ▸ inv'
  rw [h]
  obtain ⟨r, hr, hrid, hfinished⟩ := hrun
  refine inv'.withPush hid (hat ▸ hnow) (.inr ⟨hcause, ⟨r, hr, hrid ▸ hqrun, hfinished⟩, ?_, ?_, ?_⟩)
  · exact fun q' hq' hcause' => hqrun ▸ hfresh q' (hq'.of_follows hfollows) hcause'
  · intro i hi
    obtain ⟨n, hn, hni, -, hnrun, -⟩ := hcarried i hi
    exact ⟨n, hn, hni, hnrun.trans hqrun.symm⟩
  · intro o ho hoc hsame
    obtain ⟨i, hon, -, hown⟩ := inv'.own o ho hoc
    obtain ⟨n, hn, rfl, huser, hnrun, halone⟩ := hcarried i (hsame.trans hon)
    obtain ⟨hou, hoat⟩ := hown n hn rfl
    have hmerged : ∀ p ∈ (t.mergeQueued now run).pushes, p.queued = o → p.state = .merged := by
      intro p hp hpo
      have := List.any_eq_false.mp halone p hp
      rw [hpo] at this
      simpa [hou.trans huser, hon, hoc] using this
    refine ⟨fun c hc hco => ?_, hmerged⟩
    obtain ⟨p, hp, hpc⟩ := inv'.kept c hc (by rw [hco, hoat]; exact hday n hn hnrun)
    obtain ⟨hclaimed, -⟩ := inv'.claimed c hc p hp hpc
    rw [hmerged p hp (hpc.trans hco)] at hclaimed
    cases hclaimed

theorem Inv.endRun {user id : ℕ} {state : RunState} {reason : Option String}
    {states : List RunState} {line : Option Text} {t' : Tables} (inv : Inv t clock claims read)
    (hstate : state.isFinished = true) (hstates : ∀ s ∈ states, s.isFinished = false)
    (hnow : clock - now < DAY_MS)
    (hday : ∀ n ∈ t.notifications, n.run = some id → clock - n.createdAt < DAY_MS)
    (h : t.endRun now user id state reason states line = some t') :
    Inv t' clock claims read := by
  obtain ⟨run, hfind, rfl⟩ := Option.map_eq_some_iff.mp h
  have hof := List.find?_some hfind
  simp only [decide_eq_true_eq] at hof
  obtain ⟨rfl, -, hlive⟩ := hof
  have hrun := List.mem_of_find?_eq_some hfind
  dsimp only
  set ended : RunRow := { run with state, reason } with hended
  have hwith := inv.follows_withRun ended hrun rfl (hstates _ hlive)
  have inv' := inv.follows hwith
  -- the counting changes the routine only
  generalize hcount : (Tables.outcome ended state).elim (t.withRun ended, false)
    ((t.withRun ended).countOutcome ended) = counted
  have hsame : counted.1.pushes = t.pushes ∧ counted.1.runs = (t.withRun ended).runs ∧
      counted.1.notifications = t.notifications := by
    rw [← hcount]
    cases Tables.outcome ended state with
    | none => exact ⟨rfl, rfl, rfl⟩
    | some failed => exact countOutcome_same (t.withRun ended) ended failed
  have inv'' : Inv counted.1 clock claims read := inv'.same hsame.1 hsame.2.1 hsame.2.2
  have hknown : ∀ q, Known counted.1 claims q → Known t claims q := by
    intro q hq
    rwa [Known, hsame.1] at hq
  have hend : Inv (counted.1.runEnded now ended state counted.2 line) clock claims read := by
    refine inv''.runEnded ⟨ended, hsame.2.1 ▸ mem_withRun hrun rfl, rfl, hstate⟩ ?_ hnow ?_
    · -- no push of the run's is there, for it had not ended
      intro q hq hcause hqrun
      obtain ⟨i, hi, -, hfinished⟩ := inv.ended q (hknown q hq) hcause
      have := hfinished run hrun (Option.some.inj (hqrun.symm.trans hi))
      rw [hstates _ hlive] at this
      cases this
    · exact fun n hn hnrun => hday n (hsame.2.2 ▸ hn) hnrun
  rw [← hcount] at hend
  exact hend

/-! ## The sender -/

/-- A change to the state of a push that is neither claimed nor merged, or that keeps it claimed. -/
theorem Inv.settle (inv : Inv t clock claims read) (id : ℕ) (state : PushState)
    {f : PushRow → PushRow} (hqueued : ∀ p, (f p).queued = p.queued) (hstate : state ≠ .merged)
    (hclaimed : state.isClaimed = true → ∀ p, (f p).state.isClaimed = true ∧
      (f p).sentAt = p.sentAt) :
    Inv (t.settle id state f) clock claims read := by
  refine inv.follows (inv.follows_settle _ rfl (fun p => ?_) (fun p hp => ?_) (fun p hp => ?_))
  · split
    · exact hqueued p
    · rfl
  · split
    · rename_i hof
      exact hclaimed (hof.2 ▸ hp) p
    · exact ⟨hp, rfl⟩
  · split
    · rename_i hof
      exact absurd (hof.2.symm.trans hp) hstate
    · exact hp

theorem Inv.recover (inv : Inv t clock claims read) (now : ℤ) :
    Inv (t.recover now) clock claims read := by
  refine inv.follows (inv.follows_settle _ rfl (fun p => ?_) (fun p hp => ?_) (fun p hp => ?_))
  · split <;> rfl
  · split
    · exact ⟨rfl, rfl⟩
    · exact ⟨hp, rfl⟩
  · split
    · rename_i hsending
      exact absurd (hsending.symm.trans hp) (by simp)
    · exact hp

theorem Inv.prune (inv : Inv t clock claims read) : Inv (t.prune clock) clock claims read := by
  refine inv.follows ⟨?_, fun p hp => ?_, fun p hp hday => ⟨p, ?_, rfl⟩, inv.runs,
    le_rfl, fun r hr _ => ⟨r, hr, rfl, id⟩, inv.notifications, le_rfl,
    fun n hn _ => ⟨n, hn, rfl, rfl, rfl, fun _ => id⟩⟩
  · exact inv.rows.sublist (List.filter_sublist.map _)
  · exact ⟨p, List.mem_of_mem_filter hp, rfl, fun h => ⟨h, rfl⟩, id⟩
  · refine List.mem_filter.mpr ⟨hp, ?_⟩
    have hnot : ¬ p.queued.createdAt ≤ clock - RETENTION_MS := by
      simp only [RETENTION_MS]
      omega
    simp [hnot]

/-- Notifications and runs are deleted, the newest apart. -/
theorem Inv.deleted {t' : Tables} (inv : Inv t clock claims read) (hpushes : t'.pushes = t.pushes)
    (hruns : t'.runs.Sublist t.runs) (hnotifications : t'.notifications.Sublist t.notifications)
    (hnextRun : t'.nextRun = t.nextRun) (hnext : t'.nextNotification = t.nextNotification) :
    Inv t' clock claims read := by
  exact inv.follows ⟨hpushes ▸ inv.rows, fun p hp => ⟨p, hpushes ▸ hp, rfl,
    fun h => ⟨h, rfl⟩, id⟩, fun p hp _ => ⟨p, hpushes ▸ hp, rfl⟩, inv.runs.sublist (hruns.map _),
    hnextRun.ge, fun r hr _ => ⟨r, hruns.subset hr, rfl, id⟩,
    inv.notifications.sublist (hnotifications.map _), hnext.ge,
    fun n hn _ => ⟨n, hnotifications.subset hn, rfl, rfl, rfl, fun _ => id⟩⟩

theorem Inv.readPage (inv : Inv t clock claims read) (after : ℕ) :
    Inv t clock claims (read ++ t.page after) := by
  refine { inv with read := fun q hq hday => ?_ }
  rcases List.mem_append.mp hq with hq | hq
  · exact inv.read q hq hday
  · obtain ⟨p, hp, rfl⟩ := List.mem_map.mp (List.mem_of_mem_take hq)
    exact ⟨p, List.mem_of_mem_filter hp, rfl⟩

theorem Inv.restart (inv : Inv t clock claims read) : Inv t clock claims [] :=
  { inv with read := by simp }

/-- What counts against the hour is in the table: at least as much as was claimed in it. -/
theorem Inv.live_le_recent {w : World} {user : ℕ}
    (inv : Inv w.tables w.clock w.claims w.read) (hsoon : w.clock - now ≤ HOUR_MS) :
    (live HOUR_MS now (claimTimes w.claims user)).length ≤ w.recent now user := by
  have hlive : live HOUR_MS now (claimTimes w.claims user) =
      (w.claims.filter fun c => c.push.user = user ∧ now - c.time < HOUR_MS).map (·.time) := by
    rw [live, claimTimes, List.filter_map, List.filter_filter]
    congr 1
    refine List.filter_congr fun c _ => ?_
    simp [Bool.and_comm]
  rw [hlive, List.length_map, World.recent, List.countP_eq_length_filter,
    ← List.length_map (·.push), ← List.length_map PushRow.queued]
  refine List.Subperm.length_le (List.subperm_of_subset
    (inv.once.sublist (List.filter_sublist.map _)) fun q hq => ?_)
  obtain ⟨c, hc, rfl⟩ := List.mem_map.mp hq
  obtain ⟨hc, hcounts⟩ := List.mem_filter.mp hc
  obtain ⟨huser, hhour⟩ := of_decide_eq_true hcounts
  have hc' := inv.soon c hc
  have hday : 3 * HOUR_MS < DAY_MS := by decide
  obtain ⟨p, hp, hpc⟩ := inv.kept c hc (by omega)
  obtain ⟨hclaimed, hsent⟩ := inv.claimed c hc p hp hpc
  refine List.mem_map.mpr ⟨p, List.mem_filter.mpr ⟨hp, ?_⟩, hpc⟩
  simp only [hpc, huser, hclaimed, hsent, Option.any_some, decide_eq_true_eq, true_and]
  omega

/-- A push is sent in its first hour, and while the hour has fewer than the limit. -/
theorem send_inv {w : World} {push : Queued} (h : w.decide' now push = .send) :
    now - push.createdAt < HOUR_MS ∧ w.recent now push.user < HOURLY_LIMIT := by
  unfold World.decide' at h
  split at h
  · cases h
  rename_i hexpired
  iterate 5
    split at h
    · cases h
  split at h
  · cases h
  · rename_i hlimited
    exact ⟨not_le.mp hexpired, not_le.mp hlimited⟩

/-- A row that was claimed at `now` and that no claim was of. -/
theorem Inv.withClaim {p : PushRow} (inv : Inv t clock claims read) (hp : p ∈ t.pushes)
    (hclaimed : p.state.isClaimed = true) (hsent : p.sentAt = some now)
    (hnew : ∀ c ∈ claims, c.push ≠ p.queued) (hsoon : now - p.queued.createdAt < HOUR_MS)
    (hlimit : (live HOUR_MS now (claimTimes claims p.queued.user)).length < HOURLY_LIMIT) :
    Inv t clock (claims ++ [⟨p.queued, now⟩]) read := by
  have hmem : ∀ c ∈ claims ++ [⟨p.queued, now⟩], c ∈ claims ∨ c = ⟨p.queued, now⟩ := by simp
  have hknown : ∀ q, Known t (claims ++ [⟨p.queued, now⟩]) q → Known t claims q := by
    rintro q (hq | ⟨c, hc, rfl⟩)
    · exact .inl hq
    · rcases hmem c hc with hc | rfl
      · exact .inr ⟨c, hc, rfl⟩
      · exact .inl ⟨p, hp, rfl⟩
  refine ⟨inv.rows, fun q q' hq hq' => inv.ids q q' (hknown q hq) (hknown q' hq'),
    inv.read, fun c hc p' hp' hpc => ?_, ?_, fun c hc hday => ?_, fun c hc => ?_, fun user => ?_,
    inv.runs, inv.notifications, fun q hq => inv.own q (hknown q hq),
    fun q q' hq hq' => inv.ownOnce q q' (hknown q hq) (hknown q' hq'),
    fun q hq => inv.ended q (hknown q hq),
    fun q q' hq hq' => inv.endedOnce q q' (hknown q hq) (hknown q' hq'),
    fun q hq => inv.carried q (hknown q hq),
    fun q q' hq hq' => inv.carriedOnce q q' (hknown q hq) (hknown q' hq'),
    fun q o hq ho hqc hoc hsame => ?_⟩
  · rcases hmem c hc with hc | rfl
    · exact inv.claimed c hc p' hp' hpc
    · obtain rfl := eq_of_row inv hp' hp (congrArg (·.id) hpc)
      exact ⟨hclaimed, hsent⟩
  · rw [List.map_append, List.map_singleton]
    refine inv.once.append (List.nodup_singleton _) (List.disjoint_singleton.mpr fun hmem' => ?_)
    obtain ⟨c, hc, hcp⟩ := List.mem_map.mp hmem'
    exact hnew c hc hcp
  · rcases hmem c hc with hc | rfl
    · exact inv.kept c hc hday
    · exact ⟨p, hp, rfl⟩
  · rcases hmem c hc with hc | rfl
    · exact inv.soon c hc
    · exact hsoon
  · rw [claimTimes, List.filter_append, List.map_append]
    by_cases huser : p.queued.user = user
    · rw [List.filter_cons_of_pos (by simpa using huser)]
      exact (inv.limited user).push (huser ▸ hlimit)
    · rw [List.filter_cons_of_neg (by simpa using huser), List.filter_nil, List.map_nil,
        List.append_nil]
      exact inv.limited user
  · obtain ⟨hnone, hmerged⟩ := inv.merged q o (hknown q hq) (hknown o ho) hqc hoc hsame
    refine ⟨fun c hc hco => ?_, hmerged⟩
    rcases hmem c hc with hc | rfl
    · exact hnone c hc hco
    · rw [hmerged p hp hco] at hclaimed
      cases hclaimed

theorem Inv.claim {w : World} {push : Queued} (inv : Inv w.tables w.clock w.claims w.read)
    (hread : push ∈ w.read) (hsoon : w.clock - now ≤ HOUR_MS) :
    Inv (w.claim push now).tables (w.claim push now).clock (w.claim push now).claims
      (w.claim push now).read := by
  unfold World.claim
  cases hdecide : w.decide' now push with
  | drop state => exact inv.settle push.id .queued (fun _ => rfl) (by simp) (fun h => by cases h)
  | send =>
    dsimp only
    split
    · rename_i hrow
      obtain ⟨p, hp, hof⟩ := List.any_eq_true.mp hrow
      obtain ⟨hid, hqueued⟩ := of_decide_eq_true hof
      obtain ⟨hhour, hrecent⟩ := send_inv hdecide
      -- what was read an hour or two ago is still there, and the row is its own
      have hhours : 2 * HOUR_MS ≤ DAY_MS := by decide
      obtain ⟨p', hp', rfl⟩ := inv.read push hread (by omega)
      obtain rfl := eq_of_row inv hp hp' hid
      have inv' := inv.settle p.queued.id .queued
        (f := fun p => { p with state := .sending, sentAt := some now }) (fun _ => rfl) (by simp)
        (fun h => by cases h)
      refine inv'.withClaim (p := { p with state := .sending, sentAt := some now }) ?_ rfl rfl
        (fun c hc hcp => ?_) hhour ((inv.live_le_recent hsoon).trans_lt hrecent)
      · exact List.mem_map.mpr ⟨p, hp, if_pos ⟨rfl, hqueued⟩⟩
      · have := (inv.claimed c hc p hp hcp.symm).1
        rw [hqueued] at this
        cases this
    · exact inv

/-! ## Runs of the gateway -/

/-- An empty database, nothing being sent. -/
def World.start (sending : Bool) : World :=
  ⟨⟨[], [], [], [], [], []⟩, [], .new, 0, sending, [], [], []⟩

/-- Claiming takes at most an hour, and recording less than a day; a run ends within a day of its
notifications; and the newest notification and run are not deleted, so that their ids are not given
out again. -/
def World.isTimely (w : World) : Action → Bool
  | .claim _ now => w.clock - now ≤ HOUR_MS
  | .record now _ _ _ _ _ => w.clock - now < DAY_MS
  | .endRun now _ run _ _ _ _ => w.clock - now < DAY_MS ∧
    w.tables.notifications.all fun n => n.run = some run → w.clock - n.createdAt < DAY_MS
  | .pruneNotifications =>
    (w.tables.pruneNotifications w.clock).nextNotification = w.tables.nextNotification
  | .pruneRuns => (w.tables.pruneRuns w.clock).nextRun = w.tables.nextRun
  | .deleteRoutine user bot routine =>
    (w.tables.deleteRoutine user bot routine).all fun t => t.nextRun = w.tables.nextRun
  | _ => true

/-- The steps that come in time. -/
def World.TimelyStep (w : World) (a : Action) (w' : World) : Prop :=
  w.step a = some w' ∧ w.isTimely a = true

/-- What a step keeps. -/
theorem Inv.step {w w' : World} {a : Action} (h : w.TimelyStep a w')
    (inv : Inv w.tables w.clock w.claims w.read) :
    Inv w'.tables w'.clock w'.claims w'.read := by
  obtain ⟨hstep, htimely⟩ := h
  cases a with
  | tick now =>
    obtain ⟨hle, hw⟩ := Option.ite_none_right_eq_some.mp hstep
    exact Option.some.inj hw ▸ inv.later hle
  | edit users bots routines subscriptions presence =>
    exact Option.some.inj hstep ▸ inv.same rfl rfl rfl
  | queueRun user bot routine =>
    rw [← Option.some.inj hstep]
    refine inv.follows ⟨inv.rows, fun p hp => ⟨p, hp, rfl, fun h => ⟨h, rfl⟩, id⟩,
      fun p hp _ => ⟨p, hp, rfl⟩, ?_, (lt_nextId (by simp)).le, fun r hr hlt => ?_,
      inv.notifications, le_rfl, fun n hn _ => ⟨n, hn, rfl, rfl, rfl, fun _ => id⟩⟩
    · rw [List.map_append, List.map_singleton]
      exact inv.runs.append (List.nodup_singleton _)
        (List.disjoint_singleton.mpr fun hid => (lt_nextId hid).false)
    · rcases List.mem_append.mp hr with hr | hr
      · exact ⟨r, hr, rfl, id⟩
      · rw [List.mem_singleton.mp hr] at hlt
        exact absurd hlt (lt_irrefl _)
  | startRun user run thread turn =>
    obtain ⟨t', ht', rfl⟩ := Option.map_eq_some_iff.mp hstep
    exact inv.setRunning ht'
  | passDeadline user run => exact Option.some.inj hstep ▸ inv.setDeadlinePassed user run
  | endRun now user run state reason states line =>
    obtain ⟨hof, hend⟩ := Option.ite_none_right_eq_some.mp hstep
    obtain ⟨t', ht', rfl⟩ := Option.map_eq_some_iff.mp hend
    obtain ⟨hnow, hday⟩ := of_decide_eq_true htimely
    refine inv.endRun hof.2.1 (fun s hs => by simpa using List.all_eq_true.mp hof.2.2 s hs) hnow
      (fun n hn hrun => ?_) ht'
    exact of_decide_eq_true (List.all_eq_true.mp hday n hn) hrun
  | record now user bot thread turn request =>
    obtain ⟨-, hrecord⟩ := Option.ite_none_right_eq_some.mp hstep
    obtain ⟨outcome, houtcome, hw⟩ := Option.map_eq_some_iff.mp hrecord
    cases outcome with
    | ok t' => exact hw ▸ inv.record (of_decide_eq_true htimely) houtcome
    | error text => exact hw ▸ inv
  | read after => exact Option.some.inj hstep ▸ inv.readPage after
  | claim push now =>
    obtain ⟨hof, hw⟩ := Option.ite_none_right_eq_some.mp hstep
    exact Option.some.inj hw ▸ inv.claim hof.1 (of_decide_eq_true htimely)
  | delivered id took =>
    obtain ⟨-, hw⟩ := Option.ite_none_right_eq_some.mp hstep
    rw [← Option.some.inj hw]
    refine inv.settle id .sending (fun _ => rfl) (by simp) (fun _ p => ⟨?_, rfl⟩)
    cases took <;> rfl
  | restart sending => exact Option.some.inj hstep ▸ (inv.recover w.clock).restart
  | prune => exact Option.some.inj hstep ▸ inv.prune
  | pruneNotifications =>
    exact Option.some.inj hstep ▸ inv.deleted rfl (List.Sublist.refl _) List.filter_sublist rfl
      (of_decide_eq_true htimely)
  | pruneRuns =>
    exact Option.some.inj hstep ▸ inv.deleted rfl List.filter_sublist (List.Sublist.refl _)
      (of_decide_eq_true htimely) rfl
  | deleteRoutine user bot routine =>
    obtain ⟨t', ht', rfl⟩ := Option.map_eq_some_iff.mp hstep
    have hnext : t'.nextRun = w.tables.nextRun := by
      simpa [World.isTimely, ht'] using htimely
    obtain rfl := Option.some.inj (Option.ite_none_right_eq_some.mp ht').2
    exact inv.deleted rfl List.filter_sublist (List.Sublist.refl _) hnext rfl

/-- What was claimed: no push twice, told by its id and when it was queued, no notification twice, by
its own push or by its run's, no run's end twice, and for no user more in an hour than the limit. -/
structure World.SentOnce (w : World) : Prop where
  pushes : (w.claims.map fun c => (c.push.id, c.push.createdAt)).Nodup
  notifications : (w.claims.filterMap (·.push.notification)).Nodup
  ends : ((w.claims.filter (·.push.cause ≠ .notify)).filterMap (·.push.run)).Nodup
  limited : ∀ user, AtMost HOURLY_LIMIT HOUR_MS (claimTimes w.claims user)

theorem inv_start (sending : Bool) :
    Inv (World.start sending).tables (World.start sending).clock (World.start sending).claims
      (World.start sending).read := by
  have hnone : ∀ q, ¬ Known (World.start sending).tables [] q := by simp [Known, World.start]
  exact ⟨.nil, fun q _ hq => absurd hq (hnone q), by simp [World.start], by simp [World.start],
    .nil, by simp [World.start], by simp [World.start], fun _ => .nil, .nil, .nil, fun q hq => absurd hq (hnone q),
    fun q _ hq => absurd hq (hnone q), fun q hq => absurd hq (hnone q),
    fun q _ hq => absurd hq (hnone q), fun q hq => absurd hq (hnone q),
    fun q _ hq => absurd hq (hnone q), fun q _ hq => absurd hq (hnone q)⟩

/-- Two claims of one notification are of one push. -/
theorem Inv.eq_of_claimed (inv : Inv t clock claims read) {c c' : Claim} (hc : c ∈ claims)
    (hc' : c' ∈ claims) {i : ℕ} (hi : c.push.notification = some i)
    (hi' : c'.push.notification = some i) : c.push = c'.push := by
  have hq : Known t claims c.push := .inr ⟨c, hc, rfl⟩
  have hq' : Known t claims c'.push := .inr ⟨c', hc', rfl⟩
  have hsame := hi.trans hi'.symm
  by_cases hcause : c.push.cause = .notify <;> by_cases hcause' : c'.push.cause = .notify
  · exact inv.ownOnce _ _ hq hq' hcause hcause' hsame
  · exact absurd rfl ((inv.merged _ _ hq' hq hcause' hcause hsame.symm).1 c hc)
  · exact absurd rfl ((inv.merged _ _ hq hq' hcause hcause' hsame).1 c' hc')
  · exact inv.carriedOnce _ _ hq hq' hcause hcause' i hi hi'

theorem Inv.sentOnce {w : World} (inv : Inv w.tables w.clock w.claims w.read) : w.SentOnce := by
  have honce : w.claims.Pairwise fun c c' => c.push ≠ c'.push := List.pairwise_map.mp inv.once
  refine ⟨?_, ?_, ?_, inv.limited⟩
  · refine List.pairwise_map.mpr (honce.imp_of_mem fun hc hc' hne hsame => ?_)
    obtain ⟨hid, hat⟩ := Prod.mk.inj hsame
    exact hne (inv.ids _ _ (.inr ⟨_, hc, rfl⟩) (.inr ⟨_, hc', rfl⟩) hid hat)
  · refine List.pairwise_filterMap.mpr (honce.imp_of_mem fun hc hc' hne i hi i' hi' hii => ?_)
    subst hii
    exact hne (inv.eq_of_claimed hc hc' hi hi')
  · refine List.pairwise_filterMap.mpr
      ((honce.filter _).imp_of_mem fun hc hc' hne r hr r' hr' hrr => ?_)
    subst hrr
    obtain ⟨hc, hcause⟩ := List.mem_filter.mp hc
    obtain ⟨hc', hcause'⟩ := List.mem_filter.mp hc'
    exact hne (inv.endedOnce _ _ (.inr ⟨_, hc, rfl⟩) (.inr ⟨_, hc', rfl⟩)
      (of_decide_eq_true hcause) (of_decide_eq_true hcause') (hr.trans hr'.symm))

/-- Whatever the order of the steps, pushes are handed over once, and not too many. -/
theorem pushes_once {sending : Bool} {as : List Action} {w : World}
    (hrun : Runs.Run World.TimelyStep (.start sending) as w) : w.SentOnce :=
  Inv.sentOnce (hrun.invariant (I := fun w => Inv w.tables w.clock w.claims w.read)
    (fun _ _ _ inv hstep => inv.step hstep) (inv_start sending))

/-- A notification is sent by its own push before its turn turns out to be a run's, and another of
the same turn is carried by the run's. Two days later both pushes are pruned, and the next one has
the first one's id. -/
def sentApart : List Action :=
  [.edit [⟨1, false⟩] [⟨1, 1, "Ada".toList⟩] [⟨1, 1, 1, "Tides".toList, .everyRun, false, 0⟩]
      [⟨1, 3 * DAY_MS⟩] .new,
    .queueRun 1 1 1, .record 0 1 1 "thread" "turn" ⟨.result, "Low water".toList, []⟩, .read 0,
    .claim ⟨⟨1, 1, .notify, some 1, none, .normal, "Ada".toList, "Low water".toList⟩, 1, 0⟩ 0,
    .delivered 1 true, .startRun 1 1 "thread" "turn",
    .record 0 1 1 "thread" "turn" ⟨.question, "Sail now?".toList, []⟩, .passDeadline 1 1,
    .tick HOUR_MS, .endRun 0 1 1 .interrupted none [.running] none, .read 1, .restart true,
    .read 0,
    .claim ⟨⟨1, 1, .failure, some 2, some 1, .high, "Ada · Tides".toList,
      "Sail now?\nThe run did not finish.".toList⟩, 2, 0⟩ 1,
    .delivered 2 false, .tick (2 * DAY_MS), .prune,
    .record (2 * DAY_MS) 1 1 "thread" "later" ⟨.result, "High water".toList, []⟩, .read 0,
    .claim ⟨⟨1, 1, .notify, some 3, none, .normal, "Ada".toList, "High water".toList⟩, 1,
      2 * DAY_MS⟩ (2 * DAY_MS)]

theorem pushes_once_apart : ∃ w : World,
    w.claims.map (fun c => (c.push.id, c.push.notification)) =
      [(1, some 1), (2, some 2), (1, some 3)] ∧ w.SentOnce := by
  have hend : (Runs.exec (fun (w : World) a => if w.isTimely a then w.step a else none)
      (World.start false) (.restart true :: sentApart)).any (fun w =>
        decide (w.claims.map (fun c => (c.push.id, c.push.notification)) =
          [(1, some 1), (2, some 2), (1, some 3)])) = true := by decide +kernel
  obtain ⟨w, hexec, hclaims⟩ := (Option.any_eq_true _ _).mp hend
  exact ⟨w, of_decide_eq_true hclaims,
    pushes_once (Runs.run_of_exec_checked (fun _ _ => id) hexec)⟩

/-- A routine is deleted after its run, and the next run has the id of the one deleted. -/
def carriedAgain : List Action :=
  [.edit [⟨1, false⟩] [⟨1, 1, "Ada".toList⟩]
      [⟨1, 1, 1, "Tides".toList, .everyRun, false, 0⟩,
        ⟨2, 1, 1, "Wind".toList, .everyRun, false, 0⟩]
      [⟨1, HOUR_MS⟩] .new,
    .queueRun 1 1 1, .startRun 1 1 "thread" "first",
    .record 0 1 1 "thread" "first" ⟨.question, "Sail now?".toList, []⟩,
    .endRun 0 1 1 .succeeded none [.running] none, .read 0,
    .claim ⟨⟨1, 1, .run, some 1, some 1, .high, "Ada · Tides".toList, "Sail now?".toList⟩, 1, 0⟩ 0,
    .deleteRoutine 1 1 1, .queueRun 1 1 2, .startRun 1 1 "thread" "second",
    .endRun 0 1 1 .succeeded none [.running] none, .read 1,
    .claim ⟨⟨1, 1, .run, some 1, some 1, .high, "Ada · Wind".toList, "Sail now?".toList⟩, 2, 0⟩ 0]

/-- Its push carries the deleted run's notification again. -/
theorem sent_again : (Runs.exec World.step (World.start true) carriedAgain).any (fun w =>
    decide (w.claims.map (·.push.notification) = [some 1, some 1])) = true := by
  decide +kernel

/-! ## What Bots record -/

/-- A user's notifications are so many an hour at most, and a turn's so many. -/
structure Tables.Limited (t : Tables) : Prop where
  hour : ∀ user,
    AtMost PER_HOUR HOUR_MS ((t.notifications.filter (·.user = user)).map (·.createdAt))
  turn : ∀ user bot thread turn, (t.notifications.countP fun n => n.user = user ∧ n.bot = bot ∧
    n.threadId = thread ∧ n.turnId = turn) ≤ PER_TURN

/-- All of a notification that the limits are about. -/
def NotificationRow.counted (n : NotificationRow) : ℕ × ℕ × String × String × ℤ :=
  (n.user, n.bot, n.threadId, n.turnId, n.createdAt)

theorem Tables.Limited.same {t' : Tables} (h : t.Limited)
    (hsame : t'.notifications.map NotificationRow.counted =
      t.notifications.map NotificationRow.counted) : t'.Limited := by
  -- both limits are read off what is counted
  have hhour : ∀ (u : Tables) user, (u.notifications.filter (·.user = user)).map (·.createdAt) =
      ((u.notifications.map NotificationRow.counted).filter (·.1 = user)).map (·.2.2.2.2) := by
    intro u user
    rw [List.filter_map, List.map_map]
    rfl
  have hturn : ∀ (u : Tables) user bot thread turn,
      (u.notifications.countP fun n => n.user = user ∧ n.bot = bot ∧ n.threadId = thread ∧
        n.turnId = turn) =
      (u.notifications.map NotificationRow.counted).countP fun n => n.1 = user ∧ n.2.1 = bot ∧
        n.2.2.1 = thread ∧ n.2.2.2.1 = turn := by
    intro u user bot thread turn
    rw [List.countP_map]
    rfl
  refine ⟨fun user => ?_, fun user bot thread turn => ?_⟩
  · rw [hhour, hsame, ← hhour]
    exact h.hour user
  · rw [hturn, hsame, ← hturn]
    exact h.turn user bot thread turn

theorem Tables.Limited.sublist {t' : Tables} (h : t.Limited)
    (hsub : t'.notifications.Sublist t.notifications) : t'.Limited :=
  ⟨fun user => (h.hour user).sublist ((hsub.filter _).map _),
    fun user bot thread turn => hsub.countP_le.trans (h.turn user bot thread turn)⟩

theorem notified_notifications (t : Tables) (now : ℤ) (user bot id : ℕ) (request : Request) :
    (t.notified now user bot id request).notifications = t.notifications := by
  rcases notified_eq t now user bot id request with h | ⟨q, h, -⟩
  · rw [h]
  · rw [h]
    rfl

theorem runEnded_notifications (t : Tables) (now : ℤ) (run : RunRow) (state : RunState)
    (paused : Bool) (line : Option Text) :
    (t.runEnded now run state paused line).notifications = t.notifications := by
  rcases runEnded_eq t now run state paused line with h | ⟨q, h, -⟩ <;>
    exact (congrArg Tables.notifications h).trans rfl

theorem Tables.Limited.record {user bot : ℕ} {thread turn : String} {request : Request}
    {t' : Tables} (h : t.Limited)
    (hrecord : t.record now user bot thread turn request = some (.ok t')) : t'.Limited := by
  obtain ⟨n, -, hnuser, hnbot, -, -, hnat, hturn, hhour, hrecorded⟩ := record_eq hrecord
  have ht' : t'.notifications = t.notifications ++ [n] := by
    rcases hrecorded with rfl | ⟨-, rfl⟩
    · rfl
    · exact notified_notifications _ _ _ _ _ _
  refine ⟨fun user' => ?_, fun user' bot' thread' turn' => ?_⟩
  · rw [ht', List.filter_append, List.map_append]
    by_cases huser : n.user = user'
    · rw [List.filter_cons_of_pos (by simpa using huser), List.filter_nil, List.map_singleton, hnat]
      refine (h.hour user').push ?_
      rw [live, List.filter_map, List.length_map, List.filter_filter,
        ← List.countP_eq_length_filter]
      refine lt_of_le_of_lt (List.countP_mono_left fun n' _ hn' => ?_) hhour
      simp only [Function.comp, Bool.and_eq_true, decide_eq_true_eq] at hn' ⊢
      exact ⟨hn'.2.trans (huser.symm.trans hnuser), by omega⟩
    · rw [List.filter_cons_of_neg (by simpa using huser), List.filter_nil, List.map_nil,
        List.append_nil]
      exact h.hour user'
  · rw [ht', List.countP_append, List.countP_singleton]
    split
    · rename_i hof
      obtain ⟨rfl, rfl, rfl, rfl⟩ := of_decide_eq_true hof
      rw [hnuser, hnbot]
      exact hturn
    · exact h.turn user' bot' thread' turn'

theorem limited_step {w w' : World} {a : Action} (h : w.tables.Limited)
    (hstep : w.step a = some w') : w'.tables.Limited := by
  cases a with
  | tick now =>
    obtain ⟨-, hw⟩ := Option.ite_none_right_eq_some.mp hstep
    exact Option.some.inj hw ▸ h
  | edit users bots routines subscriptions presence => exact Option.some.inj hstep ▸ h.same rfl
  | queueRun user bot routine => exact Option.some.inj hstep ▸ h.same rfl
  | startRun user run thread turn =>
    obtain ⟨t', ht', rfl⟩ := Option.map_eq_some_iff.mp hstep
    obtain ⟨row, -, rfl⟩ := Option.map_eq_some_iff.mp ht'
    refine h.same ?_
    rw [Tables.attributeToRun, List.map_map]
    refine List.map_congr_left fun n _ => ?_
    simp only [Function.comp]
    split <;> rfl
  | passDeadline user run => exact Option.some.inj hstep ▸ h.same rfl
  | endRun now user run state reason states line =>
    obtain ⟨-, hend⟩ := Option.ite_none_right_eq_some.mp hstep
    obtain ⟨t', ht', rfl⟩ := Option.map_eq_some_iff.mp hend
    obtain ⟨row, -, rfl⟩ := Option.map_eq_some_iff.mp ht'
    refine h.same ?_
    dsimp only
    rw [runEnded_notifications]
    cases Tables.outcome _ state with
    | none => rfl
    | some failed => exact congrArg _ (countOutcome_same _ _ failed).2.2
  | record now user bot thread turn request =>
    obtain ⟨-, hrecord⟩ := Option.ite_none_right_eq_some.mp hstep
    obtain ⟨outcome, houtcome, hw⟩ := Option.map_eq_some_iff.mp hrecord
    cases outcome with
    | ok t' => exact hw ▸ h.record houtcome
    | error text => exact hw ▸ h
  | read after => exact Option.some.inj hstep ▸ h
  | claim push now =>
    obtain ⟨-, hw⟩ := Option.ite_none_right_eq_some.mp hstep
    rw [← Option.some.inj hw]
    unfold World.claim
    cases w.decide' now push with
    | drop state => exact h.same rfl
    | send =>
      dsimp only
      split
      · exact h.same rfl
      · exact h
  | delivered id took =>
    obtain ⟨-, hw⟩ := Option.ite_none_right_eq_some.mp hstep
    exact Option.some.inj hw ▸ h.same rfl
  | restart sending => exact Option.some.inj hstep ▸ h.same rfl
  | prune | pruneRuns => exact Option.some.inj hstep ▸ h.same rfl
  | pruneNotifications => exact Option.some.inj hstep ▸ h.sublist List.filter_sublist
  | deleteRoutine user bot routine =>
    obtain ⟨t', ht', rfl⟩ := Option.map_eq_some_iff.mp hstep
    obtain rfl := Option.some.inj (Option.ite_none_right_eq_some.mp ht').2
    exact h.same rfl

/-- Whatever the order of the steps, notifications are recorded within their limits. -/
theorem notifications_limited {sending : Bool} {as : List Action} {w : World}
    (hrun : Runs.Run (Runs.Steps World.step) (.start sending) as w) : w.tables.Limited :=
  hrun.invariant (I := fun w => w.tables.Limited) (fun _ _ _ h hstep => limited_step h hstep)
    ⟨fun _ => .nil, fun _ _ _ _ => Nat.zero_le _⟩

/-- A Bot tries for more than a turn may. -/
def fourInTurn : List Action :=
  .edit [⟨1, false⟩] [⟨1, 1, "Ada".toList⟩] [] [] .new ::
    List.replicate 4 (.record 0 1 1 "thread" "turn" ⟨.result, "Low water".toList, []⟩)

theorem notifications_limited_three : ∃ w : World, w.tables.notifications.length = PER_TURN ∧
    w.tables.Limited := by
  have hend : (Runs.exec World.step (World.start true) fourInTurn).any (fun w =>
      decide (w.tables.notifications.length = PER_TURN)) = true := by decide +kernel
  obtain ⟨w, hexec, hlength⟩ := (Option.any_eq_true _ _).mp hend
  exact ⟨w, of_decide_eq_true hlength, notifications_limited (Runs.run_of_exec hexec)⟩

end Bokkie.Push
