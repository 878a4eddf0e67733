import Bokkie.RoutineScheduler

/-!
# Due routines

What falls due waits, in the routine's row, for a pass to queue it. A pass stands for everything
that fell due since, and leaves the routine at the next occurrence after it. A change of time zone
reschedules the routine from the moment of the change, and what had fallen due by then is no longer
on record.
-/

namespace Bokkie

namespace Scheduler

open Accounts CivilTime Runs

variable {tz : Tzdata} {t t' : Tables} {w w' : World} {r row : RoutineRow} {user id : ℕ}
  {now n : ℤ} {a : Action}

/-! ## What each function does -/

theorem ok_bind {α β : Type} (value : α) (f : α → Except Failure β) :
    ((.ok value : Except Failure α) >>= f) = f value := rfl

theorem mem_eq_of_id {l : List RoutineRow} (hnodup : (l.map (·.id)).Nodup) (hr : r ∈ l)
    (hrow : row ∈ l) (h : row.id = r.id) : row = r :=
  List.inj_on_of_nodup_map hnodup hrow hr h

namespace Tables

theorem routineOfUser_eq (hr : r ∈ t.routines) : t.routineOfUser r.user r.id = some r := by
  obtain ⟨row, hrow⟩ := Option.isSome_iff_exists.mp
    (List.find?_isSome (p := fun other => decide (other.id = r.id ∧ other.user = r.user)).mpr
      ⟨r, hr, by simp⟩)
  have hkeys := List.find?_some hrow
  simp only [decide_eq_true_eq] at hkeys
  rw [routineOfUser, hrow, mem_eq_of_id t.nodup hr (List.mem_of_find?_eq_some hrow) hkeys.1]

theorem mem_of_routineOfUser (h : t.routineOfUser user id = some r) :
    r ∈ t.routines ∧ r.id = id ∧ r.user = user := by
  have hkeys := List.find?_some h
  simp only [decide_eq_true_eq] at hkeys
  exact ⟨List.mem_of_find?_eq_some h, hkeys⟩

/-- A routine that was there is saved. -/
theorem save_eq (now : ℤ) (row : RoutineRow) (hr : r ∈ t.routines) (hid : row.id = r.id)
    (hbot : row.bot = r.bot) (huser : row.user = r.user) :
    t.save now row =
      .ok ({ row with updatedAt := now }, t.setRoutine { row with updatedAt := now }) := by
  rw [save, if_pos]
  rw [List.any_eq_true]
  exact ⟨r, hr, by simp [RoutineRow.isRow, hid, hbot, huser]⟩

theorem setRow_of_ne (h : row.id ≠ r.id) : setRow row r = r := by
  rw [setRow, if_neg]
  simp only [RoutineRow.isRow, decide_eq_true_eq]
  exact fun hkeys => h hkeys.1.symm

theorem setRow_of_eq (hid : row.id = r.id) (hbot : row.bot = r.bot) (huser : row.user = r.user) :
    setRow row r = row := by
  rw [setRow, if_pos]
  simp [RoutineRow.isRow, hid, hbot, huser]

/-- Another routine's row is as it was. -/
theorem mem_setRoutine_of_ne (hr : r ∈ t.routines) (h : row.id ≠ r.id) :
    r ∈ (t.setRoutine row).routines := by
  have hmem := List.mem_map_of_mem (f := setRow row) hr
  rwa [setRow_of_ne h] at hmem

theorem mem_setRoutine (hr : r ∈ t.routines) (hid : row.id = r.id) (hbot : row.bot = r.bot)
    (huser : row.user = r.user) : row ∈ (t.setRoutine row).routines := by
  have hmem := List.mem_map_of_mem (f := setRow row) hr
  rwa [setRow_of_eq hid hbot huser] at hmem

/-- A routine's user has an account. -/
theorem exists_account (hr : r ∈ t.routines) : ∃ account, t.account r.user = some account := by
  obtain ⟨account, hin, hid⟩ := List.mem_map.mp (t.owned r hr)
  rw [Tables.account]
  exact Option.isSome_iff_exists.mp (List.find?_isSome.mpr ⟨account, hin, by simpa using hid⟩)

theorem ownAccount_eq {account : AccountRow} (h : t.account user = some account) :
    t.ownAccount user = .ok account := by
  rw [ownAccount, h]

/-- An edit of accounts, which leaves the others and every id as they were. -/
theorem account_editAccounts (f : AccountRow → AccountRow) (hf : ∀ a, (f a).id = a.id) (user : ℕ) :
    (t.editAccounts f hf).account user = (t.account user).map f := by
  rw [account, editAccounts, List.find?_map, account]
  congr 2
  funext a
  simp [hf]

end Tables

/-- How a run of a routine due at `due` is put on record: a new run, or the run that waits. -/
inductive Recorded (account : AccountRow) (routine : RoutineRow) (now due : ℤ) (t t' : Tables) :
    Prop
  | inserted (run : RunRow) (hruns : t'.runs = t.runs ++ [run])
      (hof : run.user = routine.user ∧ run.routine = routine.id ∧ run.trigger = .schedule ∧
        run.scheduledFor = due ∧ run.queuedAt = now)
      (hstate : (run.state = .waiting ∧ t.activeRun routine.user routine.id = none) ∨
        (run.state = .skipped ∧ ∃ active, t.activeRun routine.user routine.id = some active ∧
          active.state ≠ .waiting) ∨ run.state = .missed)
      (hmissed : run.state = .missed ↔ account.disabled = true ∨ MISFIRE_WINDOW_MS < now - due)
  | coalesced (active : RunRow) (hactive : t.activeRun routine.user routine.id = some active)
      (hwaiting : active.state = .waiting)
      (hruns : t'.runs = t.runs.map fun run =>
        if Tables.isMoved routine.user active.id due run then { run with scheduledFor := due }
        else run)
      (htime : account.disabled = false ∧ now - due ≤ MISFIRE_WINDOW_MS)

/-- A run to record is of a state that the account and its time give, or the waiting run. -/
theorem queueAs_spec (t : Tables) (now : ℤ) (account : AccountRow) (routine : RoutineRow)
    (due : ℤ) :
    (∃ state reason, queueAs t now account routine due = .inl (state, reason) ∧
      ((state = .waiting ∧ t.activeRun routine.user routine.id = none) ∨
        (state = .skipped ∧ ∃ active, t.activeRun routine.user routine.id = some active ∧
          active.state ≠ .waiting) ∨ state = .missed) ∧
      (state = .missed ↔ account.disabled = true ∨ MISFIRE_WINDOW_MS < now - due)) ∨
    ∃ active, queueAs t now account routine due = .inr active ∧
      t.activeRun routine.user routine.id = some active ∧ active.state = .waiting ∧
      account.disabled = false ∧ now - due ≤ MISFIRE_WINDOW_MS := by
  rw [queueAs]
  by_cases hdisabled : account.disabled = true
  · rw [if_pos hdisabled]
    exact .inl ⟨_, _, rfl, .inr (.inr rfl), by simp [hdisabled]⟩
  rw [if_neg hdisabled]
  by_cases hlate : MISFIRE_WINDOW_MS < now - due
  · rw [if_pos hlate]
    exact .inl ⟨_, _, rfl, .inr (.inr rfl), by simp [hlate]⟩
  rw [if_neg hlate]
  cases hactive : t.activeRun routine.user routine.id with
  | none => exact .inl ⟨_, _, rfl, .inl ⟨rfl, rfl⟩, by simp [hdisabled, hlate]⟩
  | some active =>
      by_cases hwaiting : active.state = .waiting
      · exact .inr ⟨active, by simp [hwaiting], rfl, hwaiting, by simpa using hdisabled,
          not_lt.mp hlate⟩
      · exact .inl ⟨.skipped, _, by simp only [if_neg hwaiting]; rfl,
          .inr (.inl ⟨rfl, active, rfl, hwaiting⟩), by simp [hdisabled, hlate]⟩

/-- A routine that is there has its run queued. -/
theorem queue_recorded (now : ℤ) (account : AccountRow) (hr : r ∈ t.routines) (due : ℤ) :
    ∃ run t', queue t now account r .schedule due = .ok (run, t') ∧
      Recorded account r now due t t' ∧ t'.routines = t.routines ∧ t'.accounts = t.accounts := by
  rcases queueAs_spec t now account r due with
    ⟨state, reason, has, hstate, hmissed⟩ | ⟨active, has, hactive, hwaiting, htime⟩
  · have hinsert : t.insertRun now r .schedule due state reason =
        .ok (t.newRun now r .schedule due state reason,
          { t with runs := t.runs ++ [t.newRun now r .schedule due state reason] }) := by
      rw [Tables.insertRun, Tables.routineOfUser_eq hr]
    refine ⟨some (t.newRun now r .schedule due state reason),
      { t with runs := t.runs ++ [t.newRun now r .schedule due state reason] },
      by simp only [queue, has, hinsert]; rfl, ?_, rfl, rfl⟩
    exact .inserted (t.newRun now r .schedule due state reason) rfl ⟨rfl, rfl, rfl, rfl, rfl⟩ hstate
      hmissed
  · refine ⟨none, t.rescheduleWaiting r.user active.id due, by rw [queue, has]; rfl, ?_, rfl, rfl⟩
    exact .coalesced active hactive hwaiting rfl htime

theorem readDue_of_due (hr : r ∈ t.routines) (hpaused : r.paused = false)
    (hn : r.nextRunAt = some n) (hdue : n ≤ now) : readDue t r.user r.id now = some (r, n) := by
  simp [readDue, Tables.routineOfUser_eq hr, hn, hpaused, Option.filter, hdue]

theorem due_of_readDue (h : readDue t user id now = some (r, n)) :
    r ∈ t.routines ∧ r.id = id ∧ r.user = user ∧ r.paused = false ∧ r.nextRunAt = some n ∧
      n ≤ now := by
  obtain ⟨row, hrow, h⟩ := Option.bind_eq_some_iff.mp h
  obtain ⟨due, hdue, h⟩ := Option.bind_eq_some_iff.mp h
  obtain ⟨rfl, rfl⟩ : row = r ∧ due = n := by simpa using h
  obtain ⟨hmem, hid, huser⟩ := Tables.mem_of_routineOfUser hrow
  obtain ⟨hnext, hok⟩ := Option.filter_eq_some_iff.mp hdue
  simp only [Bool.and_eq_true, decide_eq_true_eq, Bool.not_eq_true'] at hok
  exact ⟨hmem, hid, huser, hok.2, hnext, hok.1⟩

/-- The row of a routine after a pass at `now`. -/
def rescheduled (zone : TimeZone) (now : ℤ) (r : RoutineRow) : RoutineRow :=
  { r with nextRunAt := r.schedule.nextAfter zone now, updatedAt := now }

theorem lt_of_nextAfter {schedule : Schedule} {zone : TimeZone} {m : ℤ}
    (h : schedule.nextAfter zone now = some m) : now < m := by
  simpa using List.find?_some h

theorem le_latestDue (schedule : Schedule) (zone : TimeZone) (hdue : n ≤ now) :
    n ≤ latestDue schedule zone now n ∧ latestDue schedule zone now n ≤ now := by
  rw [latestDue]
  cases hlatest : schedule.latestAtOrBefore zone now with
  | none => exact ⟨le_rfl, hdue⟩
  | some latest =>
      have hle : latest ≤ now := by simpa using List.find?_some hlatest
      by_cases hn : n ≤ latest
      · simp [Option.filter, hn, hle]
      · simp [Option.filter, hn, hdue]

/-- A pass's transaction on a routine that fell due. -/
theorem fallDue_due (tz : Tzdata) (hr : r ∈ t.routines) (hpaused : r.paused = false)
    (hn : r.nextRunAt = some n) (hdue : n ≤ now) {account : AccountRow} (haccount : t.account r.user = some account) :
    ∃ t', fallDue tz t r.user r.id now = .ok t' ∧
      Recorded account r now (latestDue r.schedule (storedZone tz account.timeZone) now n) t t' ∧
      t'.routines = (t.setRoutine (rescheduled (storedZone tz account.timeZone) now r)).routines ∧
      t'.accounts = t.accounts := by
  have hin : rescheduled (storedZone tz account.timeZone) now r ∈
      (t.setRoutine (rescheduled (storedZone tz account.timeZone) now r)).routines :=
    Tables.mem_setRoutine hr rfl rfl rfl
  obtain ⟨run, t', hqueue, hrecorded, hroutines, haccounts⟩ := queue_recorded now account
    hin (latestDue r.schedule (storedZone tz account.timeZone) now n)
  have hsave := Tables.save_eq now
    { r with nextRunAt := r.schedule.nextAfter (storedZone tz account.timeZone) now } hr rfl rfl rfl
  refine ⟨t', ?_, ?_, hroutines, haccounts⟩
  · simp only [fallDue, readDue_of_due hr hpaused hn hdue, Tables.ownAccount_eq haccount, ok_bind,
      hsave]
    exact congrArg (fun result => result >>= fun queued => pure queued.2) hqueue
  · -- the routine's row is saved before its run, which depends on its keys alone
    cases hrecorded with
    | inserted run hruns hof hstate hmissed => exact .inserted run hruns hof hstate hmissed
    | coalesced active hactive hwaiting hruns htime =>
        exact .coalesced active hactive hwaiting hruns htime

/-! ## A change of time zone -/

/-- Rescheduling leaves the routines that it is not given as they were. -/
theorem mem_rescheduleAll_of_ne {zone : TimeZone} {rows : List RoutineRow}
    (hok : rescheduleAll zone now rows t = .ok t') (hr : r ∈ t.routines)
    (hne : ∀ row ∈ rows, row.id ≠ r.id) : r ∈ t'.routines := by
  induction rows generalizing t with
  | nil =>
      obtain rfl : t = t' := by simpa [rescheduleAll] using hok
      exact hr
  | cons row rest ih =>
      have hrest : ∀ row ∈ rest, row.id ≠ r.id := fun row h => hne row (List.mem_cons_of_mem _ h)
      rw [rescheduleAll] at hok
      by_cases hpaused : row.paused = true
      · rw [if_pos hpaused] at hok
        exact ih hok hr hrest
      rw [if_neg hpaused, Tables.save] at hok
      split at hok
      · exact ih hok (Tables.mem_setRoutine_of_ne hr (hne row List.mem_cons_self)) hrest
      · cases hok

/-- Every routine that it is given and that is not paused it schedules after `now`. -/
theorem rescheduleAll_next {zone : TimeZone} {rows : List RoutineRow}
    (hok : rescheduleAll zone now rows t = .ok t') (hnodup : (rows.map (·.id)).Nodup)
    (hr : r ∈ rows) (hin : r ∈ t.routines) (hpaused : r.paused = false) :
    rescheduled zone now r ∈ t'.routines := by
  induction rows generalizing t with
  | nil => cases hr
  | cons row rest ih =>
      obtain ⟨hnew, hrest⟩ := List.nodup_cons.mp hnodup
      have hne : ∀ other ∈ rest, other.id ≠ row.id := fun other hother heq =>
        hnew (List.mem_map.mpr ⟨other, hother, heq⟩)
      rw [rescheduleAll] at hok
      rcases List.mem_cons.mp hr with rfl | hlater
      · have hsave := Tables.save_eq now
          { r with nextRunAt := r.schedule.nextAfter zone now } hin rfl rfl rfl
        rw [if_neg (by simp [hpaused]), hsave] at hok
        exact mem_rescheduleAll_of_ne (r := rescheduled zone now r) hok
          (Tables.mem_setRoutine hin rfl rfl rfl) hne
      by_cases hskip : row.paused = true
      · rw [if_pos hskip] at hok
        exact ih hok hrest hlater hin
      rw [if_neg hskip, Tables.save] at hok
      split at hok
      · exact ih hok hrest hlater (Tables.mem_setRoutine_of_ne hin fun h => hne r hlater h.symm)
      · cases hok

theorem setTimeZone_ok {timeZone : String} (hok : setTimeZone tz t user timeZone now = .ok t') :
    ∃ name, checkTimeZone tz timeZone = .ok name ∧
      rescheduleAll (storedZone tz name) now (t.listForUser user) (t.inZone user name) =
        .ok t' := by
  rw [setTimeZone] at hok
  cases hname : checkTimeZone tz timeZone with
  | error failure =>
      rw [hname] at hok
      cases hok
  | ok name =>
      rw [hname, ok_bind, Tables.setZone] at hok
      split at hok
      · exact ⟨name, rfl, hok⟩
      · cases hok

/-- Whether a change of the user's time zone commits: the name is a zone's, and there is an account
to keep it. -/
def commits (tz : Tzdata) (t : Tables) (user : ℕ) (timeZone : String) : Bool :=
  (checkTimeZone tz timeZone).isOk && (t.account user).isSome

theorem Tables.isRow_setRow (r other row : RoutineRow) :
    r.isRow (setRow row other) = r.isRow other := by
  rw [setRow]
  split
  · next hrow =>
    simp only [RoutineRow.isRow, decide_eq_true_eq] at hrow
    obtain ⟨hid, hbot, huser⟩ := hrow
    simp only [RoutineRow.isRow, hid, hbot, huser]
  · rfl

theorem Tables.any_isRow_setRoutine (r row : RoutineRow) :
    (t.setRoutine row).routines.any r.isRow = t.routines.any r.isRow := by
  rw [setRoutine, List.any_map]
  exact congrArg _ (funext fun other => isRow_setRow r other row)

/-- Routines that are there are rescheduled. -/
theorem rescheduleAll_isOk (zone : TimeZone) (now : ℤ) {rows : List RoutineRow}
    (h : ∀ row ∈ rows, t.routines.any row.isRow = true) :
    ∃ t', rescheduleAll zone now rows t = .ok t' := by
  induction rows generalizing t with
  | nil => exact ⟨t, rfl⟩
  | cons row rest ih =>
      obtain ⟨hrow, hrest⟩ := List.forall_mem_cons.mp h
      rw [rescheduleAll]
      by_cases hpaused : row.paused = true
      · rw [if_pos hpaused]
        exact ih hrest
      · have hthere : t.routines.any
            { row with nextRunAt := row.schedule.nextAfter zone now, updatedAt := now }.isRow =
              true := hrow
        rw [if_neg hpaused, Tables.save, if_pos hthere, ok_bind]
        exact ih fun other hother => (Tables.any_isRow_setRoutine _ _).trans (hrest other hother)

theorem commits_iff {timeZone : String} (now : ℤ) : commits tz t user timeZone = true ↔
    ∃ t', setTimeZone tz t user timeZone now = .ok t' := by
  rw [commits, Bool.and_eq_true, setTimeZone]
  cases hname : checkTimeZone tz timeZone with
  | error failure => exact iff_of_false (fun h => Bool.false_ne_true h.1) fun ⟨t', h⟩ => by cases h
  | ok name =>
      have haccount : (t.inZone user name).account user = (t.account user).map fun account =>
          if account.id = user then { account with timeZone := name } else account :=
        Tables.account_editAccounts _ _ user
      rw [ok_bind, Tables.setZone, haccount]
      cases t.account user with
      | none => exact iff_of_false (fun h => Bool.false_ne_true h.2) fun ⟨t', h⟩ => by cases h
      | some account =>
          refine iff_of_true ⟨rfl, rfl⟩ (rescheduleAll_isOk _ now fun row hrow => ?_)
          have hin := List.mem_of_mem_filter hrow
          exact List.any_eq_true.mpr ⟨row, hin, by simp [RoutineRow.isRow]⟩

/-! ## Steps -/

/-- What the passes so far have stood for of one routine. -/
def World.fallsOf (w : World) (id : ℕ) : List Fall := w.falls.filter (·.routine = id)

theorem step_clock_le (h : w.step tz a = some w') : w.clock ≤ w'.clock := by
  cases a with
  | tick ms =>
      obtain rfl := Option.some.inj h
      simp
  | fallDue user id now | setTimeZone user timeZone now =>
      rw [World.step] at h
      split at h
      · split at h <;> obtain rfl := Option.some.inj h <;> exact le_rfl
      · cases h
  | changeRuns runs | setDisabled user disabled =>
      obtain rfl := Option.some.inj h
      exact le_rfl

/-- A pass's transaction on a routine that is due, as a step. -/
theorem step_fallDue (tz : Tzdata) (hr : r ∈ w.tables.routines) (hpaused : r.paused = false)
    (hn : r.nextRunAt = some n) (hdue : n ≤ now) (hnow : now ≤ w.clock) :
    ∃ account w', w.tables.account r.user = some account ∧
      w.step tz (.fallDue r.user r.id now) = some w' ∧
      Recorded account r now (latestDue r.schedule (storedZone tz account.timeZone) now n)
        w.tables w'.tables ∧
      rescheduled (storedZone tz account.timeZone) now r ∈ w'.tables.routines ∧
      w'.tables.accounts = w.tables.accounts ∧
      w'.fallsOf r.id = w.fallsOf r.id ++
        [⟨r.id, n, latestDue r.schedule (storedZone tz account.timeZone) now n, now⟩] := by
  obtain ⟨account, haccount⟩ := Tables.exists_account hr
  obtain ⟨t', hfall, hrecorded, hroutines, haccounts⟩ :=
    fallDue_due tz hr hpaused hn hdue haccount
  refine ⟨account, _, haccount, by rw [World.step, if_pos hnow, hfall], hrecorded, ?_,
    haccounts, ?_⟩
  · rw [hroutines]
    exact Tables.mem_setRoutine hr rfl rfl rfl
  · simp [World.fallsOf, World.fall, readDue_of_due hr hpaused hn hdue, haccount]

/-- A routine's row changes when a pass finds it due and when its user's time zone changes. -/
theorem mem_of_step (h : w.step tz a = some w') (hr : r ∈ w.tables.routines) :
    (r ∈ w'.tables.routines ∧ w'.fallsOf r.id = w.fallsOf r.id) ∨
    (∃ now n, a = .fallDue r.user r.id now ∧ now ≤ w.clock ∧ r.paused = false ∧
      r.nextRunAt = some n ∧ n ≤ now) ∨
    ∃ timeZone now, a = .setTimeZone r.user timeZone now := by
  cases a with
  | tick ms | changeRuns runs | setDisabled user disabled =>
      obtain rfl := Option.some.inj h
      exact .inl ⟨hr, rfl⟩
  | fallDue user id now =>
      rw [World.step] at h
      split at h
      case isFalse => cases h
      case isTrue hnow =>
      cases hread : readDue w.tables user id now with
      | none =>
          simp only [fallDue, World.fall, hread] at h
          obtain rfl := Option.some.inj h
          exact .inl ⟨hr, by simp [World.fallsOf]⟩
      | some found =>
          obtain ⟨row, n⟩ := found
          obtain ⟨hrow, rfl, rfl, hpaused, hn, hdue⟩ := due_of_readDue hread
          obtain ⟨account, haccount⟩ := Tables.exists_account hrow
          obtain ⟨t', hfall, -, hroutines, -⟩ :=
            fallDue_due tz hrow hpaused hn hdue haccount
          by_cases hid : row.id = r.id
          · obtain rfl := mem_eq_of_id w.tables.nodup hr hrow hid
            exact .inr (.inl ⟨now, n, rfl, hnow, hpaused, hn, hdue⟩)
          · rw [hfall] at h
            obtain rfl := Option.some.inj h
            refine .inl ⟨?_, ?_⟩
            · rw [hroutines]
              exact Tables.mem_setRoutine_of_ne hr hid
            · simp [World.fallsOf, World.fall, hread, haccount, hid]
  | setTimeZone user timeZone now =>
      by_cases huser : user = r.user
      · exact .inr (.inr ⟨timeZone, now, by rw [huser]⟩)
      rw [World.step] at h
      split at h
      case isFalse => cases h
      case isTrue hnow =>
      split at h
      case h_2 =>
        obtain rfl := Option.some.inj h
        exact .inl ⟨hr, rfl⟩
      case h_1 t' hok =>
        obtain rfl := Option.some.inj h
        obtain ⟨name, -, hall⟩ := setTimeZone_ok hok
        refine .inl ⟨mem_rescheduleAll_of_ne hall hr ?_, rfl⟩
        intro row hrow hid
        obtain ⟨hin, hown⟩ := List.mem_filter.mp hrow
        obtain rfl := mem_eq_of_id w.tables.nodup hr hin hid
        have howner : row.user = user := by simpa using hown
        exact huser howner.symm

/-- A change of time zone that is refused changes nothing. -/
theorem step_setTimeZone_refused {timeZone : String}
    (h : w.step tz (.setTimeZone user timeZone now) = some w')
    (hrefused : ¬ commits tz w.tables user timeZone = true) : w = w' := by
  rw [World.step] at h
  split at h
  case isFalse => cases h
  case isTrue hnow =>
  split at h
  case h_1 t' hok => exact absurd ((commits_iff now).mpr ⟨t', hok⟩) hrefused
  case h_2 => exact Option.some.inj h

/-! ## What is due is put on record -/

/-- A pass that finds the routine due since `n` puts a run on record that stands for it. -/
def Queues (w w' : World) (r : RoutineRow) (now n : ℤ) : Prop :=
  r ∈ w.tables.routines ∧ r.nextRunAt = some n ∧ ∃ account latest,
    w.tables.account r.user = some account ∧ n ≤ latest ∧ latest ≤ now ∧
    Recorded account r now latest w.tables w'.tables

/-- Nothing of a user's is due when a change of the user's time zone commits. -/
def Quiet (tz : Tzdata) (w : World) : Action → Prop
  | .setTimeZone user timeZone _ => commits tz w.tables user timeZone = true →
      ∀ r ∈ w.tables.routines, r.user = user → r.isDue w.clock = false
  | _ => True

def QuietStep (tz : Tzdata) (w : World) (a : Action) (w' : World) : Prop :=
  w.step tz a = some w' ∧ Quiet tz w a

theorem run_clock_le {as : List Action} (h : Run (QuietStep tz) w as w') : w.clock ≤ w'.clock :=
  h.invariant (I := fun v => w.clock ≤ v.clock)
    (fun _ _ _ hle hstep => hle.trans (step_clock_le hstep.1)) le_rfl

theorem mem_pass (hr : r ∈ t.routines) (hpaused : r.paused = false) (hn : r.nextRunAt = some n)
    (hdue : n ≤ now) : .fallDue r.user r.id now ∈ pass t now := by
  refine List.mem_map.mpr ⟨r, List.mem_mergeSort.mpr (List.mem_filter.mpr ⟨hr, ?_⟩), rfl⟩
  simp [RoutineRow.isDue, hpaused, hn, hdue]

/-- A pass that comes to a routine that is due puts it on record. -/
theorem queues_of_due (tz : Tzdata) (hr : r ∈ w.tables.routines) (hpaused : r.paused = false)
    (hn : r.nextRunAt = some n) (hdue : n ≤ now) (hnow : now ≤ w.clock) :
    ∃ w', w.step tz (.fallDue r.user r.id now) = some w' ∧ Queues w w' r now n := by
  obtain ⟨account, w', haccount, hstep, hrecorded, -⟩ :=
    step_fallDue tz hr hpaused hn hdue hnow
  obtain ⟨hle, hle'⟩ := le_latestDue r.schedule (storedZone tz account.timeZone) hdue
  exact ⟨w', hstep, hr, hn, account, _, haccount, hle, hle', hrecorded⟩

/-- In a run in which time zones change only while nothing of the user's is due, what has fallen due
is put on record by a pass, or still stands in the routine's row for the next pass to put on
record. -/
theorem due_run_kept {as : List Action} (hrun : Run (QuietStep tz) w as w')
    (hr : r ∈ w.tables.routines) (hpaused : r.paused = false) (hn : r.nextRunAt = some n)
    (hdue : n ≤ w.clock) :
    (∃ bs now cs v v', as = bs ++ .fallDue r.user r.id now :: cs ∧ Run (QuietStep tz) w bs v ∧
      QuietStep tz v (.fallDue r.user r.id now) v' ∧ Queues v v' r now n) ∨
    (r ∈ w'.tables.routines ∧ ∀ now, n ≤ now → now ≤ w'.clock →
      .fallDue r.user r.id now ∈ pass w'.tables now ∧
      ∃ w'', QuietStep tz w' (.fallDue r.user r.id now) w'' ∧ Queues w' w'' r now n) := by
  suffices hkept : (∃ bs now cs v v', as = bs ++ .fallDue r.user r.id now :: cs ∧
      Run (QuietStep tz) w bs v ∧ QuietStep tz v (.fallDue r.user r.id now) v' ∧
      Queues v v' r now n) ∨ r ∈ w'.tables.routines by
    refine hkept.imp_right fun hin => ⟨hin, fun now hnow hclock => ⟨mem_pass hin hpaused hn hnow, ?_⟩⟩
    obtain ⟨w'', hstep, hqueues⟩ := queues_of_due tz hin hpaused hn hnow hclock
    exact ⟨w'', ⟨hstep, trivial⟩, hqueues⟩
  induction hrun with
  | nil => exact .inr hr
  | @snoc v w' as a hprev hstep ih =>
      rcases ih with ⟨bs, now, cs, u, u', rfl, hrest⟩ | hin
      · exact .inl ⟨bs, now, cs ++ [a], u, u', by simp, hrest⟩
      rcases mem_of_step hstep.1 hin with ⟨hkept, -⟩ | ⟨now, m, rfl, hnow, -, hm, hle⟩ |
          ⟨timeZone, now, rfl⟩
      · exact .inr hkept
      · obtain rfl : m = n := Option.some.inj (hm.symm.trans hn)
        obtain ⟨u, hu, hqueues⟩ := queues_of_due tz hin hpaused hn hle hnow
        obtain rfl : u = w' := Option.some.inj (hu.symm.trans hstep.1)
        exact .inl ⟨as, now, [], v, u, rfl, hprev, hstep, hqueues⟩
      · by_cases hcommits : commits tz v.tables r.user timeZone = true
        · -- the routine was due when its user's time zone changed
          have hnotDue := hstep.2 hcommits r hin rfl
          have hclock := run_clock_le hprev
          simp [RoutineRow.isDue, hpaused, hn, hdue.trans hclock] at hnotDue
        · obtain rfl := step_setTimeZone_refused hstep.1 hcommits
          exact .inr hin

/-- Two zones without changes. -/
def twoZones : Tzdata where
  get name :=
    if name = DEFAULT_TIME_ZONE then some (some DEFAULT_TIME_ZONE, ⟨34200000, [], trivial⟩)
    else if name = "Europe/London" then some (some "Europe/London", ⟨0, [], trivial⟩)
    else none

/-- Daily at seven, due since five seconds. -/
def morning : RoutineRow :=
  ⟨1, 1, 1, .daily ⟨7, 0, by decide, by decide⟩, false, some 1791063000000, 0⟩

def dueMorning : World where
  clock := 1791063005000
  tables := ⟨[⟨1, DEFAULT_TIME_ZONE, false⟩], [morning], [], by decide, by decide⟩
  falls := []

/-- As `dueMorning`, with another user whose routine is not due. -/
def morningOfTwo : World where
  clock := 1791063005000
  tables := ⟨[⟨1, DEFAULT_TIME_ZONE, false⟩, ⟨2, DEFAULT_TIME_ZONE, false⟩],
    [morning, ⟨2, 2, 2, .daily ⟨19, 0, by decide, by decide⟩, false, some 1791106200000, 0⟩], [],
    by decide, by decide⟩
  falls := []

/-- The other user moves, the owner names a zone that is none, and then a pass comes. -/
def movesBeforePass : List Action :=
  [.setTimeZone 2 "Europe/London" 1791063005000, .setTimeZone 1 "Nowhere" 1791063005000,
    .fallDue 1 1 1791063005000]

theorem due_run_kept_of_morning :
    ∃ w, Run (QuietStep twoZones) morningOfTwo movesBeforePass w ∧
      ∃ v v', QuietStep twoZones v (.fallDue 1 1 1791063005000) v' ∧
        Queues v v' morning 1791063005000 1791063000000 := by
  obtain ⟨t, hok⟩ := (commits_iff 1791063005000).mp
    (show commits twoZones morningOfTwo.tables 2 "Europe/London" = true by decide +kernel)
  have hmoves : QuietStep twoZones morningOfTwo (.setTimeZone 2 "Europe/London" 1791063005000)
      { morningOfTwo with tables := t } := by
    refine ⟨by rw [World.step, if_pos (by decide), hok], fun _ => ?_⟩
    decide +kernel
  have hrefused : QuietStep twoZones { morningOfTwo with tables := t }
      (.setTimeZone 1 "Nowhere" 1791063005000) { morningOfTwo with tables := t } :=
    ⟨rfl, fun hcommits => absurd hcommits Bool.false_ne_true⟩
  have hin : morning ∈ t.routines := by
    rcases mem_of_step hmoves.1 (r := morning) List.mem_cons_self with
      ⟨hkept, -⟩ | ⟨_, _, ha, -⟩ | ⟨_, _, ha⟩
    · exact hkept
    · cases ha
    · cases ha
  obtain ⟨account, w, -, hpass, -, hrow, -⟩ :=
    step_fallDue twoZones (w := { morningOfTwo with tables := t }) hin rfl rfl
      (show (1791063000000 : ℤ) ≤ 1791063005000 by decide) le_rfl
  have hrun : Run (QuietStep twoZones) morningOfTwo movesBeforePass w :=
    Run.cons hmoves (Run.cons hrefused (Run.single ⟨hpass, trivial⟩))
  refine ⟨w, hrun, ?_⟩
  rcases due_run_kept hrun (r := morning) (n := 1791063000000) List.mem_cons_self rfl rfl (by decide)
    with ⟨bs, now, cs, v, v', has, -, hstep, hqueues⟩ | ⟨hleft, -⟩
  · have hmem : Action.fallDue 1 1 now ∈ movesBeforePass := has ▸ by simp [morning]
    obtain rfl : now = 1791063005000 := by simpa [movesBeforePass] using hmem
    exact ⟨v, v', hstep, hqueues⟩
  · -- the pass left the routine at a later time
    have hsame := mem_eq_of_id w.tables.nodup hleft hrow rfl
    have hnext := lt_of_nextAfter (congrArg RoutineRow.nextRunAt hsame)
    exact absurd hnext (by decide)

/-- What was due at `n` is lost since `w`: whatever passes have stood for fell due later, and the
routine's row names a later time. -/
structure Lost (w : World) (user id : ℕ) (n : ℤ) (v : World) : Prop where
  falls : ∀ f ∈ v.fallsOf id, f ∈ w.fallsOf id ∨ n < f.due
  row : ∃ row ∈ v.tables.routines, row.id = id ∧ row.user = user ∧
    ∀ m, row.nextRunAt = some m → n < m

theorem Lost.step {v v' : World} (hlost : Lost w user id n v) (h : v.step tz a = some v')
    (hother : ∀ timeZone now, a ≠ .setTimeZone user timeZone now) : Lost w user id n v' := by
  obtain ⟨hfalls, row, hrow, rfl, rfl, hnext⟩ := hlost
  rcases mem_of_step h hrow with ⟨hkept, hnew⟩ | ⟨now, m, rfl, hnow, hpaused, hm, hle⟩ |
      ⟨timeZone, now, rfl⟩
  · exact ⟨by rw [hnew]; exact hfalls, row, hkept, rfl, rfl, hnext⟩
  · obtain ⟨account, u, -, hu, -, hin, -, hnew⟩ := step_fallDue tz hrow hpaused hm hle hnow
    obtain rfl : u = v' := Option.some.inj (hu.symm.trans h)
    have hlater := (hnext m hm).trans_le hle
    refine ⟨fun f hf => ?_, _, hin, rfl, rfl, fun m' hm' => hlater.trans (lt_of_nextAfter hm')⟩
    rw [hnew] at hf
    rcases List.mem_append.mp hf with hold | hadded
    · exact hfalls f hold
    · rw [List.mem_singleton.mp hadded]
      exact .inr (hnext m hm)
  · exact absurd rfl (hother timeZone now)

/-- What a change of time zone finds due is lost. -/
theorem lost_of_commit {t₁ : Tables} {timeZone : String}
    (hok : setTimeZone tz w.tables r.user timeZone now = .ok t₁)
    (hr : r ∈ w.tables.routines) (hpaused : r.paused = false) (hdue : n ≤ now) :
    Lost w r.user r.id n { w with tables := t₁ } := by
  obtain ⟨name, -, hall⟩ := setTimeZone_ok hok
  have hlisted : r ∈ w.tables.listForUser r.user := List.mem_filter.mpr ⟨hr, by simp⟩
  have hnodup : ((w.tables.listForUser r.user).map (·.id)).Nodup :=
    w.tables.nodup.sublist (List.filter_sublist.map _)
  exact ⟨fun f hf => .inl hf, _, rescheduleAll_next hall hnodup hlisted hr hpaused, rfl, rfl,
    fun m hm => hdue.trans_lt (lt_of_nextAfter hm)⟩

/-- What a change of time zone finds due no pass comes to afterwards: whatever passes stand for
fell due later. -/
theorem lost_of_setTimeZone {t₁ : Tables} {timeZone : String} {as : List Action}
    (hok : setTimeZone tz w.tables r.user timeZone now = .ok t₁)
    (hr : r ∈ w.tables.routines) (hpaused : r.paused = false) (hdue : n ≤ now)
    (hrun : Run (Steps (World.step tz)) { w with tables := t₁ } as w')
    (hnone : ∀ a ∈ as, ∀ timeZone now, a ≠ .setTimeZone r.user timeZone now) :
    ∀ f ∈ w'.fallsOf r.id, f ∈ w.fallsOf r.id ∨ n < f.due :=
  (hrun.invariant_of_forall (I := Lost w r.user r.id n)
    (P := fun a => ∀ timeZone now, a ≠ .setTimeZone r.user timeZone now)
    (fun _ _ _ hother hlost hstep => hlost.step hstep hother) hnone
    (lost_of_commit hok hr hpaused hdue)).falls

/-- Moving to London five seconds after seven, before a pass has come, loses that morning's run. -/
theorem time_zone_change_loses_run :
    morning.isDue dueMorning.clock = true ∧
    ∃ w, dueMorning.step twoZones (.setTimeZone 1 "Europe/London" dueMorning.clock) = some w ∧
      ∀ as w', Run (Steps (World.step twoZones)) w as w' →
        (∀ a ∈ as, ∀ timeZone now, a ≠ .setTimeZone 1 timeZone now) →
        ∀ f ∈ w'.fallsOf 1, 1791063000000 < f.due := by
  obtain ⟨t, hok⟩ : ∃ t, setTimeZone twoZones dueMorning.tables 1 "Europe/London" 1791063005000 =
      .ok t := ⟨_, rfl⟩
  refine ⟨by decide, { dueMorning with tables := t }, ?_, fun as w' hrun hnone f hf => ?_⟩
  · rw [World.step, if_pos le_rfl]
    erw [hok]
  · rcases lost_of_setTimeZone (r := morning) (n := 1791063000000) hok List.mem_cons_self rfl
      (by decide) hrun hnone f hf with hold | hlater
    · cases hold
    · exact hlater

/-! ## Every occurrence is put on record once -/

/-- The zone that a user's routines run in. -/
def InZone (tz : Tzdata) (t : Tables) (user : ℕ) (z : TimeZone) : Prop :=
  ∃ account, t.account user = some account ∧ storedZone tz account.timeZone = z

/-- A step other than a change of the user's time zone. -/
def UneditedStep (tz : Tzdata) (user : ℕ) (w : World) (a : Action) (w' : World) : Prop :=
  w.step tz a = some w' ∧ ∀ timeZone now, a ≠ .setTimeZone user timeZone now

variable {z : TimeZone}

theorem inZone_editAccounts {f : AccountRow → AccountRow} (hf : ∀ a, (f a).id = a.id)
    (h : InZone tz t user z) (hzone : ∀ a, a.id = user → (f a).timeZone = a.timeZone) :
    InZone tz (t.editAccounts f hf) user z := by
  obtain ⟨account, haccount, hz⟩ := h
  have hid : account.id = user := by simpa using List.find?_some haccount
  exact ⟨f account, by rw [Tables.account_editAccounts, haccount]; rfl, by rw [hzone _ hid]; exact hz⟩

theorem rescheduleAll_accounts {zone : TimeZone} {rows : List RoutineRow}
    (hok : rescheduleAll zone now rows t = .ok t') : t'.accounts = t.accounts := by
  induction rows generalizing t with
  | nil =>
      obtain rfl : t = t' := by simpa [rescheduleAll] using hok
      rfl
  | cons row rest ih =>
      rw [rescheduleAll] at hok
      split at hok
      · exact ih hok
      · rw [Tables.save] at hok
        split at hok
        · have hrest := ih hok
          exact hrest
        · cases hok

theorem step_inZone (h : UneditedStep tz user w a w') (hz : InZone tz w.tables user z) :
    InZone tz w'.tables user z := by
  obtain ⟨hstep, hother⟩ := h
  cases a with
  | tick ms | changeRuns runs =>
      obtain rfl := Option.some.inj hstep
      exact hz
  | setDisabled user disabled =>
      obtain rfl := Option.some.inj hstep
      exact inZone_editAccounts (fun _ => by split <;> rfl) hz fun a _ => by split <;> rfl
  | fallDue owner id now =>
      rw [World.step] at hstep
      split at hstep
      case isFalse => cases hstep
      case isTrue hnow =>
      cases hread : readDue w.tables owner id now with
      | none =>
          simp only [fallDue, hread] at hstep
          obtain rfl := Option.some.inj hstep
          exact hz
      | some found =>
          obtain ⟨row, n⟩ := found
          obtain ⟨hrow, rfl, rfl, hpaused, hn, hdue⟩ := due_of_readDue hread
          obtain ⟨account, haccount⟩ := Tables.exists_account hrow
          obtain ⟨t', hfall, -, -, haccounts⟩ :=
            fallDue_due tz hrow hpaused hn hdue haccount
          rw [hfall] at hstep
          obtain rfl := Option.some.inj hstep
          simpa only [InZone, Tables.account, haccounts] using hz
  | setTimeZone owner timeZone now =>
      have howner : owner ≠ user := fun heq => hother timeZone now (by rw [heq])
      rw [World.step] at hstep
      split at hstep
      case isFalse => cases hstep
      case isTrue hnow =>
      split at hstep
      case h_2 =>
        obtain rfl := Option.some.inj hstep
        exact hz
      case h_1 t' hok =>
        obtain rfl := Option.some.inj hstep
        obtain ⟨name, -, hall⟩ := setTimeZone_ok hok
        have hmoved : InZone tz (w.tables.inZone owner name) user z :=
          inZone_editAccounts _ hz fun a hid => by rw [if_neg (by rw [hid]; exact howner.symm)]
        simpa only [InZone, Tables.account, rescheduleAll_accounts hall] using hmoved

/-- How passes have accounted for a routine's occurrences from `n` on: what each stands for lies
after what the one before it stands for, and together they reach to the routine's next. -/
structure Accounted (tz : Tzdata) (r : RoutineRow) (z : TimeZone) (n : ℤ) (w : World) : Prop where
  zone : InZone tz w.tables r.user z
  row : ∃ row ∈ w.tables.routines, ∃ next, row.id = r.id ∧ row.user = r.user ∧
    row.schedule = r.schedule ∧ row.paused = false ∧ row.nextRunAt = some next ∧ n ≤ next ∧
    (∀ f ∈ w.fallsOf r.id, f.due ≤ f.latest ∧ f.latest ≤ f.now ∧ f.now < next) ∧
    ∀ u, r.schedule.Runs z u → n ≤ u →
      (u < next ↔ ∃ f ∈ w.fallsOf r.id, f.due ≤ u ∧ u ≤ f.latest)
  apart : (w.fallsOf r.id).Pairwise fun f g => f.latest < g.due

/-- The latest of what fell due, and the next after it. -/
theorem latestDue_spec {schedule : Schedule} (hcheck : schedule.check = .ok ()) (hdue : n ≤ now) :
    IsGreatest {u | u = n ∨ (schedule.Runs z u ∧ n ≤ u ∧ u ≤ now)}
      (latestDue schedule z now n) := by
  obtain ⟨latest, hlatest, hruns, hgreatest⟩ := Schedule.exists_latestAtOrBefore hcheck z now
  rw [latestDue, hlatest]
  by_cases hn : n ≤ latest
  · simp only [Option.filter, hn, decide_true, if_pos, Option.getD_some]
    refine ⟨.inr ⟨hruns.1, hn, hruns.2⟩, ?_⟩
    rintro u (rfl | ⟨hu, -, hle⟩)
    · exact hn
    · exact hgreatest ⟨hu, hle⟩
  · simp only [Option.filter, hn, decide_false, Bool.false_eq_true, if_false, Option.getD_none]
    refine ⟨.inl rfl, ?_⟩
    rintro u (rfl | ⟨hu, hfrom, hle⟩)
    · exact le_rfl
    · exact absurd (hfrom.trans (hgreatest ⟨hu, hle⟩)) hn

/-- A pass at which the routine is due puts one run on record, or moves the one that waits, for all
that fell due, and leaves the routine at its next occurrence. -/
theorem step_due (hcheck : r.schedule.check = .ok ()) (hz : InZone tz w.tables r.user z)
    (hr : r ∈ w.tables.routines) (hpaused : r.paused = false) (hn : r.nextRunAt = some n)
    (hdue : n ≤ now) (h : w.step tz (.fallDue r.user r.id now) = some w') :
    ∃ account latest next, w.tables.account r.user = some account ∧
      Recorded account r now latest w.tables w'.tables ∧
      IsGreatest {u | u = n ∨ (r.schedule.Runs z u ∧ n ≤ u ∧ u ≤ now)} latest ∧
      IsLeast {u | r.schedule.Runs z u ∧ now < u} next ∧
      { r with nextRunAt := some next, updatedAt := now } ∈ w'.tables.routines ∧
      w'.fallsOf r.id = w.fallsOf r.id ++ [⟨r.id, n, latest, now⟩] := by
  have hnow : now ≤ w.clock := by
    by_contra hlate
    rw [World.step, if_neg hlate] at h
    cases h
  obtain ⟨account, u, haccount, hu, hrecorded, hin, -, hfalls⟩ :=
    step_fallDue tz hr hpaused hn hdue hnow
  obtain rfl : u = w' := Option.some.inj (hu.symm.trans h)
  obtain ⟨account', haccount', rfl⟩ := hz
  obtain rfl : account' = account := Option.some.inj (haccount'.symm.trans haccount)
  obtain ⟨next, hnext, hleast⟩ :=
    Schedule.exists_nextAfter hcheck (storedZone tz account'.timeZone) now
  rw [rescheduled, hnext] at hin
  exact ⟨account', _, next, haccount', hrecorded, latestDue_spec hcheck hdue, hleast, hin, hfalls⟩

theorem Accounted.step (hcheck : r.schedule.check = .ok ()) (hI : Accounted tz r z n w)
    (h : UneditedStep tz r.user w a w') : Accounted tz r z n w' := by
  obtain ⟨hz, ⟨row, hrow, next, hid, huser, hschedule, hpaused, hnext, hn, hfalls, hall⟩, hapart⟩ :=
    hI
  have hz' := step_inZone h hz
  rcases mem_of_step h.1 hrow with ⟨hkept, hsame⟩ | ⟨now, m, rfl, -, -, hm, hle⟩ |
      ⟨timeZone, now, rfl⟩
  · rw [hid] at hsame
    rw [← hsame] at hfalls hall hapart
    exact ⟨hz', ⟨row, hkept, next, hid, huser, hschedule, hpaused, hnext, hn, hfalls, hall⟩, hapart⟩
  · obtain rfl : m = next := Option.some.inj (hm.symm.trans hnext)
    rw [← hschedule] at hcheck hall
    rw [← huser] at hz
    obtain ⟨-, latest, next', -, -, hlatest, hleast, hin, hnew⟩ :=
      step_due hcheck hz hrow hpaused hm hle h.1
    have hfrom : m ≤ latest := hlatest.2 (.inl rfl)
    have hto : latest ≤ now := by
      rcases hlatest.1 with rfl | hruns
      · exact hle
      · exact hruns.2.2
    have hafter : now < next' := hleast.1.2
    rw [hid] at hnew
    refine ⟨hz', ⟨_, hin, next', hid, huser, hschedule, hpaused, rfl, by omega, ?_, ?_⟩, ?_⟩
    · intro f hf
      rw [hnew] at hf
      rcases List.mem_append.mp hf with hold | hadded
      · obtain ⟨hdue, hnow, hlt⟩ := hfalls f hold
        exact ⟨hdue, hnow, by omega⟩
      · rw [List.mem_singleton.mp hadded]
        exact ⟨hfrom, hto, hafter⟩
    · intro u hu hnu
      rw [hnew]
      rw [← hschedule] at hu
      constructor
      · intro hlt
        by_cases hold : u < m
        · obtain ⟨f, hf, hin⟩ := (hall u hu hnu).mp hold
          exact ⟨f, List.mem_append_left _ hf, hin⟩
        · -- the next occurrence after the pass is the least, so this one is up to the pass
          have hupto : u ≤ now := by
            by_contra hbeyond
            have := hleast.2 ⟨hu, not_le.mp hbeyond⟩
            omega
          exact ⟨_, List.mem_append_right _ (List.mem_singleton_self _), not_lt.mp hold,
            hlatest.2 (.inr ⟨hu, not_lt.mp hold, hupto⟩)⟩
      · rintro ⟨f, hf, hfrom', hto'⟩
        rcases List.mem_append.mp hf with hold | hadded
        · have := hfalls f hold
          omega
        · rw [List.mem_singleton.mp hadded] at hto'
          simp only at hto'
          omega
    · rw [hnew, List.pairwise_append]
      refine ⟨hapart, List.pairwise_singleton _ _, fun f hf g hg => ?_⟩
      rw [List.mem_singleton.mp hg]
      have := hfalls f hf
      simp only
      omega
  · exact absurd (by rw [huser]) (h.2 timeZone now)

theorem Accounted.of_run (hcheck : r.schedule.check = .ok ()) {as : List Action}
    (hrun : Run (UneditedStep tz r.user) w as w') (hI : Accounted tz r z n w) :
    Accounted tz r z n w' :=
  hrun.invariant (fun _ _ _ h hstep => h.step hcheck hstep) hI

theorem accounted_of_mem (hstart : w.falls = []) (hz : InZone tz w.tables r.user z)
    (hr : r ∈ w.tables.routines) (hpaused : r.paused = false) (hn : r.nextRunAt = some n) :
    Accounted tz r z n w := by
  have hnone : w.fallsOf r.id = [] := by rw [World.fallsOf, hstart, List.filter_nil]
  refine ⟨hz, ⟨r, hr, n, rfl, rfl, rfl, hpaused, hn, le_rfl, ?_, ?_⟩, ?_⟩
  · rw [hnone]
    exact fun f hf => absurd hf List.not_mem_nil
  · rw [hnone]
    exact fun u _ hu => ⟨fun hlt => absurd hu (not_le.mpr hlt), fun ⟨f, hf, _⟩ => by cases hf⟩
  · rw [hnone]
    exact List.Pairwise.nil

/-- Of a routine that nobody edits, passes account for every occurrence, once. Each pass that finds
it due puts one run on record for all that fell due since, or has the waiting run stand for it,
moved forward if it was due earlier, and leaves the routine at the least occurrence after it; and
after a pass nothing up to it is left. -/
theorem passes_account_for (hcheck : r.schedule.check = .ok ()) {as : List Action}
    (hrun : Run (UneditedStep tz r.user) w as w') (hstart : w.falls = [])
    (hz : InZone tz w.tables r.user z) (hr : r ∈ w.tables.routines) (hpaused : r.paused = false)
    (hn : r.nextRunAt = some n) :
    Accounted tz r z n w' ∧
    ∀ now w'', w'.step tz (.fallDue r.user r.id now) = some w'' →
      (∀ row ∈ w'.tables.routines, row.id = r.id → ∀ due, row.nextRunAt = some due → due ≤ now →
        ∃ account latest next, w'.tables.account r.user = some account ∧
          Recorded account row now latest w'.tables w''.tables ∧
          IsGreatest {u | u = due ∨ (r.schedule.Runs z u ∧ due ≤ u ∧ u ≤ now)} latest ∧
          IsLeast {u | r.schedule.Runs z u ∧ now < u} next ∧
          { row with nextRunAt := some next, updatedAt := now } ∈ w''.tables.routines) ∧
      ∀ u, r.schedule.Runs z u → n ≤ u → u ≤ now →
        ∃ f ∈ w''.fallsOf r.id, f.due ≤ u ∧ u ≤ f.latest := by
  have hI := (accounted_of_mem hstart hz hr hpaused hn).of_run hcheck hrun
  refine ⟨hI, fun now w'' hstep => ?_⟩
  obtain ⟨row, hrow, next, hid, huser, hschedule, hpaused', hnext, -⟩ := hI.row
  have hcheck' : row.schedule.check = .ok () := by rw [hschedule]; exact hcheck
  have hz' : InZone tz w'.tables row.user z := by rw [huser]; exact hI.zone
  rw [← hid, ← huser] at hstep
  constructor
  · intro other hother hsame due hdue hle
    obtain rfl := mem_eq_of_id w'.tables.nodup hrow hother (hsame.trans hid.symm)
    obtain ⟨account, latest, next', haccount, hrecorded, hlatest, hleast, hin, -⟩ :=
      step_due hcheck' hz' hrow hpaused' hdue hle hstep
    rw [hschedule] at hlatest hleast
    rw [huser] at haccount
    exact ⟨account, latest, next', haccount, hrecorded, hlatest, hleast, hin⟩
  · intro u hu hnu hle
    have hI' : Accounted tz r z n w'' := by
      refine hI.step hcheck (a := .fallDue row.user row.id now) ⟨hstep, fun _ _ h => ?_⟩
      cases h
    obtain ⟨row', hrow', next', hid', -, -, -, hnext', -, -, hall⟩ := hI'.row
    refine (hall u hu hnu).mp ?_
    by_cases hdue : next ≤ now
    · obtain ⟨-, -, later, -, -, -, hleast, hin, -⟩ :=
        step_due hcheck' hz' hrow hpaused' hnext hdue hstep
      have hsame := mem_eq_of_id w''.tables.nodup hrow' hin (hid.trans hid'.symm)
      rw [← hsame] at hnext'
      obtain rfl : later = next' := Option.some.inj hnext'
      exact hle.trans_lt hleast.1.2
    · rcases mem_of_step hstep hrow with ⟨hkept, -⟩ | ⟨now', m, ha, -, -, hm, hm'⟩ | ⟨_, _, ha⟩
      · have hsame := mem_eq_of_id w''.tables.nodup hrow' hkept (hid.trans hid'.symm)
        rw [← hsame, hnext] at hnext'
        obtain rfl := Option.some.inj hnext'
        omega
      · obtain rfl : m = next := Option.some.inj (hm.symm.trans hnext)
        cases ha
        exact absurd hm' hdue
      · cases ha

/-- The zone of the routine's user, half past nine hours ahead. -/
def adelaide : TimeZone := ⟨34200000, [], trivial⟩

/-- The routine runs the next morning too. -/
theorem runs_next_morning : morning.schedule.Runs adelaide 1791149400000 :=
  (kept_of_shown (z := adelaide) HOUR_MS
    (show morning.schedule.Scheduled (Schedule.localTimeOf 20731 420) from
      ⟨20731, rfl, 420, by decide, rfl⟩) (by decide)).occurs

/-- One pass comes to the morning that is due, and one a day later to the next. -/
theorem passes_account_for_morning :
    ∃ w w', Run (UneditedStep twoZones 1) dueMorning
        [.fallDue 1 1 1791063005000, .tick 86400000] w ∧
      Accounted twoZones morning adelaide 1791063000000 w ∧
      w.step twoZones (.fallDue 1 1 1791149405000) = some w' ∧
      (∃ row ∈ w.tables.routines, ∃ account latest, 1791149400000 ≤ latest ∧
        Recorded account row 1791149405000 latest w.tables w'.tables) ∧
      ∃ f ∈ w'.fallsOf 1, f.due ≤ 1791149400000 ∧ 1791149400000 ≤ f.latest := by
  have hz : InZone twoZones dueMorning.tables 1 adelaide := ⟨_, rfl, rfl⟩
  obtain ⟨account, v, haccount, hpass, -, hrow, -⟩ :=
    step_fallDue twoZones (w := dueMorning) (r := morning) List.mem_cons_self rfl rfl
      (show (1791063000000 : ℤ) ≤ 1791063005000 by decide) le_rfl
  obtain rfl : ⟨1, DEFAULT_TIME_ZONE, false⟩ = account := Option.some.inj haccount
  have hclock : (1791149405000 : ℤ) ≤ v.clock + 86400000 := by
    have := step_clock_le hpass
    simp only [dueMorning] at this
    omega
  have hrun : Run (UneditedStep twoZones 1) dueMorning
      [.fallDue 1 1 1791063005000, .tick 86400000] { v with clock := v.clock + 86400000 } :=
    Run.cons ⟨hpass, fun _ _ h => by cases h⟩ (Run.single ⟨rfl, fun _ _ h => by cases h⟩)
  obtain ⟨hI, hlater⟩ := passes_account_for (r := morning) (n := 1791063000000) rfl hrun rfl hz
    List.mem_cons_self rfl rfl
  obtain ⟨next, hnext, hleast⟩ :=
    Schedule.exists_nextAfter (s := morning.schedule) rfl adelaide 1791063005000
  have hdue : next ≤ 1791149400000 := hleast.2 ⟨runs_next_morning, by decide⟩
  obtain ⟨-, w', -, hstep, -⟩ := step_fallDue twoZones
    (w := { v with clock := v.clock + 86400000 }) hrow rfl hnext (by omega) hclock
  obtain ⟨hrecords, hcovers⟩ := hlater 1791149405000 w' hstep
  obtain ⟨account, latest, -, -, hrecorded, hgreatest, -⟩ :=
    hrecords _ hrow rfl next hnext (by omega)
  exact ⟨_, w', hrun, hI, hstep,
    ⟨_, hrow, account, latest, hgreatest.2 (.inr ⟨runs_next_morning, hdue, by decide⟩), hrecorded⟩,
    hcovers _ runs_next_morning (by decide) (by decide)⟩

/-- As `dueMorning`, with a run by hand that waits. -/
def dueWhileWaiting : World :=
  { dueMorning with tables := { dueMorning.tables with
      runs := [⟨1, 1, 1, 1, .manual, 1791063005000, 1791063005000, none, .waiting, none⟩] } }

/-- A run by hand queued since stands for what was due, and is not moved. -/
theorem manual_run_not_moved :
    ∃ w, dueWhileWaiting.step twoZones (.fallDue 1 1 1791063005000) = some w ∧
      w.tables.runs = dueWhileWaiting.tables.runs := by
  obtain ⟨account, w, haccount, hstep, hrecorded, -⟩ :=
    step_fallDue twoZones (w := dueWhileWaiting) (r := morning) List.mem_cons_self rfl rfl
      (show (1791063000000 : ℤ) ≤ 1791063005000 by decide) le_rfl
  obtain rfl : ⟨1, DEFAULT_TIME_ZONE, false⟩ = account := Option.some.inj haccount
  refine ⟨w, hstep, ?_⟩
  obtain ⟨hfrom, hto⟩ := le_latestDue morning.schedule (storedZone twoZones DEFAULT_TIME_ZONE)
    (show (1791063000000 : ℤ) ≤ 1791063005000 by decide)
  cases hrecorded with
  | inserted run hruns hof hstate hmissed =>
      rcases hstate with ⟨-, hactive⟩ | ⟨-, active, hactive, hrunning⟩ | hstate
      · cases hactive
      · obtain rfl := Option.some.inj hactive
        exact absurd rfl hrunning
      · rcases hmissed.mp hstate with hdisabled | hlate
        · cases hdisabled
        · simp only [MISFIRE_WINDOW_MS, HOUR_MS] at hlate
          omega
  | coalesced active hactive hwaiting hruns htime =>
      rw [hruns]
      refine (List.map_congr_left fun run hrun => ?_).trans (List.map_id _)
      obtain rfl := List.mem_singleton.mp hrun
      rw [if_neg, id]
      simp only [Tables.isMoved, decide_eq_true_eq, not_and, not_lt]
      exact fun _ _ _ => hto

end Scheduler

end Bokkie
