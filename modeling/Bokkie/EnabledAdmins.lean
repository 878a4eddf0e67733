import Bokkie.AccountRoutes

/-!
# An enabled admin remains

Nobody disables their own account, so whoever disables an admin is an admin who remains. But the
session is looked at before the transaction that makes the change, and what was an enabled admin
then may be none as the change is made.
-/

namespace Bokkie.Accounts

open Tasks

namespace Tables

/-- The account is an admin's, and enabled. -/
def EnabledAdmin (t : Tables) (id : ℕ) : Prop :=
  ∃ row ∈ t.users, row.id = id ∧ row.role = .admin ∧ row.disabled = false

instance (t : Tables) (id : ℕ) : Decidable (t.EnabledAdmin id) :=
  inferInstanceAs (Decidable (∃ row ∈ t.users, _))

def HasEnabledAdmin (t : Tables) : Prop := ∃ row ∈ t.users, t.EnabledAdmin row.id

instance (t : Tables) : Decidable t.HasEnabledAdmin :=
  inferInstanceAs (Decidable (∃ row ∈ t.users, _))

theorem hasEnabledAdmin_iff {t : Tables} : t.HasEnabledAdmin ↔ ∃ id, t.EnabledAdmin id := by
  constructor
  · rintro ⟨row, -, h⟩
    exact ⟨row.id, h⟩
  · rintro ⟨id, row, hrow, rfl, hadmin⟩
    exact ⟨row, hrow, row, hrow, rfl, hadmin⟩

/-- Every enabled admin is one still. -/
def AdminsStay (t t' : Tables) : Prop := ∀ id, t.EnabledAdmin id → t'.EnabledAdmin id

namespace AdminsStay

variable {t t' : Tables}

theorem of_users (h : t'.users = t.users) : AdminsStay t t' := by
  rintro id ⟨row, hrow, hadmin⟩
  exact ⟨row, h ▸ hrow, hadmin⟩

theorem hasEnabledAdmin (h : AdminsStay t t') (hadmin : t.HasEnabledAdmin) :
    t'.HasEnabledAdmin := by
  rw [hasEnabledAdmin_iff] at hadmin ⊢
  obtain ⟨id, hid⟩ := hadmin
  exact ⟨id, h id hid⟩

end AdminsStay

variable {t t' : Tables} {now : ℤ}

/-- A change of an account leaves an enabled admin that it does not disable. -/
theorem EnabledAdmin.updateUser {id target : ℕ} {f : UserRow → UserRow} (h : t.EnabledAdmin id)
    (hid : ∀ row, (f row).id = row.id) (hrole : ∀ row, (f row).role = row.role)
    (hdisabled : id = target → ∀ row, row.disabled = false → (f row).disabled = false) :
    (t.updateUser target f).EnabledAdmin id := by
  obtain ⟨row, hrow, rfl, hadmin, henabled⟩ := h
  refine ⟨_, List.mem_map_of_mem hrow, ?_⟩
  by_cases htarget : row.id = target
  · rw [if_pos htarget]
    exact ⟨hid row, (hrole row).trans hadmin, hdisabled htarget row henabled⟩
  · rw [if_neg htarget]
    exact ⟨rfl, hadmin, henabled⟩

theorem adminsStay_insertUser {username displayName hash : String} {role : Role}
    {permissions : Permissions} {user : ℕ}
    (h : t.insertUser now username displayName role permissions hash = .ok (user, t')) :
    AdminsStay t t' := by
  obtain ⟨new, -, -, rfl⟩ := insertUser_ok h
  rintro id ⟨row, hrow, hadmin⟩
  exact ⟨row, List.mem_append_left _ hrow, hadmin⟩

theorem adminsStay_resetPassword {target : ℕ} {hash : String} {recorded : Option ℤ} :
    AdminsStay t ((t.updateUser target (resetPassword hash recorded)).revokeAllSessions now target
      none) := by
  intro id h
  exact h.updateUser (fun _ => rfl) (fun _ => rfl) fun _ _ henabled => henabled

theorem adminsStay_acknowledgePasswordReset (user session : ℕ) :
    AdminsStay t (t.acknowledgePasswordReset user session).2 := by
  unfold acknowledgePasswordReset
  split
  · intro id h
    exact h.updateUser (fun _ => rfl) (fun _ => rfl) fun _ _ henabled => henabled
  · exact .of_users rfl

theorem adminsStay_changeOwnPassword (user session : ℕ) (hash : String) :
    AdminsStay t (t.changeOwnPassword now user session hash) := by
  intro id h
  exact EnabledAdmin.updateUser h (fun _ => rfl) (fun _ => rfl) fun _ _ henabled => henabled

/-- Nobody disables their own account. -/
theorem ne_of_check {changes : AccountChanges} {admin target : ℕ} {row : Option UserRow}
    {found : Option String × UserRow} (h : changes.check admin target row = .ok found)
    (hdisables : changes.disabled = some true) : target ≠ admin := by
  intro hself
  simp [AccountChanges.check, hself, hdisables] at h
  cases h

/-- A change of an account leaves every enabled admin but one whom it disables. -/
theorem EnabledAdmin.adminUpdateUser {admin target id : ℕ} {changes : AccountChanges}
    {account : Account} (h : t.EnabledAdmin id)
    (hok : t.adminUpdateUser now admin target changes = .ok (account, t'))
    (hother : changes.disabled = some true → id ≠ target) : t'.EnabledAdmin id := by
  obtain ⟨displayName, rfl⟩ := adminUpdateUser_ok hok
  have hupdated : (t.updateUser target (changes.apply now displayName)).EnabledAdmin id := by
    refine h.updateUser (fun _ => rfl) (fun _ => rfl) fun htarget row henabled => ?_
    cases hdisabled : changes.disabled with
    | none => simpa [AccountChanges.apply, hdisabled] using henabled
    | some disabled =>
        cases disabled with
        | false => simp [AccountChanges.apply, hdisabled]
        | true => exact absurd htarget (hother hdisabled)
  split
  · exact hupdated
  · exact hupdated

/-- An enabled admin is left by a change that is made for one. -/
theorem hasEnabledAdmin_adminUpdateUser {admin target : ℕ} {changes : AccountChanges}
    {account : Account} (h : t.HasEnabledAdmin)
    (hok : t.adminUpdateUser now admin target changes = .ok (account, t'))
    (hstill : changes.disabled = some true → t.EnabledAdmin target → t.EnabledAdmin admin) :
    t'.HasEnabledAdmin := by
  rw [hasEnabledAdmin_iff] at h ⊢
  obtain ⟨id, hid⟩ := h
  by_cases hdisables : changes.disabled = some true ∧ id = target
  · obtain ⟨hdisabled, rfl⟩ := hdisables
    -- the admin it is made for is another one
    obtain ⟨found, hcheck, -⟩ := bind_eq_ok.mp hok
    have hne := ne_of_check hcheck hdisabled
    exact ⟨admin, (hstill hdisabled hid).adminUpdateUser hok fun _ => hne.symm⟩
  · exact ⟨id, hid.adminUpdateUser hok fun hdisabled htarget => hdisables ⟨hdisabled, htarget⟩⟩

end Tables

/-- An admin's account is disabled only for an admin whose own account is enabled as it is done. -/
def StillAdmin {β : Type} (op : AccountCall β) (w : AccountState) : Prop :=
  match op with
  | .adminUpdateUser _ admin target changes =>
    changes.disabled = some true → w.tables.EnabledAdmin target → w.tables.EnabledAdmin admin
  | _ => True

theorem hasEnabledAdmin_answer {hashing : Hashing} {w w' : AccountState} {i : ℕ}
    {choice : AccountChoice} {β : Type} {op : AccountCall β} {r : β}
    (h : w.tables.HasEnabledAdmin) (hstill : StillAdmin op w)
    (ha : w.answer hashing i choice op = some (r, w')) : w'.tables.HasEnabledAdmin := by
  cases op with
  | now | hashPassword =>
      obtain ⟨_, -, heq⟩ := Option.map_eq_some_iff.mp ha
      obtain ⟨-, rfl⟩ := Prod.mk.inj heq
      exact h
  | usernameExists | role | account | liveSession | verifyPassword | begin | succeeded | credentials
  | storedPassword | invitation =>
      obtain ⟨-, rfl⟩ := Prod.mk.inj (Option.some.inj ha)
      exact h
  | touchSession | revokeSession | withdrawInvitation =>
      obtain ⟨-, rfl⟩ := Prod.mk.inj (Option.some.inj ha)
      exact Tables.AdminsStay.hasEnabledAdmin (.of_users rfl) h
  | createSession | createInvitation =>
      obtain ⟨token, -, ha⟩ := Option.bind_eq_some_iff.mp ha
      split at ha
      · cases ha
      · obtain ⟨-, rfl⟩ := Prod.mk.inj (Option.some.inj ha)
        exact Tables.AdminsStay.hasEnabledAdmin (.of_users rfl) h
  | acknowledgePasswordReset user session =>
      obtain ⟨-, rfl⟩ := Prod.mk.inj (Option.some.inj ha)
      exact (Tables.adminsStay_acknowledgePasswordReset user session).hasEnabledAdmin h
  | changeOwnPassword now user session hash =>
      obtain ⟨-, rfl⟩ := Prod.mk.inj (Option.some.inj ha)
      exact (Tables.adminsStay_changeOwnPassword user session hash).hasEnabledAdmin h
  | bootstrapAdmin now username displayName hash =>
      rcases commit_cases (Option.some.inj ha) with ⟨user, t, hok, heq⟩ | ⟨failure, -, heq⟩
      · obtain ⟨-, rfl⟩ := Prod.mk.inj heq
        have hinsert := Tables.bootstrapAdmin_ok hok
        exact (Tables.adminsStay_insertUser hinsert).hasEnabledAdmin h
      · obtain ⟨-, rfl⟩ := Prod.mk.inj heq
        exact h
  | adminUpdateUser now admin target changes =>
      rcases commit_cases (Option.some.inj ha) with ⟨account, t, hok, heq⟩ | ⟨failure, -, heq⟩
      · obtain ⟨-, rfl⟩ := Prod.mk.inj heq
        exact Tables.hasEnabledAdmin_adminUpdateUser h hok hstill
      · obtain ⟨-, rfl⟩ := Prod.mk.inj heq
        exact h
  | adminResetPassword now admin target hash =>
      rcases commit_cases (Option.some.inj ha) with ⟨recorded, t, hok, heq⟩ | ⟨failure, -, heq⟩
      · obtain ⟨-, rfl⟩ := Prod.mk.inj heq
        obtain ⟨-, rfl⟩ := Tables.adminResetPassword_ok hok
        exact Tables.adminsStay_resetPassword.hasEnabledAdmin h
      · obtain ⟨-, rfl⟩ := Prod.mk.inj heq
        exact h
  | acceptInvitation now code username displayName role permissions hash =>
      rcases commit_cases (Option.some.inj ha) with ⟨user, t, hok, heq⟩ | ⟨failure, -, heq⟩
      · obtain ⟨-, rfl⟩ := Prod.mk.inj heq
        obtain ⟨t₁, hinsert, rfl⟩ := Tables.acceptInvitation_ok hok
        exact (Tables.adminsStay_insertUser hinsert).hasEnabledAdmin h
      · obtain ⟨-, rfl⟩ := Prod.mk.inj heq
        exact h

theorem hasEnabledAdmin_step {hashing : Hashing} {s t : State} {a : Action AccountChoice Request}
    (h : s.world.tables.HasEnabledAdmin) (ha : (system hashing).step s a = some t)
    (hmeets : System.Meets (fun _ {_} op w => StillAdmin op w) (fun _ _ => True) s a) :
    t.world.tables.HasEnabledAdmin := by
  cases a with
  | task i choice =>
      obtain ⟨β, op, r, next, choice, w, hi, hr, rfl⟩ := System.step_task _ ha
      exact hasEnabledAdmin_answer h (hmeets op next hi) hr
  | surroundings request =>
      have hstarted : some (⟨s.world, s.tasks ++ [request.prog]⟩ : State) = some t := ha
      rw [← Option.some.inj hstarted]
      exact h
  | restart => cases ha

/-- An enabled admin remains in every run in which no admin is disabled for one who no longer is an
enabled admin. -/
theorem enabled_admin_remains (hashing : Hashing) {as : List (Action AccountChoice Request)}
    {s t : State} (h : s.world.tables.HasEnabledAdmin)
    (hrun : Runs.Run (fun s a t => (system hashing).step s a = some t ∧
      System.Meets (fun _ {_} op w => StillAdmin op w) (fun _ _ => True) s a) s as t) :
    t.world.tables.HasEnabledAdmin :=
  hrun.invariant (I := fun s => s.world.tables.HasEnabledAdmin)
    (fun _ _ _ hs ha => hasEnabledAdmin_step hs ha.1 ha.2) h

section Example

/-- A second admin is invited and signs in. -/
def secondAdminRun : List (Action AccountChoice Request) :=
  signedInAdminRun ++
  [.surroundings (.createInvitation (some "one") .admin .default none none), .task 2 (.time 3),
    .task 2 .none, .task 2 (.time 4), .task 2 (.text "code"),
    .surroundings (.acceptInvitation "code" "ann" "Ann" "third password" "10.0.0.2"),
    .task 3 (.time 5), .task 3 .none, .task 3 .none, .task 3 (.text "pepr"), .task 3 .none,
    .task 3 .none, .task 3 .none, .task 3 (.text "two")]

def disabling : AccountChanges := ⟨none, some true, none, none, none⟩

/-- Each admin disables the other. -/
def disablingRequests : List (Action AccountChoice Request) :=
  [.surroundings (.updateUser (some "one") 2 disabling),
    .surroundings (.updateUser (some "two") 1 disabling)]

/-- Both requests are checked before either is applied: nobody is left to enable an account. -/
theorem admins_disable_each_other : ∃ as s bs t,
    Runs.Run (Runs.Steps (system saltedHashing).step) (initial .byName) as s ∧
    s.world.tables.HasEnabledAdmin ∧ Runs.Run (Runs.Steps (system saltedHashing).step) s bs t ∧
    ¬ t.world.tables.HasEnabledAdmin := by
  have h : (Runs.exec (system saltedHashing).step (initial .byName) secondAdminRun).any (fun s =>
      s.world.tables.HasEnabledAdmin ∧ (Runs.exec (system saltedHashing).step s
        (disablingRequests ++ [.task 4 (.time 6), .task 4 .none, .task 5 (.time 7), .task 5 .none,
          .task 4 (.time 8), .task 4 .none, .task 5 (.time 9), .task 5 .none])).any fun t =>
        ¬ t.world.tables.HasEnabledAdmin) = true := by
    decide +kernel
  obtain ⟨s, hs, hfacts⟩ := Option.any_eq_true .. |>.mp h
  obtain ⟨hadmin, hrest⟩ := of_decide_eq_true hfacts
  obtain ⟨t, ht, hnone⟩ := Option.any_eq_true .. |>.mp hrest
  exact ⟨_, s, _, t, Runs.run_of_exec hs, hadmin, Runs.run_of_exec ht, of_decide_eq_true hnone⟩

/-- A change of an account is made only for an admin whose account is enabled. -/
def isForEnabledAdmin (s : State) : Action AccountChoice Request → Bool
  | .task i _ => match s.tasks[i]? with
    | some (.call (.adminUpdateUser _ admin _ _) _) => s.world.tables.EnabledAdmin admin
    | _ => true
  | _ => true

theorem meets_of_isForEnabledAdmin {s : State} {a : Action AccountChoice Request}
    (h : isForEnabledAdmin s a = true) :
    System.Meets (fun _ {_} op w => StillAdmin op w) (fun _ _ => True) s a := by
  cases a with
  | task i choice =>
      intro β op next hi
      cases op with
      | adminUpdateUser now admin target changes =>
          intro _ _
          simpa [isForEnabledAdmin, hi] using h
      | _ => trivial
  | surroundings request => trivial
  | restart => trivial

/-- The second admin's request is checked after the first one's is applied, and refused. -/
theorem enabled_admin_remains_in_turn : ∃ t : State,
    ¬ t.world.tables.EnabledAdmin 2 ∧ t.world.tables.HasEnabledAdmin := by
  have h : (Runs.exec (system saltedHashing).step (initial .byName) secondAdminRun).any (fun s =>
      s.world.tables.HasEnabledAdmin ∧ (Runs.exec (fun s a => if isForEnabledAdmin s a then
          (system saltedHashing).step s a else none) s
        (disablingRequests ++ [.task 4 (.time 6), .task 4 .none, .task 4 (.time 7), .task 4 .none,
          .task 5 (.time 8), .task 5 .none])).any fun t => ¬ t.world.tables.EnabledAdmin 2) = true := by
    decide +kernel
  obtain ⟨s, -, hfacts⟩ := Option.any_eq_true .. |>.mp h
  obtain ⟨hadmin, hrest⟩ := of_decide_eq_true hfacts
  obtain ⟨t, ht, hdisabled⟩ := Option.any_eq_true .. |>.mp hrest
  have hrun := Runs.run_of_exec_checked (fun _ _ => meets_of_isForEnabledAdmin) ht
  exact ⟨t, of_decide_eq_true hdisabled, enabled_admin_remains saltedHashing hadmin hrun⟩

end Example

end Bokkie.Accounts
