import Bokkie.AccountRoutes

/-!
# Revoked credentials stay revoked

A reset, an own change and a disable revoke an account's sessions as they commit. What that is worth
depends on what is still on its way then: a sign-in that has taken the stored password and not yet
created its session, an own change that has and not yet written.
-/

namespace Bokkie.Accounts

open Tasks Journal

/-- The event ends the sessions of the account, all but the one an own change was made through. -/
def AccountEvent.revokes (user session : ℕ) : AccountEvent → Prop
  | .reset user' _ _ | .disabled user' => user' = user
  | .changed _ user' session' _ => user' = user ∧ session' ≠ session
  | _ => False

/-- What revoking credentials promises. -/
structure Revoked (w : AccountState) : Prop where
  /-- Every session was created by a sign-in that took the stored password. -/
  signedIn : ∀ session ∈ w.tables.sessions, ∃ task,
    .created task session.userId session.id ∈ w.journal ∧
      .signIn task session.userId ∈ w.journal
  /-- No session is left, whether the account is enabled or not, whose sign-in took the password
  before a reset, a disable, or an own change made through another session. -/
  sessions : ∀ session ∈ w.tables.sessions, session.revokedAt = none → ∀ task commit,
    .created task session.userId session.id ∈ w.journal →
    commit.revokes session.userId session.id →
    ¬ Precedes w.journal (.signIn task session.userId) commit
  /-- The stored password is that of the latest reset, unless a later change checked the current
  password against one stored since. -/
  password : ∀ before after user hash recorded,
    w.journal = before ++ .reset user hash recorded :: after →
    (∀ hash' recorded', .reset user hash' recorded' ∉ after) →
    ∀ row ∈ w.tables.users, row.id = user → row.passwordHash = hash ∨
      ∃ task session hash', .changed task user session hash' ∈ after ∧ .confirmed task user ∈ after
  /-- The record of a reset is cleared only through a session whose sign-in took the password
  since. -/
  acknowledged : ∀ before after user hash recorded session,
    w.journal = before ++ .reset user hash recorded :: after →
    .acknowledged user session ∈ after →
    ∃ task, .created task user session ∈ w.journal ∧ .signIn task user ∈ after
  /-- The record of the latest reset that made one stands until it is cleared so. -/
  record : ∀ before after user hash time,
    w.journal = before ++ .reset user hash (some time) :: after →
    (∀ hash' time', .reset user hash' (some time') ∉ after) →
    ∀ row ∈ w.tables.users, row.id = user → row.passwordResetByAdminAt = some time ∨
      ∃ session, .acknowledged user session ∈ after

/-- Nothing has revoked what a call goes by since its task took the stored password: the account's
sessions, where it creates one, and its password, where it changes it. -/
def StillGood (task : ℕ) {β : Type} (op : AccountCall β) (w : AccountState) : Prop :=
  match op with
  | .createSession _ user => ∀ commit, commit.revokes user (nextId (w.tables.sessions.map (·.id))) →
      ¬ Precedes w.journal (.signIn task user) commit
  | .changeOwnPassword _ user _ _ => ∀ hash recorded,
      ¬ Precedes w.journal (.confirmed task user) (.reset user hash recorded)
  | _ => True

/-- What a task knows of its own past. -/
structure SessionPhase where
  signIn : Option ℕ
  confirmed : Option ℕ

namespace SessionPhase

def Allows (φ : SessionPhase) {β : Type} : AccountCall β → Prop
  | .createSession _ user => φ.signIn = some user
  | .changeOwnPassword _ user _ _ => φ.confirmed = some user
  | _ => True

def after (φ : SessionPhase) : {β : Type} → AccountCall β → β → SessionPhase
  | _, .credentials _, row => { φ with signIn := row.map (·.id) }
  | _, .storedPassword user, _ => { φ with confirmed := some user }
  | _, .acceptInvitation _ _ _ _ _ _ _, .ok user => { φ with signIn := some user }
  | _, _, _ => φ

end SessionPhase

def sessionDiscipline : Discipline AccountCall SessionPhase where
  allows := fun φ {_} op => φ.Allows op
  after := fun φ {_} op r => φ.after op r

section Obeys

attribute [local irreducible] normaliseUsername normaliseDisplayName checkPassword

variable {α β : Type} {φ : SessionPhase}

theorem plain_session {op : AccountCall β} (h : op.plain) :
    φ.Allows op ∧ ∀ r, φ.after op r = φ := by
  cases op <;> first | exact ⟨trivial, fun _ => rfl⟩ | exact h.elim

theorem obeys_plain {p : Handler β} {f : β → Handler α} {Q : Except Failure α → SessionPhase → Prop}
    (hp : Plain p) (hf : ∀ b, sessionDiscipline.Obeys φ (f b).run Q)
    (herror : ∀ failure, Q (.error failure) φ) :
    sessionDiscipline.Obeys φ (p >>= f).run Q := by
  refine (Discipline.Obeys.of_only (fun {_ _ _} hop => plain_session hop) hp.only).runBind ?_ ?_
  · rintro b φ' rfl
    exact hf b
  · rintro failure φ' rfl
    exact herror failure

/-- From this phase on, a route makes only calls that it may. -/
def Safe (φ : SessionPhase) (p : Handler α) : Prop :=
  sessionDiscipline.Obeys φ p.run fun _ _ => True

theorem safe_plain {p : Handler β} {f : β → Handler α} (hp : Plain p) (hf : ∀ b, Safe φ (f b)) :
    Safe φ (p >>= f) := obeys_plain hp hf fun _ => trivial

theorem safe_call {op : AccountCall β} {f : β → Handler α} (h : φ.Allows op)
    (hf : ∀ b, Safe (φ.after op b) (f b)) : Safe φ (Handler.call op >>= f) :=
  obeys_call.mpr ⟨h, hf⟩

theorem safe_found {a : Option β} {failure : Failure} {f : β → Handler α}
    (hf : ∀ b, a = some b → Safe φ (f b)) : Safe φ (Handler.found a failure >>= f) :=
  obeys_found (fun _ => trivial) hf

/-- The account found by a password is the one whose stored password was taken. -/
theorem obeys_checkCredentials (username password : String) :
    sessionDiscipline.Obeys φ (checkCredentials username password).run fun r φ' =>
      ∀ account, r = .ok (some account) → φ'.signIn = some account.id := by
  refine obeys_call.mpr ⟨trivial, fun row => obeys_call.mpr ⟨trivial, fun ok => ?_⟩⟩
  intro account haccount
  obtain ⟨hmap, -⟩ := Option.filter_eq_some_iff.mp (Except.ok.inj haccount)
  obtain ⟨found, hfound, rfl⟩ := Option.map_eq_some_iff.mp hmap
  obtain ⟨rfl, -⟩ := Option.filter_eq_some_iff.mp hfound
  rfl

theorem safe_login (username password address : String) :
    Safe φ (Routes.login username password address) := by
  refine safe_plain (plain_call trivial) fun now => ?_
  refine safe_plain (plain_call trivial) fun accountExists => ?_
  refine safe_call trivial fun attempt => safe_found fun attempt hattempt => ?_
  refine (obeys_checkCredentials username password).runBind (fun account φ' hφ => ?_)
    fun _ _ _ => trivial
  refine safe_found fun account haccount => ?_
  have hsignIn := hφ account (congrArg _ haccount)
  exact safe_call trivial fun _ => safe_call hsignIn fun _ => trivial

theorem obeys_changeOwnPassword (now : ℤ) (user session : ℕ)
    (currentPassword newPassword : String) :
    Safe φ (changeOwnPassword now user session currentPassword newPassword) := by
  refine safe_plain (plain_ofResult _) fun _ => safe_call trivial fun stored => ?_
  refine safe_call trivial fun ok => ?_
  cases ok with
  | false => trivial
  | true => exact safe_plain (plain_call trivial) fun hash => safe_call rfl fun _ => trivial

theorem safe_changePassword (token : Option String) (currentPassword newPassword : String) :
    Safe φ (Routes.changePassword token currentPassword newPassword) := by
  refine safe_plain (plain_signedIn token) fun signedIn => safe_plain (plain_call trivial) fun now => ?_
  refine safe_call trivial fun attempt => safe_found fun attempt hattempt => ?_
  refine obeys_attempt (obeys_changeOwnPassword ..) fun result φ' _ => ?_
  have hrest : ∀ φ, Safe φ (Handler.ofResult result) := fun _ => trivial
  cases Routes.counts result with
  | true => exact hrest φ'
  | false => exact safe_call trivial fun _ => hrest _

/-- The account an invitation made is the one whose password it stored. -/
theorem obeys_acceptInvitation (now : ℤ) (code username displayName password : String) :
    sessionDiscipline.Obeys φ (acceptInvitation now code username displayName password).run
      fun r φ' => ∀ user, r = .ok user → φ'.signIn = some user := by
  unfold acceptInvitation
  refine obeys_ofResult (fun _ _ _ => nofun) fun username _ => ?_
  refine obeys_ofResult (fun _ _ _ => nofun) fun displayName _ => ?_
  refine obeys_ofResult (fun _ _ _ => nofun) fun _ _ => ?_
  refine obeys_call.mpr ⟨trivial, fun invitation => ?_⟩
  refine obeys_found (fun _ _ => nofun) fun invitation _ => ?_
  refine obeys_plain (plain_call trivial) (fun hash => ?_) fun _ _ => nofun
  refine obeys_transaction.mpr ⟨trivial, fun result user hresult => ?_⟩
  subst hresult
  rfl

theorem safe_acceptInvitation (code username displayName password address : String) :
    Safe φ (Routes.acceptInvitation code username displayName password address) := by
  refine safe_plain (plain_call trivial) fun now => safe_call trivial fun attempt => ?_
  refine safe_found fun attempt hattempt => ?_
  refine obeys_attempt (obeys_acceptInvitation ..) fun result φ' hφ => ?_
  have hrest : Safe φ' (do
      let user ← Handler.ofResult result
      let account ← Handler.found (← Handler.call (.account user)) .notFound
      let token ← Handler.call (.createSession now user)
      return (token, account)) := by
    refine obeys_ofResult (fun _ _ => trivial) fun user huser => ?_
    refine safe_plain (plain_call trivial) fun account => safe_found fun account _ => ?_
    exact safe_call (hφ user huser) fun _ => trivial
  cases Routes.counts result with
  | true => exact hrest
  | false => exact safe_call trivial fun _ => hrest

theorem obeys_request (request : Request) :
    sessionDiscipline.Obeys φ request.prog fun _ _ => True := by
  have hanswered : ∀ {α : Type} {p : Handler α}, Safe φ p →
      sessionDiscipline.Obeys φ (answered p) fun _ _ => True := fun h =>
    Discipline.obeys_bind.mpr h
  by_cases hplain : request.isPlain
  · exact (Discipline.Obeys.of_only (fun {_ _ _} hop => plain_session hop)
      (Request.plain_prog hplain)).mono fun _ _ _ => trivial
  · cases request with
    | login => exact hanswered (safe_login ..)
    | changePassword => exact hanswered (safe_changePassword ..)
    | acceptInvitation => exact hanswered (safe_acceptInvitation ..)
    | _ => exact absurd rfl hplain

end Obeys

/-- What is kept besides: every session and every account that the journal tells of is there. -/
structure SessionInvariant (w : AccountState) : Prop extends Revoked w where
  createdIds : ∀ task user id, .created task user id ∈ w.journal →
    ∃ session ∈ w.tables.sessions, session.id = id
  resetIds : ∀ user hash recorded, .reset user hash recorded ∈ w.journal →
    ∃ row ∈ w.tables.users, row.id = user

/-- What a task knows of its own past is in the journal. -/
def SessionKnowledge (w : AccountState) (i : ℕ) (φ : SessionPhase) : Prop :=
  (∀ user, φ.signIn = some user → .signIn i user ∈ w.journal) ∧
    ∀ user, φ.confirmed = some user → .confirmed i user ∈ w.journal

/-- Sessions that are there still, and as revoked as they were. -/
def SessionsStay (t t' : Tables) : Prop :=
  ∃ f : SessionRow → SessionRow, t'.sessions = t.sessions.map f ∧
    ∀ row, (f row).id = row.id ∧ (f row).userId = row.userId ∧
      ((f row).revokedAt = none → row.revokedAt = none)

/-- Accounts that are there still, and new ones. -/
structure UsersStay (t t' : Tables) : Prop where
  stay : ∀ row ∈ t.users, ∃ row' ∈ t'.users, row'.id = row.id
  same : ∀ row' ∈ t'.users, (∃ row ∈ t.users, row.id = row'.id ∧
      row.passwordHash = row'.passwordHash ∧
      row.passwordResetByAdminAt = row'.passwordResetByAdminAt) ∨
    ∀ row ∈ t.users, row.id ≠ row'.id

namespace SessionsStay

variable {t t' : Tables}

theorem of_eq (h : t'.sessions = t.sessions) : SessionsStay t t' :=
  ⟨id, by rw [h, List.map_id], fun _ => ⟨rfl, rfl, id⟩⟩

theorem of_mem (h : SessionsStay t t') {row' : SessionRow} (hrow : row' ∈ t'.sessions) :
    ∃ row ∈ t.sessions, row.id = row'.id ∧ row.userId = row'.userId ∧
      (row'.revokedAt = none → row.revokedAt = none) := by
  obtain ⟨f, hf, hkeeps⟩ := h
  rw [hf] at hrow
  obtain ⟨row, hmem, rfl⟩ := List.mem_map.mp hrow
  exact ⟨row, hmem, (hkeeps row).1.symm, (hkeeps row).2.1.symm, (hkeeps row).2.2⟩

theorem mem (h : SessionsStay t t') {row : SessionRow} (hrow : row ∈ t.sessions) :
    ∃ row' ∈ t'.sessions, row'.id = row.id := by
  obtain ⟨f, hf, hkeeps⟩ := h
  exact ⟨f row, hf ▸ List.mem_map_of_mem hrow, (hkeeps row).1⟩

theorem revokeAll (t : Tables) (now : ℤ) (user : ℕ) (except : Option ℕ) :
    SessionsStay t (t.revokeAllSessions now user except) := by
  refine ⟨_, rfl, fun row => ?_⟩
  split
  · exact ⟨rfl, rfl, nofun⟩
  · exact ⟨rfl, rfl, id⟩

end SessionsStay

namespace UsersStay

variable {t t' : Tables}

theorem of_eq (h : t'.users = t.users) : UsersStay t t' :=
  ⟨fun row hrow => ⟨row, h ▸ hrow, rfl⟩, fun row hrow => .inl ⟨row, h ▸ hrow, rfl, rfl, rfl⟩⟩

theorem insert {now : ℤ} {username displayName hash : String} {role : Role}
    {permissions : Permissions} {user : ℕ}
    (h : t.insertUser now username displayName role permissions hash = .ok (user, t')) :
    UsersStay t t' ∧ t'.sessions = t.sessions := by
  obtain ⟨row, hid, hnext, rfl⟩ := Tables.insertUser_ok h
  refine ⟨⟨fun old hold => ⟨old, List.mem_append_left _ hold, rfl⟩, fun row' hrow' => ?_⟩, rfl⟩
  rcases List.mem_append.mp hrow' with hold | hnew
  · exact .inl ⟨row', hold, rfl, rfl, rfl⟩
  · refine .inr fun old hold => ?_
    rw [List.mem_singleton.mp hnew, hid, hnext]
    exact (lt_nextId (List.mem_map_of_mem hold)).ne

end UsersStay

section Steps

variable {w w' : AccountState} {e : AccountEvent}

/-- The tables change in nothing that matters here. -/
theorem SessionInvariant.tables (h : SessionInvariant w) (hjournal : w'.journal = w.journal)
    (hsessions : SessionsStay w.tables w'.tables) (husers : UsersStay w.tables w'.tables) :
    SessionInvariant w' where
  signedIn := by
    intro row' hrow'
    obtain ⟨row, hrow, hid, huser, -⟩ := hsessions.of_mem hrow'
    rw [hjournal, ← hid, ← huser]
    exact h.signedIn row hrow
  sessions := by
    intro row' hrow' hlive
    obtain ⟨row, hrow, hid, huser, hrevoked⟩ := hsessions.of_mem hrow'
    rw [hjournal, ← hid, ← huser]
    exact h.sessions row hrow (hrevoked hlive)
  password := by
    intro before after user hash recorded hsplit hlast row' hrow' hid
    rw [hjournal] at hsplit
    rcases husers.same row' hrow' with ⟨row, hrow, hsame, hhash, -⟩ | hnew
    · rw [← hhash]
      exact h.password before after user hash recorded hsplit hlast row hrow (hsame.trans hid)
    · obtain ⟨row, hrow, hsame⟩ := h.resetIds user hash recorded (by simp [hsplit])
      exact absurd (hsame.trans hid.symm) (hnew row hrow)
  acknowledged := by
    rw [hjournal]
    exact h.acknowledged
  record := by
    intro before after user hash time hsplit hlast row' hrow' hid
    rw [hjournal] at hsplit
    rcases husers.same row' hrow' with ⟨row, hrow, hsame, -, hreset⟩ | hnew
    · rw [← hreset]
      exact h.record before after user hash time hsplit hlast row hrow (hsame.trans hid)
    · obtain ⟨row, hrow, hsame⟩ := h.resetIds user hash (some time) (by simp [hsplit])
      exact absurd (hsame.trans hid.symm) (hnew row hrow)
  createdIds := by
    intro task user id hmem
    obtain ⟨row, hrow, hid⟩ := h.createdIds task user id (hjournal ▸ hmem)
    obtain ⟨row', hrow', hid'⟩ := hsessions.mem hrow
    exact ⟨row', hrow', hid'.trans hid⟩
  resetIds := by
    intro user hash recorded hmem
    obtain ⟨row, hrow, hid⟩ := h.resetIds user hash recorded (hjournal ▸ hmem)
    obtain ⟨row', hrow', hid'⟩ := husers.stay row hrow
    exact ⟨row', hrow', hid'.trans hid⟩

/-- An event after which nothing more is asked of the accounts. -/
def AccountEvent.quiet : AccountEvent → Prop
  | .began _ _ _ _ | .succeeded _ _ | .verified _ _ | .lookedUp _ _ | .signIn _ _
  | .confirmed _ _ => True
  | _ => False

section Snoc

variable (h : SessionInvariant w) (hjournal : w'.journal = w.journal ++ [e])

include h hjournal

theorem signedIn_snoc (hsessions : SessionsStay w.tables w'.tables) :
    ∀ row ∈ w'.tables.sessions, ∃ task, .created task row.userId row.id ∈ w'.journal ∧
      .signIn task row.userId ∈ w'.journal := by
  intro row' hrow'
  obtain ⟨row, hrow, hid, huser, -⟩ := hsessions.of_mem hrow'
  obtain ⟨task, hcreated, hsignIn⟩ := h.signedIn row hrow
  rw [hjournal, ← hid, ← huser]
  exact ⟨task, List.mem_append_left _ hcreated, List.mem_append_left _ hsignIn⟩

theorem sessions_snoc (hsessions : SessionsStay w.tables w'.tables)
    (he : ∀ task user session, e ≠ .created task user session)
    (hrevokes : ∀ row ∈ w'.tables.sessions, row.revokedAt = none →
      ¬ e.revokes row.userId row.id) :
    ∀ row ∈ w'.tables.sessions, row.revokedAt = none → ∀ task commit,
      .created task row.userId row.id ∈ w'.journal → commit.revokes row.userId row.id →
      ¬ Precedes w'.journal (.signIn task row.userId) commit := by
  intro row' hrow' hlive task commit hcreated hcommit hprecedes
  obtain ⟨row, hrow, hid, huser, hrevoked⟩ := hsessions.of_mem hrow'
  rw [hjournal] at hcreated hprecedes
  rcases precedes_snoc.mp hprecedes with hprecedes | ⟨-, rfl⟩
  · rcases List.mem_append.mp hcreated with hcreated | hnew
    · rw [← hid, ← huser] at hcreated hcommit
      rw [← huser] at hprecedes
      exact h.sessions row hrow (hrevoked hlive) task commit hcreated hcommit hprecedes
    · exact he _ _ _ (List.mem_singleton.mp hnew).symm
  · exact hrevokes row' hrow' hlive hcommit

theorem password_snoc
    (hreset : ∀ user hash recorded, e = .reset user hash recorded →
      ∀ row ∈ w'.tables.users, row.id = user → row.passwordHash = hash)
    (hrows : ∀ row' ∈ w'.tables.users,
      (∃ row ∈ w.tables.users, row.id = row'.id ∧ row.passwordHash = row'.passwordHash) ∨
      (∀ row ∈ w.tables.users, row.id ≠ row'.id) ∨
      (∃ task session hash, e = .changed task row'.id session hash ∧
        .confirmed task row'.id ∈ w.journal ∧ ∀ hash recorded,
          ¬ Precedes w.journal (.confirmed task row'.id) (.reset row'.id hash recorded)) ∨
      ∃ hash recorded, e = .reset row'.id hash recorded) :
    ∀ before after user hash recorded,
      w'.journal = before ++ .reset user hash recorded :: after →
      (∀ hash' recorded', .reset user hash' recorded' ∉ after) →
      ∀ row ∈ w'.tables.users, row.id = user → row.passwordHash = hash ∨
        ∃ task session hash', .changed task user session hash' ∈ after ∧
          .confirmed task user ∈ after := by
  intro before after user hash recorded hsplit hlast row' hrow' hid
  rw [hjournal] at hsplit
  rcases snoc_eq_append_cons.mp hsplit with ⟨-, rfl, -⟩ | ⟨rest, rfl, hold⟩
  · exact .inl (hreset user hash recorded rfl row' hrow' hid)
  · have hlast' : ∀ hash' recorded', .reset user hash' recorded' ∉ rest := fun hash' recorded' hmem =>
      hlast hash' recorded' (List.mem_append_left _ hmem)
    have hmem : .reset user hash recorded ∈ w.journal := by simp [hold]
    rcases hrows row' hrow' with ⟨row, hrow, hsame, hhash⟩ | hnew |
        ⟨task, session, hash', rfl, hconfirmed, hgood⟩ | ⟨hash', recorded', rfl⟩
    · rw [← hhash]
      refine (h.password before rest user hash recorded hold hlast' row hrow
        (hsame.trans hid)).imp_right ?_
      rintro ⟨task, session, hash', hchanged, hconfirmed⟩
      exact ⟨task, session, hash', List.mem_append_left _ hchanged,
        List.mem_append_left _ hconfirmed⟩
    · obtain ⟨row, hrow, hsame⟩ := h.resetIds user hash recorded hmem
      exact absurd (hsame.trans hid.symm) (hnew row hrow)
    · -- the password it checked was stored since the reset
      subst hid
      refine .inr ⟨task, session, hash', List.mem_append_right _ (by simp),
        List.mem_append_left _ ?_⟩
      rw [hold] at hconfirmed
      rcases List.mem_append.mp hconfirmed with hbefore | hafter
      · exact absurd (precedes_iff.mpr ⟨before, rest, hold, hbefore⟩) (hgood hash recorded)
      · exact (List.mem_cons.mp hafter).resolve_left nofun
    · exact absurd (by simp [hid]) (hlast hash' recorded')

theorem acknowledged_snoc (he : ∀ user session, e ≠ .acknowledged user session) :
    ∀ before after user hash recorded session,
      w'.journal = before ++ .reset user hash recorded :: after →
      .acknowledged user session ∈ after →
      ∃ task, .created task user session ∈ w'.journal ∧ .signIn task user ∈ after := by
  intro before after user hash recorded session hsplit hmem
  rw [hjournal] at hsplit ⊢
  rcases snoc_eq_append_cons.mp hsplit with ⟨-, -, rfl⟩ | ⟨rest, rfl, hold⟩
  · cases hmem
  · have hmem' : .acknowledged user session ∈ rest :=
      (List.mem_append.mp hmem).resolve_right fun hnew =>
        he user session (List.mem_singleton.mp hnew).symm
    obtain ⟨task, hcreated, hsignIn⟩ :=
      h.acknowledged before rest user hash recorded session hold hmem'
    exact ⟨task, List.mem_append_left _ hcreated, List.mem_append_left _ hsignIn⟩

theorem record_snoc
    (hreset : ∀ user hash time, e = .reset user hash (some time) →
      ∀ row ∈ w'.tables.users, row.id = user → row.passwordResetByAdminAt = some time)
    (hrows : ∀ row' ∈ w'.tables.users,
      (∃ row ∈ w.tables.users, row.id = row'.id ∧
        row.passwordResetByAdminAt = row'.passwordResetByAdminAt) ∨
      (∀ row ∈ w.tables.users, row.id ≠ row'.id) ∨
      (∃ session, e = .acknowledged row'.id session) ∨
      ∃ hash time, e = .reset row'.id hash (some time)) :
    ∀ before after user hash time,
      w'.journal = before ++ .reset user hash (some time) :: after →
      (∀ hash' time', .reset user hash' (some time') ∉ after) →
      ∀ row ∈ w'.tables.users, row.id = user → row.passwordResetByAdminAt = some time ∨
        ∃ session, .acknowledged user session ∈ after := by
  intro before after user hash time hsplit hlast row' hrow' hid
  rw [hjournal] at hsplit
  rcases snoc_eq_append_cons.mp hsplit with ⟨-, rfl, -⟩ | ⟨rest, rfl, hold⟩
  · exact .inl (hreset user hash time rfl row' hrow' hid)
  · have hlast' : ∀ hash' time', .reset user hash' (some time') ∉ rest := fun hash' time' hmem =>
      hlast hash' time' (List.mem_append_left _ hmem)
    have hmem : .reset user hash (some time) ∈ w.journal := by simp [hold]
    rcases hrows row' hrow' with ⟨row, hrow, hsame, htime⟩ | hnew | ⟨session, rfl⟩ |
        ⟨hash', time', rfl⟩
    · rw [← htime]
      refine (h.record before rest user hash time hold hlast' row hrow
        (hsame.trans hid)).imp_right ?_
      rintro ⟨session, hacknowledged⟩
      exact ⟨session, List.mem_append_left _ hacknowledged⟩
    · obtain ⟨row, hrow, hsame⟩ := h.resetIds user hash (some time) hmem
      exact absurd (hsame.trans hid.symm) (hnew row hrow)
    · exact .inr ⟨session, List.mem_append_right _ (by simp [hid])⟩
    · exact absurd (by simp [hid]) (hlast hash' time')

theorem createdIds_snoc (hsessions : SessionsStay w.tables w'.tables)
    (he : ∀ task user session, e ≠ .created task user session) :
    ∀ task user id, .created task user id ∈ w'.journal →
      ∃ row ∈ w'.tables.sessions, row.id = id := by
  intro task user id hmem
  rw [hjournal] at hmem
  have hold := (List.mem_append.mp hmem).resolve_right fun hnew =>
    he task user id (List.mem_singleton.mp hnew).symm
  obtain ⟨row, hrow, hid⟩ := h.createdIds task user id hold
  obtain ⟨row', hrow', hid'⟩ := hsessions.mem hrow
  exact ⟨row', hrow', hid'.trans hid⟩

theorem resetIds_snoc
    (hstay : ∀ row ∈ w.tables.users, ∃ row' ∈ w'.tables.users, row'.id = row.id)
    (he : ∀ user hash recorded, e = .reset user hash recorded →
      ∃ row ∈ w.tables.users, row.id = user) :
    ∀ user hash recorded, .reset user hash recorded ∈ w'.journal →
      ∃ row ∈ w'.tables.users, row.id = user := by
  intro user hash recorded hmem
  rw [hjournal] at hmem
  have hold : ∃ row ∈ w.tables.users, row.id = user := by
    rcases List.mem_append.mp hmem with hold | hnew
    · exact h.resetIds user hash recorded hold
    · exact he user hash recorded (List.mem_singleton.mp hnew).symm
  obtain ⟨row, hrow, hid⟩ := hold
  obtain ⟨row', hrow', hid'⟩ := hstay row hrow
  exact ⟨row', hrow', hid'.trans hid⟩

end Snoc

theorem SessionInvariant.quiet (h : SessionInvariant w) (hquiet : e.quiet) :
    SessionInvariant (w.record [e]) where
  signedIn := signedIn_snoc h rfl (.of_eq rfl)
  sessions := sessions_snoc h rfl (.of_eq rfl) (by rintro _ _ _ rfl; exact hquiet)
    fun _ _ _ hrevokes => by cases e <;> first | exact hquiet | exact hrevokes
  password := password_snoc h rfl (by rintro _ _ _ rfl; exact hquiet.elim)
    fun row hrow => .inl ⟨row, hrow, rfl, rfl⟩
  acknowledged := acknowledged_snoc h rfl (by rintro _ _ rfl; exact hquiet)
  record := record_snoc h rfl (by rintro _ _ _ rfl; exact hquiet.elim)
    fun row hrow => .inl ⟨row, hrow, rfl, rfl⟩
  createdIds := createdIds_snoc h rfl (.of_eq rfl) (by rintro _ _ _ rfl; exact hquiet)
  resetIds := resetIds_snoc h rfl (fun row hrow => ⟨row, hrow, rfl⟩)
    (by rintro _ _ _ rfl; exact hquiet.elim)

theorem SessionInvariant.quiets {es : List AccountEvent} (h : SessionInvariant w)
    (hquiet : ∀ e ∈ es, e.quiet) : SessionInvariant (w.record es) := by
  induction es generalizing w with
  | nil => simpa only [AccountState.record, List.append_nil] using h
  | cons e es ih =>
      have hrest := ih (h.quiet (hquiet e (by simp))) fun e he => hquiet e (by simp [he])
      simpa only [AccountState.record, List.append_assoc, List.singleton_append] using hrest

/-- Updating one account. -/
theorem mem_updateUser {t : Tables} {id : ℕ} {f : UserRow → UserRow} {row' : UserRow}
    (h : row' ∈ (t.updateUser id f).users) :
    ∃ row ∈ t.users, (row.id ≠ id ∧ row' = row) ∨ (row.id = id ∧ row' = f row) := by
  obtain ⟨row, hrow, rfl⟩ := List.mem_map.mp h
  refine ⟨row, hrow, ?_⟩
  by_cases hid : row.id = id
  · exact .inr ⟨hid, if_pos hid⟩
  · exact .inl ⟨hid, if_neg hid⟩

theorem updateUser_stay {t : Tables} {id : ℕ} (f : UserRow → UserRow)
    (hf : ∀ row, (f row).id = row.id) {row : UserRow} (h : row ∈ t.users) :
    ∃ row' ∈ (t.updateUser id f).users, row'.id = row.id := by
  refine ⟨_, List.mem_map_of_mem h, ?_⟩
  split
  · exact hf row
  · rfl

theorem UsersStay.updateUser (t : Tables) (id : ℕ) {f : UserRow → UserRow}
    (hf : ∀ row, (f row).id = row.id ∧ (f row).passwordHash = row.passwordHash ∧
      (f row).passwordResetByAdminAt = row.passwordResetByAdminAt) :
    UsersStay t (t.updateUser id f) where
  stay := fun row hrow => updateUser_stay f (fun row => (hf row).1) hrow
  same := by
    intro row' hrow'
    obtain ⟨row, hrow, ⟨-, rfl⟩ | ⟨-, rfl⟩⟩ := mem_updateUser hrow'
    · exact .inl ⟨row', hrow, rfl, rfl, rfl⟩
    · exact .inl ⟨row, hrow, (hf row).1.symm, (hf row).2.1.symm, (hf row).2.2.symm⟩

/-- No session is left of an account whose sessions were all revoked, but the one spared. -/
theorem mem_revokeAllSessions {t : Tables} {now : ℤ} {user : ℕ} {except : Option ℕ}
    {row : SessionRow} (h : row ∈ (t.revokeAllSessions now user except).sessions)
    (hlive : row.revokedAt = none) (huser : row.userId = user) : some row.id = except := by
  obtain ⟨old, -, rfl⟩ := List.mem_map.mp h
  split at hlive
  · cases hlive
  · next hspared =>
      rw [if_neg hspared] at huser ⊢
      by_contra hne
      exact hspared ⟨huser, hlive, hne⟩

theorem SessionInvariant.createSession {now : ℤ} {user task : ℕ} {tokenHash : String}
    (h : SessionInvariant w) (hsignIn : .signIn task user ∈ w.journal)
    (hgood : StillGood task (.createSession now user) w) :
    SessionInvariant ((w.withTables (w.tables.createSession now user tokenHash)).record
      [.created task user (nextId (w.tables.sessions.map (·.id)))]) where
  signedIn := by
    intro row hrow
    rcases List.mem_append.mp hrow with hold | hnew
    · obtain ⟨task', hcreated, hsignIn'⟩ := h.signedIn row hold
      exact ⟨task', List.mem_append_left _ hcreated, List.mem_append_left _ hsignIn'⟩
    · obtain rfl := List.mem_singleton.mp hnew
      exact ⟨task, List.mem_append_right _ (by simp), List.mem_append_left _ hsignIn⟩
  sessions := by
    intro row hrow hlive task' commit hcreated hrevokes hprecedes
    rcases precedes_snoc.mp hprecedes with hprecedes | ⟨-, rfl⟩
    · rcases List.mem_append.mp hrow with hold | hnew
      · rcases List.mem_append.mp hcreated with hcreated | hnew
        · exact h.sessions row hold hlive task' commit hcreated hrevokes hprecedes
        · -- a new session's id is no old one's
          injection List.mem_singleton.mp hnew with _ _ hid
          exact absurd hid (lt_nextId (List.mem_map_of_mem hold)).ne
      · obtain rfl := List.mem_singleton.mp hnew
        rcases List.mem_append.mp hcreated with hcreated | hnew
        · obtain ⟨old, hold, hid⟩ := h.createdIds task' user _ hcreated
          exact absurd hid (lt_nextId (List.mem_map_of_mem hold)).ne
        · injection List.mem_singleton.mp hnew with htask
          exact hgood commit hrevokes (htask ▸ hprecedes)
    · exact hrevokes
  password := password_snoc h rfl nofun fun row hrow => .inl ⟨row, hrow, rfl, rfl⟩
  acknowledged := acknowledged_snoc h rfl nofun
  record := record_snoc h rfl nofun fun row hrow => .inl ⟨row, hrow, rfl, rfl⟩
  createdIds := by
    intro task' user' id hmem
    rcases List.mem_append.mp hmem with hold | hnew
    · obtain ⟨row, hrow, hid⟩ := h.createdIds task' user' id hold
      exact ⟨row, List.mem_append_left _ hrow, hid⟩
    · injection List.mem_singleton.mp hnew with _ _ hid
      exact ⟨_, List.mem_append_right _ (List.mem_singleton_self _), hid.symm⟩
  resetIds := resetIds_snoc h rfl (fun row hrow => ⟨row, hrow, rfl⟩) nofun

theorem SessionInvariant.changeOwnPassword {now : ℤ} {user session task : ℕ} {hash : String}
    (h : SessionInvariant w) (hconfirmed : .confirmed task user ∈ w.journal)
    (hgood : StillGood task (.changeOwnPassword now user session hash) w) :
    SessionInvariant ((w.withTables (w.tables.changeOwnPassword now user session hash)).record
      [.changed task user session hash]) := by
  have hsessions : SessionsStay w.tables (w.tables.changeOwnPassword now user session hash) :=
    SessionsStay.revokeAll (w.tables.updateUser user _) now user (some session)
  exact
    { signedIn := signedIn_snoc h rfl hsessions
      sessions := sessions_snoc h rfl hsessions nofun fun row hrow hlive hrevokes =>
        hrevokes.2 (Option.some.inj (mem_revokeAllSessions hrow hlive hrevokes.1.symm)).symm
      password := password_snoc h rfl nofun fun row' hrow' => by
        obtain ⟨row, hrow, ⟨-, rfl⟩ | ⟨hid, rfl⟩⟩ := mem_updateUser hrow'
        · exact .inl ⟨row', hrow, rfl, rfl⟩
        · exact .inr (.inr (.inl ⟨task, session, hash, by rw [hid], hid ▸ hconfirmed,
            hid ▸ hgood⟩))
      acknowledged := acknowledged_snoc h rfl nofun
      record := record_snoc h rfl nofun fun row' hrow' => by
        obtain ⟨row, hrow, ⟨-, rfl⟩ | ⟨-, rfl⟩⟩ := mem_updateUser hrow'
        · exact .inl ⟨row', hrow, rfl, rfl⟩
        · exact .inl ⟨row, hrow, rfl, rfl⟩
      createdIds := createdIds_snoc h rfl hsessions nofun
      resetIds := resetIds_snoc h rfl (fun row hrow =>
        updateUser_stay (fun row => { row with passwordHash := hash }) (fun _ => rfl) hrow) nofun }

theorem SessionInvariant.adminResetPassword {now : ℤ} {admin target : ℕ} {hash : String}
    {recorded : Option ℤ} {t : Tables} (h : SessionInvariant w)
    (hreset : w.tables.adminResetPassword now admin target hash = .ok (recorded, t)) :
    SessionInvariant ((w.withTables t).record [.reset target hash recorded]) := by
  obtain ⟨htarget, rfl⟩ := Tables.adminResetPassword_ok hreset
  have hsessions := SessionsStay.revokeAll
    (w.tables.updateUser target (Tables.resetPassword hash recorded)) now target none
  exact
    { signedIn := signedIn_snoc h rfl hsessions
      sessions := sessions_snoc h rfl hsessions nofun fun row hrow hlive hrevokes =>
        nomatch mem_revokeAllSessions hrow hlive hrevokes.symm
      password := by
        refine password_snoc h rfl ?_ fun row' hrow' => ?_
        · rintro user hash' recorded' he row' hrow' hid
          injection he with huser hhash
          obtain ⟨row, hrow, ⟨hne, rfl⟩ | ⟨-, rfl⟩⟩ := mem_updateUser hrow'
          · exact absurd (hid.trans huser.symm) hne
          · exact hhash
        · obtain ⟨row, hrow, ⟨-, rfl⟩ | ⟨hid, rfl⟩⟩ := mem_updateUser hrow'
          · exact .inl ⟨row', hrow, rfl, rfl⟩
          · exact .inr (.inr (.inr ⟨hash, recorded, by rw [← hid]; rfl⟩))
      acknowledged := acknowledged_snoc h rfl nofun
      record := by
        refine record_snoc h rfl ?_ fun row' hrow' => ?_
        · rintro user hash' time he row' hrow' hid
          injection he with huser hhash hrecorded
          subst hrecorded
          obtain ⟨row, hrow, ⟨hne, rfl⟩ | ⟨-, rfl⟩⟩ := mem_updateUser hrow'
          · exact absurd (hid.trans huser.symm) hne
          · rfl
        · obtain ⟨row, hrow, ⟨-, rfl⟩ | ⟨hid, rfl⟩⟩ := mem_updateUser hrow'
          · exact .inl ⟨row', hrow, rfl, rfl⟩
          · cases recorded with
            | none => exact .inl ⟨row, hrow, rfl, rfl⟩
            | some time => exact .inr (.inr (.inr ⟨hash, time, by rw [← hid]; rfl⟩))
      createdIds := createdIds_snoc h rfl hsessions nofun
      resetIds := resetIds_snoc h rfl (fun row hrow =>
          updateUser_stay (Tables.resetPassword hash recorded) (fun _ => rfl) hrow)
        fun user hash' recorded' he => by
          injection he with huser
          exact huser ▸ htarget }

theorem SessionInvariant.adminUpdateUser {now : ℤ} {admin target : ℕ} {changes : AccountChanges}
    {account : Account} {t : Tables} (h : SessionInvariant w)
    (hupdate : w.tables.adminUpdateUser now admin target changes = .ok (account, t)) :
    SessionInvariant ((w.withTables t).record (disables target changes)) := by
  obtain ⟨displayName, rfl⟩ := Tables.adminUpdateUser_ok hupdate
  have husers := UsersStay.updateUser w.tables target (f := changes.apply now displayName)
    fun row => ⟨rfl, rfl, rfl⟩
  unfold disables
  by_cases hdisabled : changes.disabled = some true
  · rw [if_pos hdisabled, if_pos hdisabled]
    have hsessions := SessionsStay.revokeAll
      (w.tables.updateUser target (changes.apply now displayName)) now target none
    have hrows : ∀ row' ∈ (w.tables.updateUser target (changes.apply now displayName)).users,
        ∃ row ∈ w.tables.users, row.id = row'.id ∧ row.passwordHash = row'.passwordHash ∧
          row.passwordResetByAdminAt = row'.passwordResetByAdminAt := fun row' hrow' => by
      obtain ⟨row, hrow, ⟨-, rfl⟩ | ⟨-, rfl⟩⟩ := mem_updateUser hrow'
      · exact ⟨row', hrow, rfl, rfl, rfl⟩
      · exact ⟨row, hrow, rfl, rfl, rfl⟩
    exact
      { signedIn := signedIn_snoc h rfl hsessions
        sessions := sessions_snoc h rfl hsessions nofun fun row hrow hlive hrevokes =>
          nomatch mem_revokeAllSessions hrow hlive hrevokes.symm
        password := password_snoc h rfl nofun fun row' hrow' => by
          obtain ⟨row, hrow, hid, hhash, -⟩ := hrows row' hrow'
          exact .inl ⟨row, hrow, hid, hhash⟩
        acknowledged := acknowledged_snoc h rfl nofun
        record := record_snoc h rfl nofun fun row' hrow' => by
          obtain ⟨row, hrow, hid, -, hreset⟩ := hrows row' hrow'
          exact .inl ⟨row, hrow, hid, hreset⟩
        createdIds := createdIds_snoc h rfl hsessions nofun
        resetIds := resetIds_snoc h rfl (fun row hrow => husers.stay row hrow) nofun }
  · rw [if_neg hdisabled, if_neg hdisabled]
    exact h.tables (List.append_nil _) (.of_eq rfl) husers

theorem SessionInvariant.acknowledgePasswordReset {user session : ℕ} (h : SessionInvariant w)
    (hlive : (w.tables.acknowledgePasswordReset user session).1 = true) :
    SessionInvariant ((w.withTables (w.tables.acknowledgePasswordReset user session).2).record
      [.acknowledged user session]) := by
  unfold Tables.acknowledgePasswordReset at hlive ⊢
  by_cases hany : w.tables.sessions.any fun row =>
      row.id = session ∧ row.userId = user ∧ row.revokedAt = none
  · rw [if_pos hany]
    obtain ⟨row, hrow, hsession⟩ := List.any_eq_true.mp hany
    obtain ⟨rfl, rfl, hunrevoked⟩ := of_decide_eq_true hsession
    have hrows : ∀ row' ∈ (w.tables.updateUser row.userId fun row =>
        { row with passwordResetByAdminAt := none }).users, ∃ old ∈ w.tables.users,
          old.id = row'.id ∧ old.passwordHash = row'.passwordHash ∧
          (old.passwordResetByAdminAt = row'.passwordResetByAdminAt ∨ row'.id = row.userId) := by
      intro row' hrow'
      obtain ⟨old, hold, ⟨-, rfl⟩ | ⟨hid, rfl⟩⟩ := mem_updateUser hrow'
      · exact ⟨row', hold, rfl, rfl, .inl rfl⟩
      · exact ⟨old, hold, rfl, rfl, .inr hid⟩
    exact
      { signedIn := signedIn_snoc h rfl (.of_eq rfl)
        sessions := sessions_snoc h rfl (.of_eq rfl) nofun fun _ _ _ => id
        password := password_snoc h rfl nofun fun row' hrow' => by
          obtain ⟨old, hold, hid, hhash, -⟩ := hrows row' hrow'
          exact .inl ⟨old, hold, hid, hhash⟩
        acknowledged := by
          intro before after user hash recorded session hsplit hmem
          rcases snoc_eq_append_cons.mp hsplit with ⟨-, -, rfl⟩ | ⟨rest, rfl, hold⟩
          · cases hmem
          rcases List.mem_append.mp hmem with hmem | hnew
          · obtain ⟨task, hcreated, hsignIn⟩ :=
              h.acknowledged before rest user hash recorded session hold hmem
            exact ⟨task, List.mem_append_left _ hcreated, List.mem_append_left _ hsignIn⟩
          · -- the session is live, so its sign-in is not from before the reset
            injection List.mem_singleton.mp hnew with huser hid
            subst huser hid
            have hold : w.journal = _ := hold
            obtain ⟨task, hcreated, hsignIn⟩ := h.signedIn row hrow
            refine ⟨task, List.mem_append_left _ hcreated, List.mem_append_left _ ?_⟩
            rw [hold] at hsignIn
            rcases List.mem_append.mp hsignIn with hbefore | hafter
            · exact absurd (precedes_iff.mpr ⟨before, rest, hold, hbefore⟩)
                (h.sessions row hrow hunrevoked task _ hcreated rfl)
            · exact (List.mem_cons.mp hafter).resolve_left nofun
        record := record_snoc h rfl nofun fun row' hrow' => by
          obtain ⟨old, hold, hid, -, hreset | huser⟩ := hrows row' hrow'
          · exact .inl ⟨old, hold, hid, hreset⟩
          · exact .inr (.inr (.inl ⟨row.id, by rw [huser]⟩))
        createdIds := createdIds_snoc h rfl (.of_eq rfl) nofun
        resetIds := resetIds_snoc h rfl (fun row hrow => updateUser_stay
          (fun row => { row with passwordResetByAdminAt := none }) (fun _ => rfl) hrow) nofun }
  · rw [if_neg hany] at hlive
    cases hlive

theorem SessionInvariant.insertUser {now : ℤ} {username displayName hash : String} {role : Role}
    {permissions : Permissions} {user : ℕ} {t : Tables} (h : SessionInvariant w)
    (hinsert : w.tables.insertUser now username displayName role permissions hash =
      .ok (user, t)) : SessionInvariant (w.withTables t) :=
  have hstay := UsersStay.insert hinsert
  h.tables rfl (.of_eq hstay.2) hstay.1

theorem SessionInvariant.answer {hashing : Hashing} {i : ℕ} {choice : AccountChoice} {β : Type}
    {op : AccountCall β} {r : β} {φ : SessionPhase} (h : SessionInvariant w)
    (hknown : SessionKnowledge w i φ) (hallows : φ.Allows op) (hgood : StillGood i op w)
    (ha : w.answer hashing i choice op = some (r, w')) : SessionInvariant w' := by
  cases op with
  | now =>
      obtain ⟨_, -, heq⟩ := Option.map_eq_some_iff.mp ha
      obtain ⟨-, rfl⟩ := Prod.mk.inj heq
      exact h
  | hashPassword password =>
      obtain ⟨_, -, heq⟩ := Option.map_eq_some_iff.mp ha
      obtain ⟨-, rfl⟩ := Prod.mk.inj heq
      exact h
  | verifyPassword password stored =>
      obtain ⟨-, rfl⟩ := Prod.mk.inj (Option.some.inj ha)
      exact h.quiet trivial
  | begin attempting now =>
      obtain ⟨-, rfl⟩ := Prod.mk.inj (Option.some.inj ha)
      exact SessionInvariant.quiet (h.tables rfl (.of_eq rfl) (.of_eq rfl)) (by trivial)
  | succeeded attempt =>
      obtain ⟨-, rfl⟩ := Prod.mk.inj (Option.some.inj ha)
      exact SessionInvariant.quiet (h.tables rfl (.of_eq rfl) (.of_eq rfl)) (by trivial)
  | usernameExists username | role user | account user | liveSession now token =>
      obtain ⟨-, rfl⟩ := Prod.mk.inj (Option.some.inj ha)
      exact h
  | credentials username =>
      obtain ⟨-, rfl⟩ := Prod.mk.inj (Option.some.inj ha)
      refine h.quiets fun e he => ?_
      obtain ⟨row, -, rfl⟩ := List.mem_map.mp he
      trivial
  | storedPassword user =>
      obtain ⟨-, rfl⟩ := Prod.mk.inj (Option.some.inj ha)
      exact h.quiet trivial
  | touchSession now session =>
      obtain ⟨-, rfl⟩ := Prod.mk.inj (Option.some.inj ha)
      refine h.tables rfl ⟨_, rfl, fun row => ?_⟩ (.of_eq rfl)
      split
      · exact ⟨rfl, rfl, id⟩
      · exact ⟨rfl, rfl, id⟩
  | createSession now user =>
      obtain ⟨token, -, ha⟩ := Option.bind_eq_some_iff.mp ha
      split at ha
      · cases ha
      · obtain ⟨-, rfl⟩ := Prod.mk.inj (Option.some.inj ha)
        exact h.createSession (hknown.1 user hallows) hgood
  | revokeSession now user session =>
      obtain ⟨-, rfl⟩ := Prod.mk.inj (Option.some.inj ha)
      refine h.tables rfl ⟨_, rfl, fun row => ?_⟩ (.of_eq rfl)
      split
      · exact ⟨rfl, rfl, nofun⟩
      · exact ⟨rfl, rfl, id⟩
  | bootstrapAdmin now username displayName hash =>
      rcases commit_cases (Option.some.inj ha) with ⟨user, t, hok, heq⟩ | ⟨failure, -, heq⟩
      · obtain ⟨-, rfl⟩ := Prod.mk.inj heq
        exact (h.insertUser (Tables.bootstrapAdmin_ok hok)).quiets (by simp)
      · obtain ⟨-, rfl⟩ := Prod.mk.inj heq
        exact h.quiets (by simp)
  | adminUpdateUser now admin target changes =>
      rcases commit_cases (Option.some.inj ha) with ⟨account, t, hok, heq⟩ | ⟨failure, -, heq⟩
      · obtain ⟨-, rfl⟩ := Prod.mk.inj heq
        exact h.adminUpdateUser hok
      · obtain ⟨-, rfl⟩ := Prod.mk.inj heq
        exact h.quiets (by simp)
  | adminResetPassword now admin target hash =>
      rcases commit_cases (Option.some.inj ha) with ⟨recorded, t, hok, heq⟩ | ⟨failure, -, heq⟩
      · obtain ⟨-, rfl⟩ := Prod.mk.inj heq
        exact h.adminResetPassword hok
      · obtain ⟨-, rfl⟩ := Prod.mk.inj heq
        exact h.quiets (by simp)
  | acknowledgePasswordReset user session =>
      have ha : some ((), (w.withTables (w.tables.acknowledgePasswordReset user session).2).record
          (if (w.tables.acknowledgePasswordReset user session).1 then
            [.acknowledged user session] else [])) = some (r, w') := ha
      obtain ⟨-, rfl⟩ := Prod.mk.inj (Option.some.inj ha)
      cases hcleared : (w.tables.acknowledgePasswordReset user session).1 with
      | true => exact h.acknowledgePasswordReset hcleared
      | false =>
          have hsame : (w.tables.acknowledgePasswordReset user session).2 = w.tables := by
            unfold Tables.acknowledgePasswordReset at hcleared ⊢
            split at hcleared
            · cases hcleared
            · next hnone => rw [if_neg hnone]
          rw [hsame]
          exact h.quiets (by simp)
  | changeOwnPassword now user session hash =>
      obtain ⟨-, rfl⟩ := Prod.mk.inj (Option.some.inj ha)
      exact h.changeOwnPassword (hknown.2 user hallows) hgood
  | createInvitation role permissions expiresAt =>
      obtain ⟨code, -, ha⟩ := Option.bind_eq_some_iff.mp ha
      split at ha
      · cases ha
      · obtain ⟨-, rfl⟩ := Prod.mk.inj (Option.some.inj ha)
        exact h.tables rfl (.of_eq rfl) (.of_eq rfl)
  | withdrawInvitation now id =>
      obtain ⟨-, rfl⟩ := Prod.mk.inj (Option.some.inj ha)
      exact h.tables rfl (.of_eq rfl) (.of_eq rfl)
  | invitation now code =>
      obtain ⟨-, rfl⟩ := Prod.mk.inj (Option.some.inj ha)
      exact h.quiet trivial
  | acceptInvitation now code username displayName role permissions hash =>
      rcases commit_cases (Option.some.inj ha) with ⟨user, t, hok, heq⟩ | ⟨failure, -, heq⟩
      · obtain ⟨-, rfl⟩ := Prod.mk.inj heq
        obtain ⟨t₁, hinsert, rfl⟩ := Tables.acceptInvitation_ok hok
        exact SessionInvariant.quiet ((h.insertUser hinsert).tables rfl (.of_eq rfl) (.of_eq rfl))
          (by trivial)
      · obtain ⟨-, rfl⟩ := Prod.mk.inj heq
        refine h.quiets fun e he => ?_
        split at he
        · rw [List.mem_singleton.mp he]
          trivial
        · cases he

/-- A call only adds to the journal. -/
theorem answer_journal {hashing : Hashing} {i : ℕ} {choice : AccountChoice} {β : Type}
    {op : AccountCall β} {r : β} (ha : w.answer hashing i choice op = some (r, w')) :
    w.journal ⊆ w'.journal := by
  cases op with
  | now | hashPassword =>
      obtain ⟨_, -, heq⟩ := Option.map_eq_some_iff.mp ha
      obtain ⟨-, rfl⟩ := Prod.mk.inj heq
      exact List.Subset.refl _
  | usernameExists | role | account | liveSession | touchSession | revokeSession
  | withdrawInvitation =>
      obtain ⟨-, rfl⟩ := Prod.mk.inj (Option.some.inj ha)
      exact List.Subset.refl _
  | verifyPassword | begin | succeeded | credentials | storedPassword | changeOwnPassword
  | invitation =>
      obtain ⟨-, rfl⟩ := Prod.mk.inj (Option.some.inj ha)
      exact List.subset_append_left _ _
  | acknowledgePasswordReset user session =>
      obtain ⟨-, rfl⟩ := Prod.mk.inj (Option.some.inj ha)
      exact List.subset_append_left w.journal _
  | createSession | createInvitation =>
      obtain ⟨token, -, ha⟩ := Option.bind_eq_some_iff.mp ha
      split at ha
      · cases ha
      · obtain ⟨-, rfl⟩ := Prod.mk.inj (Option.some.inj ha)
        first | exact List.subset_append_left _ _ | exact List.Subset.refl _
  | bootstrapAdmin | adminUpdateUser | adminResetPassword | acceptInvitation =>
      rcases commit_cases (Option.some.inj ha) with ⟨_, t, -, heq⟩ | ⟨failure, -, heq⟩
      · obtain ⟨-, rfl⟩ := Prod.mk.inj heq
        exact List.subset_append_left _ _
      · obtain ⟨-, rfl⟩ := Prod.mk.inj heq
        exact List.subset_append_left _ _

theorem SessionKnowledge.mono {i : ℕ} {φ : SessionPhase} (h : SessionKnowledge w i φ)
    (hsubset : w.journal ⊆ w'.journal) : SessionKnowledge w' i φ :=
  ⟨fun user huser => hsubset (h.1 user huser), fun user huser => hsubset (h.2 user huser)⟩

theorem SessionKnowledge.answer {hashing : Hashing} {i : ℕ} {choice : AccountChoice} {β : Type}
    {op : AccountCall β} {r : β} {φ : SessionPhase} (hknown : SessionKnowledge w i φ)
    (ha : w.answer hashing i choice op = some (r, w')) : SessionKnowledge w' i (φ.after op r) := by
  have hkept := hknown.mono (answer_journal ha)
  cases op with
  | credentials username =>
      obtain ⟨rfl, rfl⟩ := Prod.mk.inj (Option.some.inj ha)
      refine ⟨fun user huser => List.mem_append_right _ ?_, hkept.2⟩
      obtain ⟨row, hrow, rfl⟩ := Option.map_eq_some_iff.mp huser
      exact List.mem_map_of_mem (by rw [hrow]; exact List.mem_singleton_self row)
  | storedPassword user =>
      obtain ⟨-, rfl⟩ := Prod.mk.inj (Option.some.inj ha)
      refine ⟨hkept.1, fun user' huser => List.mem_append_right _ ?_⟩
      rw [Option.some.inj huser]
      exact List.mem_singleton_self _
  | acceptInvitation now code username displayName role permissions hash =>
      rcases commit_cases (Option.some.inj ha) with ⟨user, t, hok, heq⟩ | ⟨failure, -, heq⟩
      · obtain ⟨rfl, rfl⟩ := Prod.mk.inj heq
        refine ⟨fun user' huser => List.mem_append_right _ ?_, hkept.2⟩
        rw [← Option.some.inj huser]
        exact List.mem_singleton_self _
      · obtain ⟨rfl, rfl⟩ := Prod.mk.inj heq
        exact hkept
  | _ => exact hkept

end Steps

theorem session_initial (order : LoginLimiter.Order) :
    SessionInvariant (AccountState.initial order) where
  signedIn := nofun
  sessions := nofun
  password := fun before after _ _ _ h => by simp [AccountState.initial] at h
  acknowledged := fun before after _ _ _ _ h => by simp [AccountState.initial] at h
  record := fun before after _ _ _ h => by simp [AccountState.initial] at h
  createdIds := nofun
  resetIds := nofun

theorem session_localInvariant (hashing : Hashing) :
    ((system hashing).guarded (fun i {_} op w => StillGood i op w) fun _ _ => True).LocalInvariant
      sessionDiscipline (fun _ => True) SessionInvariant SessionKnowledge where
  task := by
    intro w φs i φ β op choice r w' hJ hK hi hop hr
    obtain ⟨hgood, ha⟩ := System.guarded_answer.mp hr
    exact ⟨hJ.answer (hK i φ hi) hop hgood ha, (hK i φ hi).answer ha,
      fun j ψ _ hj => (hK j ψ hj).mono (answer_journal ha)⟩
  surroundings := by
    intro w φs request w' ps hJ hK he
    obtain ⟨-, he⟩ := System.guarded_surroundings.mp he
    obtain ⟨rfl, rfl⟩ := Prod.mk.inj (Option.some.inj he)
    refine ⟨[⟨none, none⟩], .cons (obeys_request request) .nil, hJ, hK, fun j ψ hψ => ?_⟩
    obtain rfl := List.mem_singleton.mp (List.mem_of_getElem? hψ)
    exact ⟨nofun, nofun⟩
  restart := by
    intro w w' ps _ h
    cases h

/-- In every run in which nothing revokes what a sign-in or an own change goes by between taking the
stored password and writing, what revoking credentials promises is kept. -/
theorem revoked_stay_revoked (hashing : Hashing) {order : LoginLimiter.Order}
    {as : List (Action AccountChoice Request)}
    {s : State} (hrun : Runs.Run (fun s a t => (system hashing).step s a = some t ∧
      System.Meets (fun i {_} op w => StillGood i op w) (fun _ _ => True) s a) (initial order) as s) :
    Revoked s.world := by
  have hinv := (session_localInvariant hashing).invariant.run (System.run_guarded hrun)
    ⟨[], .nil, session_initial order, nofun⟩
  obtain ⟨φs, -, hJ, -⟩ := hinv
  exact hJ.toRevoked

section Example

/-- A second sign-in has its password checked. -/
def checkedRun : List (Action AccountChoice Request) :=
  [.surroundings (.login "rob" "first password" "10.0.0.2"), .task 2 (.time 3), .task 2 .none,
    .task 2 .none, .task 2 .none, .task 2 .none]

/-- The password is reset through the first session. -/
def resetRun (task : ℕ) : List (Action AccountChoice Request) :=
  [.surroundings (.resetPassword (some "one") 1 "second password"), .task task (.time 4),
    .task task .none, .task task (.time 5), .task task .none, .task task (.text "pepr"),
    .task task .none]

/-- A sign-in checked before a reset creates its session after it, and the session stays. -/
theorem created_after_reset : ∃ as s,
    Runs.Run (Runs.Steps (system saltedHashing).step) (initial .byName) as s ∧ ¬ Revoked s.world := by
  have h : (Runs.exec (system saltedHashing).step (initial .byName) (signedInAdminRun ++ checkedRun ++
      resetRun 3 ++ [.task 2 .none, .task 2 (.text "two")])).any (fun s =>
      (s.world.tables.sessions.any fun row =>
        row.id = 2 ∧ row.userId = 1 ∧ row.revokedAt = none) ∧
      .created 2 1 2 ∈ s.world.journal ∧
      [.signIn 2 1, .reset 1 "peprsecond password" none].isSublist s.world.journal) = true := by
    decide +kernel
  obtain ⟨s, hs, hfacts⟩ := Option.any_eq_true .. |>.mp h
  obtain ⟨hrow, hcreated, hprecedes⟩ := of_decide_eq_true hfacts
  obtain ⟨row, hmem, hsession⟩ := List.any_eq_true.mp hrow
  obtain ⟨hid, huser, hlive⟩ := of_decide_eq_true hsession
  refine ⟨_, s, Runs.run_of_exec hs, fun hrevoked => ?_⟩
  refine hrevoked.sessions row hmem hlive 2 (.reset 1 "peprsecond password" none) ?_ huser.symm ?_
  · rwa [hid, huser]
  · rw [huser]
    exact List.isSublist_iff_sublist.mp hprecedes

/-- Nothing has been revoked yet. -/
def AccountEvent.isCalm : AccountEvent → Bool
  | .reset _ _ _ | .disabled _ | .changed _ _ _ _ => false
  | _ => true

theorem stillGood_of_calm {w : AccountState} (h : w.journal.all AccountEvent.isCalm = true) (i : ℕ)
    {β : Type} (op : AccountCall β) : StillGood i op w := by
  have hcalm := List.all_eq_true.mp h
  cases op with
  | createSession now user =>
      intro commit hrevokes hprecedes
      have := hcalm commit hprecedes.right_mem
      cases commit <;> first | exact hrevokes | cases this
  | changeOwnPassword now user session hash =>
      intro hash recorded hprecedes
      have := hcalm _ hprecedes.right_mem
      cases this
  | _ => trivial

theorem revoked_stay_revoked_reset : ∃ s : State,
    .reset 1 "peprsecond password" none ∈ s.world.journal ∧ Revoked s.world := by
  have h : (Runs.exec (fun s a => if s.world.journal.all AccountEvent.isCalm then
      (system saltedHashing).step s a else none) (initial .byName)
      (signedInAdminRun ++ resetRun 2)).any
      (fun s => .reset 1 "peprsecond password" none ∈ s.world.journal) = true := by
    decide +kernel
  obtain ⟨s, hs, hreset⟩ := Option.any_eq_true .. |>.mp h
  refine ⟨s, of_decide_eq_true hreset, revoked_stay_revoked saltedHashing
    (Runs.run_of_exec_checked (fun s a hcalm => ?_) hs)⟩
  cases a with
  | task i choice => exact fun op next _ => stillGood_of_calm hcalm i op
  | surroundings e => trivial
  | restart => trivial

end Example

end Bokkie.Accounts
