import Bokkie.ClientAccount

/-!
# The client's account converges

A client that takes no account older than the last event it applied holds the gateway's account once
it has applied every event. The flag sees to that for a session check that is alone, and does not
where a second check unsets it while the first is unanswered, nor for the reply to an own change.
-/

namespace Bokkie.ClientAccount

variable {ζ : Type} {zones : Zones ζ} {named : String → Option ζ}

section Client

variable {s s' : SignedIn ζ} {c c' : Client ζ} {user : User}

@[simp] theorem noticed_user (reset : Option ℤ) : (s.noticed reset).user = s.user := by
  unfold SignedIn.noticed
  split_ifs <;> rfl

theorem sheet_user {change : Sheet} (h : s.sheet change = some s') : s'.user = s.user := by
  cases change <;>
  · obtain ⟨-, heq⟩ := Option.ite_none_left_eq_some.mp h
    rw [← Option.some.inj heq]

theorem acknowledge_user (h : s.acknowledge = some s') : s'.user = s.user := by
  obtain ⟨-, heq⟩ := Option.ite_none_left_eq_some.mp h
  rw [← Option.some.inj heq]

theorem opens_user {screen : Screen} (h : s.opens screen = some s') : s'.user = s.user := by
  cases screen <;>
  · obtain ⟨-, heq⟩ := Option.ite_none_right_eq_some.mp h
    rw [← Option.some.inj heq]

theorem saveTimeZone_user {zone : String} (h : s.saveTimeZone = some (zone, s')) :
    s'.user = s.user := by
  obtain ⟨draft, -, h⟩ := Option.bind_eq_some_iff.mp h
  obtain ⟨-, heq⟩ := Option.ite_none_left_eq_some.mp h
  rw [← (Prod.mk.inj (Option.some.inj heq)).2]

/-- The client keeps the account it has, or the session is gone. -/
def Keeps (c c' : Client ζ) : Prop :=
  ∀ s', c'.signedIn = some s' → ∃ s, c.signedIn = some s ∧ s'.user = s.user

theorem Keeps.refl (c : Client ζ) : Keeps c c := fun s hs => ⟨s, hs, rfl⟩

theorem keeps_ended : Keeps c Client.ended := by
  intro s' hs'
  exact absurd hs' (by simp [Client.ended])

theorem keeps_of_user {seen : Bool} (hs : c.signedIn = some s) (huser : s'.user = s.user) :
    Keeps c ⟨some s', seen⟩ := by
  intro t ht
  rw [← Option.some.inj ht]
  exact ⟨s, hs, huser⟩

theorem keeps_updates {f : SignedIn ζ → Option (SignedIn ζ)}
    (hf : ∀ {s s'}, f s = some s' → s'.user = s.user) (h : c.updates f = some c') : Keeps c c' := by
  obtain ⟨s, hs, h⟩ := Option.bind_eq_some_iff.mp h
  obtain ⟨s', hs', rfl⟩ := Option.map_eq_some_iff.mp h
  exact keeps_of_user hs (hf hs')

theorem keeps_acknowledgedReply (result : Except CommandError Unit) :
    Keeps c (c.acknowledgedReply result) := by
  unfold Client.acknowledgedReply
  split
  · exact .refl c
  · next s hs =>
      split
      · exact .refl c
      · split
        · exact keeps_of_user hs rfl
        · split
          · exact keeps_ended
          · exact keeps_of_user hs rfl

/-- An error takes no account. -/
theorem keeps_sessionReply_error (error : CommandError) :
    Keeps c (c.sessionReply named (.error error)) := by
  unfold Client.sessionReply
  split
  · exact .refl c
  · next h => cases h
  · split
    · exact keeps_ended
    · exact .refl c

/-- The answer to a session check is taken only where the flag is not set. -/
theorem sessionReply_user {session : SessionResponse}
    (h : (c.sessionReply named (.ok session)).signedIn = some s') :
    (∃ s, c.signedIn = some s ∧ s'.user = s.user) ∨
      c.signedIn.isSome ∧ c.accountEventSeen = false ∧ s'.user = session.user := by
  unfold Client.sessionReply at h
  split at h
  · next hnone => exact .inl ⟨s', h, rfl⟩
  · next s response hs hok =>
      obtain rfl := Except.ok.inj hok
      split at h
      · cases h
      · obtain rfl := Option.some.inj h
        rw [noticed_user]
        cases hseen : c.accountEventSeen with
        | true => exact .inl ⟨s, hs, rfl⟩
        | false => exact .inr ⟨by rw [hs]; rfl, rfl, rfl⟩
  · next hok => cases hok

theorem keeps_timeZoneSet_error (named : String → Option ζ) (error : CommandError) :
    Keeps c (c.timeZoneSet named (.error error)) := by
  unfold Client.timeZoneSet
  split
  · exact .refl c
  · next s hs =>
      dsimp only
      split
      · exact .refl c
      · split
        · exact keeps_ended
        · exact keeps_of_user hs rfl

theorem timeZoneSet_user {session : SessionResponse}
    (h : (c.timeZoneSet named (.ok session)).signedIn = some s') :
    (∃ s, c.signedIn = some s ∧ s'.user = s.user) ∨
      c.signedIn.isSome ∧ s'.user = session.user := by
  unfold Client.timeZoneSet at h
  split at h
  · exact .inl ⟨s', h, rfl⟩
  · next s hs =>
      dsimp only at h
      split at h
      · exact .inl ⟨s', h, rfl⟩
      · split at h
        · obtain rfl := Option.some.inj h
          exact .inr ⟨by rw [hs]; rfl, rfl⟩
        · cases h

theorem accountUpdated_user (h : (c.accountUpdated named user).signedIn = some s') :
    (∃ s, c.signedIn = some s ∧ user.id ≠ s.user.id) ∨ s'.user = user := by
  unfold Client.accountUpdated at h
  split at h
  · next hnone => rw [hnone] at h; cases h
  · next s hs =>
      split at h
      · obtain rfl := Option.some.inj h
        exact .inr rfl
      · next hne => exact .inl ⟨s, hs, hne⟩

/-- The session is gone, or the flag as it was. -/
def KeepsFlag (c c' : Client ζ) : Prop :=
  c'.signedIn.isSome → c.signedIn.isSome ∧ c'.accountEventSeen = c.accountEventSeen

theorem KeepsFlag.refl (c : Client ζ) : KeepsFlag c c := fun h => ⟨h, rfl⟩

theorem keepsFlag_ended : KeepsFlag c Client.ended := by simp [KeepsFlag, Client.ended]

theorem keepsFlag_signedIn (hs : c.signedIn = some s) {signedIn : Option (SignedIn ζ)} :
    KeepsFlag c { c with signedIn := signedIn } := fun _ => ⟨by rw [hs]; rfl, rfl⟩

theorem keepsFlag_updates {f : SignedIn ζ → Option (SignedIn ζ)} (h : c.updates f = some c') :
    KeepsFlag c c' := by
  obtain ⟨s, hs, h⟩ := Option.bind_eq_some_iff.mp h
  obtain ⟨s', -, rfl⟩ := Option.map_eq_some_iff.mp h
  exact keepsFlag_signedIn hs

theorem keepsFlag_sessionReply (result : Except CommandError SessionResponse) :
    KeepsFlag c (c.sessionReply named result) := by
  unfold Client.sessionReply
  split
  · exact .refl c
  · next s session hs =>
      dsimp only
      split
      · exact keepsFlag_ended
      · exact keepsFlag_signedIn hs
  · split
    · exact keepsFlag_ended
    · exact .refl c

theorem keepsFlag_timeZoneSet (result : Except CommandError SessionResponse) :
    KeepsFlag c (c.timeZoneSet named result) := by
  unfold Client.timeZoneSet
  split
  · exact .refl c
  · next s hs =>
      dsimp only
      split
      · exact .refl c
      · split <;> split
        · exact keepsFlag_signedIn hs
        · exact keepsFlag_ended
        · exact keepsFlag_ended
        · exact keepsFlag_signedIn hs

theorem keepsFlag_acknowledgedReply (result : Except CommandError Unit) :
    KeepsFlag c (c.acknowledgedReply result) := by
  unfold Client.acknowledgedReply
  split
  · exact .refl c
  · next s hs =>
      dsimp only
      split
      · exact .refl c
      · split
        · exact keepsFlag_signedIn hs
        · split
          · exact keepsFlag_ended
          · exact keepsFlag_signedIn hs

end Client

section World

variable {w w' : World ζ}

/-- Once no check or change is unanswered and every event has been applied, a signed-in client holds
the gateway's account. -/
def Converged (w : World ζ) : Prop :=
  w.checks = [] → w.changes = [] → w.applied = w.events.length →
    ∀ s, w.client.signedIn = some s → s.user = w.account

/-- The step takes no account older than that of the last event applied: neither from the answer to
a session check, nor from the reply to an own change. -/
def InOrder (w : World ζ) : Action → Prop
  | .answer _ version _ =>
    w.client.signedIn.isSome → w.client.accountEventSeen = false → w.applied ≤ version
  | .reply i _ => ∀ version, w.changes[i]? = some (.committed version) →
    w.client.signedIn.isSome → w.applied ≤ version
  | _ => True

/-- The client holds an account at least as new as that of the last event it applied. -/
structure Follows (w : World ζ) : Prop where
  applied : w.applied ≤ w.events.length
  ids : ∀ n user, w.version n = some user → user.id = w.account.id
  holds : ∀ s, w.client.signedIn = some s →
    ∃ n, w.applied ≤ n ∧ w.version n = some s.user

theorem version_account : w.version w.events.length = some w.account := by
  unfold World.version World.account
  rcases List.eq_nil_or_concat w.events with h | ⟨events, user, h⟩ <;> simp [h]

theorem version_le {n : ℕ} {user : User} (h : w.version n = some user) : n ≤ w.events.length := by
  obtain ⟨hlt, -⟩ := List.getElem?_eq_some_iff.mp h
  simpa using Nat.le_of_lt_succ hlt

/-- A change leaves what the account was. -/
theorem version_commit {user old : User} {n : ℕ} {client : Client ζ} {changes : List ZoneChange}
    (h : w.version n = some old) :
    ({ w with
      events := w.events ++ [user], client := client, changes := changes } : World ζ).version n =
      some old := by
  unfold World.version at h ⊢
  rw [← List.cons_append, List.getElem?_append_left (List.getElem?_eq_some_iff.mp h).1]
  exact h

theorem Follows.current (h : Follows w) : Converged w := by
  intro _ _ happlied s hs
  obtain ⟨n, hn, hversion⟩ := h.holds s hs
  obtain rfl : n = w.events.length := by
    have := version_le hversion
    omega
  exact Option.some.inj (hversion.symm.trans version_account)

/-- The client keeps its account while nothing is applied or committed. -/
theorem Follows.keeps (h : Follows w) (hfirst : w'.first = w.first) (hevents : w'.events = w.events)
    (happlied : w'.applied = w.applied) (hkeeps : Keeps w.client w'.client) : Follows w' where
  applied := by rw [happlied, hevents]; exact h.applied
  ids := by
    unfold World.version World.account
    rw [hfirst, hevents]
    exact h.ids
  holds := by
    intro s' hs'
    obtain ⟨s, hs, huser⟩ := hkeeps s' hs'
    unfold World.version
    rw [hfirst, hevents, happlied, huser]
    exact h.holds s hs

/-- The client keeps its account, or takes one that is at least as new as that of the last event. -/
theorem Follows.takes (h : Follows w) {client : Client ζ} {n : ℕ} {user : User}
    {P : Prop} (hversion : w.version n = some user) (hn : P → w.applied ≤ n)
    (htakes : ∀ s', client.signedIn = some s' →
      (∃ s, w.client.signedIn = some s ∧ s'.user = s.user) ∨ P ∧ s'.user = user) :
    Follows { w with client := client } where
  applied := h.applied
  ids := h.ids
  holds := by
    intro s' hs'
    rcases htakes s' hs' with ⟨s, hs, huser⟩ | ⟨hP, huser⟩
    · rw [huser]
      exact h.holds s hs
    · rw [huser]
      exact ⟨n, hn hP, hversion⟩

/-- A change of the account is committed, with its event. -/
theorem Follows.commit (h : Follows w) {user : User} (hid : user.id = w.account.id)
    {changes : List ZoneChange} :
    Follows { w with events := w.events ++ [user], changes := changes } where
  applied := by
    have := h.applied
    simp only [List.length_append, List.length_singleton]
    omega
  ids := by
    intro n other hversion
    have haccount : ({ w with events := w.events ++ [user], changes := changes } :
        World ζ).account = user := by simp [World.account]
    rw [haccount, hid]
    by_cases hold : n ≤ w.events.length
    · refine h.ids n other ?_
      unfold World.version at hversion ⊢
      rwa [← List.cons_append, List.getElem?_append_left (by simpa using Nat.lt_succ_of_le hold)]
        at hversion
    · have hle := version_le hversion
      simp only [List.length_append, List.length_singleton] at hle
      obtain rfl : n = w.events.length + 1 := by omega
      have hlast : other = user := by simpa [World.version] using hversion.symm
      rw [hlast, hid]
  holds := by
    intro s hs
    obtain ⟨n, hn, hversion⟩ := h.holds s hs
    exact ⟨n, hn, version_commit hversion⟩

/-- The client applies its next event. -/
theorem Follows.deliver (h : Follows w) {user : User} (hevent : w.events[w.applied]? = some user) :
    Follows { w with applied := w.applied + 1, client := w.client.accountUpdated named user } where
  applied := (List.getElem?_eq_some_iff.mp hevent).1
  ids := h.ids
  holds := by
    intro s' hs'
    have hversion : w.version (w.applied + 1) = some user := by simpa [World.version] using hevent
    rcases accountUpdated_user hs' with ⟨s, hs, hne⟩ | huser
    · obtain ⟨n, -, hheld⟩ := h.holds s hs
      exact absurd ((h.ids _ _ hversion).trans (h.ids _ _ hheld).symm) hne
    · exact ⟨w.applied + 1, le_refl _, by rw [huser]; exact hversion⟩

theorem Follows.step (h : Follows w) {a : Action} (ha : w.step zones a = some w')
    (horder : InOrder w a) : Follows w' := by
  cases a with
  | change user =>
      obtain ⟨hid, heq⟩ := Option.ite_none_right_eq_some.mp ha
      rw [← Option.some.inj heq]
      exact h.commit hid
  | deliver =>
      obtain ⟨user, hevent, rfl⟩ := Option.map_eq_some_iff.mp ha
      exact h.deliver hevent
  | check =>
      rw [← Option.some.inj ha]
      exact h.keeps rfl rfl rfl (.refl _)
  | answer i version reset =>
      obtain ⟨since, -, ha⟩ := Option.bind_eq_some_iff.mp ha
      obtain ⟨user, hversion, ha⟩ := Option.bind_eq_some_iff.mp ha
      obtain ⟨-, heq⟩ := Option.ite_none_right_eq_some.mp ha
      rw [← Option.some.inj heq]
      have htaken : Follows { w with
          client := w.client.sessionReply zones.named (.ok ⟨user, reset⟩) } := by
        refine h.takes hversion (fun hP : _ ∧ _ => horder hP.1 hP.2) fun s' hs' => ?_
        rcases sessionReply_user hs' with hkept | ⟨hin, hunset, huser⟩
        · exact .inl hkept
        · exact .inr ⟨⟨hin, hunset⟩, huser⟩
      exact htaken.keeps rfl rfl rfl (.refl _)
  | failed i error =>
      obtain ⟨since, -, rfl⟩ := Option.map_eq_some_iff.mp ha
      exact h.keeps rfl rfl rfl (keeps_sessionReply_error error)
  | sheet change =>
      obtain ⟨client, hclient, rfl⟩ := Option.map_eq_some_iff.mp ha
      exact h.keeps rfl rfl rfl (keeps_updates sheet_user hclient)
  | save =>
      obtain ⟨s, hs, ha⟩ := Option.bind_eq_some_iff.mp ha
      obtain ⟨⟨zone, s'⟩, hsave, ha⟩ := Option.bind_eq_some_iff.mp ha
      rw [← Option.some.inj ha]
      exact h.keeps rfl rfl rfl (keeps_of_user hs (saveTimeZone_user hsave))
  | serve i =>
      obtain ⟨change, hchange, ha⟩ := Option.bind_eq_some_iff.mp ha
      unfold World.serves at ha
      split at ha
      · split at ha
        · next zone _ =>
            have hid : ({ w.account with timeZone := zone } : User).id = w.account.id := rfl
            rw [← Option.some.inj ha]
            exact h.commit hid
        · rw [← Option.some.inj ha]
          exact h.keeps rfl rfl rfl (.refl _)
      · cases ha
  | reply i reset =>
      obtain ⟨change, hchange, ha⟩ := Option.bind_eq_some_iff.mp ha
      obtain ⟨result, hresult, ha⟩ := Option.bind_eq_some_iff.mp ha
      rw [← Option.some.inj ha]
      cases change with
      | asked zone => cases hresult
      | committed version =>
          obtain ⟨user, hversion, rfl⟩ := Option.map_eq_some_iff.mp hresult
          have htaken : Follows { w with
              client := w.client.timeZoneSet zones.named (.ok ⟨user, reset⟩) } :=
            h.takes hversion (horder version hchange) fun s' hs' => timeZoneSet_user hs'
          exact htaken.keeps rfl rfl rfl (.refl _)
      | refused message =>
          obtain rfl := Option.some.inj hresult
          have hkeeps : Keeps w.client
              (w.client.timeZoneSet zones.named (.error ⟨false, message⟩)) :=
            keeps_timeZoneSet_error _ _
          exact h.keeps rfl rfl rfl hkeeps
  | lost i error =>
      obtain ⟨change, -, rfl⟩ := Option.map_eq_some_iff.mp ha
      exact h.keeps rfl rfl rfl (keeps_timeZoneSet_error zones.named error)
  | acknowledge =>
      obtain ⟨client, hclient, rfl⟩ := Option.map_eq_some_iff.mp ha
      exact h.keeps rfl rfl rfl (keeps_updates acknowledge_user hclient)
  | acknowledged result =>
      rw [← Option.some.inj ha]
      exact h.keeps rfl rfl rfl (keeps_acknowledgedReply result)
  | opens screen =>
      obtain ⟨client, hclient, rfl⟩ := Option.map_eq_some_iff.mp ha
      exact h.keeps rfl rfl rfl (keeps_updates opens_user hclient)

theorem follows_start (user : User) (reset : Option ℤ) : Follows (start zones user reset) where
  applied := le_refl _
  ids := by
    intro n other hversion
    obtain rfl : n = 0 := Nat.le_zero.mp (version_le hversion)
    rw [← Option.some.inj hversion]
    rfl
  holds := by
    intro s hs
    rw [← Option.some.inj hs]
    exact ⟨0, le_refl _, rfl⟩

/-- In every run that takes no account older than that of the last event applied, the client's account
converges. -/
theorem account_converges {user : User} {reset : Option ℤ} {as : List Action}
    (hrun : Runs.Run (fun w a w' => w.step zones a = some w' ∧ InOrder w a)
      (start zones user reset) as w) : Converged w := by
  have hfollows := hrun.invariant (fun _ _ _ h ha => h.step ha.1 ha.2) (follows_start user reset)
  exact hfollows.current

/-- A session check is sent only while none is unanswered that an event may have overtaken, and the
reply to an own change comes before the event of a later change. -/
def Apart (w : World ζ) : Action → Prop
  | .check => w.client.accountEventSeen = false ∨ w.checks = []
  | .reply i reset => InOrder w (.reply i reset)
  | _ => True

/-- While the flag is not set, no unanswered check was sent before the last event applied. -/
def Fresh (w : World ζ) : Prop :=
  w.client.signedIn.isSome → w.client.accountEventSeen = false → ∀ since ∈ w.checks, w.applied ≤ since

/-- An event sets the flag. -/
theorem accountUpdated_flag (h : Follows w) {user : User}
    (hevent : w.events[w.applied]? = some user)
    (hin : (w.client.accountUpdated named user).signedIn.isSome) :
    (w.client.accountUpdated named user).accountEventSeen ≠ false := by
  obtain ⟨s', hs'⟩ := Option.isSome_iff_exists.mp hin
  have hversion : w.version (w.applied + 1) = some user := by simpa [World.version] using hevent
  unfold Client.accountUpdated at hs' ⊢
  cases hs : w.client.signedIn with
  | none =>
      rw [hs] at hs'
      simp [hs] at hs'
  | some s =>
      obtain ⟨n, -, hheld⟩ := h.holds s hs
      simp [(h.ids _ _ hversion).trans (h.ids _ _ hheld).symm]

theorem Fresh.keeps (h : Fresh w) (hchecks : w'.checks ⊆ w.checks) (happlied : w'.applied = w.applied)
    (hflag : KeepsFlag w.client w'.client) : Fresh w' := by
  intro hin hunset since hsince
  obtain ⟨hin', hsame⟩ := hflag hin
  rw [happlied]
  exact h hin' (hsame ▸ hunset) since (hchecks hsince)

theorem Fresh.step (h : Fresh w) (hfollows : Follows w) {a : Action}
    (ha : w.step zones a = some w') (hapart : Apart w a) : Fresh w' := by
  cases a with
  | change user =>
      obtain ⟨-, heq⟩ := Option.ite_none_right_eq_some.mp ha
      rw [← Option.some.inj heq]
      exact h.keeps (List.Subset.refl _) rfl (.refl _)
  | deliver =>
      obtain ⟨user, hevent, rfl⟩ := Option.map_eq_some_iff.mp ha
      intro hin hunset
      exact absurd hunset (accountUpdated_flag hfollows hevent hin)
  | check =>
      rw [← Option.some.inj ha]
      intro hin _ since hsince
      rcases List.mem_append.mp hsince with hold | hnew
      · rcases hapart with hunset | hnone
        · exact h hin hunset since hold
        · rw [hnone] at hold
          cases hold
      · rw [List.mem_singleton.mp hnew]
        exact hfollows.applied
  | answer i version reset =>
      obtain ⟨since, -, ha⟩ := Option.bind_eq_some_iff.mp ha
      obtain ⟨user, -, ha⟩ := Option.bind_eq_some_iff.mp ha
      obtain ⟨-, heq⟩ := Option.ite_none_right_eq_some.mp ha
      rw [← Option.some.inj heq]
      exact h.keeps (List.eraseIdx_subset ..) rfl (keepsFlag_sessionReply _)
  | failed i error =>
      obtain ⟨since, -, rfl⟩ := Option.map_eq_some_iff.mp ha
      exact h.keeps (List.eraseIdx_subset ..) rfl (keepsFlag_sessionReply _)
  | sheet change =>
      obtain ⟨client, hclient, rfl⟩ := Option.map_eq_some_iff.mp ha
      exact h.keeps (List.Subset.refl _) rfl (keepsFlag_updates hclient)
  | save =>
      obtain ⟨s, hs, ha⟩ := Option.bind_eq_some_iff.mp ha
      obtain ⟨⟨zone, s'⟩, -, ha⟩ := Option.bind_eq_some_iff.mp ha
      rw [← Option.some.inj ha]
      exact h.keeps (List.Subset.refl _) rfl fun _ => ⟨by rw [hs]; rfl, rfl⟩
  | serve i =>
      obtain ⟨change, -, ha⟩ := Option.bind_eq_some_iff.mp ha
      unfold World.serves at ha
      split at ha
      · split at ha <;>
        · rw [← Option.some.inj ha]
          exact h.keeps (List.Subset.refl _) rfl (.refl _)
      · cases ha
  | reply i reset =>
      obtain ⟨change, -, ha⟩ := Option.bind_eq_some_iff.mp ha
      obtain ⟨result, -, ha⟩ := Option.bind_eq_some_iff.mp ha
      rw [← Option.some.inj ha]
      exact h.keeps (List.Subset.refl _) rfl (keepsFlag_timeZoneSet _)
  | lost i error =>
      obtain ⟨change, -, rfl⟩ := Option.map_eq_some_iff.mp ha
      exact h.keeps (List.Subset.refl _) rfl (keepsFlag_timeZoneSet _)
  | acknowledge =>
      obtain ⟨client, hclient, rfl⟩ := Option.map_eq_some_iff.mp ha
      exact h.keeps (List.Subset.refl _) rfl (keepsFlag_updates hclient)
  | acknowledged result =>
      rw [← Option.some.inj ha]
      exact h.keeps (List.Subset.refl _) rfl (keepsFlag_acknowledgedReply _)
  | opens screen =>
      obtain ⟨client, hclient, rfl⟩ := Option.map_eq_some_iff.mp ha
      exact h.keeps (List.Subset.refl _) rfl (keepsFlag_updates hclient)

/-- An answer that is taken answers a check sent since the last event was applied. -/
theorem Fresh.inOrder (h : Fresh w) {a : Action} (ha : w.step zones a = some w')
    (hapart : Apart w a) : InOrder w a := by
  cases a with
  | answer i version reset =>
      intro hin hunset
      obtain ⟨since, hsince, ha⟩ := Option.bind_eq_some_iff.mp ha
      obtain ⟨user, -, ha⟩ := Option.bind_eq_some_iff.mp ha
      obtain ⟨hle, -⟩ := Option.ite_none_right_eq_some.mp ha
      exact Nat.le_trans (h hin hunset since (List.mem_of_getElem? hsince)) hle
  | reply i reset => exact hapart
  | _ => trivial

/-- The flag keeps the client's account in order where no check is sent while an event may have
overtaken an earlier one. -/
theorem account_converges_apart {user : User} {reset : Option ℤ} {as : List Action}
    (hrun : Runs.Run (fun w a w' => w.step zones a = some w' ∧ Apart w a)
      (start zones user reset) as w) : Converged w := by
  have hinv : Follows w ∧ Fresh w := by
    refine hrun.invariant (I := fun w => Follows w ∧ Fresh w) ?_ ⟨follows_start user reset, ?_⟩
    · rintro v a v' ⟨hfollows, hfresh⟩ ⟨ha, hapart⟩
      exact ⟨hfollows.step ha (hfresh.inOrder ha hapart), hfresh.step hfollows ha hapart⟩
    · intro _ _ since hsince
      cases hsince
  exact hinv.1.current

end World

section Example

def member : User where
  id := 7
  username := "grace"
  displayName := "Grace"
  role := .member
  disabled := false
  createdAt := 0
  permissions := .default
  oversight := false
  oversightChangedAt := none
  timeZone := "Australia/Adelaide"

def overseenMember : User := { member with oversight := true, oversightChangedAt := some 5 }

/-- Zones that are known by every name. -/
def anyZones : Zones String := ⟨some, .ok⟩

/-- Two checks are in flight, with an event between them, and the second is answered first. -/
def twoChecksRun : List Action :=
  [.check, .change overseenMember, .deliver, .check, .answer 1 1 none, .answer 0 0 none]

/-- The reply to an own change comes after the event of a later change. -/
def lateReplyRun : List Action :=
  [.sheet .changeTimeZone, .sheet (.editTimeZone "Europe/London"), .save, .serve 0,
    .change { overseenMember with timeZone := "Europe/London" }, .deliver, .deliver, .reply 0 none]

/-- Nothing is on its way, and the client does not show the oversight that is on. -/
def missesOversight (w : World String) : Bool :=
  w.checks.isEmpty && w.changes.isEmpty && decide (w.applied = w.events.length) &&
    w.account.oversight && w.client.signedIn.any fun s => !s.user.oversight

theorem not_converged_of_missesOversight {w : World String} (h : missesOversight w = true) :
    ¬ Converged w := by
  simp only [missesOversight, Bool.and_eq_true, List.isEmpty_iff, decide_eq_true_eq] at h
  obtain ⟨⟨⟨⟨hchecks, hchanges⟩, happlied⟩, hon⟩, hheld⟩ := h
  obtain ⟨s, hs, hoff⟩ := Option.any_eq_true .. |>.mp hheld
  intro hconverged
  rw [← hconverged hchecks hchanges happlied s hs] at hon
  rw [hon] at hoff
  cases hoff

theorem old_account_stays :
    (∃ w, Runs.Run (Runs.Steps (World.step anyZones)) (start anyZones member none) twoChecksRun w ∧
      ¬ Converged w) ∧
    ∃ w, Runs.Run (Runs.Steps (World.step anyZones)) (start anyZones member none) lateReplyRun w ∧
      ¬ Converged w := by
  have hchecks : (Runs.exec (World.step anyZones) (start anyZones member none) twoChecksRun).any
      missesOversight = true := by decide +kernel
  have hreply : (Runs.exec (World.step anyZones) (start anyZones member none) lateReplyRun).any
      missesOversight = true := by decide +kernel
  obtain ⟨v, hv, hmissed⟩ := Option.any_eq_true .. |>.mp hchecks
  obtain ⟨w, hw, hmissed'⟩ := Option.any_eq_true .. |>.mp hreply
  exact ⟨⟨v, Runs.run_of_exec hv, not_converged_of_missesOversight hmissed⟩,
    w, Runs.run_of_exec hw, not_converged_of_missesOversight hmissed'⟩

/-- The account that is answered is no older than that of the last event, or the flag is set. -/
def isInOrder (w : World String) : Action → Bool
  | .answer _ version _ => w.client.accountEventSeen || decide (w.applied ≤ version)
  | .reply _ _ => false
  | _ => true

theorem inOrder_of_isInOrder {w : World String} {a : Action} (h : isInOrder w a = true) :
    InOrder w a := by
  cases a with
  | answer i version reset =>
      intro _ hunset
      simpa [isInOrder, hunset] using h
  | reply i reset => cases h
  | _ => trivial

/-- The check that an event overtook is answered with the account from before it. -/
theorem account_converges_overtaken : ∃ w : World String,
    w.client.signedIn.any (fun s => s.user.oversight) = true ∧ Converged w := by
  have h : (Runs.exec (fun w a => if isInOrder w a then World.step anyZones w a else none)
      (start anyZones member none) [.check, .change overseenMember, .deliver, .answer 0 0 none]).any
      (fun w => w.client.signedIn.any fun s => s.user.oversight) = true := by decide +kernel
  obtain ⟨w, hw, hshown⟩ := Option.any_eq_true .. |>.mp h
  have hrun := Runs.run_of_exec_checked (fun _ _ => inOrder_of_isInOrder) hw
  exact ⟨w, hshown, account_converges hrun⟩

end Example

end Bokkie.ClientAccount
