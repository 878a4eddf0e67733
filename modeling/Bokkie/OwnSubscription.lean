import Bokkie.Notifications

/-!
# Whose subscription it is

What the user, the page's launch and Web Push's answers say of the subscriptions: which are this
sign-in's, and whether the user has switched notifications off since. The client reads none of it.
-/

namespace Bokkie.Notifications

open Reactor
open ClientAccount (CommandError)

/-- The client, answering the user, the gateway and Web Push. -/
def machine (read : String → Option PushSubscriptionRequest) : Reactor App Input Command where
  start := .launched
  handle a i := a.handle read i

structure Standing where
  /-- What the device held when the page launched. -/
  held : List PushSubscription
  /-- Neither signed in yet nor asked to. -/
  launching : Bool
  /-- The subscriptions that are this sign-in's. -/
  mine : List PushSubscription
  /-- The calls for a subscription so far. -/
  asks : ℕ
  /-- The calls of this sign-in not switched off since. -/
  asked : List ℕ
  /-- The user switched off last. -/
  off : Bool
deriving DecidableEq, Repr

namespace Standing

def launched (held : Option PushSubscription) : Standing := ⟨held.toList, true, [], 0, [], false⟩

/-- A subscription that answers a call of this sign-in becomes its own. -/
def hear (w : Standing) : Input → Standing
  | .push (.subscribed subscription) call =>
    if call ∈ w.asked then { w with mine := subscription :: w.mine } else w
  | _ => w

def see (w : Standing) : Command → Standing
  | .send .signIn | .send .acceptInvitation => { w with launching := false }
  | .connectEvents =>
    { w with
      launching := false, mine := if w.launching then w.held else [], asked := [], off := false }
  | .disconnectEvents => { w with mine := [], asked := [] }
  | .subscribePush _ => { w with asks := w.asks + 1, asked := w.asks :: w.asked, off := false }
  | .send .deletePushSubscription => { w with asked := [], off := true }
  | _ => w

/-- Only a subscription of this sign-in is sent, and none once the user has switched off. -/
def Allows (read : String → Option PushSubscriptionRequest) (w : Standing) : Command → Prop
  | .send (.putPushSubscription request) =>
    w.off = false ∧ ∃ subscription ∈ w.mine, read subscription.json = some request
  | _ => True

/-- The subscriptions of this sign-in, or of the one that the launch may find. -/
def own (w : Standing) : List PushSubscription := if w.launching then w.held else w.mine

/-- It is this sign-in's, and may be sent unless the client holds it back. -/
def Owns (w : Standing) (held : Bool) (subscription : PushSubscription) : Prop :=
  subscription ∈ w.own ∧ (held ∨ w.off = false)

end Standing

def observer : Observer Standing Input Command where
  hear := Standing.hear
  see := Standing.see

/-- The sign-in form does not show. -/
def App.current (a : App) : Bool :=
  match a.session with
  | .signedOut _ => false
  | _ => true

/-- Unless the sign-in form shows, a subscription answers a switch-on of this sign-in, and what Web
Push says the device holds is this sign-in's or is about to be removed. -/
def Answers (a : App) (w : Standing) : Input → Prop
  | .push (.subscribed _) call => a.current = true → call ∈ w.asked
  | .push (.state state) _ => a.current = true → a.device.forget = .no →
    ∀ subscription ∈ state.subscription, w.Owns a.device.held subscription
  | _ => True

instance (w : Standing) (held : Bool) (subscription : PushSubscription) :
    Decidable (w.Owns held subscription) := inferInstanceAs (Decidable (_ ∧ _))

instance (a : App) (w : Standing) : (i : Input) → Decidable (Answers a w i)
  | .push (.subscribed _) call => inferInstanceAs (Decidable (_ → call ∈ w.asked))
  | .push (.state state) _ => inferInstanceAs (Decidable (_ → _ → ∀ s ∈ state.subscription, _))
  | .push .unsubscribed _ | .push (.failed _ _) _ | .push (.route _) _ | .notifications | .join
  | .signIn | .acceptInvitation | .signOut | .reply _ _ | .reload _ | .socketSignedOut _
  | .reportError | .pass => inferInstanceAs (Decidable True)

section Fits

/-- Whether the launch is still to find a session. -/
def Session.Launching : Session → Bool → Prop
  | .checking, launching => launching = true
  | .signedOut _, _ => True
  | .signedIn _, launching => launching = false

/-- The client sends back only what is this sign-in's. -/
structure Fits (a : App) (w : Standing) : Prop where
  owns : a.current = true → a.device.forget = .no →
    ∀ subscription, a.device.subscription = some subscription → w.Owns a.device.held subscription
  asked : w.asked ≠ [] → w.launching = false ∧ w.off = false
  launching : a.session.Launching w.launching

variable {read : String → Option PushSubscriptionRequest} {a : App} {w : Standing}

/-- The commands of an outcome keep to the rule, and what it leaves fits. -/
def Suits (read : String → Option PushSubscriptionRequest) (w : Standing)
    (o : App × List Command) : Prop :=
  observer.Proper (Standing.Allows read) w o.2 ∧ Fits o.1 (observer.seen w o.2)

theorem current_checking (h : a.session = .checking) : a.current = true := by
  simp [App.current, h]

theorem current_signedIn {s : SignedIn} (h : a.session = .signedIn s) : a.current = true := by
  simp [App.current, h]

theorem current_of_signed {signed : Signed} (h : a.signed = some signed) : a.current = true := by
  cases hs : a.session with
  | signedOut form => simp [App.signed, hs] at h
  | checking => exact current_checking hs
  | signedIn s => exact current_signedIn hs

theorem Fits.congr (h : Fits a w) {a' : App} (hdevice : a'.device = a.device)
    (hcurrent : a'.current = true → a.current = true) (hlaunching : a'.session.Launching w.launching) :
    Fits a' w where
  owns hc hforget subscription hsub := by
    rw [hdevice] at hforget hsub ⊢
    exact h.owns (hcurrent hc) hforget subscription hsub
  asked := h.asked
  launching := hlaunching

/-- A device that gives up nothing the client did not hold before. -/
theorem Fits.device (h : Fits a w) {d : Device}
    (howns : a.current = true → d.forget = .no → ∀ subscription, d.subscription = some subscription →
      w.Owns d.held subscription) :
    Fits { a with device := d } w where
  owns := howns
  asked := h.asked
  launching := h.launching

theorem suits_nil (h : Fits a w) : Suits read w (a, []) := ⟨trivial, h⟩

theorem Fits.setSigned (h : Fits a w) (push : Signed) : Fits (a.setSigned push) w := by
  unfold App.setSigned
  cases hs : a.session with
  | checking => exact h
  | signedOut form => exact h
  | signedIn s =>
      have hl : w.launching = false := by simpa [hs, Session.Launching] using h.launching
      exact h.congr rfl (fun _ => current_signedIn hs) hl

/-- The sign-in ends: nothing is this sign-in's any more. -/
theorem suits_leave (h : Fits a w) (ended : Bool) : Suits read w (a.leave ended) := by
  have hout : ∀ {w' : Standing},
      (w'.asked ≠ [] → w'.launching = false ∧ w'.off = false) → Fits (a.leave ended).1 w' := by
    intro w' hasked
    exact ⟨fun hc => absurd hc (by simp [App.leave, App.current]), hasked, trivial⟩
  cases hs : a.signed with
  | none =>
      have hcommands : (a.leave ended).2 = [] := by simp [App.leave, hs]
      rw [Suits, hcommands]
      exact ⟨trivial, hout h.asked⟩
  | some signed =>
      have hcommands : (a.leave ended).2 = [.disconnectEvents] := by simp [App.leave, hs]
      rw [Suits, hcommands]
      exact ⟨⟨trivial, trivial⟩, hout fun hne => absurd rfl hne⟩

/-- A sign-in starts: the device's subscription is its own only if the launch found the session. -/
theorem suits_signIn (h : Fits a w) (user : ℕ) : Suits read w (a.signIn user) := by
  refine ⟨⟨trivial, trivial⟩, ?_, fun hne => absurd rfl hne, rfl⟩
  intro _ hforget subscription hsub
  by_cases hs : a.session = .checking
  · have hd : (a.signIn user).1.device = a.device := by simp [App.signIn, hs]
    have hl : w.launching = true := by simpa [hs, Session.Launching] using h.launching
    rw [hd] at hforget hsub
    have hown := (h.owns (current_checking hs) hforget subscription hsub).1
    have hsame : (w.see .connectEvents).own = w.own := by simp [Standing.own, Standing.see, hl]
    exact ⟨hsame.symm ▸ hown, .inr rfl⟩
  · have hd : (a.signIn user).1.device.forget = .pending := by
      simp [App.signIn, hs, App.forgetSubscription]
    rw [hd] at hforget
    cases hforget

theorem suits_failed (h : Fits a w) {note : App} (hnote : Fits note w) (error : CommandError) :
    Suits read w (a.failed error note) := by
  unfold App.failed
  split
  · exact suits_leave h true
  · exact suits_nil hnote

theorem suits_pushReply (h : Fits a w) (signed : Signed) (reply : ApiReply) :
    Suits read w (a.pushReply signed reply) := by
  cases reply with
  | pushKey result =>
      dsimp only [App.pushReply]
      split
      · cases result with
        | ok key => exact suits_nil (h.setSigned _)
        | error error => exact suits_failed h (h.setSigned _) error
      · exact suits_nil h
  | pushSubscribed result =>
      dsimp only [App.pushReply]
      split
      · cases result with
        | ok subscribed => exact suits_nil (h.setSigned _)
        | error error => exact suits_failed (h.setSigned _) (h.setSigned _) error
      · exact suits_nil h
  | pushUnsubscribed result =>
      cases result with
      | ok _ => exact suits_nil h
      | error error => exact suits_failed h (h.setSigned _) error
  | session _ => exact suits_nil h
  | signedIn _ => exact suits_nil h
  | joined _ => exact suits_nil h
  | signedOut _ => exact suits_nil h
  | refused _ => exact suits_nil h

theorem suits_replySignedIn (h : Fits a w) {s : SignedIn} (hs : a.session = .signedIn s)
    (reply : ApiReply) : Suits read w (a.replySignedIn s reply) := by
  have hl : w.launching = false := by simpa [hs, Session.Launching] using h.launching
  cases reply with
  | session result =>
      cases result with
      | ok user =>
          dsimp only [App.replySignedIn]
          split
          · exact suits_nil h
          · exact suits_leave h true
      | error error => exact suits_failed h h error
  | signedOut result =>
      dsimp only [App.replySignedIn]
      split
      · cases result with
        | ok _ => exact suits_leave h true
        | error error =>
            dsimp only
            split
            · exact suits_leave h true
            · exact suits_nil (h.congr rfl (fun _ => current_signedIn hs) hl)
      · exact suits_nil h
  | refused error => exact suits_failed h h error
  | signedIn _ => exact suits_nil h
  | joined _ => exact suits_nil h
  | pushKey result => exact suits_pushReply h s.push (.pushKey result)
  | pushSubscribed result => exact suits_pushReply h s.push (.pushSubscribed result)
  | pushUnsubscribed result => exact suits_pushReply h s.push (.pushUnsubscribed result)

theorem Fits.form (h : Fits a w) (form : SignInForm) :
    Fits { a with session := .signedOut form } w :=
  h.congr rfl (fun hc => absurd hc (by simp [App.current])) trivial

/-- The user asks to sign in: the launch no longer finds the session. -/
theorem Fits.asking (h : Fits a w) (form : SignInForm) :
    Fits { a with session := .signedOut form } { w with launching := false } where
  owns hc := absurd hc (by simp [App.current])
  asked hne := ⟨rfl, (h.asked hne).2⟩
  launching := trivial

theorem suits_replySignedOut (h : Fits a w) (form : SignInForm) (reply : ApiReply) :
    Suits read w (a.replySignedOut form reply) := by
  cases reply with
  | signedIn result =>
      dsimp only [App.replySignedOut]
      split
      · cases result with
        | ok user => exact suits_signIn h user
        | error _ => exact suits_nil (h.form _)
      · exact suits_nil h
  | joined result =>
      dsimp only [App.replySignedOut]
      split
      · cases result with
        | ok user => exact suits_signIn h user
        | error _ => exact suits_nil (h.form _)
      · exact suits_nil h
  | session _ => exact suits_nil h
  | signedOut _ => exact suits_nil h
  | pushKey _ => exact suits_nil h
  | pushSubscribed _ => exact suits_nil h
  | pushUnsubscribed _ => exact suits_nil h
  | refused _ => exact suits_nil h

theorem suits_replyChecking (h : Fits a w) (reply : ApiReply) :
    Suits read w (a.replyChecking reply) := by
  cases reply with
  | session result =>
      cases result with
      | ok user => exact suits_signIn h user
      | error error => exact suits_leave h _
  | signedIn _ => exact suits_nil h
  | joined _ => exact suits_nil h
  | signedOut _ => exact suits_nil h
  | pushKey _ => exact suits_nil h
  | pushSubscribed _ => exact suits_nil h
  | pushUnsubscribed _ => exact suits_nil h
  | refused _ => exact suits_nil h

theorem suits_reply (h : Fits a w) (reply : ApiReply) : Suits read w (a.reply reply) := by
  unfold App.reply
  cases hs : a.session with
  | checking => exact suits_replyChecking h reply
  | signedOut form => exact suits_replySignedOut h form reply
  | signedIn s => exact suits_replySignedIn h hs reply

theorem Fits.retryPush (h : Fits a w) : Fits a.retryPush w := by
  unfold App.retryPush
  cases a.signed with
  | none => exact h
  | some signed => exact h.setSigned _

theorem subscription_of_state {d : Device} {state : PushState} (hstate : d.state = some state) :
    d.subscription = state.subscription := by
  simp [Device.subscription, hstate]

/-- A result from Web Push, answering as it should. -/
theorem Fits.pushEvent (h : Fits a w) {event : PushEvent} {call : ℕ}
    (hanswers : Answers a w (.push event call)) :
    Fits (a.pushEvent event) (w.hear (.push event call)) := by
  cases event with
  | state state =>
      refine h.device fun hc hforget subscription hsub => ?_
      have hsub : state.subscription = some subscription := hsub
      have hforget : a.device.forget = .no := by simpa [hsub] using hforget
      exact hanswers hc hforget subscription (Option.mem_def.mpr hsub)
  | subscribed subscription =>
      by_cases hcall : call ∈ w.asked
      · have hheard : w.hear (.push (.subscribed subscription) call) =
            { w with mine := subscription :: w.mine } := if_pos hcall
        obtain ⟨hl, hoff⟩ := h.asked (List.ne_nil_of_mem hcall)
        rw [hheard]
        refine ⟨fun hc _ subscription' hsub => ?_, h.asked, h.launching⟩
        obtain rfl : subscription = subscription' := Option.some.inj hsub
        have hown : subscription ∈ ({ w with mine := subscription :: w.mine } : Standing).own := by
          simp [Standing.own, hl]
        exact ⟨hown, .inr hoff⟩
      · have hheard : w.hear (.push (.subscribed subscription) call) = w := if_neg hcall
        rw [hheard]
        exact h.device fun hc => absurd (hanswers hc) hcall
  | unsubscribed =>
      refine h.device fun _ _ subscription hsub => ?_
      cases hstate : a.device.state <;> simp [Device.subscription, hstate] at hsub
  | failed operation message =>
      refine h.device fun hc hforget => ?_
      have hkept : a.device.forget = .no := by
        by_contra hne
        dsimp only at hforget
        split at hforget
        · cases hforget
        · exact hne hforget
      exact h.owns hc hkept
  | route bot => exact h.device h.owns

theorem Fits.launched_of_signed (h : Fits a w) {signed : Signed} (hs : a.signed = some signed) :
    w.launching = false := by
  cases hsession : a.session with
  | signedIn s => simpa [hsession, Session.Launching] using h.launching
  | checking => simp [App.signed, hsession] at hs
  | signedOut form => simp [App.signed, hsession] at hs

/-- The user switches off: the client holds back whatever the browser still has. -/
theorem Fits.heldBack (h : Fits a w) {d : Device} (hforget : d.forget = a.device.forget)
    (hsub : d.subscription = a.device.subscription) (hheld : d.held = true) :
    Fits { a with device := d } (w.see (.send .deletePushSubscription)) where
  owns hc hno subscription hd := by
    have hd : a.device.subscription = some subscription := hsub ▸ hd
    exact ⟨(h.owns hc (hforget ▸ hno) subscription hd).1, .inl hheld⟩
  asked hne := absurd rfl hne
  launching := h.launching

/-- The user switches on: whatever is this sign-in's may be sent. -/
theorem Fits.switchedOn (h : Fits a w) {d : Device} (hforget : d.forget = a.device.forget)
    (hsub : d.subscription = a.device.subscription) (hlaunching : w.launching = false)
    (key : String) : Fits { a with device := d } (w.see (.subscribePush key)) where
  owns hc hno subscription hd := by
    have hd : a.device.subscription = some subscription := hsub ▸ hd
    exact ⟨(h.owns hc (hforget ▸ hno) subscription hd).1, .inr rfl⟩
  asked _ := ⟨hlaunching, rfl⟩
  launching := h.launching

theorem suits_toggleNotifications (h : Fits a w) : Suits read w a.toggleNotifications := by
  unfold App.toggleNotifications
  split
  · have hheld := h.heldBack (d := { a.device with
      busy := some .unsubscribing, error := none, held := true }) rfl rfl rfl
    dsimp only
    split
    · exact ⟨⟨trivial, trivial, trivial⟩, hheld.setSigned _⟩
    · exact ⟨⟨trivial, trivial, trivial⟩, hheld⟩
  · cases hs : a.signed with
    | none => exact suits_nil h
    | some signed =>
        dsimp only
        split
        · next key _ =>
            have hon := h.switchedOn (d := { a.device with
              busy := some .subscribing, error := none, held := false }) rfl rfl
              (h.launched_of_signed hs) key.publicKey
            exact ⟨⟨trivial, trivial⟩, hon.setSigned _⟩
        · exact suits_nil h

/-- The pass sends the device's subscription only as this sign-in's. -/
theorem suits_syncSigned (h : Fits a w) {signed : Signed} (hs : a.signed = some signed)
    {state : PushState} (hstate : a.device.state = some state) :
    Suits read w (a.syncSigned read signed state) := by
  unfold App.syncSigned
  dsimp only
  split
  · exact ⟨⟨trivial, trivial⟩, h.setSigned _⟩
  · split
    · exact suits_nil h
    · next subscription hsub =>
        split
        · exact suits_nil h
        · next hsend =>
            have hadopt : a.device.forget = .no ∧ ¬ a.device.held := by
              by_contra hno
              exact hsend (.inl hno)
            have hsub : a.device.subscription = some subscription := by
              rw [subscription_of_state hstate, hsub]
            obtain ⟨hmem, hoff⟩ := h.owns (current_of_signed hs) hadopt.1 subscription hsub
            have hmine : subscription ∈ w.mine := by
              simpa [Standing.own, h.launched_of_signed hs] using hmem
            split
            · next request hread =>
                have hallowed : w.Allows read (.send (.putPushSubscription request)) :=
                  ⟨hoff.resolve_left hadopt.2, subscription, hmine, hread⟩
                exact ⟨⟨hallowed, trivial⟩, h.setSigned _⟩
            · exact suits_nil (h.setSigned _)

theorem suits_syncSubscription (h : Fits a w) : Suits read w (a.syncSubscription read) := by
  unfold App.syncSubscription
  split
  · exact suits_nil h
  · next state hstate =>
      split
      · exact suits_nil h
      · split
        · exact ⟨⟨trivial, trivial⟩, h.device h.owns⟩
        · next hremove =>
            -- nothing is left to remove, so there is nothing to own either
            have hkept : Fits { a with device := { a.device with
                forget := if a.device.forget = .pending then .no else a.device.forget } } w := by
              refine h.device fun hc hforget subscription hsub => ?_
              have hsub : a.device.subscription = some subscription := hsub
              have hsome : state.subscription.isSome := by
                rw [subscription_of_state hstate] at hsub
                simp [hsub]
              have hne : a.device.forget ≠ .pending := fun hp => hremove ⟨hp, hsome⟩
              exact h.owns hc (by simpa [hne] using hforget) subscription hsub
            dsimp only
            split
            · next signed hs => exact suits_syncSigned hkept hs hstate
            · exact suits_nil hkept

theorem suits_perform (h : Fits a w) (i : Input) : Suits read w (a.perform i) := by
  cases i with
  | join =>
      dsimp only [App.perform]
      split
      · split
        · exact suits_nil h
        · exact suits_nil (h.form _)
      · exact suits_nil h
  | signIn =>
      dsimp only [App.perform]
      split
      · split
        · exact suits_nil h
        · exact ⟨⟨trivial, trivial⟩, h.asking _⟩
      · exact suits_nil h
  | acceptInvitation =>
      dsimp only [App.perform]
      split
      · split
        · exact suits_nil h
        · exact ⟨⟨trivial, trivial⟩, h.asking _⟩
      · exact suits_nil h
  | signOut =>
      dsimp only [App.perform]
      split
      · next s hs =>
          split
          · exact suits_nil h
          · have hl : w.launching = false := by simpa [hs, Session.Launching] using h.launching
            exact ⟨⟨trivial, trivial⟩, h.congr rfl (fun _ => current_signedIn hs) hl⟩
      · exact suits_nil h
  | push _ _ => exact suits_nil h
  | notifications => exact suits_nil h
  | reply _ _ => exact suits_nil h
  | reload _ => exact suits_nil h
  | socketSignedOut _ => exact suits_nil h
  | reportError => exact suits_nil h
  | pass => exact suits_nil h

theorem suits_apply (h : Fits a w) {i : Input} (hanswers : Answers a w i) :
    Suits read (w.hear i) (a.apply i) := by
  cases i with
  | push event call => exact suits_nil (h.pushEvent hanswers)
  | notifications =>
      dsimp only [App.apply, App.tapNotifications]
      split
      · exact suits_toggleNotifications h
      · exact suits_nil h
  | reply generation reply =>
      dsimp only [App.apply]
      split
      · exact suits_reply h reply
      · exact suits_nil h
  | reload generation =>
      dsimp only [App.apply]
      split
      · exact ⟨⟨trivial, trivial⟩, h.retryPush⟩
      · exact suits_nil h
  | socketSignedOut generation =>
      dsimp only [App.apply]
      split
      · exact suits_leave h true
      · exact suits_nil h
  | reportError =>
      dsimp only [App.apply]
      split
      · exact suits_leave h true
      · exact suits_nil h
  | join => exact suits_perform h .join
  | signIn => exact suits_perform h .signIn
  | acceptInvitation => exact suits_perform h .acceptInvitation
  | signOut => exact suits_perform h .signOut
  | pass => exact suits_perform h .pass

theorem suits_handle (h : Fits a w) {i : Input} (hanswers : Answers a w i) :
    Suits read (w.hear i) (a.handle read i) := by
  obtain ⟨happlied, hfits⟩ : Suits read (w.hear i) (a.apply i) := suits_apply h hanswers
  obtain ⟨hsynced, hafter⟩ : Suits read _ ((a.apply i).1.syncSubscription read) :=
    suits_syncSubscription hfits
  refine ⟨Observer.proper_append.mpr ⟨happlied, hsynced⟩, ?_⟩
  rw [App.handle, Observer.seen_append]
  exact hafter

theorem fits_launched (held : Option PushSubscription) : Fits .launched (.launched held) where
  owns _ _ _ hsub := by simp [App.launched, Device.launched, Device.subscription] at hsub
  asked hne := absurd rfl hne
  launching := rfl

end Fits

section Sends

variable (read : String → Option PushSubscriptionRequest) (held : Option PushSubscription)
  (inputs : List Input)

/-- Everything that happened, from the page's launch on. -/
def history : List (Entry Input Command) := (machine read).log .launched inputs

/-- Whenever a subscription is sent, it is this sign-in's: the user switched it on within it, or the
device held it when the page launched with its session. And the user has not switched off since. -/
def SendsOwn : Prop :=
  ∀ before request rest,
    history read inputs = before ++ .command (.send (.putPushSubscription request)) :: rest →
    let w := observer.after (.launched held) before
    w.off = false ∧ ∃ subscription ∈ w.mine, read subscription.json = some request

/-- Web Push's results, each where it comes, are about the sign-in that they come in. -/
def Timely : Prop := (machine read).Meets observer Answers .launched (.launched held) inputs

instance : Decidable (Timely read held inputs) := inferInstanceAs (Decidable (Meets ..))

/-- While Web Push's results are about the sign-in that they come in, only subscriptions of the
current sign-in are sent, and none that the user switched off. -/
theorem sends_own (h : Timely read held inputs) : SendsOwn read held inputs := by
  intro before request rest hlog
  have hkept := (machine read).run_kept_of_meets observer
    (fun a w i hanswers hfits => suits_handle hfits hanswers) (fits_launched held) h
  exact hkept.1.allowed_at hlog

end Sends

section Device

/-- A device's subscription, and what the gateway is sent of it. -/
def sample : PushSubscription := ⟨"https://push.example/1", "sample"⟩

def readSample (json : String) : Option PushSubscriptionRequest :=
  if json = "sample" then some ⟨sample.endpoint, "key", "secret"⟩ else none

def supported (subscription : Option PushSubscription) : PushState :=
  ⟨.supported, some .default, subscription⟩

/-- The page finds a session and a subscription; its user switches off, signs out, and another
signs in and switches on. -/
def twoUsers : List Input := [
  .push (.state (supported (some sample))) 0, .reply 0 (.session (.ok 1)),
  .reply 1 (.pushKey (.ok ⟨"server", true⟩)), .reply 1 (.pushSubscribed (.ok true)),
  .notifications, .push .unsubscribed 0, .signOut, .reply 1 (.signedOut (.ok ())),
  .signIn, .reply 2 (.signedIn (.ok 2)), .reply 3 (.pushKey (.ok ⟨"server", true⟩)),
  .notifications, .push (.subscribed sample) 0]

theorem sends_own_two_users :
    Timely readSample (some sample) twoUsers ∧ SendsOwn readSample (some sample) twoUsers :=
  have h : Timely readSample (some sample) twoUsers := by decide +kernel
  ⟨h, sends_own _ _ _ h⟩

/-- A user switches on and signs out before the browser asks for permission; the answer comes once
another has signed in. -/
def lateAnswer : List Input := [
  .push (.state (supported none)) 0, .reply 0 (.session (.error ⟨true, "Not signed in"⟩)),
  .signIn, .reply 1 (.signedIn (.ok 1)), .reply 2 (.pushKey (.ok ⟨"server", true⟩)),
  .notifications, .signOut, .reply 2 (.signedOut (.ok ())),
  .signIn, .reply 3 (.signedIn (.ok 2)), .push (.subscribed sample) 0,
  .reply 4 (.pushKey (.ok ⟨"server", true⟩))]

/-- The second user never switched on, yet is sent the first one's notifications. -/
theorem late_answer_sent : ¬ SendsOwn readSample none lateAnswer := by
  intro h
  have hsent := h (history readSample lateAnswer).dropLast ⟨sample.endpoint, "key", "secret"⟩ []
    (by rfl)
  exact absurd hsent (by decide +kernel)

end Device

end Bokkie.Notifications
