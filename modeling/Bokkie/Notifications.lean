import Bokkie.ClientAccount
import Bokkie.Reactors

/-!
# The device's notifications

The client's switch for Web Push. What Web Push last said of the device outlasts a sign-in; what was
sent to the gateway belongs to one. After whatever happens, a pass brings the gateway in line with
the device. `read` is the reading of a subscription's JSON.
-/

namespace Bokkie.Notifications

open ClientAccount (CommandError)

structure PushSubscription where
  endpoint : String
  json : String
deriving DecidableEq, Repr

inductive PushSupport where
  | supported
  | unsupported (reason : String)
deriving DecidableEq, Repr

def PushSupport.isSupported : PushSupport → Bool
  | .supported => true
  | .unsupported _ => false

inductive NotificationPermission where
  | default
  | granted
  | denied
deriving DecidableEq, Repr

/-- What Web Push last said of the device. -/
structure PushState where
  support : PushSupport
  permission : Option NotificationPermission
  subscription : Option PushSubscription
deriving DecidableEq, Repr

inductive PushOperation where
  | subscribe
  | unsubscribe
deriving DecidableEq, Repr

/-- A result from Web Push; a route with the Bot it names. -/
inductive PushEvent where
  | state (state : PushState)
  | subscribed (subscription : PushSubscription)
  | unsubscribed
  | failed (operation : PushOperation) (message : String)
  | route (bot : Option ℕ)
deriving DecidableEq, Repr

inductive Forget where
  /-- The subscription, if any, is this sign-in's. -/
  | no
  /-- It is to be removed once Web Push has said what the device holds. -/
  | pending
  /-- Removing it failed. -/
  | failed
deriving DecidableEq, Repr

inductive Busy where
  | subscribing
  | unsubscribing
deriving DecidableEq, Repr

/-- The device's Web Push, which outlasts a sign-in. -/
structure Device where
  state : Option PushState
  busy : Option Busy
  error : Option String
  forget : Forget
  route : Option ℕ
  held : Bool
deriving DecidableEq, Repr

namespace Device

/-- The device of a page just launched. -/
def launched : Device := ⟨none, none, none, .no, none, false⟩

variable (d : Device)

def subscription : Option PushSubscription := d.state.bind (·.subscription)

def subscribed : Bool := d.subscription.isSome

end Device

structure PushKey where
  publicKey : String
  sending : Bool
deriving DecidableEq, Repr

inductive Key where
  | notLoaded
  | loading
  | loaded (key : PushKey)
  | failed
deriving DecidableEq, Repr

/-- What one sign-in holds of the device's notifications. -/
structure Signed where
  key : Key
  /-- The endpoint last sent to the gateway. -/
  sent : Option String
  saving : Bool
  saved : Bool
  error : Option String
  refused : Bool
deriving DecidableEq, Repr

def Signed.new : Signed := ⟨.notLoaded, none, false, false, none, false⟩

structure SignInForm where
  busy : Bool
  joining : Bool
deriving DecidableEq, Repr

structure SignedIn where
  user : ℕ
  signingOut : Bool
  push : Signed
deriving DecidableEq, Repr

inductive Session where
  | checking
  | signedOut (form : SignInForm)
  | signedIn (signedIn : SignedIn)
deriving DecidableEq, Repr

structure PushSubscriptionRequest where
  endpoint : String
  p256dh : String
  auth : String
deriving DecidableEq, Repr

inductive ApiRequest where
  | checkSession
  | signIn
  | acceptInvitation
  | signOut
  | pushKey
  | putPushSubscription (request : PushSubscriptionRequest)
  | deletePushSubscription
deriving DecidableEq, Repr

/-- What the client asks of the gateway, of its event socket and of Web Push. -/
inductive Command where
  | send (request : ApiRequest)
  | connectEvents
  | disconnectEvents
  | subscribePush (key : String)
  | unsubscribePush
deriving DecidableEq, Repr

/-- A reply from the gateway: to a session check, a sign-in or a joining with the user's id. -/
inductive ApiReply where
  | session (result : Except CommandError ℕ)
  | signedIn (result : Except CommandError ℕ)
  | joined (result : Except CommandError ℕ)
  | signedOut (result : Except CommandError Unit)
  | pushKey (result : Except CommandError PushKey)
  /-- With whether the session has a subscription. -/
  | pushSubscribed (result : Except CommandError Bool)
  | pushUnsubscribed (result : Except CommandError Unit)
  /-- Any other command's refusal. -/
  | refused (error : CommandError)

/-- What the user, the gateway and Web Push do. -/
inductive Input where
  /-- A result from Web Push; a subscription with the number of the call for it that it answers. -/
  | push (event : PushEvent) (call : ℕ)
  | notifications
  | join
  | signIn
  | acceptInvitation
  | signOut
  | reply (generation : ℕ) (reply : ApiReply)
  /-- The socket missed events. -/
  | reload (generation : ℕ)
  /-- The socket was refused for the session. -/
  | socketSignedOut (generation : ℕ)
  /-- The host reports an error. -/
  | reportError
  | pass

structure App where
  session : Session
  generation : ℕ
  device : Device
deriving DecidableEq, Repr

namespace App

/-- The page as it launches, its first session check sent. -/
def launched : App := ⟨.checking, 0, .launched⟩

variable (a : App)

def signed : Option Signed :=
  match a.session with
  | .signedIn s => some s.push
  | _ => none

def setSigned (push : Signed) : App :=
  match a.session with
  | .signedIn s => { a with session := .signedIn { s with push := push } }
  | _ => a

def forgetSubscription : App := { a with device := { a.device with forget := .pending } }

/-- Whether the switch shows notifications on. -/
def notificationsOn : Bool :=
  a.device.subscribed && a.device.forget = .no && !a.device.held

/-- Why the switch cannot be used now, if it cannot. -/
def notificationsAvailability : Option String :=
  match a.signed, a.device.state with
  | none, _ => some "Not signed in"
  | _, none => some "Checking this device for notifications"
  | some signed, some state =>
    match state.support with
    | .unsupported reason => some reason
    | .supported =>
      match a.device.busy with
      | some .subscribing => some "Switching notifications on"
      | some .unsubscribing => some "Switching notifications off"
      | none =>
        if a.device.forget = .pending then some "Removing an earlier sign-in's notifications"
        else if signed.saving then some "Saving the subscription"
        else if a.notificationsOn then none
        else if state.permission = some .denied then
          some "Notifications are blocked in this browser's settings"
        else
          match signed.key with
          | .loaded _ => none
          | .failed => some "Bokkie's push key could not be loaded"
          | _ => some "Loading Bokkie's push key"

/-- Unsubscribes, or subscribes from the tap itself. -/
def toggleNotifications : App × List Command :=
  if a.notificationsOn then
    let a' := { a with
      device := { a.device with busy := some .unsubscribing, error := none, held := true } }
    match a'.signed with
    | some signed =>
      (a'.setSigned { signed with sent := none, saved := false, error := none, refused := false },
        [.send .deletePushSubscription, .unsubscribePush])
    | none => (a', [.send .deletePushSubscription, .unsubscribePush])
  else
    match a.signed with
    | some signed =>
      match signed.key with
      | .loaded key =>
        let a' := { a with
          device := { a.device with busy := some .subscribing, error := none, held := false } }
        (a'.setSigned { signed with error := none, refused := false },
          [.subscribePush key.publicKey])
      | _ => (a, [])
    | none => (a, [])

/-- The switch, where it can be used. -/
def tapNotifications : App × List Command :=
  if a.notificationsAvailability.isNone then a.toggleNotifications else (a, [])

/-- A result from Web Push. -/
def pushEvent : PushEvent → App
  | .state state =>
    let forget := if state.subscription.isNone then .no else a.device.forget
    { a with device := { a.device with forget := forget, state := some state } }
  | .subscribed subscription =>
    let busy := if a.device.busy = some .subscribing then none else a.device.busy
    let forget := if a.signed.isSome then .no else a.device.forget
    let state := a.device.state.getD ⟨.supported, none, none⟩
    let state : PushState :=
      { state with permission := some .granted, subscription := some subscription }
    { a with device :=
        { a.device with busy := busy, forget := forget, held := false, state := some state } }
  | .unsubscribed =>
    let busy := if a.device.busy = some .unsubscribing then none else a.device.busy
    let state := a.device.state.map fun state => { state with subscription := none }
    { a with device :=
        { a.device with busy := busy, forget := .no, held := false, state := state } }
  | .failed operation message =>
    let forget :=
      if operation = .unsubscribe ∧ a.device.forget = .pending then .failed else a.device.forget
    { a with device :=
        { a.device with busy := none, error := some message, forget := forget } }
  | .route bot => { a with device := { a.device with route := bot <|> a.device.route } }

/-- Shows the sign-in form. `ended`: the gateway has no session for this browser. -/
def leave (ended : Bool) : App × List Command :=
  let a' := if ended then a.forgetSubscription else a
  ({ a' with session := .signedOut ⟨false, false⟩, generation := a'.generation + 1 },
    if a.signed.isSome then [.disconnectEvents] else [])

def signedOut : App × List Command := a.leave true

def sessionEnded : App × List Command := a.signedOut

def signIn (user : ℕ) : App × List Command :=
  -- only a launch with a live session keeps the device's subscription
  let a' := if a.session = .checking then a else a.forgetSubscription
  ({ a' with session := .signedIn ⟨user, false, .new⟩, generation := a'.generation + 1 },
    [.connectEvents])

/-- A signed-in command's failure: the session may have gone. -/
def failed (error : CommandError) (note : App) : App × List Command :=
  if error.isUnauthenticated then a.sessionEnded else (note, [])

/-- The reply to a push command. -/
def pushReply (signed : Signed) : ApiReply → App × List Command
  | .pushKey result =>
    if signed.key = .loading then
      match result with
      | .ok key => (a.setSigned { signed with key := .loaded key }, [])
      | .error error =>
        a.failed error (a.setSigned { signed with key := .failed, error := some error.message })
    else (a, [])
  | .pushSubscribed result =>
    if signed.saving then
      let a' := a.setSigned { signed with saving := false }
      match result with
      | .ok subscribed => (a.setSigned { signed with saving := false, saved := subscribed }, [])
      | .error error =>
        a'.failed error (a.setSigned
          { signed with saving := false, error := some error.message, refused := true })
    else (a, [])
  | .pushUnsubscribed result =>
    match result with
    | .ok () => (a, [])
    | .error error => a.failed error (a.setSigned { signed with error := some error.message })
  | _ => (a, [])

/-- A reply that came while signed in. -/
def replySignedIn (s : SignedIn) : ApiReply → App × List Command
  | .session (.ok user) => if user = s.user then (a, []) else a.sessionEnded
  | .session (.error error) => a.failed error a
  | .signedOut result =>
    if s.signingOut then
      match result with
      | .ok () => a.signedOut
      | .error error =>
        if error.isUnauthenticated then a.signedOut
        else ({ a with session := .signedIn { s with signingOut := false } }, [])
    else (a, [])
  | .refused error => a.failed error a
  | reply => a.pushReply s.push reply

/-- A reply that came while the sign-in form shows. -/
def replySignedOut (form : SignInForm) : ApiReply → App × List Command
  | .signedIn result =>
    if form.busy then
      match result with
      | .ok user => a.signIn user
      | .error _ => ({ a with session := .signedOut { form with busy := false } }, [])
    else (a, [])
  | .joined result =>
    if form.busy && form.joining then
      match result with
      | .ok user => a.signIn user
      | .error _ => ({ a with session := .signedOut { form with busy := false } }, [])
    else (a, [])
  | _ => (a, [])

/-- A reply that came while the session is being checked. -/
def replyChecking : ApiReply → App × List Command
  | .session (.ok user) => a.signIn user
  | .session (.error error) => a.leave error.isUnauthenticated
  | _ => (a, [])

def reply (reply : ApiReply) : App × List Command :=
  match a.session with
  | .checking => a.replyChecking reply
  | .signedOut form => a.replySignedOut form reply
  | .signedIn s => a.replySignedIn s reply

/-- The socket is live again after missing events. -/
def retryPush : App :=
  match a.signed with
  | none => a
  | some signed =>
    let signed :=
      if signed.key = .failed then { signed with key := .notLoaded, error := none } else signed
    let signed :=
      if signed.refused ∧ ¬ signed.saving then
        { signed with refused := false, sent := none, error := none }
      else signed
    a.setSigned signed

/-- What the user does with the sign-in form or the session. -/
def perform : Input → App × List Command
  | .join =>
    match a.session with
    | .signedOut form =>
      if form.busy then (a, [])
      else ({ a with session := .signedOut { form with joining := !form.joining } }, [])
    | _ => (a, [])
  | .signIn =>
    match a.session with
    | .signedOut form =>
      if form.joining || form.busy then (a, [])
      else ({ a with session := .signedOut { form with busy := true } }, [.send .signIn])
    | _ => (a, [])
  | .acceptInvitation =>
    match a.session with
    | .signedOut form =>
      if !form.joining || form.busy then (a, [])
      else ({ a with session := .signedOut { form with busy := true } },
        [.send .acceptInvitation])
    | _ => (a, [])
  | .signOut =>
    match a.session with
    | .signedIn s =>
      if s.signingOut then (a, [])
      else ({ a with session := .signedIn { s with signingOut := true } }, [.send .signOut])
    | _ => (a, [])
  | _ => (a, [])

def apply : Input → App × List Command
  | .push event _ => (a.pushEvent event, [])
  | .notifications => a.tapNotifications
  | .reply generation reply => if generation = a.generation then a.reply reply else (a, [])
  | .reload generation =>
    if generation = a.generation ∧ a.signed.isSome then (a.retryPush, [.send .checkSession])
    else (a, [])
  | .socketSignedOut generation =>
    if generation = a.generation ∧ a.signed.isSome then a.sessionEnded else (a, [])
  | .reportError => if a.session = .checking then a.signedOut else (a, [])
  | i => a.perform i

section Sync

variable (read : String → Option PushSubscriptionRequest)

/-- Sends what this sign-in has not sent of the device's subscription. -/
def syncSigned (signed : Signed) (state : PushState) : App × List Command :=
  let adopt := a.device.forget = .no ∧ ¬ a.device.held
  if signed.key = .notLoaded then
    (a.setSigned { signed with key := .loading }, [.send .pushKey])
  else
    match state.subscription with
    | none => (a, [])
    | some subscription =>
      if ¬ adopt ∨ signed.saving ∨ signed.sent = some subscription.endpoint then (a, [])
      else
        let signed := { signed with sent := some subscription.endpoint }
        match read subscription.json with
        | some request =>
          (a.setSigned { signed with saving := true }, [.send (.putPushSubscription request)])
        | none =>
          (a.setSigned
            { signed with error := some "The browser's subscription could not be read" }, [])

def syncSubscription : App × List Command :=
  match a.device.state with
  | none => (a, [])
  | some state =>
    if !state.support.isSupported || a.device.busy.isSome then (a, [])
    else if a.device.forget = .pending ∧ state.subscription.isSome then
      ({ a with device := { a.device with busy := some .unsubscribing } }, [.unsubscribePush])
    else
      let forget := if a.device.forget = .pending then .no else a.device.forget
      let a := { a with device := { a.device with forget := forget } }
      match a.signed with
      | some signed => a.syncSigned read signed state
      | none => (a, [])

/-- What an input does, and the pass that follows it. -/
def handle (i : Input) : App × List Command :=
  let applied := a.apply i
  let synced := applied.1.syncSubscription read
  (synced.1, applied.2 ++ synced.2)

end Sync

end App

end Bokkie.Notifications
