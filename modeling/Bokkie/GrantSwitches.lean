import Bokkie.ClientAccount
import Bokkie.Guard
import Bokkie.Runs
import Mathlib.Data.Finset.Basic

/-!
# Switching grants

A switch of one of a Bot's grants reads the Bot, and then writes its whole set of grants in a
second request. Several clients of the account do so at once, and an admin may set the grants too.
The gateway takes any set that the rules allow.
-/

namespace Bokkie

/-! ## The rules for setting grants -/

namespace Grant

def name : Grant → String
  | notes => "notes"
  | seen => "seen"
  | notify => "notify"
  | webSearch => "web.search"
  | webFetch => "web.fetch"

/-- Every grant in the catalogue, in order. -/
def all : List Grant := [.notes, .seen, .notify, .webSearch, .webFetch]

/-- The trust class of a grant, for the taint rule. -/
inductive Class where
  | ordinary
  | untrustedInput
  | privileged
deriving DecidableEq

def classOf : Grant → Class
  | notes | seen | notify => .ordinary
  | webSearch | webFetch => .untrustedInput

/-- Whether the gateway can grant this yet. -/
def available : Grant → Bool
  | notes | seen | notify | webSearch | webFetch => true

/-- Whether a member may add this grant to their own Bot. -/
def memberMayGrant (grant : Grant) : Bool := grant = notes ∨ grant = seen ∨ grant = notify

/-- The first untrusted-input grant and privileged grant held together, if any. -/
def taintConflict (grants : List (Grant × Class)) : Option (Grant × Grant) := do
  let untrusted ← grants.find? (·.2 = .untrustedInput)
  let privileged ← grants.find? (·.2 = .privileged)
  return (untrusted.1, privileged.1)

/-- A set's grants, in catalogue order. -/
def listed (grants : GrantSet) : List Grant := all.filter (· ∈ grants)

/-- Why a grant may not be added. -/
def refusal (role : Accounts.Role) (grant : Grant) : Option Failure :=
  if role ≠ .admin ∧ !grant.memberMayGrant then
    some (.forbidden ("Only an admin can grant " ++ grant.name))
  else if !grant.available then some (.invalid (grant.name ++ " is not available yet"))
  else none

/-- Checks a request to replace a Bot's grants, and returns the new set. -/
def checkChange (role : Accounts.Role) (current requested : GrantSet) : Except Failure GrantSet :=
  match (listed (requested \ current)).findSome? (refusal role) with
  | some failure => .error failure
  | none =>
    match taintConflict ((listed requested).map fun grant => (grant, grant.classOf)) with
    | some (untrusted, privileged) =>
      .error (.invalid ("A Bot granted " ++ untrusted.name ++
        " reads untrusted input, so it cannot also hold " ++ privileged.name))
    | none => .ok requested

variable {role : Accounts.Role} {current requested grants : GrantSet}

/-- What is taken is what was asked for. -/
theorem checkChange_ok (h : checkChange role current requested = .ok grants) :
    grants = requested := by
  unfold checkChange at h
  split at h
  · cases h
  · split at h
    · cases h
    · exact (Except.ok.inj h).symm

end Grant

namespace GrantSwitches

open Accounts (Role)
open ClientAccount (CommandError)

/-! ## The clients -/

/-- The open Bot, as far as its changes go. -/
structure Open where
  /-- A profile edit is being saved. -/
  saving : Bool
  /-- A pin, hide or grant change is under way. -/
  updating : Bool
  /-- The grant to turn on or off once the Bot's current grants arrive. -/
  grant : Option (Grant × Bool)
  updateError : Option String
deriving DecidableEq

def Open.new : Open := ⟨false, false, none, none⟩

/-- A client: its user's role, its copy of the Bot's grants, and the Bot while it is open. -/
structure Client where
  role : Role
  held : Option GrantSet
  opened : Option Open
deriving DecidableEq

/-- A change meant for one grant, and the Bot's grants that it was read with. -/
structure Switch where
  grant : Grant
  on : Bool
  read : GrantSet
deriving DecidableEq

/-- What a client asks of the gateway. The switch that an update is for is kept to be told from. -/
inductive Request where
  | loadBot
  | updateBot (grants : Option GrantSet) (switch : Option Switch)
deriving DecidableEq

inductive Reply where
  | bot (result : Except CommandError GrantSet)
  | botUpdated (result : Except CommandError Unit)

/-- What a client is told of a request that got no answer. -/
def Request.unanswered (error : CommandError) : Request → Reply
  | .loadBot => .bot (.error error)
  | .updateBot _ _ => .botUpdated (.error error)

def Reply.lost (reply : Reply) (error : CommandError) : Reply :=
  match reply with
  | .bot _ => .bot (.error error)
  | .botUpdated _ => .botUpdated (.error error)

namespace Client

/-- The open Bot's grants, if the user may change it now. -/
def canUpdate (c : Client) : Option GrantSet :=
  match c.opened with
  | some o => if o.updating ∨ o.saving then none else c.held
  | none => none

/-- Whether the switch of a grant can be used. -/
def available (c : Client) (grant : Grant) : Bool :=
  match c.canUpdate with
  | some held => grant ∈ held || c.role = .admin || grant.memberMayGrant
  | none => false

/-- Turn a grant of the open Bot's on or off, as the switch shows it. -/
def toggleGrant (c : Client) (grant : Grant) : Client × List Request :=
  match c.opened, c.held with
  | some o, some held =>
    ({ c with opened := some { o with
        updating := true
        grant := some (grant, decide (grant ∉ held))
        updateError := none } }, [.loadBot])
  | _, _ => (c, [])

/-- A pin or a hide, or with `saving` a profile edit. -/
def change (c : Client) (saving : Bool) : Client × List Request :=
  match c.opened with
  | some o =>
    let o := if saving then { o with saving := true }
      else { o with updating := true, updateError := none }
    ({ c with opened := some o }, [.updateBot none none])
  | none => (c, [])

/-- The session has ended. -/
def ended (c : Client) : Client := { c with held := none, opened := none }

/-- The Bot as the gateway has it now, for a grant change: send the change. -/
def grantFrom (c : Client) (result : Except CommandError GrantSet) : Client × List Request :=
  match c.opened with
  | none => (c, [])
  | some o =>
    match o.grant with
    | none => (c, [])
    | some (grant, on) =>
      let o := { o with grant := none }
      match result with
      | .ok bot =>
        let grants := if on then insert grant bot else bot.erase grant
        ({ c with opened := some o }, [.updateBot (some grants) (some ⟨grant, on, bot⟩)])
      | .error error =>
        if error.isUnauthenticated then (c.ended, [])
        else ({ c with opened := some { o with
          updating := false
          updateError := some error.message } }, [])

def botUpdated (c : Client) (result : Except CommandError Unit) : Client :=
  match c.opened with
  | none => c
  | some o =>
    if o.saving then
      match result with
      | .ok _ => { c with opened := some { o with saving := false } }
      | .error error =>
        if error.isUnauthenticated then c.ended
        else { c with opened := some { o with saving := false } }
    else if o.updating then
      match result with
      | .ok _ => { c with opened := some { o with updating := false } }
      | .error error =>
        if error.isUnauthenticated then c.ended
        else { c with opened := some { o with
          updating := false
          updateError := some error.message } }
    else c

def hear (c : Client) : Reply → Client × List Request
  | .bot result => c.grantFrom result
  | .botUpdated result => (c.botUpdated result, [])

end Client

/-! ## The gateway and its clients -/

/-- A change of the grants that the gateway took. -/
inductive Taken where
  | switch (grant : Grant) (on : Bool)
  | edit (grants : GrantSet)
deriving DecidableEq

/-- What a change sets a grant to, if it is meant for it. -/
def Taken.sets (grant : Grant) : Taken → Option Bool
  | .switch g on => if g = grant then some on else none
  | .edit grants => some (grant ∈ grants)

/-- The account's role and the Bot's grants on the gateway, the clients, and what is on its way
between them. The grants at the start and the changes taken are kept to be told from. -/
structure World where
  role : Role
  grants : GrantSet
  clients : List Client
  requests : List (ℕ × Request)
  replies : List (ℕ × Reply)
  first : GrantSet
  taken : List Taken

inductive Action where
  /-- A client's copy of the Bot changes, to what the Bot was at any time. -/
  | copied (client : ℕ) (grants : GrantSet)
  | openBot (client : ℕ)
  | leave (client : ℕ)
  | toggle (client : ℕ) (grant : Grant)
  | change (client : ℕ) (saving : Bool)
  /-- The gateway takes a request, of any that are on their way. -/
  | serve (index : ℕ)
  /-- A request does not reach the gateway. -/
  | lose (index : ℕ) (error : CommandError)
  /-- A reply reaches its client, or is lost. -/
  | deliver (index : ℕ) (lost : Option CommandError)
  /-- An admin's edit of the Bot. -/
  | updateMemberBot (grants : GrantSet)
  | setRole (role : Role)

namespace World

def new (role : Role) (grants : GrantSet) (clients : ℕ) : World :=
  ⟨role, grants, List.replicate clients ⟨role, none, none⟩, [], [], grants, []⟩

/-- What the changes taken mean for a grant: the last that is meant for it counts. -/
def meant (w : World) (grant : Grant) : Bool :=
  (w.taken.filterMap (Taken.sets grant)).getLast?.getD (grant ∈ w.first)

def failure (failure : Failure) : CommandError :=
  ⟨failure.code = .unauthenticated, failure.message⟩

/-- A client acts, and its requests are on their way. -/
def act (w : World) (client : ℕ) (f : Client → Client × List Request) : Option World := do
  let c ← w.clients[client]?
  return { w with
    clients := w.clients.set client (f c).1
    requests := w.requests ++ (f c).2.map fun request => (client, request) }

def reply (w : World) (client : ℕ) (reply : Reply) : World :=
  { w with replies := w.replies ++ [(client, reply)] }

/-- The handler of a Bot's update, as far as its grants go. -/
def update (w : World) (grants : Option GrantSet) (switch : Option Switch) :
    World × Except Failure Unit :=
  match grants with
  | none => (w, .ok ())
  | some requested =>
    match Grant.checkChange w.role w.grants requested with
    | .error failure => (w, .error failure)
    | .ok grants => ({ w with
        grants
        taken := w.taken ++
          [match switch with
          | some s => .switch s.grant s.on
          | none => .edit grants] }, .ok ())

def serve (w : World) (client : ℕ) : Request → World
  | .loadBot => w.reply client (.bot (.ok w.grants))
  | .updateBot grants switch =>
    let (w, result) := w.update grants switch
    w.reply client (.botUpdated (result.mapError failure))

def step (w : World) : Action → Option World
  | .copied client grants => w.act client fun c => ({ c with held := some grants }, [])
  | .openBot client => w.act client fun c => ({ c with opened := some .new }, [])
  | .leave client => w.act client fun c => ({ c with opened := none }, [])
  | .toggle client grant =>
    w.act client fun c => if c.available grant then c.toggleGrant grant else (c, [])
  | .change client saving =>
    w.act client fun c => if c.canUpdate.isSome then c.change saving else (c, [])
  | .serve index => do
    let (client, request) ← w.requests[index]?
    return serve { w with requests := w.requests.eraseIdx index } client request
  | .lose index error => do
    let (client, request) ← w.requests[index]?
    return reply { w with requests := w.requests.eraseIdx index } client
      (request.unanswered error)
  | .deliver index lost => do
    let (client, answer) ← w.replies[index]?
    act { w with replies := w.replies.eraseIdx index } client fun c =>
      c.hear (lost.elim answer answer.lost)
  | .updateMemberBot requested =>
    match Grant.checkChange .admin w.grants requested with
    | .error _ => some w
    | .ok grants => some { w with grants, taken := w.taken ++ [.edit grants] }
  | .setRole role => some { w with role }

end World

/-! ## Switches that nothing comes between -/

/-- What a switch writes, with what it read. -/
def Switch.writes (s : Switch) : GrantSet :=
  if s.on then insert s.grant s.read else s.read.erase s.grant

/-- If the gateway takes this switch's grants, the Bot's others are what they were when it was read
for the switch. -/
def FindsOthers (w : World) : Request → Prop
  | .updateBot (some grants) (some s) =>
    (Grant.checkChange w.role w.grants grants).toOption.isSome →
      s.read.erase s.grant = w.grants.erase s.grant
  | _ => True

instance (w : World) : (request : Request) → Decidable (FindsOthers w request)
  | .updateBot (some grants) (some s) =>
    inferInstanceAs (Decidable ((Grant.checkChange w.role w.grants grants).toOption.isSome →
      s.read.erase s.grant = w.grants.erase s.grant))
  | .updateBot (some _) none => isTrue trivial
  | .updateBot none _ => isTrue trivial
  | .loadBot => isTrue trivial

/-- No other grant changes between a switch's read of the Bot and its write. -/
def Undisturbed (w : World) : Action → Prop
  | .serve index => ∀ p ∈ w.requests[index]?, FindsOthers w p.2
  | _ => True

instance (w : World) : (a : Action) → Decidable (Undisturbed w a)
  | .serve index => inferInstanceAs (Decidable (∀ p ∈ w.requests[index]?, FindsOthers w p.2))
  | .copied _ _ => isTrue trivial
  | .openBot _ => isTrue trivial
  | .leave _ => isTrue trivial
  | .toggle _ _ => isTrue trivial
  | .change _ _ => isTrue trivial
  | .lose _ _ => isTrue trivial
  | .deliver _ _ => isTrue trivial
  | .updateMemberBot _ => isTrue trivial
  | .setRole _ => isTrue trivial

/-- A client's update of the grants is a switch. -/
def Switches (request : Request) : Prop :=
  ∀ grants switch, request = .updateBot (some grants) switch →
    ∃ s : Switch, switch = some s ∧ grants = s.writes

section Clients

variable {c : Client} {request : Request}

theorem switches_loadBot : Switches .loadBot := fun _ _ h => by cases h

theorem switches_other : Switches (.updateBot none none) := fun _ _ h => by cases h

theorem Client.switches_toggleGrant {grant : Grant} (h : request ∈ (c.toggleGrant grant).2) :
    Switches request := by
  unfold toggleGrant at h
  split at h
  · rw [List.mem_singleton.mp h]
    exact switches_loadBot
  · cases h

theorem Client.switches_change {saving : Bool} (h : request ∈ (c.change saving).2) :
    Switches request := by
  unfold change at h
  split at h
  · rw [List.mem_singleton.mp h]
    exact switches_other
  · cases h

theorem Client.switches_grantFrom {result : Except CommandError GrantSet}
    (h : request ∈ (c.grantFrom result).2) : Switches request := by
  unfold grantFrom at h
  split at h
  · cases h
  · split at h
    · cases h
    · next grant on hgrant =>
        cases result with
        | ok bot =>
            rw [List.mem_singleton.mp h]
            rintro grants switch heq
            obtain ⟨hgrants, hswitch⟩ := Request.updateBot.inj heq
            exact ⟨⟨grant, on, bot⟩, hswitch.symm, (Option.some.inj hgrants).symm⟩
        | error error =>
            dsimp only at h
            split at h <;> cases h

theorem Client.switches_hear {reply : Reply} (h : request ∈ (c.hear reply).2) :
    Switches request := by
  cases reply with
  | bot result => exact switches_grantFrom h
  | botUpdated result => cases h

end Clients

section Grants

variable {w w' : World} {grant : Grant}

/-- What is on its way is a switch's, and the grants are what the changes taken mean. -/
structure Inv (w : World) : Prop where
  requests : ∀ p ∈ w.requests, Switches p.2
  meant : ∀ grant, grant ∈ w.grants ↔ w.meant grant = true

theorem inv_new (role : Role) (grants : GrantSet) (clients : ℕ) :
    Inv (.new role grants clients) where
  requests := fun p hp => by cases hp
  meant := fun grant => decide_eq_true_iff.symm

/-- What a client does leaves the grants alone. -/
theorem Inv.act {client : ℕ} {f : Client → Client × List Request} (h : Inv w)
    (hf : ∀ c, ∀ request ∈ (f c).2, Switches request) (hact : w.act client f = some w') :
    Inv w' := by
  obtain ⟨c, -, hact⟩ := Option.bind_eq_some_iff.mp hact
  obtain rfl := Option.some.inj hact
  refine ⟨fun p hp => ?_, h.meant⟩
  rcases List.mem_append.mp hp with hp | hp
  · exact h.requests p hp
  · obtain ⟨request, hrequest, rfl⟩ := List.mem_map.mp hp
    exact hf c request hrequest

theorem Inv.dropRequest (h : Inv w) (index : ℕ) :
    Inv { w with requests := w.requests.eraseIdx index } :=
  ⟨fun p hp => h.requests p (List.mem_of_mem_eraseIdx hp), h.meant⟩

theorem Inv.dropReply (h : Inv w) (index : ℕ) :
    Inv { w with replies := w.replies.eraseIdx index } := ⟨h.requests, h.meant⟩

theorem Inv.reply (h : Inv w) (client : ℕ) (reply : Reply) : Inv (w.reply client reply) :=
  ⟨h.requests, h.meant⟩

/-- What one more change means for a grant. -/
theorem meant_snoc (grants : GrantSet) (t : Taken) :
    World.meant { w with grants, taken := w.taken ++ [t] } grant =
      (t.sets grant).getD (w.meant grant) := by
  unfold World.meant
  rw [List.filterMap_append]
  cases hsets : t.sets grant with
  | none => simp [hsets]
  | some on => simp [hsets]

/-- A change that sets the grants it is meant for, and leaves the others. -/
theorem Inv.take (h : Inv w) (grants : GrantSet) (t : Taken)
    (hsets : ∀ grant, (grant ∈ grants) = ((t.sets grant).getD (decide (grant ∈ w.grants)) = true)) :
    Inv { w with grants, taken := w.taken ++ [t] } := by
  refine ⟨h.requests, fun grant => ?_⟩
  have hmeant : decide (grant ∈ w.grants) = w.meant grant :=
    Bool.eq_iff_iff.mpr (decide_eq_true_iff.trans (h.meant grant))
  rw [meant_snoc]
  show grant ∈ grants ↔ _
  rw [hsets grant, hmeant]

theorem Inv.edit (h : Inv w) (grants : GrantSet) :
    Inv { w with grants, taken := w.taken ++ [.edit grants] } :=
  h.take grants (.edit grants) fun grant => by simp [Taken.sets]

/-- A switch that read the other grants as they are sets its own and leaves them. -/
theorem Inv.switch (h : Inv w) {s : Switch}
    (hread : s.read.erase s.grant = w.grants.erase s.grant) :
    Inv { w with grants := s.writes, taken := w.taken ++ [.switch s.grant s.on] } := by
  refine h.take s.writes (.switch s.grant s.on) fun grant => ?_
  have hother : ∀ g, g ≠ s.grant → (g ∈ s.read ↔ g ∈ w.grants) := by
    intro g hg
    have hmem := congrArg (g ∈ ·) hread
    simpa [hg] using hmem
  by_cases hgrant : s.grant = grant
  · subst hgrant
    cases hon : s.on <;> simp [Switch.writes, Taken.sets, hon]
  · have hsame := hother grant (Ne.symm hgrant)
    cases hon : s.on <;> simp [Switch.writes, Taken.sets, hon, hgrant, Ne.symm hgrant, hsame]

theorem Inv.serve (h : Inv w) {index client : ℕ} {request : Request}
    (hrequest : w.requests[index]? = some (client, request))
    (hundisturbed : Undisturbed w (.serve index)) :
    Inv (World.serve { w with requests := w.requests.eraseIdx index } client request) := by
  have hdropped := h.dropRequest index
  cases request with
  | loadBot => exact hdropped.reply client _
  | updateBot grants switch =>
      refine Inv.reply ?_ client _
      cases grants with
      | none => exact hdropped
      | some requested =>
          obtain ⟨s, rfl, rfl⟩ :=
            h.requests _ (List.mem_of_getElem? hrequest) requested switch rfl
          have hothers := hundisturbed _ hrequest
          dsimp only
          cases hcheck : Grant.checkChange w.role w.grants s.writes with
          | error failure => exact hdropped
          | ok grants =>
              obtain rfl := Grant.checkChange_ok hcheck
              exact hdropped.switch (hothers (by rw [hcheck]; rfl))

theorem Inv.step {a : Action} (h : Inv w) (hundisturbed : Undisturbed w a)
    (hstep : w.step a = some w') : Inv w' := by
  cases a with
  | copied client grants => exact h.act (fun c request hr => by cases hr) hstep
  | openBot client => exact h.act (fun c request hr => by cases hr) hstep
  | leave client => exact h.act (fun c request hr => by cases hr) hstep
  | toggle client grant =>
      refine h.act (fun c request hr => ?_) hstep
      split at hr
      · exact Client.switches_toggleGrant hr
      · cases hr
  | change client saving =>
      refine h.act (fun c request hr => ?_) hstep
      split at hr
      · exact Client.switches_change hr
      · cases hr
  | serve index =>
      obtain ⟨⟨client, request⟩, hrequest, hstep⟩ := Option.bind_eq_some_iff.mp hstep
      obtain rfl := Option.some.inj hstep
      exact h.serve hrequest hundisturbed
  | lose index error =>
      obtain ⟨⟨client, request⟩, -, hstep⟩ := Option.bind_eq_some_iff.mp hstep
      obtain rfl := Option.some.inj hstep
      exact (h.dropRequest index).reply client _
  | deliver index lost =>
      obtain ⟨⟨client, reply⟩, -, hstep⟩ := Option.bind_eq_some_iff.mp hstep
      exact (h.dropReply index).act (fun c request hr => Client.switches_hear hr) hstep
  | updateMemberBot requested =>
      rw [World.step] at hstep
      split at hstep
      · obtain rfl := Option.some.inj hstep
        exact h
      · obtain rfl := Option.some.inj hstep
        exact h.edit _
  | setRole role =>
      obtain rfl := Option.some.inj hstep
      exact ⟨h.requests, h.meant⟩

/-- Whatever the order of the switches and the edits: as long as no other grant changes between a
switch's read of the Bot and its write, each grant is what the last change meant for it set. -/
theorem switches_own {role : Role} {grants : GrantSet} {clients : ℕ} {as : List Action}
    (h : Runs.Run (fun s a t => World.step s a = some t ∧ Undisturbed s a)
      (.new role grants clients) as w) (grant : Grant) :
    grant ∈ w.grants ↔ w.meant grant = true := by
  have hinv : Inv w := h.invariant (fun s a t hs hstep => hs.step hstep.2 hstep.1)
    (inv_new role grants clients)
  exact hinv.meant grant

end Grants

/-- Two clients switch a grant each at once; the second reads the Bot once the first has written. -/
def inTurn : List Action :=
  [.copied 0 ∅, .openBot 0, .copied 1 ∅, .openBot 1, .toggle 0 .notes, .toggle 1 .seen,
    .serve 0, .deliver 0 none, .serve 1, .deliver 0 none, .serve 0, .deliver 0 none, .serve 0,
    .deliver 0 none]

theorem switches_own_two : ∃ w : World,
    Runs.Run (fun s a t => World.step s a = some t ∧ Undisturbed s a) (.new .member ∅ 2) inTurn w ∧
      (Grant.notes ∈ w.grants ∧ Grant.seen ∈ w.grants ∧ w.requests = []) ∧
      w.meant .notes = true ∧ w.meant .seen = true := by
  have hend : (Runs.exec (fun s a => if decide (Undisturbed s a) then World.step s a else none)
      (.new .member ∅ 2) inTurn).any (fun w =>
        decide (Grant.notes ∈ w.grants ∧ Grant.seen ∈ w.grants ∧ w.requests = [])) = true := by
    decide +kernel
  obtain ⟨w, hexec, hgrants⟩ := Option.any_eq_true .. |>.mp hend
  have hrun := Runs.run_of_exec_checked (fun _ _ => of_decide_eq_true) hexec
  obtain ⟨hnotes, hseen, hrequests⟩ := of_decide_eq_true hgrants
  exact ⟨w, hrun, ⟨hnotes, hseen, hrequests⟩, (switches_own hrun .notes).mp hnotes,
    (switches_own hrun .seen).mp hseen⟩

/-- Two clients switch a grant each. -/
def twoSwitches : List Action :=
  [.copied 0 ∅, .openBot 0, .copied 1 ∅, .openBot 1, .toggle 0 .notes, .toggle 1 .seen,
    .serve 0, .serve 0, .deliver 0 none, .deliver 0 none, .serve 0, .serve 0, .deliver 0 none,
    .deliver 0 none]

/-- Each client read the Bot before either wrote: the second write takes the first back. -/
theorem switch_taken_back : ∃ w, Runs.exec World.step (.new .member ∅ 2) twoSwitches = some w ∧
    w.requests = [] ∧ w.replies.length = 0 ∧
    ¬ (Grant.notes ∈ w.grants ↔ w.meant .notes = true) := by
  have hend : ((Runs.exec World.step (.new .member ∅ 2) twoSwitches).any fun w =>
      decide (w.requests = [] ∧ w.replies.length = 0 ∧
        ¬ (Grant.notes ∈ w.grants ↔ w.meant .notes = true))) = true := by decide +kernel
  cases hexec : Runs.exec World.step (.new .member ∅ 2) twoSwitches with
  | none =>
      rw [hexec] at hend
      cases hend
  | some w =>
      rw [hexec] at hend
      exact ⟨w, rfl, of_decide_eq_true hend⟩

end GrantSwitches

end Bokkie
