import Bokkie.Oversight

/-!
# Oversight ends at once

From the moment that an answer says that a member's oversight is off, the client holds nothing that
was read under it, as long as the answers come in time.
-/

namespace Bokkie.Oversight

variable {δ : Type} {c : Client δ} {s s' : AccountScreen δ} {id : ℕ}

section Screens

theorem screenClear_new (id : ℕ) : ScreenClear (.new id : AccountScreen δ) where
  reading := rfl
  oversight := fun _ h => by cases h
  bots := fun _ h => by cases h

/-- What is left when oversight ends. -/
theorem screenClear_endOversight (s : AccountScreen δ) : ScreenClear s.endOversight where
  reading := rfl
  oversight := fun list h => by
    obtain ⟨list', -, rfl⟩ := Option.map_eq_some_iff.mp h
    rfl
  bots := fun list h bot hbot => by
    obtain ⟨list', -, rfl⟩ := Option.map_eq_some_iff.mp h
    obtain ⟨bot', hbot', rfl⟩ := List.mem_map.mp hbot
    exact ⟨(List.mem_filter.mp hbot').2, rfl⟩

/-- What else a screen shows is not of oversight. -/
theorem ScreenClear.congr (h : ScreenClear s) (hreading : s'.reading = s.reading)
    (hbots : s'.bots = s.bots) : ScreenClear s' where
  reading := hreading.trans h.reading
  oversight := hbots ▸ h.oversight
  bots := hbots ▸ h.bots

theorem screenOf_eq_some : c.screenOf id = some s ↔ c.screen = some s ∧ s.id = id := by
  simp [Client.screenOf, Option.filter_eq_some_iff]

theorem Clear.screen (h : Clear c id) (hs : c.screen = some s) (hid : s.id = id) : ScreenClear s :=
  h s (screenOf_eq_some.mpr ⟨hs, hid⟩)

theorem clear_none : Clear (none : Client δ) id := fun _ h => by cases h

theorem clear_of_screen_none (h : c.screen = none) : Clear c id := fun s hs => by
  rw [(screenOf_eq_some.mp hs).1] at h
  cases h

theorem clear_setScreen (h : s.id = id → ScreenClear s) : Clear (c.setScreen s) id := by
  intro s' hs'
  obtain ⟨hscreen, hid⟩ := screenOf_eq_some.mp hs'
  cases c with
  | none => cases hscreen
  | some admin =>
      obtain rfl := Option.some.inj hscreen
      exact h hid

/-- A screen that shows the same Bots and the same conversation is as clear. -/
theorem Clear.setScreen (h : Clear c id) (hs : c.screen = some s) (c' : Client δ)
    (hid : s'.id = s.id) (hreading : s'.reading = s.reading) (hbots : s'.bots = s.bots) :
    Clear (c'.setScreen s') id :=
  clear_setScreen fun hid' => (h.screen hs (hid.symm.trans hid')).congr hreading hbots

end Screens

section Choices

theorem Clear.openAccount (h : Clear c id) (account : ℕ) : Clear (c.openAccount account).1 id := by
  unfold Client.openAccount
  split
  · exact h
  · next admin =>
      split
      · split
        · exact h
        · split
          · exact clear_setScreen (c := some admin) fun _ =>
              (screenClear_new account).congr rfl rfl
          · exact clear_setScreen (c := some admin) fun _ => screenClear_new account
      · exact h

theorem Clear.updateAccount (h : Clear c id) (oversight : Bool) :
    Clear (c.updateAccount oversight).1 id := by
  unfold Client.updateAccount
  split
  · next s user hs _ =>
      split
      · exact h
      · exact h.setScreen hs c rfl rfl rfl
  · exact h

theorem Clear.makeMemberBot (h : Clear c id) : Clear c.makeMemberBot.1 id := by
  unfold Client.makeMemberBot
  split
  · next s user hs _ =>
      split
      · exact h
      · exact h.setScreen hs c rfl rfl rfl
  · exact h

theorem Clear.editMemberBot (h : Clear c id) (bot : ℕ) : Clear (c.editMemberBot bot).1 id := by
  unfold Client.editMemberBot
  split
  · next s hs =>
      split
      · exact h.setScreen hs c rfl rfl rfl
      · exact h
  · exact h

theorem Clear.saveMemberBot (h : Clear c id) (changed : Bool) :
    Clear (c.saveMemberBot changed).1 id := by
  unfold Client.saveMemberBot
  split
  · next s hs =>
      split
      · split
        · exact h.setScreen hs c rfl rfl rfl
        · exact h.setScreen hs c rfl rfl rfl
      · exact h
  · exact h

theorem Clear.cancelMemberBot (h : Clear c id) : Clear c.cancelMemberBot.1 id := by
  unfold Client.cancelMemberBot
  split
  · next s hs =>
      split
      · exact h.setScreen hs c rfl rfl rfl
      · exact h
  · exact h

/-- No conversation is opened from a list that was not read under oversight. -/
theorem Clear.readConversation (h : Clear c id) (bot : ℕ) :
    Clear (c.readConversation bot).1 id := by
  unfold Client.readConversation
  split
  · next s hs =>
      split
      · next hread =>
          refine clear_setScreen fun hid => ?_
          have hclear := h.screen hs hid
          obtain ⟨-, hoversight, -⟩ := hread
          cases hbots : s.bots with
          | none => simp [hbots] at hoversight
          | some list => simp [hbots, hclear.oversight list hbots] at hoversight
      · exact h
  · exact h

theorem Clear.loadEarlier (h : Clear c id) : Clear c.loadEarlier.1 id := by
  unfold Client.loadEarlier
  split
  · next s hs =>
      split
      · next r hr =>
          split
          · split
            · exact h
            · refine clear_setScreen fun hid => ?_
              have hnone := (h.screen hs hid).reading
              rw [hr] at hnone
              cases hnone
          · exact h
      · exact h
  · exact h

theorem Clear.refresh (h : Clear c id) : Clear c.refresh.1 id := by
  unfold Client.refresh
  split
  · split
    · exact h
    · exact h
  · next s hs =>
      split
      · next r hr =>
          refine clear_setScreen fun hid => ?_
          have hnone := (h.screen hs hid).reading
          rw [hr] at hnone
          cases hnone
      · split
        · exact h.setScreen hs c rfl rfl rfl
        · exact h

theorem Clear.back (h : Clear c id) : Clear c.back.1 id := by
  unfold Client.back
  split
  · exact h
  · next admin =>
      split
      · exact clear_none
      · next s hs =>
          split
          · refine clear_setScreen (c := some admin) fun hid => ?_
            have hclear := h.screen (s := s) hs hid
            exact ⟨rfl, hclear.oversight, hclear.bots⟩
          · exact clear_of_screen_none rfl

theorem Clear.perform (h : Clear c id) (choice : Client.Choice) :
    Clear (c.perform choice).1 id := by
  cases choice with
  | openAdmin => exact clear_of_screen_none rfl
  | openAccount account => exact h.openAccount account
  | oversight => exact h.updateAccount true
  | change => exact h.updateAccount false
  | makeMemberBot => exact h.makeMemberBot
  | editMemberBot bot => exact h.editMemberBot bot
  | saveMemberBot changed => exact h.saveMemberBot changed
  | cancelMemberBot => exact h.cancelMemberBot
  | readConversation bot => exact h.readConversation bot
  | loadEarlier => exact h.loadEarlier
  | refresh => exact h.refresh
  | back => exact h.back
  | close => exact clear_none

end Choices

section Replies

theorem Clear.accountsReply (h : Clear c id) (result : Except Failure (List AdminUser)) :
    Clear (c.accountsReply result).1 id := by
  unfold Client.accountsReply
  split
  · intro s hs
    obtain ⟨hscreen, hid⟩ := screenOf_eq_some.mp hs
    cases c with
    | none => cases hscreen
    | some admin => exact h.screen (s := s) hscreen hid
  · split
    · exact clear_none
    · exact h

theorem Clear.accountUpdated (h : Clear c id) (account : ℕ) (result : Except Failure AdminUser) :
    Clear (c.accountUpdated account result).1 id := by
  unfold Client.accountUpdated
  split
  · exact h
  · next s hs =>
      obtain ⟨hs, -⟩ := screenOf_eq_some.mp (Option.filter_eq_some_iff.mp hs).1
      cases result with
      | error failure =>
          dsimp only
          split
          · exact clear_none
          · exact h.setScreen hs c rfl rfl rfl
      | ok user =>
          have hshown : ∀ c' : Client δ, ∀ s' : AccountScreen δ,
              s' = (if user.oversight then { s with saving := false, error := none }
                else AccountScreen.endOversight { s with saving := false, error := none }) →
              s'.id = id → ScreenClear s' := by
            rintro - s' rfl hid
            split at hid
            · next hon =>
                rw [if_pos hon]
                exact (h.screen hs hid).congr rfl rfl
            · next hoff =>
                rw [if_neg hoff]
                exact screenClear_endOversight _
          dsimp only
          split
          · exact clear_setScreen fun hid => (hshown c _ rfl hid).congr rfl rfl
          · exact clear_setScreen fun hid => hshown c _ rfl hid

/-- The list shows nothing of oversight. -/
def ListClear (list : MemberBotList δ) : Prop :=
  list.oversight = false ∧ ∀ bot ∈ list.bots, bot.madeByAdmin = true ∧ bot.overseen = none

theorem Clear.memberBotsReply (h : Clear c id) {account : ℕ}
    {result : Except Failure (MemberBotList δ)}
    (hlist : account = id → ∀ list, result = .ok list →
      ListClear list ∨ c.screenOf account = none) :
    Clear (c.memberBotsReply account result).1 id := by
  unfold Client.memberBotsReply
  split
  · exact h
  · next s hs =>
      obtain ⟨hscreen, hid⟩ := screenOf_eq_some.mp hs
      split
      · next list =>
          refine clear_setScreen fun hid' => ?_
          have hclear := h.screen hscreen hid'
          rcases hlist (hid.symm.trans hid') list rfl with hlist | hnone
          · refine ⟨?_, fun list' h' => ?_, fun list' h' => ?_⟩
            · rw [hlist.1]
              rfl
            · obtain rfl := Option.some.inj h'
              exact hlist.1
            · obtain rfl := Option.some.inj h'
              exact hlist.2
          · rw [hnone] at hs
            cases hs
      · split
        · exact clear_none
        · exact h.setScreen hscreen c rfl rfl rfl

theorem Clear.memberBotCreated (h : Clear c id) (account : ℕ) (result : Except Failure Unit) :
    Clear (c.memberBotCreated account result).1 id := by
  unfold Client.memberBotCreated
  split
  · exact h
  · next s hs =>
      obtain ⟨hs, -⟩ := screenOf_eq_some.mp (Option.filter_eq_some_iff.mp hs).1
      split
      · exact h.setScreen hs c rfl rfl rfl
      · split
        · exact clear_none
        · exact h.setScreen hs c rfl rfl rfl

theorem Clear.memberBotUpdated (h : Clear c id) (account bot : ℕ)
    (result : Except Failure Unit) : Clear (c.memberBotUpdated account bot result).1 id := by
  unfold Client.memberBotUpdated
  split
  · exact h
  · next s hs =>
      obtain ⟨hs, -⟩ := screenOf_eq_some.mp (Option.filter_eq_some_iff.mp hs).1
      split
      · exact h.setScreen hs c rfl rfl rfl
      · split
        · exact clear_none
        · exact h.setScreen hs c rfl rfl rfl

/-- No page is taken while no conversation is read. -/
theorem Clear.memberMessages (h : Clear c id) (account bot : ℕ) (before : Option ℕ)
    (result : Except Failure (List (Message δ) × Option ℕ)) :
    Clear (c.memberMessages account bot before result).1 id := by
  unfold Client.memberMessages
  split
  · exact h
  · next s hs =>
      obtain ⟨hs, -⟩ := screenOf_eq_some.mp hs
      split
      · exact h
      · next r hr =>
          have hreading : s.reading = some r := (Option.filter_eq_some_iff.mp hr).1
          have hother : s.id = id → False := fun hid => by
            have hnone := (h.screen hs hid).reading
            rw [hreading] at hnone
            cases hnone
          split
          · exact clear_setScreen fun hid => (hother hid).elim
          · split
            · exact clear_none
            · split
              · exact clear_setScreen fun hid => (hother hid).elim
              · exact clear_setScreen fun hid => (hother hid).elim

theorem Clear.hear (h : Clear c id) {reply : Reply δ}
    (hlist : ∀ list, reply = .memberBots id (.ok list) →
      ListClear list ∨ c.screenOf id = none) :
    Clear (c.hear reply).1 id := by
  cases reply with
  | accounts result => exact h.accountsReply result
  | accountUpdated account result => exact h.accountUpdated account result
  | memberBots account result =>
      refine h.memberBotsReply fun haccount list hresult => ?_
      subst haccount hresult
      exact hlist list rfl
  | memberBotCreated account result => exact h.memberBotCreated account result
  | memberBotUpdated account bot result => exact h.memberBotUpdated account bot result
  | memberMessages account bot before result => exact h.memberMessages account bot before result

/-- The answer to an update that says oversight is off ends it. -/
theorem clear_accountUpdated {user : AdminUser} (hoff : user.oversight = false)
    (hsaving : ∀ s ∈ c.screenOf id, s.saving = true) :
    Clear (c.accountUpdated id (.ok user)).1 id := by
  unfold Client.accountUpdated
  split
  · next hnone =>
      intro s hs
      have hsome : (c.screenOf id).filter (·.saving) = some s :=
        Option.filter_eq_some_iff.mpr ⟨hs, hsaving s hs⟩
      rw [hnone] at hsome
      cases hsome
  · next s hs =>
      have hnot : ¬ user.oversight = true := by simp [hoff]
      dsimp only
      rw [if_neg hnot]
      split
      · exact clear_setScreen fun _ => (screenClear_endOversight _).congr rfl rfl
      · exact clear_setScreen fun _ => screenClear_endOversight _

/-- A list that shows nothing of oversight leaves nothing of it. -/
theorem clear_memberBotsReply {list : MemberBotList δ} (hlist : ListClear list) :
    Clear (c.memberBotsReply id (.ok list)).1 id := by
  unfold Client.memberBotsReply
  split
  · next hnone =>
      intro s hs
      rw [hnone] at hs
      cases hs
  · refine clear_setScreen fun _ => ⟨?_, fun list' h' => ?_, fun list' h' => ?_⟩
    · rw [hlist.1]
      rfl
    · obtain rfl := Option.some.inj h'
      exact hlist.1
    · obtain rfl := Option.some.inj h'
      exact hlist.2

/-- A page refused as forbidden, while it is waited for, ends oversight. -/
theorem clear_forbidden {bot : ℕ} {before : Option ℕ} {failure : Failure}
    (hcode : failure.code = .forbidden)
    (hawaits : ∀ s ∈ c.screenOf id, (Client.awaits s bot before).isSome) :
    Clear (c.memberMessages id bot before (.error failure)).1 id := by
  unfold Client.memberMessages
  split
  · next hnone =>
      intro s hs
      rw [hnone] at hs
      cases hs
  · next s hs =>
      split
      · next hnone =>
          have hsome := hawaits s hs
          rw [hnone] at hsome
          cases hsome
      · dsimp only
        rw [if_neg (by simp [Client.ended, hcode]), if_pos hcode]
        exact clear_setScreen fun _ => (screenClear_endOversight s).congr rfl rfl

end Replies

section Gateway

/-- Without oversight the gateway lists the Bots an admin made, and nothing of their activity. -/
theorem listClear_memberBots (m : Member δ) (h : m.user.oversight = false) :
    ListClear m.memberBots := by
  refine ⟨h, fun bot hbot => ?_⟩
  obtain ⟨row, hrow, rfl⟩ := List.mem_map.mp hbot
  simp only [h] at hrow ⊢
  have hvisible := (List.mem_filter.mp ((List.mem_insertionSort _).mp hrow)).2
  simp only [Member.visible, h, Bool.false_or] at hvisible
  exact ⟨hvisible, rfl⟩

theorem listClear_answer {members : List (Member δ)} {request : Request} {account : ℕ}
    {list : MemberBotList δ} (h : answer members request = .memberBots account (.ok list))
    (hoff : list.oversight = false) : ListClear list := by
  cases request with
  | memberBots id =>
      obtain ⟨-, h⟩ := Reply.memberBots.inj h
      split at h
      · next m _ =>
          split at h
          · cases h
          · obtain rfl := Except.ok.inj h
            exact listClear_memberBots m hoff
      · cases h
  | listAccounts => cases h
  | updateAccount id oversight => cases h
  | createMemberBot id => cases h
  | updateMemberBot id bot => cases h
  | memberMessages id bot before => cases h

end Gateway

section Runs

variable {w w' : World δ}

theorem ask_keeps (requests : List Request) : (w.ask requests).client = w.client ∧
    (w.ask requests).off = w.off ∧ (w.ask requests).replies = w.replies := by
  induction requests generalizing w with
  | nil => exact ⟨rfl, rfl, rfl⟩
  | cons request requests ih => exact ih

/-- Where an answer said that oversight is off, nothing of it is held; and a list that says so
shows nothing of it. -/
structure Inv (w : World δ) : Prop where
  clear : ∀ id, (w.off id).isSome → Clear w.client id
  lists : ∀ p ∈ w.replies, ∀ id list, p.2 = .memberBots id (.ok list) →
    list.oversight = false → ListClear list

theorem inv_new (members : List (Member δ)) : Inv (.new members) where
  clear := fun _ h => by cases h
  lists := fun _ h => by cases h

theorem inv_handled {result : Client.Handled δ}
    (hlists : ∀ p ∈ w.replies, ∀ id list, p.2 = .memberBots id (.ok list) →
      list.oversight = false → ListClear list)
    (hclear : ∀ id, (w.off id).isSome → Clear result.1 id) : Inv (w.handled result) := by
  obtain ⟨hclient, hoff, hreplies⟩ :=
    ask_keeps (w := { w with client := result.1 }) result.2
  constructor
  · intro id hid
    rw [World.handled, hclient]
    rw [World.handled, hoff] at hid
    exact hclear id hid
  · rw [World.handled, hreplies]
    exact hlists

theorem Inv.answered (h : Inv w) (number : ℕ) {reply : Reply δ}
    (hreply : ∀ id list, reply = .memberBots id (.ok list) → list.oversight = false →
      ListClear list) : Inv (w.answered number reply) where
  clear := h.clear
  lists := fun p hp => by
    rcases List.mem_append.mp hp with hp | hp
    · exact h.lists p hp
    · rw [List.mem_singleton.mp hp]
      exact hreply

/-- An account is still known as off after an answer: the answer says so, or it was, and no answer
to a later request says otherwise. -/
theorem heard_isSome {number id : ℕ} {reply : Reply δ}
    (h : (w.heard number reply id).isSome) :
    reply.tells = some (id, false) ∨ ((w.off id).isSome ∧
      (reply.tells = some (id, true) → ∃ last ∈ w.off id, number ≤ last)) := by
  cases htells : reply.tells with
  | none =>
      simp only [World.heard, htells] at h
      exact .inr ⟨h, fun hon => by cases hon⟩
  | some told =>
      obtain ⟨account, on⟩ := told
      by_cases haccount : account = id
      · subst haccount
        cases on with
        | false => exact .inl rfl
        | true =>
            simp only [World.heard, htells] at h
            split at h
            · rw [Function.update_self] at h
              cases h
            · next hlater =>
                refine .inr ⟨h, fun _ => ?_⟩
                obtain ⟨last, hlast⟩ := Option.isSome_iff_exists.mp h
                refine ⟨last, hlast, ?_⟩
                simpa [hlast] using hlater
      · have hsame : w.heard number reply id = w.off id := by
          cases on with
          | false =>
              simp only [World.heard, htells]
              exact Function.update_of_ne (Ne.symm haccount) _ _
          | true =>
              simp only [World.heard, htells]
              split
              · exact Function.update_of_ne (Ne.symm haccount) _ _
              · rfl
        rw [hsame] at h
        exact .inr ⟨h, fun hon => absurd (congrArg Prod.fst (Option.some.inj hon)) haccount⟩

/-- An answer that says oversight is off leaves nothing of it. -/
theorem Inv.clear_off (h : Inv w) {number id : ℕ} {reply : Reply δ}
    (hreply : w.reply number = some (number, reply)) (htimely : Timely w (.deliver number))
    (hoff : reply.tells = some (id, false)) : Clear (w.client.hear reply).1 id := by
  have hmem : (number, reply) ∈ w.replies := List.mem_of_find?_eq_some hreply
  have htimely := htimely _ hreply
  have hkeep : (∀ list, reply ≠ .memberBots id (.ok list)) → Clear w.client id →
      Clear (w.client.hear reply).1 id := fun hno hclear =>
    hclear.hear fun list heq => absurd heq (hno list)
  cases reply with
  | accounts result => cases hoff
  | memberBotCreated account result => cases hoff
  | memberBotUpdated account bot result => cases hoff
  | accountUpdated account result =>
      cases result with
      | error failure => cases hoff
      | ok user =>
          obtain ⟨rfl, huser⟩ : account = id ∧ user.oversight = false := by
            simpa [Reply.tells] using hoff
          rcases htimely huser with hclear | hsaving
          · exact hkeep (fun _ heq => by cases heq) hclear
          · exact clear_accountUpdated huser hsaving
  | memberBots account result =>
      cases result with
      | error failure => cases hoff
      | ok list =>
          obtain ⟨rfl, hlist⟩ : account = id ∧ list.oversight = false := by
            simpa [Reply.tells] using hoff
          exact clear_memberBotsReply (h.lists _ hmem account list rfl hlist)
  | memberMessages account bot before result =>
      cases result with
      | ok page => cases hoff
      | error failure =>
          have hcode : failure.code = .forbidden ∧ account = id := by
            simpa [Reply.tells] using hoff
          obtain ⟨hcode, rfl⟩ := hcode
          rcases htimely hcode with hclear | hawaits
          · exact hkeep (fun _ heq => by cases heq) hclear
          · exact clear_forbidden hcode hawaits

theorem Inv.deliver (h : Inv w) {number : ℕ} {reply : Reply δ}
    (hreply : w.reply number = some (number, reply)) (htimely : Timely w (.deliver number)) :
    Inv (w.deliver number reply) := by
  have hmem : (number, reply) ∈ w.replies := List.mem_of_find?_eq_some hreply
  have hlists : ∀ p ∈ w.replies.filter (·.1 ≠ number), ∀ id list,
      p.2 = .memberBots id (.ok list) → list.oversight = false → ListClear list :=
    fun p hp => h.lists p (List.mem_filter.mp hp).1
  refine inv_handled hlists fun id hid => ?_
  rcases heard_isSome hid with hoff | ⟨hknown, hon⟩
  · exact h.clear_off hreply htimely hoff
  · refine (h.clear id hknown).hear fun list heq => ?_
    cases hoversight : list.oversight with
    | false => exact .inl (h.lists _ hmem id list heq hoversight)
    | true =>
        have htells : reply.tells = some (id, true) := by rw [heq, Reply.tells, hoversight]
        have htimely := htimely _ hreply
        rw [heq] at htimely
        exact .inr (htimely hoversight (hon htells))

theorem reply_number {number : ℕ} {p : ℕ × Reply δ} (h : w.reply number = some p) :
    p.1 = number := by
  have hfound := List.find?_some h
  exact of_decide_eq_true hfound

theorem Inv.step {a : Action δ} (h : Inv w) (htimely : Timely w a) (hstep : w.step a = some w') :
    Inv w' := by
  cases a with
  | choose choice =>
      obtain rfl := Option.some.inj hstep
      exact inv_handled h.lists fun id hid => (h.clear id hid).perform choice
  | serve number =>
      obtain ⟨p, -, rfl⟩ := Option.map_eq_some_iff.mp hstep
      have hsame : Inv { w with members := updated w.members p.2 } := ⟨h.clear, h.lists⟩
      exact hsame.answered number fun id list heq hoff => listClear_answer heq hoff
  | refuse number failure =>
      obtain ⟨p, -, rfl⟩ := Option.map_eq_some_iff.mp hstep
      refine h.answered number fun id list heq => ?_
      cases hp : p.2 <;> rw [hp] at heq <;> cases heq
  | deliver number =>
      obtain ⟨⟨n, reply⟩, hp, rfl⟩ := Option.map_eq_some_iff.mp hstep
      obtain rfl : n = number := reply_number hp
      exact h.deliver hp htimely
  | gateway members =>
      obtain rfl := Option.some.inj hstep
      exact ⟨h.clear, h.lists⟩
  | endSession =>
      obtain rfl := Option.some.inj hstep
      exact ⟨fun _ _ => clear_none, fun _ hp => by cases hp⟩

/-- In every run whose answers come in time: once an answer has said that an account's oversight is
off, until an answer to a later request says that it is on, nothing of it is held. -/
theorem oversight_ends {members : List (Member δ)} {as : List (Action δ)}
    (h : Runs.Run (fun s a t => World.step s a = some t ∧ Timely s a) (.new members) as w)
    {id : ℕ} (hoff : (w.off id).isSome) : Clear w.client id := by
  have hinv : Inv w := h.invariant (fun s a t hs hstep => hs.step hstep.2 hstep.1)
    (inv_new members)
  exact hinv.clear id hoff

end Runs

/-- A member with one Bot of their own. -/
def oneMember (oversight : Bool) : List (Member Unit) :=
  [⟨⟨7, .member, oversight⟩, [⟨⟨5, .idle, none, none, false, ()⟩, none⟩], ∅⟩]

/-- The admin opens the account and reads a conversation of its Bot's. -/
def readOpen : List (Action Unit) :=
  [.choose .openAdmin, .serve 1, .deliver 1, .choose (.openAccount 7), .serve 2, .deliver 2,
    .choose (.readConversation 5), .serve 3, .deliver 3]

/-- Oversight is switched off. -/
def switchOff : List (Action Unit) := [.choose .oversight, .serve 4, .deliver 4]

/-- What was held of the account, the conversation with it, is dropped. -/
theorem oversight_ends_read : ∃ w w' : World Unit,
    Runs.Run (fun s a t => World.step s a = some t ∧ Timely s a) (.new (oneMember true)) readOpen w ∧
      ¬ Clear w.client 7 ∧
      Runs.Run (fun s a t => World.step s a = some t ∧ Timely s a) w switchOff w' ∧
      (w'.off 7).isSome = true ∧ Clear w'.client 7 := by
  let timely (s : World Unit) (a : Action Unit) : Option (World Unit) :=
    if decide (Timely s a) then World.step s a else none
  have h : (Runs.exec timely (.new (oneMember true)) readOpen).any (fun w =>
      decide (¬ Clear w.client 7) &&
        (Runs.exec timely w switchOff).any fun w => (w.off 7).isSome) = true := by decide +kernel
  obtain ⟨w, hread, hnext⟩ := Option.any_eq_true .. |>.mp h
  obtain ⟨hheld, hswitch⟩ := Bool.and_eq_true_iff.mp hnext
  obtain ⟨w', hend, hoff⟩ := Option.any_eq_true .. |>.mp hswitch
  have hrun := Runs.run_of_exec_checked (fun _ _ => of_decide_eq_true) hread
  have hrun' := Runs.run_of_exec_checked (fun _ _ => of_decide_eq_true) hend
  exact ⟨w, w', hrun, of_decide_eq_true hheld, hrun', hoff, oversight_ends (hrun.trans hrun') hoff⟩

/-- The list is read under oversight, then oversight is switched off, and then the list arrives. -/
def lateList : List (Action Unit) :=
  [.choose .openAdmin, .serve 1, .deliver 1, .choose (.openAccount 7), .serve 2,
    .choose .oversight, .serve 3, .deliver 3, .deliver 2]

/-- The member's own Bot shows although the account's update said that oversight is off. -/
theorem late_list_shown : (Runs.exec World.step (.new (oneMember true)) lateList).any (fun w =>
    (w.off 7).isSome ∧ ¬ Clear w.client 7) = true := by decide +kernel

end Bokkie.Oversight
