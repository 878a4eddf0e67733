import Bokkie.ConvergenceSteps

/-!
# Open conversations converge

Under every schedule, once nothing is loading and the events have caught up with a conversation's
pages, the conversation shows what the gateway has.
-/

namespace Bokkie

namespace App

variable {δ : Type} {H : History δ} {app : App δ} {bot start : ℕ}

theorem converging_run [DecidableEq δ] (hH : H.Valid) (hstart : start ≤ H.length)
    {actions : List (Action δ)} (hrun : Runs.exec (App.step H) (App.new start) actions = some app) :
    Converging H app :=
  Runs.exec_invariant (fun _ action _ h hstep => converging_step hH action h hstep) hrun
    (converging_new hstart)

/-- Every message of its Bot that an idle client's conversation holds agrees with the gateway's,
and it holds every one from its older cursor on. -/
theorem converged [DecidableEq δ] (hH : H.Valid) (hstart : start ≤ H.length)
    {actions : List (Action δ)} (hrun : Runs.exec (App.step H) (App.new start) actions = some app)
    (hidle : app.store.loading = ∅) {c : Conversation δ}
    (hc : app.store.conversations[bot]? = some c)
    (hcaught : (app.copies bot).reflects ≤ app.position)
    (hkept : (app.copies bot).abandoned = false) :
    (∀ (i : ℕ) m, c.messages[i]? = some m → m.botId = bot →
      ∃ g, (H.table app.position)[i]? = some g ∧ m.Agrees g) ∧
    ∀ (i : ℕ) g, (H.table app.position)[i]? = some g → g.botId = bot →
      (∀ cursor, c.older = some cursor → cursor ≤ i) →
      ∃ m, c.messages[i]? = some m ∧ m.Agrees g := by
  obtain ⟨hfollows, hreloads, -⟩ := (converging_run hH hstart hrun).following bot
  have hwhole : (app.copies bot).lossy = false := by
    cases hlossy : (app.copies bot).lossy with
    | false => rfl
    | true =>
        rcases hreloads c hc hlossy with hgiven | hloading
        · rw [hkept] at hgiven
          cases hgiven
        · rw [hidle] at hloading
          simp at hloading
  have h := hfollows c hc hwhole
  have hheld : ∀ (i : ℕ) m, c.messages[i]? = some m → ∃ g,
      (H.table app.position)[i]? = some g ∧ g.botId = m.botId ∧ (m.botId = bot → m.Agrees g) := by
    intro i m hm
    obtain ⟨r, -, hr, g, hg, hbot, hagrees⟩ := h.held i m hm
    rw [Nat.max_eq_left (hr.trans hcaught)] at hg
    exact ⟨g, hg, hbot, hagrees⟩
  refine ⟨fun i m hm hown => ?_, fun i g hg hown hcursor => ?_⟩
  · obtain ⟨g, hg, -, hagrees⟩ := hheld i m hm
    exact ⟨g, hg, hagrees hown⟩
  · rw [← Nat.max_eq_left (h.seq_le.trans hcaught)] at hg
    obtain ⟨m, hm⟩ := h.fromCursor i g hg hown hcursor
    obtain ⟨g', hg', hbot, hagrees⟩ := hheld i m hm
    rw [Nat.max_eq_left (h.seq_le.trans hcaught)] at hg
    obtain rfl := Option.some.inj (hg.symm.trans hg')
    exact ⟨m, hm, hagrees (hbot.symm.trans hown)⟩

/-- A reply that starts with one letter and streams another. -/
def reply : History Unit where
  changes := [
    ⟨⟨1, 0, .messageCreated ⟨7, 1, .bot, ['a'], .streaming, 0, 0, ()⟩⟩, 0⟩,
    ⟨⟨2, 1, .messageDelta 1 7 1 ['b']⟩, 1⟩]
  numbered := rfl

theorem reply_valid : reply.Valid := by
  intro n hn
  have hn' : n < 2 := hn
  obtain rfl | rfl : n = 0 ∨ n = 1 := by omega
  · exact (by decide : (reply.table 0)[7]? = none)
  · exact ⟨⟨7, 1, .bot, ['a'], .streaming, 0, 0, ()⟩, by decide, rfl, fun _ => rfl⟩

/-- The conversation opens on a page read after `reflects` changes, and `events` events follow. -/
def opening (reflects events : ℕ) : List (Action Unit) :=
  [.request (.messages 1), .messages 1 1 reflects 50] ++ List.replicate events .deliver

def opened (reflects events : ℕ) : Option (App Unit) :=
  Runs.exec (App.step reply) (App.new 0) (opening reflects events)

/-- An idle client at `position`, and the reply it shows. -/
def Shows (app : App Unit) (position reflects : ℕ) (m : Message Unit) : Prop :=
  app.position = position ∧ app.store.loading = ∅ ∧ (app.copies 1).reflects = reflects ∧
    (app.copies 1).abandoned = false ∧ ∃ c, app.store.conversations[1]? = some c ∧
      c.older = none ∧ c.messages[7]? = some m

theorem opened_shows (reflects events position : ℕ) (m : Message Unit)
    (h : (opened reflects events).any (fun app => app.position = position ∧
      app.store.loading = ∅ ∧ (app.copies 1).reflects = reflects ∧
      (app.copies 1).abandoned = false ∧ (app.store.conversations[1]?).any fun c =>
        c.older = none ∧ c.messages[7]? = some m) = true) :
    ∃ app, opened reflects events = some app ∧ Shows app position reflects m := by
  cases happ : opened reflects events with
  | none => simp [happ] at h
  | some app =>
      simp only [happ, Option.any_some, decide_eq_true_eq] at h
      obtain ⟨hposition, hidle, hreflects, hkept, hopen⟩ := h
      cases hc : app.store.conversations[1]? with
      | none => simp [hc] at hopen
      | some c =>
          simp only [hc, Option.any_some, decide_eq_true_eq] at hopen
          exact ⟨app, rfl, hposition, hidle, hreflects, hkept, c, hc, hopen⟩

theorem converged_reply : ∃ app c m, opened 1 2 = some app ∧
    app.store.conversations[1]? = some c ∧ c.messages[7]? = some m ∧
    m.Agrees ⟨7, 1, .bot, ['a', 'b'], .streaming, 0, 1, ()⟩ := by
  obtain ⟨app, hrun, hposition, hidle, hreflects, hkept, c, hc, holder, -⟩ :=
    opened_shows 1 2 2 ⟨7, 1, .bot, ['a', 'b'], .streaming, 0, 0, ()⟩ (by decide)
  obtain ⟨m, hm, hagrees⟩ := (converged reply_valid (by decide) hrun hidle hc (by omega) hkept).2 7
    ⟨7, 1, .bot, ['a', 'b'], .streaming, 0, 1, ()⟩ (by rw [hposition]; decide) rfl
    fun cursor h => by simp [holder] at h
  exact ⟨app, c, m, hrun, hc, hm, hagrees⟩

/-- A page ahead of the events shows what they have not told yet; and deltas do not carry the time
of a message's last change. -/
theorem ahead_and_untimed :
    ¬ (∀ (H : History Unit), H.Valid → ∀ actions app,
      Runs.exec (App.step H) (App.new 0) actions = some app → app.store.loading = ∅ →
      ∀ c, app.store.conversations[1]? = some c → ∀ (i : ℕ) m, c.messages[i]? = some m →
      ∃ g, (H.table app.position)[i]? = some g ∧ m.text = g.text) ∧
    ¬ (∀ (H : History Unit), H.Valid → ∀ actions app,
      Runs.exec (App.step H) (App.new 0) actions = some app → app.store.loading = ∅ →
      (app.copies 1).reflects ≤ app.position →
      ∀ c, app.store.conversations[1]? = some c → ∀ (i : ℕ) m, c.messages[i]? = some m →
      (H.table app.position)[i]? = some m) := by
  constructor
  · intro h
    obtain ⟨app, hrun, hposition, hidle, -, -, c, hc, -, hm⟩ :=
      opened_shows 2 1 1 ⟨7, 1, .bot, ['a', 'b'], .streaming, 0, 1, ()⟩ (by decide)
    obtain ⟨g, hg, htext⟩ := h reply reply_valid _ app hrun hidle c hc 7 _ hm
    rw [hposition, show (reply.table 1)[7]? = some ⟨7, 1, .bot, ['a'], .streaming, 0, 0, ()⟩ by
      decide] at hg
    rw [← Option.some.inj hg] at htext
    simp at htext
  · intro h
    obtain ⟨app, hrun, hposition, hidle, hreflects, -, c, hc, -, hm⟩ :=
      opened_shows 1 2 2 ⟨7, 1, .bot, ['a', 'b'], .streaming, 0, 0, ()⟩ (by decide)
    have hg := h reply reply_valid _ app hrun hidle (by omega) c hc 7 _ hm
    rw [hposition] at hg
    revert hg
    decide

end App

end Bokkie
