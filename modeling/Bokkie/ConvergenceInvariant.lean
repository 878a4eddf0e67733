import Bokkie.StoreLoads

/-!
# What every schedule keeps

Every open conversation follows the gateway, unless its newest page was stale.
-/

namespace Bokkie

variable {δ : Type} {H : History δ} {app app' : App δ} {bot : ℕ}

namespace App

/-- A Bot's open conversation follows the gateway, or is to be reloaded. -/
structure Following (H : History δ) (bot : ℕ) (app : App δ) : Prop where
  follows : ∀ c, app.store.conversations[bot]? = some c → (app.copies bot).lossy = false →
    Follows H bot app.position (app.copies bot).reflects c
  reloads : ∀ c, app.store.conversations[bot]? = some c → (app.copies bot).lossy = true →
    (app.copies bot).abandoned = true ∨ .messages bot ∈ app.store.loading
  /-- The older page asked for this copy is read after its newest page. -/
  requested : ∀ c, app.store.conversations[bot]? = some c → c.requestedOlder ≠ none →
    ∀ ask, app.asks (.older bot) = some ask → c.seq ≤ ask.had

structure Converging (H : History δ) (app : App δ) : Prop where
  loads : ∃ h₀, Loads H h₀ app
  following : ∀ bot, Following H bot app

/-- Nothing changes in a conversation but the cursor it asked an older page for. -/
theorem Following.kept (h : Following H bot app) (hposition : app'.position = app.position)
    (hreflects : (app'.copies bot).reflects = (app.copies bot).reflects)
    (hlossy : (app'.copies bot).lossy = (app.copies bot).lossy)
    (hreloads : (app.copies bot).lossy = true →
      (app.copies bot).abandoned = true ∨ .messages bot ∈ app.store.loading →
      (app'.copies bot).abandoned = true ∨ .messages bot ∈ app'.store.loading)
    (hconv : ∀ c', app'.store.conversations[bot]? = some c' →
      ∃ c, app.store.conversations[bot]? = some c ∧
        c' = { c with requestedOlder := c'.requestedOlder })
    (hrequested : ∀ c', app'.store.conversations[bot]? = some c' → c'.requestedOlder ≠ none →
      ∀ ask, app'.asks (.older bot) = some ask → c'.seq ≤ ask.had) : Following H bot app' where
  follows c' hc' hwhole := by
    obtain ⟨c, hc, heq⟩ := hconv c' hc'
    rw [heq, hposition, hreflects]
    exact (h.follows c hc (hlossy ▸ hwhole)).request _
  reloads c' hc' hlost := by
    obtain ⟨c, hc, -⟩ := hconv c' hc'
    rw [hlossy] at hlost
    exact hreloads hlost (h.reloads c hc hlost)
  requested := hrequested

/-- Nothing changes in a conversation, and any older page asked for is asked for now. -/
theorem Following.same (h : Following H bot app) (hposition : app'.position = app.position)
    (hcopies : app'.copies bot = app.copies bot)
    (hloading : .messages bot ∈ app.store.loading → .messages bot ∈ app'.store.loading)
    (hconv : app'.store.conversations[bot]? = app.store.conversations[bot]?)
    (hasks : ∀ ask, app'.asks (.older bot) = some ask →
      app.asks (.older bot) = some ask ∨ app.had bot ≤ ask.had) : Following H bot app' := by
  refine h.kept hposition (by rw [hcopies]) (by rw [hcopies]) (fun _ hreload => ?_)
    (fun c' hc' => ⟨c', by rw [← hconv, hc'], rfl⟩) fun c' hc' hreq ask hask => ?_
  · rw [hcopies]
    exact hreload.imp_right hloading
  · rw [hconv] at hc'
    rcases hasks ask hask with hold | hhad
    · exact h.requested c' hc' hreq ask hold
    · have hseq : c'.seq ≤ app.had bot := by
        simp [had, hc']
      exact hseq.trans hhad

end App

end Bokkie
