import Mathlib.Data.List.Basic

/-!
# Machines that answer inputs with commands

A reactor changes its state with each input and answers it with commands. What watches one reads
the inputs and the commands in the order in which they came, and knows nothing else.
-/

/-- A machine that answers each input with commands. -/
structure Reactor (σ ι κ : Type*) where
  start : σ
  handle : σ → ι → σ × List κ

namespace Reactor

variable {σ ι κ ω : Type*}

inductive Entry (ι κ : Type*) where
  | input (i : ι)
  | command (k : κ)

/-- The state after the inputs. -/
def after (m : Reactor σ ι κ) : σ → List ι → σ :=
  List.foldl fun s i => (m.handle s i).1

/-- The inputs, each followed by the commands that answer it. -/
def log (m : Reactor σ ι κ) : σ → List ι → List (Entry ι κ)
  | _, [] => []
  | s, i :: is =>
    .input i :: (m.handle s i).2.map .command ++ log m (m.handle s i).1 is

/-- What one who watches makes of each entry. -/
structure Observer (ω ι κ : Type*) where
  hear : ω → ι → ω
  see : ω → κ → ω

namespace Observer

variable (o : Observer ω ι κ) (allowed : ω → κ → Prop)

def read (w : ω) : Entry ι κ → ω
  | .input i => o.hear w i
  | .command k => o.see w k

def after : ω → List (Entry ι κ) → ω := List.foldl o.read

/-- What the commands of one answer leave. -/
def seen : ω → List κ → ω := List.foldl o.see

/-- Each command is allowed where it stands. -/
def Obeyed : ω → List (Entry ι κ) → Prop
  | _, [] => True
  | w, .input i :: es => Obeyed (o.hear w i) es
  | w, .command k :: es => allowed w k ∧ Obeyed (o.see w k) es

/-- Each command of one answer is allowed where it stands. -/
def Proper : ω → List κ → Prop
  | _, [] => True
  | w, k :: ks => allowed w k ∧ Proper (o.see w k) ks

variable {o allowed} {w : ω} {k : κ} {ks : List κ} {es : List (Entry ι κ)}

@[simp] theorem seen_nil : o.seen w [] = w := rfl

@[simp] theorem seen_cons : o.seen w (k :: ks) = o.seen (o.see w k) ks := rfl

@[simp] theorem proper_nil : o.Proper allowed w [] := trivial

@[simp] theorem proper_cons :
    o.Proper allowed w (k :: ks) ↔ allowed w k ∧ o.Proper allowed (o.see w k) ks := Iff.rfl

theorem seen_append {ks' : List κ} : o.seen w (ks ++ ks') = o.seen (o.seen w ks) ks' :=
  List.foldl_append

theorem proper_append {ks' : List κ} : o.Proper allowed w (ks ++ ks') ↔
    o.Proper allowed w ks ∧ o.Proper allowed (o.seen w ks) ks' := by
  induction ks generalizing w with
  | nil => simp
  | cons k ks ih => simp [ih, and_assoc]

theorem after_commands : o.after w (ks.map .command) = o.seen w ks := by
  induction ks generalizing w with
  | nil => rfl
  | cons k ks ih => exact ih

theorem obeyed_commands : o.Obeyed allowed w (ks.map .command) ↔ o.Proper allowed w ks := by
  induction ks generalizing w with
  | nil => rfl
  | cons k ks ih => exact and_congr_right fun _ => ih

theorem obeyed_append {es' : List (Entry ι κ)} : o.Obeyed allowed w (es ++ es') ↔
    o.Obeyed allowed w es ∧ o.Obeyed allowed (o.after w es) es' := by
  induction es generalizing w with
  | nil => exact ⟨fun h => ⟨trivial, h⟩, And.right⟩
  | cons e es ih =>
      cases e with
      | input i => exact ih
      | command k => exact (and_congr_right fun _ => ih).trans and_assoc.symm

/-- A command anywhere in a log that keeps to the rule was allowed by what stands before it. -/
theorem Obeyed.allowed_at (h : o.Obeyed allowed w es) {before rest : List (Entry ι κ)}
    (hes : es = before ++ .command k :: rest) : allowed (o.after w before) k := by
  subst hes
  exact (obeyed_append.mp h).2.1

end Observer

/-- Each input is as promised where the machine and who watches it stand. -/
def Meets (m : Reactor σ ι κ) (o : Observer ω ι κ) (promised : σ → ω → ι → Prop) :
    σ → ω → List ι → Prop
  | _, _, [] => True
  | s, w, i :: is => promised s w i ∧
    Meets m o promised (m.handle s i).1 (o.seen (o.hear w i) (m.handle s i).2) is

instance Meets.decidable (m : Reactor σ ι κ) (o : Observer ω ι κ) (promised : σ → ω → ι → Prop)
    [∀ s w i, Decidable (promised s w i)] :
    (s : σ) → (w : ω) → (is : List ι) → Decidable (m.Meets o promised s w is)
  | _, _, [] => inferInstanceAs (Decidable True)
  | s, w, i :: is =>
    have := decidable m o promised (m.handle s i).1 (o.seen (o.hear w i) (m.handle s i).2) is
    inferInstanceAs (Decidable (promised s w i ∧ _))

theorem meets_of_forall (m : Reactor σ ι κ) (o : Observer ω ι κ) {promised : σ → ω → ι → Prop}
    (h : ∀ s w i, promised s w i) (s : σ) (w : ω) (is : List ι) : m.Meets o promised s w is := by
  induction is generalizing s w with
  | nil => trivial
  | cons i is ih => exact ⟨h s w i, ih _ _⟩

/-- What relates the machine to what was observed, and is kept by every answer to an input that is
as promised, holds after any such inputs, and every command of the log was allowed. -/
theorem run_kept_of_meets (m : Reactor σ ι κ) (o : Observer ω ι κ) {allowed : ω → κ → Prop}
    {promised : σ → ω → ι → Prop} {rel : σ → ω → Prop}
    (hstep : ∀ s w i, promised s w i → rel s w →
      o.Proper allowed (o.hear w i) (m.handle s i).2 ∧
        rel (m.handle s i).1 (o.seen (o.hear w i) (m.handle s i).2))
    {s : σ} {w : ω} (h : rel s w) {is : List ι} (his : m.Meets o promised s w is) :
    o.Obeyed allowed w (m.log s is) ∧ rel (m.after s is) (o.after w (m.log s is)) := by
  induction is generalizing s w with
  | nil => exact ⟨trivial, h⟩
  | cons i is ih =>
      obtain ⟨hproper, hrel⟩ := hstep s w i his.1 h
      obtain ⟨hobeyed, hafter⟩ := ih hrel his.2
      have hseen : o.after w (.input i :: (m.handle s i).2.map .command) =
          o.seen (o.hear w i) (m.handle s i).2 := Observer.after_commands
      constructor
      · refine Observer.obeyed_append.mpr ⟨Observer.obeyed_commands.mpr hproper, ?_⟩
        rw [hseen]
        exact hobeyed
      · have hlog : o.after w (m.log s (i :: is)) =
            o.after (o.seen (o.hear w i) (m.handle s i).2) (m.log (m.handle s i).1 is) := by
          rw [← hseen]
          exact List.foldl_append
        rw [hlog]
        exact hafter

/-- As `run_kept_of_meets`, where nothing is promised of the inputs. -/
theorem run_kept (m : Reactor σ ι κ) (o : Observer ω ι κ) {allowed : ω → κ → Prop}
    {rel : σ → ω → Prop}
    (hstep : ∀ s w i, rel s w → o.Proper allowed (o.hear w i) (m.handle s i).2 ∧
      rel (m.handle s i).1 (o.seen (o.hear w i) (m.handle s i).2))
    {s : σ} {w : ω} (h : rel s w) (is : List ι) :
    o.Obeyed allowed w (m.log s is) ∧ rel (m.after s is) (o.after w (m.log s is)) :=
  m.run_kept_of_meets o (fun s w i _ => hstep s w i) h
    (m.meets_of_forall o (fun _ _ _ => trivial) s w is)

end Reactor
