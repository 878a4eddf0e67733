import Bokkie.Runs
import Mathlib.Data.List.Forall2

/-!
# Programs and pools of tasks

A program is a tree of calls, each with what follows for every answer. A pool runs any number of
programs at once over one shared world: a step makes the next call of one task, or is a step of
the surroundings, which may start tasks or end them all. A discipline says in which phase a task
may make which call; tasks that obey it keep an invariant of the world and their phases in every
run.
-/

namespace Tasks

/-- A program: it ends with a result, or makes a call and goes on with the answer. -/
inductive Prog (Op : Type → Type) (α : Type) : Type 1
  | pure (a : α)
  | call {β : Type} (op : Op β) (next : β → Prog Op α)

namespace Prog

variable {Op Op' : Type → Type} {α β γ : Type}

def bind (p : Prog Op α) (f : α → Prog Op β) : Prog Op β :=
  match p with
  | .pure a => f a
  | .call op next => .call op fun b => (next b).bind f

instance : Monad (Prog Op) where
  pure := .pure
  bind := .bind

/-- The program of one call. -/
def perform (op : Op α) : Prog Op α := .call op .pure

/-- The same program over other calls. -/
def lift (f : {β : Type} → Op β → Op' β) : Prog Op α → Prog Op' α
  | .pure a => .pure a
  | .call op next => .call (f op) fun b => (next b).lift f

@[simp] theorem pure_bind' (a : α) (f : α → Prog Op β) : (Prog.pure a >>= f) = f a := rfl

@[simp] theorem call_bind (op : Op γ) (next : γ → Prog Op α) (f : α → Prog Op β) :
    (Prog.call op next >>= f) = .call op fun b => next b >>= f := rfl

theorem bind_pure' (p : Prog Op α) : (p >>= Prog.pure) = p := by
  induction p with
  | pure a => rfl
  | call op next ih =>
      rw [call_bind]
      exact congrArg (Prog.call op) (funext ih)

theorem bind_assoc' (p : Prog Op α) (f : α → Prog Op β) (g : β → Prog Op γ) :
    ((p >>= f) >>= g) = (p >>= fun a => f a >>= g) := by
  induction p with
  | pure a => rfl
  | call op next ih =>
      rw [call_bind, call_bind, call_bind]
      exact congrArg (Prog.call op) (funext ih)

theorem lift_bind (l : {β : Type} → Op β → Op' β) (p : Prog Op α) (f : α → Prog Op β) :
    (p >>= f).lift l = (p.lift l >>= fun a => (f a).lift l) := by
  induction p with
  | pure a => rfl
  | call op next ih => exact congrArg (Prog.call (l op)) (funext ih)

instance : LawfulMonad (Prog Op) :=
  LawfulMonad.mk' _ bind_pure' pure_bind' bind_assoc'

end Prog

namespace Prog

variable {Op : Type → Type} {P : {β : Type} → Op β → Prop} {α β ε : Type}

/-- Every call that the program may make, whatever the answers, is one of `P`. -/
def Only (P : {β : Type} → Op β → Prop) : Prog Op α → Prop
  | .pure _ => True
  | .call op next => P op ∧ ∀ r, (next r).Only P

theorem only_perform {op : Op α} (h : P op) : (perform op : Prog Op α).Only P :=
  ⟨h, fun _ => trivial⟩

theorem Only.bind {p : Prog Op β} {f : β → Prog Op α} (hp : p.Only P) (hf : ∀ b, (f b).Only P) :
    (p >>= f).Only P := by
  induction p with
  | pure b => exact hf b
  | call op next ih => exact ⟨hp.1, fun r => ih r (hp.2 r)⟩

theorem Only.runBind {p : ExceptT ε (Prog Op) β} {f : β → ExceptT ε (Prog Op) α}
    (hp : Only P p.run) (hf : ∀ b, Only P (f b).run) : Only P (p >>= f).run := by
  rw [ExceptT.run_bind]
  refine hp.bind fun r => ?_
  cases r with
  | ok b => exact hf b
  | error e => trivial

theorem Only.runLift {p : Prog Op α} (hp : p.Only P) :
    Only P (ExceptT.lift p : ExceptT ε (Prog Op) α).run := by
  rw [ExceptT.run_lift, ← bind_pure_comp]
  exact hp.bind fun _ => trivial

end Prog

/-- What a task may call in each phase, and the phase it is in with the answer. -/
structure Discipline (Op : Type → Type) (Φ : Type) where
  allows : Φ → {β : Type} → Op β → Prop
  after : Φ → {β : Type} → Op β → β → Φ

namespace Discipline

variable {Op : Type → Type} {Φ : Type} (D : Discipline Op Φ) {α β ε : Type}

/-- From phase `φ` the program makes only calls allowed in their phase, whatever the answers, and
ends with a result and a phase in `Q`. -/
def Obeys (φ : Φ) (p : Prog Op α) (Q : α → Φ → Prop) : Prop :=
  match p with
  | .pure a => Q a φ
  | .call op next => D.allows φ op ∧ ∀ r, Obeys (D.after φ op r) (next r) Q

variable {D} {φ : Φ} {Q Q' : α → Φ → Prop}

@[simp] theorem obeys_pure {a : α} : D.Obeys φ (Pure.pure a) Q ↔ Q a φ := Iff.rfl

@[simp] theorem obeys_perform {op : Op α} :
    D.Obeys φ (.perform op) Q ↔ D.allows φ op ∧ ∀ r, Q r (D.after φ op r) := Iff.rfl

theorem Obeys.mono {p : Prog Op α} (h : D.Obeys φ p Q) (hQ : ∀ a φ, Q a φ → Q' a φ) :
    D.Obeys φ p Q' := by
  induction p generalizing φ with
  | pure a => exact hQ a φ h
  | call op next ih => exact ⟨h.1, fun r => ih r (h.2 r)⟩

@[simp] theorem obeys_bind {p : Prog Op β} {f : β → Prog Op α} :
    D.Obeys φ (p >>= f) Q ↔ D.Obeys φ p fun b φ' => D.Obeys φ' (f b) Q := by
  induction p generalizing φ with
  | pure b => exact Iff.rfl
  | call op next ih => exact and_congr Iff.rfl (forall_congr' fun r => ih r)

/-- A program followed by another, by what is known of the first. -/
theorem Obeys.bind {p : Prog Op β} {f : β → Prog Op α} {P : β → Φ → Prop}
    (hp : D.Obeys φ p P) (hf : ∀ b φ', P b φ' → D.Obeys φ' (f b) Q) :
    D.Obeys φ (p >>= f) Q :=
  obeys_bind.mpr (hp.mono hf)

/-- Calls that are always allowed and tell nothing leave the phase as it is. -/
theorem Obeys.of_only {P : {β : Type} → Op β → Prop} {p : Prog Op α}
    (hP : ∀ {φ} {β : Type} {op : Op β}, P op → D.allows φ op ∧ ∀ r, D.after φ op r = φ)
    (hp : p.Only P) : D.Obeys φ p fun _ φ' => φ' = φ := by
  induction p with
  | pure a => rfl
  | call op next ih =>
      refine ⟨(hP hp.1).1, fun r => ?_⟩
      rw [(hP hp.1).2 r]
      exact ih r (hp.2 r)

section Except

variable {Q : Except ε α → Φ → Prop}

@[simp] theorem obeys_runPure {a : α} :
    D.Obeys φ (Pure.pure a : ExceptT ε (Prog Op) α).run Q ↔ Q (.ok a) φ := Iff.rfl

@[simp] theorem obeys_runThrow {e : ε} :
    D.Obeys φ (throw e : ExceptT ε (Prog Op) α).run Q ↔ Q (.error e) φ := Iff.rfl

@[simp] theorem obeys_runMk {p : Prog Op (Except ε α)} :
    D.Obeys φ (ExceptT.mk p).run Q ↔ D.Obeys φ p Q := Iff.rfl

@[simp] theorem obeys_runLift {p : Prog Op α} :
    D.Obeys φ (ExceptT.lift p : ExceptT ε (Prog Op) α).run Q ↔
      D.Obeys φ p fun a φ' => Q (.ok a) φ' := by
  rw [ExceptT.run_lift, ← bind_pure_comp, obeys_bind]
  exact Iff.rfl

/-- After a failure nothing more of a program that can fail is run. -/
@[simp] theorem obeys_runBind {p : ExceptT ε (Prog Op) β} {f : β → ExceptT ε (Prog Op) α}
:
    D.Obeys φ (p >>= f).run Q ↔
      D.Obeys φ p.run fun r φ' =>
        match r with
        | .ok b => D.Obeys φ' (f b).run Q
        | .error e => Q (.error e) φ' := by
  rw [ExceptT.run_bind, obeys_bind]
  constructor
  · intro h
    refine h.mono fun r φ' hr => ?_
    cases r with
    | ok b => exact hr
    | error e => exact hr
  · intro h
    refine h.mono fun r φ' hr => ?_
    cases r with
    | ok b => exact hr
    | error e => exact hr

/-- One call, and what follows for every answer. -/
theorem obeys_runPerform {op : Op β} {f : β → ExceptT ε (Prog Op) α} :
    D.Obeys φ (ExceptT.lift (.perform op) >>= f).run Q ↔
      D.allows φ op ∧ ∀ r, D.Obeys (D.after φ op r) (f r).run Q := by
  rw [obeys_runBind, obeys_runLift]
  exact Iff.rfl

/-- A program that can fail followed by another, by what is known of the first. -/
theorem Obeys.runBind {p : ExceptT ε (Prog Op) β} {f : β → ExceptT ε (Prog Op) α}
    {P : Except ε β → Φ → Prop} (hp : D.Obeys φ p.run P)
    (hok : ∀ b φ', P (.ok b) φ' → D.Obeys φ' (f b).run Q)
    (herror : ∀ e φ', P (.error e) φ' → Q (.error e) φ') : D.Obeys φ (p >>= f).run Q := by
  refine obeys_runBind.mpr (hp.mono fun r φ' hr => ?_)
  cases r with
  | ok b => exact hok b φ' hr
  | error e => exact herror e φ' hr

/-- Calls made for each of a list in turn, none of which changes what is known. -/
theorem obeys_forM {γ : Type} {l : List γ} {f : γ → ExceptT ε (Prog Op) PUnit}
    {Q : Except ε PUnit → Φ → Prop} {P : Φ → Prop} (hP : P φ)
    (hf : ∀ x ∈ l, ∀ φ', P φ' → D.Obeys φ' (f x).run fun r φ'' =>
      match r with
      | .ok _ => P φ''
      | .error e => Q (.error e) φ'')
    (hQ : ∀ φ', P φ' → Q (.ok ⟨⟩) φ') : D.Obeys φ (l.forM f).run Q := by
  induction l generalizing φ with
  | nil => exact hQ φ hP
  | cons x xs ih =>
      change D.Obeys φ (f x >>= fun _ => xs.forM f).run Q
      rw [obeys_runBind]
      refine (hf x (by simp) φ hP).mono fun r φ' hr => ?_
      cases r with
      | ok _ => exact ih hr fun y hy => hf y (List.mem_cons_of_mem _ hy)
      | error e => exact hr

end Except

end Discipline

/-- A system of tasks over the world `W`: how a call is answered with what the surroundings choose,
and the steps of the surroundings, which start tasks, or end them all and start anew. -/
structure System (Op : Type → Type) (W C E : Type) where
  answer : ℕ → {β : Type} → Op β → C → W → Option (β × W)
  surroundings : E → W → Option (W × List (Prog Op Unit))
  restart : W → Option (W × List (Prog Op Unit))

/-- The world, and the tasks with what each has left to do. -/
structure Pool (Op : Type → Type) (W : Type) where
  world : W
  tasks : List (Prog Op Unit)

inductive Action (C E : Type) where
  | task (i : ℕ) (choice : C)
  | surroundings (e : E)
  | restart
deriving DecidableEq

namespace System

variable {Op : Type → Type} {W C E Φ : Type} (S : System Op W C E)

def step (s : Pool Op W) : Action C E → Option (Pool Op W)
  | .task i choice =>
    match s.tasks[i]? with
    | some (.call op next) =>
      (S.answer i op choice s.world).map fun (r, w) => ⟨w, s.tasks.set i (next r)⟩
    | _ => none
  | .surroundings e => (S.surroundings e s.world).map fun (w, started) =>
    ⟨w, s.tasks ++ started⟩
  | .restart => (S.restart s.world).map fun (w, started) => ⟨w, started⟩

/-- Task `i` makes the call `op`, which is answered with `r`. -/
def Calls (s : Pool Op W) (i : ℕ) {β : Type} (op : Op β) (r : β) (t : Pool Op W) : Prop :=
  ∃ next choice w, s.tasks[i]? = some (.call op next) ∧
    S.answer i op choice s.world = some (r, w) ∧ t = ⟨w, s.tasks.set i (next r)⟩

theorem step_task {s t : Pool Op W} {i : ℕ} {choice : C}
    (h : S.step s (.task i choice) = some t) :
    ∃ (β : Type) (op : Op β) (r : β), S.Calls s i op r t := by
  simp only [step] at h
  cases hi : s.tasks[i]? with
  | none => simp [hi] at h
  | some p =>
      cases p with
      | pure a => simp [hi] at h
      | call op next =>
          simp only [hi] at h
          obtain ⟨⟨r, w⟩, hr, rfl⟩ := Option.map_eq_some_iff.mp h
          exact ⟨_, op, r, next, choice, w, hi, hr, rfl⟩

variable {S}

/-- An invariant of the world and of the phases of tasks that obey a discipline: every allowed call
keeps it, and what the surroundings start obeys. -/
structure Invariant (S : System Op W C E) (D : Discipline Op Φ) (ends : Φ → Prop)
    (I : W → List Φ → Prop) : Prop where
  task : ∀ {w φs i φ} {β : Type} {op : Op β} {choice r w'}, I w φs → φs[i]? = some φ →
    D.allows φ op → S.answer i op choice w = some (r, w') → I w' (φs.set i (D.after φ op r))
  surroundings : ∀ {w φs e w' ps}, I w φs → S.surroundings e w = some (w', ps) →
    ∃ ψs, List.Forall₂ (fun φ p => D.Obeys φ p fun _ => ends) ψs ps ∧ I w' (φs ++ ψs)
  restart : ∀ {w φs w' ps}, I w φs → S.restart w = some (w', ps) →
    ∃ ψs, List.Forall₂ (fun φ p => D.Obeys φ p fun _ => ends) ψs ps ∧ I w' ψs

/-- The invariant holds of the world and some phases that the tasks obey from. -/
def Holds (D : Discipline Op Φ) (ends : Φ → Prop) (I : W → List Φ → Prop)
    (s : Pool Op W) : Prop :=
  ∃ φs, List.Forall₂ (fun φ p => D.Obeys φ p fun _ => ends) φs s.tasks ∧ I s.world φs

section Invariant

variable {D : Discipline Op Φ} {ends : Φ → Prop} {I : W → List Φ → Prop} {s t : Pool Op W}

/-- The phase of a task that is about to make a call, in which the call is allowed. -/
theorem Holds.phase (h : Holds D ends I s) {i : ℕ} {β : Type} {op : Op β} {next : β → Prog Op Unit}
    (hi : s.tasks[i]? = some (.call op next)) :
    ∃ φs φ, φs[i]? = some φ ∧ D.allows φ op ∧ I s.world φs := by
  obtain ⟨φs, hobeys, hI⟩ := h
  obtain ⟨hlength, hget⟩ := List.forall₂_iff_get.mp hobeys
  obtain ⟨hlt, hcall⟩ := List.getElem?_eq_some_iff.mp hi
  have hlt' : i < φs.length := hlength ▸ hlt
  refine ⟨φs, φs[i], List.getElem?_eq_getElem hlt', ?_, hI⟩
  have hobey := hget i hlt' hlt
  simp only [List.get_eq_getElem, hcall] at hobey
  exact hobey.1

theorem Invariant.step (hinv : S.Invariant D ends I) (h : Holds D ends I s)
    {a : Action C E} (ha : S.step s a = some t) : Holds D ends I t := by
  obtain ⟨φs, hobeys, hI⟩ := h
  cases a with
  | task i choice =>
      obtain ⟨β, op, r, next, choice, w, hi, hr, rfl⟩ := S.step_task ha
      obtain ⟨hlength, hget⟩ := List.forall₂_iff_get.mp hobeys
      obtain ⟨hlt, hcall⟩ := List.getElem?_eq_some_iff.mp hi
      have hlt' : i < φs.length := hlength ▸ hlt
      have hobey := hget i hlt' hlt
      simp only [List.get_eq_getElem, hcall] at hobey
      refine ⟨φs.set i (D.after φs[i] op r), ?_,
        hinv.task hI (List.getElem?_eq_getElem hlt') hobey.1 hr⟩
      refine List.forall₂_iff_get.mpr ⟨by simpa using hlength, fun j hj hj' => ?_⟩
      simp only [List.get_eq_getElem, List.getElem_set]
      by_cases hji : i = j
      · simp only [hji, if_true] at hobey ⊢
        exact hobey.2 r
      · simp only [hji, if_false]
        exact hget j (by simpa using hj) (by simpa using hj')
  | surroundings e =>
      obtain ⟨⟨w, ps⟩, he, rfl⟩ := Option.map_eq_some_iff.mp ha
      obtain ⟨ψs, hψ, hI'⟩ := hinv.surroundings hI he
      exact ⟨φs ++ ψs, List.rel_append hobeys hψ, hI'⟩
  | restart =>
      obtain ⟨⟨w, ps⟩, he, rfl⟩ := Option.map_eq_some_iff.mp ha
      obtain ⟨ψs, hψ, hI'⟩ := hinv.restart hI he
      exact ⟨ψs, hψ, hI'⟩

/-- The same system, never restarted. -/
def unbroken (S : System Op W C E) : System Op W C E := { S with restart := fun _ => none }

theorem run_unbroken {as : List (Action C E)} (hrun : Runs.Run (Runs.Steps S.step) s as t)
    (has : Action.restart ∉ as) : Runs.Run (Runs.Steps S.unbroken.step) s as t := by
  induction hrun with
  | nil => exact .nil
  | @snoc u v as a _ ha ih =>
      simp only [List.mem_append, List.mem_singleton, not_or] at has
      refine .snoc (ih has.1) ?_
      cases a with
      | task i choice => exact ha
      | surroundings e => exact ha
      | restart => exact absurd rfl has.2

section Guarded

variable {P : ℕ → {β : Type} → Op β → W → Prop} {R : E → W → Prop}

open Classical in
/-- The same system, without the calls and the steps of its surroundings that fail a condition on
the world before them. -/
noncomputable def guarded (S : System Op W C E) (P : ℕ → {β : Type} → Op β → W → Prop)
    (R : E → W → Prop) : System Op W C E where
  answer := fun i {_} op choice w => if P i op w then S.answer i op choice w else none
  surroundings := fun e w => if R e w then S.surroundings e w else none
  restart := S.restart

/-- A step meets a condition on calls and one on the steps of the surroundings. -/
def Meets (P : ℕ → {β : Type} → Op β → W → Prop) (R : E → W → Prop) (s : Pool Op W) :
    Action C E → Prop
  | .task i _ => ∀ {β : Type} (op : Op β) (next : β → Prog Op Unit),
      s.tasks[i]? = some (.call op next) → P i op s.world
  | .surroundings e => R e s.world
  | .restart => True

theorem guarded_answer {i : ℕ} {β : Type} {op : Op β} {choice : C} {w : W} {r : β × W} :
    (S.guarded P R).answer i op choice w = some r ↔
      P i op w ∧ S.answer i op choice w = some r := by
  simp only [guarded, Option.ite_none_right_eq_some]

theorem guarded_surroundings {e : E} {w : W} {r : W × List (Prog Op Unit)} :
    (S.guarded P R).surroundings e w = some r ↔ R e w ∧ S.surroundings e w = some r := by
  simp only [guarded, Option.ite_none_right_eq_some]

/-- A run whose steps all meet the conditions is a run of the guarded system. -/
theorem run_guarded {as : List (Action C E)}
    (hrun : Runs.Run (fun s a t => S.step s a = some t ∧ Meets P R s a) s as t) :
    Runs.Run (Runs.Steps (S.guarded P R).step) s as t := by
  induction hrun with
  | nil => exact .nil
  | @snoc u v as a _ ha ih =>
      refine .snoc ih ?_
      obtain ⟨ha, hmeets⟩ := ha
      cases a with
      | restart => exact ha
      | surroundings e =>
          have hR : R e u.world := hmeets
          simpa only [Runs.Steps, step, guarded, hR, if_true] using ha
      | task i choice =>
          simp only [Runs.Steps, step] at ha ⊢
          cases hi : u.tasks[i]? with
          | none => simp [hi] at ha
          | some p =>
              cases p with
              | pure a => simp [hi] at ha
              | call op next =>
                  have hP : P i op u.world := hmeets op next hi
                  simpa only [hi, guarded, hP, if_true] using ha

end Guarded

/-- What holds at first and is kept by every allowed call holds in every run. -/
theorem Invariant.run (hinv : S.Invariant D ends I) {as : List (Action C E)}
    (hrun : Runs.Run (Runs.Steps S.step) s as t) (h : Holds D ends I s) : Holds D ends I t :=
  hrun.invariant (fun _ _ _ hs ha => hinv.step hs ha) h

/-- An invariant in two parts: what holds of the world and the number of tasks, and what holds of the
world and one task in its phase. A call answers for its own task, and leaves what holds of the
others. -/
structure TaskInvariant (S : System Op W C E) (D : Discipline Op Φ) (ends : Φ → Prop)
    (J : W → ℕ → Prop) (K : W → ℕ → Φ → Prop) : Prop where
  task : ∀ {w} {φs : List Φ} {i φ} {β : Type} {op : Op β} {choice r w'}, J w φs.length →
    (∀ j ψ, φs[j]? = some ψ → K w j ψ) → φs[i]? = some φ → D.allows φ op →
    S.answer i op choice w = some (r, w') →
    J w' φs.length ∧ K w' i (D.after φ op r) ∧ ∀ j ψ, i ≠ j → φs[j]? = some ψ → K w' j ψ
  surroundings : ∀ {w} {φs : List Φ} {e w' ps}, J w φs.length →
    (∀ j ψ, φs[j]? = some ψ → K w j ψ) → S.surroundings e w = some (w', ps) →
    ∃ ψs : List Φ, List.Forall₂ (fun φ p => D.Obeys φ p fun _ => ends) ψs ps ∧
      J w' (φs.length + ψs.length) ∧ (∀ j ψ, φs[j]? = some ψ → K w' j ψ) ∧
      ∀ j ψ, ψs[j]? = some ψ → K w' (φs.length + j) ψ
  restart : ∀ {w} {φs : List Φ} {w' ps}, J w φs.length → S.restart w = some (w', ps) →
    ∃ ψs : List Φ, List.Forall₂ (fun φ p => D.Obeys φ p fun _ => ends) ψs ps ∧ J w' ψs.length ∧
      ∀ j ψ, ψs[j]? = some ψ → K w' j ψ

theorem TaskInvariant.invariant {J : W → ℕ → Prop} {K : W → ℕ → Φ → Prop}
    (h : S.TaskInvariant D ends J K) :
    S.Invariant D ends fun w φs => J w φs.length ∧ ∀ j ψ, φs[j]? = some ψ → K w j ψ where
  task := by
    rintro w φs i φ β op choice r w' ⟨hJ, hK⟩ hi hop hr
    obtain ⟨hJ', hK', hothers⟩ := h.task hJ hK hi hop hr
    refine ⟨by rwa [List.length_set], fun j ψ hj => ?_⟩
    rw [List.getElem?_set] at hj
    by_cases hij : i = j
    · subst hij
      simp only [if_true] at hj
      split at hj
      · rwa [← Option.some.inj hj]
      · cases hj
    · exact hothers j ψ hij (by simpa [hij] using hj)
  surroundings := by
    rintro w φs e w' ps ⟨hJ, hK⟩ he
    obtain ⟨ψs, hψs, hJ', hold, hnew⟩ := h.surroundings hJ hK he
    refine ⟨ψs, hψs, by rwa [List.length_append], fun j ψ hj => ?_⟩
    by_cases hlt : j < φs.length
    · exact hold j ψ (by rwa [List.getElem?_append_left hlt] at hj)
    · rw [List.getElem?_append_right (by omega)] at hj
      have := hnew _ ψ hj
      rwa [Nat.add_sub_cancel' (by omega)] at this
  restart := by
    rintro w φs w' ps ⟨hJ, _⟩ he
    obtain ⟨ψs, hψs, hJ', hK'⟩ := h.restart hJ he
    exact ⟨ψs, hψs, hJ', hK'⟩

/-- As `TaskInvariant`, where the number of tasks does not matter. -/
structure LocalInvariant (S : System Op W C E) (D : Discipline Op Φ) (ends : Φ → Prop)
    (J : W → Prop) (K : W → ℕ → Φ → Prop) : Prop where
  task : ∀ {w} {φs : List Φ} {i φ} {β : Type} {op : Op β} {choice r w'}, J w →
    (∀ j ψ, φs[j]? = some ψ → K w j ψ) → φs[i]? = some φ → D.allows φ op →
    S.answer i op choice w = some (r, w') →
    J w' ∧ K w' i (D.after φ op r) ∧ ∀ j ψ, i ≠ j → φs[j]? = some ψ → K w' j ψ
  surroundings : ∀ {w} {φs : List Φ} {e w' ps}, J w → (∀ j ψ, φs[j]? = some ψ → K w j ψ) →
    S.surroundings e w = some (w', ps) →
    ∃ ψs : List Φ, List.Forall₂ (fun φ p => D.Obeys φ p fun _ => ends) ψs ps ∧ J w' ∧
      (∀ j ψ, φs[j]? = some ψ → K w' j ψ) ∧ ∀ j ψ, ψs[j]? = some ψ → K w' (φs.length + j) ψ
  restart : ∀ {w w' ps}, J w → S.restart w = some (w', ps) →
    ∃ ψs : List Φ, List.Forall₂ (fun φ p => D.Obeys φ p fun _ => ends) ψs ps ∧ J w' ∧
      ∀ j ψ, ψs[j]? = some ψ → K w' j ψ

theorem LocalInvariant.taskInvariant {J : W → Prop} {K : W → ℕ → Φ → Prop}
    (h : S.LocalInvariant D ends J K) : S.TaskInvariant D ends (fun w _ => J w) K where
  task := h.task
  surroundings := h.surroundings
  restart := fun hJ he => h.restart hJ he

theorem LocalInvariant.invariant {J : W → Prop} {K : W → ℕ → Φ → Prop}
    (h : S.LocalInvariant D ends J K) :
    S.Invariant D ends fun w φs => J w ∧ ∀ j ψ, φs[j]? = some ψ → K w j ψ :=
  h.taskInvariant.invariant

end Invariant

end System

end Tasks
