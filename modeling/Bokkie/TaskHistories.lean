import Bokkie.Tasks
import Mathlib.Data.List.Induction

/-!
# What a program has done

The calls that a program made and their answers, told as events: the program may have stopped
anywhere. A rule says what may happen after what has happened, whatever the answers.
-/

namespace Tasks

variable {Op : Type → Type} {E α β ε : Type}

namespace Prog

/-- The program makes calls, told as events, and has another left to do. -/
inductive Makes (tell : {β : Type} → Op β → β → E) : Prog Op α → List E → Prog Op α → Prop
  | nil {p : Prog Op α} : Makes tell p [] p
  | cons {β : Type} {op : Op β} {next : β → Prog Op α} {es : List E} {q : Prog Op α} (r : β) :
      Makes tell (next r) es q → Makes tell (.call op next) (tell op r :: es) q

/-- What the program does after what happened, each call answered from what did. -/
def play (tell : {β : Type} → Op β → β → E) (respond : List E → {β : Type} → Op β → β) :
    Prog Op α → List E → List E
  | .pure _, _ => []
  | .call op next, past =>
    let e := tell op (respond past op)
    e :: play tell respond (next (respond past op)) (past ++ [e])

theorem makes_play (tell : {β : Type} → Op β → β → E)
    (respond : List E → {β : Type} → Op β → β) (p : Prog Op α) (past : List E) :
    ∃ q, p.Makes tell (p.play tell respond past) q := by
  induction p generalizing past with
  | pure a => exact ⟨.pure a, .nil⟩
  | call op next ih =>
      obtain ⟨q, hq⟩ := ih (respond past op) (past ++ [tell op (respond past op)])
      exact ⟨q, .cons _ hq⟩

end Prog

/-- Each event keeps the rule for what happened before it. -/
def RuleKept (rule : List E → E → Prop) (es : List E) : Prop :=
  ∀ before e after, es = before ++ e :: after → rule before e

/-- The discipline of a rule: its phases are what has happened. -/
def Discipline.ofRule (tell : {β : Type} → Op β → β → E) (rule : List E → E → Prop) :
    Discipline Op (List E) where
  allows := fun past _ op => ∀ r, rule past (tell op r)
  after := fun past _ op r => past ++ [tell op r]

variable {tell : {β : Type} → Op β → β → E} {rule : List E → E → Prop} {past es : List E}
  {p q : Prog Op α} {Q : α → List E → Prop}

/-- What a program that obeys a rule does keeps to it, after what has happened. -/
theorem Prog.Makes.keeps (h : p.Makes tell es q)
    (hobeys : (Discipline.ofRule tell rule).Obeys past p Q) {before : List E} {e : E}
    {after : List E} (hes : es = before ++ e :: after) : rule (past ++ before) e := by
  induction h generalizing past before with
  | nil => cases before <;> cases hes
  | @cons β op next es q r h ih =>
      cases before with
      | nil =>
          obtain ⟨rfl, -⟩ := List.cons.inj hes
          rw [List.append_nil]
          exact hobeys.1 r
      | cons first before =>
          obtain ⟨rfl, htail⟩ := List.cons.inj hes
          have hrest := ih (hobeys.2 r) htail
          rwa [show (Discipline.ofRule tell rule).after past op r = past ++ [tell op r] from rfl,
            List.append_assoc] at hrest

theorem Prog.Makes.ruleKept (h : p.Makes tell es q)
    (hobeys : (Discipline.ofRule tell rule).Obeys [] p Q) : RuleKept rule es :=
  fun _ _ _ hes => h.keeps hobeys hes

theorem RuleKept.of_append {after : List E} (h : RuleKept rule (es ++ after)) : RuleKept rule es := by
  rintro before e rest rfl
  exact h before e (rest ++ after) (by simp)

theorem RuleKept.last {e : E} (h : RuleKept rule (es ++ [e])) : rule es e := h es e [] rfl

/-- Where no more than so many came before any of a kind, no more than one more came at all. -/
theorem RuleKept.countP_le {P : E → Bool} {n : ℕ} (h : RuleKept rule es)
    (hrule : ∀ past e, rule past e → P e = true → past.countP P < n) : es.countP P ≤ n := by
  induction es using List.reverseRecOn with
  | nil => exact Nat.zero_le n
  | append_singleton es e ih =>
      have hbefore := ih h.of_append
      rw [List.countP_append, List.countP_singleton]
      by_cases he : P e = true
      · have hlt := hrule es e h.last he
        rw [if_pos he]
        exact hlt
      · rw [if_neg he]
        exact hbefore

end Tasks
