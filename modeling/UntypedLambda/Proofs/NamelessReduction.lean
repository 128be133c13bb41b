import Mathlib.Logic.Relation
import UntypedLambda.Proofs.Nameless
import UntypedLambda.Strategy

/-!
# Contraction of nameless terms

Contracting a redex removes a binder, and nothing has to be renamed for it. A
step contracts any one redex; the two strategies choose one. Steps are stable
under assignment, because an assignment neither removes a redex nor moves it.
-/

namespace UntypedLambda.Nameless

/-- The contraction of any one redex of a term. -/
inductive Step : Nameless → Nameless → Prop where
  | contract (body argument : Nameless) :
      Step (app (lam body) argument) (body.instantiate argument)
  | lam {body reduct : Nameless} (step : Step body reduct) : Step (lam body) (lam reduct)
  | function {function reduct : Nameless} (step : Step function reduct) (argument : Nameless) :
      Step (app function argument) (app reduct argument)
  | argument (function : Nameless) {argument reduct : Nameless} (step : Step argument reduct) :
      Step (app function argument) (app function reduct)

/-- Any number of contractions, one after the other. -/
abbrev Reduces : Nameless → Nameless → Prop :=
  Relation.ReflTransGen Step

/-- Reduction goes on below a binder. -/
theorem Reduces.lam {body reduct : Nameless} (reduces : Reduces body reduct) :
    Reduces (lam body) (lam reduct) :=
  Relation.ReflTransGen.lift Nameless.lam (fun _ _ step => .lam step) _ _ reduces

/-- Function and argument of an application reduce independently. -/
theorem Reduces.app {function functionReduct argument argumentReduct : Nameless}
    (functions : Reduces function functionReduct) (arguments : Reduces argument argumentReduct) :
    Reduces (app function argument) (app functionReduct argumentReduct) :=
  (Relation.ReflTransGen.lift (Nameless.app · argument)
      (fun _ _ step => .function step argument) _ _ functions).trans
    (Relation.ReflTransGen.lift (Nameless.app functionReduct)
      (fun _ _ step => .argument functionReduct step) _ _ arguments)

/-- Assignments whose replacements are related, each to the one in its place. -/
structure Assignment.Related (relation : Nameless → Nameless → Prop)
    (first second : Assignment) : Prop where
  index (index : Nat) : relation (first.index index) (second.index index)
  name (name : Name) : relation (first.name name) (second.name name)

/-- A relation that is stable under assignment relates lifted assignments, since
    their replacements are shifted by one. -/
theorem Assignment.Related.lifted {relation : Nameless → Nameless → Prop}
    {first second : Assignment} (related : Related relation first second)
    (reflexive : ∀ term, relation term term)
    (stable : ∀ term other assignment, relation term other →
      relation (term.assign assignment) (other.assign assignment)) :
    Related relation first.lifted second.lifted := by
  have stableShifted (term other : Nameless) (holds : relation term other) :
      relation term.shifted other.shifted := by
    rw [shifted_eq_assign, shifted_eq_assign]
    exact stable term other _ holds
  constructor
  · intro index
    cases index with
    | zero => exact reflexive (bound 0)
    | succ index => exact stableShifted _ _ (related.index index)
  · intro name
    exact stableShifted _ _ (related.name name)

/-- Related arguments make related assignments of arguments. -/
theorem Assignment.Related.instantiation {relation : Nameless → Nameless → Prop}
    {argument other : Nameless} (related : relation argument other)
    (reflexive : ∀ term, relation term term) :
    Related relation (instantiation argument) (instantiation other) where
  index index := by
    cases index with
    | zero => exact related
    | succ index => exact reflexive (bound index)
  name name := reflexive (free name)

/-- A function applied to an argument, contracted if the function is an
    abstraction. -/
def appliedTo? (function argument : Nameless) : Option Nameless :=
  match function with
  | lam body => some (body.instantiate argument)
  | _ => none

/-- Contract the leftmost outermost redex. -/
def normalStep : Nameless → Option Nameless
  | bound _ => none
  | free _ => none
  | lam body => (normalStep body).map lam
  | app function argument =>
    function.appliedTo? argument <|>
      (normalStep function).map (app · argument) <|>
      (normalStep argument).map (app function)

/-- Contract the leftmost innermost redex. -/
def applicativeStep : Nameless → Option Nameless
  | bound _ => none
  | free _ => none
  | lam body => (applicativeStep body).map lam
  | app function argument =>
    (applicativeStep function).map (app · argument) <|>
      (applicativeStep argument).map (app function) <|>
      function.appliedTo? argument

/-- One step of a strategy. -/
def step : Strategy → Nameless → Option Nameless
  | .normal => normalStep
  | .applicative => applicativeStep

/-- A step below a binder keeps the binder. -/
theorem step_lam (strategy : Strategy) (body : Nameless) :
    step strategy (lam body) = (step strategy body).map lam := by
  cases strategy <;> rfl

/-- Normal order tries the application itself first. -/
theorem normalStep_app (function argument : Nameless) :
    step .normal (app function argument) =
      (function.appliedTo? argument).or
        (((step .normal function).map (app · argument)).or
          ((step .normal argument).map (app function))) := by
  simp [step, normalStep]

/-- Applicative order tries the application itself last. -/
theorem applicativeStep_app (function argument : Nameless) :
    step .applicative (app function argument) =
      ((step .applicative function).map (app · argument)).or
        (((step .applicative argument).map (app function)).or
          (function.appliedTo? argument)) := by
  simp [step, applicativeStep]

end UntypedLambda.Nameless
