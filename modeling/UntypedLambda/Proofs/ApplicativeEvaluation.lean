import UntypedLambda.Proofs.NormalForms
import UntypedLambda.Proofs.UncapturedSubstitution

/-!
# Evaluation in applicative order

Applicative order contracts an application after its function and its argument have
been reduced as far as they go. So the evaluation of an application is made of those
of its parts and of what the contraction evaluates to, and evaluations of terms
compose like the terms themselves.
-/

namespace UntypedLambda.Term

/-- Any number of steps in applicative order. -/
abbrev Evaluates : Term → Term → Prop :=
  Reduction.Reaches Strategy.applicative.step

/-- Evaluation is reduction. -/
theorem Evaluates.reduces {term value : Term} (steps : Evaluates term value) : Reduces term value :=
  Relation.ReflTransGen.mono (betaStep_of_step .applicative) _ _ steps

/-- Evaluation goes on below a binder. -/
theorem Evaluates.lam {body value : Term} (param : Name) (steps : Evaluates body value) :
    Evaluates (lam param body) (lam param value) :=
  reaches_lam .applicative param steps

/-- The function of an application is evaluated first. -/
theorem Evaluates.function {function value : Term} (steps : Evaluates function value)
    (argument : Term) : Evaluates (app function argument) (app value argument) := by
  refine Relation.ReflTransGen.lift (Term.app · argument) ?_ _ _ steps
  intro term reduct stepped
  change Strategy.applicative.step (Term.app term argument) = some (Term.app reduct argument)
  rw [applicativeStep_app, stepped]
  rfl

/-- The argument is evaluated once the function has no redex. -/
theorem Evaluates.argument {function argument value : Term} (redexFree : function.RedexFree)
    (steps : Evaluates argument value) :
    Evaluates (app function argument) (app function value) := by
  refine Relation.ReflTransGen.lift (Term.app function) ?_ _ _ steps
  intro term reduct stepped
  change Strategy.applicative.step (Term.app function term) = some (Term.app function reduct)
  rw [applicativeStep_app, (step_eq_none_iff .applicative function).mpr redexFree, stepped]
  rfl

/-- An abstraction is contracted with its argument once neither has a redex. -/
theorem Evaluates.contract {param : Name} {body argument result : Term} (bodyFree : body.RedexFree)
    (argumentFree : argument.RedexFree) (contracted : body.substitute param argument = result) :
    Evaluates (.app (.lam param body) argument) result := by
  apply Relation.ReflTransGen.single
  have functionEnded : Strategy.applicative.step (Term.lam param body) = none :=
    (step_eq_none_iff .applicative _).mpr ((redexFree_lam param body).mpr bodyFree)
  have argumentEnded : Strategy.applicative.step argument = none :=
    (step_eq_none_iff .applicative _).mpr argumentFree
  rw [applicativeStep_app, functionEnded, argumentEnded, ← contracted]
  rfl

/-- An application is evaluated by evaluating its function to an abstraction, its
    argument to a value, and the body with the value in it. -/
theorem Evaluates.call {function argument value body result : Term} {param : Name}
    (functions : Evaluates function (.lam param body)) (bodyFree : body.RedexFree)
    (arguments : Evaluates argument value) (valueFree : value.RedexFree)
    (rest : Evaluates (body.substitute param value) result) :
    Evaluates (app function argument) result := by
  have lamFree : (Term.lam param body).RedexFree := (redexFree_lam param body).mpr bodyFree
  have parts : Evaluates (Term.app function argument) (Term.app (Term.lam param body) value) :=
    (functions.function argument).trans (arguments.argument lamFree)
  exact (parts.trans (Evaluates.contract bodyFree valueFree rfl)).trans rest

end UntypedLambda.Term

namespace UntypedLambda.Numeral

open Term

/-- A function without a redex that is no abstraction can be applied any number of
    times without bringing about a redex. -/
theorem redexFree_iterate {function argument : Term} (functionFree : function.RedexFree)
    (notLam : ∀ argument, function.appliedTo? argument = none) (argumentFree : argument.RedexFree)
    (count : Nat) : (iterate function count argument).RedexFree := by
  induction count with
  | zero => exact argumentFree
  | succ count inductionHypothesis =>
    rw [iterate, redexFree_app]
    exact ⟨notLam _, functionFree, inductionHypothesis⟩

/-- A variable can be applied any number of times without bringing about a redex. -/
theorem redexFree_iterate_var (name : Name) {argument : Term} (argumentFree : argument.RedexFree)
    (count : Nat) : (iterate (var name) count argument).RedexFree :=
  redexFree_iterate (redexFree_var name) (fun _ => rfl) argumentFree count

/-- The argument of a repeated application is evaluated before all functions. -/
theorem evaluates_iterate {function argument value : Term} (functionFree : function.RedexFree)
    (steps : Evaluates argument value) (count : Nat) :
    Evaluates (iterate function count argument) (iterate function count value) := by
  induction count with
  | zero => exact steps
  | succ count inductionHypothesis => exact inductionHypothesis.argument functionFree

end UntypedLambda.Numeral
