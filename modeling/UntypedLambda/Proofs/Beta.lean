import Mathlib.Logic.Relation
import UntypedLambda.Proofs.BoundedReduction
import UntypedLambda.Strategy

/-!
# Beta reduction of terms

A beta step contracts any one redex of a term. The strategies take beta steps,
and they stop only at terms without a redex, so what a bounded reduction returns
is reached by beta steps, and nothing is left to contract unless it is exhausted.
-/

namespace UntypedLambda.Term

/-- The contraction of any one redex of a term. -/
inductive BetaStep : Term → Term → Prop where
  | contract {redex reduct : Term} (contraction : redex.contract? = some reduct) :
      BetaStep redex reduct
  | lam (param : Name) {body reduct : Term} (step : BetaStep body reduct) :
      BetaStep (lam param body) (lam param reduct)
  | function {function reduct : Term} (step : BetaStep function reduct) (argument : Term) :
      BetaStep (app function argument) (app reduct argument)
  | argument (function : Term) {argument reduct : Term} (step : BetaStep argument reduct) :
      BetaStep (app function argument) (app function reduct)

/-- What has a contraction is an abstraction with an argument, and the contraction
    is the body with the argument for the parameter. -/
theorem exists_of_contract? {redex reduct : Term} (contraction : redex.contract? = some reduct) :
    ∃ param body argument,
      redex = app (lam param body) argument ∧ reduct = body.substitute param argument := by
  cases redex with
  | var name => cases contraction
  | lam param body => cases contraction
  | app function argument =>
    cases function with
    | var name => cases contraction
    | lam param body => exact ⟨param, body, argument, rfl, (Option.some.inj contraction).symm⟩
    | app inner outer => cases contraction

/-- Any number of beta steps, one after the other. -/
abbrev Reduces : Term → Term → Prop :=
  Relation.ReflTransGen BetaStep

/-- All subterms of a term, the term itself among them, each at every place where
    it occurs. -/
def subterms : Term → List Term
  | var name => [var name]
  | lam param body => lam param body :: body.subterms
  | app function argument => app function argument :: (function.subterms ++ argument.subterms)

/-- No subterm is a redex. -/
def RedexFree (term : Term) : Prop :=
  ∀ subterm ∈ term.subterms, subterm.isRedex = false

instance (term : Term) : Decidable term.RedexFree :=
  inferInstanceAs (Decidable (∀ subterm ∈ term.subterms, subterm.isRedex = false))

/-- A variable has no redex. -/
theorem redexFree_var (name : Name) : (var name).RedexFree := by
  simp [RedexFree, subterms, isRedex]

/-- The redexes of an abstraction are those of its body. -/
theorem redexFree_lam (param : Name) (body : Term) :
    (lam param body).RedexFree ↔ body.RedexFree := by
  simp [RedexFree, subterms, isRedex]

/-- An application is without a redex if it is none itself and both sides are
    without one. -/
theorem redexFree_app (function argument : Term) :
    (app function argument).RedexFree ↔
      function.appliedTo? argument = none ∧ function.RedexFree ∧ argument.RedexFree := by
  have noContraction :
      function.appliedTo? argument = none ↔ (app function argument).isRedex = false := by
    rw [← isSome_contract?, contract?, ← Option.not_isSome_iff_eq_none, Bool.not_eq_true]
  simp only [RedexFree, subterms, List.mem_cons, List.mem_append, noContraction, or_imp, forall_and,
    forall_eq]

/-- From a term without a redex there is no beta step. -/
theorem RedexFree.not_betaStep {term reduct : Term} (redexFree : term.RedexFree) :
    ¬ BetaStep term reduct := by
  intro step
  induction step with
  | contract contraction =>
    obtain ⟨param, body, argument, rfl, rfl⟩ := exists_of_contract? contraction
    exact Option.some_ne_none _ ((redexFree_app (.lam param body) argument).mp redexFree).1
  | lam param _ inductionHypothesis =>
    exact inductionHypothesis ((redexFree_lam param _).mp redexFree)
  | function _ argument inductionHypothesis =>
    exact inductionHypothesis ((redexFree_app _ argument).mp redexFree).2.1
  | argument function _ inductionHypothesis =>
    exact inductionHypothesis ((redexFree_app function _).mp redexFree).2.2

/-- A term without a redex reduces to itself only. -/
theorem RedexFree.eq_of_reduces {term reduct : Term} (redexFree : term.RedexFree)
    (reduces : Reduces term reduct) : reduct = term :=
  (Relation.reflTransGen_iff_eq fun _ => redexFree.not_betaStep).mp reduces

/-- A step below a binder keeps the binder. -/
theorem step_lam (strategy : Strategy) (param : Name) (body : Term) :
    strategy.step (lam param body) = (strategy.step body).map (lam param) := by
  cases strategy <;> rfl

/-- Normal order tries the application itself first. -/
theorem normalStep_app (function argument : Term) :
    Strategy.normal.step (app function argument) =
      (function.appliedTo? argument).or
        (((Strategy.normal.step function).map (app · argument)).or
          ((Strategy.normal.step argument).map (app function))) := by
  simp [Strategy.step, Strategy.normalStep]

/-- Applicative order tries the application itself last. -/
theorem applicativeStep_app (function argument : Term) :
    Strategy.applicative.step (app function argument) =
      ((Strategy.applicative.step function).map (app · argument)).or
        (((Strategy.applicative.step argument).map (app function)).or
          (function.appliedTo? argument)) := by
  simp [Strategy.step, Strategy.applicativeStep]

/-- A step of an application, whatever the strategy, contracts the application or
    steps in one of its sides. -/
theorem step_app_cases (strategy : Strategy) (function argument reduct : Term)
    (stepped : strategy.step (app function argument) = some reduct) :
    function.appliedTo? argument = some reduct ∨
      (∃ newFunction, strategy.step function = some newFunction ∧
        reduct = app newFunction argument) ∨
      ∃ newArgument, strategy.step argument = some newArgument ∧
        reduct = app function newArgument := by
  cases strategy with
  | normal =>
    rw [normalStep_app] at stepped
    simp only [Option.or_eq_some_iff, Option.map_eq_some_iff] at stepped
    grind
  | applicative =>
    rw [applicativeStep_app] at stepped
    simp only [Option.or_eq_some_iff, Option.map_eq_some_iff] at stepped
    grind

/-- A strategy takes beta steps. -/
theorem betaStep_of_step (strategy : Strategy) (term reduct : Term)
    (stepped : strategy.step term = some reduct) : BetaStep term reduct := by
  induction term generalizing reduct with
  | var name =>
    cases strategy <;>
      simp [Strategy.step, Strategy.normalStep, Strategy.applicativeStep] at stepped
  | lam param body inductionHypothesis =>
    rw [step_lam, Option.map_eq_some_iff] at stepped
    obtain ⟨newBody, bodyStepped, rfl⟩ := stepped
    exact .lam param (inductionHypothesis newBody bodyStepped)
  | app function argument functionHypothesis argumentHypothesis =>
    rcases step_app_cases strategy function argument reduct stepped with
      contraction | ⟨newFunction, functionStepped, rfl⟩ | ⟨newArgument, argumentStepped, rfl⟩
    · exact .contract contraction
    · exact .function (functionHypothesis newFunction functionStepped) argument
    · exact .argument function (argumentHypothesis newArgument argumentStepped)

/-- A strategy stops exactly at the terms without a redex. -/
theorem step_eq_none_iff (strategy : Strategy) (term : Term) :
    strategy.step term = none ↔ term.RedexFree := by
  induction term with
  | var name =>
    have stops : strategy.step (var name) = none := by cases strategy <;> rfl
    exact iff_of_true stops (redexFree_var name)
  | lam param body inductionHypothesis =>
    rw [step_lam, Option.map_eq_none_iff, inductionHypothesis, redexFree_lam]
  | app function argument functionHypothesis argumentHypothesis =>
    rw [redexFree_app, ← functionHypothesis, ← argumentHypothesis]
    cases strategy with
    | normal =>
      rw [normalStep_app]
      simp only [Option.or_eq_none_iff, Option.map_eq_none_iff]
    | applicative =>
      rw [applicativeStep_app]
      simp only [Option.or_eq_none_iff, Option.map_eq_none_iff]
      grind

/-- A bounded reduction returns a term that is reached by beta steps. -/
theorem reduces_reduce (strategy : Strategy) (limit : Nat) (term : Term) :
    Reduces term (strategy.reduce limit term).term :=
  Relation.ReflTransGen.mono (betaStep_of_step strategy) _ _
    (Reduction.reaches_continued strategy.step limit term 0)

/-- A bounded reduction that is not exhausted returns a term without a redex, and
    only such a one. -/
theorem exhausted_reduce_iff (strategy : Strategy) (limit : Nat) (term : Term) :
    (strategy.reduce limit term).exhausted = false ↔
    (strategy.reduce limit term).term.RedexFree := by
  rw [← step_eq_none_iff strategy, Strategy.reduce, Reduction.run, Reduction.exhausted_continued]
  exact Option.isSome_eq_false_iff.trans Option.isNone_iff_eq_none

end UntypedLambda.Term
