import UntypedLambda.Proofs.Beta
import UntypedLambda.Proofs.Interpretation
import UntypedLambda.Proofs.NamelessReduction

/-!
# Steps of terms and steps of nameless forms

A beta step of a term is a step of its nameless form, and every step of the
nameless form comes from a beta step of the term. A strategy chooses the same
redex on both sides. What is proved of nameless terms therefore holds of terms,
up to the names of bound variables.
-/

namespace UntypedLambda.Term

/-- A variable is either bound or free in the nameless form. -/
theorem namelessUnder_var (scope : List Name) (name : Name) :
    (∃ index, (var name).namelessUnder scope = .bound index) ∨
      (var name).namelessUnder scope = .free name := by
  rw [namelessUnder, Interpretation.ofScope]
  cases scope.idxOf? name with
  | none => exact .inr rfl
  | some index => exact .inl ⟨index, rfl⟩

/-- A function can be contracted with an argument exactly if its nameless form
    can, and the contraction has the nameless form of the contraction. -/
theorem map_appliedTo? (scope : List Name) (function argument : Term) :
    (function.appliedTo? argument).map (namelessUnder scope) =
      (function.namelessUnder scope).appliedTo? (argument.namelessUnder scope) := by
  cases function with
  | var name =>
    rcases namelessUnder_var scope name with ⟨index, isBound⟩ | isFree
    · rw [isBound]
      rfl
    · rw [isFree]
      rfl
  | lam param body => exact congrArg some (namelessUnder_substitute_param scope param body argument)
  | app function argument => rfl

/-- A strategy commutes with the translation to nameless terms. Both strategies
    offer the same three contractions for an application, in different orders. -/
theorem map_step (strategy : Strategy) (scope : List Name) (term : Term) :
    (strategy.step term).map (namelessUnder scope) =
      Nameless.step strategy (term.namelessUnder scope) := by
  induction term generalizing scope with
  | var name =>
    rcases namelessUnder_var scope name with ⟨index, isBound⟩ | isFree
    · rw [isBound]
      cases strategy <;> rfl
    · rw [isFree]
      cases strategy <;> rfl
  | lam param body inductionHypothesis =>
    rw [step_lam, namelessUnder, Nameless.step_lam, ← inductionHypothesis, Option.map_map,
      Option.map_map]
    rfl
  | app function argument functionHypothesis argumentHypothesis =>
    cases strategy with
    | normal =>
      rw [namelessUnder, Nameless.normalStep_app, ← map_appliedTo?, ← functionHypothesis,
        ← argumentHypothesis, normalStep_app]
      simp only [Option.map_or, Option.map_map]
      rfl
    | applicative =>
      rw [namelessUnder, Nameless.applicativeStep_app, ← map_appliedTo?, ← functionHypothesis,
        ← argumentHypothesis, applicativeStep_app]
      simp only [Option.map_or, Option.map_map]
      rfl

/-- A beta step is a step of the nameless form. -/
theorem BetaStep.namelessUnder {term reduct : Term} (step : BetaStep term reduct)
    (scope : List Name) :
    Nameless.Step (term.namelessUnder scope) (reduct.namelessUnder scope) := by
  induction step generalizing scope with
  | contract contraction =>
    obtain ⟨param, body, argument, rfl, rfl⟩ := exists_of_contract? contraction
    rw [namelessUnder_substitute_param]
    exact .contract _ _
  | lam param _ inductionHypothesis => exact .lam (inductionHypothesis (param :: scope))
  | function _ argument inductionHypothesis => exact .function (inductionHypothesis scope) _
  | argument function _ inductionHypothesis => exact .argument _ (inductionHypothesis scope)

/-- Every step of the nameless form comes from a beta step. -/
theorem exists_betaStep (scope : List Name) (term : Term) (reduct : Nameless)
    (step : Nameless.Step (term.namelessUnder scope) reduct) :
    ∃ target, BetaStep term target ∧ target.namelessUnder scope = reduct := by
  induction term generalizing scope reduct with
  | var name =>
    rcases namelessUnder_var scope name with ⟨index, isBound⟩ | isFree
    · rw [isBound] at step
      cases step
    · rw [isFree] at step
      cases step
  | lam param body inductionHypothesis =>
    cases step with
    | lam bodyStep =>
      obtain ⟨target, betaStep, rfl⟩ := inductionHypothesis _ _ bodyStep
      exact ⟨lam param target, .lam param betaStep, rfl⟩
  | app function argument functionHypothesis argumentHypothesis =>
    rw [namelessUnder] at step
    generalize functionForm : function.namelessUnder scope = form at step
    cases step with
    | contract bodyForm _ =>
      have contraction : (function.appliedTo? argument).map (Term.namelessUnder scope) =
          some (bodyForm.instantiate (argument.namelessUnder scope)) := by
        rw [map_appliedTo?, functionForm]
        rfl
      obtain ⟨target, contracted, form⟩ := Option.map_eq_some_iff.mp contraction
      exact ⟨target, .contract contracted, form⟩
    | function functionStep _ =>
      subst functionForm
      obtain ⟨target, betaStep, rfl⟩ := functionHypothesis _ _ functionStep
      exact ⟨app target argument, .function betaStep argument, rfl⟩
    | argument _ argumentStep =>
      obtain ⟨target, betaStep, rfl⟩ := argumentHypothesis _ _ argumentStep
      refine ⟨app function target, .argument function betaStep, ?_⟩
      rw [namelessUnder, functionForm]

/-- What a term reduces to, its nameless form reduces to. -/
theorem Reduces.nameless {term reduct : Term} (reduces : Reduces term reduct) :
    Nameless.Reduces term.nameless reduct.nameless :=
  Relation.ReflTransGen.lift Term.nameless (fun _ _ step => step.namelessUnder []) _ _ reduces

/-- What a nameless form reduces to is the nameless form of what the term reduces
    to. -/
theorem exists_reduces (term : Term) (reduct : Nameless)
    (reduces : Nameless.Reduces term.nameless reduct) :
    ∃ target, Reduces term target ∧ target.nameless = reduct := by
  induction reduces with
  | refl => exact ⟨term, .refl, rfl⟩
  | tail _ step inductionHypothesis =>
    obtain ⟨middle, reduces, rfl⟩ := inductionHypothesis
    obtain ⟨target, betaStep, form⟩ := exists_betaStep [] middle _ step
    exact ⟨target, reduces.tail betaStep, form⟩

/-- A strategy has no step from a nameless form exactly if the term is without a
    redex. -/
theorem nameless_step_eq_none_iff (strategy : Strategy) (term : Term) :
    Nameless.step strategy term.nameless = none ↔ term.RedexFree := by
  rw [← step_eq_none_iff strategy, nameless, ← map_step, Option.map_eq_none_iff]

end UntypedLambda.Term
