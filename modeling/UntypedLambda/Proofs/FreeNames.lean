import UntypedLambda.Proofs.Beta
import UntypedLambda.Proofs.FreshName
import UntypedLambda.Proofs.Interpretation

/-!
# Free names

What is free after a substitution is known exactly, whichever binders were renamed for it: the
name that is replaced is gone, and if it was there, the free names of the replacement have come
in. A contraction puts the argument in for the parameter, so reduction brings in no free name at
all, although it may lose some.
-/

namespace UntypedLambda.Term

/-- A name is free after a substitution if it was free before and is not the one that is
    replaced, or if it is free in the replacement and something was replaced. -/
theorem mem_freeNames_substitute (term : Term) (name : Name) (replacement : Term) (other : Name) :
    other ∈ (term.substitute name replacement).freeNames ↔
      other ∈ term.freeNames ∧ other ≠ name ∨
      name ∈ term.freeNames ∧ other ∈ replacement.freeNames := by
  induction term using renamingInduction generalizing name replacement other with
  | var found =>
    rw [substitute_var, mem_freeNames_var, mem_freeNames_var]
    split
    · grind
    · rw [mem_freeNames_var]
      grind
  | lam param body bodyHypothesis renamedHypothesis =>
    by_cases present : name ∈ (lam param body).freeNames
    · obtain ⟨inBody, different⟩ := (mem_freeNames_lam name param body).mp present
      rw [substitute_lam, if_neg (not_not_intro present)]
      split
      · have fresh := Name.fresh_not_mem param (replacement.freeNames ++ body.freeNames)
        generalize param.fresh (replacement.freeNames ++ body.freeNames) = newParam at *
        rw [List.mem_append, not_or] at fresh
        simp only [mem_freeNames_lam, renamedHypothesis, bodyHypothesis, mem_freeNames_var]
        grind
      · simp only [mem_freeNames_lam, bodyHypothesis]
        grind
    · rw [substitute_of_not_mem present]
      grind
  | app function argument functionHypothesis argumentHypothesis =>
    simp only [substitute_app, mem_freeNames_app, functionHypothesis, argumentHypothesis]
    grind

/-- A beta step brings in no free name. -/
theorem BetaStep.freeNames_subset {term reduct : Term} (step : BetaStep term reduct) :
    ∀ name ∈ reduct.freeNames, name ∈ term.freeNames := by
  induction step with
  | contract contraction =>
    obtain ⟨param, body, argument, rfl, rfl⟩ := exists_of_contract? contraction
    intro name free
    rw [mem_freeNames_app, mem_freeNames_lam]
    rcases (mem_freeNames_substitute body param argument name).mp free with inBody | ⟨_, inArgument⟩
    · exact .inl inBody
    · exact .inr inArgument
  | lam param _ inductionHypothesis =>
    intro name free
    rw [mem_freeNames_lam] at free ⊢
    exact ⟨inductionHypothesis name free.1, free.2⟩
  | function _ argument inductionHypothesis =>
    intro name free
    rw [mem_freeNames_app] at free ⊢
    exact free.imp_left (inductionHypothesis name)
  | argument function _ inductionHypothesis =>
    intro name free
    rw [mem_freeNames_app] at free ⊢
    exact free.imp_right (inductionHypothesis name)

/-- Any number of beta steps bring in no free name. -/
theorem Reduces.freeNames_subset {term reduct : Term} (reduces : Reduces term reduct) :
    ∀ name ∈ reduct.freeNames, name ∈ term.freeNames := by
  induction reduces with
  | refl => exact fun _ free => free
  | tail _ step inductionHypothesis =>
    exact fun name free => inductionHypothesis name (step.freeNames_subset name free)

end UntypedLambda.Term
