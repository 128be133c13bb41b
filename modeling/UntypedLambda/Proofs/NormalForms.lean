import UntypedLambda.Proofs.Standardization

/-!
# How strategies arrive at normal forms

A strategy is a function, so its runs from one term are beginnings of one another. A
run that has arrived at a term without a redex therefore passes every term that the
strategy reaches, and a bounded reduction finds its end for every limit that is large
enough. Neither strategy ever changes the binders at the front of a term.

Normal order contracts at the head first. What head reduction makes of a term is
therefore on the way to its normal form, with the names of its binders as they are.
-/

namespace UntypedLambda.Term

/-- From a term that a step function reaches, it goes on to where it ends. -/
theorem reaches_of_ended {step : Term → Option Term} {term reduct last : Term}
    (reaches : Reduction.Reaches step term reduct) (reachesLast : Reduction.Reaches step term last)
    (ended : step last = none) : Reduction.Reaches step reduct last := by
  have deterministic : Relator.RightUnique fun term reduct => step term = some reduct :=
    fun _ _ _ => Option.mem_unique
  rcases Relation.ReflTransGen.total_of_right_unique deterministic reaches reachesLast with
    onward | backward
  · exact onward
  · rcases Relation.ReflTransGen.cases_head backward with same | ⟨next, stepped, _⟩
    · rw [same]
    · rw [ended] at stepped
      cases stepped

/-- A strategy goes on below a binder. -/
theorem reaches_lam (strategy : Strategy) (param : Name) {body reduct : Term}
    (reaches : Reduction.Reaches strategy.step body reduct) :
    Reduction.Reaches strategy.step (lam param body) (lam param reduct) := by
  refine Relation.ReflTransGen.lift (lam param) ?_ _ _ reaches
  intro term next stepped
  exact (step_lam strategy param term).trans (congrArg (Option.map (lam param)) stepped)

/-- A binder stays, whatever a strategy does below it. -/
theorem exists_lam_of_reaches {strategy : Strategy} {param : Name} {body reduct : Term}
    (reaches : Reduction.Reaches strategy.step (lam param body) reduct) :
    ∃ newBody, reduct = lam param newBody ∧ Reduction.Reaches strategy.step body newBody := by
  induction reaches with
  | refl => exact ⟨body, rfl, .refl⟩
  | tail _ stepped inductionHypothesis =>
    obtain ⟨middle, rfl, bodyReaches⟩ := inductionHypothesis
    rw [step_lam, Option.map_eq_some_iff] at stepped
    obtain ⟨newBody, bodyStepped, rfl⟩ := stepped
    exact ⟨newBody, rfl, bodyReaches.tail bodyStepped⟩

/-- A term without a redex that a strategy reaches is what bounded reductions return,
    for every limit that is large enough, and they are not exhausted. -/
theorem exists_limit_of_redexFree {strategy : Strategy} {term last : Term}
    (reaches : Reduction.Reaches strategy.step term last) (redexFree : last.RedexFree) :
    ∃ least, ∀ limit ≥ least,
      (strategy.reduce limit term).exhausted = false ∧
        (strategy.reduce limit term).term = last := by
  have ended : strategy.step last = none := (step_eq_none_iff strategy last).mpr redexFree
  obtain ⟨least, enough⟩ := Reduction.exists_limit_of_reaches strategy.step term last reaches ended
  refine ⟨least, ?_⟩
  intro limit large
  have returned : (strategy.reduce limit term).term = last := enough limit large 0
  refine ⟨?_, returned⟩
  rw [exhausted_reduce_iff, returned]
  exact redexFree

/-- Normal order reaches a term without a redex that is the given one up to the names
    of bound variables, if any reduction leads to that one. -/
theorem exists_normalForm {term normalForm : Term} (reduces : Reduces term normalForm)
    (redexFree : normalForm.RedexFree) :
    ∃ last, Reduction.Reaches Strategy.normal.step term last ∧ last.RedexFree ∧
      alphaEqual last normalForm = true := by
  have formEnded : Nameless.step .normal normalForm.nameless = none :=
    (nameless_step_eq_none_iff .normal normalForm).mpr redexFree
  obtain ⟨last, reaches, sameForm⟩ :=
    exists_reaches_of_leftmost term normalForm.nameless
      (reduces.nameless.standard.leftmost formEnded)
  refine ⟨last, reaches, ?_, (alphaEqual_iff_nameless last normalForm).mpr sameForm⟩
  rw [← nameless_step_eq_none_iff .normal, sameForm]
  exact formEnded

/-- The contraction of the redex at the head: the function of the application, or
    of the application that is its function, and so on. -/
inductive HeadStep : Term → Term → Prop where
  | contract (param : Name) (body argument : Term) :
      HeadStep (app (lam param body) argument) (body.substitute param argument)
  | function {function reduct : Term} (step : HeadStep function reduct) (argument : Term) :
      HeadStep (app function argument) (app reduct argument)

/-- Any number of contractions at the head. -/
abbrev HeadReduces : Term → Term → Prop :=
  Relation.ReflTransGen HeadStep

/-- Head reduction goes on in the function of an application. -/
theorem HeadReduces.function {function reduct : Term} (heads : HeadReduces function reduct)
    (argument : Term) : HeadReduces (app function argument) (app reduct argument) :=
  Relation.ReflTransGen.lift (app · argument) (fun _ _ step => .function step argument) _ _ heads

/-- A function that head reduction makes an abstraction is given its argument. -/
theorem HeadReduces.call {function body : Term} {param : Name}
    (heads : HeadReduces function (lam param body)) (argument : Term) :
    HeadReduces (app function argument) (body.substitute param argument) :=
  (heads.function argument).tail (.contract param body argument)

/-- A function with a redex at the head is no abstraction. -/
theorem HeadStep.appliedTo?_eq_none {function reduct : Term} (headStep : HeadStep function reduct)
    (argument : Term) : function.appliedTo? argument = none := by
  cases headStep <;> rfl

/-- A head step is the step of normal order. -/
theorem HeadStep.normalStep {term reduct : Term} (headStep : HeadStep term reduct) :
    Strategy.normal.step term = some reduct := by
  induction headStep with
  | contract param body argument =>
    rw [normalStep_app]
    rfl
  | function headStep argument inductionHypothesis =>
    rw [normalStep_app, headStep.appliedTo?_eq_none argument, inductionHypothesis]
    rfl

/-- Head reduction goes in normal order. -/
theorem HeadReduces.reaches {term reduct : Term} (heads : HeadReduces term reduct) :
    Reduction.Reaches Strategy.normal.step term reduct :=
  Relation.ReflTransGen.mono (fun _ _ headStep => headStep.normalStep) _ _ heads

end UntypedLambda.Term
