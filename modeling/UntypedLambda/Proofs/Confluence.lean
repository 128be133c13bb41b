import UntypedLambda.Proofs.Simulation

/-!
# Confluence

Two reductions of one term can always be continued to a common term. On nameless
terms this is shown by parallel reduction, which contracts any set of the redexes
that a term has. Contracting all of them is the furthest a parallel step can go,
so any two parallel steps from a term meet there.

The result is carried over to terms by the simulation of nameless steps. There
the two continuations end in terms that are equal up to the names of bound
variables; the names themselves depend on the order in which binders were
renamed.
-/

namespace UntypedLambda

namespace Nameless

/-- The contraction of any set of redexes of a term at once. Redexes that arise
    by it are not contracted. -/
inductive Parallel : Nameless → Nameless → Prop where
  | bound (index : Nat) : Parallel (bound index) (bound index)
  | free (name : Name) : Parallel (free name) (free name)
  | lam {body bodyReduct : Nameless} (bodies : Parallel body bodyReduct) :
      Parallel (lam body) (lam bodyReduct)
  | app {function functionReduct argument argumentReduct : Nameless}
      (functions : Parallel function functionReduct)
      (arguments : Parallel argument argumentReduct) :
      Parallel (app function argument) (app functionReduct argumentReduct)
  | contract {body bodyReduct argument argumentReduct : Nameless}
      (bodies : Parallel body bodyReduct) (arguments : Parallel argument argumentReduct) :
      Parallel (app (lam body) argument) (bodyReduct.instantiate argumentReduct)

/-- No redex needs to be contracted. -/
theorem Parallel.refl (term : Nameless) : Parallel term term := by
  induction term with
  | bound index => exact .bound index
  | free name => exact .free name
  | lam body inductionHypothesis => exact .lam inductionHypothesis
  | app function argument functionHypothesis argumentHypothesis =>
    exact .app functionHypothesis argumentHypothesis

/-- A step is a parallel step with one redex. -/
theorem Step.parallel {term reduct : Nameless} (step : Step term reduct) :
    Parallel term reduct := by
  induction step with
  | contract body argument => exact .contract (.refl body) (.refl argument)
  | lam _ inductionHypothesis => exact .lam inductionHypothesis
  | function _ argument inductionHypothesis => exact .app inductionHypothesis (.refl argument)
  | argument function _ inductionHypothesis => exact .app (.refl function) inductionHypothesis

/-- A parallel step can be taken redex by redex. -/
theorem Parallel.reduces {term reduct : Nameless} (parallel : Parallel term reduct) :
    Reduces term reduct := by
  induction parallel with
  | bound index => exact .refl
  | free name => exact .refl
  | lam _ inductionHypothesis => exact inductionHypothesis.lam
  | app _ _ functionHypothesis argumentHypothesis => exact functionHypothesis.app argumentHypothesis
  | contract _ _ bodyHypothesis argumentHypothesis =>
    exact (bodyHypothesis.lam.app argumentHypothesis).tail (.contract _ _)

/-- A parallel step is stable under assignment. -/
theorem Parallel.assign_same (term reduct : Nameless) (assignment : Assignment)
    (parallel : Parallel term reduct) :
    Parallel (term.assign assignment) (reduct.assign assignment) := by
  induction parallel generalizing assignment with
  | bound index => exact .refl _
  | free name => exact .refl _
  | lam _ inductionHypothesis => exact .lam (inductionHypothesis assignment.lifted)
  | app _ _ functionHypothesis argumentHypothesis =>
    exact .app (functionHypothesis assignment) (argumentHypothesis assignment)
  | contract _ _ bodyHypothesis argumentHypothesis =>
    rw [instantiate_assign]
    exact .contract (bodyHypothesis assignment.lifted) (argumentHypothesis assignment)

/-- A term and its replacements may take parallel steps together. -/
theorem Parallel.assign {term reduct : Nameless} (parallel : Parallel term reduct)
    {first second : Assignment} (related : Assignment.Related Parallel first second) :
    Parallel (term.assign first) (reduct.assign second) := by
  induction parallel generalizing first second with
  | bound index => exact related.index index
  | free name => exact related.name name
  | lam _ inductionHypothesis =>
    exact .lam (inductionHypothesis (related.lifted Parallel.refl Parallel.assign_same))
  | app _ _ functionHypothesis argumentHypothesis =>
    exact .app (functionHypothesis related) (argumentHypothesis related)
  | contract _ _ bodyHypothesis argumentHypothesis =>
    rw [instantiate_assign]
    exact .contract (bodyHypothesis (related.lifted Parallel.refl Parallel.assign_same))
      (argumentHypothesis related)

/-- A body and the argument for its parameter may take parallel steps together. -/
theorem Parallel.instantiate {body bodyReduct argument argumentReduct : Nameless}
    (bodies : Parallel body bodyReduct) (arguments : Parallel argument argumentReduct) :
    Parallel (body.instantiate argument) (bodyReduct.instantiate argumentReduct) :=
  bodies.assign (.instantiation arguments Parallel.refl)

/-- The term with all its redexes contracted at once. -/
def development : Nameless → Nameless
  | bound index => bound index
  | free name => free name
  | lam body => lam body.development
  | app (lam body) argument => body.development.instantiate argument.development
  | app function argument => app function.development argument.development

/-- Whatever a parallel step contracted, the redexes that it left can still be
    contracted, and the result is the development. An application that the step has
    left alone is such a redex if its function is an abstraction. -/
theorem Parallel.development {term reduct : Nameless} (parallel : Parallel term reduct) :
    Parallel reduct term.development := by
  induction parallel with
  | bound index => exact .bound index
  | free name => exact .free name
  | lam _ inductionHypothesis => exact .lam inductionHypothesis
  | @app function functionReduct argument argumentReduct functions _ functionHypothesis
      argumentHypothesis =>
    cases function with
    | bound index => exact .app functionHypothesis argumentHypothesis
    | free name => exact .app functionHypothesis argumentHypothesis
    | lam body =>
      cases functions with
      | lam bodies =>
        cases functionHypothesis with
        | lam bodyDevelops => exact .contract bodyDevelops argumentHypothesis
    | app inner outer => exact .app functionHypothesis argumentHypothesis
  | contract _ _ bodyHypothesis argumentHypothesis =>
    exact bodyHypothesis.instantiate argumentHypothesis

/-- Two reductions of one nameless term can be continued to a common term. -/
theorem Reduces.join {term first second : Nameless} (reduces : Reduces term first)
    (otherReduces : Reduces term second) :
    ∃ common, Reduces first common ∧ Reduces second common := by
  have parallel (start target : Nameless) (steps : Reduces start target) :
      Relation.ReflTransGen Parallel start target :=
    Relation.ReflTransGen.mono (fun _ _ step => step.parallel) _ _ steps
  have reducesBack (start target : Nameless) (steps : Relation.ReflTransGen Parallel start target) :
      Reduces start target :=
    Relation.reflTransGen_closed (fun _ _ step => step.reduces) _ _ steps
  obtain ⟨common, firstSteps, secondSteps⟩ := Relation.church_rosser
    (fun start _ _ one other =>
      ⟨start.development, .single one.development, .single other.development⟩)
    (parallel term first reduces) (parallel term second otherReduces)
  exact ⟨common, reducesBack _ _ firstSteps, reducesBack _ _ secondSteps⟩

end Nameless

namespace Term

/-- Two reductions of one term can be continued to terms that are equal up to the
    names of bound variables. -/
theorem Reduces.join {term first second : Term} (reduces : Reduces term first)
    (otherReduces : Reduces term second) :
    ∃ firstEnd secondEnd, Reduces first firstEnd ∧ Reduces second secondEnd ∧
      alphaEqual firstEnd secondEnd = true := by
  obtain ⟨common, firstSteps, secondSteps⟩ := reduces.nameless.join otherReduces.nameless
  obtain ⟨firstEnd, firstReduces, firstForm⟩ := exists_reduces first common firstSteps
  obtain ⟨secondEnd, secondReduces, secondForm⟩ := exists_reduces second common secondSteps
  exact ⟨firstEnd, secondEnd, firstReduces, secondReduces,
    (alphaEqual_iff_nameless _ _).mpr (firstForm.trans secondForm.symm)⟩

end Term

/-- Whatever the two strategies return for a term, at whatever limits, the results
    can be reduced further to terms that are equal up to the names of bound
    variables. If neither reduction is exhausted, the results are equal in this
    way themselves, as there is nothing left to contract. -/
theorem strategies_confluent (term : Term) (limit otherLimit : Nat) :
    (∃ normalEnd applicativeEnd,
      Term.Reduces (Strategy.normal.reduce limit term).term normalEnd ∧
      Term.Reduces (Strategy.applicative.reduce otherLimit term).term applicativeEnd ∧
      Term.alphaEqual normalEnd applicativeEnd = true) ∧
    ((Strategy.normal.reduce limit term).exhausted = false →
      (Strategy.applicative.reduce otherLimit term).exhausted = false →
      Term.alphaEqual (Strategy.normal.reduce limit term).term
        (Strategy.applicative.reduce otherLimit term).term = true) := by
  obtain ⟨normalEnd, applicativeEnd, normalReduces, applicativeReduces, alike⟩ :=
    (Term.reduces_reduce .normal limit term).join (Term.reduces_reduce .applicative otherLimit term)
  refine ⟨⟨normalEnd, applicativeEnd, normalReduces, applicativeReduces, alike⟩, ?_⟩
  intro normalEnded applicativeEnded
  have normalFree := (Term.exhausted_reduce_iff .normal limit term).mp normalEnded
  have applicativeFree :=
    (Term.exhausted_reduce_iff .applicative otherLimit term).mp applicativeEnded
  rw [← normalFree.eq_of_reduces normalReduces, ← applicativeFree.eq_of_reduces applicativeReduces]
  exact alike

/-- Normal order renames the binder of `y`, which would capture the argument;
    applicative order first drops the occurrence that the argument would be put
    for, and renames nothing. -/
theorem strategies_confluent_with_renaming :
    let term := Term.app (.lam "a" (.lam "y" (.app (.lam "z" (.var "b")) (.var "a")))) (.var "y")
    (Strategy.normal.reduce 2 term).exhausted = false ∧
      (Strategy.applicative.reduce 2 term).exhausted = false ∧
      (Strategy.normal.reduce 2 term).term ≠ (Strategy.applicative.reduce 2 term).term ∧
      Term.alphaEqual (Strategy.normal.reduce 2 term).term
        (Strategy.applicative.reduce 2 term).term = true := by
  intro term
  have normalEnded : (Strategy.normal.reduce 2 term).exhausted = false := by decide +kernel
  have applicativeEnded : (Strategy.applicative.reduce 2 term).exhausted = false := by
    decide +kernel
  refine ⟨normalEnded, applicativeEnded, by decide +kernel, ?_⟩
  exact (strategies_confluent term 2 2).2 normalEnded applicativeEnded

end UntypedLambda
