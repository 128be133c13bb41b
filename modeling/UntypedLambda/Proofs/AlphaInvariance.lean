import UntypedLambda.Proofs.Simulation

/-!
# The names of bound variables do not matter

A strategy chooses the redex of a term that it chooses in the nameless form, and
the contraction of that redex has the nameless form of the contracted redex. So
terms that differ in the names of bound variables only are substituted into,
contracted and reduced alike, however different the fresh names are that the two
sides invent.
-/

namespace UntypedLambda

namespace Term

/-- Results that are both missing, or both terms that are equal up to the names
    of bound variables. -/
abbrev SameStep : Option Term → Option Term → Prop :=
  Option.Rel fun reduct otherReduct => alphaEqual reduct otherReduct = true

/-- Terms that are equal up to the names of bound variables have a step together,
    and step to terms that are equal in the same way. -/
theorem sameStep_step (strategy : Strategy) (term other : Term)
    (alike : alphaEqual term other = true) :
    SameStep (strategy.step term) (strategy.step other) := by
  have sameForm : term.nameless = other.nameless := (alphaEqual_iff_nameless term other).mp alike
  have sameStep : (strategy.step term).map nameless = (strategy.step other).map nameless := by
    exact (map_step strategy [] term).trans
      ((congrArg (Nameless.step strategy) sameForm).trans (map_step strategy [] other).symm)
  cases stepped : strategy.step term with
  | none =>
    cases otherStepped : strategy.step other with
    | none => exact .none
    | some otherReduct => simp [stepped, otherStepped] at sameStep
  | some reduct =>
    cases otherStepped : strategy.step other with
    | none => simp [stepped, otherStepped] at sameStep
    | some otherReduct =>
      rw [stepped, otherStepped] at sameStep
      exact .some ((alphaEqual_iff_nameless reduct otherReduct).mpr (Option.some.inj sameStep))

/-- Substitution respects equality up to the names of bound variables, in the
    term as in the replacement. -/
theorem alphaEqual_substitute (term other replacement otherReplacement : Term)
    (terms : alphaEqual term other = true)
    (replacements : alphaEqual replacement otherReplacement = true) (name : Name) :
    alphaEqual (term.substitute name replacement) (other.substitute name otherReplacement) =
      true := by
  rw [alphaEqual_iff_nameless] at terms replacements ⊢
  rw [nameless_substitute, nameless_substitute, terms, replacements]

end Term

namespace Reduction

/-- Reductions with the same number of steps and the same verdict, and with terms
    that are equal up to the names of bound variables. -/
structure Alike (one other : Reduction) : Prop where
  steps : one.steps = other.steps
  exhausted : one.exhausted = other.exhausted
  term : Term.alphaEqual one.term other.term = true

/-- If a step function does not tell terms apart that are equal up to the names of
    bound variables, neither does a bounded reduction by it. -/
theorem alike_continued (step : Term → Option Term)
    (respects : ∀ term other, Term.alphaEqual term other = true →
      Term.SameStep (step term) (step other))
    (limit : Nat) (term other : Term) (taken : Nat) (alike : Term.alphaEqual term other = true) :
    Alike (continued step limit term taken) (continued step limit other taken) := by
  induction limit generalizing term other taken with
  | zero =>
    have sameStep := respects term other alike
    refine ⟨rfl, ?_, alike⟩
    unfold continued
    generalize step term = reduct at sameStep ⊢
    generalize step other = otherReduct at sameStep ⊢
    cases sameStep <;> rfl
  | succ limit inductionHypothesis =>
    have sameStep := respects term other alike
    unfold continued
    generalize step term = reduct at sameStep ⊢
    generalize step other = otherReduct at sameStep ⊢
    cases sameStep with
    | none => exact ⟨rfl, rfl, alike⟩
    | some reducts => exact inductionHypothesis _ _ (taken + 1) reducts

end Reduction

/-- Substitution, the steps of both strategies and bounded reduction respect
    equality up to the names of bound variables. -/
theorem alphaEqual_respected (term other replacement otherReplacement : Term)
    (terms : term.alphaEqual other = true)
    (replacements : replacement.alphaEqual otherReplacement = true) :
    (∀ name, Term.alphaEqual (term.substitute name replacement)
      (other.substitute name otherReplacement) = true) ∧
    ∀ strategy : Strategy,
      Term.SameStep (strategy.step term) (strategy.step other) ∧
      ∀ limit, Reduction.Alike (strategy.reduce limit term) (strategy.reduce limit other) := by
  refine ⟨Term.alphaEqual_substitute term other replacement otherReplacement terms replacements, ?_⟩
  intro strategy
  refine ⟨Term.sameStep_step strategy term other terms, ?_⟩
  intro limit
  exact Reduction.alike_continued strategy.step (Term.sameStep_step strategy) limit
    term other 0 terms

/-- Only the first of two equal terms has a binder that captures the free name of
    the replacement, so only there a binder is renamed. -/
theorem alphaEqual_respected_under_capture :
    let term := Term.lam "y" (.app (.lam "z" (.app (.var "z") (.var "y"))) (.var "x"))
    let other := Term.lam "a" (.app (.lam "a₀" (.app (.var "a₀") (.var "a"))) (.var "x"))
    let replacement := Term.app (.var "y") (.lam "u" (.var "u"))
    let otherReplacement := Term.app (.var "y") (.lam "w" (.var "w"))
    term.alphaEqual other = true ∧ replacement.alphaEqual otherReplacement = true ∧
      Term.alphaEqual (term.substitute "x" replacement)
        (other.substitute "x" otherReplacement) = true ∧
      Reduction.Alike (Strategy.applicative.reduce 3 term)
        (Strategy.applicative.reduce 3 other) := by
  intro term other replacement otherReplacement
  have terms : term.alphaEqual other = true := by decide
  have replacements : replacement.alphaEqual otherReplacement = true := by decide
  obtain ⟨substituted, stepped⟩ :=
    alphaEqual_respected term other replacement otherReplacement terms replacements
  exact ⟨terms, replacements, substituted "x", (stepped .applicative).2 3⟩

end UntypedLambda
