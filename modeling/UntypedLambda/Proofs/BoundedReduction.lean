import Mathlib.Logic.Relation
import UntypedLambda.Reduction

/-!
# What a bounded reduction returns

These facts hold of every step function. A bounded reduction returns a term that
the step function reaches, and it is exhausted exactly if the step function goes
on from there. If the sequence of steps ends, a limit that is large enough finds
its last term.
-/

namespace UntypedLambda.Reduction

variable (step : Term → Option Term)

/-- Any number of steps of a step function. -/
abbrev Reaches : Term → Term → Prop :=
  Relation.ReflTransGen fun term reduct => step term = some reduct

/-- The term that is returned is reached by steps. -/
theorem reaches_continued (limit : Nat) (term : Term) (taken : Nat) :
    Reaches step term (continued step limit term taken).term := by
  induction limit generalizing term taken with
  | zero => exact .refl
  | succ limit inductionHypothesis =>
    unfold continued
    cases stepped : step term with
    | none => exact .refl
    | some reduct => exact (inductionHypothesis reduct (taken + 1)).head stepped

/-- A reduction is exhausted exactly if there is a step from the term that it
    returns. -/
theorem exhausted_continued (limit : Nat) (term : Term) (taken : Nat) :
    (continued step limit term taken).exhausted =
      (step (continued step limit term taken).term).isSome := by
  induction limit generalizing term taken with
  | zero => rfl
  | succ limit inductionHypothesis =>
    unfold continued
    cases stepped : step term with
    | none => simp [stepped]
    | some reduct => exact inductionHypothesis reduct (taken + 1)

/-- From a term without a step, no limit leads anywhere else. -/
theorem continued_of_none (limit : Nat) (term : Term) (taken : Nat)
    (ended : step term = none) : continued step limit term taken = ⟨term, taken, false⟩ := by
  cases limit with
  | zero => rw [continued, ended, Option.isSome_none]
  | succ limit => rw [continued, ended]

/-- A term that is reached and has no step itself is returned for every limit
    from some number on. -/
theorem exists_limit_of_reaches (term last : Term) (reached : Reaches step term last)
    (ended : step last = none) :
    ∃ least, ∀ limit ≥ least, ∀ taken, (continued step limit term taken).term = last := by
  induction reached using Relation.ReflTransGen.head_induction_on with
  | refl => exact ⟨0, fun limit _ taken => by rw [continued_of_none step limit last taken ended]⟩
  | head stepped _ inductionHypothesis =>
    obtain ⟨least, enough⟩ := inductionHypothesis
    refine ⟨least + 1, ?_⟩
    intro limit large taken
    obtain ⟨rest, rfl⟩ : ∃ rest, limit = rest + 1 := ⟨limit - 1, by omega⟩
    rw [continued, stepped]
    exact enough rest (by omega) (taken + 1)

end UntypedLambda.Reduction
