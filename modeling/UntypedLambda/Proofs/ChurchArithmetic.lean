import UntypedLambda.Proofs.NumeralDecoding
import UntypedLambda.Proofs.NumeralEvaluation

/-!
# Arithmetic on numerals

Every expression of arithmetic is reduced to the numeral of its value by both
strategies. Applicative order does so one operation after the other, and its results
are numerals as they are typed. As these have no redex, normal order arrives at them,
too, but only up to the names of bound variables, and whether a numeral is read
depends on its names: `λx. λx. x` is zero, but it is not read.

So it has to be known which binders normal order leaves at the front. All operations
bring their own `f` and `x`, except for the product, which brings only `f` and takes
the other binder from its first factor. The first factor applied to whatever does not
mention `x` becomes an abstraction with the parameter `x`, however products nest.
-/

namespace UntypedLambda

open Term Combinators

/-- An expression of arithmetic. -/
inductive Arithmetic where
  | numeral (number : Nat)
  | succ (operand : Arithmetic)
  | plus (first second : Arithmetic)
  | mult (first second : Arithmetic)
  | pred (operand : Arithmetic)
  deriving DecidableEq, Repr

namespace Arithmetic

/-- The term that an expression stands for. -/
def term : Arithmetic → Term
  | numeral number => Numeral.church number
  | succ operand => app Combinators.succ operand.term
  | plus first second => app (app Combinators.plus first.term) second.term
  | mult first second => app (app Combinators.mult first.term) second.term
  | pred operand => app Combinators.pred operand.term

/-- The number that an expression stands for. The predecessor of zero is zero. -/
def value : Arithmetic → Nat
  | numeral number => number
  | succ operand => operand.value + 1
  | plus first second => first.value + second.value
  | mult first second => first.value * second.value
  | pred operand => operand.value - 1

/-- Expressions have no free names. -/
theorem closed_term (expression : Arithmetic) : expression.term.Closed := by
  induction expression with
  | numeral number => exact Numeral.closed_church number
  | succ operand inductionHypothesis =>
    exact .app (closed_of_freeNames (by decide)) inductionHypothesis
  | plus first second firstHypothesis secondHypothesis
  | mult first second firstHypothesis secondHypothesis =>
    exact .app (.app (closed_of_freeNames (by decide)) firstHypothesis) secondHypothesis
  | pred operand inductionHypothesis =>
    exact .app (closed_of_freeNames (by decide)) inductionHypothesis

/-- In applicative order an expression evaluates to the numeral of its value. -/
theorem evaluates (expression : Arithmetic) :
    Evaluates expression.term (Numeral.church expression.value) := by
  induction expression with
  | numeral number => exact .refl
  | succ operand inductionHypothesis => exact Numeral.evaluates_succ inductionHypothesis
  | plus first second firstHypothesis secondHypothesis =>
    exact Numeral.evaluates_plus firstHypothesis secondHypothesis
  | mult first second firstHypothesis secondHypothesis =>
    exact Numeral.evaluates_mult firstHypothesis secondHypothesis
  | pred operand inductionHypothesis => exact Numeral.evaluates_pred inductionHypothesis

/-- A body that is an abstraction with the parameter `x` remains one when `f` is
    replaced. -/
theorem exists_lam_substitute (body : Term) {argument : Term}
    (uncaptured : "x" ∉ argument.freeNames) :
    ∃ newBody, HeadReduces ((lam "x" body).substitute "f" argument) (lam "x" newBody) := by
  rw [substitute_lam_of_not_mem (by decide) uncaptured]
  exact ⟨_, .refl⟩

/-- Head reduction makes an expression an abstraction with the parameter `f`. Its body
    with anything for `f` that does not mention `x` becomes an abstraction with the
    parameter `x`. The product leaves its first factor applied to a term that is closed
    but for `f`. -/
theorem exists_headReduces (expression : Arithmetic) :
    ∃ inner, HeadReduces expression.term (lam "f" inner) ∧
      ∀ argument : Term, "x" ∉ argument.freeNames →
        ∃ body, HeadReduces (inner.substitute "f" argument) (lam "x" body) := by
  induction expression with
  | numeral number => exact ⟨_, .refl, fun _ => exists_lam_substitute _⟩
  | succ operand _ =>
    have start : HeadReduces Combinators.succ (lam "n" (succOf (var "n"))) := .refl
    have heads := start.call operand.term
    rw [substitute_succOf operand.closed_term] at heads
    exact ⟨_, heads, fun _ => exists_lam_substitute _⟩
  | plus first second _ _ =>
    have start : HeadReduces Combinators.plus (lam "m" (lam "n" (plusOf (var "m") (var "n")))) :=
      .refl
    have half := start.call first.term
    rw [substitute_plusOf_first first.closed_term] at half
    have heads := half.call second.term
    rw [substitute_plusOf_second first.closed_term second.closed_term] at heads
    exact ⟨_, heads, fun _ => exists_lam_substitute _⟩
  | mult first second firstHypothesis _ =>
    have start : HeadReduces Combinators.mult (lam "m" (lam "n" (multOf (var "m") (var "n")))) :=
      .refl
    have half := start.call first.term
    rw [substitute_multOf_first first.closed_term] at half
    have heads := half.call second.term
    rw [substitute_multOf_second first.closed_term second.closed_term] at heads
    refine ⟨_, heads, ?_⟩
    intro argument uncaptured
    obtain ⟨inner, firstHeads, given⟩ := firstHypothesis
    have uncapturedToo : "x" ∉ (app second.term argument).freeNames := by
      rw [mem_freeNames_app, not_or]
      exact ⟨second.closed_term "x", uncaptured⟩
    obtain ⟨body, rest⟩ := given (app second.term argument) uncapturedToo
    rw [substitute_app, substitute_app, first.closed_term.substitute, second.closed_term.substitute,
      substitute_var_same]
    exact ⟨body, (firstHeads.call (app second.term argument)).trans rest⟩
  | pred operand _ =>
    have start : HeadReduces Combinators.pred (lam "n" (predOf (var "n"))) := .refl
    have heads := start.call operand.term
    rw [substitute_predOf operand.closed_term] at heads
    exact ⟨_, heads, fun _ => exists_lam_substitute _⟩

/-- Normal order arrives at the binders that numerals have. -/
theorem exists_reaches_binders (expression : Arithmetic) :
    ∃ body, Reduction.Reaches Strategy.normal.step expression.term (lam "f" (lam "x" body)) := by
  obtain ⟨inner, heads, given⟩ := expression.exists_headReduces
  obtain ⟨body, rest⟩ := given (var "f") (by decide)
  rw [substitute_var_self] at rest
  exact ⟨body, heads.reaches.trans (reaches_lam .normal "f" rest.reaches)⟩

/-- Both strategies reach a term without a redex that is read as the value of the
    expression. -/
theorem exists_numeral (strategy : Strategy) (expression : Arithmetic) :
    ∃ last, Reduction.Reaches strategy.step expression.term last ∧ last.RedexFree ∧
      Numeral.number? last = some expression.value := by
  have evaluates := expression.evaluates
  have redexFree := Numeral.redexFree_church expression.value
  cases strategy with
  | applicative => exact ⟨_, evaluates, redexFree, Numeral.number?_church expression.value⟩
  | normal =>
    obtain ⟨last, reaches, lastFree, alike⟩ := exists_normalForm evaluates.reduces redexFree
    obtain ⟨body, reachesBinders⟩ := expression.exists_reaches_binders
    have ended : Strategy.normal.step last = none := (step_eq_none_iff .normal last).mpr lastFree
    have onward := reaches_of_ended reachesBinders reaches ended
    obtain ⟨inner, rfl, innerReaches⟩ := exists_lam_of_reaches onward
    obtain ⟨numeral, rfl, _⟩ := exists_lam_of_reaches innerReaches
    exact ⟨_, reaches, lastFree, Numeral.number?_of_alphaEqual (by decide) alike⟩

/-- Both strategies reach truth or falsehood from the test of an expression, up to the
    names of bound variables. -/
theorem exists_truth (strategy : Strategy) (expression : Arithmetic) :
    ∃ last, Reduction.Reaches strategy.step (app isZero expression.term) last ∧ last.RedexFree ∧
      alphaEqual last (if expression.value = 0 then tru else fls) = true := by
  have evaluates := Numeral.evaluates_isZero expression.evaluates
  have redexFree : (if expression.value = 0 then tru else fls).RedexFree := by split <;> decide
  cases strategy with
  | applicative => exact ⟨_, evaluates, redexFree, (alphaEqual_iff_nameless _ _).mpr rfl⟩
  | normal => exact exists_normalForm evaluates.reduces redexFree

end Arithmetic

/-- For all expressions of arithmetic and both strategies, every limit that is large
    enough gives a numeral that is read as the value of the expression, and the test
    for zero gives truth or falsehood accordingly. -/
theorem church_arithmetic (expression : Arithmetic) (strategy : Strategy) :
    (∃ least, ∀ limit ≥ least,
      (strategy.reduce limit expression.term).exhausted = false ∧
        Numeral.number? (strategy.reduce limit expression.term).term = some expression.value) ∧
    ∃ least, ∀ limit ≥ least,
      (strategy.reduce limit (app isZero expression.term)).exhausted = false ∧
        alphaEqual (strategy.reduce limit (app isZero expression.term)).term
          (if expression.value = 0 then tru else fls) = true := by
  constructor
  · obtain ⟨last, reaches, redexFree, isRead⟩ := expression.exists_numeral strategy
    obtain ⟨least, enough⟩ := exists_limit_of_redexFree reaches redexFree
    refine ⟨least, ?_⟩
    intro limit large
    obtain ⟨unexhausted, returned⟩ := enough limit large
    rw [returned]
    exact ⟨unexhausted, isRead⟩
  · obtain ⟨last, reaches, redexFree, alike⟩ := expression.exists_truth strategy
    obtain ⟨least, enough⟩ := exists_limit_of_redexFree reaches redexFree
    refine ⟨least, ?_⟩
    intro limit large
    obtain ⟨unexhausted, returned⟩ := enough limit large
    rw [returned]
    exact ⟨unexhausted, alike⟩

/-- The predecessor of two times three, in normal order. -/
example :
    Numeral.number? (Strategy.normal.reduce 1000
      (Arithmetic.pred (.mult (.numeral 2) (.succ (.numeral 2)))).term).term = some 5 := by
  decide +kernel

end UntypedLambda
