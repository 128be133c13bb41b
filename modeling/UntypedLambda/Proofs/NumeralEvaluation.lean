import UntypedLambda.Proofs.ApplicativeEvaluation

/-!
# Arithmetic in applicative order

The combinators of arithmetic, applied to what evaluates to numerals, evaluate to
numerals exactly, with the names of the binders that all numerals have. Applicative
order reduces below the binders of a combinator as soon as it has its first argument,
so the intermediate terms are not numerals: each combinator has its own ones, and the
predecessor needs an invariant for the function that it counts with.

All of them use the names `f` and `x`. Nothing is renamed, because whatever is put
below these binders is closed or mentions `f` where it is meant.
-/

namespace UntypedLambda

open Term

namespace Combinators

/-- The successor with its numeral put in. -/
def succOf (number : Term) : Term :=
  lam "f" (lam "x" (app (var "f") (app (app number (var "f")) (var "x"))))

/-- The sum with both numerals put in. -/
def plusOf (first second : Term) : Term :=
  lam "f" (lam "x" (app (app first (var "f")) (app (app second (var "f")) (var "x"))))

/-- The product with both numerals put in. -/
def multOf (first second : Term) : Term :=
  lam "f" (app first (app second (var "f")))

/-- What the predecessor counts with. It delays one application of `f` until it is
    known how the rest is continued. -/
def delay : Term :=
  lam "g" (lam "h" (app (var "h") (app (var "g") (var "f"))))

/-- What the predecessor counts from. It drops the application that it is given. -/
def drop : Term :=
  lam "u" (var "x")

/-- The predecessor with its numeral put in. -/
def predOf (number : Term) : Term :=
  lam "f" (lam "x" (app (app (app number delay) drop) (lam "u" (var "u"))))

variable {term first second : Term}

/-- A closed term takes the place of the parameter of the successor. -/
theorem substitute_succOf (closed : term.Closed) :
    (succOf (var "n")).substitute "n" term = succOf term := by
  simp [succOf, substitute_lam_of_not_mem, substitute_app, substitute_var, closed _]

/-- A closed term takes the place of the first parameter of the sum. -/
theorem substitute_plusOf_first (closed : first.Closed) :
    (lam "n" (plusOf (var "m") (var "n"))).substitute "m" first =
      lam "n" (plusOf first (var "n")) := by
  simp [plusOf, substitute_lam_of_not_mem, substitute_app, substitute_var, closed _]

/-- A closed term takes the place of the second parameter of the sum. -/
theorem substitute_plusOf_second (closed : first.Closed) (otherClosed : second.Closed) :
    (plusOf first (var "n")).substitute "n" second = plusOf first second := by
  simp [plusOf, substitute_lam_of_not_mem, substitute_app, substitute_var, closed.substitute,
    otherClosed _]

/-- A closed term takes the place of the first parameter of the product. -/
theorem substitute_multOf_first (closed : first.Closed) :
    (lam "n" (multOf (var "m") (var "n"))).substitute "m" first =
      lam "n" (multOf first (var "n")) := by
  simp [multOf, substitute_lam_of_not_mem, substitute_app, substitute_var, closed _]

/-- A closed term takes the place of the second parameter of the product. -/
theorem substitute_multOf_second (closed : first.Closed) (otherClosed : second.Closed) :
    (multOf first (var "n")).substitute "n" second = multOf first second := by
  simp [multOf, substitute_lam_of_not_mem, substitute_app, substitute_var, closed.substitute,
    otherClosed _]

/-- A closed term takes the place of the parameter of the predecessor. -/
theorem substitute_predOf (closed : term.Closed) :
    (predOf (var "n")).substitute "n" term = predOf term := by
  simp [predOf, delay, drop, substitute_lam_of_not_mem, substitute_app, substitute_var, closed _]

end Combinators

namespace Numeral

open Combinators

/-- A numeral has no redex. -/
theorem redexFree_church (number : Nat) : (church number).RedexFree := by
  rw [church, redexFree_lam, redexFree_lam]
  exact redexFree_iterate_var "f" (redexFree_var "x") number

/-- A numeral applied to a function waits for the argument that the function is then
    applied to. -/
theorem evaluates_church {function : Term} (functionFree : function.RedexFree)
    (uncaptured : "x" ∉ function.freeNames) (number : Nat) :
    Evaluates (app (church number) function) (lam "x" (iterate function number (var "x"))) := by
  have bodyFree : (lam "x" (iterate (var "f") number (var "x"))).RedexFree :=
    (redexFree_lam "f" _).mp (redexFree_church number)
  refine .contract bodyFree functionFree ?_
  rw [substitute_lam_of_not_mem (by decide) uncaptured, substitute_iterate, substitute_var_same,
    substitute_var_of_ne (by decide)]

/-- A numeral applied to `f` and an argument applies `f` to the value of the argument. -/
theorem evaluates_church_applied {argument value : Term} (steps : Evaluates argument value)
    (valueFree : value.RedexFree) (number : Nat) :
    Evaluates (app (app (church number) (var "f")) argument) (iterate (var "f") number value) := by
  have functions := evaluates_church (redexFree_var "f") (by decide) number
  have bodyFree : (iterate (var "f") number (var "x")).RedexFree :=
    redexFree_iterate_var "f" (redexFree_var "x") number
  refine functions.call bodyFree steps valueFree ?_
  rw [substitute_iterate, substitute_var_of_ne (by decide), substitute_var_same]

/-- The successor of a numeral is the next numeral. -/
theorem evaluates_succ {term : Term} {number : Nat} (steps : Evaluates term (church number)) :
    Evaluates (app succ term) (church (number + 1)) := by
  have start : Evaluates succ (lam "n" (succOf (var "n"))) := .refl
  refine start.call (by decide) steps (redexFree_church number) ?_
  rw [substitute_succOf (closed_church number)]
  have inner := evaluates_church_applied .refl (redexFree_var "x") number
  exact ((inner.argument (redexFree_var "f")).lam "x").lam "f"

/-- The sum of two numerals is the numeral of the sum. -/
theorem evaluates_plus {term other : Term} {number more : Nat}
    (steps : Evaluates term (church number))
    (otherSteps : Evaluates other (church more)) :
    Evaluates (app (app plus term) other) (church (number + more)) := by
  have start : Evaluates plus (lam "m" (lam "n" (plusOf (var "m") (var "n")))) := .refl
  have rest : RedexFree (app (app (var "n") (var "f")) (var "x")) := by decide
  have half : Evaluates (app plus term)
      (lam "n" (lam "f" (lam "x" (iterate (var "f") number
        (app (app (var "n") (var "f")) (var "x")))))) := by
    refine start.call (by decide) steps (redexFree_church number) ?_
    rw [substitute_plusOf_first (closed_church number)]
    have inner := evaluates_church_applied .refl rest number
    exact ((inner.lam "x").lam "f").lam "n"
  refine half.call ?_ otherSteps (redexFree_church more) ?_
  · rw [redexFree_lam, redexFree_lam]
    exact redexFree_iterate_var "f" rest number
  · have contracted : (lam "f" (lam "x" (iterate (var "f") number
          (app (app (var "n") (var "f")) (var "x"))))).substitute "n" (church more) =
        lam "f" (lam "x" (iterate (var "f") number
          (app (app (church more) (var "f")) (var "x")))) := by
      simp [substitute_lam_of_not_mem, substitute_iterate, substitute_app, substitute_var,
        closed_church more _]
    have sum : church (number + more) =
        lam "f" (lam "x" (iterate (var "f") number (iterate (var "f") more (var "x")))) := by
      rw [church, iterate_add]
    rw [contracted, sum]
    have inner := evaluates_church_applied .refl (redexFree_var "x") more
    exact ((evaluates_iterate (redexFree_var "f") inner number).lam "x").lam "f"

/-- A numeral applied to `f` as often as another one says applies `f` as often as the
    product says. -/
theorem evaluates_iterate_church (number more : Nat) :
    Evaluates (iterate (app (church more) (var "f")) number (var "x"))
      (iterate (var "f") (number * more) (var "x")) := by
  induction number with
  | zero =>
    rw [Nat.zero_mul]
    exact .refl
  | succ number inductionHypothesis =>
    have product : iterate (var "f") ((number + 1) * more) (var "x") =
        iterate (var "f") more (iterate (var "f") (number * more) (var "x")) := by
      rw [Nat.succ_mul, Nat.add_comm, iterate_add]
    rw [product]
    refine evaluates_church_applied inductionHypothesis ?_ more
    exact redexFree_iterate_var "f" (redexFree_var "x") _

/-- The product of two numerals is the numeral of the product. -/
theorem evaluates_mult {term other : Term} {number more : Nat}
    (steps : Evaluates term (church number))
    (otherSteps : Evaluates other (church more)) :
    Evaluates (app (app mult term) other) (church (number * more)) := by
  have start : Evaluates mult (lam "m" (lam "n" (multOf (var "m") (var "n")))) := .refl
  have rest : RedexFree (app (var "n") (var "f")) := by decide
  have half : Evaluates (app mult term)
      (lam "n" (lam "f" (lam "x" (iterate (app (var "n") (var "f")) number (var "x"))))) := by
    refine start.call (by decide) steps (redexFree_church number) ?_
    rw [substitute_multOf_first (closed_church number)]
    exact ((evaluates_church rest (by decide) number).lam "f").lam "n"
  refine half.call ?_ otherSteps (redexFree_church more) ?_
  · rw [redexFree_lam, redexFree_lam]
    exact redexFree_iterate rest (fun _ => rfl) (redexFree_var "x") number
  · have contracted : (lam "f" (lam "x" (iterate (app (var "n") (var "f")) number
          (var "x")))).substitute "n" (church more) =
        lam "f" (lam "x" (iterate (app (church more) (var "f")) number (var "x"))) := by
      simp [substitute_lam_of_not_mem, substitute_iterate, substitute_app, substitute_var,
        closed_church more _]
    rw [contracted]
    exact ((evaluates_iterate_church number more).lam "x").lam "f"

/-- What counting with delayed applications has come to. The innermost `f` is still
    given to `x`, which will drop it. -/
def delayed : Nat → Term
  | 0 => var "x"
  | number + 1 => lam "h" (app (var "h") (iterate (var "f") number (app (var "x") (var "f"))))

/-- What is delayed has no redex. -/
theorem redexFree_delayed (number : Nat) : (delayed number).RedexFree := by
  cases number with
  | zero => exact redexFree_var "x"
  | succ number =>
    rw [delayed, redexFree_lam, redexFree_app]
    refine ⟨rfl, redexFree_var "h", ?_⟩
    exact redexFree_iterate_var "f" (by decide) number

/-- The continuation is not free in what is delayed. -/
theorem not_mem_freeNames_delayed (number : Nat) : "h" ∉ (delayed number).freeNames := by
  cases number with
  | zero => decide
  | succ number => simp [delayed, mem_freeNames_lam]

/-- Giving `f` to what is delayed makes it one application of `f` more. -/
theorem evaluates_delayed_applied (number : Nat) :
    Evaluates (lam "h" (app (var "h") (app (delayed number) (var "f"))))
      (delayed (number + 1)) := by
  cases number with
  | zero => exact .refl
  | succ number =>
    have bodyFree := (redexFree_lam "h" _).mp (redexFree_delayed (number + 1))
    have absent : "h" ∉ (iterate (var "f") number (app (var "x") (var "f"))).freeNames := by
      simp [mem_freeNames_iterate, mem_freeNames_app, mem_freeNames_var]
    have inner : Evaluates (app (delayed (number + 1)) (var "f"))
        (iterate (var "f") (number + 1) (app (var "x") (var "f"))) := by
      refine .contract bodyFree (redexFree_var "f") ?_
      rw [substitute_app, substitute_var_same, substitute_of_not_mem absent]
      rfl
    exact (inner.argument (redexFree_var "h")).lam "h"

/-- Counting with delayed applications. -/
theorem evaluates_delay (number : Nat) :
    Evaluates (iterate delay number (var "x")) (delayed number) := by
  induction number with
  | zero => exact .refl
  | succ number inductionHypothesis =>
    have start : Evaluates delay (lam "g" (lam "h" (app (var "h") (app (var "g") (var "f"))))) :=
      .refl
    refine start.call (by decide) inductionHypothesis (redexFree_delayed number) ?_
    have contracted :
        (lam "h" (app (var "h") (app (var "g") (var "f")))).substitute "g" (delayed number) =
        lam "h" (app (var "h") (app (delayed number) (var "f"))) := by
      simp [substitute_lam_of_not_mem, substitute_app, substitute_var, not_mem_freeNames_delayed]
    rw [contracted]
    exact evaluates_delayed_applied number

/-- In the end the innermost application is dropped, and all others are done. -/
theorem evaluates_dropped (number : Nat) :
    Evaluates (app (app (lam "x" (delayed number)) drop) (lam "u" (var "u")))
      (iterate (var "f") (number - 1) (var "x")) := by
  have dropFree : drop.RedexFree := by decide
  cases number with
  | zero =>
    have first : Evaluates (app (lam "x" (delayed 0)) drop) drop :=
      .contract (redexFree_var "x") dropFree (substitute_var_same "x" drop)
    have second : Evaluates (app drop (lam "u" (var "u"))) (var "x") :=
      .contract (redexFree_var "x") (by decide) (substitute_var_of_ne (by decide) _)
    exact (first.function _).trans second
  | succ number =>
    have valueFree : (iterate (var "f") number (var "x")).RedexFree :=
      redexFree_iterate_var "f" (redexFree_var "x") number
    have drops : Evaluates (app drop (var "f")) (var "x") :=
      .contract (redexFree_var "x") (redexFree_var "f") (substitute_var_of_ne (by decide) _)
    have contracted : (delayed (number + 1)).substitute "x" drop =
        lam "h" (app (var "h") (iterate (var "f") number (app drop (var "f")))) := by
      simp [delayed, substitute_lam_of_not_mem, substitute_iterate, substitute_app, substitute_var,
        drop, mem_freeNames_lam, mem_freeNames_var]
    have first : Evaluates (app (lam "x" (delayed (number + 1))) drop)
        (lam "h" (app (var "h") (iterate (var "f") number (var "x")))) := by
      refine .call .refl (redexFree_delayed (number + 1)) .refl dropFree ?_
      rw [contracted]
      exact ((evaluates_iterate (redexFree_var "f") drops number).argument
        (redexFree_var "h")).lam "h"
    refine first.call ?_ .refl (by decide) ?_
    · rw [redexFree_app]
      exact ⟨rfl, redexFree_var "h", valueFree⟩
    · have absent : "h" ∉ (iterate (var "f") number (var "x")).freeNames := by
        simp [mem_freeNames_iterate, mem_freeNames_var]
      rw [substitute_app, substitute_var_same, substitute_of_not_mem absent]
      exact .contract (redexFree_var "u") valueFree (substitute_var_same "u" _)

/-- The predecessor of a numeral is the numeral before it, and that of zero is zero. -/
theorem evaluates_pred {term : Term} {number : Nat} (steps : Evaluates term (church number)) :
    Evaluates (app pred term) (church (number - 1)) := by
  have start : Evaluates pred (lam "n" (predOf (var "n"))) := .refl
  refine start.call (by decide) steps (redexFree_church number) ?_
  rw [substitute_predOf (closed_church number)]
  have delayFree : delay.RedexFree := by decide
  have counts : Evaluates (app (church number) delay) (lam "x" (delayed number)) :=
    (evaluates_church delayFree (by decide) number).trans ((evaluates_delay number).lam "x")
  have whole : Evaluates (app (app (app (church number) delay) drop) (lam "u" (var "u")))
      (iterate (var "f") (number - 1) (var "x")) :=
    ((counts.function drop).function (lam "u" (var "u"))).trans (evaluates_dropped number)
  exact (whole.lam "x").lam "f"

/-- Dropping the argument for falsehood as often as a number says leaves it alone only
    if the number is zero. -/
theorem evaluates_iterate_fls (number : Nat) :
    Evaluates (iterate (lam "x" fls) number (var "x")) (if number = 0 then var "x" else fls) := by
  induction number with
  | zero => exact .refl
  | succ number inductionHypothesis =>
    have valueFree : (if number = 0 then var "x" else fls).RedexFree := by split <;> decide
    refine .call .refl (by decide) inductionHypothesis valueFree ?_
    rw [substitute_of_not_mem (by decide), if_neg (Nat.succ_ne_zero number)]

/-- The test of a numeral is truth for zero and falsehood for all others. -/
theorem evaluates_isZero {term : Term} {number : Nat} (steps : Evaluates term (church number)) :
    Evaluates (app isZero term) (if number = 0 then tru else fls) := by
  have start : Evaluates isZero (lam "n" (app (app (var "n") (lam "x" fls)) tru)) := .refl
  refine start.call (by decide) steps (redexFree_church number) ?_
  have contracted : (app (app (var "n") (lam "x" fls)) tru).substitute "n" (church number) =
      app (app (church number) (lam "x" fls)) tru := by
    have closedTest : "n" ∉ (lam "x" fls).freeNames := by decide
    have closedTru : "n" ∉ tru.freeNames := by decide
    rw [substitute_app, substitute_app, substitute_var_same, substitute_of_not_mem closedTest,
      substitute_of_not_mem closedTru]
  rw [contracted]
  have counts : Evaluates (app (church number) (lam "x" fls))
      (lam "x" (if number = 0 then var "x" else fls)) :=
    (evaluates_church (by decide) (by decide) number).trans ((evaluates_iterate_fls number).lam "x")
  have resultFree : (if number = 0 then var "x" else fls).RedexFree := by split <;> decide
  refine counts.call resultFree .refl (by decide) ?_
  split
  · rw [substitute_var_same]
  · rw [substitute_of_not_mem (by decide)]

end Numeral

end UntypedLambda
