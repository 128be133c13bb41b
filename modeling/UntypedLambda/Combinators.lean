import UntypedLambda.Term

/-!
# Standard combinators

Closed terms that a session can bind on request: combinators, Church booleans
and arithmetic on Church numerals. Numerals themselves are not among them, as a
number that is typed in a term already stands for its numeral.
-/

namespace UntypedLambda.Combinators

open Term

/-- A named function applied to arguments from the left. -/
def applied (function : Name) (arguments : List Term) : Term :=
  (var function).applyTo arguments

/-- The identity. -/
def identity : Term := lam "x" (var "x")

/-- The first of two arguments. -/
def const : Term := abstraction ["x", "y"] (var "x")

/-- Composition of two functions. -/
def compose : Term := abstraction ["f", "g", "x"] (applied "f" [applied "g" [var "x"]])

/-- A function with its two arguments exchanged. -/
def flip : Term := abstraction ["f", "x", "y"] (applied "f" [var "y", var "x"])

/-- Application of one function of an argument to another one of it. -/
def sub : Term := abstraction ["x", "y", "z"] (applied "x" [var "z", applied "y" [var "z"]])

/-- A function given the same argument twice. -/
def dup : Term := abstraction ["f", "x"] (applied "f" [var "x", var "x"])

/-- Application of an argument to itself. -/
def appSelf : Term := lam "x" (applied "x" [var "x"])

/-- Application with function and argument exchanged. -/
def appRev : Term := abstraction ["x", "y"] (applied "y" [var "x"])

/-- The term that reduces to itself. -/
def omega : Term := app appSelf appSelf

/-- Half of the fixed-point combinator for normal order. -/
def lazyHalf : Term := lam "x" (applied "f" [applied "x" [var "x"]])

/-- The fixed-point combinator for normal order. -/
def fixLazy : Term := lam "f" (app lazyHalf lazyHalf)

/-- Half of the fixed-point combinator for applicative order. -/
def strictHalf : Term :=
  lam "x" (applied "f" [lam "y" (applied "x" [var "x", var "y"])])

/-- The fixed-point combinator that delays the recursive call. -/
def fixStrict : Term := lam "f" (app strictHalf strictHalf)

/-- Half of the fixed-point combinator that reduces to its own unfolding. -/
def turingHalf : Term :=
  abstraction ["x", "y"] (applied "y" [applied "x" [var "x", var "y"]])

/-- The fixed-point combinator that reduces to its own unfolding. -/
def fixTuring : Term := app turingHalf turingHalf

/-- A single term from which `sub` and `const` can be made. -/
def universal : Term := lam "x" (applied "x" [sub, const])

/-- The boolean that chooses the first alternative. -/
def tru : Term := abstraction ["t", "f"] (var "t")

/-- The boolean that chooses the second alternative. -/
def fls : Term := abstraction ["t", "f"] (var "f")

/-- Choice between two alternatives by a boolean. -/
def ifThenElse : Term := abstraction ["c", "t", "e"] (applied "c" [var "t", var "e"])

/-- Negation. -/
def not : Term := lam "b" (ifThenElse.applyTo [var "b", fls, tru])

/-- Conjunction. -/
def and : Term := abstraction ["l", "r"] (applied "l" [var "r", fls])

/-- Disjunction. -/
def or : Term := abstraction ["l", "r"] (applied "l" [tru, var "r"])

/-- The successor of a numeral. -/
def succ : Term := abstraction ["n", "f", "x"] (applied "f" [applied "n" [var "f", var "x"]])

/-- The sum of two numerals. -/
def plus : Term :=
  abstraction ["m", "n", "f", "x"] (applied "m" [var "f", applied "n" [var "f", var "x"]])

/-- The product of two numerals. -/
def mult : Term := abstraction ["m", "n", "f"] (applied "m" [applied "n" [var "f"]])

/-- The predecessor of a numeral; that of zero is zero. -/
def pred : Term :=
  abstraction ["n", "f", "x"] (applied "n" [
    abstraction ["g", "h"] (applied "h" [applied "g" [var "f"]]),
    lam "u" (var "x"),
    lam "u" (var "u")])

/-- Whether a numeral is zero. -/
def isZero : Term := lam "n" (applied "n" [lam "x" fls, tru])

/-- The combinators with the names under which a session binds them, in order. -/
def named : List (Name × Term) :=
  [("id", identity), ("const", const), ("compose", compose), ("flip", flip),
    ("sub", sub), ("dup", dup),
    ("app-self", appSelf), ("app-rev", appRev), ("omega", omega), ("fix-lazy", fixLazy),
    ("fix-strict", fixStrict), ("fix-turing", fixTuring), ("universal", universal), ("tru", tru),
    ("fls", fls), ("if-then-else", ifThenElse), ("not", not), ("and", and), ("or", or),
    ("succ", succ), ("plus", plus), ("mult", mult), ("pred", pred), ("is-zero", isZero)]

end UntypedLambda.Combinators
