import UntypedLambda.Term

/-!
# Equality up to the names of bound variables

The comparison walks both terms together and keeps, for each of them, the names
bound on the way down, innermost first. Two occurrences agree if they are bound
at the same place, or if both are free and have the same name.
-/

namespace UntypedLambda.Term

/-- Comparison below binders. The two lists hold the bound names of the two
    terms, innermost first; callers keep them equally long. -/
def alphaEqualUnder (bound otherBound : List Name) : Term → Term → Bool
  | var name, var otherName =>
    match bound.idxOf? name, otherBound.idxOf? otherName with
    | none, none => name = otherName
    | place, otherPlace => place = otherPlace
  | lam param body, lam otherParam otherBody =>
    alphaEqualUnder (param :: bound) (otherParam :: otherBound) body otherBody
  | app function argument, app otherFunction otherArgument =>
    alphaEqualUnder bound otherBound function otherFunction &&
      alphaEqualUnder bound otherBound argument otherArgument
  | _, _ => false

/-- Whether two terms are equal up to renaming of bound variables. -/
def alphaEqual (term other : Term) : Bool :=
  alphaEqualUnder [] [] term other

end UntypedLambda.Term
