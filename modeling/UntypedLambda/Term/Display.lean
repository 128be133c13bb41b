import UntypedLambda.Term

/-!
# Terms as they are typed

A term is printed with as few parentheses as the grammar of typed terms allows
without looking at the context: an abstraction in function position has them,
and so has every argument that is not a variable.
-/

namespace UntypedLambda.Term

/-- A text between parentheses if a condition holds. -/
def parenthesizedIf (condition : Bool) (text : String) : String :=
  if condition then "(" ++ text ++ ")" else text

/-- Whether a term is an abstraction. -/
def isLam : Term → Bool
  | lam _ _ => true
  | _ => false

/-- Whether a term is a variable. -/
def isVar : Term → Bool
  | var _ => true
  | _ => false

/-- A term in the notation in which it can be typed. -/
def display : Term → String
  | var name => name
  | lam param body => "λ" ++ param ++ ". " ++ body.display
  | app function argument =>
    parenthesizedIf function.isLam function.display ++ " " ++
      parenthesizedIf (!argument.isVar) argument.display

end UntypedLambda.Term
