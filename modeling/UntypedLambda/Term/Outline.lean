import UntypedLambda.Term
import UntypedLambda.Text.Quoted

/-!
# Terms node by node

The outline of a term names every node by its kind and quotes every name. It
shows what the display of a term hides, such as a name that contains blanks.
-/

namespace UntypedLambda.Term

/-- A term with the kinds of its nodes spelled out. -/
def outline : Term → String
  | var name => "Variable(" ++ Quoted.quote name ++ ")"
  | lam param body => "Abstraction(" ++ Quoted.quote param ++ ", " ++ body.outline ++ ")"
  | app function argument => "Application(" ++ function.outline ++ ", " ++ argument.outline ++ ")"

end UntypedLambda.Term
