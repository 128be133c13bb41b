import UntypedLambda.Token

/-!
# Syntax errors

A line is refused at one token, or at its end if tokens are missing. The error
keeps the line and the token, so the offending span is not a value of its own
that could disagree with them.
-/

namespace UntypedLambda

/-- What could have stood where something else was found. -/
inductive Expectation where
  | term
  | parameter
  | dot
  | closing (column : Nat)
  | commandName
  | path
  | name
  | equals
  | lineEnd
  deriving DecidableEq, Repr

/-- An expectation in words. Columns are counted from one. -/
def Expectation.text : Expectation → String
  | term => "a λ-term"
  | parameter => "a parameter name"
  | dot => "'.'"
  | closing column => "')' to close '(' at column " ++ Decimal.text column
  | commandName => "a command name"
  | path => "a quoted file path"
  | name => "a name"
  | equals => "'='"
  | lineEnd => "end of line"

/-- Why a token is refused. -/
inductive SyntaxProblem where
  | illegalCharacter
  | unknownCommand
  | expected (what : Expectation)
  deriving DecidableEq, Repr

/-- A refused token and the reason. No token means the end of the line. -/
structure Misfit where
  token : Option Token
  problem : SyntaxProblem
  deriving DecidableEq, Repr

/-- The first token of a rest of the line does not meet an expectation. -/
def Misfit.unmet (rest : List Token) (what : Expectation) : Misfit :=
  ⟨rest.head?, .expected what⟩

/-- A refused token together with the line in which it stands. -/
structure SyntaxError extends Misfit where
  line : String
  deriving DecidableEq, Repr

namespace SyntaxError

/-- Where the offending span begins. -/
def start (error : SyntaxError) : Nat :=
  match error.token with
  | some token => token.start
  | none => error.line.length

/-- The place just after the offending span. -/
def stop (error : SyntaxError) : Nat :=
  match error.token with
  | some token => token.stop
  | none => error.line.length

end SyntaxError

/-- Read a line by reading its significant tokens. A character that belongs to
    no token of the grammar is refused before anything else is looked at. -/
def readingLine {α : Type} (read : List Token → Except Misfit α) (line : String) :
    Except SyntaxError α :=
  let tokens := Token.significant line
  let outcome : Except Misfit α := match tokens.find? (·.kind = .unknown) with
    | some token => .error ⟨some token, .illegalCharacter⟩
    | none => read tokens
  outcome.mapError fun misfit => ⟨misfit, line⟩

end UntypedLambda
