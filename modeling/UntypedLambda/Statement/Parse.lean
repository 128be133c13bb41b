import UntypedLambda.Statement
import UntypedLambda.Term.Parse

/-!
# Reading statements

A line holds one command, one term, or bindings separated by semicolons, or
nothing at all. A name with an equals sign after it begins a binding; two tokens
decide which of these it is.

Reading works on tokens and yields each action with the tokens that it was read
from. The text of a statement reaches from its first token to its last one.
-/

namespace UntypedLambda.Statement

/-- The tokens that were used up between two points of a line. -/
def consumed (tokens rest : List Token) : List Token :=
  tokens.take (tokens.length - rest.length)

/-- Require that nothing is left of the line. -/
def atEnd {α : Type} (value : α) : List Token → Except Misfit α
  | [] => .ok value
  | token :: rest => .error (.unmet (token :: rest) .lineEnd)

/-- Read a command after its colon. -/
def readCommand : List Token → Except Misfit (Action × List Token)
  | [] => .error (.unmet [] .commandName)
  | word :: rest =>
    if word.kind ≠ .name then .error (.unmet (word :: rest) .commandName)
    else if word.content = "exit" then .ok (.exit, rest)
    else if word.content = "binds" then .ok (.listBindings, rest)
    else if word.content = "limit" then
      match rest with
      | ⟨.number, digits, _⟩ :: others => .ok (.limit (some (Decimal.read digits)), others)
      | others => .ok (.limit none, others)
    else if word.content = "strategy" then
      match rest with
      | ⟨.name, letters, _⟩ :: others => .ok (.strategy (some (String.ofList letters)), others)
      | others => .ok (.strategy none, others)
    else if word.content = "load" then
      match rest with
      | ⟨.string, quoted, _⟩ :: others =>
        .ok (.load (String.ofList (quoted.drop 1).dropLast), others)
      | others => .error (.unmet others .path)
    else .error ⟨some word, .unknownCommand⟩

/-- Read bindings up to the end of the line. A semicolon may follow the last. -/
def readBindings : List Token → Except Misfit (List (Action × List Token))
  | [] => .error (.unmet [] .name)
  | name :: afterName =>
    if name.kind ≠ .name then .error (.unmet (name :: afterName) .name)
    else match afterName with
    | [] => .error (.unmet [] .equals)
    | equals :: body =>
      if equals.kind ≠ .equals then .error (.unmet (equals :: body) .equals)
      else match _success : Term.read body with
      | .error misfit => .error misfit
      | .ok (term, rest) =>
        let binding := (Action.bind name.content term, consumed (name :: equals :: body) rest)
        match rest with
        | [] => .ok [binding]
        | separator :: others =>
          if separator.kind ≠ .semicolon then .error (.unmet (separator :: others) .lineEnd)
          else if others = [] then .ok [binding]
          else (readBindings others).map (binding :: ·)
termination_by tokens => tokens.length
decreasing_by
  have shorter := Term.length_le_of_readFrom _ _ _ _ _success
  simp only [List.length_cons] at shorter ⊢
  omega

/-- Read the actions of a line, each with its tokens. -/
def readLine (tokens : List Token) : Except Misfit (List (Action × List Token)) :=
  match tokens with
  | [] => .ok []
  | ⟨.colon, _, _⟩ :: rest =>
    match readCommand rest with
    | .error misfit => .error misfit
    | .ok (command, rest) => atEnd [(command, consumed tokens rest)] rest
  | ⟨.name, _, _⟩ :: ⟨.equals, _, _⟩ :: _ => readBindings tokens
  | _ =>
    match Term.read tokens with
    | .error misfit => .error misfit
    | .ok (term, rest) => atEnd [(.evaluate term, consumed tokens rest)] rest

/-- The part of a line between two places. -/
def slice (line : String) (start stop : Nat) : String :=
  String.ofList ((line.toList.take stop).drop start)

/-- The part of a line from the first to the last of some tokens. -/
def sourceOf (line : String) (tokens : List Token) : String :=
  match tokens.head?, tokens.getLast? with
  | some first, some last => slice line first.start last.stop
  | _, _ => ""

/-- The statements of a line. -/
def parse (line : String) : Except SyntaxError (List Statement) :=
  (readingLine readLine line).map fun actions =>
    actions.map fun (action, tokens) => ⟨action, sourceOf line tokens⟩

end UntypedLambda.Statement
