import UntypedLambda.Numeral
import UntypedLambda.SyntaxError

/-!
# Reading terms

A term is read one token at a time. What has been opened and not yet closed is
kept as a context: the groups and binders around the place that is being read,
each with the function that it will become an argument of. So reading is a
single pass over the tokens, and it stops at the first token that cannot belong
to the term. What is expected there depends on the point that was reached, and
not on the token.

Binders reach as far to the right as they can; application associates to the
left; a number stands for its numeral.
-/

namespace UntypedLambda.Term

/-- What surrounds the place that is being read. A group ends at its closing
    parenthesis, a binder where the group around it ends. Each holds the function
    that was read before it at its own level, if there was one. -/
inductive Context where
  | top
  | group (outer : Context) (function : Option Term) (column : Nat)
  | binder (outer : Context) (function : Option Term) (params : List Name)
  deriving DecidableEq, Repr

/-- A group that waits for its closing parenthesis. -/
structure OpenGroup where
  outer : Context
  function : Option Term
  column : Nat
  deriving DecidableEq, Repr

/-- One more operand in a row of applications. The first one is the row. -/
def extend (function : Option Term) (operand : Term) : Term :=
  match function with
  | none => operand
  | some function => app function operand

/-- Complete the binders around a finished term, up to the innermost group that
    is still open. -/
def Context.complete : Context → Term → Term × Option OpenGroup
  | top, term => (term, none)
  | group outer function column, term => (term, some ⟨outer, function, column⟩)
  | binder outer function params, body => outer.complete (extend function (abstraction params body))

/-- The point that reading has reached: an operand may follow a row of
    applications, which may be empty so far, or a parameter those of a binder. -/
inductive Reading where
  | operand (context : Context) (function : Option Term)
  | parameters (context : Context) (function : Option Term) (params : List Name)
  deriving DecidableEq, Repr

namespace Reading

/-- Nothing has been read yet. -/
def start : Reading :=
  operand .top none

/-- Read one more token. There is no next point if the token cannot belong to
    the term. -/
def advance : Reading → Token → Option Reading
  | operand context function, token =>
    match token.kind with
    | .name => some (operand context (extend function (var token.content)))
    | .number =>
      some (operand context (extend function (Numeral.church (Decimal.read token.text))))
    | .lambda => some (parameters context function [])
    | .opening => some (operand (.group context function (token.start + 1)) none)
    | .closing => do
      let inner ← function
      let closed ← (context.complete inner).2
      pure (operand closed.outer (extend closed.function (context.complete inner).1))
    | _ => none
  | parameters context function params, token =>
    match token.kind with
    | .name => some (parameters context function (params ++ [token.content]))
    | .dot => if params = [] then none else some (operand (.binder context function params) none)
    | _ => none

/-- The term that ends at this point. It has to have an operand, its last binder
    has to have a body, and no group may be open; what is missing is expected. -/
def conclude : Reading → Except Expectation Term
  | operand _ none => .error .term
  | operand context (some row) =>
    match context.complete row with
    | (whole, none) => .ok whole
    | (_, some unclosed) => .error (.closing unclosed.column)
  | parameters _ _ params => .error (if params = [] then .parameter else .dot)

end Reading

/-- End a term before some tokens. -/
def stop (reading : Reading) (tokens : List Token) : Except Misfit (Term × List Token) :=
  match reading.conclude with
  | .ok term => .ok (term, tokens)
  | .error what => .error (.unmet tokens what)

/-- Read on from some point of a term as far as the tokens belong to it, and give
    the tokens after it as well. -/
def readFrom (reading : Reading) : List Token → Except Misfit (Term × List Token)
  | [] => stop reading []
  | token :: rest =>
    match reading.advance token with
    | some next => readFrom next rest
    | none => stop reading (token :: rest)

/-- A term that ends before some tokens leaves all of them. -/
theorem rest_eq_of_stop (reading : Reading) (tokens rest : List Token) (term : Term)
    (success : stop reading tokens = .ok (term, rest)) : rest = tokens := by
  unfold stop at success
  split at success
  · exact (Prod.mk.inj (Except.ok.inj success)).2.symm
  · simp at success

/-- Reading leaves a rest of the tokens that is not longer than all of them. -/
theorem length_le_of_readFrom (reading : Reading) (tokens rest : List Token) (term : Term)
    (success : readFrom reading tokens = .ok (term, rest)) : rest.length ≤ tokens.length := by
  induction tokens generalizing reading with
  | nil =>
    rw [readFrom] at success
    exact Nat.le_of_eq (congrArg List.length (rest_eq_of_stop reading [] rest term success))
  | cons token tokens inductionHypothesis =>
    rw [readFrom] at success
    split at success
    · rename_i next _
      exact Nat.le_succ_of_le (inductionHypothesis next success)
    · exact Nat.le_of_eq
        (congrArg List.length (rest_eq_of_stop reading (token :: tokens) rest term success))

/-- Read the term at the beginning of some tokens. -/
def read (tokens : List Token) : Except Misfit (Term × List Token) :=
  readFrom .start tokens

/-- A whole row of tokens that is one term. -/
def readWhole (tokens : List Token) : Except Misfit Term :=
  match read tokens with
  | .error misfit => .error misfit
  | .ok (term, []) => .ok term
  | .ok (_, token :: rest) => .error (.unmet (token :: rest) .lineEnd)

/-- The term that a line consists of. -/
def parse (line : String) : Except SyntaxError Term :=
  readingLine readWhole line

end UntypedLambda.Term
