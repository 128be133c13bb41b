import UntypedLambda.Text.Blank
import UntypedLambda.Text.Decimal

/-!
# Tokens of a line

Every text splits into tokens, and nothing of it is lost: blanks and comments
are tokens, too. A token is the longest one of its kind at its place, and the
kind follows from the first character alone, with one exception. A double quote
begins a string if there is another double quote anywhere after it; otherwise it
is a token of its own that no statement can contain.

Places are counted in characters from the beginning of the text.
-/

namespace UntypedLambda

/-- What a token is, as far as the grammar is concerned. -/
inductive TokenKind where
  | lambda
  | dot
  | opening
  | closing
  | equals
  | semicolon
  | colon
  | number
  | string
  | name
  | comment
  | blank
  | unknown
  deriving DecidableEq, Repr

/-- A piece of a text, with its kind and the place where it begins. -/
structure Token where
  kind : TokenKind
  text : List Char
  start : Nat
  deriving DecidableEq, Repr

namespace Token

/-- The place just after a token. -/
def stop (token : Token) : Nat :=
  token.start + token.text.length

/-- The text of a token. -/
def content (token : Token) : String :=
  String.ofList token.text

/-- Whether a token matters to the grammar. Blanks and comments do not. -/
def isSignificant (token : Token) : Bool :=
  token.kind ≠ .comment && token.kind ≠ .blank

/-- The characters that have a meaning of their own and occur in no name. -/
def reserved : List Char :=
  ['λ', '\\', '.', '(', ')', '=', ';', ':', '#', '"']

/-- Whether a character is an ASCII digit. Only these form numbers. -/
def isDigit (c : Char) : Bool :=
  '0' ≤ c && c ≤ '9'

/-- Whether a character may continue a name. -/
def isNameChar (c : Char) : Bool :=
  c ∉ reserved && !Blank.isBlank c

/-- Whether a character may begin a name. -/
def isNameStart (c : Char) : Bool :=
  isNameChar c && !isDigit c

/-- The token that a character begins: its kind, and how many of the characters
    after the first belong to it. -/
def lexeme (first : Char) (rest : List Char) : TokenKind × Nat :=
  if first = 'λ' ∨ first = '\\' then (.lambda, 0)
  else if first = '.' then (.dot, 0)
  else if first = '(' then (.opening, 0)
  else if first = ')' then (.closing, 0)
  else if first = '=' then (.equals, 0)
  else if first = ';' then (.semicolon, 0)
  else if first = ':' then (.colon, 0)
  else if isDigit first then (.number, (rest.takeWhile isDigit).length)
  else if first = '"' then
    match rest.idxOf? '"' with
    | some index => (.string, index + 1)
    | none => (.unknown, 0)
  else if first = '#' then (.comment, (rest.takeWhile (· ≠ '\n')).length)
  else if Blank.isBlank first then (.blank, (rest.takeWhile Blank.isBlank).length)
  else (.name, (rest.takeWhile isNameChar).length)

/-- The tokens of some characters that begin at a given place. -/
def scanFrom (start : Nat) : List Char → List Token
  | [] => []
  | first :: rest =>
    let (kind, further) := lexeme first rest
    let text := first :: rest.take further
    ⟨kind, text, start⟩ :: scanFrom (start + text.length) (rest.drop further)
termination_by characters => characters.length
decreasing_by simp only [List.length_drop, List.length_cons]; omega

/-- The tokens of a text. -/
def scan (text : String) : List Token :=
  scanFrom 0 text.toList

/-- The tokens of a text that matter to the grammar. -/
def significant (text : String) : List Token :=
  (scan text).filter isSignificant

end Token

end UntypedLambda
