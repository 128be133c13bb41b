import UntypedLambda.Text.Printable

/-!
# Quoted text

A text is quoted in single quotes, or in double quotes if it contains a single
quote and no double one. The quote in use and the backslash are escaped, line
breaks and tabs have escapes of their own, and any other character that is not
printable is written by its code point in hexadecimal.
-/

namespace UntypedLambda.Quoted

/-- The hexadecimal digit of a value below sixteen, in lower case. -/
def hexDigit (digit : Nat) : Char :=
  if digit < 10 then Char.ofNat ('0'.toNat + digit) else Char.ofNat ('a'.toNat + (digit - 10))

/-- The last `width` hexadecimal digits of a number, zeros in front. -/
def hexDigits : (width number : Nat) → List Char
  | 0, _ => []
  | width + 1, number => hexDigits width (number / 16) ++ [hexDigit (number % 16)]

/-- A code point in the shortest of the three hexadecimal escapes. -/
def codeEscape (code : Nat) : List Char :=
  if code < 0x100 then ['\\', 'x'] ++ hexDigits 2 code
  else if code < 0x10000 then ['\\', 'u'] ++ hexDigits 4 code
  else ['\\', 'U'] ++ hexDigits 8 code

/-- One character of the text between the quotes. -/
def escape (quote c : Char) : List Char :=
  if c = quote ∨ c = '\\' then ['\\', c]
  else if c = '\n' then ['\\', 'n']
  else if c = '\r' then ['\\', 'r']
  else if c = '\t' then ['\\', 't']
  else if Printable.isPrintable c then [c]
  else codeEscape c.toNat

/-- The quote that a text is put in. -/
def quoteFor (characters : List Char) : Char :=
  if '\'' ∈ characters ∧ '\"' ∉ characters then '\"' else '\''

/-- A text in quotes. -/
def quote (text : String) : String :=
  let mark := quoteFor text.toList
  String.ofList ([mark] ++ text.toList.flatMap (escape mark) ++ [mark])

end UntypedLambda.Quoted
