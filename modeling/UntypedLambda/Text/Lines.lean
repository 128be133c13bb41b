/-!
# Lines of a text

Lines end at line feeds. In a file, a carriage return ends a line as well, alone
or together with the line feed after it; in typed input it does not.
-/

namespace UntypedLambda.Lines

/-- Characters split at line feeds. A line feed at the very end begins no line. -/
def split : List Char → List (List Char)
  | [] => []
  | '\n' :: rest => [] :: split rest
  | c :: rest =>
    match split rest with
    | [] => [[c]]
    | line :: lines => (c :: line) :: lines

/-- Every way to end a line becomes a line feed. -/
def unifyEnds : List Char → List Char
  | '\r' :: '\n' :: rest => '\n' :: unifyEnds rest
  | '\r' :: rest => '\n' :: unifyEnds rest
  | c :: rest => c :: unifyEnds rest
  | [] => []

/-- The lines of typed input, without their ends. -/
def ofInput (text : String) : List String :=
  (split text.toList).map String.ofList

/-- The lines of a file, without their ends. -/
def ofFile (text : String) : List String :=
  (split (unifyEnds text.toList)).map String.ofList

end UntypedLambda.Lines
