import UntypedLambda.Token

/-!
# Layout of statements on lines

A statement may be spread over several lines as long as a parenthesis is open
at each line break. Comments and the blanks around them are dropped before lines
are joined, so a comment never swallows the line that continues it.
-/

namespace UntypedLambda.Layout

/-- A text up to its first comment. -/
def withoutComment (text : String) : String :=
  match (Token.scan text).find? (·.kind = .comment) with
  | some comment => String.ofList (text.toList.take comment.start)
  | none => text

/-- Whether a text opens more parentheses than it closes, wherever they stand. -/
def isContinued (text : String) : Bool :=
  let tokens := Token.scan text
  tokens.countP (·.kind = .closing) < tokens.countP (·.kind = .opening)

/-- A line without its comment, joined to the text that it continues. Without
    such a text the line stands alone. -/
def joined (pending line : String) : String :=
  let line := Blank.stripped (withoutComment line)
  if pending = "" then line else Blank.stripped (pending ++ " " ++ line)

end UntypedLambda.Layout
