/-!
# Text with styles

What is shown to a reader is a row of pieces, some of them with a style. The
styles become terminal escapes only when the row is rendered in color; rendered
plainly, the row is its text and nothing else.
-/

namespace UntypedLambda

/-- The colors in use. -/
inductive Color where
  | red
  | magenta
  | green
  deriving DecidableEq, Repr

/-- How strongly a piece is set. -/
inductive Weight where
  | bold
  | faint
  deriving DecidableEq, Repr

/-- A weight, and a color unless the piece keeps the color of its surroundings. -/
structure Style where
  weight : Weight
  color : Option Color
  deriving DecidableEq, Repr

/-- A text with at most one style. -/
structure Piece where
  text : String
  style : Option Style
  deriving DecidableEq, Repr

/-- A row of pieces. -/
abbrev Markup := List Piece

/-- The escape that switches to a color. -/
def Color.escape : Color → String
  | red => "\x1b[31m"
  | magenta => "\x1b[35m"
  | green => "\x1b[32m"

/-- The escape that switches to a weight. -/
def Weight.escape : Weight → String
  | bold => "\x1b[1m"
  | faint => "\x1b[2m"

/-- A piece with the escapes of its style, the weight first. A styled piece ends
    with a reset even if its text is empty. -/
def Piece.colored (piece : Piece) : String :=
  match piece.style with
  | none => piece.text
  | some ⟨weight, none⟩ => weight.escape ++ piece.text ++ "\x1b[0m"
  | some ⟨weight, some color⟩ => weight.escape ++ color.escape ++ piece.text ++ "\x1b[0m"

namespace Markup

/-- A piece without a style. -/
def plain (text : String) : Markup :=
  [⟨text, none⟩]

/-- A piece with a weight only. -/
def weighted (weight : Weight) (text : String) : Markup :=
  [⟨text, some ⟨weight, none⟩⟩]

/-- A bold piece, as all snippets in messages are. -/
def bold (text : String) : Markup :=
  weighted .bold text

/-- A bold piece in a color. -/
def vivid (color : Color) (text : String) : Markup :=
  [⟨text, some ⟨.bold, some color⟩⟩]

/-- The texts of the pieces without their styles. -/
def text (markup : Markup) : String :=
  String.join (markup.map (·.text))

/-- The text of a row, with or without terminal escapes. -/
def render (inColor : Bool) (markup : Markup) : String :=
  if inColor then String.join (markup.map Piece.colored) else markup.text

/-- Fill the placeholders of a template, which are pairs of braces, with bold
    snippets from left to right. Snippets that are left over are dropped. If they
    run out, the number of the first unfilled placeholder is given, counted on
    from those filled before. -/
def fill : (template : List Char) → (snippets : List String) → (filled : Nat) → Except Nat Markup
  | [], _, _ => .ok []
  | '\x7b' :: '\x7d' :: _, [], filled => .error filled
  | '\x7b' :: '\x7d' :: rest, snippet :: snippets, filled =>
    (fill rest snippets (filled + 1)).map (bold snippet ++ ·)
  | c :: rest, snippets, filled =>
    (fill rest snippets filled).map (plain (String.singleton c) ++ ·)

end Markup

end UntypedLambda
