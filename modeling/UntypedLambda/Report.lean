import UntypedLambda.Text.Decimal
import UntypedLambda.Text.Markup

/-!
# Reports

A report is a message about an expression, and a span of that expression which
it points at. Pointing shows the expression on one line and marks the span by
carets on the line below.

A span may begin beyond the expression or be empty. What is marked has at least
one column; a place below zero is counted from the end of the expression.
-/

namespace UntypedLambda

/-- A message, the expression it is about, and the offending span. A report that
    is not `pointed` is shown without its span. An internal report says that the
    program itself went wrong. -/
structure Report where
  message : Markup
  subject : String
  start : Int
  stop : Int
  pointed : Bool
  internal : Bool
  deriving DecidableEq, Repr

/-- Why a template and its snippets make no report. -/
inductive TemplateFault where
  | unfilled (index : Nat)
  | noSubject
  deriving DecidableEq, Repr

/-- What is said about a template that makes no report. -/
def TemplateFault.message : TemplateFault → String
  | unfilled index =>
    "Replacement index " ++ Decimal.text index ++ " out of range for positional args tuple"
  | noSubject => "list index out of range"

namespace Report

/-- A report about a whole expression. -/
def about (message : Markup) (subject : String) (pointed : Bool) : Report :=
  ⟨message, subject, 0, subject.length, pointed, false⟩

/-- A report about nothing in particular. -/
def general (message : Markup) : Report :=
  about message "" true

/-- The report of a message template with snippets, the first of which is the
    expression that it is about. A stop of minus one is the end of it. -/
def ofTemplate (template : String) (snippets : List String) (start stop : Int)
    (pointed internal : Bool) : Except TemplateFault Report :=
  match Markup.fill template.toList snippets 0, snippets with
  | .error index, _ => .error (.unfilled index)
  | .ok _, [] => .error .noSubject
  | .ok message, subject :: _ =>
    .ok ⟨message, subject, start, if stop = -1 then subject.length else stop, pointed, internal⟩

/-- The position in a text of a given length that a place denotes. -/
def position (length : Nat) (place : Int) : Nat :=
  if place < 0 then (place + length).toNat else min place.toNat length

/-- The end of what is marked: at least one column is. -/
def markedStop (report : Report) : Int :=
  max report.stop (report.start + 1)

/-- The expression with the span in a color, and the carets below it. -/
def pointer (report : Report) (color : Color) : Markup :=
  let characters := report.subject.toList
  let first := position characters.length report.start
  let last := position characters.length report.markedStop
  let width := (report.markedStop - report.start - 1).toNat
  Markup.plain ("  " ++ String.ofList (characters.take first)) ++
    Markup.vivid color (String.ofList ((characters.take last).drop first)) ++
    Markup.plain (String.ofList (characters.drop last) ++ "\n  " ++
      String.ofList (List.replicate report.start.toNat ' ')) ++
    Markup.vivid color ("^" ++ String.ofList (List.replicate width '~'))

/-- Whether the span is shown after the message. -/
def isPointed (report : Report) : Bool :=
  !report.internal && report.subject ≠ "" && report.pointed

end Report

end UntypedLambda
