import UntypedLambda.Fault
import UntypedLambda.OrderedMap
import UntypedLambda.Term.Display

/-!
# The reporter

The reporter prints notices, warnings and errors. It knows which line of which
file is being executed, so that a warning can name the innermost of them and an
error can list them all from the outermost inwards.

What is printed is kept in the reporter's output. A fatal reporter ends the
program with its first error; any other forgets the registered lines and goes on.
-/

namespace UntypedLambda

/-- A line that is being executed. Its number may be unknown. -/
structure TrailLine where
  text : String
  number : Option Int
  deriving DecidableEq, Repr

/-- The files that are being executed, the outermost one first, each with the
    line it has reached. A file without a line is between two lines. -/
abbrev Trail := OrderedMap String (Option TrailLine)

/-- The state of the reporter: two settings, the trail, and the printed lines. -/
structure Reporter where
  fatal : Bool
  traced : Bool
  trail : Trail
  output : List Markup

/-- The number of a line, as it is printed. -/
def TrailLine.numberText (line : TrailLine) : String :=
  match line.number with
  | none => "None"
  | some number => Decimal.integerText number

/-- The innermost registered line, with its file. An empty line counts. -/
def Trail.innermost? (trail : Trail) : Option (String × TrailLine) :=
  (trail.entries.filterMap fun (path, line) => line.map (path, ·)).getLast?

/-- Where an error or warning arises, in bold; nothing if no line is registered. -/
def Trail.location (trail : Trail) : Markup :=
  match trail.innermost? with
  | none => []
  | some (path, line) => Markup.bold (path ++ ":" ++ line.numberText ++ ": ")

/-- The registered lines that are not empty, with their files. -/
def Trail.visible (trail : Trail) : List (String × TrailLine) :=
  trail.entries.filterMap fun (path, line) =>
    line.bind fun line => if line.text = "" then none else some (path, line)

/-- The lines that led to an error: all of them if there are several, otherwise
    only the location. -/
def Trail.origin (trail : Trail) : Markup :=
  let lines := trail.visible
  if 1 < lines.length then
    Markup.plain (String.join ("Traceback:\n" :: lines.map fun (path, line) =>
      "  File '" ++ path ++ "', line " ++ line.numberText ++ ":\n    " ++ line.text ++ "\n"))
  else trail.location

namespace Reporter

/-- A reporter that has not been used yet. -/
def create (fatal traced : Bool) : Reporter :=
  ⟨fatal, traced, .empty, []⟩

/-- Print some lines. -/
def print (reporter : Reporter) (lines : List Markup) : Reporter :=
  { reporter with output := reporter.output ++ lines }

/-- Put a file on the trail, without a line. -/
def registerFile (reporter : Reporter) (path : String) : Reporter :=
  { reporter with trail := reporter.trail.set path none }

/-- Note that a line of a file is about to be executed. -/
def registerLine (reporter : Reporter) (path : String) (line : TrailLine) : Reporter :=
  { reporter with trail := reporter.trail.set path (some line) }

/-- Note that the line of a file has been executed. The file stays on the trail. -/
def forgetLine (reporter : Reporter) (path : String) : Reporter :=
  reporter.registerFile path

/-- Take a file off the trail. -/
def forgetFile (reporter : Reporter) (path : String) : Reporter :=
  { reporter with trail := reporter.trail.erase path }

/-- Forget the lines of all files. -/
def forgetLines (reporter : Reporter) : Reporter :=
  { reporter with trail := reporter.trail.mapValues fun _ => none }

/-- The printed form of a numbered reduction step. -/
def stepLine (kind : String) (number : Int) (term : Term) : Markup :=
  Markup.weighted .faint (kind ++ Decimal.integerText number ++ ": ") ++ Markup.plain term.display

/-- Print a reduction step, if tracing is on. -/
def showStep (reporter : Reporter) (kind : String) (number : Int) (term : Term) : Reporter :=
  if reporter.traced then reporter.print [stepLine kind number term] else reporter

/-- The printed form of a notice. -/
def noticeLine (message : Markup) : Markup :=
  Markup.vivid .green "info: " ++ message

/-- Print a notice. -/
def notice (reporter : Reporter) (message : Markup) : Reporter :=
  reporter.print [noticeLine message]

/-- Print a warning with its location, and point at its span. -/
def warn (reporter : Reporter) (report : Report) : Reporter :=
  let message := reporter.trail.location ++ Markup.vivid .magenta "warning: " ++ report.message
  reporter.print (message :: if report.isPointed then [report.pointer .magenta] else [])

/-- The lines that an error is shown as. -/
def errorLines (trail : Trail) (report : Report) : List Markup :=
  let mark := if report.internal then Markup.vivid .red "[internal] " else []
  let message := trail.origin ++ mark ++ Markup.vivid .red "error: " ++ report.message
  message :: if report.isPointed then [report.pointer .red] else []

/-- Print an error. A fatal reporter then asks for the end of the program, with
    code one; any other has no line registered any more. -/
def throw (reporter : Reporter) (report : Report) : Reporter × Option Failure :=
  let shown := reporter.print (errorLines reporter.trail report)
  if reporter.fatal then (shown, some (.exit (some 1))) else (shown.forgetLines, none)

/-- The report of an unforeseen failure. -/
def unforeseenReport (kind detail : String) : Report :=
  let name := kind ++ ": " ++ detail
  { Report.about (Markup.plain "unknown error: '" ++ Markup.bold name ++ Markup.plain "'") name true
    with internal := true }

/-- Deal with what has cut an activity short, and give what is still to be dealt
    with. Faults and interruptions are printed and done with. An exit passes, and
    so does an unforeseen failure, after it has been printed. -/
def guard (reporter : Reporter) : Failure → Reporter × Option Failure
  | .fault fault => reporter.throw fault.report
  | .exit code => (reporter, some (.exit code))
  | .interrupted => reporter.throw (Report.general (Markup.plain "keyboard interrupt"))
  | .tooDeep =>
    reporter.throw (Report.general
      (Markup.plain "term is nested too deeply, maximum recursion depth exceeded"))
  | .unforeseen kind detail =>
    match reporter.throw (unforeseenReport kind detail) with
    | (shown, some exit) => (shown, some exit)
    | (shown, none) => (shown, some (.unforeseen kind detail))

end Reporter

end UntypedLambda
