import UntypedLambda.Report
import UntypedLambda.Strategy
import UntypedLambda.Scalar
import UntypedLambda.SyntaxError

/-!
# Faults and failures

A fault is something wrong with what was typed or asked for, and every fault has
a report. A failure is anything that cuts an activity short: a fault, the exit of
the program, an interruption from outside, or something nobody foresaw.
-/

namespace UntypedLambda

/-- What can be wrong with a request. -/
inductive Fault where
  | malformed (error : SyntaxError)
  | recursiveBinding (source : String) (name : Name)
  | cyclicBinding (name : Name) (chain : List Name)
  | unnaturalLimit (given : Scalar)
  | unknownStrategy (given : Scalar)
  | unreadableFile (path : String)
  | stated (report : Report)

/-- The names of all strategies, as they are listed in messages. -/
def Strategy.choices : String :=
  ", ".intercalate (Strategy.all.map Strategy.name)

/-- The message of a syntax error. -/
def SyntaxError.message (error : SyntaxError) : Markup :=
  let quoted := Markup.plain "'" ++ Markup.bold error.line ++ Markup.plain "'"
  let content := match error.token with
    | some token => token.content
    | none => ""
  match error.problem with
  | .illegalCharacter =>
    quoted ++ Markup.plain " contains illegal character '" ++ Markup.bold content ++
      Markup.plain "'"
  | .unknownCommand =>
    quoted ++ Markup.plain " has unknown command '" ++ Markup.bold content ++ Markup.plain "'"
  | .expected what =>
    let found := match error.token with
      | some token => "'" ++ token.content ++ "'"
      | none => "end of line"
    quoted ++ Markup.plain " has unexpected " ++ Markup.bold found ++
      Markup.plain (", expected " ++ what.text)

/-- The report of a syntax error points at the refused token. -/
def SyntaxError.report (error : SyntaxError) : Report :=
  ⟨error.message, error.line, error.start, error.stop, true, false⟩

/-- The report that a fault is shown as. -/
def Fault.report : Fault → Report
  | malformed error => error.report
  | recursiveBinding source name =>
    Report.about (Markup.plain "'" ++ Markup.bold source ++ Markup.plain "' makes binding '" ++
      Markup.bold name ++
      Markup.plain "' refer to itself, recursive bindings are not supported") source true
  | cyclicBinding name chain =>
    Report.about (Markup.plain "binding '" ++ Markup.bold name ++ Markup.plain "' is cyclic (" ++
      Markup.bold (" -> ".intercalate chain) ++ Markup.plain ")") name false
  | unnaturalLimit given =>
    Report.about (Markup.plain "reduction limit must be a natural number, got '" ++
      Markup.bold given.toText ++ Markup.plain "'") given.toText false
  | unknownStrategy given =>
    Report.about (Markup.plain "'" ++ Markup.bold given.toText ++
      Markup.plain "' is not a reduction strategy (expected one of: " ++
      Markup.bold Strategy.choices ++ Markup.plain ")") given.toText false
  | unreadableFile path =>
    Report.about (Markup.plain "'" ++ Markup.bold path ++ Markup.plain "' could not be opened")
      path false
  | stated report => report

/-- What cuts an activity short. -/
inductive Failure where
  | fault (fault : Fault)
  | exit (code : Option Int)
  | interrupted
  | tooDeep
  | unforeseen (kind detail : String)

namespace Failure

/-- A path with a null character names no file, and asking for one is not a
    fault that is reported as such. -/
def nullInPath : Failure :=
  unforeseen "ValueError" "embedded null byte"

/-- A name that was dropped cannot be looked up. -/
def droppedName : Failure :=
  unforeseen "TypeError" "unhashable type: 'list'"

/-- There is no result left to be taken. -/
def noResult : Failure :=
  unforeseen "IndexError" "pop from empty list"

end Failure

end UntypedLambda
