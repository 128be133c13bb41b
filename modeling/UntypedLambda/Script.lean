import UntypedLambda.Layout
import UntypedLambda.Session
import UntypedLambda.Text.Lines

/-!
# Scripts

A script is a text file. Its physical lines are grouped into logical lines: a
group ends as soon as no parenthesis is left open, and it carries the number of
its first physical line. The logical lines are executed in order until one fails
or leaves the session. A group that is never closed is executed all the same, so
that its error is reported.

Scripts may load scripts. How deep loads nest is bounded by an explicit depth; a
load at depth zero fails.
-/

namespace UntypedLambda

/-- What opening a path gives: the text of a file, or nothing if the path names
    no file that can be read. -/
abbrev Files := String → Option String

/-- A group of physical lines, joined, with the number of the first. -/
structure LogicalLine where
  text : String
  number : Nat
  deriving DecidableEq, Repr

namespace Script

/-- Group physical lines from a given number on. An open group takes in lines
    until it is closed. -/
def groupFrom (opened : Option LogicalLine) (number : Nat) : List String → List LogicalLine
  | [] => opened.toList
  | line :: lines =>
    let group : LogicalLine := match opened with
      | some group => ⟨Layout.joined group.text line, group.number⟩
      | none => ⟨Layout.joined "" line, number⟩
    if Layout.isContinued group.text then groupFrom (some group) (number + 1) lines
    else group :: groupFrom none (number + 1) lines

/-- The logical lines of a text. -/
def logicalLines (text : String) : List LogicalLine :=
  groupFrom none 1 (Lines.ofFile text)

/-- Execute logical lines, up to the first that fails or leaves the session. -/
def runLines (load : String → Session → Outcome) (path : String) (session : Session) :
    List LogicalLine → Outcome
  | [] => .done session
  | line :: lines =>
    (session.add load line.text (some line.number) path).andThen fun next =>
      if next.exited then .done next else runLines load path next lines

/-- Execute the file at a path. On success the file leaves the trail again. -/
def runWith (load : String → Session → Outcome) (files : Files) (path : String)
    (session : Session) : Outcome :=
  if '\x00' ∈ path.toList then .failed session .nullInPath
  else match files path with
    | none => .failed session (.fault (.unreadableFile path))
    | some text =>
      (runLines load path (session.withReporter (·.registerFile path)) (logicalLines text)).andThen
        fun next => .done (next.withReporter (·.forgetFile path))

/-- Execute the file at a path. Loads nest at most as deep as is stated. -/
def run (files : Files) : (depth : Nat) → (path : String) → Session → Outcome
  | 0, _, session => .failed session .tooDeep
  | depth + 1, path, session => runWith (run files depth) files path session

/-- The paths that a text may ask to load: the strings of its logical lines. -/
def mentionedPaths (text : String) : List String :=
  (logicalLines text).flatMap fun line =>
    ((Token.scan line.text).filter (·.kind = .string)).map fun token =>
      String.ofList (token.text.drop 1).dropLast

/-- How deep loads nest at most. -/
def greatestDepth : Nat := 1000

/-- Load a file for a statement that stands in no script. -/
def load (files : Files) (path : String) (session : Session) : Outcome :=
  run files greatestDepth path session

end Script

end UntypedLambda
