import UntypedLambda.Program

/-!
# The executable

The executable reads the files that a run may load beforehand, so that the run
itself stays a value, and prints what the run has printed. Everything else is
settled in the modules that it imports.
-/

namespace UntypedLambda.Console

/-- Files that were looked for, with their texts if they could be read. -/
abbrev Snapshot := List (String × Option String)

/-- The files of a snapshot. -/
def Snapshot.files (snapshot : Snapshot) : Files :=
  fun path => (snapshot.lookup path).getD none

/-- The text of a file, if it can be read. -/
def readFile? (path : String) : IO (Option String) := do
  try
    return some (← IO.FS.readFile path)
  catch _ =>
    return none

/-- Read the files at some paths, and those that their texts may load. -/
partial def gather (snapshot : Snapshot) : List String → IO Snapshot
  | [] => pure snapshot
  | path :: paths => do
    if snapshot.any (·.1 = path) then gather snapshot paths
    else
      let text ← readFile? path
      let mentioned := (text.map Script.mentionedPaths).getD []
      gather ((path, text) :: snapshot) (mentioned ++ paths)

/-- Print a row of pieces, in color on a terminal. -/
def display (markup : Markup) : IO Unit := do
  let output ← IO.getStdout
  output.putStr (markup.render (← output.isTty))
  output.flush

/-- The exit code of a run. -/
def exitCode : Option Failure → UInt32
  | none => 0
  | some (.exit code) => (code.getD 0).toNat.toUInt32
  | some _ => 1

/-- Print what a run has printed, and give its exit code. -/
def conclude (run : Run) : IO UInt32 := do
  display run.output
  IO.eprint run.errors
  return exitCode run.failure

/-- Take lines from the terminal until the shell stops. -/
partial def converse (shell : Shell) : IO UInt32 := do
  display (Markup.plain shell.prompt.text)
  let typed ← (← IO.getStdin).getLine
  let line := if typed.isEmpty then Program.endOfInput else typed
  let snapshot ← gather [] (Script.mentionedPaths (Layout.joined shell.pending line))
  let answer := shell.takeLine (Script.load snapshot.files) line
  let (shown, session) := answer.shell.session.flush
  display shown
  match answer.verdict with
  | .error failure => conclude (Program.ended [] (.failed session failure))
  | .ok (some true) => return 0
  | .ok _ => converse { answer.shell with session }

/-- Run a command line. -/
def start (arguments : List String) : IO UInt32 := do
  match Options.read arguments with
  | .error refusal => conclude (Program.refused refusal)
  | .ok options =>
    match Session.create (Program.reporter options) (Program.settings options) with
    | .error failure => conclude (Program.unstarted options failure)
    | .ok session =>
      match options.file with
      | some path =>
        let snapshot ← gather [] [path]
        conclude (Program.ended [] (Script.load snapshot.files path session))
      | none =>
        display (Markup.plain (Shell.introduction ++ "\n"))
        converse (Shell.create session)

end UntypedLambda.Console

/-- Run the program with its command-line arguments. -/
def main (arguments : List String) : IO UInt32 :=
  UntypedLambda.Console.start arguments
