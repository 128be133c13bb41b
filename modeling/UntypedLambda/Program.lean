import UntypedLambda.Directory
import UntypedLambda.Options
import UntypedLambda.Shell

/-!
# A run of the program

The program executes the script that its command line names, or takes lines from
its input until the end. Here the input and all files are given beforehand, so a
run is a value: what was printed, what was written about misuse, and what cut
the run short.
-/

namespace UntypedLambda

/-- What a run has printed, what it has written to the error channel, and what
    has cut it short, if anything. -/
structure Run where
  output : Markup
  errors : String
  failure : Option Failure

namespace Session

/-- What the session has printed, as one row, and the session without it. -/
def flush (session : Session) : Markup × Session :=
  (session.reporter.output.flatMap (· ++ Markup.plain "\n"),
    session.withReporter fun reporter => { reporter with output := [] })

end Session

namespace Program

/-- What a session is started with by a command line. -/
def settings (options : Options) : Settings where
  path := options.file.getD consolePath
  interactive := options.file.isNone
  limit := options.limit.elim .dropped .integer
  strategy := options.strategy.elim .dropped fun strategy => .text strategy.name
  combinators := options.combinators

/-- The run of a refused command line. -/
def refused : Refusal → Run
  | .helpWanted => ⟨Markup.plain Options.help, "", some (.exit (some 0))⟩
  | .misused error => ⟨[], error.text, some (.exit (some 2))⟩

/-- The reporter of a run. -/
def reporter (options : Options) : Reporter :=
  Reporter.create true options.trace

/-- A run that ends before there is a session. -/
def unstarted (options : Options) (failure : Failure) : Run :=
  let (reporter, remaining) := (reporter options).guard failure
  ⟨reporter.output.flatMap (· ++ Markup.plain "\n"), "", remaining⟩

/-- The end of a run in a session: the reporter deals with what is left. -/
def ended (before : Markup) (outcome : Outcome) : Run :=
  let final := outcome.guarded
  ⟨before ++ final.session.flush.1, "", final.failure⟩

/-- What is typed at the end of the input. -/
def endOfInput : String := "EOF"

/-- Let the shell take lines until it is to stop or something escapes. The end
    of the input is a line as well, the last one. -/
def converse (files : Files) (printed : Markup) (shell : Shell) : List String → Run
  | [] => ended printed (.done shell.session)
  | line :: lines =>
    let answer := shell.takeLine (Script.load files) line
    let (shown, session) := answer.shell.session.flush
    let printed := printed ++ Markup.plain shell.prompt.text ++ shown
    match answer.verdict with
    | .error failure => ended printed (.failed session failure)
    | .ok (some true) => ended printed (.done session)
    | .ok _ => converse files printed { answer.shell with session } lines

/-- The run of a command line. -/
def run (files : Files) (arguments : List String) (input : String) : Run :=
  match Options.read arguments with
  | .error refusal => refused refusal
  | .ok options =>
    match Session.create (reporter options) (settings options) with
    | .error failure => unstarted options failure
    | .ok session =>
      match options.file with
      | some path => ended [] (Script.load files path session)
      | none =>
        converse files (Markup.plain (Shell.introduction ++ "\n")) (Shell.create session)
          (Lines.ofInput input ++ [endOfInput])

end Program

end UntypedLambda
