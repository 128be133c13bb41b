import UntypedLambda.Script

/-!
# The interactive shell

The shell executes one typed line at a time in a session. A line that leaves a
parenthesis open is kept and joined with the lines after it. Errors are printed
and do not end the shell.

A few words are commands of the shell itself. The command word of a line is its
longest beginning of ASCII letters, digits and underscores, which need not be a
name of the term language: a longer name may begin with a command word.
-/

namespace UntypedLambda

/-- What the shell asks with: for a new line, or for the rest of one. -/
inductive Prompt where
  | fresh
  | continued
  deriving DecidableEq, Repr

/-- The printed form of a prompt. -/
def Prompt.text : Prompt → String
  | fresh => "> "
  | continued => ". "

/-- The state of the shell. The pending text consists of the lines that are not
    closed yet. -/
structure Shell where
  session : Session
  pending : String
  lineNumber : Nat
  prompt : Prompt

/-- The shell after a line, and either whether it is to stop or what escaped.
    The help command leaves open whether to stop, and so the shell goes on. -/
structure Answer where
  shell : Shell
  verdict : Except Failure (Option Bool)

namespace Shell

/-- A shell in which nothing has been typed yet. -/
def create (session : Session) : Shell :=
  ⟨session, "", 0, .fresh⟩

/-- What is shown when the shell starts. -/
def introduction : String :=
  "Lambda calculus interpreter :: Python backend\nType '?' or 'help' for more information."

/-- What is shown for the help command, line by line. -/
def helpLines : List String := [
  "Welcome to the lamcalc interpreter!",
  "",
  "Type a λ-term (write 'λ' or '\\') to beta-reduce it, e.g. '(λx y. x) a b'. ",
  "Bind a term to a name with 'id = λx.x'; bound names are replaced by their ",
  "terms before reduction, so 'id y' reduces to 'y'. Numbers are Church numerals.",
  "",
  "Commands:",
  "  :limit [N]          show/set the maximum number of reduction steps",
  "  :strategy [NAME]    show/set the reduction strategy (normal, applicative)",
  "  :binds              list bindings",
  "  :load \"FILE\"        run a script file",
  "  :exit               exit the interpreter"]

/-- What is shown for the help command. -/
def help : String :=
  "\n".intercalate helpLines

/-- Print a text. -/
def print (shell : Shell) (text : String) : Shell :=
  { shell with session := shell.session.withReporter (·.print [Markup.plain text]) }

/-- Drop the results of a session. They have been printed. -/
def dropResults (session : Session) : Session :=
  { session with results := [] }

/-- Execute a line of the term language, or keep it if it is not closed. The
    shell stops once the session has been left. -/
def enter (load : String → Session → Outcome) (shell : Shell) (line : String) : Answer :=
  let number := shell.lineNumber + 1
  let text := Layout.joined shell.pending line
  if Layout.isContinued text then
    ⟨⟨shell.session, text, number, .continued⟩, .ok (some shell.session.exited)⟩
  else
    let outcome := ((shell.session.add load text (some number) "").andThen fun next =>
      .done (dropResults next)).guarded
    let next : Shell := ⟨outcome.session, "", number, .fresh⟩
    match outcome.failure with
    | none => ⟨next, .ok (some outcome.session.exited)⟩
    | some failure => ⟨next, .error failure⟩

/-- Whether a character may belong to a command word. -/
def isWordChar (c : Char) : Bool :=
  ('a' ≤ c && c ≤ 'z') || ('A' ≤ c && c ≤ 'Z') || ('0' ≤ c && c ≤ '9') || c = '_'

/-- Execute a line that begins with a command word, or with none. -/
def command (load : String → Session → Outcome) (shell : Shell) (line : List Char) : Answer :=
  let word := String.ofList (line.takeWhile isWordChar)
  let argument := String.ofList (Blank.strip (line.dropWhile isWordChar))
  if word = "help" then
    if argument = "" then ⟨shell.print help, .ok none⟩
    else shell.enter load ("help " ++ argument)
  else if word = "exit" then
    if argument = "" then ⟨shell, .ok (some true)⟩ else shell.enter load ("exit " ++ argument)
  else if word = "EOF" then ⟨shell.print "", .ok (some true)⟩
  else shell.enter load (String.ofList line)

/-- Take a typed line. A question mark is short for the help command, and an
    exclamation mark says that the line is not a command. -/
def takeLine (load : String → Session → Outcome) (shell : Shell) (line : String) : Answer :=
  match Blank.strip line.toList with
  | [] => ⟨shell, .ok (some false)⟩
  | '?' :: rest => shell.command load ("help ".toList ++ rest)
  | '!' :: rest => shell.enter load (String.ofList ('!' :: rest))
  | characters => shell.command load characters

end Shell

end UntypedLambda
