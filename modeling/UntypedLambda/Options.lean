import UntypedLambda.Fault
import UntypedLambda.Reduction
import UntypedLambda.Text.Integer
import UntypedLambda.Text.Quoted

/-!
# Options of the command line

The arguments are first classified one by one: an argument is an option, the
separator after which there are no options, or plain. Then they are taken in
order. An option that needs a value has it attached or takes the plain argument
after it; what is attached to a short option that needs none is more short
options. The first plain argument that is nobody's value is the file; what is
left over is refused at the end.

Options take effect in the order in which they stand, so a request for help that
precedes a mistake wins over it, unless the mistake prevents classification.
-/

namespace UntypedLambda

/-- The options, without their values. -/
inductive Flag where
  | help
  | limit
  | strategy
  | combinators
  | trace
  deriving DecidableEq, Repr

/-- What the command line has set. The limit is any integer here. A value of two
    dashes is dropped wherever it is attached, and leaves its option without any. -/
structure Options where
  file : Option String := none
  limit : Option Int := some Reduction.defaultLimit
  strategy : Option Strategy := some .normal
  combinators : Bool := false
  trace : Bool := false
  deriving DecidableEq, Repr

/-- What can be wrong with a command line. -/
inductive UsageError where
  | invalidInteger (text : String)
  | invalidChoice (text : String)
  | missingValue (flag : Flag)
  | surplusValue (flag : Flag) (text : String)
  | ambiguous (argument : String)
  | unrecognized (arguments : List String)
  deriving DecidableEq, Repr

/-- Why there are no options to run with. -/
inductive Refusal where
  | helpWanted
  | misused (error : UsageError)
  deriving DecidableEq, Repr

namespace Flag

/-- All flags, in the order in which they are listed. -/
def all : List Flag := [help, limit, strategy, combinators, trace]

/-- The letter of the short form. -/
def letter : Flag → Char
  | help => 'h'
  | limit => 'l'
  | strategy => 's'
  | combinators => 'p'
  | trace => 't'

/-- The long form. -/
def long : Flag → String
  | help => "--help"
  | limit => "--limit"
  | strategy => "--strategy"
  | combinators => "--prelude"
  | trace => "--trace"

/-- The short form. -/
def short (flag : Flag) : String :=
  String.ofList ['-', flag.letter]

/-- Whether an option needs a value. -/
def takesValue : Flag → Bool
  | limit | strategy => true
  | help | combinators | trace => false

/-- The flag of a letter. -/
def ofLetter? (letter : Char) : Option Flag :=
  all.find? fun flag => flag.letter = letter

/-- The flags with a long form that begins in a certain way. -/
def abbreviated (beginning : String) : List Flag :=
  all.filter fun flag => beginning.toList.isPrefixOf flag.long.toList

end Flag

/-- A flag as it was written, with the value that was attached to it. -/
structure Occurrence where
  flag : Flag
  value : Option String
  deriving DecidableEq, Repr

/-- The class of an argument. An option may consist of several joined ones. -/
inductive Argument where
  | plain (text : String)
  | separator
  | option (occurrences : List Occurrence)
  | unknown (text : String)
  | misuse (error : UsageError)
  deriving DecidableEq, Repr

namespace Argument

/-- An option of its own with a value attached to it. -/
def assigned (flag : Flag) (value : List Char) : Argument :=
  if flag.takesValue then option [⟨flag, some (String.ofList value)⟩]
  else misuse (.surplusValue flag (String.ofList value))

/-- Put an occurrence before those of an option. A misuse stays what it is. -/
def precededBy (occurrence : Occurrence) : Argument → Argument
  | option occurrences => option (occurrence :: occurrences)
  | other => other

/-- A short option and what is attached to its letter: its value if it takes one,
    otherwise more letters. What begins with no letter of an option is a value
    that it does not take. -/
def joined (flag : Flag) : List Char → Argument
  | [] => option [⟨flag, none⟩]
  | c :: rest =>
    if flag.takesValue then assigned flag (c :: rest)
    else
      match Flag.ofLetter? c with
      | none => assigned flag (c :: rest)
      | some next => precededBy ⟨flag, none⟩ (joined next rest)

/-- Whether characters are digits of any script. -/
def areDigits (characters : List Char) : Bool :=
  characters.all fun c => (DecimalDigit.value? c).isSome

/-- Whether an argument without its dash looks like a number, so that it is not
    taken for an unknown option. One line feed at the end is overlooked. -/
def looksNumeric (characters : List Char) : Bool :=
  let digits := if characters.getLast? = some '\n' then characters.dropLast else characters
  let whole := digits.takeWhile (· ≠ '.')
  match digits.dropWhile (· ≠ '.') with
  | [] => areDigits whole && !whole.isEmpty
  | _ :: fraction => areDigits whole && areDigits fraction && !fraction.isEmpty

/-- An argument that begins with a dash and is no known option. It is plain if it
    looks like a number or contains a space. -/
def unmatched (characters : List Char) : Argument :=
  if looksNumeric (characters.drop 1) || ' ' ∈ characters then plain (String.ofList characters)
  else unknown (String.ofList characters)

/-- An argument that begins with two dashes. Long options may be abbreviated. -/
def classifyLong (characters : List Char) : Argument :=
  let beginning := String.ofList (characters.takeWhile (· ≠ '='))
  let candidates := match Flag.all.find? (·.long = beginning) with
    | some flag => [flag]
    | none => Flag.abbreviated beginning
  match candidates, characters.dropWhile (· ≠ '=') with
  | [], _ => unmatched characters
  | [flag], [] => option [⟨flag, none⟩]
  | [flag], _ :: value => assigned flag value
  | _, _ => misuse (.ambiguous (String.ofList characters))

/-- An argument that begins with a single dash and a letter after it. An equals
    sign right after that letter only introduces what is attached; nothing may be
    attached by it, and that is an empty value. -/
def classifyShort (letter : Char) (rest : List Char) : Argument :=
  match Flag.ofLetter? letter, rest with
  | none, _ => unmatched ('-' :: letter :: rest)
  | some flag, ['='] => assigned flag []
  | some flag, '=' :: attached => joined flag attached
  | some flag, _ => joined flag rest

/-- The class of an argument. A dash on its own is plain. -/
def classify (text : String) : Argument :=
  match text.toList with
  | ['-', '-'] => separator
  | '-' :: '-' :: rest => classifyLong ('-' :: '-' :: rest)
  | '-' :: letter :: rest => classifyShort letter rest
  | _ => plain text

/-- The classes of all arguments. After a separator there are plain ones only. -/
def classifyAll : List String → List Argument
  | [] => []
  | text :: texts =>
    match classify text with
    | separator => separator :: texts.map plain
    | other => other :: classifyAll texts

/-- The first argument that could mean several options. -/
def firstAmbiguous? (arguments : List Argument) : Option UsageError :=
  arguments.findSome? fun argument =>
    match argument with
    | misuse (.ambiguous text) => some (.ambiguous text)
    | _ => none

end Argument

namespace Options

/-- The value that is dropped. Only an attached one is ever met, as an argument
    of its own it is the separator. -/
def droppedValue : String := "--"

/-- Let a flag take effect. -/
def apply (options : Options) (flag : Flag) (value : String) : Except Refusal Options :=
  match flag with
  | .help => .error .helpWanted
  | .limit =>
    if value = droppedValue then .ok { options with limit := none }
    else
      match Integer.read? value with
      | some limit => .ok { options with limit := some limit }
      | none => .error (.misused (.invalidInteger value))
  | .strategy =>
    if value = droppedValue then .ok { options with strategy := none }
    else
      match Strategy.ofName? value with
      | some strategy => .ok { options with strategy := some strategy }
      | none => .error (.misused (.invalidChoice value))
  | .combinators => .ok { options with combinators := true }
  | .trace => .ok { options with trace := true }

/-- Let joined flags take effect one after the other. `next` is the value of the
    last of them if it needs one and has none attached. -/
def applyAll (options : Options) (next : String) : List Occurrence → Except Refusal Options
  | [] => .ok options
  | occurrence :: occurrences => do
    let changed ← options.apply occurrence.flag (occurrence.value.getD next)
    changed.applyAll next occurrences

/-- The flag that still needs a value, if the last one of an option does. -/
def waiting? (occurrences : List Occurrence) : Option Flag :=
  occurrences.getLast?.bind fun occurrence =>
    if occurrence.flag.takesValue && occurrence.value.isNone then some occurrence.flag else none

/-- The texts of arguments after a separator. -/
def texts (arguments : List Argument) : List String :=
  arguments.filterMap fun argument =>
    match argument with
    | .plain text => some text
    | _ => none

/-- Nothing may be left over. -/
def finish (options : Options) (surplus : List String) : Except Refusal Options :=
  if surplus = [] then .ok options else .error (.misused (.unrecognized surplus))

/-- Take arguments in order. The file may be taken once; what else is plain is
    left over. -/
def take (options : Options) (surplus : List String) : List Argument → Except Refusal Options
  | [] => options.finish surplus
  | .misuse error :: _ => .error (.misused error)
  | .separator :: rest =>
    match options.file, texts rest with
    | none, [] => options.finish surplus
    | none, text :: others => { options with file := some text }.finish (surplus ++ others)
    | some _, others => options.finish (surplus ++ "--" :: others)
  | .plain text :: rest =>
    match options.file with
    | some _ => options.take (surplus ++ [text]) rest
    | none =>
      let chosen := { options with file := some text }
      match rest with
      | .separator :: others => chosen.finish (surplus ++ texts others)
      | _ => chosen.take surplus rest
  | .unknown text :: rest => options.take (surplus ++ [text]) rest
  | .option occurrences :: rest =>
    match waiting? occurrences with
    | none =>
      match options.applyAll "" occurrences with
      | .error refusal => .error refusal
      | .ok changed => changed.take surplus rest
    | some flag =>
      match rest with
      | .plain value :: others =>
        match options.applyAll value occurrences with
        | .error refusal => .error refusal
        | .ok changed => changed.take surplus others
      | _ => .error (.misused (.missingValue flag))

/-- The options of a command line. -/
def read (arguments : List String) : Except Refusal Options :=
  let classified := Argument.classifyAll arguments
  match Argument.firstAmbiguous? classified with
  | some error => .error (.misused error)
  | none => ({} : Options).take [] classified

/-- How the program is called. -/
def usage : String :=
  "usage: lamcalc [-h] [-l LIMIT] [-s \x7bapplicative,normal\x7d] [-p] [-t] [file]"

/-- The help text, line by line. -/
def helpLines : List String := [
  usage,
  "",
  "Pure untyped lambda calculus interpreter.",
  "",
  "positional arguments:",
  "  file                  file to interpret and run (if empty, goes to command-",
  "                        line mode)",
  "",
  "options:",
  "  -h, --help            show this help message and exit",
  "  -l LIMIT, --limit LIMIT",
  "                        maximum number of beta reduction steps per term",
  "                        (default: 1000)",
  "  -s \x7bapplicative,normal\x7d, --strategy \x7bapplicative,normal\x7d",
  "                        reduction strategy (default: normal)",
  "  -p, --prelude         bind standard combinators, booleans and numeral",
  "                        operations on startup",
  "  -t, --trace           print every reduction step"]

/-- The help text. -/
def help : String :=
  String.join (helpLines.map (· ++ "\n"))

end Options

/-- A flag as it is named in messages. -/
def Flag.label (flag : Flag) : String :=
  "argument " ++ flag.short ++ "/" ++ flag.long ++ ": "

/-- The message of a usage error. -/
def UsageError.message : UsageError → String
  | invalidInteger text => Flag.limit.label ++ "invalid int value: " ++ Quoted.quote text
  | invalidChoice text =>
    Flag.strategy.label ++ "invalid choice: " ++ Quoted.quote text ++
      " (choose from 'applicative', 'normal')"
  | missingValue flag => flag.label ++ "expected one argument"
  | surplusValue flag text => flag.label ++ "ignored explicit argument " ++ Quoted.quote text
  | ambiguous argument =>
    let beginning := String.ofList (argument.toList.takeWhile (· ≠ '='))
    "ambiguous option: " ++ argument ++ " could match " ++
      ", ".intercalate ((Flag.abbreviated beginning).map Flag.long)
  | unrecognized arguments => "unrecognized arguments: " ++ " ".intercalate arguments

/-- What is written about a usage error. -/
def UsageError.text (error : UsageError) : String :=
  Options.usage ++ "\nlamcalc: error: " ++ error.message ++ "\n"

end UntypedLambda
