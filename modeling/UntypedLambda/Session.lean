import UntypedLambda.Combinators
import UntypedLambda.Outcome
import UntypedLambda.Statement.Parse

/-!
# Executing statements

The statements of a line are executed in order, and the first that fails ends
the line. What the earlier ones did stays done.

Loading a file is the one thing a statement does that is not settled here. It is
a parameter of execution, so that everything below is a plain recursion on the
statements, whatever the loaded files contain.
-/

namespace UntypedLambda

/-- The path under which typed lines are reported. -/
def consolePath : String := "<in>"

/-- What a session is started with. The limit and the strategy are scalars that
    are checked when the session is created. -/
structure Settings where
  path : String := consolePath
  interactive : Bool := true
  limit : Scalar := .integer Reduction.defaultLimit
  strategy : Scalar := .text Strategy.normal.name
  combinators : Bool := false

namespace Session

/-- A limit has to be a natural number. -/
def checkLimit (given : Scalar) : Except Fault Nat :=
  match given.natural? with
  | some limit => .ok limit
  | none => .error (.unnaturalLimit given)

/-- A strategy has to be one of those on offer. -/
def checkStrategy (given : Scalar) : Except Fault Strategy :=
  match given.strategy? with
  | some strategy => .ok strategy
  | none => .error (.unknownStrategy given)

/-- The strategy of a new session. A name that was dropped is not even refused. -/
def firstStrategy (given : Scalar) : Except Failure Strategy :=
  match given with
  | .dropped => .error .droppedName
  | name => (checkStrategy name).mapError .fault

/-- A new session. The reporter of an interactive session is never fatal. -/
def create (reporter : Reporter) (settings : Settings) : Except Failure Session := do
  let limit ← (checkLimit settings.limit).mapError .fault
  let strategy ← firstStrategy settings.strategy
  let registered := reporter.registerFile settings.path
  pure {
    path := settings.path
    environment := .ofList (if settings.combinators then Combinators.named else [])
    limit
    strategy
    results := []
    exited := false
    reporter := { registered with fatal := registered.fatal && !settings.interactive } }

/-- A session with its reporter changed. -/
def withReporter (session : Session) (change : Reporter → Reporter) : Session :=
  { session with reporter := change session.reporter }

/-- A notice with one bold snippet in it. -/
def noticeOf (before snippet after : String) : Reporter → Reporter :=
  fun reporter => reporter.notice (Markup.plain before ++ Markup.bold snippet ++ Markup.plain after)

/-- The names that a term reaches in a session. -/
def dependencies (session : Session) (term : Term) : List Name :=
  session.environment.dependencies term

/-- A term with the definitions of the session put in. -/
def resolve (session : Session) (term : Term) (expanding : List Name) : Except Fault Term :=
  (session.environment.resolve expanding term).mapError fun cycle =>
    .cyclicBinding cycle.name cycle.chain

/-- The text that a statement is quoted with; a term without one is displayed. -/
def quotation (source : String) (term : Term) : String :=
  if source = "" then term.display else source

/-- Bind a name, unless the term reaches that very name. A name that was bound
    before is bound anew, with a warning. -/
def bind (session : Session) (name : Name) (term : Term) (source : String) : Outcome :=
  if name ∈ session.dependencies term then
    .failed session (.fault (.recursiveBinding (quotation source term) name))
  else
    let bound := { session with environment := session.environment.set name term }
    let announced := bound.withReporter (noticeOf "binding " name " added")
    if session.environment.contains name then
      .done (announced.withReporter fun reporter => reporter.warn
        (Report.about (Markup.plain "binding " ++ Markup.bold name ++ Markup.plain " overwritten")
          name false))
    else .done announced

/-- The report of a reduction that has run out of steps. -/
def exhaustionReport (quoted : String) (limit : Nat) : Report :=
  Report.about (Markup.plain "'" ++ Markup.bold quoted ++
    Markup.plain "' reached the reduction limit of " ++ Markup.bold (Decimal.text limit) ++
    Markup.plain ", possibly divergent term") quoted true

/-- Print a reduction: the number of steps, the last term, the number that it
    denotes if it is a numeral, and a warning if it is exhausted. -/
def announce (reporter : Reporter) (reduction : Reduction) (quoted : String) (limit : Nat) :
    Reporter :=
  let counted := noticeOf "reduced " (Decimal.text reduction.steps) " times" reporter
  let shown := counted.print [Markup.plain reduction.term.display]
  let numbered := match Numeral.number? reduction.term with
    | some number => noticeOf "result is the Church numeral " (Decimal.text number) "" shown
    | none => shown
  if reduction.exhausted then numbered.warn (exhaustionReport quoted limit) else numbered

/-- The printed steps of a reduction; none unless tracing is on. -/
def tracedSteps (session : Session) (resolved : Term) : List Markup :=
  if session.reporter.traced then
    (session.strategy.trace session.limit resolved).map fun (number, term) =>
      Reporter.stepLine "β" number term
  else []

/-- Resolve and reduce a term, print the result and queue it. -/
def evaluate (session : Session) (term : Term) (source : String) : Outcome :=
  match session.resolve term [] with
  | .error fault => .failed session (.fault fault)
  | .ok resolved =>
    let reduction := session.strategy.reduce session.limit resolved
    let traced := session.reporter.print (session.tracedSteps resolved)
    .done { session with
      results := session.results ++ [reduction]
      reporter := announce traced reduction (quotation source term) session.limit }

/-- The printed form of a binding. -/
def bindingLine (name : Name) (term : Term) : String :=
  name ++ " = " ++ term.display

/-- Execute a statement. Files are loaded by `load`. -/
def execute (load : String → Session → Outcome) (session : Session) (statement : Statement) :
    Outcome :=
  match statement.action with
  | .evaluate term => session.evaluate term statement.source
  | .bind name term => session.bind name term statement.source
  | .limit (some limit) =>
    let changed := { session with limit }
    .done (changed.withReporter (noticeOf "reduction limit set to " (Decimal.text limit) ""))
  | .limit none =>
    .done (session.withReporter (noticeOf "reduction limit is " (Decimal.text session.limit) ""))
  | .strategy (some name) =>
    match checkStrategy (.text name) with
    | .error fault => .failed session (.fault fault)
    | .ok strategy =>
      let changed := { session with strategy }
      .done (changed.withReporter (noticeOf "reduction strategy set to " strategy.name ""))
  | .strategy none =>
    .done (session.withReporter (noticeOf "reduction strategy is " session.strategy.name ""))
  | .listBindings =>
    .done (session.withReporter fun reporter => reporter.print
      (session.environment.entries.map fun (name, term) => Markup.plain (bindingLine name term)))
  | .load path => load path session
  | .exit => .done { session with exited := true }

/-- Execute statements in order, up to the first that fails. -/
def executeAll (load : String → Session → Outcome) (session : Session) : List Statement → Outcome
  | [] => .done session
  | statement :: statements =>
    (session.execute load statement).andThen fun next => next.executeAll load statements

/-- Execute a line. While it is being executed it is registered under its path,
    or under the path of the session if it has none; a line that fails stays
    registered. -/
def add (load : String → Session → Outcome) (session : Session) (line : String)
    (number : Option Int) (path : String) : Outcome :=
  let path := if path = "" then session.path else path
  let registered := session.withReporter (·.registerLine path ⟨line, number⟩)
  match Statement.parse line with
  | .error error => .failed registered (.fault (.malformed error))
  | .ok statements =>
    (registered.executeAll load statements).andThen fun next =>
      .done (next.withReporter (·.forgetLine path))

/-- Take the oldest result that was not taken yet. -/
def pop (session : Session) : Except Failure (Reduction × Session) :=
  match session.results with
  | [] => .error .noResult
  | oldest :: others => .ok (oldest, { session with results := others })

end Session

end UntypedLambda
