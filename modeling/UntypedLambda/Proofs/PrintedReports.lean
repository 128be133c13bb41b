import UntypedLambda.Proofs.IteratedSteps
import UntypedLambda.Proofs.RegisteredLines
import UntypedLambda.Session

/-!
# What is printed

A report is printed as one row, and below it its expression with the span marked, if there is
a span to be shown. The row of an error begins with the lines that led to it, from the
outermost inwards, or with the place of the innermost line if there are not several; that of
a warning begins with the place. A notice has neither. A traced reduction prints one row for
each step that it takes.

Rows are described by their texts. Where a row is needed as a whole, its pieces are given.
-/

namespace UntypedLambda

namespace Markup

@[simp]
theorem text_nil : text [] = "" :=
  rfl

@[simp]
theorem text_append (first second : Markup) :
    text (first ++ second) = text first ++ text second := by
  simp [text, String.join_append]

@[simp]
theorem text_plain (given : String) : text (plain given) = given := by
  simp [text, plain]

@[simp]
theorem text_weighted (weight : Weight) (given : String) :
    text (weighted weight given) = given := by
  simp [text, weighted]

@[simp]
theorem text_bold (given : String) : text (bold given) = given :=
  text_weighted .bold given

@[simp]
theorem text_vivid (color : Color) (given : String) : text (vivid color given) = given := by
  simp [text, vivid]

end Markup

namespace Trail

/-- What an error says of one of several lines that led to it. -/
def tracebackEntry (path : String) (line : TrailLine) : String :=
  "  File '" ++ path ++ "', line " ++ line.numberText ++ ":\n    " ++ line.text ++ "\n"

/-- The place of a report is that of the line that was registered last. -/
theorem location_of_innermost {trail : Trail} {path : String} {line : TrailLine}
    (innermost : trail.innermost? = some (path, line)) :
    trail.location = Markup.bold (path ++ ":" ++ line.numberText ++ ": ") := by
  rw [location, innermost]

/-- Where nothing is registered, a report has no place. -/
theorem location_of_unregistered {trail : Trail} (unregistered : trail.registered = []) :
    trail.location = [] := by
  rw [location, innermost?_eq, unregistered]
  rfl

/-- An error lists the lines that led to it, in the order of the trail, if there are several. -/
theorem origin_of_several {trail : Trail} (several : 1 < trail.visible.length) :
    trail.origin = Markup.plain ("Traceback:\n" ++
      String.join (trail.visible.map fun (path, line) => tracebackEntry path line)) := by
  rw [origin, if_pos several, String.join_cons]
  rfl

/-- An error to which no more than one line has led has a place only. -/
theorem origin_of_few {trail : Trail} (few : trail.visible.length ≤ 1) :
    trail.origin = trail.location := by
  rw [origin, if_neg (Nat.not_lt.mpr few)]

/-- The only registered line is the place of an error. -/
theorem origin_of_registered {trail : Trail} {path : String} {line : TrailLine}
    (registered : trail.registered = [(path, line)]) :
    trail.origin = Markup.bold (path ++ ":" ++ line.numberText ++ ": ") := by
  have few : trail.visible.length ≤ 1 := by
    rw [visible_eq, registered]
    exact List.length_filter_le _ _
  rw [origin_of_few few]
  exact location_of_innermost (by rw [innermost?_eq, registered]; rfl)

end Trail

namespace Report

/-- A span is shown unless the program itself went wrong, there is no expression, or it is not
    to be shown. -/
theorem isPointed_iff (report : Report) :
    report.isPointed = true ↔
      report.internal = false ∧ report.subject ≠ "" ∧ report.pointed = true := by
  simp [isPointed, and_assoc]

end Report

namespace Reporter

/-- The text of a notice is its message. -/
theorem text_noticeLine (message : Markup) :
    (noticeLine message).text = "info: " ++ message.text := by
  simp [noticeLine]

/-- The text of a step is its number and its term. -/
theorem text_stepLine (kind : String) (number : Int) (term : Term) :
    (stepLine kind number term).text =
      kind ++ Decimal.integerText number ++ ": " ++ term.display := by
  simp [stepLine]

/-- A warning is printed with its place, and then its span is shown, if there is one to be
    shown. -/
theorem text_warn (reporter : Reporter) (report : Report) :
    (reporter.warn report).output.map Markup.text = reporter.output.map Markup.text ++
      (reporter.trail.location.text ++ "warning: " ++ report.message.text) ::
        if report.isPointed then [(report.pointer .magenta).text] else [] := by
  unfold warn print
  split <;> simp [String.append_assoc]

/-- An error is printed with the lines that led to it, and then its span is shown, if there is one
    to be shown. -/
theorem text_errorLines (trail : Trail) (report : Report) :
    (errorLines trail report).map Markup.text =
      (trail.origin.text ++ (if report.internal then "[internal] " else "") ++ "error: " ++
          report.message.text) ::
        if report.isPointed then [(report.pointer .red).text] else [] := by
  have mark : Markup.text (if report.internal then Markup.vivid .red "[internal] " else []) =
      if report.internal then "[internal] " else "" := by
    split <;> simp
  have pointer : (if report.isPointed then [report.pointer .red] else []).map Markup.text =
      if report.isPointed then [(report.pointer .red).text] else [] := by
    split <;> rfl
  rw [errorLines, List.map_cons, pointer, Markup.text_append, Markup.text_append,
    Markup.text_append, mark, Markup.text_vivid]

/-- The rows of an error for which the program itself is not to blame. -/
theorem errorLines_of_external {report : Report} (external : report.internal = false)
    (trail : Trail) :
    errorLines trail report =
      (trail.origin ++ Markup.vivid .red "error: " ++ report.message) ::
        if report.subject ≠ "" ∧ report.pointed = true then [report.pointer .red] else [] := by
  have shown : report.isPointed = true ↔ report.subject ≠ "" ∧ report.pointed = true := by
    simp [Report.isPointed_iff, external]
  simp only [errorLines, external, Bool.false_eq_true, if_false, List.append_nil,
    if_congr shown rfl rfl]

end Reporter

namespace SyntaxError

/-- A syntax error quotes its line, and the token that is refused with what could have stood
    there instead. -/
theorem text_message (line : String) (token : Token) (what : Expectation) :
    (message ⟨⟨some token, .illegalCharacter⟩, line⟩).text =
      "'" ++ line ++ "' contains illegal character '" ++ token.content ++ "'" ∧
    (message ⟨⟨some token, .unknownCommand⟩, line⟩).text =
      "'" ++ line ++ "' has unknown command '" ++ token.content ++ "'" ∧
    (message ⟨⟨some token, .expected what⟩, line⟩).text =
      "'" ++ line ++ "' has unexpected '" ++ token.content ++ "', expected " ++ what.text ∧
    (message ⟨⟨none, .expected what⟩, line⟩).text =
      "'" ++ line ++ "' has unexpected end of line, expected " ++ what.text := by
  simp [message, ← String.toList_inj]

/-- The report of a syntax error is about its line, which it quotes first. -/
theorem exists_message (error : SyntaxError) :
    ∃ after, error.message.text = "'" ++ error.line ++ "'" ++ after := by
  obtain ⟨⟨found, problem⟩, line⟩ := error
  cases problem <;>
    exact ⟨_, by simp only [message, Markup.text_append, Markup.text_plain, Markup.text_bold,
      String.append_assoc]; rfl⟩

end SyntaxError

namespace Fault

/-- What is wrong with a request that can be read. -/
theorem text_message (source : String) (name : Name) (chain : List Name) (given : Scalar)
    (path : String) :
    (recursiveBinding source name).report.message.text =
      "'" ++ source ++ "' makes binding '" ++ name ++
        "' refer to itself, recursive bindings are not supported" ∧
    (cyclicBinding name chain).report.message.text =
      "binding '" ++ name ++ "' is cyclic (" ++ " -> ".intercalate chain ++ ")" ∧
    (unnaturalLimit given).report.message.text =
      "reduction limit must be a natural number, got '" ++ given.toText ++ "'" ∧
    (unknownStrategy given).report.message.text =
      "'" ++ given.toText ++ "' is not a reduction strategy (expected one of: " ++
        Strategy.choices ++ ")" ∧
    (unreadableFile path).report.message.text = "'" ++ path ++ "' could not be opened" := by
  simp [report, Report.about, String.append_assoc]

/-- Every fault quotes what its report is about, unless the report was given as it is. -/
theorem exists_message {fault : Fault} (found : ∀ report, fault ≠ .stated report) :
    ∃ before after,
      fault.report.message.text = before ++ "'" ++ fault.report.subject ++ "'" ++ after := by
  cases fault with
  | malformed error =>
    obtain ⟨after, quoted⟩ := error.exists_message
    exact ⟨"", after, by rw [String.empty_append]; exact quoted⟩
  | recursiveBinding source name =>
    refine ⟨"", " makes binding '" ++ name ++
      "' refer to itself, recursive bindings are not supported", ?_⟩
    simp [report, Report.about, ← String.toList_inj]
  | cyclicBinding name chain =>
    refine ⟨"binding ", " is cyclic (" ++ " -> ".intercalate chain ++ ")", ?_⟩
    simp [report, Report.about, ← String.toList_inj]
  | unnaturalLimit given =>
    refine ⟨"reduction limit must be a natural number, got ", "", ?_⟩
    simp [report, Report.about, ← String.toList_inj]
  | unknownStrategy given =>
    refine ⟨"", " is not a reduction strategy (expected one of: " ++ Strategy.choices ++ ")", ?_⟩
    simp [report, Report.about, ← String.toList_inj]
  | unreadableFile path =>
    refine ⟨"", " could not be opened", ?_⟩
    simp [report, Report.about, ← String.toList_inj]
  | stated report => exact absurd rfl (found report)

end Fault

namespace Session

/-- Without tracing no steps are printed. -/
theorem tracedSteps_of_untraced {session : Session} (untraced : session.reporter.traced = false)
    (resolved : Term) : session.tracedSteps resolved = [] := by
  rw [tracedSteps, if_neg (Bool.eq_false_iff.mp untraced)]

/-- With tracing there is one row for each step that is taken, numbered from one, with the term
    after so many steps. -/
theorem text_tracedSteps {session : Session} (traced : session.reporter.traced = true)
    (resolved : Term) :
    let step := session.strategy.step
    (session.tracedSteps resolved).map Markup.text =
      (List.range' 1 (Reduction.run step session.limit resolved).steps).map fun number =>
        "β" ++ Decimal.text number ++ ": " ++
          ((Reduction.afterSteps step number resolved).elim "" Term.display) := by
  intro step
  have numbered := congrArg
    (List.map fun (number, reduct) =>
      "β" ++ Decimal.text number ++ ": " ++ (Option.elim reduct "" Term.display))
    (Reduction.map_trace step session.limit resolved)
  rw [List.map_map, List.map_map] at numbered
  rw [tracedSteps, if_pos traced, List.map_map]
  refine Eq.trans (List.map_congr_left fun (number, term) _ => ?_) numbered
  exact Reporter.text_stepLine "β" number term

/-- A notice with a snippet is printed in one row. -/
theorem text_noticeOf (before snippet after : String) (reporter : Reporter) :
    (noticeOf before snippet after reporter).output.map Markup.text =
      reporter.output.map Markup.text ++ ["info: " ++ (before ++ snippet ++ after)] := by
  simp [noticeOf, Reporter.notice, Reporter.print, Reporter.text_noticeLine, String.append_assoc]

/-- A reduction that has run out of steps is said to be possibly divergent. -/
theorem text_exhaustionReport (quoted : String) (limit : Nat) :
    (exhaustionReport quoted limit).message.text =
      "'" ++ quoted ++ "' reached the reduction limit of " ++ Decimal.text limit ++
        ", possibly divergent term" := by
  simp [exhaustionReport, Report.about, ← String.toList_inj]

/-- The rows that are printed after a reduction, as texts: how many steps were taken, the last
    term, the number that this term denotes, if it does, and a warning if there is a further
    step. -/
def announcement (trail : Trail) (reduction : Reduction) (quoted : String) (limit : Nat) :
    List String :=
  ["info: " ++ ("reduced " ++ Decimal.text reduction.steps ++ " times"),
    reduction.term.display] ++
  ((Numeral.number? reduction.term).map fun number =>
    "info: " ++ ("result is the Church numeral " ++ Decimal.text number)).toList ++
  if reduction.exhausted then
    (trail.location.text ++ "warning: " ++ (exhaustionReport quoted limit).message.text) ::
      if quoted ≠ "" then [((exhaustionReport quoted limit).pointer .magenta).text] else []
  else []

/-- What is printed after a reduction. -/
theorem text_announce (reporter : Reporter) (reduction : Reduction) (quoted : String)
    (limit : Nat) :
    (announce reporter reduction quoted limit).output.map Markup.text =
      reporter.output.map Markup.text ++
        announcement reporter.trail reduction quoted limit := by
  have pointed : (exhaustionReport quoted limit).isPointed = true ↔ quoted ≠ "" := by
    simp [Report.isPointed_iff, exhaustionReport, Report.about]
  unfold announce announcement
  dsimp only
  cases Numeral.number? reduction.term <;> cases reduction.exhausted <;>
    simp only [Reporter.text_warn, text_noticeOf, Reporter.print, List.map_append, List.map_cons,
      List.map_nil, Markup.text_plain, if_congr pointed rfl rfl, if_true, Bool.false_eq_true,
      if_false, Option.map_none, Option.map_some, Option.toList_none, Option.toList_some,
      List.append_nil, List.append_assoc, List.cons_append, List.nil_append, String.append_empty]
  all_goals rfl

/-- An evaluation prints the steps, if it is traced, and then what there is to say of the whole
    reduction. -/
theorem text_evaluate {session : Session} {term resolved : Term} (source : String)
    (resolves : session.resolve term [] = .ok resolved) :
    (session.evaluate term source).session.reporter.output.map Markup.text =
      session.reporter.output.map Markup.text ++
        (session.tracedSteps resolved).map Markup.text ++
        announcement session.reporter.trail (session.strategy.reduce session.limit resolved)
          (quotation source term) session.limit := by
  rw [evaluate, resolves, ← List.map_append]
  exact text_announce (session.reporter.print (session.tracedSteps resolved)) ..

end Session

end UntypedLambda
