import Mathlib.Data.List.Chain
import UntypedLambda.Proofs.AlikeSessions
import UntypedLambda.Proofs.LogicalLines
import UntypedLambda.Proofs.NestedLoads

/-!
# The lines that a script executes

A script hands over its logical lines one after the other, each to the session that the
line before it has left, until one of them fails or leaves the session. A line that loads a
file has the lines of that file executed before it is done. So all lines that are executed
stand in one order, in which each of them comes before those that it has executed; and
nothing but these comes after a line that fails or leaves the session, neither from its own
file nor from those that are loading it.
-/

namespace UntypedLambda

namespace Outcome

/-- Whether a file does not go on after an outcome of one of its lines. -/
def stops (outcome : Outcome) : Bool :=
  outcome.failure.isSome || outcome.session.exited

/-- What does not stop is done, and it has not left the session. -/
theorem stops_eq_false_iff (outcome : Outcome) :
    outcome.stops = false ↔ ∃ next, outcome = .done next ∧ next.exited = false := by
  obtain ⟨session, failure⟩ := outcome
  cases failure <;> simp [stops, done]

/-- What fails stops. -/
theorem stops_of_failure {outcome : Outcome} (fails : outcome.failure ≠ none) :
    outcome.stops = true := by
  simp [stops, Option.isSome_iff_ne_none.mpr fails]

/-- Two activities that end in the same way: both are done or both fail for the same reason,
    and both have left the session or neither has. -/
def EndsLike (outcome other : Outcome) : Prop :=
  outcome.failure = other.failure ∧ outcome.session.exited = other.session.exited

/-- Of two activities that end in the same way, both stop or neither does. -/
theorem EndsLike.stops_eq {outcome other : Outcome} (alike : outcome.EndsLike other) :
    outcome.stops = other.stops := by
  rw [stops, stops, alike.1, alike.2]

/-- What ends in the same way as something else ends like all that this ends like. -/
theorem EndsLike.trans {outcome other another : Outcome} (alike : outcome.EndsLike other)
    (otherAlike : other.EndsLike another) : outcome.EndsLike another :=
  ⟨alike.1.trans otherAlike.1, alike.2.trans otherAlike.2⟩

/-- An activity ends as it would without what is printed or registered in the end. -/
theorem endsLike_withReporter (outcome : Outcome) (change : Reporter → Reporter) :
    (outcome.andThen fun next => .done (next.withReporter change)).EndsLike outcome := by
  obtain ⟨session, failure⟩ := outcome
  cases failure <;> exact ⟨rfl, rfl⟩

/-- Nothing comes after an outcome that stops. -/
theorem andThen_of_stops {outcome : Outcome} (stops : outcome.stops = true)
    (next : Session → Outcome) :
    (outcome.andThen fun session => if session.exited then .done session else next session) =
      outcome := by
  obtain ⟨session, failure⟩ := outcome
  cases failure with
  | none => exact if_pos (by simpa [Outcome.stops] using stops)
  | some failure => rfl

/-- Doing nothing more changes nothing. -/
theorem andThen_done (outcome : Outcome) : outcome.andThen .done = outcome := by
  obtain ⟨session, failure⟩ := outcome
  cases failure <;> rfl

end Outcome

/-- Only bindings share a line: a statement that binds no name has a line to itself. -/
theorem Statement.alone_unless_binds {text : String} {statements : List Statement}
    {statement : Statement}
    (parsed : parse text = .ok statements) (member : statement ∈ statements)
    (other : ∀ name term, statement.action ≠ .bind name term) : statements = [statement] := by
  have line := (parse_iff_derives text _).mp ⟨statements, parsed, rfl⟩
  have among : statement.action ∈ statements.map action := List.mem_map_of_mem member
  have single {only : Action} (isOne : statements.map action = [only]) :
      statements = [statement] := by
    obtain ⟨_, rfl, _⟩ := List.map_eq_singleton_iff.mp isOne
    rw [List.mem_singleton.mp member]
  have unbound {words : List Word} {actions : List Action}
      (bindings : Grammar.Bindings words actions) :
      statement.action ∉ actions := by
    intro isOne
    obtain ⟨name, term, binds⟩ := bindings.binds _ isOne
    exact other name term binds
  generalize isActions : statements.map action = actions at line among
  generalize Token.words text = words at line
  cases line with
  | empty => exact absurd among List.not_mem_nil
  | command => exact single isActions
  | bindings bindings => exact absurd among (unbound bindings)
  | closed separator bindings => exact absurd among (unbound bindings)
  | term => exact single isActions

/-- A line that loads a file has no other statement. -/
theorem Statement.alone_of_load {text path : String} {statements : List Statement}
    {statement : Statement}
    (parsed : parse text = .ok statements) (member : statement ∈ statements)
    (loads : statement.action = .load path) : statements = [statement] :=
  alone_unless_binds parsed member (by simp [loads])

/-- A line that asks for a file does nothing but load it, while it is registered. -/
theorem Session.add_of_asks {line inner : String} (asks : Script.Asks line inner)
    (load : String → Session → Outcome) (session : Session) (number : Option Int) (path : String) :
    session.add load line number path =
      (load inner (session.enter path ⟨line, number⟩)).andThen fun next => .done
        (next.withReporter (·.forgetLine (if path = "" then session.path else path))) := by
  obtain ⟨statements, parsed, statement, member, loads⟩ := asks
  obtain rfl := Statement.alone_of_load parsed member loads
  have executes (entered : Session) : entered.executeAll load [statement] = load inner entered := by
    rw [executeAll, execute, loads]
    exact Outcome.andThen_done _
  rw [add, parsed]
  dsimp only
  rw [executes]
  rfl

namespace Script

/-- A path under which a text can be read. -/
def Opens (files : Files) (path text : String) : Prop :=
  '\x00' ∉ path.toList ∧ files path = some text

/-- A file that can be read is executed line by line, and then it leaves the trail. -/
theorem Opens.run_eq {files : Files} {path text : String}
    (opens : Opens files path text) (depth : Nat)
    (session : Session) : run files (depth + 1) path session =
      (runLines (run files depth) path (session.withReporter (·.registerFile path))
        (logicalLines text)).andThen fun next => .done (next.withReporter (·.forgetFile path)) := by
  simp only [run, runWith, if_neg opens.1, opens.2]

/-- A logical line that a file hands over to a session. Loads may still nest so deep as `left`
    says. -/
structure Call where
  path : String
  line : LogicalLine
  session : Session
  left : Nat

/-- The session in which a line is executed: the line is registered. -/
def Call.entered (call : Call) : Session :=
  call.session.enter call.path ⟨call.line.text, some call.line.number⟩

/-- What comes of a line. -/
def Call.outcome (files : Files) (call : Call) : Outcome :=
  call.session.add (run files call.left) call.line.text (some call.line.number) call.path

/-- The logical lines that a file hands over: all of them, or those up to the first that fails
    or leaves the session. -/
def callsOfLines (files : Files) (left : Nat) (path : String) (session : Session) :
    List LogicalLine → List Call
  | [] => []
  | line :: lines =>
    let call : Call := ⟨path, line, session, left⟩
    let outcome := call.outcome files
    call :: if outcome.stops then [] else callsOfLines files left path outcome.session lines

/-- The logical lines that the file at a path hands over itself. -/
def ownCalls (files : Files) (depth : Nat) (path : String) (session : Session) : List Call :=
  match depth with
  | 0 => []
  | left + 1 =>
    if '\x00' ∈ path.toList then []
    else match files path with
      | none => []
      | some text =>
        callsOfLines files left path (session.withReporter (·.registerFile path))
          (logicalLines text)

/-- The lines that are handed over while statements are executed: those of the files that the
    statements load. -/
def callsOfStatements (load : String → Session → Outcome) (callsOf : String → Session → List Call)
    (session : Session) : List Statement → List Call
  | [] => []
  | statement :: statements =>
    let loaded := match statement.action with
      | .load path => callsOf path session
      | _ => []
    let outcome := session.execute load statement
    loaded ++ if outcome.failure.isSome then []
      else callsOfStatements load callsOf outcome.session statements

/-- The lines that are handed over while a line is executed. -/
def Call.inside (files : Files) (callsOf : String → Session → List Call)
    (call : Call) : List Call :=
  match Statement.parse call.line.text with
  | .error _ => []
  | .ok statements => callsOfStatements (run files call.left) callsOf call.entered statements

/-- All lines that are handed over while the file at a path is executed, in the order in which
    their execution begins. -/
def allCalls (files : Files) : (depth : Nat) → (path : String) → Session → List Call
  | 0, _, _ => []
  | left + 1, path, session =>
    (ownCalls files (left + 1) path session).flatMap fun call =>
      call :: call.inside files (allCalls files left)

/-- Lines are handed over one after the other. The first one finds a given session, and each
    of the others the session that the one before it has left, done and not exited. They are
    the first of some logical lines, and all of them unless the last one stops. What comes of
    the whole is what comes of the last one. -/
structure Executes (files : Files) (left : Nat) (path : String) (session : Session)
    (lines : List LogicalLine) (calls : List Call) (outcome : Outcome) : Prop where
  taken : calls.map Call.line <+: lines
  place : ∀ call ∈ calls, call.path = path ∧ call.left = left
  first : ∀ call ∈ calls.head?, call.session = session
  next : calls.IsChain fun call next =>
    call.outcome files = .done next.session ∧ next.session.exited = false
  outcome : outcome = calls.getLast?.elim (.done session) (Call.outcome files)
  complete : calls.map Call.line = lines ∨ ∃ call ∈ calls.getLast?,
    (call.outcome files).stops = true

variable {files : Files}

/-- A line that stops is the last one. -/
theorem Executes.stopped {left : Nat} {path : String} {session : Session} {line : LogicalLine}
    (stops : (Call.outcome files ⟨path, line, session, left⟩).stops = true)
    (lines : List LogicalLine) :
    Executes files left path session (line :: lines) [⟨path, line, session, left⟩]
      (Call.outcome files ⟨path, line, session, left⟩) := by
  constructor
  · exact List.cons_prefix_cons.mpr ⟨rfl, List.nil_prefix⟩
  · exact List.forall_mem_singleton.mpr ⟨rfl, rfl⟩
  · simp
  · exact .singleton _
  · rfl
  · exact .inr ⟨_, rfl, stops⟩

/-- A line that does not stop is followed by the lines that come next. -/
theorem Executes.cons {left : Nat} {path : String} {session next : Session} {line : LogicalLine}
    {lines : List LogicalLine} {calls : List Call} {outcome : Outcome}
    (isDone : Call.outcome files ⟨path, line, session, left⟩ = .done next)
    (stays : next.exited = false)
    (executes : Executes files left path next lines calls outcome) :
    Executes files left path session (line :: lines)
      (⟨path, line, session, left⟩ :: calls) outcome := by
  obtain ⟨taken, place, first, chain, last, complete⟩ := executes
  constructor
  · exact List.cons_prefix_cons.mpr ⟨rfl, taken⟩
  · exact List.forall_mem_cons.mpr ⟨⟨rfl, rfl⟩, place⟩
  · simp
  · refine chain.cons fun call isFirst => ?_
    rw [first call isFirst]
    exact ⟨isDone, stays⟩
  · rw [last, List.getLast?_cons]
    cases calls.getLast? with
    | none => exact isDone.symm
    | some call => rfl
  · rw [List.getLast?_cons]
    obtain all | ⟨call, isLast, callStops⟩ := complete
    · exact .inl (congrArg (line :: ·) all)
    · exact .inr ⟨call, by rw [isLast]; rfl, callStops⟩

/-- The logical lines of a file are executed one after the other. -/
theorem executes_callsOfLines (left : Nat) (path : String) (session : Session)
    (lines : List LogicalLine) :
    Executes files left path session lines (callsOfLines files left path session lines)
      (runLines (run files left) path session lines) := by
  induction lines generalizing session with
  | nil =>
    exact ⟨List.prefix_refl [], by simp [callsOfLines], by simp [callsOfLines], .nil, rfl, .inl rfl⟩
  | cons line lines inductionHypothesis =>
    let call : Call := ⟨path, line, session, left⟩
    change Executes files left path session (line :: lines)
      (call :: if (call.outcome files).stops then []
        else callsOfLines files left path (call.outcome files).session lines)
      ((call.outcome files).andThen fun next =>
        if next.exited then .done next else runLines (run files left) path next lines)
    cases stops : (call.outcome files).stops with
    | true =>
      rw [Outcome.andThen_of_stops stops]
      exact .stopped stops lines
    | false =>
      obtain ⟨next, isDone, stays⟩ := (Outcome.stops_eq_false_iff _).mp stops
      rw [isDone, Outcome.done_andThen, if_neg (Bool.eq_false_iff.mp stays)]
      exact .cons isDone stays (inductionHypothesis next)

/-- A call that stops is the last of its file. -/
theorem Executes.later_eq_nil {left : Nat} {path : String} {session : Session}
    {lines : List LogicalLine}
    {earlier later : List Call} {call : Call} {outcome : Outcome}
    (executes : Executes files left path session lines (earlier ++ call :: later) outcome)
    (stops : (call.outcome files).stops = true) : later = [] := by
  cases later with
  | nil => rfl
  | cons next later =>
    obtain ⟨isDone, stays⟩ := List.isChain_iff_forall_rel_of_append_cons_cons.mp executes.next rfl
    simp [isDone, Outcome.stops, Outcome.done, stays] at stops

/-- What is handed over after a line that does not stop is handed over by itself. -/
theorem Executes.tail {left : Nat} {path : String} {session next : Session} {line : LogicalLine}
    {lines : List LogicalLine} {call : Call} {calls : List Call} {outcome : Outcome}
    (executes : Executes files left path session (line :: lines) (call :: calls) outcome)
    (isDone : call.outcome files = .done next) (stays : next.exited = false) :
    ∃ rest, Executes files left path next lines calls rest := by
  refine ⟨calls.getLast?.elim (.done next) (Call.outcome files), ?_, ?_, ?_,
    executes.next.tail, rfl, ?_⟩
  · exact (List.cons_prefix_cons.mp executes.taken).2
  · exact (List.forall_mem_cons.mp executes.place).2
  · intro first isFirst
    obtain ⟨isFirstDone, _⟩ := List.IsChain.rel_head? executes.next isFirst
    cases isDone.symm.trans isFirstDone
    rfl
  · obtain all | ⟨last, isLast, stops⟩ := executes.complete
    · exact .inl (List.cons.inj all).2
    · right
      rw [List.getLast?_cons] at isLast
      cases rest : calls.getLast? with
      | some other => exact ⟨last, by simpa [rest] using isLast, stops⟩
      | none =>
        obtain rfl : call = last := by simpa [rest] using isLast
        simp [isDone, Outcome.stops, Outcome.done, stays] at stops

/-- There is one way to hand over logical lines. -/
theorem Executes.unique {left : Nat} {path : String} {session : Session} {lines : List LogicalLine}
    {calls : List Call} {outcome : Outcome}
    (executes : Executes files left path session lines calls outcome) :
    calls = callsOfLines files left path session lines := by
  induction lines generalizing session calls outcome with
  | nil => exact List.map_eq_nil_iff.mp (List.prefix_nil.mp executes.taken)
  | cons line lines inductionHypothesis =>
    cases calls with
    | nil =>
      obtain none | ⟨_, isLast, _⟩ := executes.complete
      · cases none
      · cases isLast
    | cons call calls =>
      obtain ⟨sameLine, _⟩ := List.cons_prefix_cons.mp executes.taken
      obtain ⟨⟨samePath, sameLeft⟩, _⟩ := List.forall_mem_cons.mp executes.place
      have sameSession : call.session = session := executes.first call rfl
      obtain rfl : call = ⟨path, line, session, left⟩ := by
        rw [← samePath, ← sameLine, ← sameSession, ← sameLeft]
      rw [callsOfLines]
      cases stops : (Call.outcome files ⟨path, line, session, left⟩).stops with
      | true =>
        have whole : Executes files left path session (line :: lines)
            ([] ++ ⟨path, line, session, left⟩ :: calls) outcome := executes
        rw [whole.later_eq_nil stops, if_pos rfl]
      | false =>
        obtain ⟨next, isDone, stays⟩ := (Outcome.stops_eq_false_iff _).mp stops
        obtain ⟨_, rest⟩ := executes.tail isDone stays
        rw [inductionHypothesis rest, if_neg Bool.false_ne_true, isDone]
        rfl

/-- A file that can be read hands over its logical lines. -/
theorem Opens.ownCalls_eq {path text : String} (opens : Opens files path text) (left : Nat)
    (session : Session) : ownCalls files (left + 1) path session =
      callsOfLines files left path (session.withReporter (·.registerFile path))
        (logicalLines text) := by
  simp only [ownCalls, if_neg opens.1, opens.2]

/-- A line that is handed over by a file is one of a file that can be read. -/
theorem opens_of_mem_ownCalls {depth : Nat} {path : String} {session : Session} {call : Call}
    (member : call ∈ ownCalls files depth path session) :
    ∃ left text, depth = left + 1 ∧ Opens files path text := by
  cases depth with
  | zero => simp [ownCalls] at member
  | succ left =>
    rw [ownCalls] at member
    split at member
    · simp at member
    rename_i plain
    split at member
    · simp at member
    · exact ⟨left, _, rfl, plain, ‹_›⟩

/-- Statements that load no file hand over no lines. -/
theorem callsOfStatements_eq_nil (load : String → Session → Outcome)
    (callsOf : String → Session → List Call) (session : Session) {statements : List Statement}
    (plain : ∀ statement ∈ statements, ∀ path, statement.action ≠ .load path) :
    callsOfStatements load callsOf session statements = [] := by
  induction statements generalizing session with
  | nil => rfl
  | cons statement statements inductionHypothesis =>
    rw [List.forall_mem_cons] at plain
    rw [callsOfStatements]
    split
    · exact absurd ‹_› (plain.1 _)
    · rw [inductionHypothesis _ plain.2, List.nil_append, ite_self]

/-- A line has others executed inside only if it loads a file; then these are the lines that
    the file executes, and what comes of the line is what comes of the file. -/
theorem Call.inside_cases (files : Files) (call : Call) :
    ((∀ path, ¬ Asks call.line.text path) ∧ ∀ callsOf, call.inside files callsOf = []) ∨
    ∃ path, Asks call.line.text path ∧
      (∀ callsOf, call.inside files callsOf = callsOf path call.entered) ∧
      call.outcome files = (run files call.left path call.entered).andThen fun next => .done
        (next.withReporter (·.forgetLine
          (if call.path = "" then call.session.path else call.path))) := by
  by_cases asks : ∃ path, Asks call.line.text path
  · obtain ⟨path, isAsked⟩ := asks
    refine .inr ⟨path, isAsked, fun callsOf => ?_, Session.add_of_asks isAsked ..⟩
    obtain ⟨statements, parsed, statement, member, loads⟩ := isAsked
    obtain rfl := Statement.alone_of_load parsed member loads
    simp [inside, parsed, callsOfStatements, loads]
  · refine .inl ⟨fun path isAsked => asks ⟨path, isAsked⟩, fun callsOf => ?_⟩
    rw [inside]
    split
    · rfl
    · rename_i statements parsed
      refine callsOfStatements_eq_nil _ callsOf _ fun statement member path loads => asks ?_
      exact ⟨path, statements, parsed, statement, member, loads⟩

/-- What comes of a file that can be read is what comes of its lines, and then it leaves the
    trail. -/
theorem executes_ownCalls {path text : String} (opens : Opens files path text) (left : Nat)
    (session : Session) : ∃ outcome,
    Executes files left path (session.withReporter (·.registerFile path)) (logicalLines text)
      (ownCalls files (left + 1) path session) outcome ∧
    run files (left + 1) path session =
      outcome.andThen fun next => .done (next.withReporter (·.forgetFile path)) :=
  ⟨_, opens.ownCalls_eq left session ▸ executes_callsOfLines .., opens.run_eq left session⟩

/-- Below a line of a file, loads may nest less deep by one than for the file itself. -/
theorem left_of_mem_ownCalls {left : Nat} {path : String} {session : Session} {call : Call}
    (member : call ∈ ownCalls files (left + 1) path session) : call.left = left := by
  obtain ⟨_, text, _, opens⟩ := opens_of_mem_ownCalls member
  obtain ⟨_, executes, _⟩ := executes_ownCalls opens left session
  exact (executes.place call member).2

/-- A line of a file that stops is the last one, and the file ends like it. -/
theorem endsLike_of_ownCalls {left : Nat} {path : String} {session : Session}
    {earlier later : List Call} {call : Call}
    (split : ownCalls files (left + 1) path session = earlier ++ call :: later)
    (stops : (call.outcome files).stops = true) :
    later = [] ∧ (run files (left + 1) path session).EndsLike (call.outcome files) := by
  have member : call ∈ ownCalls files (left + 1) path session := by simp [split]
  obtain ⟨_, text, _, opens⟩ := opens_of_mem_ownCalls member
  obtain ⟨outcome, executes, runs⟩ := executes_ownCalls opens left session
  rw [split] at executes
  obtain rfl := executes.later_eq_nil stops
  refine ⟨rfl, ?_⟩
  have isLast := executes.outcome
  rw [List.getLast?_concat, Option.elim] at isLast
  rw [runs, isLast]
  exact Outcome.endsLike_withReporter _ _

/-- A line that stops stops all files that are being executed: each of them ends like it. -/
theorem endsLike_of_allCalls {depth : Nat} {path : String} {session : Session} {call : Call}
    (member : call ∈ allCalls files depth path session)
    (stops : (call.outcome files).stops = true) :
    (run files depth path session).EndsLike (call.outcome files) := by
  induction depth generalizing path session with
  | zero => simp [allCalls] at member
  | succ left inductionHypothesis =>
    obtain ⟨own, ownMember, among⟩ := List.mem_flatMap.mp member
    have ends : (own.outcome files).EndsLike (call.outcome files) := by
      obtain rfl | inside := List.mem_cons.mp among
      · exact ⟨rfl, rfl⟩
      · obtain ⟨_, nothing⟩ | ⟨inner, _, isInside, outcome⟩ := Call.inside_cases files own
        · simp [nothing] at inside
        · rw [isInside] at inside
          rw [outcome, left_of_mem_ownCalls ownMember]
          exact (Outcome.endsLike_withReporter _ _).trans (inductionHypothesis inside)
    obtain ⟨earlier, later, split⟩ := List.append_of_mem ownMember
    exact (endsLike_of_ownCalls split (ends.stops_eq.trans stops)).2.trans ends

/-- An element of joined lists comes from one of the lists. -/
theorem exists_of_flatMap_eq {α β : Type} {f : α → List β} {list : List α}
    {earlier later : List β} {item : β}
    (split : list.flatMap f = earlier ++ item :: later) :
    ∃ before source after front back, list = before ++ source :: after ∧
      f source = front ++ item :: back ∧ later = back ++ after.flatMap f := by
  induction list generalizing earlier with
  | nil => simp at split
  | cons first list inductionHypothesis =>
    rw [List.flatMap_cons] at split
    have ofRest {earlier : List β} (rest : list.flatMap f = earlier ++ item :: later) :
        ∃ before source after front back, first :: list = before ++ source :: after ∧
          f source = front ++ item :: back ∧ later = back ++ after.flatMap f := by
      obtain ⟨before, source, after, front, back, rfl, whole, isLater⟩ := inductionHypothesis rest
      exact ⟨first :: before, source, after, front, back, rfl, whole, isLater⟩
    obtain ⟨_, rfl, rest⟩ | ⟨more, whole, rest⟩ := List.append_eq_append_iff.mp split
    · exact ofRest rest
    · obtain ⟨rfl, rest⟩ | ⟨others, rfl, rest⟩ := List.cons_eq_append_iff.mp rest
      · exact ofRest (rest.symm.trans (List.nil_append _).symm)
      · exact ⟨[], first, list, earlier, others, rfl, whole, (List.cons.inj rest).2⟩

/-- After a line that stops, only the lines are executed that it has executed itself. The line of
    the file to which it belongs stops as well, so none comes after that one. -/
theorem later_of_stops {depth : Nat} {path : String} {session : Session} {earlier later : List Call}
    {call : Call} (split : allCalls files depth path session = earlier ++ call :: later)
    (stops : (call.outcome files).stops = true) :
    later = call.inside files (allCalls files call.left) := by
  induction depth generalizing path session earlier later with
  | zero => simp [allCalls] at split
  | succ left inductionHypothesis =>
    obtain ⟨before, own, after, front, back, isOwn, whole, rfl⟩ := exists_of_flatMap_eq split
    have sameLeft : own.left = left :=
      left_of_mem_ownCalls (isOwn ▸ List.mem_append_right _ List.mem_cons_self)
    have isLast (ends : (own.outcome files).EndsLike (call.outcome files)) : after = [] :=
      (endsLike_of_ownCalls isOwn (ends.stops_eq.trans stops)).1
    obtain ⟨rfl, isCall⟩ | ⟨others, rfl, inside⟩ := List.cons_eq_append_iff.mp whole
    · obtain ⟨rfl, rfl⟩ := List.cons.inj isCall
      rw [isLast ⟨rfl, rfl⟩, List.flatMap_nil, List.append_nil, sameLeft]
    · obtain ⟨_, nothing⟩ | ⟨inner, _, isInside, outcome⟩ := Call.inside_cases files own
      · simp [nothing] at inside
      · rw [isInside] at inside
        have ends : (own.outcome files).EndsLike (call.outcome files) := by
          rw [outcome, sameLeft]
          refine (Outcome.endsLike_withReporter _ _).trans (endsLike_of_allCalls ?_ stops)
          exact inside ▸ List.mem_append_right _ List.mem_cons_self
        rw [isLast ends, List.flatMap_nil, List.append_nil]
        exact inductionHypothesis inside

/-- A file that was taken off the trail is not on it. -/
theorem not_mem_keys_erase (trail : Trail) (path : String) : path ∉ (trail.erase path).keys := by
  rw [OrderedMap.erase_eq_without, OrderedMap.keys_without]
  simp

/-- There is one way to take the physical lines of a file in groups that are as short as they
    can be without leaving a parenthesis open; only the last group may leave one open. The file
    executes one logical line for each group, in order, with the text of the group and the
    number of its first line, up to the first that fails or leaves the session, and there is
    no other way to execute them so. After the line that is the last, nothing is executed but
    what it has executed itself. A file that does not fail is not on the trail any more. -/
theorem file_executes_logical_lines {path text : String}
    (opens : Opens files path text) (depth : Nat)
    (session : Session) :
    ∃ groups, (∀ others, Grouping (Lines.ofFile text) others ↔ others = groups) ∧
      groups.flatten = Lines.ofFile text ∧
      (∃ outcome, Executes files depth path (session.withReporter (·.registerFile path))
          (numbered 1 groups) (ownCalls files (depth + 1) path session) outcome ∧
        run files (depth + 1) path session =
          outcome.andThen fun next => .done (next.withReporter (·.forgetFile path))) ∧
      (∀ others outcome, Executes files depth path (session.withReporter (·.registerFile path))
          (numbered 1 groups) others outcome → others = ownCalls files (depth + 1) path session) ∧
      (∀ earlier call later, allCalls files (depth + 1) path session = earlier ++ call :: later →
        (call.outcome files).stops = true → later = call.inside files (allCalls files call.left)) ∧
      ∀ final, run files (depth + 1) path session = .done final →
        path ∉ final.reporter.trail.keys := by
  obtain ⟨groups, grouping⟩ := exists_grouping (Lines.ofFile text)
  have lines : logicalLines text = numbered 1 groups := grouping.groupFrom_eq 1
  refine ⟨groups, fun others => ⟨fun other => other.unique grouping, ?_⟩,
    grouping.flatten_eq, ?_, ?_,
    fun earlier call later split stops => later_of_stops split stops, fun final ends => ?_⟩
  · rintro rfl
    exact grouping
  · rw [← lines]
    exact executes_ownCalls opens depth session
  · intro others outcome executes
    rw [opens.ownCalls_eq, lines]
    exact executes.unique
  · rw [opens.run_eq] at ends
    obtain ⟨next, _, forgets⟩ := Outcome.andThen_eq_done ends
    cases forgets
    exact not_mem_keys_erase next.reporter.trail path

/-- Two files, the first of which loads the second, which leaves the session. -/
def exitingInside : Files := fun path =>
  if path = "a.lc" then some "x = y\n(x # first\n\n x)\n:load \"b.lc\"\nz"
  else if path = "b.lc" then some ":exit\nz" else none

/-- Of the first file, three logical lines are executed, the second of which has three physical
    lines. After the exit nothing is executed. -/
theorem file_executes_logical_lines_until_exit :
    let session : Session := ⟨"a.lc", .empty, 10, .normal, [], false, .create true false⟩
    (allCalls exitingInside 2 "a.lc" session).map (fun call => (call.path, call.line)) =
      [("a.lc", ⟨"x = y", 1⟩), ("a.lc", ⟨"(x x)", 2⟩), ("a.lc", ⟨":load \"b.lc\"", 5⟩),
        ("b.lc", ⟨":exit", 1⟩)] ∧
    ∃ groups, Grouping ["x = y", "(x # first", "", " x)", ":load \"b.lc\"", "z"] groups ∧
      (ownCalls exitingInside 2 "a.lc" session).map Call.line <+: numbered 1 groups := by
  intro session
  have opens : Opens exitingInside "a.lc" _ := ⟨by decide, rfl⟩
  have lines : Lines.ofFile "x = y\n(x # first\n\n x)\n:load \"b.lc\"\nz" =
      ["x = y", "(x # first", "", " x)", ":load \"b.lc\"", "z"] := by decide +kernel
  obtain ⟨groups, isGrouping, _, ⟨_, executes, _⟩, _⟩ := file_executes_logical_lines opens 1 session
  refine ⟨?_, groups, ?_, executes.taken⟩
  · decide +kernel
  · rw [← lines]
    exact (isGrouping groups).mpr rfl

end Script

end UntypedLambda
