import UntypedLambda.Proofs.StatementReading

/-!
# Reading stops at the first token that cannot be right

What stands before a refused token is the beginning of something that is accepted: whatever has been
begun can be completed with a few tokens, groups from within outwards. And nothing that goes on with
the refused token is accepted, whatever comes after it, since reading looks at one token before it
decides to go on. A row of tokens is refused at its end if more of them are needed.

Terms and commands are read as beginnings of a line. Both stop with a result in
front of a token that they do not take, and that decision does not depend on what
comes after this token either.
-/

namespace UntypedLambda

/-- Tokens that are enough to complete whatever has been begun. -/
inductive Stopgap : Token → Prop where
  | operand : Stopgap ⟨.name, ['x'], 0⟩
  | equals : Stopgap ⟨.equals, ['='], 0⟩
  | dot : Stopgap ⟨.dot, ['.'], 0⟩
  | closing : Stopgap ⟨.closing, [')'], 0⟩
  | command : Stopgap ⟨.name, ['e', 'x', 'i', 't'], 0⟩
  | path : Stopgap ⟨.string, ['"', '"'], 0⟩

/-- Reading accepts some tokens as a whole. -/
def Accepts {α : Type} (read : List Token → Except Misfit α) (tokens : List Token) : Prop :=
  ∃ value, read tokens = .ok value

/-- Tokens that can be completed to ones that are accepted. -/
def Completable {α : Type} (read : List Token → Except Misfit α) (tokens : List Token) : Prop :=
  ∃ more, (∀ token ∈ more, Stopgap token) ∧ Accepts read (tokens ++ more)

/-- Reading blames the first token that cannot be right: what is before it can be completed, and
    what goes on with it is not accepted. If nothing is left, what is there is not accepted as it
    is. -/
structure StopsAt {α : Type} (read : List Token → Except Misfit α) (before rest : List Token)
    (misfit : Misfit) : Prop where
  token : misfit.token = rest.head?
  completable : Completable read before
  refused : ∀ others, others.head? = rest.head? → ¬ Accepts read (before ++ others)

/-- Two ways of reading blame the same token if they accept the same continuations, as far as these
    are accepted by one of them or go on with that token. -/
theorem StopsAt.of_accepts_iff {α β : Type} {read : List Token → Except Misfit α}
    {whole : List Token → Except Misfit β} {before after rest : List Token} {misfit : Misfit}
    (stopsAt : StopsAt read before rest misfit)
    (same : ∀ others, Accepts read (before ++ others) ∨ others.head? = rest.head? →
      (Accepts whole (after ++ others) ↔ Accepts read (before ++ others))) :
    StopsAt whole after rest misfit where
  token := stopsAt.token
  completable := by
    obtain ⟨more, stopgaps, accepted⟩ := stopsAt.completable
    exact ⟨more, stopgaps, (same more (.inl accepted)).mpr accepted⟩
  refused others sameHead accepted :=
    stopsAt.refused others sameHead ((same others (.inr sameHead)).mp accepted)

/-- Tokens with which something that is accepted begins are not to blame. -/
theorem StopsAt.exists_eq_append {α : Type} {read : List Token → Except Misfit α}
    {before rest opening body others : List Token} {misfit : Misfit}
    (stopsAt : StopsAt read before rest misfit) (same : opening ++ body = before ++ rest)
    (accepted : Accepts read (opening ++ others)) : ∃ used, before = opening ++ used := by
  rcases List.append_eq_append_iff.mp same with ⟨used, isBefore, _⟩ | ⟨left, rfl, isRest⟩
  · exact ⟨used, isBefore⟩
  · cases left with
    | nil => exact ⟨[], by simp⟩
    | cons first left =>
      rw [List.append_assoc] at accepted
      exact absurd accepted (stopsAt.refused _ (by rw [isRest]; rfl))

/-- Reading the beginning of a line by looking at one token at a time. What is read ends in front
    of a token that it does not take, or at the end of the line. -/
structure LooksAhead {α : Type} (read : List Token → Except Misfit (α × List Token)) : Prop where
  accepts {tokens rest : List Token} {value : α} (success : read tokens = .ok (value, rest)) :
    ∃ used, tokens = used ++ rest ∧
      ∀ others, others = [] ∨ others.head? = rest.head? →
        read (used ++ others) = .ok (value, others)
  refuses {tokens : List Token} {misfit : Misfit} (failure : read tokens = .error misfit) :
    ∃ before rest, tokens = before ++ rest ∧ misfit.token = rest.head? ∧
      Completable (Statement.toEnd read) before ∧
      ∀ others, others.head? = rest.head? → ∃ problem, read (before ++ others) = .error problem

namespace Statement

/-- A line is accepted as a whole if reading its beginning leaves nothing. -/
theorem accepts_toEnd_iff {α : Type} (read : List Token → Except Misfit (α × List Token))
    (tokens : List Token) : Accepts (toEnd read) tokens ↔ ∃ value, read tokens = .ok (value, []) :=
  exists_congr fun _ => toEnd_eq_ok_iff read tokens _

/-- Doing something with the result of reading changes nothing about what is accepted. -/
theorem accepts_iff_of_map {α β : Type} {read : List Token → Except Misfit α}
    {whole : List Token → Except Misfit β} {tokens others : List Token} {change : α → β}
    (same : whole others = (read tokens).map change) :
    Accepts whole others ↔ Accepts read tokens := by
  cases outcome : read tokens with
  | error misfit => simp [Accepts, same, outcome, Except.map]
  | ok value => simp [Accepts, same, outcome, Except.map]

/-- Doing something with the result of reading changes nothing about what is refused. -/
theorem error_of_map {α β : Type} {outcome : Except Misfit α} {change : α → β} {misfit : Misfit}
    (failure : outcome.map change = .error misfit) : outcome = .error misfit := by
  cases outcome with
  | error problem => exact congrArg Except.error (Except.error.inj failure)
  | ok value => cases failure

/-- What is left over at the end is blamed as well as what stops reading before. -/
theorem stopsAt_toEnd {α : Type} {read : List Token → Except Misfit (α × List Token)}
    (ahead : LooksAhead read) {tokens : List Token} {misfit : Misfit}
    (failure : toEnd read tokens = .error misfit) :
    ∃ before rest, tokens = before ++ rest ∧ StopsAt (toEnd read) before rest misfit := by
  cases outcome : read tokens with
  | error problem =>
    rw [toEnd, outcome] at failure
    obtain rfl : problem = misfit := Except.error.inj failure
    obtain ⟨before, rest, rfl, token, completable, refused⟩ := ahead.refuses outcome
    refine ⟨before, rest, rfl, token, completable, ?_⟩
    intro others sameHead accepted
    obtain ⟨value, success⟩ := (accepts_toEnd_iff read _).mp accepted
    obtain ⟨problem, failure⟩ := refused others sameHead
    simp [success] at failure
  | ok result =>
    obtain ⟨value, rest⟩ := result
    obtain ⟨used, rfl, stops⟩ := ahead.accepts outcome
    rw [toEnd, outcome] at failure
    cases rest with
    | nil => cases failure
    | cons token rest =>
      obtain rfl : Misfit.unmet (token :: rest) .lineEnd = misfit := Except.error.inj failure
      refine ⟨used, token :: rest, rfl, rfl, ⟨[], by simp, ?_⟩, ?_⟩
      · exact (accepts_toEnd_iff read _).mpr ⟨value, stops [] (.inl rfl)⟩
      · intro others sameHead accepted
        obtain ⟨other, success⟩ := (accepts_toEnd_iff read _).mp accepted
        rw [stops others (.inr sameHead)] at success
        obtain rfl : others = [] := (Prod.mk.inj (Except.ok.inj success)).2
        cases sameHead

end Statement

namespace Term

/-- Reading goes on up to the first token that it does not take. -/
theorem exists_after (reading : Reading) (tokens : List Token) :
    ∃ used rest last, tokens = used ++ rest ∧ reading.after used = some last ∧
      ∀ token ∈ rest.head?, last.advance token = none := by
  induction tokens generalizing reading with
  | nil => exact ⟨[], [], reading, rfl, rfl, by simp⟩
  | cons token tokens inductionHypothesis =>
    cases advances : reading.advance token with
    | none => exact ⟨[], token :: tokens, reading, rfl, rfl, by simpa using advances⟩
    | some next =>
      obtain ⟨used, rest, last, rfl, reads, refused⟩ := inductionHypothesis next
      refine ⟨token :: used, rest, last, rfl, ?_, refused⟩
      rw [Reading.after_cons used
        ((Reading.advance_eq_some_iff reading next token).mp advances), reads]

/-- Whether a term can be completed from some point on. -/
def Reading.Closable (reading : Reading) : Prop :=
  ∃ more, (∀ token ∈ more, Stopgap token) ∧ ∃ whole, readFrom reading more = .ok (whole, [])

/-- If a term can be completed from the next point on, it can be completed. -/
theorem Reading.Closable.of_next {reading next : Reading} {token : Token} (closable : next.Closable)
    (step : Reading.Next token reading next) (stopgap : Stopgap token) : reading.Closable := by
  obtain ⟨more, stopgaps, whole, reads⟩ := closable
  refine ⟨token :: more, List.forall_mem_cons.mpr ⟨stopgap, stopgaps⟩, whole, ?_⟩
  rw [readFrom, (Reading.advance_eq_some_iff reading next token).mpr step]
  exact reads

/-- Whatever groups are open around a row of operands, closing them completes the term. The
    induction is on what surrounds the row: each closing parenthesis leads to the context around
    one group. -/
theorem Reading.Completes.closable {context : Context} {term : Term} {reading : Reading}
    (completes : reading.Completes context term) : reading.Closable := by
  induction context generalizing term reading with
  | top =>
    obtain ⟨inner, row, rfl, complete⟩ := completes
    refine ⟨[], by simp, term, ?_⟩
    rw [readFrom, stop_eq_ok_iff, Reading.conclude, complete]
    exact ⟨rfl, rfl⟩
  | group outer function column inductionHypothesis =>
    obtain ⟨inner, row, rfl, complete⟩ := completes
    have opened : (inner.complete row).2 = some ⟨outer, function, column⟩ := by
      rw [complete]
      rfl
    exact (inductionHypothesis ⟨outer, _, rfl, rfl⟩).of_next (.closing rfl opened) .closing
  | binder outer function params inductionHypothesis =>
    obtain ⟨inner, row, rfl, complete⟩ := completes
    exact inductionHypothesis ⟨inner, row, rfl, complete⟩

/-- From every point on a term can be completed. -/
theorem Reading.closable (reading : Reading) : reading.Closable := by
  have operand (context : Context) (function : Option Term) : (operand context function).Closable :=
    (Reading.Completes.closable ⟨context, _, rfl, rfl⟩).of_next (.name rfl) .operand
  cases reading with
  | operand context function => exact operand context function
  | parameters context function params =>
    have body (params : List Name) (some : params ≠ []) :
        (parameters context function params).Closable :=
      (operand _ none).of_next (.dot rfl some) .dot
    exact (body (params ++ ["x"]) (by simp)).of_next (.parameter rfl) .operand

/-- Terms are read by looking at one token at a time. -/
theorem looksAhead : LooksAhead read where
  accepts {tokens rest term} success := by
    obtain ⟨used, others, last, rfl, reads, refused⟩ := exists_after .start tokens
    rw [read, readFrom_of_refused reads refused, stop_eq_ok_iff] at success
    obtain ⟨concludes, rfl⟩ := success
    refine ⟨used, rfl, fun others condition => ?_⟩
    have refusedToo : ∀ token ∈ others.head?, last.advance token = none := by
      rcases condition with rfl | sameHead
      · simp
      · rwa [sameHead]
    rw [read, readFrom_of_refused reads refusedToo, stop_eq_ok_iff]
    exact ⟨concludes, rfl⟩
  refuses {tokens misfit} failure := by
    obtain ⟨used, rest, last, rfl, reads, refused⟩ := exists_after .start tokens
    rw [read, readFrom_of_refused reads refused] at failure
    obtain ⟨more, stopgaps, whole, closes⟩ := last.closable
    cases concludes : last.conclude with
    | ok term =>
      rw [(stop_eq_ok_iff last rest rest term).mpr ⟨concludes, rfl⟩] at failure
      cases failure
    | error what =>
      have stopped (tokens : List Token) : stop last tokens = .error (.unmet tokens what) := by
        rw [stop, concludes]
      rw [stopped] at failure
      refine ⟨used, rest, rfl, ?_, ⟨more, stopgaps, ?_⟩, fun others sameHead => ?_⟩
      · rw [← Except.error.inj failure]
        rfl
      · refine (Statement.accepts_toEnd_iff read _).mpr ⟨whole, ?_⟩
        rw [read, readFrom_append used more reads, closes]
      · refine ⟨.unmet others what, ?_⟩
        rw [read, readFrom_of_refused reads (sameHead ▸ refused), stopped]

end Term

namespace Statement

/-- Reading nothing takes no token. -/
theorem looksAhead_of_nothing {α : Type}
    {read : List Token → Except Misfit (α × List Token)} {value : α}
    (always : ∀ tokens, read tokens = .ok (value, tokens)) : LooksAhead read where
  accepts {tokens rest other} success := by
    rw [always tokens] at success
    cases success
    exact ⟨[], rfl, fun others _ => always others⟩
  refuses {tokens misfit} failure := by
    rw [always tokens] at failure
    cases failure

section Argument

variable {α : Type} {read : List Token → Except Misfit (α × List Token)} (kind : TokenKind)
  (value : Token → α)

/-- Reading one token of a kind, if it is there. -/
theorem looksAhead_of_optional (default : α)
    (given : ∀ token rest, token.kind = kind → read (token :: rest) = .ok (value token, rest))
    (missing : ∀ tokens, (∀ token ∈ tokens.head?, token.kind ≠ kind) →
      read tokens = .ok (default, tokens)) :
    LooksAhead read where
  accepts {tokens rest other} success := by
    rcases head?_cases kind tokens with ⟨token, others, rfl, same⟩ | none
    · rw [given token others same] at success
      cases success
      exact ⟨[token], rfl, fun others _ => given token others same⟩
    · rw [missing tokens none] at success
      cases success
      refine ⟨[], rfl, fun others condition => missing others ?_⟩
      rcases condition with rfl | sameHead
      · simp
      · rwa [sameHead]
  refuses {tokens misfit} failure := by
    rcases head?_cases kind tokens with ⟨token, others, rfl, same⟩ | none
    · rw [given token others same] at failure
      cases failure
    · rw [missing tokens none] at failure
      cases failure

/-- Reading one token of a kind, which has to be there. -/
theorem looksAhead_of_required (what : Expectation) {filler : Token} (stopgap : Stopgap filler)
    (fits : filler.kind = kind)
    (given : ∀ token rest, token.kind = kind → read (token :: rest) = .ok (value token, rest))
    (missing : ∀ tokens, (∀ token ∈ tokens.head?, token.kind ≠ kind) →
      read tokens = .error (.unmet tokens what)) :
    LooksAhead read where
  accepts {tokens rest other} success := by
    rcases head?_cases kind tokens with ⟨token, others, rfl, same⟩ | none
    · rw [given token others same] at success
      cases success
      exact ⟨[token], rfl, fun others _ => given token others same⟩
    · rw [missing tokens none] at success
      cases success
  refuses {tokens misfit} failure := by
    rcases head?_cases kind tokens with ⟨token, others, rfl, same⟩ | none
    · rw [given token others same] at failure
      cases failure
    · rw [missing tokens none] at failure
      cases failure
      have completed : Accepts (toEnd read) [filler] :=
        (accepts_toEnd_iff _ _).mpr ⟨_, given filler [] fits⟩
      refine ⟨[], tokens, rfl, rfl, ⟨[filler], by simpa using stopgap, completed⟩, ?_⟩
      exact fun others sameHead => ⟨_, missing others (sameHead ▸ none)⟩

end Argument

/-- A command begins with a name. -/
theorem readCommand_of_no_name {tokens : List Token}
    (noName : ∀ token ∈ tokens.head?, token.kind ≠ .name) :
    readCommand tokens = .error (.unmet tokens .commandName) := by
  cases tokens with
  | nil => rfl
  | cons token rest =>
    unfold readCommand
    exact if_pos (noName token rfl)

/-- What follows the name of a command is read by looking at one token at a time, unless there is no
    such command. -/
theorem readCommand_cases {word : Token} (named : word.kind = .name) :
    LooksAhead (fun tokens => readCommand (word :: tokens)) ∨
      ∀ tokens, readCommand (word :: tokens) = .error ⟨some word, .unknownCommand⟩ := by
  by_cases exit : word.content = "exit"
  · exact .inl (looksAhead_of_nothing fun tokens => by simp [readCommand, named, exit]; rfl)
  by_cases binds : word.content = "binds"
  · exact .inl (looksAhead_of_nothing fun tokens => by simp [readCommand, named, binds]; rfl)
  by_cases limit : word.content = "limit"
  · refine .inl (looksAhead_of_optional .number
      (fun digits => .limit (some (Decimal.read digits.text)))
      (.limit none) ?_ ?_)
    · rintro ⟨_, text, start⟩ rest rfl
      simp [readCommand, named, limit]
    · intro tokens noNumber
      unfold readCommand
      dsimp only
      rw [if_neg (not_not_intro named), if_neg exit, if_neg binds, if_pos limit]
      split
      · simp at noNumber
      · rfl
  by_cases strategy : word.content = "strategy"
  · refine .inl (looksAhead_of_optional .name (fun name => .strategy (some name.content))
      (.strategy none) ?_ ?_)
    · rintro ⟨_, text, start⟩ rest rfl
      simp [readCommand, named, strategy]
      rfl
    · intro tokens noName
      unfold readCommand
      dsimp only
      rw [if_neg (not_not_intro named), if_neg exit, if_neg binds, if_neg limit, if_pos strategy]
      split
      · simp at noName
      · rfl
  by_cases load : word.content = "load"
  · refine .inl (looksAhead_of_required .string
      (fun path => .load (String.ofList (path.text.drop 1).dropLast)) .path .path rfl ?_ ?_)
    · rintro ⟨_, text, start⟩ rest rfl
      simp [readCommand, named, load]
    · intro tokens noPath
      unfold readCommand
      dsimp only
      rw [if_neg (not_not_intro named), if_neg exit, if_neg binds, if_neg limit,
        if_neg strategy, if_pos load]
      split
      · simp at noPath
      · rfl
  · refine .inr fun tokens => ?_
    simp [readCommand, named, exit, binds, limit, strategy, load]

/-- Commands are read by looking at one token at a time. -/
theorem looksAhead_readCommand : LooksAhead readCommand where
  accepts {tokens rest action} success := by
    obtain ⟨word, others, rfl, named⟩ :
        ∃ word others, tokens = word :: others ∧ word.kind = .name := by
      rcases head?_cases .name tokens with found | noName
      · exact found
      · rw [readCommand_of_no_name noName] at success
        cases success
    rcases readCommand_cases named with ahead | unknown
    · obtain ⟨used, rfl, stops⟩ := ahead.accepts success
      exact ⟨word :: used, rfl, stops⟩
    · rw [unknown others] at success
      cases success
  refuses {tokens misfit} failure := by
    have exits : Completable (toEnd readCommand) [] :=
      ⟨_, List.forall_mem_singleton.mpr .command, .exit, rfl⟩
    rcases head?_cases .name tokens with ⟨word, others, rfl, named⟩ | noName
    · rcases readCommand_cases named with ahead | unknown
      · obtain ⟨before, rest, rfl, token, completable, refused⟩ := ahead.refuses failure
        exact ⟨word :: before, rest, rfl, token, completable, refused⟩
      · rw [unknown others] at failure
        cases failure
        refine ⟨[], word :: others, rfl, rfl, exits, ?_⟩
        intro tokens sameHead
        obtain ⟨rest, rfl⟩ : ∃ rest, tokens = word :: rest := List.head?_eq_some_iff.mp sameHead
        exact ⟨_, unknown rest⟩
    · rw [readCommand_of_no_name noName] at failure
      cases failure
      refine ⟨[], tokens, rfl, rfl, exits, ?_⟩
      exact fun others sameHead => ⟨_, readCommand_of_no_name (sameHead ▸ noName)⟩

/-- A single binding up to the end of the line is accepted. -/
theorem accepts_binding {name equals : Token} {body : List Token} {term : Term}
    (named : name.kind = .name)
    (isEquals : equals.kind = .equals) (reads : Term.read body = .ok (term, [])) :
    Accepts readBindings (name :: equals :: body) := by
  rw [Accepts, readBindings_cons named isEquals, reads]
  exact ⟨_, rfl⟩

/-- Bindings that do not begin with a name are refused at once. -/
theorem stopsAt_of_no_name {tokens : List Token}
    (noName : ∀ token ∈ tokens.head?, token.kind ≠ .name) :
    StopsAt readBindings [] tokens (.unmet tokens .name) where
  token := rfl
  completable := by
    refine ⟨[⟨.name, ['x'], 0⟩, ⟨.equals, ['='], 0⟩, ⟨.name, ['x'], 0⟩], ?_,
      accepts_binding rfl rfl rfl⟩
    simp [Stopgap.operand, Stopgap.equals]
  refused others sameHead accepted := by
    obtain ⟨results, success⟩ := accepted
    rw [List.nil_append, readBindings_of_no_name (sameHead ▸ noName)] at success
    cases success

/-- A name without an equals sign after it is refused there. -/
theorem stopsAt_of_no_equals {name : Token} {tokens : List Token} (named : name.kind = .name)
    (noEquals : ∀ token ∈ tokens.head?, token.kind ≠ .equals) :
    StopsAt readBindings [name] tokens (.unmet tokens .equals) where
  token := rfl
  completable := by
    refine ⟨[⟨.equals, ['='], 0⟩, ⟨.name, ['x'], 0⟩], ?_, accepts_binding named rfl rfl⟩
    simp [Stopgap.operand, Stopgap.equals]
  refused others sameHead accepted := by
    obtain ⟨results, success⟩ := accepted
    rw [List.singleton_append, readBindings_of_no_equals named (sameHead ▸ noEquals)] at success
    cases success

section Binding

variable {name equals : Token} (named : name.kind = .name) (isEquals : equals.kind = .equals)

include named isEquals

/-- A binding whose term cannot be read is refused where the term is. -/
theorem stopsAt_of_term {body : List Token} {misfit : Misfit}
    (failure : Term.read body = .error misfit) :
    ∃ before rest, body = before ++ rest ∧
      StopsAt readBindings (name :: equals :: before) rest misfit := by
  obtain ⟨before, rest, rfl, token, ⟨more, stopgaps, accepted⟩, refused⟩ :=
    Term.looksAhead.refuses failure
  obtain ⟨term, completes⟩ := (accepts_toEnd_iff _ _).mp accepted
  refine ⟨before, rest, rfl, token, ⟨more, stopgaps, accepts_binding named isEquals completes⟩, ?_⟩
  rintro others sameHead ⟨results, success⟩
  obtain ⟨problem, fails⟩ := refused others sameHead
  rw [List.cons_append, List.cons_append, readBindings_cons named isEquals, fails] at success
  cases success

variable {used : List Token} {separator : Token} {term : Term}
  (stops : ∀ others, others = [] ∨ others.head? = some separator →
    Term.read (used ++ others) = .ok (term, others))

include stops

/-- How bindings go on after one depends on the token after it, but on nothing later. -/
theorem readBindings_eq_continueBindings (others : List Token) :
    readBindings (name :: equals :: used ++ separator :: others) =
      continueBindings (.bind name.content term, name :: equals :: used) (separator :: others) :=
  readBindings_of_read named isEquals (stops (separator :: others) (.inr rfl))

/-- A binding that another token than a semicolon follows is refused there. -/
theorem stopsAt_of_no_semicolon (others : List Token) (noSemicolon : separator.kind ≠ .semicolon) :
    StopsAt readBindings (name :: equals :: used) (separator :: others)
      (.unmet (separator :: others) .lineEnd) where
  token := rfl
  completable := ⟨[], by simp, accepts_binding named isEquals (stops [] (.inl rfl))⟩
  refused more sameHead accepted := by
    obtain ⟨later, rfl⟩ : ∃ later, more = separator :: later := List.head?_eq_some_iff.mp sameHead
    obtain ⟨results, success⟩ := accepted
    rw [readBindings_eq_continueBindings named isEquals stops, continueBindings,
      if_pos noSemicolon] at success
    cases success

/-- After a semicolon, some tokens are accepted exactly if they are bindings themselves. -/
theorem accepts_after_semicolon (separates : separator.kind = .semicolon) {others : List Token}
    (nonempty : others ≠ []) :
    Accepts readBindings (name :: equals :: used ++ separator :: others) ↔
    Accepts readBindings others := by
  rw [Accepts, readBindings_eq_continueBindings named isEquals stops, continueBindings,
    if_neg (not_not_intro separates), if_neg nonempty]
  cases outcome : readBindings others with
  | error misfit => simp [Accepts, outcome, Except.map]
  | ok results => simp [Accepts, outcome, Except.map]

/-- Bindings after a semicolon are refused where they are refused on their own. -/
theorem stopsAt_after_semicolon (separates : separator.kind = .semicolon) {before rest : List Token}
    {misfit : Misfit} (nonempty : before ++ rest ≠ [])
    (later : StopsAt readBindings before rest misfit) :
    StopsAt readBindings (name :: equals :: used ++ separator :: before) rest misfit := by
  refine later.of_accepts_iff fun others condition => ?_
  have some : before ++ others ≠ [] := by
    intro none
    rcases condition with ⟨results, success⟩ | sameHead
    · obtain ⟨name, equals, body, _, _, isCons, _⟩ := exists_of_readBindings success
      simp [none] at isCons
    · obtain ⟨rfl, rfl⟩ := List.append_eq_nil_iff.mp none
      exact nonempty (List.head?_eq_none_iff.mp sameHead.symm)
  rw [List.append_assoc, List.cons_append]
  exact accepts_after_semicolon named isEquals stops separates some

/-- If bindings that begin with one that can be read are refused, then at the token after it or
    where the bindings after a semicolon are refused. -/
theorem stopsAt_after_binding {others : List Token} {misfit : Misfit}
    (failure : readBindings (name :: equals :: used ++ separator :: others) = .error misfit)
    (later : readBindings others = .error misfit →
      ∃ before rest, others = before ++ rest ∧ StopsAt readBindings before rest misfit) :
    ∃ before rest, name :: equals :: used ++ separator :: others = before ++ rest ∧
      StopsAt readBindings before rest misfit := by
  rw [readBindings_eq_continueBindings named isEquals stops, continueBindings] at failure
  by_cases separates : separator.kind = .semicolon
  · rw [if_neg (not_not_intro separates)] at failure
    by_cases nonempty : others = []
    · rw [if_pos nonempty] at failure
      cases failure
    · rw [if_neg nonempty] at failure
      obtain ⟨before, rest, rfl, stopsAt⟩ := later (error_of_map failure)
      exact ⟨name :: equals :: used ++ separator :: before, rest, by simp,
        stopsAt_after_semicolon named isEquals stops separates nonempty stopsAt⟩
  · rw [if_pos separates] at failure
    cases failure
    exact ⟨_, _, rfl, stopsAt_of_no_semicolon named isEquals stops others separates⟩

end Binding

/-- Bindings are refused at the first token that cannot be right. The induction is on the number of
    tokens, as those after a semicolon are bindings again. -/
theorem stopsAt_readBindings {tokens : List Token} {misfit : Misfit}
    (failure : readBindings tokens = .error misfit) :
    ∃ before rest, tokens = before ++ rest ∧ StopsAt readBindings before rest misfit := by
  induction sized : tokens.length using Nat.strongRecOn generalizing tokens misfit with
  | ind size shorter =>
    rcases head?_cases .name tokens with ⟨name, others, rfl, named⟩ | noName
    · rcases head?_cases .equals others with ⟨equals, body, rfl, isEquals⟩ | noEquals
      · cases reads : Term.read body with
        | error problem =>
          rw [readBindings_cons named isEquals, reads] at failure
          obtain rfl : problem = misfit := Except.error.inj failure
          obtain ⟨before, rest, rfl, stopsAt⟩ := stopsAt_of_term named isEquals reads
          exact ⟨name :: equals :: before, rest, rfl, stopsAt⟩
        | ok result =>
          obtain ⟨term, rest⟩ := result
          obtain ⟨used, rfl, stops⟩ := Term.looksAhead.accepts reads
          cases rest with
          | nil =>
            rw [readBindings_cons named isEquals, reads] at failure
            cases failure
          | cons separator others =>
            have fewer : others.length < size := by
              rw [← sized]
              simp only [List.length_cons, List.length_append]
              omega
            exact stopsAt_after_binding named isEquals stops failure fun refused =>
              shorter _ fewer refused rfl
      · rw [readBindings_of_no_equals named noEquals] at failure
        exact ⟨[name], others, rfl, Except.error.inj failure ▸ stopsAt_of_no_equals named noEquals⟩
    · rw [readBindings_of_no_name noName] at failure
      exact ⟨[], tokens, rfl, Except.error.inj failure ▸ stopsAt_of_no_name noName⟩

/-- What follows a colon is refused where it is refused as a command. -/
theorem stopsAt_of_colon {colon : Token} (isColon : colon.kind = .colon) {tokens : List Token}
    {misfit : Misfit} (failure : readLine (colon :: tokens) = .error misfit) :
    ∃ before rest, tokens = before ++ rest ∧ StopsAt readLine (colon :: before) rest misfit := by
  rw [readLine_of_colon isColon] at failure
  obtain ⟨before, rest, rfl, stopsAt⟩ := stopsAt_toEnd looksAhead_readCommand (error_of_map failure)
  refine ⟨before, rest, rfl, stopsAt.of_accepts_iff fun others _ => ?_⟩
  exact accepts_iff_of_map (readLine_of_colon isColon (before ++ others))

/-- A line that begins with a name and an equals sign is refused where it is refused as bindings.
    Neither of the two is to blame, since a binding begins like this. -/
theorem stopsAt_of_binding {name equals : Token} (named : name.kind = .name)
    (isEquals : equals.kind = .equals) {body : List Token} {misfit : Misfit}
    (failure : readLine (name :: equals :: body) = .error misfit) :
    ∃ before rest, name :: equals :: body = before ++ rest ∧
      StopsAt readLine before rest misfit := by
  rw [readLine_of_binding named isEquals] at failure
  obtain ⟨before, rest, same, stopsAt⟩ := stopsAt_readBindings failure
  have accepted : Accepts readBindings ([name, equals] ++ [⟨.name, ['x'], 0⟩]) :=
    accepts_binding named isEquals rfl
  obtain ⟨used, rfl⟩ : ∃ used, before = [name, equals] ++ used :=
    stopsAt.exists_eq_append same accepted
  refine ⟨_, rest, same, stopsAt.of_accepts_iff fun others _ => ?_⟩
  rw [Accepts, List.append_assoc, List.cons_append, List.singleton_append,
    readLine_of_binding named isEquals]
  rfl

/-- A row of tokens that is one term is accepted as a line. -/
theorem accepts_of_term {tokens : List Token} (accepted : Accepts (toEnd Term.read) tokens) :
    Accepts readLine tokens := by
  obtain ⟨term, success⟩ := (accepts_toEnd_iff _ _).mp accepted
  obtain ⟨used, rfl, derives⟩ := Term.derives_of_read success
  rw [List.append_nil]
  exact ⟨_, readLine_of_term derives⟩

/-- A name is a term. -/
theorem accepts_name {name : Token} (named : name.kind = .name) :
    Accepts (toEnd Term.read) [name] := by
  have derives : Grammar.Derives .term ([name].map Token.word) _ :=
    .applied (.row (.first (.name _ named)))
  have reads := Term.read_of_derives [] derives (by simp [Term.Ends])
  exact (accepts_toEnd_iff _ _).mpr ⟨_, reads⟩

/-- What begins like a term still does if it changes after the token that is refused. A name at the
    beginning is never refused, so an equals sign cannot come to stand after it. -/
theorem BeginsTerm.of_head? {before rest others : List Token} (begins : BeginsTerm (before ++ rest))
    (sameHead : others.head? = rest.head?)
    (refused : ∀ others, others.head? = rest.head? →
      ¬ Accepts (toEnd Term.read) (before ++ others)) :
    BeginsTerm (before ++ others) := by
  have head : (before ++ others).head? = (before ++ rest).head? := by
    rw [List.head?_append, List.head?_append, sameHead]
  refine ⟨?_, ?_, ?_⟩
  · intro empty
    rw [empty] at head
    exact begins.nonempty (List.head?_eq_none_iff.mp head.symm)
  · intro colon tokens same isColon
    rw [same] at head
    obtain ⟨tokens, same⟩ := List.head?_eq_some_iff.mp head.symm
    exact begins.noColon colon tokens same isColon
  · intro name equals tokens same named isEquals
    rcases before with _ | ⟨first, _ | ⟨second, before⟩⟩
    · obtain rfl : others = name :: equals :: tokens := same
      exact refused [name] sameHead (accepts_name named)
    · obtain ⟨rfl, afterName⟩ := List.cons.inj same
      obtain rfl : others = equals :: tokens := afterName
      obtain ⟨more, rfl⟩ := List.head?_eq_some_iff.mp sameHead.symm
      exact begins.noBinding first equals more rfl named isEquals
    · obtain ⟨rfl, afterName⟩ := List.cons.inj same
      obtain ⟨rfl, _⟩ := List.cons.inj afterName
      exact begins.noBinding first second (before ++ rest) rfl named isEquals

/-- Any other line is refused where it is refused as a term. -/
theorem stopsAt_of_other {tokens : List Token} (begins : BeginsTerm tokens) {misfit : Misfit}
    (failure : readLine tokens = .error misfit) :
    ∃ before rest, tokens = before ++ rest ∧ StopsAt readLine before rest misfit := by
  rw [readLine_of_other begins] at failure
  obtain ⟨before, rest, rfl, stopsAt⟩ := stopsAt_toEnd Term.looksAhead (error_of_map failure)
  refine ⟨before, rest, rfl, stopsAt.of_accepts_iff fun others condition => ?_⟩
  rcases condition with accepted | sameHead
  · exact ⟨fun _ => accepted, accepts_of_term⟩
  · exact accepts_iff_of_map (readLine_of_other (begins.of_head? sameHead stopsAt.refused))

/-- Lines are refused at the first token that cannot be right. -/
theorem stopsAt_readLine {tokens : List Token} {misfit : Misfit}
    (failure : readLine tokens = .error misfit) :
    ∃ before rest, tokens = before ++ rest ∧ StopsAt readLine before rest misfit := by
  rcases line_cases tokens with rfl | ⟨colon, others, rfl, isColon⟩ |
    ⟨name, equals, body, rfl, named, isEquals⟩ | begins
  · cases failure
  · obtain ⟨before, rest, rfl, stopsAt⟩ := stopsAt_of_colon isColon failure
    exact ⟨colon :: before, rest, rfl, stopsAt⟩
  · exact stopsAt_of_binding named isEquals failure
  · exact stopsAt_of_other begins failure

end Statement

end UntypedLambda
