import UntypedLambda.Proofs.Grammar
import UntypedLambda.Term.Parse

/-!
# Terms are read as the grammar says

Reading keeps what has been opened as a context. What a context and the row in it
stand for are the words that have been read so far, and each further word keeps
that correspondence; so what is read in the end is derived by the grammar.
Conversely, reading the words of a phrase leads from the context before it to the
same context with the phrase in its place. Only the binders around the place that
is being read may be left to complete.

As reading is a function, it follows that a row of words denotes at most one term.
-/

namespace UntypedLambda.Term

open Grammar (Derives Phrase)

/-- The point after a token, if there is one. -/
inductive Reading.Next (token : Token) : Reading → Reading → Prop where
  | name {context : Context} {function : Option Term} (kind : token.kind = .name) :
      Next token (.operand context function)
        (.operand context (some (Term.extend function (var token.content))))
  | number {context : Context} {function : Option Term} (kind : token.kind = .number) :
      Next token (.operand context function)
        (.operand context (some (Term.extend function (Numeral.church (Decimal.read token.text)))))
  | lambda {context : Context} {function : Option Term} (kind : token.kind = .lambda) :
      Next token (.operand context function) (.parameters context function [])
  | opening {context : Context} {function : Option Term} (kind : token.kind = .opening) :
      Next token (.operand context function)
        (.operand (.group context function (token.start + 1)) none)
  | closing {context : Context} {inner : Term} {closed : OpenGroup} (kind : token.kind = .closing)
      (opened : (context.complete inner).2 = some closed) :
      Next token (.operand context (some inner))
        (.operand closed.outer (some (Term.extend closed.function (context.complete inner).1)))
  | parameter {context : Context} {function : Option Term} {params : List Name}
      (kind : token.kind = .name) :
      Next token (.parameters context function params)
        (.parameters context function (params ++ [token.content]))
  | dot {context : Context} {function : Option Term} {params : List Name} (kind : token.kind = .dot)
      (some : params ≠ []) :
      Next token (.parameters context function params)
        (.operand (.binder context function params) none)

/-- Reading one more token leads to the point after it. -/
theorem Reading.advance_eq_some_iff (reading next : Reading) (token : Token) :
    reading.advance token = some next ↔ Reading.Next token reading next := by
  constructor
  · intro advances
    cases reading with
    | operand context function =>
      cases kind : token.kind <;> simp only [Reading.advance, kind] at advances
      case name => exact Option.some.inj advances ▸ .name kind
      case number => exact Option.some.inj advances ▸ .number kind
      case lambda => exact Option.some.inj advances ▸ .lambda kind
      case opening => exact Option.some.inj advances ▸ .opening kind
      case closing =>
        cases function with
        | none => cases advances
        | some inner =>
          cases opened : (context.complete inner).2 with
          | none => simp [opened] at advances
          | some closed =>
            simp only [Option.bind_eq_bind, Option.bind_some, opened, Option.pure_def] at advances
            exact Option.some.inj advances ▸ .closing kind opened
      all_goals cases advances
    | parameters context function params =>
      cases kind : token.kind <;> simp only [Reading.advance, kind] at advances
      case name => exact Option.some.inj advances ▸ .parameter kind
      case dot =>
        split at advances
        · cases advances
        · rename_i some
          exact Option.some.inj advances ▸ .dot kind some
      all_goals cases advances
  · intro next
    cases next with
    | closing kind opened => simp [Reading.advance, kind, opened]
    | name kind | number kind | lambda kind | opening kind | parameter kind =>
      simp [Reading.advance, kind]
    | dot kind some => simp [Reading.advance, kind, some]

/-- The words of a row of operands, which may still be empty. -/
inductive RowSpells : List Word → Option Term → Prop where
  | none : RowSpells [] none
  | some {words : List Word} {term : Term} (derives : Derives .row words term) :
      RowSpells words (some term)

/-- The words that have been read before the innermost row of a context. -/
inductive Context.Spells : List Word → Context → Prop where
  | top : Spells [] .top
  | group (opening : Word) {words rowWords : List Word} {outer : Context} {function : Option Term}
      (column : Nat) (outside : Spells words outer) (row : RowSpells rowWords function)
      (opens : opening.kind = .opening) :
      Spells (words ++ rowWords ++ [opening]) (.group outer function column)
  | binder (lambda : Word) (params : List Word) (dot : Word) {words rowWords : List Word}
      {outer : Context} {function : Option Term} (outside : Spells words outer)
      (row : RowSpells rowWords function) (isLambda : lambda.kind = .lambda) (some : params ≠ [])
      (named : ∀ param ∈ params, param.kind = .name) (isDot : dot.kind = .dot) :
      Spells (words ++ rowWords ++ (lambda :: params ++ [dot]))
        (.binder outer function (params.map Word.content))

/-- The words that have been read at some point of a term. -/
inductive Reading.Spells : List Word → Reading → Prop where
  | operand {words rowWords : List Word} {context : Context} {function : Option Term}
      (outside : context.Spells words) (row : RowSpells rowWords function) :
      Spells (words ++ rowWords) (.operand context function)
  | parameters (lambda : Word) (params : List Word) {words rowWords : List Word} {context : Context}
      {function : Option Term} (outside : context.Spells words) (row : RowSpells rowWords function)
      (isLambda : lambda.kind = .lambda) (named : ∀ param ∈ params, param.kind = .name) :
      Spells (words ++ rowWords ++ lambda :: params)
        (.parameters context function (params.map Word.content))

/-- One more operand makes a row of what was read before. -/
theorem RowSpells.extend {words others : List Word} {function : Option Term} {operand : Term}
    (row : RowSpells words function) (derives : Derives .atom others operand) :
    Derives .row (words ++ others) (Term.extend function operand) := by
  cases row with
  | none => exact .first derives
  | some functions => exact .next functions derives

/-- An abstraction after a row ends the term. -/
theorem RowSpells.trailing {words others : List Word} {function : Option Term} {operand : Term}
    (row : RowSpells words function) (derives : Derives .abstraction others operand) :
    Derives .term (words ++ others) (Term.extend function operand) := by
  cases row with
  | none => exact .abstracted derives
  | some functions => exact .applied (.trailing functions derives)

/-- A term inside a binder makes an abstraction, and with it a term in what is
    around the binder. -/
theorem RowSpells.bind {lambda dot : Word} {params rowWords words : List Word}
    {function : Option Term} {body : Term} (row : RowSpells rowWords function)
    (isLambda : lambda.kind = .lambda) (some : params ≠ [])
    (named : ∀ param ∈ params, param.kind = .name) (isDot : dot.kind = .dot)
    (derives : Derives .term words body) :
    Derives .term (rowWords ++ (lambda :: params ++ dot :: words))
      (Term.extend function (abstraction (params.map Word.content) body)) :=
  row.trailing (.abstraction lambda params dot isLambda some named isDot derives)

/-- If no group is open, completing the binders makes a term of all words. -/
theorem Context.Spells.complete_none {words others : List Word} {context : Context} {term : Term}
    (spells : context.Spells words) (derives : Derives .term others term)
    (whole : (context.complete term).2 = none) :
    Derives .term (words ++ others) (context.complete term).1 := by
  induction spells generalizing others term with
  | top => exact derives
  | group => simp [Context.complete] at whole
  | binder lambda params dot outside row isLambda some named isDot inductionHypothesis =>
    have outer := inductionHypothesis (row.bind isLambda some named isDot derives) whole
    simpa [Context.complete] using outer

/-- If a group is open, completing the binders makes a term of the words in it. -/
theorem Context.Spells.complete_some {words others : List Word} {context : Context} {term : Term}
    {closed : OpenGroup} (spells : context.Spells words) (derives : Derives .term others term)
    (open_ : (context.complete term).2 = some closed) :
    ∃ outerWords rowWords opening inner,
      words ++ others = outerWords ++ rowWords ++ opening :: inner ∧
      closed.outer.Spells outerWords ∧ RowSpells rowWords closed.function ∧
      opening.kind = .opening ∧ Derives .term inner (context.complete term).1 := by
  induction spells generalizing others term with
  | top => simp [Context.complete] at open_
  | @group opening words rowWords outer function column outside row opens =>
    obtain rfl : OpenGroup.mk outer function column = closed := by
      simpa [Context.complete] using open_
    exact ⟨words, rowWords, opening, others, by simp, outside, row, opens, derives⟩
  | binder lambda params dot outside row isLambda some named isDot inductionHypothesis =>
    obtain ⟨outerWords, rowWords, opening, inner, same, rest⟩ :=
      inductionHypothesis (row.bind isLambda some named isDot derives) open_
    exact ⟨outerWords, rowWords, opening, inner, by rw [← same]; simp, rest⟩

/-- A token that can belong to the term is the next word of what has been read. -/
theorem Reading.Spells.next {words : List Word} {reading next : Reading} {token : Token}
    (spells : reading.Spells words) (step : Reading.Next token reading next) :
    next.Spells (words ++ [token.word]) := by
  cases spells with
  | operand outside row =>
    cases step with
    | name kind =>
      rw [List.append_assoc]
      exact .operand outside (.some (row.extend (.name token.word kind)))
    | number kind =>
      rw [List.append_assoc]
      exact .operand outside (.some (row.extend (.number token.word kind)))
    | lambda kind => exact .parameters token.word [] outside row kind (by simp)
    | opening kind =>
      have group := Context.Spells.group token.word (token.start + 1) outside row kind
      have empty := Reading.Spells.operand group .none
      rwa [List.append_nil] at empty
    | closing kind opened =>
      cases row with
      | some derives =>
        obtain ⟨outerWords, rowWords, opening, inner, same, outer, outerRow, opens, whole⟩ :=
          outside.complete_some (.applied (.row derives)) opened
        have atom : Derives .atom (opening :: inner ++ [token.word]) _ :=
          .group opening token.word opens kind whole
        have closed := Reading.Spells.operand outer (.some (outerRow.extend atom))
        rw [same]
        simpa using closed
  | parameters lambda params outside row isLambda named =>
    cases step with
    | parameter kind =>
      have more := Reading.Spells.parameters lambda (params ++ [token.word]) outside row isLambda
        (List.forall_mem_append.mpr ⟨named, List.forall_mem_singleton.mpr kind⟩)
      simpa using more
    | dot kind some =>
      have nonempty : params ≠ [] := by simpa using some
      have binder := Context.Spells.binder lambda params token.word outside row isLambda nonempty
        named kind
      have empty := Reading.Spells.operand binder .none
      simpa using empty

/-- A term that ends where reading stops is derived by what has been read. -/
theorem Reading.Spells.conclude {words : List Word} {reading : Reading} {term : Term}
    (spells : reading.Spells words) (concludes : reading.conclude = .ok term) :
    Derives .term words term := by
  cases spells with
  | @operand words rowWords context function outside row =>
    cases row with
    | none => cases concludes
    | @some _ row derives =>
      simp only [Reading.conclude] at concludes
      have whole := outside.complete_none (.applied (.row derives))
      cases complete : context.complete row with
      | mk result opened =>
        rw [complete] at whole concludes
        cases opened with
        | none => exact Except.ok.inj concludes ▸ whole rfl
        | some unclosed => cases concludes
  | parameters => cases concludes

/-- Reading ends a term in front of some tokens exactly if the term can be concluded there. -/
theorem stop_eq_ok_iff (reading : Reading) (tokens rest : List Token) (term : Term) :
    stop reading tokens = .ok (term, rest) ↔ reading.conclude = .ok term ∧ tokens = rest := by
  cases concludes : reading.conclude with
  | ok result => simp [stop, concludes]
  | error what => simp [stop, concludes]

/-- Where reading stops, all tokens that are left are left, and what has been read
    is a term. -/
theorem Reading.Spells.stop {words : List Word} {reading : Reading} {tokens rest : List Token}
    {term : Term} (spells : reading.Spells words)
    (success : stop reading tokens = .ok (term, rest)) :
    rest = tokens ∧ Derives .term words term := by
  obtain ⟨concludes, rfl⟩ := (stop_eq_ok_iff reading tokens rest term).mp success
  exact ⟨rfl, spells.conclude concludes⟩

/-- What is read from some point on, together with what has been read before, is
    the row of words of a term. -/
theorem derives_of_readFrom {words : List Word} {reading : Reading} (tokens : List Token)
    {rest : List Token} {term : Term} (spells : reading.Spells words)
    (success : readFrom reading tokens = .ok (term, rest)) :
    ∃ used, tokens = used ++ rest ∧ Derives .term (words ++ used.map Token.word) term := by
  induction tokens generalizing words reading with
  | nil =>
    rw [readFrom] at success
    obtain ⟨rfl, derives⟩ := spells.stop success
    exact ⟨[], rfl, by simpa using derives⟩
  | cons token tokens inductionHypothesis =>
    rw [readFrom] at success
    split at success
    · rename_i next advances
      have step := (Reading.advance_eq_some_iff reading next token).mp advances
      obtain ⟨used, rfl, derives⟩ := inductionHypothesis (spells.next step) success
      exact ⟨token :: used, rfl, by simpa using derives⟩
    · obtain ⟨rfl, derives⟩ := spells.stop success
      exact ⟨[], rfl, by simpa using derives⟩

/-- The term that is read at the beginning of some tokens is derived by the tokens
    that it uses up. -/
theorem derives_of_read {tokens rest : List Token} {term : Term}
    (success : read tokens = .ok (term, rest)) :
    ∃ used, tokens = used ++ rest ∧ Derives .term (used.map Token.word) term :=
  derives_of_readFrom tokens (.operand .top .none) success

/-- The point after some tokens, if all of them can be read. -/
def Reading.after (reading : Reading) (tokens : List Token) : Option Reading :=
  tokens.foldlM Reading.advance reading

/-- A point at which the binders of a context around a term may still have to be
    completed. -/
def Reading.Completes (context : Context) (term : Term) (reading : Reading) : Prop :=
  ∃ inner row, reading = .operand inner (some row) ∧ inner.complete row = context.complete term

/-- What reading does with the tokens of a phrase, whatever is around it. A row
    begins where no operand has been read; an atom and an abstraction may also
    follow one. -/
def ReadsAs (tokens : List Token) (term : Term) : Phrase → Prop
  | .atom => ∀ context function, Reading.after (.operand context function) tokens =
      some (.operand context (some (extend function term)))
  | .row => ∀ context, Reading.after (.operand context none) tokens =
      some (.operand context (some term))
  | .abstraction => ∀ context function, ∃ reading,
      Reading.after (.operand context function) tokens = some reading ∧
        reading.Completes context (extend function term)
  | .application | .term => ∀ context, ∃ reading,
      Reading.after (.operand context none) tokens = some reading ∧ reading.Completes context term

/-- Tokens are read one part after the other. -/
theorem Reading.after_append (reading middle : Reading) (tokens others : List Token)
    (before : reading.after tokens = some middle) :
    reading.after (tokens ++ others) = middle.after others := by
  rw [after, List.foldlM_append, ← after, before]
  rfl

/-- A token that can be read is read before the others. -/
theorem Reading.after_cons {reading next : Reading} {token : Token} (tokens : List Token)
    (step : Reading.Next token reading next) :
    reading.after (token :: tokens) = next.after tokens := by
  have advances := (advance_eq_some_iff reading next token).mpr step
  rw [after, List.foldlM_cons, advances]
  rfl

/-- Names after a binder's sign are its parameters. -/
theorem Reading.after_parameters (context : Context) (function : Option Term) (params : List Name)
    (tokens : List Token) (named : ∀ token ∈ tokens, token.kind = .name) :
    Reading.after (.parameters context function params) tokens =
      some (.parameters context function (params ++ tokens.map Token.content)) := by
  induction tokens generalizing params with
  | nil => simp [after]
  | cons token tokens inductionHypothesis =>
    rw [after_cons tokens (.parameter (named token List.mem_cons_self)),
      inductionHypothesis _ fun other member => named other (List.mem_cons_of_mem token member)]
    simp

/-- An operand after a row makes a longer row. -/
theorem readsAs_next {tokens others : List Token} {function argument : Term}
    (functions : ReadsAs tokens function .row) (arguments : ReadsAs others argument .atom) :
    ReadsAs (tokens ++ others) (.app function argument) .row := by
  intro context
  rw [Reading.after_append _ _ _ _ (functions context)]
  exact arguments context (some function)

/-- An abstraction after a row ends the application. -/
theorem readsAs_trailing {tokens others : List Token} {function argument : Term}
    (functions : ReadsAs tokens function .row) (arguments : ReadsAs others argument .abstraction) :
    ReadsAs (tokens ++ others) (.app function argument) .application := by
  intro context
  obtain ⟨reading, reads, completes⟩ := arguments context (some function)
  refine ⟨reading, ?_, completes⟩
  rw [Reading.after_append _ _ _ _ (functions context)]
  exact reads

/-- A binder and the tokens of its body are read as an abstraction, which is left
    to complete. -/
theorem readsAs_abstraction {lambda dot : Token} {params tokens : List Token} {body : Term}
    (isLambda : lambda.kind = .lambda) (nonempty : params.map Token.content ≠ [])
    (named : ∀ param ∈ params, param.kind = .name) (isDot : dot.kind = .dot)
    (inside : ReadsAs tokens body .term) :
    ReadsAs (lambda :: params ++ dot :: tokens)
      (Term.abstraction (params.map Token.content) body) .abstraction := by
  intro context function
  obtain ⟨reading, reads, inner, row, rfl, completes⟩ :=
    inside (.binder context function (params.map Token.content))
  refine ⟨_, ?_, inner, row, rfl, completes⟩
  rw [List.cons_append, Reading.after_cons _ (.lambda isLambda),
    Reading.after_append _ _ _ _ (Reading.after_parameters context function [] params named),
    List.nil_append, Reading.after_cons _ (.dot isDot nonempty)]
  exact reads

/-- A term in parentheses is read as an operand: the closing one completes the
    binders that are left inside. -/
theorem readsAs_group {opening closing : Token} {tokens : List Token} {term : Term}
    (opens : opening.kind = .opening) (closes : closing.kind = .closing)
    (inside : ReadsAs tokens term .term) :
    ReadsAs (opening :: tokens ++ [closing]) term .atom := by
  intro context function
  obtain ⟨reading, reads, inner, row, rfl, completes⟩ :=
    inside (.group context function (opening.start + 1))
  have opened : (inner.complete row).2 = some ⟨context, function, opening.start + 1⟩ := by
    rw [completes]
    rfl
  rw [List.cons_append, Reading.after_cons _ (.opening opens), Reading.after_append _ _ _ _ reads,
    Reading.after_cons _ (.closing closes opened), completes]
  rfl

/-- The words of a phrase are read as that phrase. -/
theorem readsAs_of_derives {phrase : Phrase} {words : List Word} {term : Term}
    (derives : Derives phrase words term) (tokens : List Token)
    (same : tokens.map Token.word = words) : ReadsAs tokens term phrase := by
  induction derives generalizing tokens with
  | abstracted _ inductionHypothesis =>
    intro context
    exact inductionHypothesis tokens same context none
  | applied _ inductionHypothesis => exact inductionHypothesis tokens same
  | abstraction lambda params dot isLambda some named isDot _ inductionHypothesis =>
    obtain ⟨before, after, rfl, lambdaParams, dotBody⟩ := List.map_eq_append_iff.mp same
    obtain ⟨lambdaToken, paramTokens, rfl, rfl, rfl⟩ := List.map_eq_cons_iff.mp lambdaParams
    obtain ⟨dotToken, bodyTokens, rfl, rfl, rfl⟩ := List.map_eq_cons_iff.mp dotBody
    have contents : (paramTokens.map Token.word).map Word.content =
        paramTokens.map Token.content := by simp
    rw [contents]
    exact readsAs_abstraction isLambda (by simpa using some)
      (fun token member => named token.word (List.mem_map_of_mem member)) isDot
      (inductionHypothesis bodyTokens rfl)
  | row _ inductionHypothesis =>
    intro context
    exact ⟨_, inductionHypothesis tokens same context, context, _, rfl, rfl⟩
  | trailing _ _ functionHypothesis argumentHypothesis =>
    obtain ⟨before, after, rfl, rfl, rfl⟩ := List.map_eq_append_iff.mp same
    exact readsAs_trailing (functionHypothesis before rfl) (argumentHypothesis after rfl)
  | first _ inductionHypothesis =>
    intro context
    exact inductionHypothesis tokens same context none
  | next _ _ functionHypothesis argumentHypothesis =>
    obtain ⟨before, after, rfl, rfl, rfl⟩ := List.map_eq_append_iff.mp same
    exact readsAs_next (functionHypothesis before rfl) (argumentHypothesis after rfl)
  | name word named =>
    obtain ⟨token, rfl, rfl⟩ := List.map_eq_singleton_iff.mp same
    intro context function
    exact Reading.after_cons [] (.name named)
  | number word numbered =>
    obtain ⟨token, rfl, rfl⟩ := List.map_eq_singleton_iff.mp same
    intro context function
    exact Reading.after_cons [] (.number numbered)
  | group opening closing opens closes _ inductionHypothesis =>
    obtain ⟨before, after, rfl, openInner, close⟩ := List.map_eq_append_iff.mp same
    obtain ⟨openToken, innerTokens, rfl, rfl, rfl⟩ := List.map_eq_cons_iff.mp openInner
    obtain ⟨closeToken, rfl, rfl⟩ := List.map_eq_singleton_iff.mp close
    exact readsAs_group opens closes (inductionHypothesis innerTokens rfl)

/-- Tokens that end a term: none of them, or a first one that continues no term
    in which no parenthesis is open. -/
def Ends (tokens : List Token) : Prop :=
  ∀ token ∈ tokens.head?, token.kind ∉ [.name, .number, .lambda, .opening]

/-- Tokens that can all be read are read, and reading goes on from there. -/
theorem readFrom_append {reading next : Reading} (tokens rest : List Token)
    (reads : reading.after tokens = some next) :
    readFrom reading (tokens ++ rest) = readFrom next rest := by
  induction tokens generalizing reading with
  | nil =>
    obtain rfl : reading = next := by simpa [Reading.after] using reads
    rfl
  | cons token tokens inductionHypothesis =>
    rw [Reading.after, List.foldlM_cons] at reads
    obtain ⟨middle, advances, later⟩ := Option.bind_eq_some_iff.mp reads
    rw [List.cons_append, readFrom, advances]
    exact inductionHypothesis later

/-- Reading stops where the next token is not taken. -/
theorem readFrom_of_refused {reading last : Reading} {used rest : List Token}
    (reads : reading.after used = some last)
    (refused : ∀ token ∈ rest.head?, last.advance token = none) :
    readFrom reading (used ++ rest) = stop last rest := by
  rw [readFrom_append used rest reads]
  cases rest with
  | nil => rfl
  | cons token rest => rw [readFrom, refused token rfl]

/-- Reading stops with a term when only its binders are left to complete and the
    tokens that follow end it. -/
theorem readFrom_completes {reading : Reading} {term : Term} (rest : List Token)
    (completes : reading.Completes .top term) (ends : Ends rest) :
    readFrom reading rest = .ok (term, rest) := by
  obtain ⟨inner, row, rfl, complete⟩ := completes
  have whole : inner.complete row = (term, none) := complete
  have refused : ∀ token ∈ rest.head?,
      Reading.advance (.operand inner (some row)) token = none := by
    intro token isNext
    rw [Option.eq_none_iff_forall_ne_some]
    intro next advances
    have other := ends token isNext
    cases (Reading.advance_eq_some_iff _ _ _).mp advances with
    | name kind | number kind | lambda kind | opening kind => simp [kind] at other
    | closing kind opened => simp [whole] at opened
  rw [← List.nil_append rest, readFrom_of_refused rfl refused, stop_eq_ok_iff,
    Reading.conclude, whole]
  exact ⟨rfl, rfl⟩

/-- A term is read up to the tokens that end it. -/
theorem read_of_derives {tokens : List Token} {term : Term} (rest : List Token)
    (derives : Derives .term (tokens.map Token.word) term) (ends : Ends rest) :
    read (tokens ++ rest) = .ok (term, rest) := by
  obtain ⟨reading, reads, completes⟩ := readsAs_of_derives derives tokens rfl .top
  rw [read, Reading.start, readFrom_append tokens rest reads]
  exact readFrom_completes rest completes ends

/-- A whole row of tokens is read as a term exactly if its words derive that term. -/
theorem readWhole_eq_ok_iff (tokens : List Token) (term : Term) :
    readWhole tokens = .ok term ↔ Derives .term (tokens.map Token.word) term := by
  constructor
  · intro success
    unfold readWhole at success
    split at success
    · cases success
    · rename_i result reads
      obtain ⟨used, same, derives⟩ := derives_of_read reads
      rw [same, List.append_nil]
      exact Except.ok.inj success ▸ derives
    · cases success
  · intro derives
    have reads := read_of_derives [] derives (by simp [Ends])
    rw [List.append_nil] at reads
    rw [readWhole, reads]

end UntypedLambda.Term
