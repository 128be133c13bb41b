import UntypedLambda.Proofs.TermReading
import UntypedLambda.Statement.Parse

/-!
# Lines are read as the grammar says

A line is accepted exactly if the grammar derives its words, and it then asks for
what they denote. One token of lookahead after a name tells bindings from a term,
since no term contains an equals sign. A line with an illegal character is
accepted by neither side: no word of the grammar is of that kind.
-/

namespace UntypedLambda

open Grammar (Derives Command Binding Bindings)

namespace Statement

/-- The command that is read is the one that the words before the rest ask for. -/
theorem derives_of_readCommand {tokens rest : List Token} {action : Action}
    (success : readCommand tokens = .ok (action, rest)) :
    ∃ used, tokens = used ++ rest ∧ Command (used.map Token.word) action := by
  cases tokens with
  | nil => cases success
  | cons word others =>
    simp only [readCommand] at success
    split at success
    · cases success
    rename_i notOther
    have named : word.word.kind = .name := Decidable.not_not.mp notOther
    split at success
    · rename_i content
      cases success
      exact ⟨[word], rfl, .exit word.word named content⟩
    split at success
    · rename_i content
      cases success
      exact ⟨[word], rfl, .listBindings word.word named content⟩
    split at success
    · rename_i content
      split at success
      · rename_i digits start others
        cases success
        exact ⟨[word, ⟨.number, digits, start⟩], rfl, .setLimit word.word _ named content rfl⟩
      · cases success
        exact ⟨[word], rfl, .showLimit word.word named content⟩
    split at success
    · rename_i content
      split at success
      · rename_i letters start others
        cases success
        exact ⟨[word, ⟨.name, letters, start⟩], rfl, .setStrategy word.word _ named content rfl⟩
      · cases success
        exact ⟨[word], rfl, .showStrategy word.word named content⟩
    split at success
    · rename_i content
      split at success
      · rename_i quoted start others
        cases success
        exact ⟨[word, ⟨.string, quoted, start⟩], rfl, .load word.word _ named content rfl⟩
      · cases success
    · cases success

/-- The words of a command are read as that command. -/
theorem readCommand_of_derives {tokens : List Token} {action : Action}
    (derives : Command (tokens.map Token.word) action) : readCommand tokens = .ok (action, []) := by
  generalize same : tokens.map Token.word = words at derives
  cases derives with
  | exit word named content | listBindings word named content | showLimit word named content
  | showStrategy word named content =>
    obtain ⟨token, rfl, rfl⟩ := List.map_eq_singleton_iff.mp same
    change token.kind = _ at named
    change token.content = _ at content
    simp [readCommand, named, content]
  | setLimit word other named content kind | setStrategy word other named content kind
  | load word other named content kind =>
    obtain ⟨token, rest, rfl, rfl, others⟩ := List.map_eq_cons_iff.mp same
    obtain ⟨⟨otherKind, text, start⟩, rfl, rfl⟩ := List.map_eq_singleton_iff.mp others
    change token.kind = _ at named
    change token.content = _ at content
    obtain rfl := kind
    simp [readCommand, named, content, Token.word, Word.content]

/-- The tokens that were used up are those before the rest. -/
theorem consumed_append (used rest : List Token) : consumed (used ++ rest) rest = used := by
  simp [consumed]

/-- What may stand after the last binding of a line: nothing, or a semicolon. -/
def Closes (tokens : List Token) : Prop :=
  tokens = [] ∨ ∃ separator, separator.kind = .semicolon ∧ tokens = [separator]

/-- A row of bindings taken apart: what each of them asks for, and the tokens of each. -/
inductive Divides : List Token → List (Action × List Token) → Prop where
  | last {tokens : List Token} {action : Action} (closing : List Token)
      (binding : Binding (tokens.map Token.word) action) (closes : Closes closing) :
      Divides (tokens ++ closing) [(action, tokens)]
  | more {tokens others : List Token} {action : Action} {results : List (Action × List Token)}
      (separator : Token) (binding : Binding (tokens.map Token.word) action)
      (separates : separator.kind = .semicolon) (divides : Divides others results) :
      Divides (tokens ++ separator :: others) ((action, tokens) :: results)

/-- What becomes of a binding that has been read: it is the last one, or others
    follow after a semicolon. -/
def continueBindings (binding : Action × List Token) :
    List Token → Except Misfit (List (Action × List Token))
  | [] => .ok [binding]
  | separator :: others =>
    if separator.kind ≠ .semicolon then .error (.unmet (separator :: others) .lineEnd)
    else if others = [] then .ok [binding]
    else (readBindings others).map (binding :: ·)

/-- The first of some tokens is of a kind, or it is not. -/
theorem head?_cases (kind : TokenKind) (tokens : List Token) :
    (∃ token rest, tokens = token :: rest ∧ token.kind = kind) ∨
      ∀ token ∈ tokens.head?, token.kind ≠ kind := by
  cases tokens with
  | nil => simp
  | cons token rest =>
    by_cases same : token.kind = kind
    · exact .inl ⟨token, rest, rfl, same⟩
    · exact .inr (by simpa using same)

/-- A binding begins with a name. -/
theorem readBindings_of_no_name {tokens : List Token}
    (noName : ∀ token ∈ tokens.head?, token.kind ≠ .name) :
    readBindings tokens = .error (.unmet tokens .name) := by
  cases tokens with
  | nil => rw [readBindings]
  | cons token rest =>
    rw [readBindings.eq_def]
    exact if_pos (noName token rfl)

/-- An equals sign follows the name of a binding. -/
theorem readBindings_of_no_equals {name : Token} {tokens : List Token} (named : name.kind = .name)
    (noEquals : ∀ token ∈ tokens.head?, token.kind ≠ .equals) :
    readBindings (name :: tokens) = .error (.unmet tokens .equals) := by
  cases tokens with
  | nil => rw [readBindings, if_neg (not_not_intro named)]
  | cons token rest => rw [readBindings, if_neg (not_not_intro named), if_pos (noEquals token rfl)]

/-- After a name and an equals sign a term is read, and then the bindings go on. -/
theorem readBindings_cons {name equals : Token} (named : name.kind = .name)
    (isEquals : equals.kind = .equals) (body : List Token) :
    readBindings (name :: equals :: body) =
      match Term.read body with
      | .error misfit => .error misfit
      | .ok (term, rest) =>
        continueBindings
          (.bind name.content term, consumed (name :: equals :: body) rest) rest := by
  rw [readBindings, if_neg (not_not_intro named), if_neg (not_not_intro isEquals)]
  split
  · rename_i failed
    rw [failed]
  · rename_i term rest reads
    simp only [reads]
    cases rest <;> rfl

/-- The tokens of a binding are its name, the equals sign and those of its term. -/
theorem readBindings_of_read {name equals : Token} {used rest : List Token} {term : Term}
    (named : name.kind = .name) (isEquals : equals.kind = .equals)
    (reads : Term.read (used ++ rest) = .ok (term, rest)) :
    readBindings (name :: equals :: used ++ rest) =
      continueBindings (.bind name.content term, name :: equals :: used) rest := by
  have usedUp := consumed_append (name :: equals :: used) rest
  rw [List.cons_append, List.cons_append] at usedUp ⊢
  rw [readBindings_cons named isEquals, reads]
  dsimp only
  rw [usedUp]

/-- Bindings begin with a name and an equals sign, and a term follows. -/
theorem exists_of_readBindings {tokens : List Token} {results : List (Action × List Token)}
    (success : readBindings tokens = .ok results) :
    ∃ name equals body term rest, tokens = name :: equals :: body ∧ name.kind = .name ∧
      equals.kind = .equals ∧ Term.read body = .ok (term, rest) := by
  rcases head?_cases .name tokens with ⟨name, others, rfl, named⟩ | noName
  · rcases head?_cases .equals others with ⟨equals, body, rfl, isEquals⟩ | noEquals
    · cases reads : Term.read body with
      | ok result => exact ⟨name, equals, body, result.1, result.2, rfl, named, isEquals, reads⟩
      | error misfit =>
        rw [readBindings_cons named isEquals, reads] at success
        cases success
    · rw [readBindings_of_no_equals named noEquals] at success
      cases success
  · rw [readBindings_of_no_name noName] at success
    cases success

/-- What is read as bindings is a row of bindings. -/
theorem divides_of_readBindings {tokens : List Token} {results : List (Action × List Token)}
    (success : readBindings tokens = .ok results) : Divides tokens results := by
  induction sized : tokens.length using Nat.strongRecOn generalizing tokens results with
  | ind size shorter =>
    obtain ⟨name, equals, body, term, rest, rfl, named, isEquals, reads⟩ :=
      exists_of_readBindings success
    obtain ⟨used, rfl, derives⟩ := Term.derives_of_read reads
    have binding : Binding ((name :: equals :: used).map Token.word) (.bind name.content term) :=
      .intro name.word equals.word named isEquals derives
    rw [← List.cons_append, ← List.cons_append,
      readBindings_of_read named isEquals reads] at success
    cases rest with
    | nil =>
      cases success
      exact .last [] binding (.inl rfl)
    | cons separator others =>
      rw [continueBindings] at success
      split at success
      · cases success
      rename_i notOther
      have separates : separator.kind = .semicolon := Decidable.not_not.mp notOther
      split at success
      · rename_i noOthers
        subst noOthers
        cases success
        exact .last [separator] binding (.inr ⟨separator, separates, rfl⟩)
      · cases later : readBindings others with
        | error misfit =>
          rw [later] at success
          cases success
        | ok more =>
          rw [later] at success
          cases success
          have fewer : others.length < size := by
            rw [← sized]
            simp only [List.length_cons, List.length_append]
            omega
          exact .more separator binding separates (shorter _ fewer later rfl)

/-- A binding is read up to tokens that end its term, and then the bindings go on. -/
theorem readBindings_append {tokens rest : List Token} {action : Action}
    (binding : Binding (tokens.map Token.word) action) (ends : Term.Ends rest) :
    readBindings (tokens ++ rest) = continueBindings (action, tokens) rest := by
  generalize same : tokens.map Token.word = words at binding
  obtain ⟨name, equals, named, isEquals, derives⟩ := binding
  obtain ⟨nameToken, others, rfl, rfl, afterName⟩ := List.map_eq_cons_iff.mp same
  obtain ⟨equalsToken, body, rfl, rfl, rfl⟩ := List.map_eq_cons_iff.mp afterName
  exact readBindings_of_read named isEquals (Term.read_of_derives rest derives ends)

/-- A semicolon ends a term. -/
theorem ends_of_semicolon {separator : Token} (separates : separator.kind = .semicolon)
    (others : List Token) : Term.Ends (separator :: others) := by
  simp [Term.Ends, separates]

/-- A row of bindings is read as these bindings. -/
theorem Divides.readBindings_eq {tokens : List Token} {results : List (Action × List Token)}
    (divides : Divides tokens results) : readBindings tokens = .ok results := by
  induction divides with
  | last closing binding closes =>
    rcases closes with rfl | ⟨separator, separates, rfl⟩
    · rw [readBindings_append binding (by simp [Term.Ends])]
      rfl
    · rw [readBindings_append binding (ends_of_semicolon separates []), continueBindings,
        if_neg (not_not_intro separates), if_pos rfl]
  | @more tokens others action results separator binding separates _ inductionHypothesis =>
    have nonempty : others ≠ [] := by
      rintro rfl
      rw [readBindings] at inductionHypothesis
      cases inductionHypothesis
    rw [readBindings_append binding (ends_of_semicolon separates others), continueBindings,
      if_neg (not_not_intro separates), if_neg nonempty, inductionHypothesis]
    rfl

/-- The words of a row of bindings ask for what the bindings ask for. -/
theorem Divides.exists_bindings {tokens : List Token} {results : List (Action × List Token)}
    (divides : Divides tokens results) :
    ∃ used closing, tokens = used ++ closing ∧ Closes closing ∧
      Bindings (used.map Token.word) (results.map Prod.fst) := by
  induction divides with
  | @last tokens action closing binding closes =>
    exact ⟨tokens, closing, rfl, closes, .last binding⟩
  | @more tokens others action results separator binding separates _ inductionHypothesis =>
    obtain ⟨used, closing, rfl, closes, bindings⟩ := inductionHypothesis
    refine ⟨tokens ++ separator :: used, closing, by simp, closes, ?_⟩
    rw [List.map_append]
    exact .more separator.word binding separates bindings

/-- Tokens whose words are bindings are a row of bindings, with a semicolon at the end or
    without. -/
theorem exists_divides {words : List Word} {actions : List Action}
    (derives : Bindings words actions)
    (tokens closing : List Token) (same : tokens.map Token.word = words) (closes : Closes closing) :
    ∃ results, Divides (tokens ++ closing) results ∧ results.map Prod.fst = actions := by
  induction derives generalizing tokens with
  | last binding =>
    subst same
    exact ⟨_, .last closing binding closes, rfl⟩
  | more separator binding separates bindings inductionHypothesis =>
    obtain ⟨before, after, rfl, rfl, later⟩ := List.map_eq_append_iff.mp same
    obtain ⟨separatorToken, more, rfl, rfl, moreWords⟩ := List.map_eq_cons_iff.mp later
    obtain ⟨results, divides, actions⟩ := inductionHypothesis more moreWords
    rw [List.append_assoc]
    exact ⟨_, .more separatorToken binding separates divides, congrArg (_ :: ·) actions⟩

/-- What is read to the end of the line has nothing after it. -/
theorem atEnd_eq_ok_iff {α : Type} (value result : α) (tokens : List Token) :
    atEnd value tokens = .ok result ↔ tokens = [] ∧ value = result := by
  cases tokens with
  | nil => simp [atEnd]
  | cons token rest => simp [atEnd]

/-- Read a whole line by reading its beginning and requiring that nothing is left. -/
def toEnd {α : Type} (read : List Token → Except Misfit (α × List Token)) (tokens : List Token) :
    Except Misfit α :=
  match read tokens with
  | .error misfit => .error misfit
  | .ok (value, rest) => atEnd value rest

/-- What is read as a whole is what is read in front of nothing. -/
theorem toEnd_eq_ok_iff {α : Type} (read : List Token → Except Misfit (α × List Token))
    (tokens : List Token) (value : α) :
    toEnd read tokens = .ok value ↔ read tokens = .ok (value, []) := by
  cases outcome : read tokens with
  | error misfit => simp [toEnd, outcome]
  | ok result => simp [toEnd, outcome, atEnd_eq_ok_iff, Prod.ext_iff, and_comm]

/-- If nothing is left, all tokens have been used up. -/
theorem consumed_nil (tokens : List Token) : consumed tokens [] = tokens := by
  simp [consumed]

/-- Tokens that are read as a term: they begin neither like a command nor like a binding. -/
structure BeginsTerm (tokens : List Token) : Prop where
  nonempty : tokens ≠ []
  noColon : ∀ colon rest, tokens = colon :: rest → colon.kind ≠ .colon
  noBinding : ∀ name equals rest, tokens = name :: equals :: rest → name.kind = .name →
    equals.kind ≠ .equals

/-- The first two tokens tell how a line is read. -/
theorem line_cases (tokens : List Token) :
    tokens = [] ∨ (∃ colon rest, tokens = colon :: rest ∧ colon.kind = .colon) ∨
      (∃ name equals body, tokens = name :: equals :: body ∧
        name.kind = .name ∧ equals.kind = .equals) ∨
      BeginsTerm tokens := by
  by_cases nonempty : tokens = []
  · exact .inl nonempty
  by_cases command : ∃ colon rest, tokens = colon :: rest ∧ colon.kind = .colon
  · exact .inr (.inl command)
  by_cases binding : ∃ name equals body, tokens = name :: equals :: body ∧ name.kind = .name ∧
      equals.kind = .equals
  · exact .inr (.inr (.inl binding))
  · refine .inr (.inr (.inr ⟨nonempty, ?_, ?_⟩))
    · exact fun colon rest same isColon => command ⟨colon, rest, same, isColon⟩
    · exact fun name equals rest same named isEquals =>
        binding ⟨name, equals, rest, same, named, isEquals⟩

/-- A line that begins with a colon is read as a command. -/
theorem readLine_of_colon {colon : Token} (isColon : colon.kind = .colon) (tokens : List Token) :
    readLine (colon :: tokens) =
      (toEnd readCommand tokens).map fun command => [(command, colon :: tokens)] := by
  obtain ⟨kind, text, start⟩ := colon
  obtain rfl : kind = .colon := isColon
  rw [readLine, toEnd]
  rcases readCommand tokens with misfit | ⟨command, _ | ⟨token, rest⟩⟩
  · rfl
  · simp [atEnd, consumed_nil, Except.map]
  · rfl

/-- A line that begins with a name and an equals sign is read as bindings. -/
theorem readLine_of_binding {name equals : Token} (named : name.kind = .name)
    (isEquals : equals.kind = .equals) (body : List Token) :
    readLine (name :: equals :: body) = readBindings (name :: equals :: body) := by
  obtain ⟨nameKind, nameText, nameStart⟩ := name
  obtain ⟨equalsKind, equalsText, equalsStart⟩ := equals
  obtain rfl : nameKind = .name := named
  obtain rfl : equalsKind = .equals := isEquals
  rfl

/-- All other lines are read as terms. -/
theorem readLine_of_other {tokens : List Token} (begins : BeginsTerm tokens) :
    readLine tokens = (toEnd Term.read tokens).map fun term => [(.evaluate term, tokens)] := by
  unfold readLine
  split
  · exact absurd rfl begins.nonempty
  · exact absurd rfl (begins.noColon _ _ rfl)
  · exact absurd rfl (begins.noBinding _ _ _ rfl rfl)
  · rw [toEnd]
    rcases Term.read tokens with misfit | ⟨term, _ | ⟨token, rest⟩⟩
    · rfl
    · simp [atEnd, consumed_nil, Except.map]
    · rfl

/-- What the tokens of a line ask for, and the tokens of each statement. -/
inductive Reads : List Token → List (Action × List Token) → Prop where
  | empty : Reads [] []
  | command (colon : Token) {tokens : List Token} {action : Action} (isColon : colon.kind = .colon)
      (command : Command (tokens.map Token.word) action) :
      Reads (colon :: tokens) [(action, colon :: tokens)]
  | bindings {tokens : List Token} {results : List (Action × List Token)}
      (divides : Divides tokens results) : Reads tokens results
  | term {tokens : List Token} {term : Term}
      (derives : Derives .term (tokens.map Token.word) term) :
      Reads tokens [(.evaluate term, tokens)]

/-- What a row of tokens is read as is what it asks for. -/
theorem reads_of_readLine {tokens : List Token} {results : List (Action × List Token)}
    (success : readLine tokens = .ok results) : Reads tokens results := by
  rcases line_cases tokens with rfl | ⟨colon, rest, rfl, isColon⟩ |
    ⟨name, equals, body, rfl, named, isEquals⟩ |
    begins
  · cases success
    exact .empty
  · rw [readLine_of_colon isColon] at success
    cases outcome : toEnd readCommand rest with
    | error misfit =>
      rw [outcome] at success
      cases success
    | ok action =>
      rw [outcome] at success
      cases success
      obtain ⟨used, same, command⟩ := derives_of_readCommand ((toEnd_eq_ok_iff _ _ _).mp outcome)
      rw [List.append_nil] at same
      exact .command colon isColon (same ▸ command)
  · rw [readLine_of_binding named isEquals] at success
    exact .bindings (divides_of_readBindings success)
  · rw [readLine_of_other begins] at success
    cases outcome : toEnd Term.read tokens with
    | error misfit =>
      rw [outcome] at success
      cases success
    | ok term =>
      rw [outcome] at success
      cases success
      obtain ⟨used, same, derives⟩ := Term.derives_of_read ((toEnd_eq_ok_iff _ _ _).mp outcome)
      rw [List.append_nil] at same
      exact .term (same ▸ derives)

/-- The words of a term are read as a request to evaluate it. -/
theorem readLine_of_term {tokens : List Token} {term : Term}
    (derives : Derives .term (tokens.map Token.word) term) :
    readLine tokens = .ok [(.evaluate term, tokens)] := by
  have kinds : ∀ token ∈ tokens, token.kind ∈ Grammar.termKinds := fun token member =>
    derives.kinds token.word (List.mem_map_of_mem member)
  have begins : BeginsTerm tokens := by
    refine ⟨fun empty => derives.ne_nil (by rw [empty]; rfl), ?_, ?_⟩
    · rintro colon rest rfl isColon
      simpa [isColon, Grammar.termKinds] using kinds colon List.mem_cons_self
    · rintro name equals rest rfl _ isEquals
      simpa [isEquals, Grammar.termKinds] using kinds equals (by simp)
  have reads := Term.read_of_derives [] derives (by simp [Term.Ends])
  rw [List.append_nil] at reads
  rw [readLine_of_other begins, (toEnd_eq_ok_iff _ _ _).mpr reads]
  rfl

/-- Tokens are read as what they ask for. -/
theorem Reads.readLine_eq {tokens : List Token} {results : List (Action × List Token)}
    (reads : Reads tokens results) : readLine tokens = .ok results := by
  cases reads with
  | empty => rfl
  | command colon isColon command =>
    rw [readLine_of_colon isColon, (toEnd_eq_ok_iff _ _ _).mpr (readCommand_of_derives command)]
    rfl
  | bindings divides =>
    have success := divides.readBindings_eq
    obtain ⟨name, equals, body, _, _, rfl, named, isEquals, _⟩ := exists_of_readBindings success
    rwa [readLine_of_binding named isEquals]
  | term derives => exact readLine_of_term derives

/-- What a row of tokens is read as is derived by its words. -/
theorem derives_of_readLine {tokens : List Token} {results : List (Action × List Token)}
    (success : readLine tokens = .ok results) :
    Grammar.Line (tokens.map Token.word) (results.map Prod.fst) := by
  cases reads_of_readLine success with
  | empty => exact .empty
  | command colon isColon command => exact .command colon.word isColon command
  | bindings divides =>
    obtain ⟨used, closing, rfl, closes, derives⟩ := divides.exists_bindings
    rcases closes with rfl | ⟨separator, separates, rfl⟩
    · rw [List.append_nil]
      exact .bindings derives
    · rw [List.map_append]
      exact .closed separator.word derives separates
  | term derives => exact .term derives

/-- The words of a line are read as what they ask for. -/
theorem readLine_of_derives {tokens : List Token} {actions : List Action}
    (derives : Grammar.Line (tokens.map Token.word) actions) :
    ∃ results, readLine tokens = .ok results ∧ results.map Prod.fst = actions := by
  have bindings {words : List Word} (bindings : Bindings words actions) (used closing : List Token)
      (same : used.map Token.word = words) (closes : Closes closing) :
      ∃ results, readLine (used ++ closing) = .ok results ∧ results.map Prod.fst = actions := by
    obtain ⟨results, divides, actions⟩ := exists_divides bindings used closing same closes
    exact ⟨results, (Reads.bindings divides).readLine_eq, actions⟩
  generalize same : tokens.map Token.word = words at derives
  cases derives with
  | empty =>
    obtain rfl := List.map_eq_nil_iff.mp same
    exact ⟨[], rfl, rfl⟩
  | command colon isColon command =>
    obtain ⟨colonToken, rest, rfl, rfl, rfl⟩ := List.map_eq_cons_iff.mp same
    exact ⟨_, (Reads.command colonToken isColon command).readLine_eq, rfl⟩
  | bindings derives =>
    rw [← List.append_nil tokens]
    exact bindings derives tokens [] same (.inl rfl)
  | closed separator derives separates =>
    obtain ⟨before, after, rfl, first, last⟩ := List.map_eq_append_iff.mp same
    obtain ⟨token, rfl, rfl⟩ := List.map_eq_singleton_iff.mp last
    exact bindings derives before [token] first (.inr ⟨token, separates, rfl⟩)
  | term derives =>
    subst same
    exact ⟨_, readLine_of_term derives, rfl⟩

end Statement

namespace Grammar

/-- Tokens without places, for words that come from no line. -/
def placed (words : List Word) : List Token :=
  words.map fun word => ⟨word.kind, word.text, 0⟩

/-- Placing words does not change them. -/
theorem map_word_placed (words : List Word) : (placed words).map Token.word = words := by
  simp [placed, Function.comp_def, Token.word]

/-- A row of words denotes at most one term. -/
theorem Derives.unique {words : List Word} {term other : Term}
    (derives : Derives .term words term) (otherDerives : Derives .term words other) :
    term = other := by
  rw [← map_word_placed words, ← Term.readWhole_eq_ok_iff] at derives otherDerives
  exact Except.ok.inj (derives.symm.trans otherDerives)

/-- A row of words asks for at most one thing. -/
theorem Line.unique {words : List Word} {actions others : List Action}
    (derives : Line words actions) (otherDerives : Line words others) : actions = others := by
  rw [← map_word_placed words] at derives otherDerives
  obtain ⟨results, success, rfl⟩ := Statement.readLine_of_derives derives
  obtain ⟨otherResults, otherSuccess, rfl⟩ := Statement.readLine_of_derives otherDerives
  rw [Except.ok.inj (success.symm.trans otherSuccess)]

/-- No word of a term is an illegal character. -/
theorem Derives.known {phrase : Phrase} {words : List Word} {term : Term}
    (derives : Derives phrase words term) : ∀ word ∈ words, word.kind ≠ .unknown := by
  intro word member illegal
  have kind := derives.kinds word member
  simp [illegal, termKinds] at kind

/-- No word of bindings is an illegal character. -/
theorem Bindings.known {words : List Word} {actions : List Action}
    (derives : Bindings words actions) :
    ∀ word ∈ words, word.kind ≠ .unknown := by
  have binding {words : List Word} {action : Action} (derives : Binding words action) :
      ∀ word ∈ words, word.kind ≠ .unknown := by
    obtain ⟨name, equals, named, isEquals, derives⟩ := derives
    simpa [named, isEquals] using derives.known
  induction derives with
  | last first => exact binding first
  | more separator first separates _ inductionHypothesis =>
    refine List.forall_mem_append.mpr ⟨binding first, ?_⟩
    simpa [separates] using inductionHypothesis

/-- No word of a line that the grammar derives is an illegal character. -/
theorem Line.known {words : List Word} {actions : List Action} (derives : Line words actions) :
    ∀ word ∈ words, word.kind ≠ .unknown := by
  cases derives with
  | empty => simp
  | command colon isColon command => cases command <;> simp_all
  | bindings bindings => exact bindings.known
  | closed separator bindings separates =>
    refine List.forall_mem_append.mpr ⟨bindings.known, ?_⟩
    simp [separates]
  | term derives => exact derives.known

end Grammar

/-- Rewording errors leaves what succeeds. -/
theorem mapError_eq_ok_iff {α ε ε' : Type} (reword : ε → ε') (outcome : Except ε α) (value : α) :
    outcome.mapError reword = .ok value ↔ outcome = .ok value := by
  cases outcome with
  | ok result =>
    constructor
    · intro same
      exact congrArg Except.ok (Except.ok.inj same)
    · intro same
      exact congrArg Except.ok (Except.ok.inj same)
  | error problem =>
    constructor
    · intro impossible
      cases impossible
    · intro impossible
      cases impossible

/-- A line without illegal characters is read by reading its significant tokens. -/
theorem readingLine_eq_ok_iff {α : Type} (read : List Token → Except Misfit α) (line : String)
    (value : α) :
    readingLine read line = .ok value ↔
      read (Token.significant line) = .ok value ∧
        ∀ word ∈ Token.words line, word.kind ≠ .unknown := by
  have known : (∀ word ∈ Token.words line, word.kind ≠ .unknown) ↔
      (Token.significant line).find? (·.kind = .unknown) = none := by
    simp [Token.words, Token.word]
  rw [known]
  unfold readingLine
  dsimp only
  rw [mapError_eq_ok_iff]
  cases (Token.significant line).find? (·.kind = .unknown) with
  | none => simp
  | some token => simp

/-- A line is a term exactly if the grammar derives that term from its words. -/
theorem Term.parse_eq_ok_iff (line : String) (term : Term) :
    Term.parse line = .ok term ↔ Derives .term (Token.words line) term := by
  rw [Term.parse, readingLine_eq_ok_iff, Term.readWhole_eq_ok_iff]
  constructor
  · rintro ⟨derives, _⟩
    exact derives
  · intro derives
    exact ⟨derives, derives.known⟩

namespace Statement

/-- The statements of a line are what its significant tokens are read as, each with
    its source. -/
theorem parse_eq_ok_iff_readLine (line : String) (statements : List Statement) :
    parse line = .ok statements ↔
      ∃ results, readLine (Token.significant line) = .ok results ∧
        (∀ word ∈ Token.words line, word.kind ≠ .unknown) ∧
        statements = results.map fun (action, tokens) => ⟨action, sourceOf line tokens⟩ := by
  unfold parse
  constructor
  · intro success
    cases reads : readingLine readLine line with
    | error problem =>
      rw [reads] at success
      cases success
    | ok results =>
      rw [reads] at success
      obtain ⟨success', known⟩ := (readingLine_eq_ok_iff _ _ _).mp reads
      exact ⟨results, success', known, (Except.ok.inj success).symm⟩
  · rintro ⟨results, success, known, rfl⟩
    rw [(readingLine_eq_ok_iff _ _ _).mpr ⟨success, known⟩]
    rfl

/-- A line is accepted with certain actions exactly if the grammar derives them from
    its words. -/
theorem parse_iff_derives (line : String) (actions : List Action) :
    (∃ statements, parse line = .ok statements ∧ statements.map Statement.action = actions) ↔
      Grammar.Line (Token.words line) actions := by
  constructor
  · rintro ⟨statements, success, rfl⟩
    obtain ⟨results, reads, _, rfl⟩ := (parse_eq_ok_iff_readLine line statements).mp success
    rw [List.map_map]
    exact derives_of_readLine reads
  · intro derives
    obtain ⟨results, reads, rfl⟩ := readLine_of_derives derives
    refine ⟨_, (parse_eq_ok_iff_readLine line _).mpr ⟨results, reads, derives.known, rfl⟩, ?_⟩
    rw [List.map_map]
    rfl

/-- What a line asks for, every line of the same words asks for. -/
theorem exists_parse_of_words {line other : String} (same : Token.words other = Token.words line)
    {statements : List Statement} (success : parse line = .ok statements) :
    ∃ others, parse other = .ok others ∧ others.map action = statements.map action := by
  have derives := (parse_iff_derives line _).mp ⟨statements, success, rfl⟩
  exact (parse_iff_derives other _).mpr (same ▸ derives)

/-- Lines of the same words ask for the same, or neither can be read. -/
theorem parse_of_words_eq {line other : String} (same : Token.words other = Token.words line) :
    (∃ statements others, parse line = .ok statements ∧ parse other = .ok others ∧
      others.map action = statements.map action) ∨
    (∃ error otherError, parse line = .error error ∧ parse other = .error otherError) := by
  cases parsed : parse line with
  | ok statements =>
    obtain ⟨others, otherParsed, actions⟩ := exists_parse_of_words same parsed
    exact .inl ⟨statements, others, rfl, otherParsed, actions⟩
  | error error =>
    cases otherParsed : parse other with
    | ok others =>
      obtain ⟨statements, isParsed, _⟩ := exists_parse_of_words same.symm otherParsed
      cases parsed.symm.trans isParsed
    | error otherError => exact .inr ⟨error, otherError, rfl, rfl⟩

end Statement

end UntypedLambda
