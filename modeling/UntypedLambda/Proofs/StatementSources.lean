import UntypedLambda.Proofs.PrintedTerms

/-!
# The text that a statement keeps

A statement keeps the piece of its line from its first token to its last one. No token before the
piece reaches into it and none of its own tokens changes its kind when the rest of the line is
gone, so the piece is read as that statement and nothing else. The pieces of a line stand in it one
after the other, and putting semicolons between them makes a line with the same statements again.
-/

namespace UntypedLambda

open Grammar (Derives Command Binding)

/-- Parts that stand in a row of things one after the other, each of them in one piece. -/
def InOrder {α : Type} : List (List α) → List α → Prop
  | [], _ => True
  | part :: parts, whole => ∃ before after, whole = before ++ part ++ after ∧ InOrder parts after

namespace InOrder

variable {α : Type}

/-- What stands in front of a row of things does not disturb the parts of it. -/
theorem append_left {parts : List (List α)} {whole : List α} (ordered : InOrder parts whole)
    (front : List α) : InOrder parts (front ++ whole) := by
  cases parts with
  | nil => trivial
  | cons part parts =>
    obtain ⟨before, after, rfl, later⟩ := ordered
    exact ⟨front ++ before, after, by simp, later⟩

/-- Each of the parts stands somewhere. -/
theorem exists_around {parts : List (List α)} {whole : List α} (ordered : InOrder parts whole) :
    ∀ part ∈ parts, ∃ before after, whole = before ++ part ++ after := by
  induction parts generalizing whole with
  | nil => simp
  | cons first parts inductionHypothesis =>
    obtain ⟨before, after, rfl, later⟩ := ordered
    refine List.forall_mem_cons.mpr ⟨⟨before, after, rfl⟩, ?_⟩
    intro part member
    obtain ⟨front, back, rfl⟩ := inductionHypothesis later part member
    exact ⟨before ++ first ++ front, back, by simp⟩

end InOrder

namespace Grammar

/-- The words of one statement, without a semicolon after them. -/
inductive Single : List Word → Action → Prop where
  | command (colon : Word) {words : List Word} {action : Action} (isColon : colon.kind = .colon)
      (command : Command words action) : Single (colon :: words) action
  | binding {words : List Word} {action : Action} (binding : Binding words action) :
      Single words action
  | term {words : List Word} {term : Term} (derives : Derives .term words term) :
      Single words (.evaluate term)

/-- A statement has words. -/
theorem Single.ne_nil {words : List Word} {action : Action} (single : Single words action) :
    words ≠ [] := by
  cases single with
  | command => exact List.cons_ne_nil _ _
  | binding binding =>
    obtain ⟨name, equals, named, isEquals, derives⟩ := binding
    exact List.cons_ne_nil _ _
  | term derives => exact derives.ne_nil

/-- A statement is a line. -/
theorem Single.line {words : List Word} {action : Action} (single : Single words action) :
    Line words [action] := by
  cases single with
  | command colon isColon command => exact .command colon isColon command
  | binding binding => exact .bindings (.last binding)
  | term derives => exact .term derives

end Grammar

open Grammar (Single)

namespace Statement

/-- The tokens of each of the bindings in a row are those of a binding. -/
theorem Divides.binding {tokens : List Token} {results : List (Action × List Token)}
    (divides : Divides tokens results) :
    ∀ result ∈ results, Binding (result.2.map Token.word) result.1 := by
  induction divides with
  | last closing binding _ => exact List.forall_mem_singleton.mpr binding
  | more separator binding _ _ inductionHypothesis =>
    exact List.forall_mem_cons.mpr ⟨binding, inductionHypothesis⟩

/-- The bindings in a row stand one after the other. -/
theorem Divides.inOrder {tokens : List Token} {results : List (Action × List Token)}
    (divides : Divides tokens results) : InOrder (results.map Prod.snd) tokens := by
  induction divides with
  | last closing _ _ => exact ⟨[], closing, rfl, trivial⟩
  | more separator _ _ _ inductionHypothesis =>
    exact ⟨[], _, rfl, inductionHypothesis.append_left [separator]⟩

/-- The tokens of each statement are those of one statement. -/
theorem Reads.single {tokens : List Token} {results : List (Action × List Token)}
    (reads : Reads tokens results) :
    ∀ result ∈ results, Single (result.2.map Token.word) result.1 := by
  cases reads with
  | empty => simp
  | command colon isColon command =>
    exact List.forall_mem_singleton.mpr (.command colon.word isColon command)
  | bindings divides => exact fun result member => .binding (divides.binding result member)
  | term derives => exact List.forall_mem_singleton.mpr (.term derives)

/-- No statement is without tokens. -/
theorem Reads.ne_nil {tokens : List Token} {results : List (Action × List Token)}
    (reads : Reads tokens results) : ∀ part ∈ results.map Prod.snd, part ≠ [] := by
  rintro _ member rfl
  obtain ⟨result, among, empty⟩ := List.mem_map.mp member
  exact (reads.single result among).ne_nil (by rw [empty]; rfl)

/-- The tokens of the statements stand on a line one after the other. -/
theorem Reads.inOrder {tokens : List Token} {results : List (Action × List Token)}
    (reads : Reads tokens results) : InOrder (results.map Prod.snd) tokens := by
  cases reads with
  | empty => trivial
  | command | term => exact ⟨[], [], by simp, trivial⟩
  | bindings divides => exact divides.inOrder

/-- The tokens of one statement are read as that statement. -/
theorem reads_of_single {tokens : List Token} {action : Action}
    (single : Single (tokens.map Token.word) action) : Reads tokens [(action, tokens)] := by
  generalize same : tokens.map Token.word = words at single
  cases single with
  | command colon isColon command =>
    obtain ⟨colonToken, rest, rfl, rfl, rfl⟩ := List.map_eq_cons_iff.mp same
    exact .command colonToken isColon command
  | binding binding =>
    subst same
    have divides := Divides.last [] binding (.inl rfl)
    rw [List.append_nil] at divides
    exact .bindings divides
  | term derives =>
    subst same
    exact .term derives

/-- A statement whose text holds its words and nothing else: nothing that does not matter stands at
    either end of it, and no semicolon after it. -/
structure Quoted (statement : Statement) : Prop where
  bounded : Word.Bounded ((Token.scan statement.source).map Token.word)
  single : Single (Token.words statement.source) statement.action

/-- The text of a quoted statement is read as that statement. -/
theorem Quoted.parse_eq {statement : Statement} (quoted : statement.Quoted) :
    parse statement.source = .ok [statement] := by
  have splits := Token.splits_scan statement.source
  refine (parse_eq_ok_iff_readLine _ _).mpr
    ⟨_, (reads_of_single quoted.single).readLine_eq, quoted.single.line.known, ?_⟩
  simp only [List.map_cons, List.map_nil, sourceOf_significant splits quoted.bounded]

/-- Tokens some of which matter are a piece that begins and ends with ones that matter, and others
    around it that do not. The last one that matters is the first from the end. -/
theorem exists_bounded {tokens : List Token} (matters : tokens.filter Token.isSignificant ≠ []) :
    ∃ before piece after, tokens = before ++ piece ++ after ∧
      before.filter Token.isSignificant = [] ∧ after.filter Token.isSignificant = [] ∧
      Word.Bounded (piece.map Token.word) := by
  obtain ⟨first, others, filtered⟩ := List.exists_cons_of_ne_nil matters
  obtain ⟨before, rest, rfl, noneBefore, isFirst, _⟩ := List.filter_eq_cons_iff.mp filtered
  have backwards : (first :: rest).reverse.filter Token.isSignificant ≠ [] := by
    simp [List.filter_reverse, isFirst]
  obtain ⟨last, _, filtered'⟩ := List.exists_cons_of_ne_nil backwards
  obtain ⟨back, front, split, noneAfter, isLast, _⟩ := List.filter_eq_cons_iff.mp filtered'
  have piece_eq : first :: rest = front.reverse ++ [last] ++ back.reverse := by
    rw [← List.reverse_reverse (first :: rest), split]
    simp
  refine ⟨before, front.reverse ++ [last], back.reverse, ?_, ?_, ?_, ?_, ?_⟩
  · rw [piece_eq, ← List.append_assoc]
  · exact List.filter_eq_nil_iff.mpr noneBefore
  · simpa using noneAfter
  · cases begins : front.reverse with
    | nil => exact ⟨last.word, [], rfl, isLast⟩
    | cons head tail =>
      rw [begins] at piece_eq
      obtain ⟨rfl, _⟩ := List.cons.inj piece_eq
      exact ⟨first.word, _, rfl, isFirst⟩
  · exact ⟨front.reverse.map Token.word, last.word, by simp, isLast⟩

/-- A row of tokens that matter is what matters of some piece of the line. -/
theorem exists_piece {tokens before part after : List Token} (nonempty : part ≠ [])
    (filtered : tokens.filter Token.isSignificant = before ++ part ++ after) :
    ∃ front piece back, tokens = front ++ piece ++ back ∧ back.filter Token.isSignificant = after ∧
      piece.filter Token.isSignificant = part ∧ Word.Bounded (piece.map Token.word) := by
  obtain ⟨_, rest, rfl, filteredFront, rfl⟩ := List.filter_eq_append_iff.mp filtered
  obtain ⟨front, middle, rfl, rfl, rfl⟩ := List.filter_eq_append_iff.mp filteredFront
  obtain ⟨left, piece, right, rfl, noneBefore, noneAfter, bounded⟩ := exists_bounded nonempty
  refine ⟨front ++ left, piece, right ++ rest, by simp, ?_, ?_, bounded⟩
  · rw [List.filter_append, noneAfter, List.nil_append]
  · rw [List.filter_append, List.filter_append, noneBefore, noneAfter, List.nil_append,
      List.append_nil]

/-- The text that is kept for a statement of a line holds its words and nothing else. No token
    changes its kind when the rest of the line is gone. -/
theorem Reads.words_sourceOf {line : String} {results : List (Action × List Token)}
    (reads : Reads (Token.significant line) results) : ∀ result ∈ results,
      Word.Bounded ((Token.scan (sourceOf line result.2)).map Token.word) ∧
        Token.words (sourceOf line result.2) = result.2.map Token.word := by
  rintro ⟨action, part⟩ member
  have isPart : part ∈ results.map Prod.snd := List.mem_map.mpr ⟨_, member, rfl⟩
  obtain ⟨before, after, filtered⟩ := reads.inOrder.exists_around part isPart
  obtain ⟨front, piece, back, scanned, _, rfl, bounded⟩ :=
    exists_piece (reads.ne_nil part isPart) filtered
  have splits := Token.splits_scan line
  rw [scanned, List.map_append, List.map_append] at splits
  have cut := splits.initial.final
  rw [Token.flatMap_text_word, ← toList_sourceOf scanned bounded] at cut
  refine ⟨?_, ?_⟩
  · rwa [Token.scan, cut.map_word_scanFrom]
  · rw [cut.words_eq, List.filter_map]
    rfl

/-- Every statement of a line is quoted by its source. -/
theorem Reads.quoted {line : String} {results : List (Action × List Token)}
    (reads : Reads (Token.significant line) results) :
    ∀ result ∈ results, Quoted ⟨result.1, sourceOf line result.2⟩ := by
  intro result member
  obtain ⟨bounded, words_eq⟩ := reads.words_sourceOf result member
  exact ⟨bounded, words_eq ▸ reads.single result member⟩

/-- The texts of some rows of tokens stand in a line in the order of these rows. -/
theorem inOrder_sourceOf {line : String} {parts : List (List Token)}
    (nonempty : ∀ part ∈ parts, part ≠ [])
    {front tokens : List Token} (scanned : Token.scan line = front ++ tokens)
    (ordered : InOrder parts (tokens.filter Token.isSignificant)) :
    InOrder (parts.map fun part => (sourceOf line part).toList) (tokens.flatMap Token.text) := by
  induction parts generalizing front tokens with
  | nil => trivial
  | cons part parts inductionHypothesis =>
    obtain ⟨before, after, filtered, later⟩ := ordered
    obtain ⟨partNonempty, othersNonempty⟩ := List.forall_mem_cons.mp nonempty
    obtain ⟨left, piece, right, rfl, rfl, rfl, bounded⟩ := exists_piece partNonempty filtered
    have scanned' : Token.scan line = front ++ left ++ piece ++ right := by simpa using scanned
    refine ⟨left.flatMap Token.text, right.flatMap Token.text, ?_,
      inductionHypothesis othersNonempty
      scanned' later⟩
    simp [toList_sourceOf scanned' bounded]

/-- The sources of statements stand on their line in the order of the statements. -/
theorem Reads.inOrder_sources {line : String} {results : List (Action × List Token)}
    (reads : Reads (Token.significant line) results) :
    InOrder (results.map fun result => (sourceOf line result.2).toList) line.toList := by
  have ordered := inOrder_sourceOf reads.ne_nil (List.nil_append _).symm reads.inOrder
  rwa [Token.flatMap_text_scan, List.map_map] at ordered

/-- A word that matters and pairs with nothing may end in front of a semicolon. -/
theorem ends_semicolon {word : Word} (significant : word.isSignificant = true)
    (known : word.kind ≠ .unknown) (following : List Char) :
    Token.Ends (';' :: following) word.kind := by
  obtain ⟨noComment, nonblank⟩ : word.kind ≠ .comment ∧ word.kind ≠ .blank := by
    simpa [Word.isSignificant] using significant
  cases kind : word.kind with
  | number | name =>
    rintro c ⟨rfl⟩
    decide
  | blank => exact absurd kind nonblank
  | comment => exact absurd kind noComment
  | unknown => exact absurd kind known
  | lambda | dot | opening | closing | equals | semicolon | colon | string => trivial

/-- No word of a quoted statement is an illegal character. -/
theorem Quoted.known {statement : Statement} (quoted : statement.Quoted) :
    ∀ word ∈ (Token.scan statement.source).map Token.word, word.kind ≠ .unknown := by
  intro word member unknown
  refine quoted.single.line.known word ?_ unknown
  rw [(Token.splits_scan statement.source).words_eq]
  exact List.mem_filter.mpr ⟨member, by simp [Word.isSignificant, unknown]⟩

/-- A semicolon. -/
def separator : Word :=
  ⟨.semicolon, [';']⟩

/-- Texts with semicolons between them split into the words of each of them, with semicolons
    between. -/
theorem splits_joined (statement : Statement) (others : List Statement)
    (quoted : ∀ each ∈ statement :: others, each.Quoted) :
    Token.Splits (";".intercalate ((statement :: others).map Statement.source)).toList
      ([separator].intercalate
        ((statement :: others).map fun each => (Token.scan each.source).map Token.word)) := by
  induction others generalizing statement with
  | nil => simpa using Token.splits_scan statement.source
  | cons next others inductionHypothesis =>
    obtain ⟨quotedHere, quotedLater⟩ := List.forall_mem_cons.mp quoted
    have later := Token.Splits.mark (by decide : (';', TokenKind.semicolon) ∈ Token.punctuation)
      (inductionHypothesis next quotedLater)
    have ends : ∀ last ∈ ((Token.scan statement.source).map Token.word).getLast?, Token.Ends
        (';' :: (";".intercalate ((next :: others).map Statement.source)).toList) last.kind := by
      intro last isLast
      obtain ⟨initial, word, same, significant⟩ := quotedHere.bounded.last
      rw [same, List.getLast?_concat] at isLast
      obtain rfl : word = last := Option.some.inj isLast
      exact ends_semicolon significant (quotedHere.known word (by simp [same])) _
    have whole := (Token.splits_scan statement.source).append quotedHere.known ends later
    simpa [separator] using whole

/-- A piece of a line with the words of a text is kept as this text. -/
theorem sourceOf_of_map_word {line text : String} {before piece after : List Token}
    (scanned : Token.scan line = before ++ piece ++ after)
    (same : piece.map Token.word = (Token.scan text).map Token.word)
    (bounded : Word.Bounded ((Token.scan text).map Token.word)) :
    sourceOf line (piece.filter Token.isSignificant) = text ∧
      (piece.filter Token.isSignificant).map Token.word = Token.words text := by
  refine ⟨?_, ?_⟩
  · rw [← String.toList_inj, toList_sourceOf scanned (same ▸ bounded),
      ← Token.flatMap_text_word, same, Token.flatMap_text_word, Token.flatMap_text_scan]
  · rw [(Token.splits_scan text).words_eq, ← same, List.filter_map]
    rfl

/-- The tokens of bindings with semicolons between them are a row of these bindings. -/
theorem exists_divides_joined {line : String} (statement : Statement) (others : List Statement)
    (quoted : ∀ each ∈ statement :: others, each.Quoted ∧
      Binding (Token.words each.source) each.action)
    {front tokens : List Token} (scanned : Token.scan line = front ++ tokens)
    (same : tokens.map Token.word = [separator].intercalate
      ((statement :: others).map fun each => (Token.scan each.source).map Token.word)) :
    ∃ results, Divides (tokens.filter Token.isSignificant) results ∧
      (results.map fun (action, part) => ⟨action, sourceOf line part⟩) = statement :: others := by
  induction others generalizing statement front tokens with
  | nil =>
    obtain ⟨quotedHere, binding⟩ := List.forall_mem_singleton.mp quoted
    rw [List.map_singleton, List.intercalate_singleton] at same
    obtain ⟨source, words_eq⟩ := sourceOf_of_map_word (scanned.trans (List.append_nil _).symm) same
      quotedHere.bounded
    have divides := Divides.last [] (words_eq ▸ binding) (.inl rfl)
    rw [List.append_nil] at divides
    exact ⟨_, divides, by simp [source]⟩
  | cons next others inductionHypothesis =>
    obtain ⟨⟨quotedHere, binding⟩, quotedLater⟩ := List.forall_mem_cons.mp quoted
    rw [List.map_cons, List.map_cons, List.intercalate_cons_cons, List.append_assoc] at same
    obtain ⟨piece, rest, rfl, pieceWords, restWords⟩ := List.map_eq_append_iff.mp same
    obtain ⟨semicolon, later, rfl, isSeparator, laterWords⟩ := List.map_eq_cons_iff.mp restWords
    have separates : semicolon.kind = .semicolon := congrArg Word.kind isSeparator
    have significant : semicolon.isSignificant = true := by simp [Token.isSignificant, separates]
    obtain ⟨source, words_eq⟩ :=
      sourceOf_of_map_word (scanned.trans (List.append_assoc ..).symm) pieceWords
      quotedHere.bounded
    have scanned' : Token.scan line = front ++ piece ++ [semicolon] ++ later := by
      simpa using scanned
    obtain ⟨results, divides, statements⟩ :=
      inductionHypothesis next quotedLater scanned' laterWords
    rw [List.filter_append, List.filter_cons_of_pos significant]
    exact ⟨_, .more semicolon (words_eq ▸ binding) separates divides, by simp [source, statements]⟩

/-- Bindings with semicolons between them are read as these bindings. -/
theorem parse_joined {statements : List Statement} (quoted : ∀ each ∈ statements, each.Quoted ∧
      Binding (Token.words each.source) each.action) :
    parse (";".intercalate (statements.map Statement.source)) = .ok statements := by
  cases statements with
  | nil =>
    refine (parse_eq_ok_iff_readLine _ _).mpr ⟨[], ?_, ?_, rfl⟩
    · simp [Token.significant, Token.scan, Token.scanFrom, readLine]
    · simp [Token.words, Token.significant, Token.scan, Token.scanFrom]
  | cons statement others =>
    have splits := splits_joined statement others fun each member => (quoted each member).1
    obtain ⟨results, divides, statements⟩ := exists_divides_joined statement others quoted
      (List.nil_append _).symm (splits.map_word_scanFrom 0)
    have reads := (Reads.bindings divides).readLine_eq
    exact (parse_eq_ok_iff_readLine _ _).mpr ⟨_, reads, (derives_of_readLine reads).known,
      statements.symm⟩

/-- The source of a statement is a piece of the line that is read as that statement alone, and the
    sources of all statements stand in the line in their order, none of them reaching into
    another. Joined by semicolons, they make a line with the same statements. -/
theorem sources_mean_statements (line : String) (statements : List Statement)
    (success : parse line = .ok statements) :
    (∀ statement ∈ statements, parse statement.source = .ok [statement]) ∧
    InOrder (statements.map (·.source.toList)) line.toList ∧
    parse (";".intercalate (statements.map Statement.source)) = .ok statements := by
  obtain ⟨results, readsLine, _, rfl⟩ := (parse_eq_ok_iff_readLine line statements).mp success
  have reads := reads_of_readLine readsLine
  refine ⟨?_, ?_, ?_⟩
  · intro statement member
    obtain ⟨result, among, rfl⟩ := List.mem_map.mp member
    exact (reads.quoted result among).parse_eq
  · rw [List.map_map]
    exact reads.inOrder_sources
  · have quoted := reads.quoted
    have words_eq := reads.words_sourceOf
    generalize Token.significant line = tokens at reads
    cases reads with
    | empty => exact parse_joined (by simp)
    | command | term =>
      have single := (quoted _ List.mem_cons_self).parse_eq
      simpa using single
    | bindings divides =>
      refine parse_joined fun each member => ?_
      obtain ⟨result, among, rfl⟩ := List.mem_map.mp member
      exact ⟨quoted result among, (words_eq result among).2 ▸ divides.binding result among⟩

/-- Neither the comment nor the blanks around the second binding nor the last semicolon is kept. -/
theorem sources_mean_statements_two_bindings :
    let statements : List Statement :=
      [⟨.bind "a" (.app (.var "x") (.var "y")), "a = x  y"⟩,
        ⟨.bind "b" (.lam "y" (.var "y")), "b=λy. y"⟩]
    parse " a = x  y # c\n; b=λy. y ;" = .ok statements ∧
      parse "b=λy. y" = .ok [⟨.bind "b" (.lam "y" (.var "y")), "b=λy. y"⟩] ∧
      InOrder ["a = x  y".toList, "b=λy. y".toList] " a = x  y # c\n; b=λy. y ;".toList ∧
      parse "a = x  y;b=λy. y" = .ok statements := by
  intro statements
  have success : parse " a = x  y # c\n; b=λy. y ;" = .ok statements := by with_unfolding_all rfl
  obtain ⟨alone, ordered, joined⟩ := sources_mean_statements _ statements success
  exact ⟨success, alone ⟨.bind "b" (.lam "y" (.var "y")), "b=λy. y"⟩ (by simp [statements]),
    ordered, joined⟩

end Statement

end UntypedLambda
