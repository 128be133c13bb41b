import UntypedLambda.Fault
import UntypedLambda.Proofs.LayoutWords
import UntypedLambda.Proofs.ViablePrefixes

/-!
# Syntax errors point at the first token that cannot be right

A line is refused at a token, or at its end if tokens are missing. The tokens
before the refused one begin a line that is accepted: typing them with a space
after each, and with the tokens that complete them, makes such a line. With the
refused token they begin no accepted line. A character that belongs to no token of
the grammar is refused before all others.

The report of the error shows the line as it is, and below it marks the span of
the refused token, or one column if the span is empty.
-/

namespace UntypedLambda

/-- Words that can be typed with a space after each of them. -/
structure Word.Typable (word : Word) : Prop where
  shaped : ∃ first text, word.text = first :: text ∧ Token.Shaped first text word.kind
  closed : Token.Closed word
  nonblank : word.kind ≠ .blank

/-- The text of some words with a space after each of them. -/
def Word.typed (words : List Word) : String :=
  String.ofList (words.flatMap fun word => word.text ++ [' '])

namespace Token

/-- Words with spaces between them are the words of a text. -/
theorem carries_typed {words : List Word} (typable : ∀ word ∈ words, word.Typable) :
    Carries (words.flatMap fun word => word.text ++ [' ']) words := by
  induction words with
  | nil => exact carries_nil
  | cons word words inductionHypothesis =>
    obtain ⟨⟨⟨first, text, text_eq, shaped⟩, closed, nonblank⟩, others⟩ :=
      List.forall_mem_cons.mp typable
    have alone : Carries word.text [word] := by
      have splits := shaped.splits
      rw [← text_eq] at splits
      exact ⟨_, splits, List.filter_cons_of_pos (by simpa using nonblank)⟩
    have spaced := (inductionHypothesis others).blank_append (List.forall_mem_singleton.mpr
      (by decide : Blank.isBlank ' ' = true))
    rw [List.flatMap_cons, List.append_assoc]
    exact alone.append (List.forall_mem_singleton.mpr closed) spaced (by rintro c ⟨rfl⟩; decide)

/-- The words of a text that is typed from words are these words. -/
theorem words_typed {words : List Word} (typable : ∀ word ∈ words, word.Typable) :
    Token.words (Word.typed words) = words := by
  refine Layout.words_of_carries ?_ fun word member => (typable word member).closed.1
  rw [Word.typed, String.toList_ofList]
  exact carries_typed typable

/-- What a line can be completed with can be typed. -/
theorem typable_of_stopgap {token : Token} (stopgap : Stopgap token) : token.word.Typable := by
  cases stopgap with
  | operand | command =>
    exact ⟨⟨_, _, rfl, by decide, List.all_eq_true.mp (by decide)⟩,
      by simp [Closed, word], by simp [word]⟩
  | equals | dot | closing =>
    exact ⟨⟨_, _, rfl, by decide, rfl⟩, by simp [Closed, word], by simp [word]⟩
  | path => exact ⟨⟨_, _, rfl, rfl, [], rfl, by simp⟩, by simp [Closed, word], by simp [word]⟩

/-- The words of a line can be typed, if there is no illegal character among them. -/
theorem typable_words {line : String} (known : ∀ word ∈ Token.words line, word.kind ≠ .unknown) :
    ∀ word ∈ Token.words line, word.Typable := by
  intro word member
  have splits := splits_scan line
  have isWord := member
  rw [splits.words_eq] at isWord
  obtain ⟨onLine, significant⟩ := List.mem_filter.mp isWord
  obtain ⟨noComment, nonblank⟩ : word.kind ≠ .comment ∧ word.kind ≠ .blank := by
    simpa [Word.isSignificant] using significant
  exact ⟨splits.shaped word onLine, ⟨noComment, known word member⟩, nonblank⟩

/-- The characters of a word of a line are characters of the line. -/
theorem mem_of_mem_words {line : String} {word : Word} (member : word ∈ Token.words line) {c : Char}
    (inside : c ∈ word.text) : c ∈ line.toList := by
  have splits := splits_scan line
  rw [splits.words_eq] at member
  rw [← splits.flatMap_text]
  exact List.mem_flatMap_of_mem (List.mem_of_mem_filter member) inside

/-- Nothing that a line can be completed with has a line end in it. -/
theorem noLineEnd_of_stopgap {token : Token} (stopgap : Stopgap token) : '\n' ∉ token.text := by
  cases stopgap <;> decide

end Token

namespace Statement

open Grammar (placed map_word_placed)

/-- A row of tokens whose words are those of an accepted line is accepted. -/
theorem accepts_of_parse {line : String} {statements : List Statement}
    (success : parse line = .ok statements)
    {tokens : List Token} (same : tokens.map Token.word = Token.words line) :
    Accepts readLine tokens := by
  have derives := (parse_iff_derives line _).mp ⟨statements, success, rfl⟩
  rw [← same] at derives
  obtain ⟨results, reads, _⟩ := readLine_of_derives derives
  exact ⟨results, reads⟩

/-- Typing the words of an accepted row of tokens makes an accepted line. -/
theorem exists_parse_typed {tokens : List Token} (accepted : Accepts readLine tokens)
    (typable : ∀ word ∈ tokens.map Token.word, word.Typable) :
    ∃ statements, parse (Word.typed (tokens.map Token.word)) = .ok statements := by
  obtain ⟨results, success⟩ := accepted
  have derives := derives_of_readLine success
  rw [← Token.words_typed typable] at derives
  obtain ⟨statements, success, _⟩ := (parse_iff_derives _ _).mpr derives
  exact ⟨statements, success⟩

/-- Tokens of a line that can be completed begin an accepted line. It has no line end in it if the
    line itself has none. -/
theorem exists_parse_of_completable {line : String} {before rest : List Token}
    (tokens : Token.significant line = before ++ rest)
    (known : ∀ word ∈ Token.words line, word.kind ≠ .unknown)
    (completable : Completable readLine before) :
    ∃ other statements, parse other = .ok statements ∧
      before.map Token.word <+: Token.words other ∧ ('\n' ∉ line.toList → '\n' ∉ other.toList) := by
  obtain ⟨more, stopgaps, accepted⟩ := completable
  have fromLine : ∀ word ∈ before.map Token.word, word ∈ Token.words line := by
    intro word member
    rw [Token.words, tokens, List.map_append]
    exact List.mem_append_left _ member
  have typable : ∀ word ∈ (before ++ more).map Token.word, word.Typable := by
    rw [List.map_append]
    refine List.forall_mem_append.mpr
      ⟨fun word member => Token.typable_words known word (fromLine word member), ?_⟩
    exact List.forall_mem_map.mpr fun token member =>
      Token.typable_of_stopgap (stopgaps token member)
  obtain ⟨statements, success⟩ := exists_parse_typed accepted typable
  refine ⟨_, statements, success, ?_, ?_⟩
  · rw [Token.words_typed typable, List.map_append]
    exact List.prefix_append _ _
  · intro physical member
    rw [Word.typed, String.toList_ofList] at member
    obtain ⟨word, among, inside⟩ := List.mem_flatMap.mp member
    rcases List.mem_append.mp inside with inText | isSpace
    · rw [List.map_append] at among
      rcases List.mem_append.mp among with isBefore | isMore
      · exact physical (Token.mem_of_mem_words (fromLine word isBefore) inText)
      · obtain ⟨token, isStopgap, rfl⟩ := List.mem_map.mp isMore
        exact Token.noLineEnd_of_stopgap (stopgaps token isStopgap) inText
    · exact absurd (List.mem_singleton.mp isSpace) (by decide)

/-- No accepted line goes on with a refused token, whatever comes after it. -/
theorem head?_ne_of_stopsAt {before rest : List Token} {misfit : Misfit}
    (stopsAt : StopsAt readLine before rest misfit) {other : String} {statements : List Statement}
    (success : parse other = .ok statements) {more : List Word}
    (words : Token.words other = before.map Token.word ++ more) :
    more.head? ≠ rest.head?.map Token.word := by
  intro sameHead
  obtain ⟨others, more_eq, others_eq⟩ :
      ∃ others : List Token, others.map Token.word = more ∧ others.head? = rest.head? := by
    cases rest with
    | nil => exact ⟨[], (List.head?_eq_none_iff.mp sameHead).symm, rfl⟩
    | cons token rest =>
      obtain ⟨later, rfl⟩ := List.head?_eq_some_iff.mp sameHead
      exact ⟨token :: placed later, by simp [map_word_placed], rfl⟩
  refine stopsAt.refused others others_eq (accepts_of_parse success ?_)
  rw [List.map_append, more_eq, words]

/-- A line is refused at the first character that belongs to no token of the grammar, or where its
    tokens are refused if there is no such character. -/
theorem parse_eq_error_iff (line : String) (error : SyntaxError) :
    parse line = .error error ↔ error.line = line ∧
      match (Token.significant line).find? (·.kind = .unknown) with
      | some token => error.toMisfit = ⟨some token, .illegalCharacter⟩
      | none => readLine (Token.significant line) = .error error.toMisfit := by
  obtain ⟨misfit, place⟩ := error
  unfold parse readingLine
  dsimp only
  cases (Token.significant line).find? (·.kind = .unknown) with
  | some token => simp [Except.mapError, Except.map, eq_comm, and_comm]
  | none =>
    cases readLine (Token.significant line) with
    | error other => simp [Except.mapError, Except.map, eq_comm, and_comm]
    | ok results => simp [Except.mapError, Except.map]

/-- The first illegal character of a line is the first one among its significant tokens, too. -/
theorem find?_significant {line : String} {before after : List Token} {token : Token}
    (scanned : Token.scan line = before ++ token :: after) (unknown : token.kind = .unknown)
    (known : ∀ other ∈ before, other.kind ≠ .unknown) :
    (Token.significant line).find? (·.kind = .unknown) = some token := by
  have significant : token.isSignificant = true := by simp [Token.isSignificant, unknown]
  have none : (before.filter Token.isSignificant).find? (·.kind = .unknown) = none := by
    refine List.find?_eq_none.mpr fun other member => ?_
    simpa using known other (List.mem_of_mem_filter member)
  rw [Token.significant, scanned, List.filter_append, List.filter_cons_of_pos significant,
    List.find?_append, none, List.find?_cons_of_pos (by simpa using unknown)]
  rfl

end Statement

/-- A place that is not negative denotes itself, or the end of the text. -/
theorem Report.position_natCast (length place : Nat) :
    position length place = min place length := by
  rw [position, if_neg (by omega), Int.toNat_natCast]

namespace SyntaxError

/-- What stands in a column below a refused line: a caret where the refused token begins, and tildes
    after it. -/
def mark (error : SyntaxError) (column : Nat) : Char :=
  if column < error.start then ' ' else if column = error.start then '^' else '~'

/-- The row of marks is blank up to the caret, and the tildes follow the caret. -/
theorem map_mark (error : SyntaxError) (width : Nat) :
    (List.range (error.start + 1 + width)).map error.mark =
      List.replicate error.start ' ' ++ '^' :: List.replicate width '~' := by
  have before : (List.range error.start).map error.mark = List.replicate error.start ' ' := by
    refine List.eq_replicate_iff.mpr ⟨by simp, ?_⟩
    intro c member
    obtain ⟨column, inside, rfl⟩ := List.mem_map.mp member
    exact if_pos (List.mem_range.mp inside)
  have after : (List.range width).map (fun column => error.mark (error.start + 1 + column)) =
      List.replicate width '~' := by
    refine List.eq_replicate_iff.mpr ⟨by simp, ?_⟩
    intro c member
    obtain ⟨column, _, rfl⟩ := List.mem_map.mp member
    rw [mark, if_neg (by omega), if_neg (by omega)]
  have caret : error.mark error.start = '^' := by simp [mark]
  rw [List.range_add, List.range_succ, List.map_append, List.map_append, List.map_map, before,
    List.map_singleton, caret]
  simp only [Function.comp_def, after, List.append_assoc, List.singleton_append]

/-- Two places, one not before the other, cut a row of characters into three pieces, whatever is
    written after it. -/
theorem take_append_drop_take {first last : Nat} (ordered : first ≤ last)
    (characters below : List Char) :
    characters.take first ++ ((characters.take last).drop first ++
      (characters.drop last ++ below)) =
      characters ++ below := by
  have begins : characters.take first = (characters.take last).take first := by
    rw [List.take_take, Nat.min_eq_left ordered]
  rw [begins, ← List.append_assoc, List.take_append_drop, ← List.append_assoc,
    List.take_append_drop]

/-- The report of a syntax error shows the line as it is, and the marks below it. -/
theorem render_pointer (error : SyntaxError) (color : Color) :
    (error.report.pointer color).render false =
      "  " ++ error.line ++ "\n  " ++
        String.ofList ((List.range (max error.stop (error.start + 1))).map error.mark) := by
  obtain ⟨width, marked⟩ : ∃ width, max error.stop (error.start + 1) = error.start + 1 + width :=
    ⟨_, (Nat.add_sub_cancel' (Nat.le_max_right _ _)).symm⟩
  have markedStop : error.report.markedStop = ((error.start + 1 + width : Nat) : Int) := by
    rw [← marked, Report.markedStop]
    simp only [report]
    omega
  have widthEq : (error.report.markedStop - error.report.start - 1).toNat = width := by
    rw [markedStop]
    simp only [report]
    omega
  have ordered : Report.position error.line.toList.length error.report.start ≤
      Report.position error.line.toList.length error.report.markedStop := by
    rw [markedStop, show error.report.start = (error.start : Int) from rfl, Report.position_natCast,
      Report.position_natCast]
    omega
  have shown := take_append_drop_take ordered error.line.toList
    ('\n' :: ' ' :: ' ' :: (List.replicate error.start ' ' ++ '^' :: List.replicate width '~'))
  rw [marked, map_mark, ← String.toList_inj]
  have subject : error.report.subject = error.line := rfl
  have start : error.report.start.toNat = error.start := rfl
  simpa [Report.pointer, subject, start, widthEq, Markup.render, Markup.text,
    Markup.plain, Markup.vivid]
    using shown

end SyntaxError

namespace Statement

/-- An error of a line, with the significant tokens of the line divided into those before the place
    that is blamed and the rest. The tokens before begin an accepted line. No accepted line goes on
    with the first token of the rest, and none is just these tokens if nothing is left. -/
structure PointsAt (line : String) (error : SyntaxError) (before rest : List Token) : Prop where
  tokens : Token.significant line = before ++ rest
  start : error.start = (rest.head?.map Token.start).getD line.length
  stop : error.stop = (rest.head?.map Token.stop).getD line.length
  viable : ∃ other statements, parse other = .ok statements ∧
    before.map Token.word <+: Token.words other ∧ ('\n' ∉ line.toList → '\n' ∉ other.toList)
  refused : ∀ other statements more, parse other = .ok statements →
    Token.words other = before.map Token.word ++ more → more.head? ≠ rest.head?.map Token.word

/-- A line without illegal characters is refused where reading its tokens stops. -/
theorem exists_stopsAt {line : String} {error : SyntaxError} (failure : parse line = .error error)
    (known : ∀ word ∈ Token.words line, word.kind ≠ .unknown) :
    ∃ before rest, Token.significant line = before ++ rest ∧
      StopsAt readLine before rest error.toMisfit := by
  have none : (Token.significant line).find? (·.kind = .unknown) = none := by
    simpa [Token.words, Token.word] using known
  obtain ⟨_, refused⟩ := (parse_eq_error_iff line error).mp failure
  rw [none] at refused
  exact stopsAt_readLine refused

/-- The error of a line without illegal characters points at the first token that cannot be
    right. -/
theorem exists_pointsAt {line : String} {error : SyntaxError} (failure : parse line = .error error)
    (known : ∀ token ∈ Token.scan line, token.kind ≠ .unknown) :
    ∃ before rest, PointsAt line error before rest := by
  have knownWords : ∀ word ∈ Token.words line, word.kind ≠ .unknown :=
    List.forall_mem_map.mpr fun token member => known token (List.mem_of_mem_filter member)
  have same := ((parse_eq_error_iff line error).mp failure).1
  obtain ⟨before, rest, tokens, stopsAt⟩ := exists_stopsAt failure knownWords
  have token : error.token = rest.head? := stopsAt.token
  refine ⟨before, rest, tokens, ?_, ?_, ?_, ?_⟩
  · rw [SyntaxError.start, token, same]
    cases rest <;> rfl
  · rw [SyntaxError.stop, token, same]
    cases rest <;> rfl
  · exact exists_parse_of_completable tokens knownWords stopsAt.completable
  · exact fun other statements more success words => head?_ne_of_stopsAt stopsAt success words

/-- A line with illegal characters is refused at the first of them. Any other line that is
    refused is refused at the first token that cannot be right, or at its end. The report of
    the error shows the line, and below it marks the columns of the span, or one column if the
    span is empty. -/
theorem syntax_errors_point_at_first_wrong_token (line : String) :
    (∀ before token after, Token.scan line = before ++ token :: after → token.kind = .unknown →
      (∀ other ∈ before, other.kind ≠ .unknown) →
      ∃ error, parse line = .error error ∧ error.start = token.start ∧ error.stop = token.stop) ∧
    ∀ error, parse line = .error error →
      error.line = line ∧
      ((∀ token ∈ Token.scan line, token.kind ≠ .unknown) →
        ∃ before rest, PointsAt line error before rest) ∧
      ∀ color, (error.report.pointer color).render false = "  " ++ line ++ "\n  " ++
        String.ofList ((List.range (max error.stop (error.start + 1))).map error.mark) := by
  refine ⟨?_, fun error failure => ?_⟩
  · intro before token after scanned unknown known
    have found := find?_significant scanned unknown known
    refine ⟨⟨⟨some token, .illegalCharacter⟩, line⟩,
      (parse_eq_error_iff _ _).mpr ⟨rfl, ?_⟩, rfl, rfl⟩
    rw [found]
  · have same := ((parse_eq_error_iff line error).mp failure).1
    refine ⟨same, exists_pointsAt failure, fun color => ?_⟩
    rw [SyntaxError.render_pointer, same]

/-- The binder needs its dot where the semicolon stands, and in the other line nothing stands after
    the quote that it could pair with. -/
theorem syntax_errors_point_at_first_wrong_token_two_lines :
    let error : SyntaxError := ⟨⟨some ⟨.semicolon, [';'], 9⟩, .expected .dot⟩, "a = x (λy; b"⟩
    parse "a = x (λy; b" = .error error ∧
      (∃ before rest, PointsAt "a = x (λy; b" error before rest) ∧
      (error.report.pointer .red).render false = "  a = x (λy; b\n           ^" ∧
      ∃ error, parse "x \" y" = .error error ∧ error.start = 2 ∧ error.stop = 3 := by
  intro error
  have failure : parse "a = x (λy; b" = .error error := by with_unfolding_all rfl
  obtain ⟨_, refused⟩ := syntax_errors_point_at_first_wrong_token "a = x (λy; b"
  obtain ⟨_, points, shown⟩ := refused error failure
  obtain ⟨illegal, _⟩ := syntax_errors_point_at_first_wrong_token "x \" y"
  refine ⟨failure, points (by decide +kernel), (shown .red).trans (by decide +kernel), ?_⟩
  exact illegal [⟨.name, ['x'], 0⟩, ⟨.blank, [' '], 1⟩] ⟨.unknown, ['"'], 2⟩
    [⟨.blank, [' '], 3⟩, ⟨.name, ['y'], 4⟩] (by decide +kernel) rfl (by decide)

end Statement

end UntypedLambda
