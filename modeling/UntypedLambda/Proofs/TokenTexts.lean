import UntypedLambda.Proofs.Grammar
import UntypedLambda.Proofs.ValidNames

/-!
# How a text splits into tokens

A text is the texts of its tokens, one after the other, blanks and comments among
them. Where a token ends depends on what follows it, so a row of words cannot be
checked word by word: each has to be the token that its first character begins in
front of all the words after it.

A name that is followed by a character that no name contains, or by nothing, is a
single token. Conversely, every token that is a name is one that can be typed.
-/

namespace UntypedLambda

/-- Whether a word matters to the grammar. -/
def Word.isSignificant (word : Word) : Bool :=
  word.kind ≠ .comment && word.kind ≠ .blank

/-- A word that is a name is a valid one. -/
def Word.Valid (word : Word) : Prop :=
  word.kind = .name → Name.Valid word.content

namespace Token

/-- The characters that are tokens by themselves, with the kinds of these tokens. -/
def punctuation : List (Char × TokenKind) :=
  [('λ', .lambda), ('\\', .lambda), ('.', .dot), ('(', .opening), (')', .closing), ('=', .equals),
    (';', .semicolon), (':', .colon)]

/-- A punctuation mark is a token, whatever follows it. -/
theorem lexeme_punctuation {first : Char} {kind : TokenKind} (mark : (first, kind) ∈ punctuation)
    (rest : List Char) : lexeme first rest = (kind, 0) := by
  simp only [punctuation, List.mem_cons, List.not_mem_nil, or_false, Prod.mk.injEq] at mark
  rcases mark with ⟨rfl, rfl⟩ | ⟨rfl, rfl⟩ | ⟨rfl, rfl⟩ | ⟨rfl, rfl⟩ | ⟨rfl, rfl⟩ | ⟨rfl, rfl⟩ |
    ⟨rfl, rfl⟩ | ⟨rfl, rfl⟩
  all_goals rfl

/-- A character that is not reserved begins a number, a blank or a name. -/
theorem lexeme_of_not_mem_reserved {first : Char} (unreserved : first ∉ reserved)
    (rest : List Char) :
    lexeme first rest =
      if isDigit first then (.number, (rest.takeWhile isDigit).length)
      else if Blank.isBlank first then (.blank, (rest.takeWhile Blank.isBlank).length)
      else (.name, (rest.takeWhile isNameChar).length) := by
  simp only [reserved, List.mem_cons, List.not_mem_nil, or_false, not_or] at unreserved
  obtain ⟨lambda, backslash, dot, opening, closing, equals, semicolon, colon, hash, quote⟩ :=
    unreserved
  rw [lexeme, if_neg (not_or_intro lambda backslash), if_neg dot, if_neg opening, if_neg closing,
    if_neg equals, if_neg semicolon, if_neg colon, if_neg quote, if_neg hash]

/-- A quote begins a string that ends at the next quote, if there is one. -/
theorem lexeme_quote (rest : List Char) :
    lexeme '"' rest =
      match rest.idxOf? '"' with
      | some index => (.string, index + 1)
      | none => (.unknown, 0) := rfl

/-- A reserved character is punctuation, or it begins a comment or a string. -/
theorem mem_reserved_cases {c : Char} (isReserved : c ∈ reserved) :
    (∃ kind, (c, kind) ∈ punctuation) ∨ c = '#' ∨ c = '"' := by
  have cases : (reserved.all fun c => c ∈ punctuation.map Prod.fst ∨ c = '#' ∨ c = '"') = true := by
    decide
  rcases of_decide_eq_true (List.all_eq_true.mp cases c isReserved) with mark | other
  · obtain ⟨⟨_, kind⟩, member, rfl⟩ := List.mem_map.mp mark
    exact .inl ⟨kind, member⟩
  · exact .inr other

/-- A character that may begin a name begins one. -/
theorem lexeme_of_isNameStart {first : Char} (isStart : isNameStart first = true)
    (rest : List Char) : lexeme first rest = (.name, (rest.takeWhile isNameChar).length) := by
  have unreserved : first ∉ reserved ∧ Blank.isBlank first = false ∧ isDigit first = false := by
    simpa [isNameStart, isNameChar, and_assoc] using isStart
  rw [lexeme_of_not_mem_reserved unreserved.1, unreserved.2.1, unreserved.2.2]
  rfl

/-- Only a character that may begin a name begins one. -/
theorem isNameStart_of_lexeme {first : Char} {rest : List Char}
    (begins : (lexeme first rest).1 = .name) : isNameStart first = true := by
  by_cases isReserved : first ∈ reserved
  · rcases mem_reserved_cases isReserved with ⟨kind, mark⟩ | rfl | rfl
    · rw [lexeme_punctuation mark] at begins
      have others : ∀ mark ∈ punctuation, mark.2 ≠ .name := by decide
      exact absurd begins (others _ mark)
    · cases begins
    · rw [lexeme_quote] at begins
      split at begins
      · cases begins
      · cases begins
  · rw [lexeme_of_not_mem_reserved isReserved] at begins
    split at begins
    · cases begins
    split at begins
    · cases begins
    · simp_all [isNameStart, isNameChar]

/-- A token does not reach beyond the end of the text. -/
theorem lexeme_le (first : Char) (rest : List Char) : (lexeme first rest).2 ≤ rest.length := by
  have takeWhile_le (p : Char → Bool) : (rest.takeWhile p).length ≤ rest.length :=
    (List.takeWhile_sublist p).length_le
  by_cases isReserved : first ∈ reserved
  · rcases mem_reserved_cases isReserved with ⟨kind, mark⟩ | rfl | rfl
    · rw [lexeme_punctuation mark]
      exact Nat.zero_le _
    · exact takeWhile_le (· ≠ '\n')
    · rw [lexeme_quote]
      split
      · rename_i index found
        exact (List.idxOf?_eq_some_iff.mp found).1
      · exact Nat.zero_le _
  · rw [lexeme_of_not_mem_reserved isReserved]
    split
    · exact takeWhile_le isDigit
    split
    · exact takeWhile_le Blank.isBlank
    · exact takeWhile_le isNameChar

/-- The words that a text splits into, blanks and comments among them. -/
inductive Splits : List Char → List Word → Prop where
  | nil : Splits [] []
  | cons {kind : TokenKind} (first : Char) (text : List Char) {following : List Char}
      {words : List Word} (begins : lexeme first (text ++ following) = (kind, text.length))
      (rest : Splits following words) :
      Splits (first :: text ++ following) (⟨kind, first :: text⟩ :: words)

/-- The tokens of a text are the words that it splits into, wherever it begins. -/
theorem Splits.map_word_scanFrom {characters : List Char} {words : List Word}
    (splits : Splits characters words) (start : Nat) :
    (scanFrom start characters).map word = words := by
  induction splits generalizing start with
  | nil => rw [scanFrom, List.map_nil]
  | cons first text begins _ inductionHypothesis =>
    rw [List.cons_append, scanFrom, begins]
    simp only [List.take_left, List.drop_left, List.map_cons, word, inductionHypothesis]

/-- Every text splits into its tokens. -/
theorem splits_scanFrom (start : Nat) (characters : List Char) :
    Splits characters ((scanFrom start characters).map word) := by
  fun_induction scanFrom start characters with
  | case1 start => exact .nil
  | case2 start first rest kind further begins text inductionHypothesis =>
    have inside : further ≤ rest.length := by
      have bound := lexeme_le first rest
      rwa [begins] at bound
    have begins' : lexeme first (rest.take further ++ rest.drop further) =
        (kind, (rest.take further).length) := by
      rw [List.take_append_drop, begins, List.length_take, Nat.min_eq_left inside]
    have whole := Splits.cons first (rest.take further) begins' inductionHypothesis
    rwa [List.cons_append, List.take_append_drop] at whole

/-- Every line splits into its tokens. -/
theorem splits_scan (line : String) : Splits line.toList ((scan line).map word) :=
  splits_scanFrom 0 line.toList

/-- The first token of a text begins where the text begins. -/
theorem start_of_head?_scanFrom (start : Nat) (characters : List Char) :
    ∀ token ∈ (scanFrom start characters).head?, token.start = start := by
  cases characters with
  | nil => simp [scanFrom]
  | cons first rest => simp [scanFrom]

/-- The last token of a text ends where the text ends. -/
theorem stop_of_getLast?_scanFrom (start : Nat) (characters : List Char) :
    ∀ token ∈ (scanFrom start characters).getLast?,
      token.stop = start + characters.length := by
  fun_induction scanFrom start characters with
  | case1 start => simp
  | case2 start first rest kind further begins text inductionHypothesis =>
    have whole : text.length + (rest.drop further).length = (first :: rest).length := by
      simp only [text, List.length_cons, List.length_take, List.length_drop]
      omega
    intro token last
    cases later : rest.drop further with
    | nil =>
      rw [later, scanFrom] at last
      obtain rfl : Token.mk kind text start = token := Option.some.inj last
      rw [later] at whole
      rw [← whole]
      rfl
    | cons next others =>
      rw [List.getLast?_cons_of_ne_nil (by simp [later, scanFrom])] at last
      rw [inductionHypothesis token last, ← whole]
      omega

/-- The words of a line are the significant ones among those that it splits into. -/
theorem Splits.words_eq {line : String} {words : List Word} (splits : Splits line.toList words) :
    Token.words line = words.filter Word.isSignificant := by
  rw [← splits.map_word_scanFrom 0, List.filter_map]
  rfl

/-- A punctuation mark is one word of a text. -/
theorem Splits.mark {first : Char} {kind : TokenKind} {following : List Char} {words : List Word}
    (mark : (first, kind) ∈ punctuation) (rest : Splits following words) :
    Splits (first :: following) (⟨kind, [first]⟩ :: words) :=
  .cons first [] (lexeme_punctuation mark _) rest

/-- A single space is one word of a text if something follows that is not blank. -/
theorem Splits.space {next : Char} {following : List Char} {words : List Word}
    (nonblank : Blank.isBlank next = false) (rest : Splits (next :: following) words) :
    Splits (' ' :: next :: following) (⟨.blank, [' ']⟩ :: words) := by
  refine .cons ' ' [] ?_ rest
  have unreserved : ' ' ∉ reserved := by decide
  have stops : (next :: following).takeWhile Blank.isBlank = [] := by
    rw [List.takeWhile_cons, nonblank]
    rfl
  rw [lexeme_of_not_mem_reserved unreserved, List.nil_append, stops]
  rfl

/-- What may follow a name: a character that no name contains, or nothing. -/
def EndsName (following : List Char) : Prop :=
  ∀ c ∈ following.head?, isNameChar c = false

/-- A valid name is one word of a text if it ends there. -/
theorem Splits.name {name : Name} {following : List Char} {words : List Word} (valid : name.Valid)
    (ends : EndsName following) (rest : Splits following words) :
    Splits (name.toList ++ following) (⟨.name, name.toList⟩ :: words) := by
  obtain ⟨first, others, name_eq, isStart, continues⟩ := (Name.valid_iff name).mp valid
  rw [name_eq]
  refine .cons first others ?_ rest
  have stops : following.takeWhile isNameChar = [] := by
    cases following with
    | nil => rfl
    | cons next following =>
      rw [List.takeWhile_cons, ends next rfl]
      rfl
  rw [lexeme_of_isNameStart isStart, List.takeWhile_append_of_pos continues, stops, List.append_nil]

/-- Every name that a text splits into is valid: the characters after its first are all that can
    continue a name. -/
theorem Splits.valid {characters : List Char} {words : List Word}
    (splits : Splits characters words) :
    ∀ word ∈ words, word.Valid := by
  induction splits with
  | nil => simp
  | @cons kind first text following words begins _ inductionHypothesis =>
    refine List.forall_mem_cons.mpr ⟨?_, inductionHypothesis⟩
    intro isName
    obtain rfl : kind = .name := isName
    have isStart : isNameStart first = true := isNameStart_of_lexeme (congrArg Prod.fst begins)
    have taken : ((text ++ following).takeWhile isNameChar).length = text.length := by
      rw [lexeme_of_isNameStart isStart] at begins
      exact congrArg Prod.snd begins
    have text_eq : (text ++ following).takeWhile isNameChar = text :=
      (List.prefix_of_prefix_length_le (List.takeWhile_prefix _) (List.prefix_append text following)
        (Nat.le_of_eq taken)).eq_of_length taken
    refine (Name.valid_iff _).mpr ⟨first, text, String.toList_ofList, isStart, ?_⟩
    intro c member
    rw [← text_eq] at member
    exact List.mem_takeWhile_imp member

/-- Every name of a line is valid. -/
theorem valid_words (line : String) : ∀ word ∈ Token.words line, word.Valid := by
  have splits := splits_scan line
  rw [splits.words_eq]
  intro word member
  exact splits.valid word (List.mem_filter.mp member).1

end Token

end UntypedLambda
