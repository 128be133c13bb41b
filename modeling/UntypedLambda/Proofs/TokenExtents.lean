import Mathlib.Data.List.DropRight
import UntypedLambda.Proofs.TokenTexts

/-!
# Where tokens end

A word is a token in front of some characters exactly if it is made as the words of
its kind are made and may end in front of these characters. The first condition
does not look at what follows. The second looks at the next character only, with
one exception: a double quote that is a token of its own has no double quote
anywhere after it.

So a text may be cut off after any of its tokens, and it may be continued after its
last token wherever that token may end; the tokens before stay what they are.
-/

namespace UntypedLambda

namespace Token

/-- How the words of a kind are made: the first character, and those after it. -/
def Shaped (first : Char) (text : List Char) : TokenKind → Prop
  | .number => isDigit first = true ∧ ∀ c ∈ text, isDigit c = true
  | .name => isNameStart first = true ∧ ∀ c ∈ text, isNameChar c = true
  | .blank => Blank.isBlank first = true ∧ ∀ c ∈ text, Blank.isBlank c = true
  | .comment => first = '#' ∧ ∀ c ∈ text, c ≠ '\n'
  | .string => first = '"' ∧ ∃ inner, text = inner ++ ['"'] ∧ '"' ∉ inner
  | .unknown => first = '"' ∧ text = []
  | kind => (first, kind) ∈ punctuation ∧ text = []

/-- What may follow a word of a kind, for the word to end there. -/
def Ends (following : List Char) : TokenKind → Prop
  | .number => ∀ c ∈ following.head?, isDigit c = false
  | .name => EndsName following
  | .blank => ∀ c ∈ following.head?, Blank.isBlank c = false
  | .comment => ∀ c ∈ following.head?, c = '\n'
  | .unknown => '"' ∉ following
  | _ => True

/-- Taking characters from two texts stops between them exactly if all of the first are
    taken and nothing of the second is. -/
theorem length_takeWhile_append_iff (taken : Char → Bool) (text following : List Char) :
    ((text ++ following).takeWhile taken).length = text.length ↔
      (∀ c ∈ text, taken c = true) ∧ ∀ c ∈ following.head?, taken c = false := by
  induction text with
  | nil =>
    cases following with
    | nil => simp
    | cons next following =>
      simp only [List.nil_append, List.takeWhile_cons]
      split <;> simp_all
  | cons first text inductionHypothesis =>
    cases continues : taken first with
    | true => simp [continues, inductionHypothesis]
    | false => simp [continues]

/-- A digit is not blank. -/
theorem isBlank_of_isDigit {c : Char} (digit : isDigit c = true) : Blank.isBlank c = false := by
  have range : 48 ≤ c.toNat ∧ c.toNat ≤ 57 := by
    simpa [isDigit, Char.le_def, UInt32.le_iff_toNat_le] using digit
  simp [Blank.isBlank, CharRanges.contains, Blank.ranges]
  omega

/-- A reserved character is neither a digit nor blank. -/
theorem plain_of_mem_reserved {c : Char} (member : c ∈ reserved) :
    isDigit c = false ∧ Blank.isBlank c = false := by
  have plain : reserved.all fun c => !isDigit c && !Blank.isBlank c := by decide
  simpa using List.all_eq_true.mp plain c member

/-- A digit begins a number. -/
theorem lexeme_of_isDigit {first : Char} (digit : isDigit first = true) (rest : List Char) :
    lexeme first rest = (.number, (rest.takeWhile isDigit).length) := by
  have unreserved : first ∉ reserved := by
    intro member
    simp [(plain_of_mem_reserved member).1] at digit
  rw [lexeme_of_not_mem_reserved unreserved, if_pos digit]

/-- A blank begins a blank. -/
theorem lexeme_of_isBlank {first : Char} (blank : Blank.isBlank first = true) (rest : List Char) :
    lexeme first rest = (.blank, (rest.takeWhile Blank.isBlank).length) := by
  have unreserved : first ∉ reserved := by
    intro member
    simp [(plain_of_mem_reserved member).2] at blank
  have noDigit : ¬ isDigit first = true := by
    intro digit
    simp [isBlank_of_isDigit digit] at blank
  rw [lexeme_of_not_mem_reserved unreserved, if_neg noDigit, if_pos blank]

/-- Every character is of one of six sorts: punctuation, the beginning of a comment, a
    quote, a digit, blank, or the beginning of a name. -/
theorem sort_cases (first : Char) :
    (∃ kind, (first, kind) ∈ punctuation) ∨ first = '#' ∨ first = '"' ∨ isDigit first = true ∨
      Blank.isBlank first = true ∨ isNameStart first = true := by
  by_cases isReserved : first ∈ reserved
  · rcases mem_reserved_cases isReserved with mark | comment | quote
    · exact .inl mark
    · exact .inr (.inl comment)
    · exact .inr (.inr (.inl quote))
  · cases digit : isDigit first with
    | true => simp
    | false =>
      cases blank : Blank.isBlank first with
      | true => simp
      | false => simp [isNameStart, isNameChar, isReserved, digit, blank]

/-- What stands before the first quote is a string up to that quote. -/
theorem idxOf?_quote {inner : List Char} (unquoted : '"' ∉ inner) (following : List Char) :
    (inner ++ ['"'] ++ following).idxOf? '"' = some inner.length := by
  induction inner with
  | nil => simp [List.idxOf?_cons]
  | cons c inner inductionHypothesis =>
    obtain ⟨different, unquoted⟩ : ¬ '"' = c ∧ '"' ∉ inner := by simpa using unquoted
    rw [List.cons_append, List.cons_append, List.idxOf?_cons, inductionHypothesis unquoted,
      if_neg (by simpa using Ne.symm different)]
    rfl

/-- A text that ends at the first quote is what stands before it, and the quote. -/
theorem exists_inner_of_idxOf? {text following : List Char} {index : Nat}
    (found : (text ++ following).idxOf? '"' = some index) (ended : index + 1 = text.length) :
    ∃ inner, text = inner ++ ['"'] ∧ '"' ∉ inner := by
  obtain ⟨_, isQuote, others⟩ := List.idxOf?_eq_some_iff.mp found
  have inside : index < text.length := by omega
  have last : text[index] = '"' := by rwa [List.getElem_append_left inside] at isQuote
  refine ⟨text.take index, ?_, ?_⟩
  · rw [← last, List.take_append_getElem, ended, List.take_length]
  · intro member
    obtain ⟨place, bound, isQuote'⟩ := List.mem_iff_getElem.mp member
    rw [List.length_take] at bound
    apply others place (by omega)
    rwa [List.getElem_append_left (by omega), ← List.getElem_take]

/-- A word that is a token in front of some characters is made like the words of its
    kind and may end there. -/
theorem shaped_of_lexeme {kind : TokenKind} {first : Char} {text following : List Char}
    (begins : lexeme first (text ++ following) = (kind, text.length)) :
    Shaped first text kind ∧ Ends following kind := by
  rcases sort_cases first with ⟨mark, isMark⟩ | rfl | rfl | digit | blank | isStart
  · rw [lexeme_punctuation isMark] at begins
    obtain ⟨rfl, none⟩ := Prod.mk.inj begins
    obtain rfl : text = [] := List.length_eq_zero_iff.mp none.symm
    have marks : ∀ mark ∈ punctuation,
        Shaped mark.1 [] mark.2 ∧ ∀ following, Ends following mark.2 := by
      simp [punctuation, Shaped, Ends]
    obtain ⟨shaped, ends⟩ := marks _ isMark
    exact ⟨shaped, ends following⟩
  · obtain ⟨rfl, taken⟩ := Prod.mk.inj begins
    simpa [Shaped, Ends] using (length_takeWhile_append_iff (· ≠ '\n') text following).mp taken
  · rw [lexeme_quote] at begins
    split at begins
    · rename_i index found
      obtain ⟨rfl, ended⟩ := Prod.mk.inj begins
      obtain ⟨inner, text_eq, unquoted⟩ := exists_inner_of_idxOf? found ended
      exact ⟨⟨rfl, inner, text_eq, unquoted⟩, trivial⟩
    · rename_i alone
      obtain ⟨rfl, none⟩ := Prod.mk.inj begins
      obtain rfl : text = [] := List.length_eq_zero_iff.mp none.symm
      exact ⟨⟨rfl, rfl⟩, List.idxOf?_eq_none_iff.mp alone⟩
  · rw [lexeme_of_isDigit digit] at begins
    obtain ⟨rfl, taken⟩ := Prod.mk.inj begins
    obtain ⟨among, ends⟩ := (length_takeWhile_append_iff isDigit text following).mp taken
    exact ⟨⟨digit, among⟩, ends⟩
  · rw [lexeme_of_isBlank blank] at begins
    obtain ⟨rfl, taken⟩ := Prod.mk.inj begins
    obtain ⟨among, ends⟩ := (length_takeWhile_append_iff Blank.isBlank text following).mp taken
    exact ⟨⟨blank, among⟩, ends⟩
  · rw [lexeme_of_isNameStart isStart] at begins
    obtain ⟨rfl, taken⟩ := Prod.mk.inj begins
    obtain ⟨among, ends⟩ := (length_takeWhile_append_iff isNameChar text following).mp taken
    exact ⟨⟨isStart, among⟩, ends⟩

/-- A word that is made like the words of its kind is a token wherever it may end. -/
theorem Shaped.lexeme_append {kind : TokenKind} {first : Char} {text : List Char}
    (shaped : Shaped first text kind) {following : List Char} (ends : Ends following kind) :
    lexeme first (text ++ following) = (kind, text.length) := by
  cases kind with
  | number =>
    rw [lexeme_of_isDigit shaped.1,
      (length_takeWhile_append_iff isDigit text following).mpr ⟨shaped.2, ends⟩]
  | name =>
    rw [lexeme_of_isNameStart shaped.1,
      (length_takeWhile_append_iff isNameChar text following).mpr ⟨shaped.2, ends⟩]
  | blank =>
    rw [lexeme_of_isBlank shaped.1,
      (length_takeWhile_append_iff Blank.isBlank text following).mpr ⟨shaped.2, ends⟩]
  | comment =>
    obtain ⟨rfl, inside⟩ := shaped
    have taken := (length_takeWhile_append_iff (· ≠ '\n') text following).mpr
      ⟨by simpa using inside, by simpa [Ends] using ends⟩
    exact congrArg (Prod.mk TokenKind.comment) taken
  | string =>
    obtain ⟨rfl, inner, rfl, unquoted⟩ := shaped
    rw [lexeme_quote, idxOf?_quote unquoted, List.length_append]
    rfl
  | unknown =>
    obtain ⟨rfl, rfl⟩ := shaped
    rw [lexeme_quote, List.nil_append, List.idxOf?_eq_none_iff.mpr ends]
    rfl
  | lambda | dot | opening | closing | equals | semicolon | colon =>
    obtain ⟨mark, rfl⟩ := shaped
    exact lexeme_punctuation mark _

/-- A word that is no blank does not begin with one. -/
theorem Shaped.isBlank_first {kind : TokenKind} {first : Char} {text : List Char}
    (shaped : Shaped first text kind) (nonblank : kind ≠ .blank) : Blank.isBlank first = false := by
  have marks : ∀ mark ∈ punctuation, Blank.isBlank mark.1 = false := by decide
  cases kind with
  | number => exact isBlank_of_isDigit shaped.1
  | name =>
    have isStart := shaped.1
    simp only [isNameStart, isNameChar, Bool.and_eq_true, Bool.not_eq_true'] at isStart
    exact isStart.1.2
  | blank => exact absurd rfl nonblank
  | comment | string | unknown =>
    obtain ⟨rfl, _⟩ := shaped
    decide
  | lambda | dot | opening | closing | equals | semicolon | colon => exact marks _ shaped.1

/-- A word that is no blank and no comment does not end with a blank. -/
theorem Shaped.isBlank_getLast {kind : TokenKind} {first : Char} {text : List Char}
    (shaped : Shaped first text kind) (nonblank : kind ≠ .blank) (noComment : kind ≠ .comment) :
    ∀ c ∈ (first :: text).getLast?, Blank.isBlank c = false := by
  have isFirst := shaped.isBlank_first nonblank
  have among (nonblanks : ∀ c ∈ text, Blank.isBlank c = false) :
      ∀ c ∈ (first :: text).getLast?, Blank.isBlank c = false := by
    intro c last
    rcases List.mem_cons.mp (List.mem_of_getLast? last) with rfl | member
    · exact isFirst
    · exact nonblanks c member
  cases kind with
  | number => exact among fun c member => isBlank_of_isDigit (shaped.2 c member)
  | name =>
    refine among fun c member => ?_
    have isChar := shaped.2 c member
    simp only [isNameChar, Bool.and_eq_true, Bool.not_eq_true'] at isChar
    exact isChar.2
  | blank => exact absurd rfl nonblank
  | comment => exact absurd rfl noComment
  | string =>
    obtain ⟨rfl, inner, rfl, _⟩ := shaped
    rw [← List.cons_append, List.getLast?_concat]
    rintro c ⟨rfl⟩
    decide
  | unknown | lambda | dot | opening | closing | equals | semicolon | colon =>
    obtain ⟨_, rfl⟩ := shaped
    exact among (by simp)

/-- Where a word may end, it may end if less follows. -/
theorem Ends.of_prefix {kind : TokenKind} {following less : List Char} (ends : Ends following kind)
    (isPrefix : less <+: following) : Ends less kind := by
  obtain ⟨more, rfl⟩ := isPrefix
  have head : ∀ c ∈ less.head?, c ∈ (less ++ more).head? := by
    intro c member
    rw [List.head?_append, member]
    rfl
  cases kind with
  | number | name | blank | comment => exact fun c member => ends c (head c member)
  | unknown => exact fun member => ends (List.mem_append_left more member)
  | lambda | dot | opening | closing | equals | semicolon | colon | string => trivial

/-- Every word may end where the text ends. -/
theorem ends_nil (kind : TokenKind) : Ends [] kind := by
  cases kind <;> simp [Ends, EndsName]

/-- Where a known word may end in front of something, it may end if more follows that. -/
theorem Ends.append {kind : TokenKind} {rest : List Char} (ends : Ends rest kind)
    (nonempty : rest ≠ []) (known : kind ≠ .unknown) (following : List Char) :
    Ends (rest ++ following) kind := by
  obtain ⟨next, others, rfl⟩ := List.exists_cons_of_ne_nil nonempty
  cases kind with
  | number | name | blank | comment => exact ends
  | unknown => exact absurd rfl known
  | lambda | dot | opening | closing | equals | semicolon | colon | string => trivial

/-- The texts of tokens are those of their words. -/
theorem flatMap_text_word (tokens : List Token) :
    (tokens.map word).flatMap Word.text = tokens.flatMap Token.text :=
  List.flatMap_map ..

/-- A word that is made like the words of its kind is a text of its own. -/
theorem Shaped.splits {kind : TokenKind} {first : Char} {text : List Char}
    (shaped : Shaped first text kind) : Splits (first :: text) [⟨kind, first :: text⟩] := by
  have whole := Splits.cons first text (shaped.lexeme_append (ends_nil kind)) .nil
  rwa [List.append_nil] at whole

/-- A text is the texts of its words. -/
theorem Splits.flatMap_text {characters : List Char} {words : List Word}
    (splits : Splits characters words) : words.flatMap Word.text = characters := by
  induction splits with
  | nil => rfl
  | cons first text begins _ inductionHypothesis => rw [List.flatMap_cons, inductionHypothesis]

/-- A line is the texts of its tokens. -/
theorem flatMap_text_scan (line : String) : (scan line).flatMap Token.text = line.toList :=
  (flatMap_text_word _).symm.trans (splits_scan line).flatMap_text

/-- Every word of a text is made like the words of its kind. -/
theorem Splits.shaped {characters : List Char} {words : List Word}
    (splits : Splits characters words) :
    ∀ word ∈ words, ∃ first text, word.text = first :: text ∧ Shaped first text word.kind := by
  induction splits with
  | nil => simp
  | cons first text begins _ inductionHypothesis =>
    exact List.forall_mem_cons.mpr ⟨⟨first, text, rfl, (shaped_of_lexeme begins).1⟩,
      inductionHypothesis⟩

/-- A text that is cut off after some of its words splits into these words. -/
theorem Splits.initial {characters : List Char} {words others : List Word}
    (splits : Splits characters (words ++ others)) : Splits (words.flatMap Word.text) words := by
  induction words generalizing characters with
  | nil => exact .nil
  | cons word words inductionHypothesis =>
    cases splits with
    | cons first text begins rest =>
      obtain ⟨shaped, ends⟩ := shaped_of_lexeme begins
      have isPrefix : words.flatMap Word.text <+: _ :=
        ⟨others.flatMap Word.text, List.flatMap_append.symm.trans rest.flatMap_text⟩
      exact .cons first text (shaped.lexeme_append (ends.of_prefix isPrefix))
        (inductionHypothesis rest)

/-- What follows some words of a text splits into the others. -/
theorem Splits.final {characters : List Char} {words others : List Word}
    (splits : Splits characters (words ++ others)) : Splits (others.flatMap Word.text) others := by
  induction words generalizing characters with
  | nil => exact splits.flatMap_text.symm ▸ splits
  | cons word words inductionHypothesis =>
    cases splits with
    | cons first text begins rest => exact inductionHypothesis rest

/-- A text may be continued wherever its last word may end, if no lone quote in it pairs with
    what follows. -/
theorem Splits.append {characters following : List Char} {words others : List Word}
    (splits : Splits characters words) (known : ∀ word ∈ words, word.kind ≠ .unknown)
    (ends : ∀ last ∈ words.getLast?, Ends following last.kind) (rest : Splits following others) :
    Splits (characters ++ following) (words ++ others) := by
  induction splits with
  | nil => exact rest
  | @cons kind first text more words begins splits inductionHypothesis =>
    obtain ⟨shaped, endsHere⟩ := shaped_of_lexeme begins
    obtain ⟨knownHere, knownLater⟩ := List.forall_mem_cons.mp known
    rw [List.append_assoc]
    cases splits with
    | nil => exact .cons first text (shaped.lexeme_append (ends _ rfl)) rest
    | cons next letters begins' splits' =>
      have begins' :=
        shaped.lexeme_append (endsHere.append (List.cons_ne_nil _ _) knownHere following)
      exact .cons first text begins' (inductionHypothesis knownLater ends)

/-- A token begins after the texts of the tokens before it. -/
theorem start_of_scanFrom (start : Nat) (characters : List Char) (before after : List Token)
    (token : Token) (scanned : scanFrom start characters = before ++ token :: after) :
    token.start = start + (before.flatMap Token.text).length := by
  fun_induction scanFrom start characters generalizing before with
  | case1 start => simp at scanned
  | case2 start first rest kind further begins text inductionHypothesis =>
    cases before with
    | nil =>
      obtain ⟨rfl, _⟩ := List.cons.inj scanned
      rfl
    | cons other before =>
      obtain ⟨rfl, later⟩ := List.cons.inj scanned
      rw [inductionHypothesis before later, List.flatMap_cons, List.length_append, Nat.add_assoc]

end Token

end UntypedLambda
