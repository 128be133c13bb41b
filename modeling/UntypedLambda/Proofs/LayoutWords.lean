import UntypedLambda.Layout
import UntypedLambda.Proofs.TokenExtents

/-!
# Layout keeps the words of a line

What a text carries are the words that it splits into, the blanks between them aside.
Blanks at either end of a text add nothing to that, and what a text and another one
after a blank carry is what both of them carry, one after the other. Two kinds of word
would upset this: a comment swallows what follows it, and a lone double quote pairs
with a later one.

So a line without its comment carries the significant words of the line, and joining it
to a text that holds neither a comment nor a lone quote appends them. Whether a text is
continued depends on its words alone.
-/

namespace UntypedLambda

namespace Token

/-- The words of some characters, blanks aside. -/
def Carries (characters : List Char) (words : List Word) : Prop :=
  ∃ all, Splits characters all ∧ all.filter (·.kind ≠ .blank) = words

/-- A word that ends where a text does and pairs with nothing after it. -/
def Closed (word : Word) : Prop :=
  word.kind ≠ .comment ∧ word.kind ≠ .unknown

/-- A text carries at most one row of words. -/
theorem Carries.unique {characters : List Char} {words others : List Word}
    (carries : Carries characters words) (otherCarries : Carries characters others) :
    words = others := by
  obtain ⟨all, splits, rfl⟩ := carries
  obtain ⟨otherAll, otherSplits, rfl⟩ := otherCarries
  rw [← splits.map_word_scanFrom 0, ← otherSplits.map_word_scanFrom 0]

/-- The significant words of a text are those that it carries, comments aside. -/
theorem Carries.words_eq {line : String} {words : List Word} (carries : Carries line.toList words) :
    Token.words line = words.filter (·.kind ≠ .comment) := by
  obtain ⟨all, splits, rfl⟩ := carries
  rw [splits.words_eq, List.filter_filter]
  refine List.filter_congr fun word _ => ?_
  simp [Word.isSignificant]

/-- Nothing is carried by nothing. -/
theorem carries_nil : Carries [] [] :=
  ⟨[], .nil, rfl⟩

/-- Blanks in front of a text add no words. A blank at its beginning grows. -/
theorem Carries.blank_append {characters : List Char} {words : List Word}
    (carries : Carries characters words) {blanks : List Char}
    (blank : ∀ c ∈ blanks, Blank.isBlank c = true) : Carries (blanks ++ characters) words := by
  cases blanks with
  | nil => exact carries
  | cons first blanks =>
    obtain ⟨isFirst, others⟩ := List.forall_mem_cons.mp blank
    obtain ⟨all, splits, rfl⟩ := carries
    cases splits with
    | nil =>
      have shaped : Shaped first blanks .blank := ⟨isFirst, others⟩
      rw [List.append_nil]
      exact ⟨_, shaped.splits, rfl⟩
    | @cons kind next text following rest begins splits =>
      obtain ⟨shaped, ends⟩ := shaped_of_lexeme begins
      by_cases grows : kind = .blank
      · subst grows
        have longer : Shaped first (blanks ++ next :: text) .blank :=
          ⟨isFirst, List.forall_mem_append.mpr ⟨others, List.forall_mem_cons.mpr shaped⟩⟩
        have whole := Splits.cons first (blanks ++ next :: text) (longer.lexeme_append ends) splits
        rw [List.cons_append, List.append_assoc] at whole
        exact ⟨_, whole, by simp⟩
      · have separate : Ends (next :: text ++ following) .blank := by
          rintro c ⟨rfl⟩
          exact shaped.isBlank_first grows
        have blankShaped : Shaped first blanks .blank := ⟨isFirst, others⟩
        have whole := Splits.cons first blanks (blankShaped.lexeme_append separate)
          (Splits.cons next text begins splits)
        exact ⟨_, whole, by simp⟩

/-- Where a word may end, it may end if a blank follows at last, unless it is a blank
    itself or pairs with what follows. -/
theorem Ends.append_blank {kind : TokenKind} {rest following : List Char} (ends : Ends rest kind)
    (nonblank : kind ≠ .blank) (noComment : kind ≠ .comment) (known : kind ≠ .unknown)
    (separated : ∀ c ∈ following.head?, Blank.isBlank c = true) :
    Ends (rest ++ following) kind := by
  have noDigit {c : Char} (blank : Blank.isBlank c = true) : isDigit c = false := by
    cases digit : isDigit c with
    | false => rfl
    | true => simp [isBlank_of_isDigit digit] at blank
  have noName {c : Char} (blank : Blank.isBlank c = true) : isNameChar c = false := by
    simp [isNameChar, blank]
  cases rest with
  | nil =>
    cases kind with
    | number => exact fun c member => noDigit (separated c member)
    | name => exact fun c member => noName (separated c member)
    | blank => exact absurd rfl nonblank
    | comment => exact absurd rfl noComment
    | unknown => exact absurd rfl known
    | lambda | dot | opening | closing | equals | semicolon | colon | string => trivial
  | cons next rest => exact ends.append (List.cons_ne_nil _ _) known following

/-- A text and another one after a blank carry what both of them carry, if nothing in
    the first one reaches over. -/
theorem Carries.append {characters following : List Char} {words others : List Word}
    (carries : Carries characters words) (closed : ∀ word ∈ words, Closed word)
    (otherCarries : Carries following others)
    (separated : ∀ c ∈ following.head?, Blank.isBlank c = true) :
    Carries (characters ++ following) (words ++ others) := by
  obtain ⟨all, splits, rfl⟩ := carries
  induction splits with
  | nil => exact otherCarries
  | @cons kind first text rest all begins _ inductionHypothesis =>
    obtain ⟨shaped, ends⟩ := shaped_of_lexeme begins
    rw [List.append_assoc]
    by_cases isBlank : kind = .blank
    · subst isBlank
      rw [List.filter_cons_of_neg (by simp)] at closed ⊢
      exact (inductionHypothesis closed).blank_append (List.forall_mem_cons.mpr shaped)
    · rw [List.filter_cons_of_pos (by simpa using isBlank)] at closed ⊢
      obtain ⟨⟨noComment, known⟩, others⟩ := List.forall_mem_cons.mp closed
      obtain ⟨more, moreSplits, more_eq⟩ := inductionHypothesis others
      have begins' := shaped.lexeme_append (ends.append_blank isBlank noComment known separated)
      refine ⟨_, .cons first text begins' moreSplits, ?_⟩
      rw [List.filter_cons_of_pos (by simpa using isBlank), more_eq, List.cons_append]

/-- A text without the blanks at its beginning carries the same words. -/
theorem Carries.dropWhile_isBlank {characters : List Char} {words : List Word}
    (carries : Carries characters words) : Carries (characters.dropWhile Blank.isBlank) words := by
  obtain ⟨all, splits, rfl⟩ := carries
  cases splits with
  | nil => exact carries_nil
  | @cons kind first text following rest begins splits =>
    obtain ⟨shaped, ends⟩ := shaped_of_lexeme begins
    by_cases isBlank : kind = .blank
    · subst isBlank
      have dropped : following.dropWhile Blank.isBlank = following := by
        cases following with
        | nil => rfl
        | cons next following => rw [List.dropWhile_cons_of_neg (by simp [ends next rfl])]
      rw [List.dropWhile_append_of_pos (List.forall_mem_cons.mpr shaped), dropped,
        List.filter_cons_of_neg (by simp)]
      exact ⟨rest, splits, rfl⟩
    · rw [List.cons_append, List.dropWhile_cons_of_neg (by simp [shaped.isBlank_first isBlank])]
      exact ⟨_, .cons first text begins splits, rfl⟩

/-- A text that is one with the blanks at its end removed. -/
theorem stripRight_eq_self {characters : List Char}
    (nonblank : ∀ c ∈ characters.getLast?, Blank.isBlank c = false) :
    Blank.stripRight characters = characters := by
  refine List.rdropWhile_eq_self_iff.mpr ?_
  intro nonempty
  simp [nonblank _ (List.getLast?_eq_some_getLast nonempty)]

/-- A text without comments and without the blanks at its end carries the same words. -/
theorem Splits.carries_stripRight {characters : List Char} {all : List Word}
    (splits : Splits characters all) (uncommented : ∀ word ∈ all, word.kind ≠ .comment) :
    Carries (Blank.stripRight characters) (all.filter (·.kind ≠ .blank)) := by
  induction all using List.reverseRecOn generalizing characters with
  | nil =>
    cases splits
    exact carries_nil
  | append_singleton all last inductionHypothesis =>
    obtain ⟨before, noComment⟩ := List.forall_mem_append.mp uncommented
    obtain ⟨first, text, text_eq, shaped⟩ :=
      splits.shaped last (List.mem_append_right all List.mem_cons_self)
    have whole := splits.flatMap_text
    rw [List.flatMap_append, List.flatMap_singleton, text_eq] at whole
    rw [List.filter_append, ← whole]
    by_cases isBlank : last.kind = .blank
    · rw [isBlank] at shaped
      have dropped : Blank.stripRight (all.flatMap Word.text ++ first :: text) =
          Blank.stripRight (all.flatMap Word.text) := by
        have blanks : ∀ c ∈ (first :: text).reverse, Blank.isBlank c = true := by
          intro c member
          rcases List.mem_cons.mp (List.mem_reverse.mp member) with rfl | among
          · exact shaped.1
          · exact shaped.2 c among
        rw [Blank.stripRight, List.reverse_append, List.dropWhile_append_of_pos blanks]
        rfl
      rw [dropped, List.filter_cons_of_neg (by simpa using isBlank), List.filter_nil,
        List.append_nil]
      exact inductionHypothesis splits.initial before
    · have noBlank := shaped.isBlank_getLast isBlank (noComment last List.mem_cons_self)
      rw [stripRight_eq_self (by rwa [List.getLast?_append_of_ne_nil _ (List.cons_ne_nil _ _)]),
        whole, ← List.filter_append]
      exact ⟨_, splits, rfl⟩

/-- A text without comments and without the blanks at its ends carries the same words. -/
theorem Carries.strip {characters : List Char} {words : List Word}
    (carries : Carries characters words) (uncommented : ∀ word ∈ words, word.kind ≠ .comment) :
    Carries (Blank.strip characters) words := by
  obtain ⟨all, splits, rfl⟩ := carries.dropWhile_isBlank
  refine splits.carries_stripRight ?_
  intro word member isComment
  refine uncommented word (List.mem_filter.mpr ⟨member, ?_⟩) isComment
  simp [isComment]

end Token

namespace Blank

/-- What is stripped does not end with a blank. -/
theorem getLast?_strip (characters : List Char) :
    ∀ c ∈ (strip characters).getLast?, isBlank c = false := by
  intro c member
  obtain ⟨nonempty, rfl⟩ := List.mem_getLast?_eq_getLast member
  exact Bool.eq_false_iff.mpr (List.rdropWhile_last_not isBlank _ nonempty)

/-- Stripping only takes characters away. -/
theorem mem_of_mem_strip {characters : List Char} {c : Char} (member : c ∈ strip characters) :
    c ∈ characters :=
  (List.dropWhile_sublist isBlank).subset ((List.rdropWhile_prefix isBlank _).subset member)

/-- A text that does not end with a blank loses nothing at its end. -/
theorem strip_eq_dropWhile {characters : List Char}
    (nonblank : ∀ c ∈ characters.getLast?, isBlank c = false) :
    strip characters = characters.dropWhile isBlank := by
  refine Token.stripRight_eq_self fun c member => nonblank c ?_
  rw [← List.takeWhile_append_dropWhile (p := isBlank) (l := characters)]
  have nonempty : characters.dropWhile isBlank ≠ [] := by
    rintro none
    simp [none] at member
  rwa [List.getLast?_append_of_ne_nil _ nonempty]

end Blank

namespace Layout

open Token (Carries Closed Splits)

/-- Among words without comments, those that matter are those that are not blank. -/
theorem filter_isSignificant {words : List Word}
    (uncommented : ∀ word ∈ words, word.kind ≠ .comment) :
    words.filter Word.isSignificant = words.filter (·.kind ≠ .blank) := by
  refine List.filter_congr fun word member => ?_
  simp [Word.isSignificant, uncommented word member]

/-- A comment is the last word of a line. -/
theorem Splits.after_comment {characters : List Char} {words : List Word} {comment : Word}
    (splits : Splits characters (comment :: words)) (isComment : comment.kind = .comment)
    (physical : '\n' ∉ characters) : words = [] := by
  cases splits with
  | @cons kind first text following _ begins rest =>
    obtain ⟨_, ends⟩ := Token.shaped_of_lexeme begins
    obtain rfl : kind = .comment := isComment
    cases following with
    | nil =>
      cases rest
      rfl
    | cons next following =>
      obtain rfl := ends next rfl
      simp at physical

/-- A line without its comment carries the significant words of the line. -/
theorem carries_withoutComment (line : String) (physical : '\n' ∉ line.toList) :
    Carries (withoutComment line).toList (Token.words line) := by
  have splits := Token.splits_scan line
  rw [splits.words_eq]
  unfold withoutComment
  split
  · rename_i comment found
    obtain ⟨isComment, before, after, scanned, uncommented⟩ :=
      List.find?_eq_some_iff_append.mp found
    rw [scanned, List.map_append,
      List.map_cons] at splits ⊢
    have text_eq := splits.flatMap_text
    rw [List.flatMap_append] at text_eq
    have isLast : after.map Token.word = [] := by
      refine Splits.after_comment splits.final (of_decide_eq_true isComment) ?_
      intro member
      exact physical (text_eq ▸ List.mem_append_right _ member)
    have taken : line.toList.take comment.start = (before.map Token.word).flatMap Word.text := by
      have start := Token.start_of_scanFrom 0 line.toList before after comment scanned
      rw [← text_eq, start, Nat.zero_add, List.flatMap_map]
      exact List.take_left
    have noComment : ∀ word ∈ before.map Token.word, word.kind ≠ .comment := by
      simpa [Token.word] using uncommented
    rw [String.toList_ofList, taken, isLast, List.filter_append, filter_isSignificant noComment,
      List.filter_cons_of_neg
        (by simp [Word.isSignificant, of_decide_eq_true isComment, Token.word]),
      List.filter_nil, List.append_nil]
    exact ⟨_, splits.initial, rfl⟩
  · rename_i none
    have uncommented : ∀ word ∈ (Token.scanFrom 0 line.toList).map Token.word,
        word.kind ≠ .comment := by
      simpa [Token.scan, Token.word] using none
    exact ⟨_, splits, (filter_isSignificant uncommented).symm⟩

/-- No significant word is a comment. -/
theorem uncommented_words (line : String) : ∀ word ∈ Token.words line, word.kind ≠ .comment := by
  rw [(Token.splits_scan line).words_eq]
  intro word member isComment
  simp [Word.isSignificant, isComment] at member

/-- What a text carries are its significant words, if no comment is among them. -/
theorem words_of_carries {text : String} {words : List Word} (carries : Carries text.toList words)
    (uncommented : ∀ word ∈ words, word.kind ≠ .comment) : Token.words text = words := by
  rw [carries.words_eq, List.filter_eq_self]
  intro word member
  simpa using uncommented word member

/-- A line without its comment and the blanks around the rest still carries the significant words
    of the line. -/
theorem carries_stripped (line : String) (physical : '\n' ∉ line.toList) :
    Carries (Blank.stripped (withoutComment line)).toList (Token.words line) := by
  rw [Blank.stripped, String.toList_ofList]
  exact (carries_withoutComment line physical).strip (uncommented_words line)

/-- Joining a line to a text appends the words of the line. The text has to be free of
    comments and lone quotes, and only the line itself may end with one. -/
theorem carries_joined {pending : String} {words : List Word}
    (carries : Carries pending.toList words)
    (closed : ∀ word ∈ words, Closed word) (line : String) (physical : '\n' ∉ line.toList) :
    Carries (joined pending line).toList (words ++ Token.words line) := by
  have lineCarries := carries_stripped line physical
  unfold joined
  dsimp only
  split
  · rename_i alone
    subst alone
    obtain rfl : words = [] := carries.unique Token.carries_nil
    exact lineCarries
  · have separated : Carries ([' '] ++ (Blank.stripped (withoutComment line)).toList)
        (Token.words line) :=
      lineCarries.blank_append (List.forall_mem_singleton.mpr (by decide))
    have whole := carries.append closed separated (by rintro c ⟨rfl⟩; decide)
    have uncommented : ∀ word ∈ words ++ Token.words line, word.kind ≠ .comment :=
      List.forall_mem_append.mpr ⟨fun word member => (closed word member).1, uncommented_words line⟩
    rw [Blank.stripped, String.toList_ofList, String.toList_append, String.toList_append,
      List.append_assoc]
    exact whole.strip uncommented

/-- Words with more opening than closing parentheses among them. -/
def LeftOpen (words : List Word) : Prop :=
  words.countP (·.kind = .closing) < words.countP (·.kind = .opening)

instance (words : List Word) : Decidable (LeftOpen words) :=
  inferInstanceAs (Decidable (_ < _))

/-- A text is continued exactly if its significant words leave a parenthesis open. -/
theorem isContinued_iff (text : String) :
    isContinued text = true ↔ LeftOpen (Token.words text) := by
  have counted (kind : TokenKind) (significant : kind ≠ .comment ∧ kind ≠ .blank) :
      (Token.scan text).countP (·.kind = kind) = (Token.words text).countP (·.kind = kind) := by
    rw [Token.words, Token.significant, List.countP_map, List.countP_filter]
    refine List.countP_congr fun token _ => ?_
    simp only [Function.comp_apply, Token.word, Token.isSignificant]
    grind
  rw [isContinued, LeftOpen, counted .closing (by decide), counted .opening (by decide)]
  exact decide_eq_true_iff

/-- Texts of the same significant words are continued alike. -/
theorem isContinued_of_words_eq {text other : String}
    (same : Token.words text = Token.words other) :
    isContinued text = isContinued other := by
  rw [Bool.eq_iff_iff, isContinued_iff, isContinued_iff, same]

end Layout

end UntypedLambda
