import UntypedLambda.Proofs.StatementReading
import UntypedLambda.Proofs.TokenExtents
import UntypedLambda.Term.Display

/-!
# Printed terms can be read

A printed term splits into the words that it was printed from, provided that its
names can be typed, and the grammar derives the term from these words. As the
grammar is unambiguous, reading the text gives the very same term. Parentheses are
printed by looking at one node only; that this is enough shows in which phrase of
the grammar each kind of term is.
-/

namespace UntypedLambda

open Grammar (Derives Phrase)

namespace Word

/-- The space that is printed between the sides of an application and after a
    parameter. -/
def space : Word := ⟨.blank, [' ']⟩

/-- Words between parentheses if a condition holds. -/
def parenthesizedIf (condition : Bool) (words : List Word) : List Word :=
  if condition then ⟨.opening, ['(']⟩ :: words ++ [⟨.closing, [')']⟩] else words

/-- Words that begin and end with words that matter. -/
structure Bounded (words : List Word) : Prop where
  first : ∃ word rest, words = word :: rest ∧ word.isSignificant = true
  last : ∃ initial word, words = initial ++ [word] ∧ word.isSignificant = true

/-- A single word that matters is bounded. -/
theorem Bounded.single {word : Word} (significant : word.isSignificant = true) : Bounded [word] :=
  ⟨⟨word, [], rfl, significant⟩, ⟨[], word, rfl, significant⟩⟩

/-- Whatever stands between bounded words, they bound it, too. -/
theorem Bounded.around {words others : List Word} (bounded : Bounded words)
    (otherBounded : Bounded others) (between : List Word) :
    Bounded (words ++ between ++ others) := by
  obtain ⟨word, rest, rfl, isFirst⟩ := bounded.first
  obtain ⟨initial, last, rfl, isLast⟩ := otherBounded.last
  exact ⟨⟨word, _, rfl, isFirst⟩, ⟨word :: rest ++ between ++ initial, last, by simp, isLast⟩⟩

/-- Parentheses bound words that are bounded anyway. -/
theorem Bounded.parenthesizedIf {words : List Word} (bounded : Bounded words) (condition : Bool) :
    Bounded (parenthesizedIf condition words) := by
  cases condition with
  | false => exact bounded
  | true => exact (Bounded.single rfl).around (.single rfl) words

/-- Parentheses matter. -/
theorem filter_parenthesizedIf (condition : Bool) (words : List Word) :
    (parenthesizedIf condition words).filter Word.isSignificant =
      parenthesizedIf condition (words.filter Word.isSignificant) := by
  cases condition with
  | false => rfl
  | true => simp [parenthesizedIf, isSignificant]

end Word

namespace Token

/-- A text that is certain words wherever it stands, provided that a name may end
    after it. Its first character is not blank. -/
structure Writes (text : String) (words : List Word) : Prop where
  begins : ∃ first rest, text.toList = first :: rest ∧ Blank.isBlank first = false
  splits {following : List Char} {others : List Word} (ends : EndsName following)
    (rest : Splits following others) : Splits (text.toList ++ following) (words ++ others)

/-- A punctuation mark or a blank ends a name. -/
theorem endsName_cons {first : Char} (noName : isNameChar first = false) (following : List Char) :
    EndsName (first :: following) := by
  intro c member
  obtain rfl : first = c := Option.some.inj member
  exact noName

/-- A valid name is a word. -/
theorem Writes.name {name : Name} (valid : name.Valid) :
    Writes name [⟨.name, name.toList⟩] where
  begins := by
    obtain ⟨first, rest, name_eq, isStart, _⟩ := (Name.valid_iff name).mp valid
    refine ⟨first, rest, name_eq, ?_⟩
    simp only [isNameStart, isNameChar, Bool.and_eq_true, Bool.not_eq_true'] at isStart
    exact isStart.1.2
  splits ends rest := .name valid ends rest

/-- Two texts with a space between them. -/
theorem Writes.spaced {text other : String} {words others : List Word} (writes : Writes text words)
    (otherWrites : Writes other others) :
    Writes (text ++ " " ++ other) (words ++ Word.space :: others) where
  begins := by
    obtain ⟨first, rest, text_eq, nonblank⟩ := writes.begins
    exact ⟨first, rest ++ ' ' :: other.toList, by simp [text_eq], nonblank⟩
  splits {following more} ends rest := by
    obtain ⟨next, otherRest, other_eq, nonblank⟩ := otherWrites.begins
    have later := otherWrites.splits ends rest
    rw [other_eq, List.cons_append] at later
    have whole := writes.splits (endsName_cons (by decide) _) (Splits.space nonblank later)
    simpa [other_eq, Word.space] using whole

/-- A text between parentheses. -/
theorem Writes.parenthesizedIf {text : String} {words : List Word} (writes : Writes text words)
    (condition : Bool) :
    Writes (Term.parenthesizedIf condition text) (Word.parenthesizedIf condition words) := by
  cases condition with
  | false => exact writes
  | true =>
    refine ⟨⟨'(', text.toList ++ [')'], by simp [Term.parenthesizedIf], by decide⟩, ?_⟩
    intro following others ends rest
    have inner := writes.splits (endsName_cons (by decide) following)
      (.mark (by decide : (')', TokenKind.closing) ∈ punctuation) rest)
    have whole := Splits.mark (by decide : ('(', TokenKind.opening) ∈ punctuation) inner
    simpa [Term.parenthesizedIf, Word.parenthesizedIf] using whole

/-- A binder with its body. -/
theorem Writes.binder {param : Name} {body : String} {words : List Word} (valid : param.Valid)
    (writes : Writes body words) :
    Writes ("λ" ++ param ++ ". " ++ body)
      (⟨.lambda, ['λ']⟩ :: ⟨.name, param.toList⟩ :: ⟨.dot, ['.']⟩ :: Word.space :: words) where
  begins := ⟨'λ', param.toList ++ '.' :: ' ' :: body.toList, by simp, by decide⟩
  splits {following others} ends rest := by
    obtain ⟨next, bodyRest, body_eq, nonblank⟩ := writes.begins
    have later := writes.splits ends rest
    rw [body_eq, List.cons_append] at later
    have afterName := Splits.mark (by decide : ('.', TokenKind.dot) ∈ punctuation)
      (Splits.space nonblank later)
    have whole := Splits.mark (by decide : ('λ', TokenKind.lambda) ∈ punctuation)
      (.name valid (endsName_cons (by decide) _) afterName)
    simpa [body_eq, Word.space] using whole

end Token

namespace Term

/-- The words that a term is printed from, spaces among them. -/
def words : Term → List Word
  | var name => [⟨.name, name.toList⟩]
  | lam param body =>
    ⟨.lambda, ['λ']⟩ :: ⟨.name, param.toList⟩ :: ⟨.dot, ['.']⟩ :: Word.space :: body.words
  | app function argument =>
    Word.parenthesizedIf function.isLam function.words ++
      Word.space :: Word.parenthesizedIf (!argument.isVar) argument.words

/-- A printed term is its words. -/
theorem ValidNames.writes {term : Term} (valid : term.ValidNames) :
    Token.Writes term.display term.words := by
  induction term with
  | var name => exact .name valid
  | lam param body inductionHypothesis => exact .binder valid.1 (inductionHypothesis valid.2)
  | app function argument functionHypothesis argumentHypothesis =>
    exact ((functionHypothesis valid.1).parenthesizedIf _).spaced
      ((argumentHypothesis valid.2).parenthesizedIf _)

/-- A term is printed with a word that matters at either end. -/
theorem bounded_words (term : Term) : Word.Bounded term.words := by
  induction term with
  | var name => exact .single rfl
  | lam param body inductionHypothesis =>
    have lambda : Word.Bounded [⟨.lambda, ['λ']⟩] := .single rfl
    exact lambda.around inductionHypothesis [⟨.name, param.toList⟩, ⟨.dot, ['.']⟩, Word.space]
  | app function argument functionHypothesis argumentHypothesis =>
    have whole := (functionHypothesis.parenthesizedIf function.isLam).around
      (argumentHypothesis.parenthesizedIf !argument.isVar) [Word.space]
    simpa [words] using whole

/-- The phrase that a term is printed as. -/
def phrase : Term → Phrase
  | var _ => .atom
  | lam _ _ => .abstraction
  | app _ _ => .row

/-- Whatever phrase a term is printed as, it is a term. -/
theorem derives_term {words : List Word} {term : Term} (derives : Derives term.phrase words term) :
    Derives .term words term := by
  cases term with
  | var name => exact .applied (.row (.first derives))
  | lam param body => exact .abstracted derives
  | app function argument => exact .applied (.row derives)

/-- A function with its parentheses is a row. -/
theorem derives_function {words : List Word} {function : Term}
    (derives : Derives function.phrase words function) :
    Derives .row (Word.parenthesizedIf function.isLam words) function := by
  cases function with
  | var name => exact .first derives
  | lam param body => exact .first (.group _ _ rfl rfl (.abstracted derives))
  | app function argument => exact derives

/-- An argument with its parentheses is an atom. -/
theorem derives_argument {words : List Word} {argument : Term}
    (derives : Derives argument.phrase words argument) :
    Derives .atom (Word.parenthesizedIf (!argument.isVar) words) argument := by
  cases argument with
  | var name => exact derives
  | lam param body => exact .group _ _ rfl rfl (derives_term derives)
  | app function argument => exact .group _ _ rfl rfl (derives_term derives)

/-- The grammar derives a term from the words that it is printed from. -/
theorem derives_words (term : Term) :
    Derives term.phrase (term.words.filter Word.isSignificant) term := by
  induction term with
  | var name =>
    have derives := Derives.name ⟨.name, name.toList⟩ rfl
    rwa [Word.content, String.ofList_toList] at derives
  | lam param body inductionHypothesis =>
    have derives := Derives.abstraction ⟨.lambda, ['λ']⟩ [⟨.name, param.toList⟩] ⟨.dot, ['.']⟩ rfl
      (List.cons_ne_nil _ _) (by simp) rfl (derives_term inductionHypothesis)
    simpa [words, phrase, Word.isSignificant, Word.space, Word.content, abstraction] using derives
  | app function argument functionHypothesis argumentHypothesis =>
    have derives := Derives.next (derives_function functionHypothesis)
      (derives_argument argumentHypothesis)
    rw [words, List.filter_append, Word.filter_parenthesizedIf, List.filter_cons_of_neg (by decide),
      Word.filter_parenthesizedIf]
    exact derives

/-- A printed term splits into its words. -/
theorem ValidNames.splits_display {term : Term} (valid : term.ValidNames) :
    Token.Splits term.display.toList term.words := by
  have atEnd : Token.EndsName [] := by simp [Token.EndsName]
  have splits := valid.writes.splits atEnd .nil
  rwa [List.append_nil, List.append_nil] at splits

/-- The grammar derives a term from the text that it is printed as. -/
theorem ValidNames.derives_display {term : Term} (valid : term.ValidNames) :
    Derives .term (Token.words term.display) term := by
  rw [valid.splits_display.words_eq]
  exact derives_term term.derives_words

end Term

namespace Statement

/-- The text that is kept for a piece of a line is that of all its tokens, if it begins and ends
    with tokens that matter. -/
theorem toList_sourceOf {line : String} {before piece after : List Token}
    (scanned : Token.scan line = before ++ piece ++ after)
    (bounded : Word.Bounded (piece.map Token.word)) :
    (sourceOf line (piece.filter Token.isSignificant)).toList = piece.flatMap Token.text := by
  obtain ⟨firstWord, restWords, words_eq, isFirst⟩ := bounded.first
  obtain ⟨first, rest, piece_eq, rfl, _⟩ := List.map_eq_cons_iff.mp words_eq
  obtain ⟨initialWords, lastWord, words_eq', isLast⟩ := bounded.last
  obtain ⟨initial, lasts, piece_eq', _, single⟩ := List.map_eq_append_iff.mp words_eq'
  obtain ⟨last, rfl, rfl⟩ := List.map_eq_singleton_iff.mp single
  have firstMatters : first.isSignificant = true := isFirst
  have lastMatters : last.isSignificant = true := isLast
  have head : (piece.filter Token.isSignificant).head? = some first := by
    rw [piece_eq, List.filter_cons_of_pos firstMatters]
    rfl
  have getLast : (piece.filter Token.isSignificant).getLast? = some last := by
    rw [piece_eq', List.filter_append, List.filter_cons_of_pos lastMatters, List.filter_nil,
      List.getLast?_concat]
  have start : first.start = (before.flatMap Token.text).length := by
    have place := Token.start_of_scanFrom 0 line.toList before (rest ++ after) first
      (scanned.trans (by rw [piece_eq, List.append_assoc, List.cons_append]))
    rwa [Nat.zero_add] at place
  have stop : last.stop = (before.flatMap Token.text ++ piece.flatMap Token.text).length := by
    have place := Token.start_of_scanFrom 0 line.toList (before ++ initial) after last
      (scanned.trans (by rw [piece_eq', ← List.append_assoc, List.append_assoc _ [last]]; rfl))
    rw [Token.stop, place, piece_eq']
    simp [Nat.add_assoc]
  have whole : line.toList =
      before.flatMap Token.text ++ piece.flatMap Token.text ++ after.flatMap Token.text := by
    rw [← Token.flatMap_text_scan, scanned, List.flatMap_append, List.flatMap_append]
  rw [sourceOf, head, getLast]
  simp only [slice, String.toList_ofList, whole, start, stop, List.take_left, List.drop_left]

/-- A line that begins and ends with tokens that matter is the text between them. -/
theorem sourceOf_significant {line : String} {words : List Word}
    (splits : Token.Splits line.toList words) (bounded : Word.Bounded words) :
    sourceOf line (Token.significant line) = line := by
  have scanned : (Token.scan line).map Token.word = words := splits.map_word_scanFrom 0
  subst scanned
  have whole : Token.scan line = [] ++ Token.scan line ++ [] := by simp
  rw [← String.toList_inj, Token.significant, toList_sourceOf whole bounded,
    Token.flatMap_text_scan]

/-- A printed term is read as a request to evaluate that term, quoted in full. -/
theorem parse_display {term : Term} (valid : term.ValidNames) :
    parse term.display = .ok [⟨.evaluate term, term.display⟩] := by
  have derives := valid.derives_display
  have source := sourceOf_significant valid.splits_display term.bounded_words
  refine (parse_eq_ok_iff_readLine _ _).mpr ⟨_, readLine_of_term derives, derives.known, ?_⟩
  simp only [List.map_cons, List.map_nil, source]

end Statement

end UntypedLambda
