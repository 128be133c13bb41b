import Mathlib.Data.List.Chain
import UntypedLambda.Proofs.TokenExtents

/-!
# The tokens of a text are determined by it

Tokens cover a text if they lie on it one after the other, from its beginning to its end, and each
of them is made as the tokens of its kind are made and may end where it ends. Names, numbers and
blanks may end only where the next character is not of their sort, comments only at a line end or
at the end of the text, and a double quote on its own only if there is no other one after it.

Exactly one row of tokens covers a text, and splitting the text finds it. A token that stands alone
is split into nothing but itself.
-/

namespace UntypedLambda.Token

/-- Tokens that lie on a text one after the other, so that nothing of it is lost, each of them made
    as its kind says and reaching exactly as far as its kind says. -/
structure Covers (text : String) (tokens : List Token) : Prop where
  joined : tokens.flatMap Token.text = text.toList
  first : ∀ token ∈ tokens.head?, token.start = 0
  contiguous : tokens.IsChain fun token next => next.start = token.stop
  last : ∀ token ∈ tokens.getLast?, token.stop = text.length
  exact : ∀ before token after, tokens = before ++ token :: after →
    ∃ first rest, token.text = first :: rest ∧ Shaped first rest token.kind ∧
      Ends (after.flatMap Token.text) token.kind

/-- Each word of a text is made as its kind says and ends where its kind says. -/
theorem Splits.exact {characters : List Char} {before after : List Word} {word : Word}
    (splits : Splits characters (before ++ word :: after)) :
    ∃ first rest, word.text = first :: rest ∧ Shaped first rest word.kind ∧
      Ends (after.flatMap Word.text) word.kind := by
  induction before generalizing characters with
  | nil =>
    cases splits with
    | cons first text begins rest =>
      obtain ⟨shaped, ends⟩ := shaped_of_lexeme begins
      exact ⟨first, text, rfl, shaped, rest.flatMap_text ▸ ends⟩
  | cons other before inductionHypothesis =>
    cases splits with
    | cons first text begins rest => exact inductionHypothesis rest

/-- Each token of a text begins where the one before it ends. -/
theorem contiguous_scanFrom (start : Nat) (characters : List Char) :
    (scanFrom start characters).IsChain fun token next => next.start = token.stop := by
  fun_induction scanFrom start characters with
  | case1 start => exact .nil
  | case2 start first rest kind further begins text inductionHypothesis =>
    exact List.isChain_cons.mpr ⟨start_of_head?_scanFrom _ _, inductionHypothesis⟩

/-- The tokens that a text is split into cover it. -/
theorem covers_scan (text : String) : Covers text (scan text) where
  joined := flatMap_text_scan text
  first := start_of_head?_scanFrom 0 text.toList
  contiguous := contiguous_scanFrom 0 text.toList
  last token isLast := by
    rw [stop_of_getLast?_scanFrom 0 text.toList token isLast, Nat.zero_add, String.length_toList]
  exact before token after scanned := by
    have splits := splits_scan text
    rw [scanned, List.map_append, List.map_cons] at splits
    have exact := splits.exact
    rwa [flatMap_text_word] at exact

/-- Tokens that lie on some characters from a place on are those that these characters are split
    into there. Each is settled by its first character and by what follows it. -/
theorem eq_scanFrom (start : Nat) (tokens : List Token)
    (first : ∀ token ∈ tokens.head?, token.start = start)
    (contiguous : tokens.IsChain fun token next => next.start = token.stop)
    (exact : ∀ before token after, tokens = before ++ token :: after →
      ∃ first rest, token.text = first :: rest ∧ Shaped first rest token.kind ∧
        Ends (after.flatMap Token.text) token.kind) :
    tokens = scanFrom start (tokens.flatMap Token.text) := by
  induction tokens generalizing start with
  | nil => rw [List.flatMap_nil, scanFrom]
  | cons token tokens inductionHypothesis =>
    obtain ⟨c, rest, text_eq, shaped, ends⟩ := exact [] token tokens rfl
    obtain ⟨joins, contiguous⟩ := List.isChain_cons.mp contiguous
    have later := inductionHypothesis token.stop joins contiguous fun before next after same =>
      exact (token :: before) next after (congrArg (token :: ·) same)
    have begins := shaped.lexeme_append ends
    have isStart : token.start = start := first token rfl
    rw [List.flatMap_cons, text_eq, List.cons_append, scanFrom, begins]
    simp only [List.take_left, List.drop_left, ← text_eq, ← isStart]
    exact congrArg (token :: ·) later

/-- Only the tokens that a text is split into cover it. -/
theorem Covers.eq_scan {text : String} {tokens : List Token} (covers : Covers text tokens) :
    tokens = scan text := by
  rw [scan, ← covers.joined]
  exact eq_scanFrom 0 tokens covers.first covers.contiguous covers.exact

/-- A number sign stands in a comment or in a string. The other tokens are a single character of
    another kind, or they consist of characters of some sort to which it does not belong. -/
theorem Shaped.kind_of_hash {kind : TokenKind} {first : Char} {rest : List Char}
    (shaped : Shaped first rest kind) (hash : '#' ∈ first :: rest) :
    kind = .comment ∨ kind = .string := by
  have excluded (sort : Char → Bool) (other : sort '#' = false) :
      ¬ ∀ c ∈ first :: rest, sort c = true :=
    fun all => Bool.false_ne_true (other.symm.trans (all '#' hash))
  cases kind with
  | comment => exact .inl rfl
  | string => exact .inr rfl
  | number => exact (excluded isDigit (by decide) (List.forall_mem_cons.mpr shaped)).elim
  | blank => exact (excluded Blank.isBlank (by decide) (List.forall_mem_cons.mpr shaped)).elim
  | name =>
    have isChar : isNameChar first = true := by
      have isStart := shaped.1
      rw [isNameStart, Bool.and_eq_true] at isStart
      exact isStart.1
    exact (excluded isNameChar (by decide) (List.forall_mem_cons.mpr ⟨isChar, shaped.2⟩)).elim
  | unknown | lambda | dot | opening | closing | equals | semicolon | colon =>
    obtain ⟨isFirst, rfl⟩ := shaped
    obtain rfl := List.mem_singleton.mp hash
    exact absurd isFirst (by decide)

/-- A word that stands alone is split into nothing but itself. -/
theorem Shaped.scanFrom_eq {kind : TokenKind} {first : Char} {rest : List Char}
    (shaped : Shaped first rest kind) (start : Nat) :
    scanFrom start (first :: rest) = [⟨kind, first :: rest, start⟩] := by
  have begins := shaped.lexeme_append (ends_nil kind)
  rw [List.append_nil] at begins
  rw [scanFrom, begins]
  simp only [List.take_length, List.drop_length, scanFrom]

/-- Every text is covered by exactly one row of tokens, and it is split into these. A number sign
    outside of strings belongs to a comment, and the text of a token alone is split into a single
    token of the same kind. -/
theorem scan_is_exact (text : String) :
    (∀ tokens, Covers text tokens ↔ tokens = scan text) ∧
    (∀ token ∈ scan text, '#' ∈ token.text → token.kind = .comment ∨ token.kind = .string) ∧
    ∀ token ∈ scan text, scan token.content = [⟨token.kind, token.text, 0⟩] := by
  have made : ∀ token ∈ scan text, ∃ first rest, token.text = first :: rest ∧
      Shaped first rest token.kind := by
    intro token member
    obtain ⟨before, after, scanned⟩ := List.append_of_mem member
    obtain ⟨first, rest, text_eq, shaped, _⟩ := (covers_scan text).exact before token after scanned
    exact ⟨first, rest, text_eq, shaped⟩
  refine ⟨fun tokens => ⟨Covers.eq_scan, ?_⟩, ?_, ?_⟩
  · rintro rfl
    exact covers_scan text
  · intro token member hash
    obtain ⟨first, rest, text_eq, shaped⟩ := made token member
    exact shaped.kind_of_hash (text_eq ▸ hash)
  · intro token member
    obtain ⟨first, rest, text_eq, shaped⟩ := made token member
    rw [scan, content, String.toList_ofList, text_eq]
    exact shaped.scanFrom_eq 0

/-- Both number signs are where they have to be, and the quote in the second line is alone. -/
theorem scan_is_exact_two_lines :
    let text := "x₁ 12\"a#\"# b\n\""
    let quoted : Token := ⟨.string, ['"', 'a', '#', '"'], 5⟩
    let tokens : List Token :=
      [⟨.name, ['x', '₁'], 0⟩, ⟨.blank, [' '], 2⟩, ⟨.number, ['1', '2'], 3⟩,
      quoted, ⟨.comment, ['#', ' ', 'b'], 9⟩, ⟨.blank, ['\n'], 12⟩, ⟨.unknown, ['"'], 13⟩]
    Covers text tokens ∧ quoted ∈ scan text ∧
      scan quoted.content = [⟨.string, quoted.text, 0⟩] := by
  intro text quoted tokens
  have scanned : tokens = scan text := by decide +kernel
  obtain ⟨covered, _, alone⟩ := scan_is_exact text
  have member : quoted ∈ scan text := by
    rw [← scanned]
    simp [tokens]
  exact ⟨(covered tokens).mpr scanned, member, alone quoted member⟩

end UntypedLambda.Token
