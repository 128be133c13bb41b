import UntypedLambda.Proofs.LogicalLines
import UntypedLambda.Proofs.RefusedLines

/-!
# Layout and comments do not matter

The comment of a line can be taken off, and so can the blanks around the rest: the words stay what
they are, and no comment is left. A number sign in a string begins no comment, a quote in a comment
begins no string, and a quote that stands alone stays alone, since what is cut off comes after it.

What a line means depends on its words only. Lines of the same words are continued alike, they are
accepted alike and ask for the same, or they are refused alike, at tokens that have the same place
among those that matter. Reading does look at places, to report them and to quote the sources of
statements. But the token that is blamed is the first one that cannot be right, and whether a row of
tokens can be completed depends on their words.
-/

namespace UntypedLambda

namespace Token

/-- A text has no comment if it carries none. -/
theorem Carries.uncommented {text : String} {words : List Word}
    (carries : Carries text.toList words)
    (none : ∀ word ∈ words, word.kind ≠ .comment) : ∀ token ∈ scan text, token.kind ≠ .comment := by
  obtain ⟨all, splits, rfl⟩ := carries
  intro token member isComment
  have among : token.word ∈ all := by
    rw [← splits.map_word_scanFrom 0]
    exact List.mem_map_of_mem member
  refine none token.word (List.mem_filter.mpr ⟨among, ?_⟩) isComment
  simp [word, isComment]

end Token

namespace Layout

/-- A text without a comment has none to be taken off. -/
theorem withoutComment_eq_self {text : String}
    (uncommented : ∀ token ∈ Token.scan text, token.kind ≠ .comment) :
    withoutComment text = text := by
  unfold withoutComment
  rw [List.find?_eq_none.mpr (by simpa using uncommented)]

/-- Taking off the comment twice is taking it off once. -/
theorem withoutComment_withoutComment (line : String) (physical : '\n' ∉ line.toList) :
    withoutComment (withoutComment line) = withoutComment line :=
  withoutComment_eq_self
    ((carries_withoutComment line physical).uncommented (uncommented_words line))

/-- A line that has been stripped has nothing more to be stripped. -/
theorem joined_joined (line : String) (physical : '\n' ∉ line.toList) :
    joined "" (joined "" line) = joined "" line := by
  have alone (line : String) : joined "" line = bare line := rfl
  have uncommented := (carries_stripped line physical).uncommented (uncommented_words line)
  rw [alone, alone, bare, bare, withoutComment_eq_self uncommented]
  exact (Blank.trimmed_stripped (withoutComment line)).stripped_eq

end Layout

namespace Statement

/-- Whether tokens are accepted depends on their words only. -/
theorem accepts_congr {tokens others : List Token}
    (same : tokens.map Token.word = others.map Token.word)
    (accepted : Accepts readLine tokens) : Accepts readLine others := by
  obtain ⟨results, success⟩ := accepted
  have derives := derives_of_readLine success
  rw [same] at derives
  obtain ⟨otherResults, otherSuccess, _⟩ := readLine_of_derives derives
  exact ⟨otherResults, otherSuccess⟩

/-- Of two rows of the same words, none is refused at a later token than the other one. The tokens
    before the later place can be completed, and the earlier refused token would be among them. -/
theorem length_le_of_stopsAt {before rest otherBefore otherRest : List Token}
    {misfit otherMisfit : Misfit}
    (stopsAt : StopsAt readLine before rest misfit)
    (otherStopsAt : StopsAt readLine otherBefore otherRest otherMisfit)
    (same : (before ++ rest).map Token.word = (otherBefore ++ otherRest).map Token.word) :
    before.length ≤ otherBefore.length := by
  rw [List.map_append, List.map_append] at same
  rcases List.append_eq_append_iff.mp same with ⟨more, longer, _⟩ | ⟨more, longer, restWords⟩
  · have lengths := congrArg List.length longer
    simp only [List.length_map, List.length_append] at lengths
    omega
  · cases more with
    | nil =>
      have lengths := congrArg List.length longer
      simp only [List.length_map, List.append_nil] at lengths
      omega
    | cons word more =>
      obtain ⟨refused, others, rfl, refusedWord, _⟩ := List.map_eq_cons_iff.mp restWords
      obtain ⟨used, later, rfl, usedWords, laterWords⟩ := List.map_eq_append_iff.mp longer
      obtain ⟨token, tokens, rfl, tokenWord, _⟩ := List.map_eq_cons_iff.mp laterWords
      obtain ⟨completion, _, accepted⟩ := stopsAt.completable
      refine absurd (accepts_congr ?_ accepted)
        (otherStopsAt.refused (refused :: (tokens ++ completion)) rfl)
      simp [usedWords, tokenWord, refusedWord]

/-- A line is refused at the token of this index among its significant tokens. The end of the line
    comes after the last of them. -/
structure RefusedAt (line : String) (error : SyntaxError) (index : Nat) : Prop where
  sameLine : error.line = line
  inside : index ≤ (Token.significant line).length
  token : error.token = (Token.significant line)[index]?

/-- A line with an illegal character is refused at the first of them. -/
theorem refusedAt_of_unknown {line : String} {error : SyntaxError}
    (failure : parse line = .error error)
    (unknown : ¬ ∀ word ∈ Token.words line, word.kind ≠ .unknown) :
    RefusedAt line error ((Token.words line).findIdx (·.kind = .unknown)) := by
  obtain ⟨sameLine, refused⟩ := (parse_eq_error_iff line error).mp failure
  have index : (Token.words line).findIdx (·.kind = .unknown) =
      (Token.significant line).findIdx (·.kind = .unknown) := List.findIdx_map ..
  rw [index]
  refine ⟨sameLine, List.findIdx_le_length, ?_⟩
  cases found : (Token.significant line).find? (·.kind = .unknown) with
  | none =>
    refine absurd ?_ unknown
    simpa [Token.words, Token.word] using found
  | some token =>
    rw [found] at refused
    rw [← List.find?_eq_getElem?_findIdx, found, refused]

/-- Any other line is refused where reading its tokens stops. -/
theorem refusedAt_of_stopsAt {line : String} {error : SyntaxError}
    (failure : parse line = .error error)
    {before rest : List Token} (tokens : Token.significant line = before ++ rest)
    (stopsAt : StopsAt readLine before rest error.toMisfit) :
    RefusedAt line error before.length where
  sameLine := ((parse_eq_error_iff line error).mp failure).1
  inside := by
    rw [tokens, List.length_append]
    omega
  token := by
    rw [tokens, List.getElem?_append_right (Nat.le_refl _), Nat.sub_self, ← List.head?_eq_getElem?]
    exact stopsAt.token

/-- Lines of the same words that are refused are refused at tokens of the same index. -/
theorem exists_refusedAt {line other : String} (same : Token.words line = Token.words other)
    {error otherError : SyntaxError} (failure : parse line = .error error)
    (otherFailure : parse other = .error otherError) :
    ∃ index, RefusedAt line error index ∧ RefusedAt other otherError index := by
  by_cases known : ∀ word ∈ Token.words line, word.kind ≠ .unknown
  · obtain ⟨before, rest, tokens, stopsAt⟩ := exists_stopsAt failure known
    obtain ⟨otherBefore, otherRest, otherTokens, otherStopsAt⟩ :=
      exists_stopsAt otherFailure (same ▸ known)
    rw [Token.words, Token.words, tokens, otherTokens] at same
    have index : before.length = otherBefore.length :=
      Nat.le_antisymm (length_le_of_stopsAt stopsAt otherStopsAt same)
        (length_le_of_stopsAt otherStopsAt stopsAt same.symm)
    exact ⟨before.length, refusedAt_of_stopsAt failure tokens stopsAt,
      index ▸ refusedAt_of_stopsAt otherFailure otherTokens otherStopsAt⟩
  · refine ⟨_, refusedAt_of_unknown failure known, ?_⟩
    rw [same] at known ⊢
    exact refusedAt_of_unknown otherFailure known

/-- Two lines are accepted and ask for the same, or they are refused at tokens of the same index. -/
def ReadAlike (line other : String) : Prop :=
  (∃ statements others, parse line = .ok statements ∧ parse other = .ok others ∧
    statements.map Statement.action = others.map Statement.action) ∨
  ∃ error otherError index, parse line = .error error ∧ parse other = .error otherError ∧
    RefusedAt line error index ∧ RefusedAt other otherError index

/-- Lines of the same words are read alike. -/
theorem readAlike_of_words {line other : String} (same : Token.words line = Token.words other) :
    ReadAlike line other := by
  obtain ⟨statements, others, success, otherSuccess, actions⟩ |
      ⟨error, otherError, failure, otherFailure⟩ :=
    parse_of_words_eq same.symm
  · exact .inl ⟨statements, others, success, otherSuccess, actions.symm⟩
  · obtain ⟨index, refused, otherRefused⟩ := exists_refusedAt same failure otherFailure
    exact .inr ⟨error, otherError, index, failure, otherFailure, refused, otherRefused⟩

end Statement

namespace Layout

/-- A physical line keeps its significant words, without any comment, if its comment is taken off,
    and if the blanks around the rest are taken off as well. Doing so again changes nothing. Lines
    of the same significant words are continued alike and read alike. -/
theorem layout_never_changes_meaning :
    (∀ line : String, '\n' ∉ line.toList →
      (∀ stripped ∈ [withoutComment line, joined "" line],
        Token.words stripped = Token.words line ∧
          ∀ token ∈ Token.scan stripped, token.kind ≠ .comment) ∧
      withoutComment (withoutComment line) = withoutComment line ∧
      joined "" (joined "" line) = joined "" line) ∧
    ∀ line other : String, Token.words line = Token.words other →
      isContinued line = isContinued other ∧ Statement.ReadAlike line other := by
  constructor
  · intro line physical
    refine ⟨?_, withoutComment_withoutComment line physical, joined_joined line physical⟩
    have uncommented := uncommented_words line
    have kept {stripped : String} (carries : Token.Carries stripped.toList (Token.words line)) :
        Token.words stripped = Token.words line ∧
          ∀ token ∈ Token.scan stripped, token.kind ≠ .comment :=
      ⟨words_of_carries carries uncommented, carries.uncommented uncommented⟩
    simp only [List.mem_cons, List.not_mem_nil, or_false]
    rintro stripped (rfl | rfl)
    · exact kept (carries_withoutComment line physical)
    · exact kept (carries_stripped line physical)
  · intro line other same
    exact ⟨isContinued_of_words_eq same, Statement.readAlike_of_words same⟩

/-- The comment has a quote and a parenthesis, and the string has a number sign. The other two lines
    are refused at the parenthesis that closes nothing, which stands at different places. -/
theorem layout_never_changes_meaning_commented :
    let line := " :load \"a#b\" # \" ("
    '\n' ∉ line.toList ∧ Token.words (joined "" line) = Token.words line ∧
      joined "" line = ":load \"a#b\"" ∧ joined "" (joined "" line) = joined "" line ∧
      Token.words "(x)) # )" = Token.words " ( x ) ) " ∧
      isContinued "(x)) # )" = isContinued " ( x ) ) " ∧
      Statement.ReadAlike "(x)) # )" " ( x ) ) " := by
  intro line
  obtain ⟨strips, alike⟩ := layout_never_changes_meaning
  have physical : '\n' ∉ line.toList := by decide +kernel
  have stripped : joined "" line = ":load \"a#b\"" := by decide +kernel
  have same : Token.words "(x)) # )" = Token.words " ( x ) ) " := by decide +kernel
  obtain ⟨kept, _, again⟩ := strips line physical
  exact ⟨physical, (kept (joined "" line) (by simp)).1, stripped, again, same, alike _ _ same⟩

end Layout

end UntypedLambda
