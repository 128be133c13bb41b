import UntypedLambda.Proofs.LayoutWords
import UntypedLambda.Proofs.StatementReading

/-!
# Statements broken over several lines

Every line that is accepted closes as many parentheses as it opens. So it is never taken
for unfinished, and it may be broken wherever a parenthesis is open: the lines that it
is broken into, joined one by one, carry its words in order, each of them but the last
is taken for unfinished, and the whole is read as the line itself. Layout and comments of
the pieces do not matter, and some of the pieces may be empty.
-/

namespace UntypedLambda

namespace Grammar

/-- As many closing as opening parentheses. -/
def Balanced (words : List Word) : Prop :=
  words.countP (·.kind = .closing) = words.countP (·.kind = .opening)

/-- Words that are no parentheses are balanced. -/
theorem balanced_of_plain {words : List Word}
    (plain : ∀ word ∈ words, word.kind ≠ .closing ∧ word.kind ≠ .opening) : Balanced words := by
  have none (kind : TokenKind) (other : ∀ word ∈ words, word.kind ≠ kind) :
      words.countP (·.kind = kind) = 0 := by
    simpa [List.countP_eq_zero] using other
  rw [Balanced, none .closing fun word member => (plain word member).1,
    none .opening fun word member => (plain word member).2]

/-- Balanced words after balanced words are balanced. -/
theorem Balanced.append {words others : List Word} (balanced : Balanced words)
    (otherBalanced : Balanced others) : Balanced (words ++ others) := by
  rw [Balanced, List.countP_append, List.countP_append, balanced, otherBalanced]

/-- A word that is no parenthesis keeps words balanced. -/
theorem Balanced.cons {words : List Word} (balanced : Balanced words) {word : Word}
    (plain : word.kind ≠ .closing ∧ word.kind ≠ .opening) : Balanced (word :: words) :=
  (balanced_of_plain (List.forall_mem_singleton.mpr plain)).append balanced

/-- The words of a phrase are balanced. -/
theorem Derives.balanced {phrase : Phrase} {words : List Word} {term : Term}
    (derives : Derives phrase words term) : Balanced words := by
  induction derives with
  | abstracted _ inductionHypothesis => exact inductionHypothesis
  | applied _ inductionHypothesis => exact inductionHypothesis
  | abstraction lambda params dot isLambda _ named isDot _ inductionHypothesis =>
    have binder : Balanced (lambda :: params) := by
      refine Balanced.cons (balanced_of_plain fun param member => ?_) (by simp [isLambda])
      simp [named param member]
    exact binder.append (inductionHypothesis.cons (by simp [isDot]))
  | row _ inductionHypothesis => exact inductionHypothesis
  | trailing _ _ functionHypothesis argumentHypothesis =>
    exact functionHypothesis.append argumentHypothesis
  | first _ inductionHypothesis => exact inductionHypothesis
  | next _ _ functionHypothesis argumentHypothesis =>
    exact functionHypothesis.append argumentHypothesis
  | name word named => exact balanced_of_plain (by simp [named])
  | number word numbered => exact balanced_of_plain (by simp [numbered])
  | group opening closing opens closes _ inductionHypothesis =>
    rw [Balanced] at inductionHypothesis ⊢
    simp [List.countP_append, opens, closes, inductionHypothesis]

/-- The words of a binding are balanced. -/
theorem Binding.balanced {words : List Word} {action : Action} (binding : Binding words action) :
    Balanced words := by
  obtain ⟨name, equals, named, isEquals, derives⟩ := binding
  exact (derives.balanced.cons (by simp [isEquals])).cons (by simp [named])

/-- The words of bindings are balanced. -/
theorem Bindings.balanced {words : List Word} {actions : List Action}
    (bindings : Bindings words actions) : Balanced words := by
  induction bindings with
  | last binding => exact binding.balanced
  | more separator binding separates _ inductionHypothesis =>
    exact binding.balanced.append (inductionHypothesis.cons (by simp [separates]))

/-- The words of a line are balanced. -/
theorem Line.balanced {words : List Word} {actions : List Action} (line : Line words actions) :
    Balanced words := by
  cases line with
  | empty => rfl
  | command colon isColon command =>
    refine balanced_of_plain (List.forall_mem_cons.mpr ⟨by simp [isColon], ?_⟩)
    cases command <;> simp_all
  | bindings bindings => exact bindings.balanced
  | closed separator bindings separates =>
    exact bindings.balanced.append (balanced_of_plain (by simp [separates]))
  | term derives => exact derives.balanced

end Grammar

namespace Layout

open Token (Carries Closed)

/-- A line that is accepted is not taken for unfinished. -/
theorem isContinued_of_line {text : String} {actions : List Action}
    (line : Grammar.Line (Token.words text) actions) : isContinued text = false := by
  rw [← Bool.not_eq_true, isContinued_iff, LeftOpen, line.balanced]
  exact Nat.lt_irrefl _

/-- Physical lines joined one by one to a text. -/
def joinedAll (pending : String) (lines : List String) : String :=
  lines.foldl joined pending

/-- Lines that are joined to a text append their words, unless one of them has a word that
    reaches over into the lines after it. -/
theorem carries_joinedAll {pending : String} {words : List Word} (lines : List String)
    (carries : Carries pending.toList words) (physical : ∀ line ∈ lines, '\n' ∉ line.toList)
    (closed : ∀ word ∈ words ++ lines.flatMap Token.words, Closed word) :
    Carries (joinedAll pending lines).toList (words ++ lines.flatMap Token.words) := by
  induction lines generalizing pending words with
  | nil => simpa [joinedAll] using carries
  | cons line lines inductionHypothesis =>
    obtain ⟨isPhysical, others⟩ := List.forall_mem_cons.mp physical
    rw [List.flatMap_cons, ← List.append_assoc] at closed ⊢
    have joins := carries_joined carries
      (fun word member => closed word (List.mem_append_left _ (List.mem_append_left _ member)))
      line isPhysical
    exact inductionHypothesis joins others closed

/-- The words of physical lines that are joined are those of the lines, in order. -/
theorem words_joinedAll (lines : List String) (physical : ∀ line ∈ lines, '\n' ∉ line.toList)
    (known : ∀ word ∈ lines.flatMap Token.words, word.kind ≠ .unknown) :
    Token.words (joinedAll "" lines) = lines.flatMap Token.words := by
  have uncommented : ∀ word ∈ lines.flatMap Token.words, word.kind ≠ .comment := by
    intro word member
    obtain ⟨line, _, among⟩ := List.mem_flatMap.mp member
    exact uncommented_words line word among
  have empty : Carries "".toList [] := Token.carries_nil
  have carries := carries_joinedAll lines empty physical
    fun word member => ⟨uncommented word member, known word member⟩
  exact words_of_carries carries uncommented

end Layout

/-- A line that is accepted is not taken for unfinished, and it may be broken at any
    places where a parenthesis is open. However the pieces are laid out and commented,
    joining them one by one leaves the text unfinished before the last of them and
    finished after it, and that text is read as the line itself. -/
theorem Statement.broken_lines_rejoin (whole : String) (statements : List Statement)
    (parsed : Statement.parse whole = .ok statements) (lines : List String)
    (physical : ∀ line ∈ lines, '\n' ∉ line.toList)
    (pieces : lines.flatMap Token.words = Token.words whole)
    (opened : ∀ count, 0 < count → count < lines.length →
      Layout.LeftOpen ((lines.take count).flatMap Token.words)) :
    Layout.isContinued whole = false ∧
    (∀ count, 0 < count → count < lines.length →
      Layout.isContinued (Layout.joinedAll "" (lines.take count)) = true) ∧
    Layout.isContinued (Layout.joinedAll "" lines) = false ∧
    ∃ rejoined, Statement.parse (Layout.joinedAll "" lines) = .ok rejoined ∧
      rejoined.map Statement.action = statements.map Statement.action := by
  have derives := (Statement.parse_iff_derives whole _).mp ⟨statements, parsed, rfl⟩
  have finished : ¬ Layout.LeftOpen (Token.words whole) :=
    Nat.not_lt.mpr (Nat.le_of_eq derives.balanced.symm)
  have known : ∀ word ∈ lines.flatMap Token.words, word.kind ≠ .unknown := pieces ▸ derives.known
  have words_eq : Token.words (Layout.joinedAll "" lines) = Token.words whole :=
    (Layout.words_joinedAll lines physical known).trans pieces
  refine ⟨?_, ?_, ?_, ?_⟩
  · rwa [← Layout.isContinued_iff, Bool.not_eq_true] at finished
  · intro count positive before
    have taken : ∀ word ∈ (lines.take count).flatMap Token.words, word.kind ≠ .unknown := by
      intro word member
      obtain ⟨line, among, inLine⟩ := List.mem_flatMap.mp member
      exact known word (List.mem_flatMap.mpr ⟨line, List.mem_of_mem_take among, inLine⟩)
    have takenPhysical : ∀ line ∈ lines.take count, '\n' ∉ line.toList := fun line member =>
      physical line (List.mem_of_mem_take member)
    rw [Layout.isContinued_iff, Layout.words_joinedAll _ takenPhysical taken]
    exact opened count positive before
  · rwa [← words_eq, ← Layout.isContinued_iff, Bool.not_eq_true] at finished
  · exact (Statement.parse_iff_derives _ _).mpr (words_eq ▸ derives)

/-- An application may be broken after a comment and around a line without any word. -/
theorem Statement.broken_lines_rejoin_around_comment :
    (∃ statements, Statement.parse "(x y)" = .ok statements ∧
      statements.map Statement.action = [.evaluate (.app (.var "x") (.var "y"))]) ∧
    Layout.isContinued (Layout.joinedAll "" ["(x # )", " # nothing"]) = true ∧
    Layout.isContinued (Layout.joinedAll "" ["(x # )", " # nothing", "y)"]) = false ∧
    ∃ rejoined, Statement.parse (Layout.joinedAll "" ["(x # )", " # nothing", "y)"]) =
      .ok rejoined ∧
      rejoined.map Statement.action =
        [.evaluate (.app (.var "x") (.var "y"))] := by
  have parsed : Statement.parse "(x y)" =
      .ok [⟨.evaluate (.app (.var "x") (.var "y")), "(x y)"⟩] := by
    with_unfolding_all rfl
  have opened : ∀ count, 0 < count → count < ["(x # )", " # nothing", "y)"].length →
      Layout.LeftOpen ((["(x # )", " # nothing", "y)"].take count).flatMap Token.words) := by
    intro count positive before
    obtain rfl | rfl : count = 1 ∨ count = 2 := by simp at before; omega
    · decide +kernel
    · decide +kernel
  have broken := broken_lines_rejoin "(x y)" _ parsed ["(x # )", " # nothing", "y)"]
    (by decide +kernel) (by decide +kernel) opened
  exact ⟨⟨_, parsed, rfl⟩, broken.2.1 2 (by omega) (by simp), broken.2.2⟩

end UntypedLambda
