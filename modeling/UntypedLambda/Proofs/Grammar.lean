import UntypedLambda.Numeral
import UntypedLambda.Statement
import UntypedLambda.Token

/-!
# The grammar of lines

The grammar relates rows of words to what they denote. A word is a token without
its place, so layout has no part in it. Nothing here says how a line is read:
abstractions reach as far as they can because no production lets anything follow
one, and application associates to the left because a row of operands grows on
the right.
-/

namespace UntypedLambda

/-- A token without its place. -/
structure Word where
  kind : TokenKind
  text : List Char
  deriving DecidableEq, Repr

/-- The text of a word. -/
def Word.content (word : Word) : String :=
  String.ofList word.text

/-- What the grammar sees of a token. -/
def Token.word (token : Token) : Word :=
  ⟨token.kind, token.text⟩

/-- A word has the text of its token. -/
@[simp] theorem Token.content_word (token : Token) : token.word.content = token.content := rfl

/-- The words of a line. Blanks and comments are none. -/
def Token.words (line : String) : List Word :=
  (Token.significant line).map Token.word

namespace Grammar

/-- The phrases that terms are made of. A row is an application up to its trailing
    abstraction. -/
inductive Phrase where
  | term
  | abstraction
  | application
  | row
  | atom
  deriving DecidableEq, Repr

/-- The words of a phrase and the term that it denotes. -/
inductive Derives : Phrase → List Word → Term → Prop where
  | abstracted {words : List Word} {term : Term} (derives : Derives .abstraction words term) :
      Derives .term words term
  | applied {words : List Word} {term : Term} (derives : Derives .application words term) :
      Derives .term words term
  | abstraction (lambda : Word) (params : List Word) (dot : Word) {words : List Word} {body : Term}
      (isLambda : lambda.kind = .lambda) (some : params ≠ [])
      (named : ∀ param ∈ params, param.kind = .name) (isDot : dot.kind = .dot)
      (derives : Derives .term words body) :
      Derives .abstraction (lambda :: params ++ dot :: words)
        (Term.abstraction (params.map Word.content) body)
  | row {words : List Word} {term : Term} (derives : Derives .row words term) :
      Derives .application words term
  | trailing {words others : List Word} {function argument : Term}
      (functions : Derives .row words function) (arguments : Derives .abstraction others argument) :
      Derives .application (words ++ others) (.app function argument)
  | first {words : List Word} {term : Term} (derives : Derives .atom words term) :
      Derives .row words term
  | next {words others : List Word} {function argument : Term}
      (functions : Derives .row words function) (arguments : Derives .atom others argument) :
      Derives .row (words ++ others) (.app function argument)
  | name (word : Word) (named : word.kind = .name) : Derives .atom [word] (.var word.content)
  | number (word : Word) (numbered : word.kind = .number) :
      Derives .atom [word] (Numeral.church (Decimal.read word.text))
  | group (opening closing : Word) {words : List Word} {term : Term}
      (opens : opening.kind = .opening) (closes : closing.kind = .closing)
      (derives : Derives .term words term) : Derives .atom (opening :: words ++ [closing]) term

/-- The words of a command after its colon, and what it asks for. -/
inductive Command : List Word → Action → Prop where
  | exit (word : Word) (named : word.kind = .name) (content : word.content = "exit") :
      Command [word] .exit
  | listBindings (word : Word) (named : word.kind = .name) (content : word.content = "binds") :
      Command [word] .listBindings
  | showLimit (word : Word) (named : word.kind = .name) (content : word.content = "limit") :
      Command [word] (.limit none)
  | setLimit (word digits : Word) (named : word.kind = .name) (content : word.content = "limit")
      (numbered : digits.kind = .number) :
      Command [word, digits] (.limit (some (Decimal.read digits.text)))
  | showStrategy (word : Word) (named : word.kind = .name) (content : word.content = "strategy") :
      Command [word] (.strategy none)
  | setStrategy (word strategy : Word) (named : word.kind = .name)
      (content : word.content = "strategy")
      (chosen : strategy.kind = .name) :
    Command [word, strategy] (.strategy (some strategy.content))
  | load (word path : Word) (named : word.kind = .name) (content : word.content = "load")
      (quoted : path.kind = .string) :
      Command [word, path] (.load (String.ofList (path.text.drop 1).dropLast))

/-- The words of one binding, and what it asks for. -/
inductive Binding : List Word → Action → Prop where
  | intro (name equals : Word) {words : List Word} {term : Term} (named : name.kind = .name)
      (isEquals : equals.kind = .equals) (derives : Derives .term words term) :
      Binding (name :: equals :: words) (.bind name.content term)

/-- The words of bindings with semicolons between them, and what they ask for. -/
inductive Bindings : List Word → List Action → Prop where
  | last {words : List Word} {action : Action} (binding : Binding words action) :
      Bindings words [action]
  | more (separator : Word) {words others : List Word} {action : Action} {actions : List Action}
      (binding : Binding words action) (separates : separator.kind = .semicolon)
      (bindings : Bindings others actions) :
      Bindings (words ++ separator :: others) (action :: actions)

/-- The words of a line and what it asks for, in order. -/
inductive Line : List Word → List Action → Prop where
  | empty : Line [] []
  | command (colon : Word) {words : List Word} {action : Action} (isColon : colon.kind = .colon)
      (command : Command words action) : Line (colon :: words) [action]
  | bindings {words : List Word} {actions : List Action} (bindings : Bindings words actions) :
      Line words actions
  | closed (separator : Word) {words : List Word} {actions : List Action}
      (bindings : Bindings words actions) (separates : separator.kind = .semicolon) :
      Line (words ++ [separator]) actions
  | term {words : List Word} {term : Term} (derives : Derives .term words term) :
      Line words [.evaluate term]

/-- The kinds of word that occur in terms. -/
def termKinds : List TokenKind :=
  [.lambda, .dot, .opening, .closing, .number, .name]

/-- A phrase has at least one word. -/
theorem Derives.ne_nil {phrase : Phrase} {words : List Word} {term : Term}
    (derives : Derives phrase words term) : words ≠ [] := by
  induction derives with
  | abstracted _ inductionHypothesis => exact inductionHypothesis
  | applied _ inductionHypothesis => exact inductionHypothesis
  | abstraction => exact List.cons_ne_nil _ _
  | row _ inductionHypothesis => exact inductionHypothesis
  | trailing _ _ functionHypothesis _ =>
    exact List.append_ne_nil_of_left_ne_nil functionHypothesis _
  | first _ inductionHypothesis => exact inductionHypothesis
  | next _ _ functionHypothesis _ => exact List.append_ne_nil_of_left_ne_nil functionHypothesis _
  | name => exact List.cons_ne_nil _ _
  | number => exact List.cons_ne_nil _ _
  | group => exact List.cons_ne_nil _ _

/-- A phrase has no words of other kinds than those of terms. -/
theorem Derives.kinds {phrase : Phrase} {words : List Word} {term : Term}
    (derives : Derives phrase words term) : ∀ word ∈ words, word.kind ∈ termKinds := by
  have both {words others : List Word} (left : ∀ word ∈ words, word.kind ∈ termKinds)
      (right : ∀ word ∈ others, word.kind ∈ termKinds) :
      ∀ word ∈ words ++ others, word.kind ∈ termKinds :=
    List.forall_mem_append.mpr ⟨left, right⟩
  have single {word : Word} (kind : word.kind ∈ termKinds) :
      ∀ other ∈ [word], other.kind ∈ termKinds :=
    List.forall_mem_singleton.mpr kind
  induction derives with
  | abstracted _ inductionHypothesis => exact inductionHypothesis
  | applied _ inductionHypothesis => exact inductionHypothesis
  | abstraction lambda params dot isLambda _ named isDot _ inductionHypothesis =>
    have paramKinds : ∀ param ∈ params, param.kind ∈ termKinds := by
      intro param member
      simp [named param member, termKinds]
    exact both (both (single (by simp [isLambda, termKinds])) paramKinds)
      (both (single (by simp [isDot, termKinds])) inductionHypothesis)
  | row _ inductionHypothesis => exact inductionHypothesis
  | trailing _ _ functionHypothesis argumentHypothesis =>
    exact both functionHypothesis argumentHypothesis
  | first _ inductionHypothesis => exact inductionHypothesis
  | next _ _ functionHypothesis argumentHypothesis =>
    exact both functionHypothesis argumentHypothesis
  | name word named => exact single (by simp [named, termKinds])
  | number word numbered => exact single (by simp [numbered, termKinds])
  | group opening closing opens closes _ inductionHypothesis =>
    exact both (both (single (by simp [opens, termKinds])) inductionHypothesis)
      (single (by simp [closes, termKinds]))

end Grammar

end UntypedLambda
