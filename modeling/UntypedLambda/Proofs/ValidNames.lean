import Mathlib.Data.List.DropRight
import UntypedLambda.Combinators
import UntypedLambda.Environment
import UntypedLambda.Numeral
import UntypedLambda.Proofs.Beta
import UntypedLambda.Proofs.FreshName
import UntypedLambda.Proofs.Interpretation
import UntypedLambda.Token

/-!
# Names that can be typed

A name can be typed if it is a single token of its own. Reduction invents names,
but only fresh ones: a name that can be typed, with its subscript raised. Subscript
digits are no ASCII digits, so even a name that consists of nothing else can be
typed. Reduction and the resolution of definitions therefore never leave the terms
all of whose names can be typed, bound names included.
-/

namespace UntypedLambda

/-- A name that can be typed: not empty, without blank and reserved characters, and
    without an ASCII digit at its beginning. -/
def Name.Valid (name : Name) : Prop :=
  name ≠ "" ∧ (∀ c ∈ name.toList, c ∉ Token.reserved ∧ Blank.isBlank c = false) ∧
    ∀ c ∈ name.toList.head?, Token.isDigit c = false

namespace Name

/-- A name can be typed if its first character may begin a name and all others may
    continue it. -/
theorem valid_iff (name : Name) :
    name.Valid ↔ ∃ first rest, name.toList = first :: rest ∧ Token.isNameStart first = true ∧
      ∀ c ∈ rest, Token.isNameChar c = true := by
  have nonempty : name ≠ "" ↔ name.toList ≠ [] := not_congr String.toList_eq_nil_iff.symm
  unfold Valid
  rw [nonempty]
  cases name.toList with
  | nil => simp
  | cons first rest =>
    simp [Token.isNameStart, Token.isNameChar, and_assoc, and_comm, and_left_comm]

/-- Whether a name can be typed. -/
def isValid (name : Name) : Bool :=
  match name.toList with
  | [] => false
  | first :: rest => Token.isNameStart first && rest.all Token.isNameChar

/-- The decision procedure is right. -/
theorem isValid_iff (name : Name) : name.isValid = true ↔ name.Valid := by
  rw [valid_iff, isValid]
  cases name.toList with
  | nil => simp
  | cons first rest => simp

instance (name : Name) : Decidable name.Valid :=
  decidable_of_iff (name.isValid = true) name.isValid_iff

/-- A subscript digit may begin a name. -/
theorem isNameStart_subscriptChar (digit : Nat) (small : digit < 10) :
    Token.isNameStart (subscriptChar digit) = true := by
  decide +revert

/-- The base of a name is the beginning of the name. -/
theorem prefix_split (name : Name) : (split name).1.toList <+: name.toList := by
  unfold split
  split
  · exact List.prefix_rfl
  · rw [String.toList_ofList]
    exact List.rdropWhile_prefix isSubscript name.toList

/-- A subscript turns whatever a valid name begins with into a valid name, even
    nothing at all. -/
theorem Valid.subscript {name : Name} (valid : name.Valid) {base : String}
    (start : base.toList <+: name.toList) (number : Nat) : (subscript base number).Valid := by
  obtain ⟨first, rest, name_eq, isStart, isRest⟩ := (valid_iff name).mp valid
  have isMark : ∀ c ∈ (Decimal.digits number).map subscriptChar, Token.isNameStart c = true := by
    intro c member
    obtain ⟨digit, isDigit, rfl⟩ := List.mem_map.mp member
    exact isNameStart_subscriptChar digit (Decimal.digits_lt_ten number digit isDigit)
  have continues : ∀ c, Token.isNameStart c = true → Token.isNameChar c = true := by
    intro c isStart
    exact (Bool.and_eq_true_iff.mp isStart).1
  rw [valid_iff, Name.subscript, String.toList_append, String.toList_ofList]
  rw [name_eq] at start
  cases base_eq : base.toList with
  | nil =>
    obtain ⟨mark, marks, marks_eq⟩ := List.exists_cons_of_ne_nil
      (List.map_eq_nil_iff.not.mpr (Decimal.digits_ne_nil number) :
        (Decimal.digits number).map subscriptChar ≠ [])
    rw [marks_eq] at isMark
    refine ⟨mark, marks, by rw [marks_eq, List.nil_append], isMark mark List.mem_cons_self, ?_⟩
    intro c member
    exact continues c (isMark c (List.mem_cons_of_mem mark member))
  | cons head others =>
    rw [base_eq] at start
    obtain ⟨rfl, among⟩ := List.cons_prefix_cons.mp start
    refine ⟨head, _, List.cons_append, isStart, ?_⟩
    intro c member
    rcases List.mem_append.mp member with inBase | isSubscript
    · exact isRest c (among.subset inBase)
    · exact continues c (isMark c isSubscript)

/-- A fresh name is the base of the name with some subscript. -/
theorem exists_subscript_of_fresh (name : Name) (used : List Name) :
    ∃ number, name.fresh used = subscript (split name).1 number := by
  obtain ⟨refused, _, taken, _⟩ := firstUnused_eq (split name).1 used used.length _
  exact ⟨_, taken⟩

/-- A fresh name can be typed if the name that it is made from can. -/
theorem Valid.fresh {name : Name} (valid : name.Valid) (used : List Name) :
    (name.fresh used).Valid := by
  obtain ⟨number, fresh_eq⟩ := exists_subscript_of_fresh name used
  rw [fresh_eq]
  exact valid.subscript (prefix_split name) number

end Name

namespace Term

/-- All names of a term can be typed, those of bound variables included. -/
def ValidNames : Term → Prop
  | var name => name.Valid
  | lam param body => param.Valid ∧ body.ValidNames
  | app function argument => function.ValidNames ∧ argument.ValidNames

instance decidableValidNames : (term : Term) → Decidable term.ValidNames
  | var name => inferInstanceAs (Decidable name.Valid)
  | lam param body =>
    have := decidableValidNames body
    inferInstanceAs (Decidable (param.Valid ∧ body.ValidNames))
  | app function argument =>
    have := decidableValidNames function
    have := decidableValidNames argument
    inferInstanceAs (Decidable (function.ValidNames ∧ argument.ValidNames))

/-- Substitution keeps names valid. The binders that it renames get fresh names. -/
theorem ValidNames.substitute {term replacement : Term} (valid : term.ValidNames) (name : Name)
    (validReplacement : replacement.ValidNames) :
    (term.substitute name replacement).ValidNames := by
  induction term using renamingInduction generalizing name replacement with
  | var other =>
    rw [substitute_var]
    split
    · exact validReplacement
    · exact valid
  | lam param body bodyHypothesis renamedHypothesis =>
    rw [substitute_lam]
    split
    · exact valid
    split
    · have validParam := valid.1.fresh (replacement.freeNames ++ body.freeNames)
      have validRenamed := bodyHypothesis valid.2 param (show (var _).ValidNames from validParam)
      exact ⟨validParam, renamedHypothesis _ validRenamed name validReplacement⟩
    · exact ⟨valid.1, bodyHypothesis valid.2 name validReplacement⟩
  | app function argument functionHypothesis argumentHypothesis =>
    rw [substitute_app]
    exact ⟨functionHypothesis valid.1 name validReplacement,
      argumentHypothesis valid.2 name validReplacement⟩

/-- A beta step keeps names valid. -/
theorem ValidNames.betaStep {term reduct : Term} (valid : term.ValidNames)
    (step : BetaStep term reduct) : reduct.ValidNames := by
  induction step with
  | contract contraction =>
    obtain ⟨param, body, argument, rfl, rfl⟩ := exists_of_contract? contraction
    exact valid.1.2.substitute param valid.2
  | lam param _ inductionHypothesis => exact ⟨valid.1, inductionHypothesis valid.2⟩
  | function _ argument inductionHypothesis => exact ⟨inductionHypothesis valid.1, valid.2⟩
  | argument function _ inductionHypothesis => exact ⟨valid.1, inductionHypothesis valid.2⟩

/-- Any number of beta steps keeps names valid. -/
theorem ValidNames.reduces {term reduct : Term} (valid : term.ValidNames)
    (reduces : Reduces term reduct) : reduct.ValidNames := by
  induction reduces with
  | refl => exact valid
  | tail _ step inductionHypothesis => exact inductionHypothesis.betaStep step

/-- Curried abstraction has the names of its parameters and of its body. -/
theorem validNames_abstraction {params : List Name} {body : Term}
    (validParams : ∀ param ∈ params, param.Valid) (validBody : body.ValidNames) :
    (abstraction params body).ValidNames := by
  induction params with
  | nil => exact validBody
  | cons param params inductionHypothesis =>
    obtain ⟨validParam, validOthers⟩ := List.forall_mem_cons.mp validParams
    exact ⟨validParam, inductionHypothesis validOthers⟩

/-- The names of a numeral are valid. -/
theorem validNames_church (number : Nat) : (Numeral.church number).ValidNames := by
  have iterated (count : Nat) : (Numeral.iterate (var "f") count (var "x")).ValidNames := by
    induction count with
    | zero => decide
    | succ count inductionHypothesis => exact ⟨by decide, inductionHypothesis⟩
  exact ⟨by decide, by decide, iterated number⟩

/-- The combinators have valid names. -/
theorem validNames_named : ∀ entry ∈ Combinators.named, entry.2.ValidNames := by
  decide +kernel

end Term

/-- Putting definitions with valid names into a term keeps its names valid. -/
theorem Environment.validNames_resolveNames (environment : Environment)
    (definitions : ∀ name definition, environment.get? name = some definition →
      definition.ValidNames)
    (expanding names : List Name) (term resolved : Term) (valid : term.ValidNames)
    (resolves : environment.resolveNames expanding names term = .ok resolved) :
    resolved.ValidNames := by
  fun_induction environment.resolveNames expanding names term generalizing resolved with
  | case1 expanding term =>
    cases resolves
    exact valid
  | case2 expanding name names term unbound inductionHypothesis =>
    exact inductionHypothesis resolved valid resolves
  | case3 => cases resolves
  | case4 => cases resolves
  | case5 expanding name names term definition found _ inner innerResolves innerHypothesis
      inductionHypothesis =>
    have validInner : inner.ValidNames :=
      innerHypothesis inner (definitions name definition found) innerResolves
    exact inductionHypothesis resolved (valid.substitute name validInner) resolves

end UntypedLambda
