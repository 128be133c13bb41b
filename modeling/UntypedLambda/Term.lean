import UntypedLambda.Name

/-!
# Terms of the untyped lambda calculus

Terms carry names, bound and free alike, and are compared as trees: two terms
that differ in the names of bound variables are different values here, although
they may be equal up to renaming (`UntypedLambda.Term.AlphaEquality`).

Substitution avoids capture by renaming binders. It renames only where a capture
would happen, and a subterm that does not mention the name comes back unchanged.

Reduction copies arguments, so that a term of few distinct subterms may be a tree
of astronomic size. The free names are therefore kept with every node: whether
a name occurs free is answered without a walk, and substitution passes by
whatever it leaves alone.
-/

namespace UntypedLambda

/-- A variable, an abstraction that binds one name in its body, or the
    application of one term to another. -/
inductive Term where
  | var (name : Name)
  | lam (param : Name) (body : Term)
  | app (function argument : Term)
with
  /-- The names that occur free, in ascending order, each of them once. -/
  @[computed_field] freeNames : Term → List Name
    | .var name => [name]
    | .lam param body => body.freeNames.filter (· ≠ param)
    | .app function argument => Name.union function.freeNames argument.freeNames
  deriving DecidableEq, Repr, Inhabited

namespace Term

/-- The free name of a variable is its own. -/
theorem mem_freeNames_var (name other : Name) :
    name ∈ (var other).freeNames ↔ name = other := by
  simp [freeNames]

/-- A binder takes its parameter away. -/
theorem mem_freeNames_lam (name param : Name) (body : Term) :
    name ∈ (lam param body).freeNames ↔ name ∈ body.freeNames ∧ name ≠ param := by
  simp [freeNames]

/-- An application has the free names of both sides. -/
theorem mem_freeNames_app (name : Name) (function argument : Term) :
    name ∈ (app function argument).freeNames ↔
      name ∈ function.freeNames ∨ name ∈ argument.freeNames := by
  simp [freeNames]

/-- The free names are in ascending order. -/
theorem ascending_freeNames (term : Term) : Name.Ascending term.freeNames := by
  induction term with
  | var name => exact List.pairwise_singleton _ name
  | lam param body inductionHypothesis => exact inductionHypothesis.filter _
  | app function argument functionHypothesis argumentHypothesis =>
    exact Name.ascending_union _ _ functionHypothesis argumentHypothesis

/-- No free name is repeated. -/
theorem nodup_freeNames (term : Term) : term.freeNames.Nodup :=
  term.ascending_freeNames.nodup

/-- The number of nodes. Every term has at least one. -/
def size : Term → Nat
  | var _ => 1
  | lam _ body => body.size + 1
  | app function argument => function.size + argument.size + 1

/-- Substitution together with the fact that makes it end: replacing a name by
    a term of a single node keeps the size. A binder is renamed by such a
    replacement, so its renamed body is still smaller than the abstraction. -/
def substituteSized (name : Name) (replacement : Term) (term : Term) :
    { result : Term // replacement.size = 1 → result.size = term.size } :=
  if name ∉ term.freeNames then ⟨term, fun _ => rfl⟩
  else
    match term with
    | var _ => ⟨replacement, fun single => by simp [single, size]⟩
    | app function argument =>
      let newFunction := substituteSized name replacement function
      let newArgument := substituteSized name replacement argument
      ⟨app newFunction.val newArgument.val, fun single => by
        simp [size, newFunction.property single, newArgument.property single]⟩
    | lam param body =>
      if param ∈ replacement.freeNames then
        let newParam := param.fresh (replacement.freeNames ++ body.freeNames)
        match substituteSized param (var newParam) body with
        | ⟨renamed, keepsSize⟩ =>
          have smaller : renamed.size = body.size := keepsSize rfl
          let newBody := substituteSized name replacement renamed
          ⟨lam newParam newBody.val, fun single => by
            simp [size, newBody.property single, smaller]⟩
      else
        let newBody := substituteSized name replacement body
        ⟨lam param newBody.val, fun single => by simp [size, newBody.property single]⟩
termination_by term.size
decreasing_by all_goals (simp only [size]; omega)

/-- The term with every free occurrence of a name replaced. A binder that would
    capture a free name of the replacement is renamed first, to a fresh name
    like it; all other binders keep their names. -/
def substitute (term : Term) (name : Name) (replacement : Term) : Term :=
  (substituteSized name replacement term).val

/-- A name that does not occur free has nothing to be replaced, and no binder is
    renamed for it. -/
theorem substitute_of_not_mem {term : Term} {name : Name} (absent : name ∉ term.freeNames)
    (replacement : Term) : term.substitute name replacement = term := by
  unfold substitute substituteSized
  rw [if_pos absent]

/-- A variable is replaced exactly if it is the name. -/
theorem substitute_var (other name : Name) (replacement : Term) :
    (var other).substitute name replacement = if other = name then replacement else var other := by
  unfold substitute substituteSized
  by_cases same : other = name <;> simp [mem_freeNames_var, same, eq_comm]

/-- Substitution goes into both sides of an application. -/
theorem substitute_app (function argument : Term) (name : Name) (replacement : Term) :
    (app function argument).substitute name replacement =
      app (function.substitute name replacement) (argument.substitute name replacement) := by
  by_cases present : name ∈ (app function argument).freeNames
  · unfold substitute
    rw [substituteSized]
    simp [present]
  · rw [substitute_of_not_mem present]
    rw [mem_freeNames_app, not_or] at present
    rw [substitute_of_not_mem present.1, substitute_of_not_mem present.2]

/-- Under a binder, substitution stops, renames first, or goes straight on. -/
theorem substitute_lam (param : Name) (body : Term) (name : Name) (replacement : Term) :
    (lam param body).substitute name replacement =
      if name ∉ (lam param body).freeNames then lam param body
      else if param ∈ replacement.freeNames then
        let newParam := param.fresh (replacement.freeNames ++ body.freeNames)
        lam newParam ((body.substitute param (var newParam)).substitute name replacement)
      else lam param (body.substitute name replacement) := by
  unfold substitute
  rw [substituteSized]
  split
  · rfl
  · split <;> rfl

/-- The contraction of a function applied to an argument, if the function is an
    abstraction: the body, with the argument for the parameter. -/
def appliedTo? (function argument : Term) : Option Term :=
  match function with
  | lam param body => some (body.substitute param argument)
  | _ => none

/-- Contract a redex. Any term that is none has no contraction. -/
def contract? : Term → Option Term
  | app function argument => function.appliedTo? argument
  | _ => none

/-- Whether a term is an abstraction applied to an argument. -/
def isRedex : Term → Bool
  | app (lam _ _) _ => true
  | _ => false

/-- A term has a contraction exactly if it is a redex. -/
theorem isSome_contract? (term : Term) : term.contract?.isSome = term.isRedex := by
  cases term with
  | app function argument => cases function <;> rfl
  | _ => rfl

/-- Curried abstraction: the first parameter is bound outermost. Without
    parameters it is the body itself. -/
def abstraction (params : List Name) (body : Term) : Term :=
  params.foldr lam body

/-- A function applied to arguments one after the other, from the left. -/
def applyTo (function : Term) (arguments : List Term) : Term :=
  arguments.foldl app function

/-- Application of the first term to the rest, from the left. Nothing can be
    made of no terms. -/
def application? : List Term → Option Term
  | [] => none
  | function :: arguments => some (function.applyTo arguments)

/-- The terms of a list, each of them once. -/
def distinct (terms : List Term) : List Term :=
  terms.foldr (fun term others => if term ∈ others then others else term :: others) []

end Term

end UntypedLambda
