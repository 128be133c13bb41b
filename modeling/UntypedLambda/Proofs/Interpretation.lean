import Mathlib.Logic.Function.Basic
import UntypedLambda.Proofs.FreshName
import UntypedLambda.Proofs.Nameless
import UntypedLambda.Term.AlphaEquality

/-!
# The nameless form of a term

A term is translated below a list of bound names, innermost first: a name in the
list becomes its position, and any other name stays. Equality up to the names of
bound variables is exactly equality of nameless forms.

The translation is one case of an interpretation, which gives every name an
arbitrary nameless term. Substitution is read off from interpretations: to
replace a name in a term is to change the meaning of that name. This holds
whichever binders are renamed on the way, since a fresh name means the binder
that it was invented for and nothing else in the body.
-/

namespace UntypedLambda

/-- A meaning for every name. -/
abbrev Interpretation := Name → Nameless

/-- The interpretation below a binder: the parameter means that binder, and all
    other names keep their meaning. -/
def Interpretation.below (meaning : Interpretation) (param : Name) : Interpretation :=
  fun name => if name = param then .bound 0 else (meaning name).shifted

/-- The parameter of a binder means that binder. -/
@[simp] theorem Interpretation.below_self (meaning : Interpretation) (param : Name) :
    meaning.below param param = .bound 0 :=
  if_pos rfl

/-- Any other name means what it meant, read under one more binder. -/
theorem Interpretation.below_of_ne (meaning : Interpretation) {param name : Name}
    (different : name ≠ param) : meaning.below param name = (meaning name).shifted :=
  if_neg different

/-- Below bound names, innermost first, a name means its position among them, or
    itself if it is not bound. -/
def Interpretation.ofScope (scope : List Name) : Interpretation :=
  fun name =>
    match scope.idxOf? name with
    | some index => .bound index
    | none => .free name

/-- One more bound name is one more binder. -/
theorem Interpretation.ofScope_cons (param : Name) (scope : List Name) :
    ofScope (param :: scope) = (ofScope scope).below param := by
  funext name
  by_cases same : name = param
  · simp [same, ofScope, List.idxOf?_cons]
  · have different : (param == name) = false := beq_false_of_ne (Ne.symm same)
    rw [below_of_ne _ same, ofScope, ofScope, List.idxOf?_cons, different]
    cases scope.idxOf? name <;> rfl

/-- Under assignments, the interpretation below a binder is made of the assigned
    meanings. -/
theorem Interpretation.assign_below (meaning : Interpretation) (param name : Name)
    (assignment : Nameless.Assignment) :
    (meaning.below param name).assign assignment.lifted =
      below (fun name => (meaning name).assign assignment) param name := by
  by_cases same : name = param
  · rw [same, below_self, below_self]
    rfl
  · rw [below_of_ne _ same, below_of_ne _ same]
    exact Nameless.shifted_assign_lifted assignment (meaning name)

/-- A meaning that is changed outside a binder is changed below it, if the binder
    does not bind that name. -/
theorem Interpretation.below_update (meaning : Interpretation) (param name : Name)
    (value : Nameless) (different : name ≠ param) :
    below (Function.update meaning name value) param =
      Function.update (meaning.below param) name value.shifted := by
  funext candidate
  by_cases same : candidate = name
  · rw [same, below_of_ne _ different, Function.update_self, Function.update_self]
  · rw [Function.update_of_ne same, below, below, Function.update_of_ne same]

namespace Term

/-- The nameless term that a term stands for if its free names have a meaning. -/
def interpret (meaning : Interpretation) : Term → Nameless
  | var name => meaning name
  | lam param body => .lam (body.interpret (meaning.below param))
  | app function argument => .app (function.interpret meaning) (argument.interpret meaning)

/-- The nameless form of a term below bound names, innermost first. -/
def namelessUnder (scope : List Name) : Term → Nameless
  | var name => Interpretation.ofScope scope name
  | lam param body => .lam (body.namelessUnder (param :: scope))
  | app function argument => .app (function.namelessUnder scope) (argument.namelessUnder scope)

/-- The nameless form of a term on its own. -/
def nameless (term : Term) : Nameless :=
  term.namelessUnder []

/-- The nameless form interprets bound names by position and other names by
    themselves. -/
theorem namelessUnder_eq_interpret (scope : List Name) (term : Term) :
    term.namelessUnder scope = term.interpret (Interpretation.ofScope scope) := by
  induction term generalizing scope with
  | var name => rfl
  | lam param body inductionHypothesis =>
    rw [namelessUnder, interpret, inductionHypothesis, Interpretation.ofScope_cons]
  | app function argument functionHypothesis argumentHypothesis =>
    rw [namelessUnder, interpret, functionHypothesis, argumentHypothesis]

/-- Without bound names, every name means itself. -/
theorem nameless_eq_interpret (term : Term) : term.nameless = term.interpret .free :=
  namelessUnder_eq_interpret [] term

/-- Only the meanings of free names matter. -/
theorem interpret_congr (meaning other : Interpretation) (term : Term)
    (agree : ∀ name ∈ term.freeNames, meaning name = other name) :
    term.interpret meaning = term.interpret other := by
  induction term generalizing meaning other with
  | var name => exact agree name ((mem_freeNames_var name name).mpr rfl)
  | lam param body inductionHypothesis =>
    rw [interpret, interpret]
    congr 1
    apply inductionHypothesis
    intro name present
    by_cases same : name = param
    · rw [same, Interpretation.below_self, Interpretation.below_self]
    · rw [Interpretation.below_of_ne _ same, Interpretation.below_of_ne _ same,
        agree name ((mem_freeNames_lam name param body).mpr ⟨present, same⟩)]
  | app function argument functionHypothesis argumentHypothesis =>
    rw [interpret, interpret,
      functionHypothesis meaning other fun name present =>
        agree name ((mem_freeNames_app name function argument).mpr (.inl present)),
      argumentHypothesis meaning other fun name present =>
        agree name ((mem_freeNames_app name function argument).mpr (.inr present))]

/-- Assigning to the nameless term assigns to the meanings. -/
theorem assign_interpret (assignment : Nameless.Assignment) (meaning : Interpretation)
    (term : Term) :
    (term.interpret meaning).assign assignment =
      term.interpret fun name => (meaning name).assign assignment := by
  induction term generalizing assignment meaning with
  | var name => rfl
  | lam param body inductionHypothesis =>
    rw [interpret, interpret, Nameless.assign, inductionHypothesis]
    congr 2
    funext name
    exact meaning.assign_below param name assignment
  | app function argument functionHypothesis argumentHypothesis =>
    rw [interpret, interpret, Nameless.assign, functionHypothesis, argumentHypothesis]

/-- Below a binder, a term that does not mention its parameter means what it
    meant before. -/
theorem interpret_below_of_not_mem (meaning : Interpretation) (param : Name) (term : Term)
    (absent : param ∉ term.freeNames) :
    term.interpret (meaning.below param) = (term.interpret meaning).shifted := by
  rw [Nameless.shifted_eq_assign, assign_interpret]
  apply interpret_congr
  intro name present
  have different : name ≠ param := fun same => absent (same ▸ present)
  rw [Interpretation.below_of_ne _ different, Nameless.shifted_eq_assign]

/-- The meaning of a name that does not occur free may be changed. -/
theorem interpret_update_of_not_mem (meaning : Interpretation) (name : Name) (value : Nameless)
    (term : Term) (absent : name ∉ term.freeNames) :
    term.interpret (Function.update meaning name value) = term.interpret meaning := by
  apply interpret_congr
  intro other occurs
  have different : other ≠ name := fun same => absent (same ▸ occurs)
  exact Function.update_of_ne different value meaning

/-- Renaming keeps the size of a term. -/
theorem size_substitute_var (term : Term) (name newName : Name) :
    (term.substitute name (var newName)).size = term.size :=
  (substituteSized name (var newName) term).property rfl

/-- Induction on terms that knows the claim not only for the body of an abstraction
    but also for the body with the parameter renamed. -/
@[elab_as_elim] theorem renamingInduction {motive : Term → Prop}
    (var : ∀ name, motive (.var name))
    (lam : ∀ param body, motive body →
      (∀ newParam, motive (body.substitute param (.var newParam))) → motive (.lam param body))
    (app : ∀ function argument, motive function → motive argument → motive (.app function argument))
    (term : Term) : motive term := by
  induction sized : term.size using Nat.strongRecOn generalizing term with
  | ind size smaller =>
    subst sized
    cases term with
    | var name => exact var name
    | lam param body =>
      have bodySize : body.size < (Term.lam param body).size := Nat.lt_succ_self body.size
      refine lam param body (smaller _ bodySize body rfl) ?_
      intro newParam
      exact smaller _ bodySize _ (size_substitute_var body param newParam)
    | app function argument =>
      have functionSize : function.size < (Term.app function argument).size := by
        rw [Term.size]
        omega
      have argumentSize : argument.size < (Term.app function argument).size := by
        rw [Term.size]
        omega
      exact app function argument (smaller _ functionSize function rfl)
        (smaller _ argumentSize argument rfl)

/-- An abstraction whose parameter is not free in a replacement sees the
    replacement below its binder as it is seen outside. -/
theorem interpret_lam_update (meaning : Interpretation) (param name : Name)
    (body replacement : Term)
    (different : name ≠ param) (uncaptured : param ∉ replacement.freeNames) :
    (lam param body).interpret (Function.update meaning name (replacement.interpret meaning)) =
      .lam (body.interpret (Function.update (meaning.below param) name
        (replacement.interpret (meaning.below param)))) := by
  rw [interpret, Interpretation.below_update _ _ _ _ different,
    interpret_below_of_not_mem _ _ _ uncaptured]

/-- Renaming the parameter of an abstraction to a name that is not free in its body
    does not change what it means, provided that the body was renamed correctly. -/
theorem interpret_lam_rename (meaning : Interpretation) (param newParam : Name)
    (body renamed : Term) (unused : newParam ∉ body.freeNames)
    (renames : ∀ other : Interpretation,
      renamed.interpret other = body.interpret (Function.update other param (other newParam))) :
    (lam newParam renamed).interpret meaning = (lam param body).interpret meaning := by
  rw [interpret, interpret, renames, Interpretation.below_self]
  congr 1
  apply interpret_congr
  intro name present
  have notNew : name ≠ newParam := fun same => unused (same ▸ present)
  by_cases same : name = param
  · rw [same, Function.update_self, Interpretation.below_self]
  · rw [Function.update_of_ne same, Interpretation.below_of_ne _ notNew,
      Interpretation.below_of_ne _ same]

/-- To replace a name is to change its meaning. No free name of the replacement
    is captured, and no other name is touched: an abstraction that would capture
    one means the same after it has been renamed. -/
theorem interpret_substitute (term : Term) (name : Name) (replacement : Term)
    (meaning : Interpretation) :
    (term.substitute name replacement).interpret meaning =
      term.interpret (Function.update meaning name (replacement.interpret meaning)) := by
  induction term using renamingInduction generalizing name replacement meaning with
  | var other =>
    rw [substitute_var, interpret]
    by_cases same : other = name
    · rw [if_pos same, same, Function.update_self]
    · rw [if_neg same, interpret, Function.update_of_ne same]
  | lam param body bodyHypothesis renamedHypothesis =>
    by_cases present : name ∈ (lam param body).freeNames
    · have different : name ≠ param := ((mem_freeNames_lam name param body).mp present).2
      have inBody : name ∈ body.freeNames := ((mem_freeNames_lam name param body).mp present).1
      rw [substitute_lam, if_neg (not_not.mpr present)]
      by_cases captures : param ∈ replacement.freeNames
      · rw [if_pos captures]
        generalize fresh : param.fresh (replacement.freeNames ++ body.freeNames) = newParam
        have unused : newParam ∉ replacement.freeNames ++ body.freeNames :=
          fresh ▸ Name.fresh_not_mem param _
        rw [List.mem_append, not_or] at unused
        have newDifferent : name ≠ newParam := fun same => unused.2 (same ▸ inBody)
        rw [interpret, renamedHypothesis,
          ← interpret_lam_update meaning newParam name _ replacement newDifferent unused.1]
        exact interpret_lam_rename _ param newParam body _ unused.2
          (bodyHypothesis param (var newParam))
      · rw [if_neg captures, interpret, bodyHypothesis,
          interpret_lam_update meaning param name body replacement different captures]
    · rw [substitute_of_not_mem present, interpret_update_of_not_mem meaning name _ _ present]
  | app function argument functionHypothesis argumentHypothesis =>
    rw [substitute_app, interpret, interpret, functionHypothesis, argumentHypothesis]

/-- Substitution replaces the free name in the nameless form. The replacement is
    shifted below each binder that it comes under, so it keeps its own names. -/
theorem nameless_substitute (term : Term) (name : Name) (replacement : Term) :
    (term.substitute name replacement).nameless =
      term.nameless.assign ⟨.bound, Function.update .free name replacement.nameless⟩ := by
  rw [nameless_eq_interpret, nameless_eq_interpret, nameless_eq_interpret, interpret_substitute,
    assign_interpret]
  rfl

/-- To remove a binder and to put an argument in its place is to give the parameter the meaning
    of the argument. -/
theorem interpret_below_instantiate (meaning : Interpretation) (param : Name) (body : Term)
    (argument : Nameless) :
    (body.interpret (meaning.below param)).instantiate argument =
      body.interpret (Function.update meaning param argument) := by
  rw [Nameless.instantiate, assign_interpret]
  congr 1
  funext name
  by_cases same : name = param
  · rw [same, Function.update_self, Interpretation.below_self]
    rfl
  · rw [Function.update_of_ne same, Interpretation.below_of_ne _ same]
    exact Nameless.shifted_instantiate _ _

/-- To give the parameter of a binder an argument is to remove the binder from the
    nameless form and to put the argument in its place. -/
theorem namelessUnder_substitute_param (scope : List Name) (param : Name) (body argument : Term) :
    (body.substitute param argument).namelessUnder scope =
      (body.namelessUnder (param :: scope)).instantiate (argument.namelessUnder scope) := by
  rw [namelessUnder_eq_interpret, namelessUnder_eq_interpret, namelessUnder_eq_interpret,
    interpret_substitute, Interpretation.ofScope_cons, interpret_below_instantiate]

/-- Comparison below binders is comparison of nameless forms. -/
theorem alphaEqualUnder_iff (scope otherScope : List Name) (term other : Term) :
    alphaEqualUnder scope otherScope term other = true ↔
      term.namelessUnder scope = other.namelessUnder otherScope := by
  induction term generalizing scope otherScope other with
  | var name =>
    cases other with
    | var otherName =>
      simp only [alphaEqualUnder, namelessUnder, Interpretation.ofScope]
      cases scope.idxOf? name <;> cases otherScope.idxOf? otherName <;> simp
    | lam _ _ | app _ _ =>
      simp only [alphaEqualUnder, namelessUnder, Interpretation.ofScope]
      cases scope.idxOf? name <;> simp
  | lam param body inductionHypothesis =>
    cases other with
    | var otherName =>
      simp only [alphaEqualUnder, namelessUnder, Interpretation.ofScope]
      cases otherScope.idxOf? otherName <;> simp
    | lam otherParam otherBody =>
      simp only [alphaEqualUnder, namelessUnder, Nameless.lam.injEq]
      exact inductionHypothesis _ _ otherBody
    | app _ _ => simp [alphaEqualUnder, namelessUnder]
  | app function argument functionHypothesis argumentHypothesis =>
    cases other with
    | var otherName =>
      simp only [alphaEqualUnder, namelessUnder, Interpretation.ofScope]
      cases otherScope.idxOf? otherName <;> simp
    | lam _ _ => simp [alphaEqualUnder, namelessUnder]
    | app otherFunction otherArgument =>
      simp only [alphaEqualUnder, namelessUnder, Nameless.app.injEq, Bool.and_eq_true]
      exact and_congr (functionHypothesis _ _ otherFunction) (argumentHypothesis _ _ otherArgument)

/-- Terms are equal up to the names of bound variables exactly if they have the
    same nameless form. -/
theorem alphaEqual_iff_nameless (term other : Term) :
    alphaEqual term other = true ↔ term.nameless = other.nameless :=
  alphaEqualUnder_iff [] [] term other

example :
    let term := lam "x" (lam "y" (app (var "x") (var "z")))
    let other := lam "y" (lam "x" (app (var "y") (var "z")))
    term.nameless = .lam (.lam (.app (.bound 1) (.free "z"))) ∧ alphaEqual term other = true := by
  decide

end Term

end UntypedLambda
