import UntypedLambda.Proofs.Interpretation

/-!
# Substitution avoids capture

On nameless terms, to replace a free name is to put the replacement, shifted by the binders above,
in the place of each of its occurrences. There is nothing to rename, and nothing can be captured.
Substitution is this replacement, seen through the nameless forms of the terms. Every free
occurrence of the replacement and every other free occurrence of the term stays free, so that
the free occurrences can be counted beforehand.

Substitution recurs on a body that may have been renamed before, which is no part of the term. The
calls that it makes are a relation here, and every call comes to an end.
-/

namespace UntypedLambda

namespace Nameless

/-- The term with every free occurrence of a name replaced. A replacement that comes under a binder
    is read under one more binder. -/
def replaceFree (term : Nameless) (name : Name) (replacement : Nameless) : Nameless :=
  match term with
  | bound index => bound index
  | free other => if other = name then replacement else free other
  | lam body => lam (body.replaceFree name replacement.shifted)
  | app function argument =>
    app (function.replaceFree name replacement) (argument.replaceFree name replacement)

/-- To replace one name is to assign all indices and all other names themselves. -/
theorem replaceFree_eq_assign (term : Nameless) (name : Name) (replacement : Nameless) :
    term.replaceFree name replacement =
      term.assign ⟨bound, Function.update free name replacement⟩ := by
  induction term generalizing replacement with
  | bound index => rfl
  | free other =>
    rw [replaceFree, assign]
    exact (Function.update_apply free name replacement other).symm
  | lam body inductionHypothesis =>
    have lifted : Assignment.lifted ⟨bound, Function.update free name replacement⟩ =
        ⟨bound, Function.update free name replacement.shifted⟩ := by
      ext index
      · cases index <;> rfl
      · by_cases same : index = name
        · simp [Assignment.lifted, same]
        · simp [Assignment.lifted, same, shifted, rename]
    rw [replaceFree, assign, lifted, inductionHypothesis]
  | app function argument functionHypothesis argumentHypothesis =>
    rw [replaceFree, assign, functionHypothesis, argumentHypothesis]

/-- How often a name occurs free. -/
def occurrences (name : Name) : Nameless → Nat
  | bound _ => 0
  | free other => if other = name then 1 else 0
  | lam body => body.occurrences name
  | app function argument => function.occurrences name + argument.occurrences name

/-- Renumbering leaves the free names alone. -/
theorem occurrences_rename (name : Name) (renumber : Nat → Nat) (term : Nameless) :
    (term.rename renumber).occurrences name = term.occurrences name := by
  induction term generalizing renumber with
  | bound index | free other => rfl
  | lam body inductionHypothesis => exact inductionHypothesis (underBinder renumber)
  | app function argument functionHypothesis argumentHypothesis =>
    rw [rename, occurrences, occurrences, functionHypothesis, argumentHypothesis]

/-- The name that is replaced is gone, any other one occurs as often as before, and the occurrences
    in the replacement come in once for each occurrence that is replaced. -/
theorem occurrences_replaceFree (term : Nameless) (name : Name) (replacement : Nameless)
    (other : Name) :
    (term.replaceFree name replacement).occurrences other =
      (if other = name then 0 else term.occurrences other) +
        term.occurrences name * replacement.occurrences other := by
  induction term generalizing replacement with
  | bound index => simp [replaceFree, occurrences]
  | free found =>
    rw [replaceFree]
    by_cases same : found = name
    · subst same
      rw [if_pos rfl, occurrences, occurrences, if_pos rfl]
      grind
    · rw [if_neg same, occurrences, occurrences, if_neg same]
      grind
  | lam body inductionHypothesis =>
    rw [replaceFree, occurrences, inductionHypothesis, shifted, occurrences_rename]
    rfl
  | app function argument functionHypothesis argumentHypothesis =>
    rw [replaceFree, occurrences, functionHypothesis, argumentHypothesis, occurrences, occurrences]
    split <;> rw [Nat.add_mul] <;> omega

end Nameless

namespace Term

/-- How often a name occurs free. -/
def occurrences (name : Name) : Term → Nat
  | var other => if other = name then 1 else 0
  | lam param body => if param = name then 0 else body.occurrences name
  | app function argument => function.occurrences name + argument.occurrences name

/-- Below binders of other names, a name occurs as often as in the nameless form, and below a binder
    of the name it does not occur there. -/
theorem occurrences_namelessUnder (scope : List Name) (name : Name) (term : Term) :
    (term.namelessUnder scope).occurrences name =
      if name ∈ scope then 0 else term.occurrences name := by
  induction term generalizing scope with
  | var other =>
    rw [namelessUnder, Interpretation.ofScope, occurrences]
    by_cases inScope : other ∈ scope
    · obtain ⟨index, position⟩ := Option.ne_none_iff_exists'.mp fun none =>
        List.idxOf?_eq_none_iff.mp none inScope
      rw [position, Nameless.occurrences]
      grind
    · rw [List.idxOf?_eq_none_iff.mpr inScope, Nameless.occurrences]
      grind
  | lam param body inductionHypothesis =>
    rw [namelessUnder, Nameless.occurrences, inductionHypothesis, occurrences]
    grind
  | app function argument functionHypothesis argumentHypothesis =>
    rw [namelessUnder, Nameless.occurrences, functionHypothesis, argumentHypothesis, occurrences]
    split <;> rfl

/-- A name occurs in a term as often as in its nameless form. -/
theorem occurrences_nameless (name : Name) (term : Term) :
    term.nameless.occurrences name = term.occurrences name := by
  rw [nameless, occurrences_namelessUnder, if_neg List.not_mem_nil]

/-- What a name is replaced by in a term, and with what result. A term in which the name is not
    free is the result itself. Otherwise each part has a result of its own; below a binder that
    would capture, that is the result for the body with the parameter renamed. Being related to
    a result takes finitely many calls, so a call that goes on forever has none. -/
inductive SubstitutesTo : Term → Name → Term → Term → Prop where
  | absent {term : Term} {name : Name} (absent : name ∉ term.freeNames) (replacement : Term) :
      SubstitutesTo term name replacement term
  | var (name : Name) (replacement : Term) : SubstitutesTo (var name) name replacement replacement
  | app {function argument newFunction newArgument replacement : Term} {name : Name}
      (present : name ∈ (app function argument).freeNames)
      (inFunction : SubstitutesTo function name replacement newFunction)
      (inArgument : SubstitutesTo argument name replacement newArgument) :
      SubstitutesTo (app function argument) name replacement (app newFunction newArgument)
  | lam {param name : Name} {body newBody replacement : Term}
      (present : name ∈ (lam param body).freeNames) (uncaptured : param ∉ replacement.freeNames)
      (inBody : SubstitutesTo body name replacement newBody) :
      SubstitutesTo (lam param body) name replacement (lam param newBody)
  | renamed {param newParam name : Name} {body renamed newBody replacement : Term}
      (present : name ∈ (lam param body).freeNames) (captured : param ∈ replacement.freeNames)
      (fresh : newParam = param.fresh (replacement.freeNames ++ body.freeNames))
      (renames : SubstitutesTo body param (Term.var newParam) renamed)
      (inRenamed : SubstitutesTo renamed name replacement newBody) :
      SubstitutesTo (lam param body) name replacement (lam newParam newBody)

/-- The calls of a substitution give its value and nothing else. -/
theorem SubstitutesTo.eq {term replacement result : Term} {name : Name}
    (substitutes : SubstitutesTo term name replacement result) :
    term.substitute name replacement = result := by
  induction substitutes with
  | absent absent replacement => exact substitute_of_not_mem absent replacement
  | var name replacement => rw [substitute_var, if_pos rfl]
  | app _ _ _ functionHypothesis argumentHypothesis =>
    rw [substitute_app, functionHypothesis, argumentHypothesis]
  | lam present uncaptured _ inductionHypothesis =>
    rw [substitute_lam, if_neg (not_not_intro present), if_neg uncaptured, inductionHypothesis]
  | renamed present captured fresh _ _ renamedHypothesis inductionHypothesis =>
    rw [substitute_lam, if_neg (not_not_intro present), if_pos captured, ← fresh]
    dsimp only
    rw [renamedHypothesis, inductionHypothesis]

/-- The calls of every substitution come to an end. -/
theorem substitutesTo_substitute (term : Term) (name : Name) (replacement : Term) :
    SubstitutesTo term name replacement (term.substitute name replacement) := by
  induction term using renamingInduction generalizing name replacement with
  | var other =>
    rw [substitute_var]
    split
    · rename_i same
      exact same ▸ .var other replacement
    · rename_i different
      refine .absent (fun present => different ?_) replacement
      exact ((mem_freeNames_var name other).mp present).symm
  | lam param body bodyHypothesis renamedHypothesis =>
    rw [substitute_lam]
    split
    · rename_i absent
      exact .absent absent replacement
    · rename_i present
      rw [not_not] at present
      split
      · rename_i captured
        exact .renamed present captured rfl (bodyHypothesis param _)
          (renamedHypothesis _ name replacement)
      · rename_i uncaptured
        exact .lam present uncaptured (bodyHypothesis name replacement)
  | app function argument functionHypothesis argumentHypothesis =>
    by_cases present : name ∈ (app function argument).freeNames
    · rw [substitute_app]
      exact .app present (functionHypothesis name replacement) (argumentHypothesis name replacement)
    · rw [substitute_of_not_mem present]
      exact .absent present replacement

/-- Substitution comes to an end, with one result. In nameless form the result is the term with the
    replacement, shifted as needed, for every free occurrence of the name. So the name is gone
    unless it is free in the replacement, every other name that was free is free as often as it
    was, the free names of the replacement come in free as often as the name was there, and a
    binder of the name shields its body. -/
theorem substitution_is_capture_avoiding (term : Term) (name : Name) (replacement : Term) :
    (∀ result, SubstitutesTo term name replacement result ↔
      result = term.substitute name replacement) ∧
    (term.substitute name replacement).nameless =
      term.nameless.replaceFree name replacement.nameless ∧
    (∀ other, (term.substitute name replacement).occurrences other =
      (if other = name then 0 else term.occurrences other) +
        term.occurrences name * replacement.occurrences other) ∧
    ∀ body, (lam name body).substitute name replacement = lam name body := by
  have inNameless : (term.substitute name replacement).nameless =
      term.nameless.replaceFree name replacement.nameless := by
    rw [nameless_substitute, Nameless.replaceFree_eq_assign]
  refine ⟨fun result => ⟨fun substitutes => substitutes.eq.symm, ?_⟩, inNameless, fun other => ?_,
    fun body => ?_⟩
  · rintro rfl
    exact substitutesTo_substitute term name replacement
  · rw [← occurrences_nameless, inNameless, Nameless.occurrences_replaceFree]
    simp only [occurrences_nameless]
  · exact substitute_of_not_mem (fun present => ((mem_freeNames_lam ..).mp present).2 rfl)
      replacement

/-- The first fresh name is bound further in, so that binder is renamed in turn. -/
example :
    (lam "x" (lam "x₀" (app (var "x") (app (var "x₀") (var "y"))))).substitute "y" (var "x") =
      lam "x₀" (lam "x₁" (app (var "x₀") (app (var "x₁") (var "x")))) := by
  decide +kernel

end Term

end UntypedLambda
