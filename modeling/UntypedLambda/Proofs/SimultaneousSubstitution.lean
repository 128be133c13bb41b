import UntypedLambda.Proofs.FreshName
import UntypedLambda.Proofs.Interpretation

/-!
# Simultaneous substitution

All free names of a term can be replaced at once. A replacement is put in as it is: names that
come in with it are not replaced again. A binder that would capture one of them is renamed.

Read through an interpretation, every name means what its replacement means. So the order in
which single names are replaced matters only where a replacement mentions a name that is
replaced after it. If the replacement that is put in last does not mention the other name, it can
be put in first, provided that it is put into the other replacement as well. The two orders
rename at different times and arrive at different fresh names.
-/

namespace UntypedLambda.Term

/-- The term with every free name replaced. Below a binder the parameter stands for itself. It is
    renamed if it is free in the replacement of a name that is free there. -/
def substituteAll (replacement : Name → Term) : Term → Term
  | var name => replacement name
  | lam param body =>
    let incoming := (lam param body).freeNames.flatMap fun name => (replacement name).freeNames
    let newParam := if param ∈ incoming then param.fresh incoming else param
    lam newParam (body.substituteAll (Function.update replacement param (var newParam)))
  | app function argument =>
    app (function.substituteAll replacement) (argument.substituteAll replacement)

/-- Once all free names are replaced, each of them means what its replacement means. The parameter
    of an abstraction gives way to one that no replacement mentions. -/
theorem interpret_substituteAll (replacement : Name → Term) (term : Term)
    (meaning : Interpretation) :
    (term.substituteAll replacement).interpret meaning =
      term.interpret fun name => (replacement name).interpret meaning := by
  induction term generalizing replacement meaning with
  | var name => rfl
  | lam param body inductionHypothesis =>
    rw [substituteAll]
    generalize isIncoming : (lam param body).freeNames.flatMap
      (fun name => (replacement name).freeNames) = incoming
    generalize isNew : (if param ∈ incoming then param.fresh incoming else param) = newParam
    have uncaptured : newParam ∉ incoming := by
      rw [← isNew]
      split
      · exact Name.fresh_not_mem param incoming
      · assumption
    rw [interpret, interpret, inductionHypothesis]
    congr 1
    refine interpret_congr _ _ body fun name occurs => ?_
    by_cases isParam : name = param
    · subst isParam
      rw [Function.update_self, Interpretation.below_self, interpret, Interpretation.below_self]
    · have absent : newParam ∉ (replacement name).freeNames := by
        intro present
        have free : name ∈ (lam param body).freeNames :=
          (mem_freeNames_lam name param body).mpr ⟨occurs, isParam⟩
        exact uncaptured (isIncoming ▸ List.mem_flatMap.mpr ⟨name, free, present⟩)
      rw [Function.update_of_ne isParam, Interpretation.below_of_ne _ isParam,
        interpret_below_of_not_mem _ _ _ absent]
  | app function argument functionHypothesis argumentHypothesis =>
    rw [substituteAll, interpret, interpret, functionHypothesis, argumentHypothesis]

/-- A name that the second replacement does not mention can be replaced after it, by the first
    replacement with the second put into it. Every interpretation reads both results alike. -/
theorem interpret_substitute_comm {name other : Name} {second : Term} (different : name ≠ other)
    (absent : name ∉ second.freeNames) (term first : Term) (meaning : Interpretation) :
    ((term.substitute name first).substitute other second).interpret meaning =
      ((term.substitute other second).substitute name (first.substitute other second)).interpret
        meaning := by
  have unseen (value : Nameless) :
      second.interpret (Function.update meaning name value) = second.interpret meaning :=
    interpret_update_of_not_mem meaning name value second absent
  simp only [interpret_substitute, unseen]
  rw [Function.update_comm different]

/-- The substitution lemma: two names are replaced one after the other, in either order, if the
    replacement of the second does not mention the first. The results are equal up to the names of
    bound variables. -/
theorem substitutions_commute (term first second : Term) (name other : Name)
    (different : name ≠ other) (absent : name ∉ second.freeNames) :
    alphaEqual ((term.substitute name first).substitute other second)
      ((term.substitute other second).substitute name (first.substitute other second)) = true := by
  rw [alphaEqual_iff_nameless, nameless_eq_interpret, nameless_eq_interpret]
  exact interpret_substitute_comm different absent term first .free

/-- Both orders rename the binder `z`. Where `z₀` is still to be replaced, its name is not free
    to be taken. -/
theorem substitutions_commute_renamed :
    let term := lam "z" (app (var "x") (var "z"))
    let first := app (var "z₀") (var "z")
    let second := var "w"
    let result (param : Name) := lam param (app (app (var "w") (var "z")) (var param))
    "x" ≠ "z₀" ∧ "x" ∉ second.freeNames ∧
      (term.substitute "x" first).substitute "z₀" second = result "z₁" ∧
      (term.substitute "z₀" second).substitute "x" (first.substitute "z₀" second) = result "z₀" ∧
      alphaEqual (result "z₁") (result "z₀") = true := by
  intro term first second result
  have different : "x" ≠ "z₀" := by decide
  have absent : "x" ∉ second.freeNames := by decide
  have inOrder : (term.substitute "x" first).substitute "z₀" second = result "z₁" := by
    decide +kernel
  have turned : (term.substitute "z₀" second).substitute "x" (first.substitute "z₀" second) =
      result "z₀" := by decide +kernel
  have same := substitutions_commute term first second "x" "z₀" different absent
  rw [inOrder, turned] at same
  exact ⟨different, absent, inOrder, turned, same⟩

end UntypedLambda.Term
