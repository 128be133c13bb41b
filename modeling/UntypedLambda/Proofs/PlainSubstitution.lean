import UntypedLambda.Proofs.Interpretation
import UntypedLambda.Proofs.UncapturedSubstitution

/-!
# Substitution without shortcuts

Substitution passes by every subterm in which the name is not free, and it renames a binder only if
something is replaced below it. The plain algorithm takes no such shortcut: it goes through both
sides of every application, and it renames each binder whose parameter is free in the replacement.
Which fresh names it takes is left open.

The shortcuts leave names of binders as they are that the plain algorithm changes, so other binders
are renamed further in. All of this concerns names of bound variables only: every result of the
plain algorithm means what the result of substitution means. Where there is nothing to replace, or
a name is replaced by itself, substitution returns the very term that it was given.
-/

namespace UntypedLambda.Term

/-- The last term arises from the first by going through all of it and replacing the name. A
    binder that would capture is renamed in the same way, whether or not the name occurs below it,
    to any name that is free neither in the replacement nor in the body and is not the one that is
    replaced. -/
inductive SubstitutesPlainly : Term → Name → Term → Term → Prop where
  | found (name : Name) (replacement : Term) :
      SubstitutesPlainly (var name) name replacement replacement
  | other {other name : Name} (different : other ≠ name) (replacement : Term) :
      SubstitutesPlainly (var other) name replacement (var other)
  | app {function argument newFunction newArgument replacement : Term} {name : Name}
      (inFunction : SubstitutesPlainly function name replacement newFunction)
      (inArgument : SubstitutesPlainly argument name replacement newArgument) :
      SubstitutesPlainly (app function argument) name replacement (app newFunction newArgument)
  | shadowed (name : Name) (body replacement : Term) :
      SubstitutesPlainly (lam name body) name replacement (lam name body)
  | lam {param name : Name} {body newBody replacement : Term} (different : name ≠ param)
      (uncaptured : param ∉ replacement.freeNames)
      (inBody : SubstitutesPlainly body name replacement newBody) :
      SubstitutesPlainly (lam param body) name replacement (lam param newBody)
  | renamed {param newParam name : Name} {body renamed newBody replacement : Term}
      (different : name ≠ param) (captured : param ∈ replacement.freeNames)
      (uncaptured : newParam ∉ replacement.freeNames) (unused : newParam ∉ body.freeNames)
      (newDifferent : name ≠ newParam)
      (renames : SubstitutesPlainly body param (Term.var newParam) renamed)
      (inRenamed : SubstitutesPlainly renamed name replacement newBody) :
      SubstitutesPlainly (lam param body) name replacement (lam newParam newBody)

/-- The plain algorithm, too, changes the meaning of the name and nothing else, whichever fresh
    names it takes: to rename a binder changes no meaning, and the renamed one captures nothing. -/
theorem SubstitutesPlainly.interpret {term replacement result : Term} {name : Name}
    (substitutes : SubstitutesPlainly term name replacement result) (meaning : Interpretation) :
    result.interpret meaning =
      term.interpret (Function.update meaning name (replacement.interpret meaning)) := by
  induction substitutes generalizing meaning with
  | found name replacement => exact (Function.update_self name _ meaning).symm
  | other different replacement => exact (Function.update_of_ne different _ meaning).symm
  | app _ _ functionHypothesis argumentHypothesis =>
    rw [Term.interpret, Term.interpret, functionHypothesis, argumentHypothesis]
  | shadowed name body replacement =>
    have absent : name ∉ (Term.lam name body).freeNames := by simp [mem_freeNames_lam]
    exact (interpret_update_of_not_mem meaning name _ _ absent).symm
  | @lam param name body newBody replacement different uncaptured _ bodyHypothesis =>
    rw [interpret_lam_update meaning param name body replacement different uncaptured,
      Term.interpret, bodyHypothesis]
  | @renamed param newParam name body renamed newBody replacement different captured uncaptured
      unused newDifferent _ _ renamedHypothesis newBodyHypothesis =>
    calc (Term.lam newParam newBody).interpret meaning
        = (Term.lam newParam renamed).interpret
            (Function.update meaning name (replacement.interpret meaning)) := by
          rw [interpret_lam_update meaning newParam name renamed replacement
            newDifferent uncaptured, Term.interpret, newBodyHypothesis]
      _ = (Term.lam param body).interpret
            (Function.update meaning name (replacement.interpret meaning)) :=
          interpret_lam_rename _ param newParam body renamed unused renamedHypothesis

/-- To replace a name by a term of a single node keeps the size. -/
theorem SubstitutesPlainly.size_eq {term replacement result : Term} {name : Name}
    (substitutes : SubstitutesPlainly term name replacement result)
    (single : replacement.size = 1) :
    result.size = term.size := by
  induction substitutes with
  | found name replacement => exact single
  | other different replacement => rfl
  | app _ _ functionHypothesis argumentHypothesis =>
    rw [size, size, functionHypothesis single, argumentHypothesis single]
  | shadowed name body replacement => rfl
  | lam _ _ _ bodyHypothesis => rw [size, size, bodyHypothesis single]
  | renamed _ _ _ _ _ _ _ renamedHypothesis newBodyHypothesis =>
    rw [size, size, newBodyHypothesis single, renamedHypothesis rfl]

/-- The plain algorithm always has a result. A renamed body is as large as the body was, so it is
    smaller than the abstraction. -/
theorem exists_substitutesPlainly (term : Term) (name : Name) (replacement : Term) :
    ∃ result, SubstitutesPlainly term name replacement result := by
  induction sized : term.size using Nat.strongRecOn generalizing term name replacement with
  | ind size smaller =>
    subst sized
    cases term with
    | var other =>
      by_cases same : other = name
      · subst same
        exact ⟨replacement, .found other replacement⟩
      · exact ⟨var other, .other same replacement⟩
    | app function argument =>
      obtain ⟨newFunction, inFunction⟩ :=
        smaller function.size (by rw [Term.size]; omega) function name replacement rfl
      obtain ⟨newArgument, inArgument⟩ :=
        smaller argument.size (by rw [Term.size]; omega) argument name replacement rfl
      exact ⟨app newFunction newArgument, .app inFunction inArgument⟩
    | lam param body =>
      have bodySize : body.size < (lam param body).size := Nat.lt_succ_self body.size
      by_cases different : name = param
      · subst different
        exact ⟨lam name body, .shadowed name body replacement⟩
      by_cases captured : param ∈ replacement.freeNames
      · have fresh := Name.fresh_not_mem param (name :: (replacement.freeNames ++ body.freeNames))
        generalize param.fresh (name :: (replacement.freeNames ++ body.freeNames)) =
          newParam at fresh
        simp only [List.mem_cons, List.mem_append, not_or] at fresh
        obtain ⟨newDifferent, uncaptured, unused⟩ := fresh
        obtain ⟨renamed, renames⟩ := smaller body.size bodySize body param (var newParam) rfl
        have renamedSize : renamed.size = body.size := renames.size_eq rfl
        obtain ⟨newBody, inRenamed⟩ :=
          smaller body.size bodySize renamed name replacement renamedSize
        exact ⟨lam newParam newBody, .renamed different captured uncaptured unused
          (Ne.symm newDifferent) renames inRenamed⟩
      · obtain ⟨newBody, inBody⟩ := smaller body.size bodySize body name replacement rfl
        exact ⟨lam param newBody, .lam different captured inBody⟩

/-- The plain algorithm has a result, and all of its results are equal to that of substitution up
    to the names of bound variables. If the name is not free, or is replaced by itself, substitution
    returns the term as it is. -/
theorem substitute_agrees_with_plain (term : Term) (name : Name) (replacement : Term) :
    (∃ result, SubstitutesPlainly term name replacement result) ∧
    (∀ result, SubstitutesPlainly term name replacement result →
      alphaEqual (term.substitute name replacement) result = true) ∧
    (name ∉ term.freeNames ∨ replacement = var name → term.substitute name replacement = term) := by
  refine ⟨exists_substitutesPlainly term name replacement, ?_, ?_⟩
  · intro result substitutes
    rw [alphaEqual_iff_nameless, nameless_eq_interpret, nameless_eq_interpret, interpret_substitute,
      substitutes.interpret]
  · rintro (absent | rfl)
    · exact substitute_of_not_mem absent replacement
    · exact substitute_var_self term name

/-- On the left there is nothing to replace, but only the plain algorithm renames the binder there.
    Its new name is free to be any name that does not clash. -/
theorem substitute_agrees_with_plain_renaming :
    let left := lam "y" (var "y")
    let right := lam "z" (app (var "x") (var "z"))
    let replaced := lam "z" (app (var "y") (var "z"))
    SubstitutesPlainly (app left right) "x" (var "y") (app (lam "w" (var "w")) replaced) ∧
      (app left right).substitute "x" (var "y") = app left replaced ∧
      alphaEqual (app left replaced) (app (lam "w" (var "w")) replaced) = true ∧
      "x" ∉ left.freeNames ∧ left.substitute "x" (var "y") = left := by
  intro left right replaced
  have plainly : SubstitutesPlainly (app left right) "x" (var "y")
      (app (lam "w" (var "w")) replaced) := by
    apply SubstitutesPlainly.app
    · exact .renamed (by decide) (by decide) (by decide) (by decide) (by decide)
        (.found "y" (var "w"))
        (.other (by decide) (var "y"))
    · exact .lam (by decide) (by decide)
        (.app (.found "x" (var "y")) (.other (by decide) (var "y")))
  have shortly : (app left right).substitute "x" (var "y") = app left replaced := by decide +kernel
  have absent : "x" ∉ left.freeNames := by decide
  have alike := (substitute_agrees_with_plain (app left right) "x" (var "y")).2.1 _ plainly
  rw [shortly] at alike
  exact ⟨plainly, shortly, alike, absent,
    (substitute_agrees_with_plain left "x" (var "y")).2.2 (.inl absent)⟩

end UntypedLambda.Term
