import UntypedLambda.Proofs.Interpretation

/-!
# Alpha-equivalence by renaming

The textbook defines alpha-equivalence by renaming one binder at a time, with
substitution, and closes that under being an equivalence and a congruence. The
comparison of two terms never substitutes. Both relate the same terms: one
renaming keeps the nameless form, and of two abstractions with one nameless form
each can have its binder renamed to a common fresh name.
-/

namespace UntypedLambda.Term

/-- The least congruence that lets a binder be renamed to a name that is not free
    in its body. -/
inductive AlphaEquivalent : Term → Term → Prop where
  | refl (term : Term) : AlphaEquivalent term term
  | symm {term other : Term} (equivalent : AlphaEquivalent term other) : AlphaEquivalent other term
  | trans {term middle other : Term} (first : AlphaEquivalent term middle)
      (second : AlphaEquivalent middle other) : AlphaEquivalent term other
  | lam (param : Name) {body otherBody : Term} (bodies : AlphaEquivalent body otherBody) :
      AlphaEquivalent (lam param body) (lam param otherBody)
  | app {function otherFunction argument otherArgument : Term}
      (functions : AlphaEquivalent function otherFunction)
      (arguments : AlphaEquivalent argument otherArgument) :
      AlphaEquivalent (app function argument) (app otherFunction otherArgument)
  | rename (param newParam : Name) (body : Term) (unused : newParam ∉ body.freeNames) :
      AlphaEquivalent (lam param body) (lam newParam (body.substitute param (var newParam)))

/-- Renaming a binder keeps the nameless form below any binders. -/
theorem namelessUnder_rename (scope : List Name) (param newParam : Name) (body : Term)
    (unused : newParam ∉ body.freeNames) :
    (lam newParam (body.substitute param (var newParam))).namelessUnder scope =
      (lam param body).namelessUnder scope := by
  rw [namelessUnder_eq_interpret, namelessUnder_eq_interpret]
  apply interpret_lam_rename _ param newParam body _ unused
  intro meaning
  exact interpret_substitute body param (var newParam) meaning

/-- Alpha-equivalent terms have the same nameless form below any binders. -/
theorem AlphaEquivalent.namelessUnder_eq {term other : Term}
    (equivalent : AlphaEquivalent term other) (scope : List Name) :
    term.namelessUnder scope = other.namelessUnder scope := by
  induction equivalent generalizing scope with
  | refl term => rfl
  | symm _ inductionHypothesis => exact (inductionHypothesis scope).symm
  | trans _ _ firstHypothesis secondHypothesis =>
    exact (firstHypothesis scope).trans (secondHypothesis scope)
  | lam param _ inductionHypothesis =>
    rw [namelessUnder, namelessUnder, inductionHypothesis]
  | app _ _ functionHypothesis argumentHypothesis =>
    rw [namelessUnder, namelessUnder, functionHypothesis, argumentHypothesis]
  | rename param newParam body unused =>
    exact (namelessUnder_rename scope param newParam body unused).symm

/-- Abstractions with one nameless form become alpha-equivalent through a common
    new parameter, if their bodies do. -/
theorem AlphaEquivalent.lam_of_common (param otherParam newParam : Name) (body otherBody : Term)
    (unused : newParam ∉ body.freeNames) (otherUnused : newParam ∉ otherBody.freeNames)
    (bodies : AlphaEquivalent (body.substitute param (var newParam))
      (otherBody.substitute otherParam (var newParam))) :
    AlphaEquivalent (.lam param body) (.lam otherParam otherBody) :=
  (rename param newParam body unused).trans
    ((lam newParam bodies).trans (rename otherParam newParam otherBody otherUnused).symm)

/-- Bodies that agree as nameless terms still agree when their parameters are
    given one and the same new name. -/
theorem nameless_rename_congr (param otherParam newParam : Name) (body otherBody : Term)
    (same : body.namelessUnder [param] = otherBody.namelessUnder [otherParam]) :
    (body.substitute param (var newParam)).nameless =
      (otherBody.substitute otherParam (var newParam)).nameless := by
  unfold nameless
  rw [namelessUnder_substitute_param, namelessUnder_substitute_param, same]

/-- Terms with one nameless form are alpha-equivalent. The induction has to reach
    renamed bodies, because bodies are compared only after their parameters have
    been made the same. -/
theorem alphaEquivalent_of_nameless_eq (term other : Term) (same : term.nameless = other.nameless) :
    AlphaEquivalent term other := by
  induction term using renamingInduction generalizing other with
  | var name =>
    cases other with
    | var otherName =>
      have sameName : name = otherName := Nameless.free.inj same
      exact sameName ▸ .refl (var name)
    | lam _ _ | app _ _ => exact Nameless.noConfusion same
  | lam param body _ renamedHypothesis =>
    cases other with
    | lam otherParam otherBody =>
      have sameBodies : body.namelessUnder [param] = otherBody.namelessUnder [otherParam] :=
        Nameless.lam.inj same
      obtain ⟨newParam, unused⟩ : ∃ newParam, newParam ∉ body.freeNames ++ otherBody.freeNames :=
        ⟨_, Name.fresh_not_mem param _⟩
      rw [List.mem_append, not_or] at unused
      apply AlphaEquivalent.lam_of_common param otherParam newParam body otherBody unused.1 unused.2
      exact renamedHypothesis newParam _
        (nameless_rename_congr param otherParam newParam body otherBody sameBodies)
    | var _ | app _ _ => exact Nameless.noConfusion same
  | app function argument functionHypothesis argumentHypothesis =>
    cases other with
    | app otherFunction otherArgument =>
      obtain ⟨sameFunctions, sameArguments⟩ :
          function.nameless = otherFunction.nameless ∧ argument.nameless = otherArgument.nameless :=
        Nameless.app.inj same
      exact .app (functionHypothesis _ sameFunctions) (argumentHypothesis _ sameArguments)
    | var _ | lam _ _ => exact Nameless.noConfusion same

/-- The comparison of two terms decides alpha-equivalence. -/
theorem alphaEqual_iff_alphaEquivalent (term other : Term) :
    alphaEqual term other = true ↔ AlphaEquivalent term other := by
  rw [alphaEqual_iff_nameless]
  constructor
  · exact alphaEquivalent_of_nameless_eq term other
  · intro equivalent
    exact equivalent.namelessUnder_eq []

end UntypedLambda.Term
