import UntypedLambda.Proofs.IteratedSteps
import UntypedLambda.Proofs.NormalForms
import UntypedLambda.Proofs.SimultaneousSubstitution

/-!
# Curried abstractions applied to arguments

A curried abstraction takes one argument at a time. Normal order contracts its binders from the
outside in, each with the next argument, and does nothing else before all of them are gone. An
argument that is put in comes under the binders that are still there. These may be renamed for it,
and the new names need not even be different from each other, so what is left of the abstraction
is not described by names.

What it means is known all the same: it is the abstraction over the parameters that are left, with
the arguments that it was given put in for their parameters all at once. At the end no parameter
is left, and every argument stands where its parameter stood.
-/

namespace UntypedLambda.Term

open Reduction (afterSteps)

/-- The replacement of names by arguments: each parameter is given the argument at its place, and
    every other name stands for itself. -/
def given (params : List Name) (arguments : List Term) : Name → Term :=
  fun name => ((params.zip arguments).lookup name).getD (var name)

/-- One more parameter is one more name that is replaced, if it is different from those before. -/
theorem given_concat {params : List Name} {arguments : List Term}
    (each : params.length = arguments.length) {param : Name} (other : param ∉ params)
    (argument : Term) :
    given (params ++ [param]) (arguments ++ [argument]) =
      Function.update (given params arguments) param argument := by
  funext name
  rw [given, List.zip_append each, List.lookup_append]
  by_cases same : name = param
  · have absent : (params.zip arguments).lookup name = none := by
      rw [List.lookup_eq_none_iff]
      intro pair member
      have isParam : pair.1 ∈ params := (List.of_mem_zip member).1
      simpa using fun here : name = pair.1 => other (same ▸ here ▸ isParam)
    rw [absent, same, Function.update_self]
    simp
  · have absent : ([param].zip [argument]).lookup name = none := by simp [same]
    rw [absent, Option.or_none, Function.update_of_ne same, given]

/-- A binder below which names were replaced may be given an argument: its parameter is one more
    name that is replaced, at once with the others. -/
theorem alphaEqual_substitute_of_lam {replacement : Name → Term} {param next : Name}
    {inner rest : Term}
    (alike : alphaEqual (lam param inner) ((lam next rest).substituteAll replacement) = true)
    (argument : Term) :
    alphaEqual (inner.substitute param argument)
      (rest.substituteAll (Function.update replacement next argument)) = true := by
  rw [alphaEqual_iff_nameless, nameless_eq_interpret, nameless_eq_interpret,
    interpret_substituteAll] at alike ⊢
  have bodies := Nameless.lam.inj alike
  have meanings := Function.comp_update (interpret .free) replacement next argument
  calc (inner.substitute param argument).interpret .free
    _ = (inner.interpret (Interpretation.below .free param)).instantiate
        (argument.interpret .free) := by
      rw [interpret_substitute, interpret_below_instantiate]
    _ = (rest.interpret (Interpretation.below (interpret .free ∘ replacement) next)).instantiate
          (argument.interpret .free) := congrArg (Nameless.instantiate · _) bodies
    _ = rest.interpret (Function.update (interpret .free ∘ replacement) next
        (argument.interpret .free)) :=
      interpret_below_instantiate _ next rest _
    _ = rest.interpret (interpret .free ∘ Function.update replacement next argument) := by
      rw [meanings]

/-- A term begins with so many binders, at least. -/
def Binds : (count : Nat) → (term : Term) → Prop
  | 0, _ => True
  | count + 1, lam _ body => Binds count body
  | _ + 1, _ => False

/-- A term with one more binder is an abstraction. -/
theorem Binds.exists_lam {count : Nat} {term : Term} (binds : Binds (count + 1) term) :
    ∃ param body, term = lam param body ∧ Binds count body := by
  cases term with
  | var name => exact binds.elim
  | lam param body => exact ⟨param, body, rfl, binds⟩
  | app function argument => exact binds.elim

/-- A curried abstraction begins with a binder for each parameter. -/
theorem binds_abstraction (params : List Name) (body : Term) :
    Binds params.length (abstraction params body) := by
  induction params with
  | nil => trivial
  | cons param params inductionHypothesis => exact inductionHypothesis

/-- Substitution may rename the binders at the front of a term, but it keeps them. -/
theorem Binds.substitute {count : Nat} {term : Term} (binds : Binds count term) (name : Name)
    (replacement : Term) : Binds count (term.substitute name replacement) := by
  induction count generalizing term name replacement with
  | zero => trivial
  | succ count inductionHypothesis =>
    obtain ⟨param, body, rfl, inner⟩ := binds.exists_lam
    rw [substitute_lam]
    split
    · exact inner
    · split
      · exact inductionHypothesis (inductionHypothesis inner param _) name replacement
      · exact inductionHypothesis inner name replacement

/-- A contraction at the head of a function is one at the head of its application to any number of
    arguments. -/
theorem HeadStep.applyTo {function reduct : Term} (headStep : HeadStep function reduct)
    (arguments : List Term) : HeadStep (function.applyTo arguments) (reduct.applyTo arguments) := by
  induction arguments generalizing function reduct with
  | nil => exact headStep
  | cons argument arguments inductionHypothesis =>
    exact inductionHypothesis (headStep.function argument)

/-- Normal order gives an abstraction that is applied to arguments the first of them. -/
theorem normalStep_applyTo (param : Name) (body argument : Term) (arguments : List Term) :
    Strategy.normal.step ((lam param body).applyTo (argument :: arguments)) =
      some ((body.substitute param argument).applyTo arguments) :=
  ((HeadStep.contract param body argument).applyTo arguments).normalStep

/-- What may be left of a curried abstraction after it was given some arguments: a function with
    binders for the other parameters, which is, up to the names of bound variables, the abstraction
    over these with the arguments put in at once. -/
structure LeftAfter (params : List Name) (body : Term) (arguments : List Term) (count : Nat)
    (function : Term) : Prop where
  binds : Binds (params.length - count) function
  alike : alphaEqual function ((abstraction (params.drop count) body).substituteAll
    (given (params.take count) (arguments.take count))) = true

section Application

variable {params : List Name} {body : Term} {arguments : List Term}

/-- Before it is given any argument, a curried abstraction is as it is. -/
theorem leftAfter_zero : LeftAfter params body arguments 0 (abstraction params body) where
  binds := binds_abstraction params body
  alike := by
    rw [alphaEqual_iff_nameless, nameless_eq_interpret, nameless_eq_interpret,
      interpret_substituteAll]
    rfl

/-- What replaces one name more is the next argument, put in for the next parameter. -/
theorem given_take_succ (distinct : params.Nodup)
    (each : params.length = arguments.length) {count : Nat}
    (inside : count < params.length) :
    given (params.take (count + 1)) (arguments.take (count + 1)) =
      Function.update (given (params.take count) (arguments.take count)) params[count]
        arguments[count] := by
  have other : params[count] ∉ params.take count := by
    intro before
    have after : params[count] ∈ params.drop count := by
      rw [List.drop_eq_getElem_cons inside]
      exact List.mem_cons_self
    rw [← List.take_append_drop count params] at distinct
    exact (List.nodup_append.mp distinct).2.2 _ before _ after rfl
  rw [← List.take_append_getElem inside, ← List.take_append_getElem (each ▸ inside)]
  exact given_concat (by rw [List.length_take, List.length_take, each]) other _

/-- The next argument is put in for the parameter of the outermost binder, and an abstraction
    remains that was given one argument more. -/
theorem LeftAfter.next (distinct : params.Nodup) (each : params.length = arguments.length)
    {count : Nat} (inside : count < params.length) {param : Name} {inner : Term}
    (left : LeftAfter params body arguments count (lam param inner)) :
    LeftAfter params body arguments (count + 1) (inner.substitute param arguments[count]) where
  binds := by
    have binds := left.binds
    rw [show params.length - count = params.length - (count + 1) + 1 by omega] at binds
    have below : Binds (params.length - (count + 1)) inner := binds
    exact below.substitute param _
  alike := by
    have alike := left.alike
    rw [List.drop_eq_getElem_cons inside] at alike
    rw [given_take_succ distinct each inside]
    exact alphaEqual_substitute_of_lam alike arguments[count]

/-- As long as there are arguments, what is left of the abstraction is an abstraction, and normal
    order contracts it with the next of them. -/
theorem LeftAfter.step (distinct : params.Nodup) (each : params.length = arguments.length)
    {count : Nat} (inside : count < params.length) {function : Term}
    (left : LeftAfter params body arguments count function) :
    ∃ param inner, function = lam param inner ∧
      Strategy.normal.step (function.applyTo (arguments.drop count)) =
        some ((inner.substitute param arguments[count]).applyTo (arguments.drop (count + 1))) ∧
      LeftAfter params body arguments (count + 1) (inner.substitute param arguments[count]) := by
  have binds := left.binds
  rw [show params.length - count = params.length - (count + 1) + 1 by omega] at binds
  obtain ⟨param, inner, rfl, _⟩ := binds.exists_lam
  refine ⟨param, inner, rfl, ?_, left.next distinct each inside⟩
  rw [List.drop_eq_getElem_cons (each ▸ inside)]
  exact normalStep_applyTo param inner _ _

/-- After so many steps, so many arguments have been put in. -/
theorem exists_leftAfter (body : Term) (distinct : params.Nodup)
    (each : params.length = arguments.length)
    (count : Nat) (inside : count ≤ params.length) :
    ∃ function,
      afterSteps Strategy.normal.step count ((abstraction params body).applyTo arguments) =
        some (function.applyTo (arguments.drop count)) ∧
      LeftAfter params body arguments count function := by
  induction count with
  | zero => exact ⟨abstraction params body, rfl, leftAfter_zero⟩
  | succ count inductionHypothesis =>
    obtain ⟨function, reached, left⟩ := inductionHypothesis (Nat.le_of_succ_le inside)
    obtain ⟨param, inner, rfl, stepped, next⟩ := left.step distinct each inside
    refine ⟨_, ?_, next⟩
    rw [afterSteps, reached, Option.bind_some, stepped]

end Application

/-- A curried abstraction over distinct parameters that is applied to as many arguments takes one
    step of normal order for each of them. Each step contracts the binder of the next parameter,
    with all earlier arguments put in, with the next argument, and leaves the later arguments alone.
    The last reduct is the body with all arguments put in for their parameters at once, up to the
    names of bound variables. -/
theorem curried_application_substitutes (params : List Name) (body : Term) (arguments : List Term)
    (distinct : params.Nodup) (each : params.length = arguments.length) :
    let whole := (abstraction params body).applyTo arguments
    (∀ (count : Nat) (inside : count < arguments.length), ∃ param inner,
      afterSteps Strategy.normal.step count whole =
        some ((lam param inner).applyTo (arguments[count] :: arguments.drop (count + 1))) ∧
      alphaEqual (lam param inner) ((abstraction (params.drop count) body).substituteAll
        (given (params.take count) (arguments.take count))) = true ∧
      afterSteps Strategy.normal.step (count + 1) whole =
        some ((inner.substitute param arguments[count]).applyTo (arguments.drop (count + 1)))) ∧
    ∃ result, afterSteps Strategy.normal.step params.length whole = some result ∧
      alphaEqual result (body.substituteAll (given params arguments)) = true := by
  intro whole
  constructor
  · intro count inside
    have among : count < params.length := each ▸ inside
    obtain ⟨function, reached, left⟩ :=
      exists_leftAfter body distinct each count (Nat.le_of_lt among)
    obtain ⟨param, inner, rfl, stepped, _⟩ := left.step distinct each among
    refine ⟨param, inner, ?_, left.alike, ?_⟩
    · rw [← List.drop_eq_getElem_cons inside]
      exact reached
    · rw [afterSteps, reached, Option.bind_some, stepped]
  · obtain ⟨result, reached, left⟩ :=
      exists_leftAfter body distinct each params.length (Nat.le_refl _)
    have alike := left.alike
    rw [List.drop_length, List.take_length, each, List.take_length] at alike
    rw [each, List.drop_length, ← each] at reached
    exact ⟨result, reached, alike⟩

/-- The first argument mentions the second parameter and a name that is bound in the body. Both
    binders are renamed for it, and the second argument is put in for the renamed parameter only. -/
theorem curried_application_substitutes_renaming :
    let params := ["x", "y"]
    let body := lam "z" (app (app (var "x") (var "y")) (var "z"))
    let arguments := [app (var "y") (var "z"), var "x"]
    let whole := (abstraction params body).applyTo arguments
    let first := lam "y₀" (lam "z₀" (app (app (app (var "y") (var "z")) (var "y₀")) (var "z₀")))
    let last := lam "z₀" (app (app (app (var "y") (var "z")) (var "x")) (var "z₀"))
    params.Nodup ∧ params.length = arguments.length ∧
      afterSteps Strategy.normal.step 1 whole = some (app first (var "x")) ∧
      afterSteps Strategy.normal.step 2 whole = some last ∧
      alphaEqual last (body.substituteAll (given params arguments)) = true := by
  intro params body arguments whole first last
  have distinct : params.Nodup := by decide
  have each : params.length = arguments.length := rfl
  have once : afterSteps Strategy.normal.step 1 whole = some (app first (var "x")) := by
    decide +kernel
  have twice : afterSteps Strategy.normal.step 2 whole = some last := by decide +kernel
  obtain ⟨_, result, reached, alike⟩ :=
    curried_application_substitutes params body arguments distinct each
  obtain rfl : last = result := Option.some.inj (twice.symm.trans reached)
  exact ⟨distinct, each, once, twice, alike⟩

end UntypedLambda.Term
