import UntypedLambda.Proofs.FreeNames
import UntypedLambda.Proofs.NormalForms
import UntypedLambda.Proofs.UncapturedSubstitution

/-!
# Fixed-point combinators

A fixed-point combinator that is applied to a function calls the function with its own fixed point.
Two steps of normal order are enough for that, whatever the function is: neither of them looks
into it.

One combinator is closed and is copied as it is, so what it arrives at is the call with itself in
the place of the argument. The other two put the function into two halves, each of which applies
the other one to itself. The function may mention the parameter of a half, which is renamed then,
and what results is still the function called with the first reduct. Where the recursive call is
delayed, it is delayed by an abstraction whose parameter may be renamed as well, so the equation
holds up to that name.
-/

namespace UntypedLambda

open Term

namespace Combinators

/-- Half of a fixed-point combinator: it calls `f` with something that is made of its parameter. -/
def halfOf (call : Term) : Term :=
  lam "x" (app (var "f") call)

/-- Whatever is put in for `f`, a half calls it. The parameter is renamed if it would capture
    something. -/
theorem exists_substitute_halfOf {call : Term} (absent : "f" ∉ call.freeNames) (function : Term) :
    ∃ param, param ∉ function.freeNames ∧
      (halfOf call).substitute "f" function =
        lam param (app function (call.substitute "x" (var param))) := by
  by_cases captures : "x" ∈ function.freeNames
  · have present : "f" ∈ (lam "x" (app (var "f") call)).freeNames := by
      simp [mem_freeNames_lam, mem_freeNames_app, mem_freeNames_var]
    rw [halfOf, substitute_lam, if_neg (not_not_intro present), if_pos captures]
    generalize fresh : Name.fresh "x" (function.freeNames ++ (app (var "f") call).freeNames) = param
    have unused : param ∉ function.freeNames ++ (app (var "f") call).freeNames :=
      fresh ▸ Name.fresh_not_mem "x" _
    rw [List.mem_append, mem_freeNames_app, mem_freeNames_var, not_or, not_or] at unused
    obtain ⟨uncaptured, notFunction, _⟩ := unused
    have stillAbsent : "f" ∉ (call.substitute "x" (var param)).freeNames := by
      rw [mem_freeNames_substitute, mem_freeNames_var]
      rintro (⟨inCall, _⟩ | ⟨_, isParam⟩)
      · exact absent inCall
      · exact notFunction isParam.symm
    refine ⟨param, uncaptured, ?_⟩
    dsimp only
    rw [substitute_app, substitute_app, substitute_var_of_ne (by decide), substitute_var_same,
      substitute_of_not_mem stillAbsent]
  · refine ⟨"x", captures, ?_⟩
    rw [halfOf, substitute_lam_of_not_mem (by decide) captures, substitute_app, substitute_var_same,
      substitute_of_not_mem absent, substitute_var_self]

/-- A combinator that is made of two halves, given a function: the first reduct applies the half of
    that function to itself, and the second one calls the function with what the half makes of
    itself. -/
theorem exists_half_of_steps (call : Term) (absent : "f" ∉ call.freeNames) (function : Term) :
    ∃ param half, half = lam param (app function (call.substitute "x" (var param))) ∧
      Strategy.normal.step (app (lam "f" (app (halfOf call) (halfOf call))) function) =
        some (app half half) ∧
      Strategy.normal.step (app half half) =
        some (app function ((call.substitute "x" (var param)).substitute param half)) := by
  obtain ⟨param, uncaptured, given⟩ := exists_substitute_halfOf absent function
  refine ⟨param, _, rfl, ?_, ?_⟩
  · rw [(HeadStep.contract _ _ _).normalStep, substitute_app, given]
  · rw [(HeadStep.contract _ _ _).normalStep, substitute_app, substitute_of_not_mem uncaptured]

/-- A recursive call that is delayed until it is given an argument. -/
def delayedCall : Term :=
  lam "y" (app (app (var "x") (var "x")) (var "y"))

/-- A delayed call mentions nothing but the half that it applies to itself. -/
theorem mem_freeNames_delayedCall (name : Name) : name ∈ delayedCall.freeNames ↔ name = "x" := by
  simp only [delayedCall, mem_freeNames_lam, mem_freeNames_app, mem_freeNames_var]
  grind

/-- What is delayed is the half applied to itself. Any name may be that of the argument that is
    waited for, as long as it is not free in the half. -/
theorem alphaEqual_delayedCall (param other : Name) (half : Term)
    (unused : other ∉ half.freeNames) :
    alphaEqual ((delayedCall.substitute "x" (var param)).substitute param half)
      (lam other (app (app half half) (var other))) = true := by
  have outside := interpret_below_of_not_mem .free other half unused
  rw [alphaEqual_iff_nameless, nameless_eq_interpret, nameless_eq_interpret, interpret_substitute,
    interpret_substitute]
  simp [delayedCall, interpret, Interpretation.below, outside]

/-- The closed combinator calls a function with the same application again. -/
theorem exists_step_fixTuring (function : Term) :
    ∃ first, Strategy.normal.step (app fixTuring function) = some first ∧
      Strategy.normal.step first = some (app function (app fixTuring function)) := by
  have closed : turingHalf.Closed := closed_of_freeNames (by decide)
  let call (half : Term) := app (var "y") (app (app half half) (var "y"))
  have given : (lam "y" (call (var "x"))).substitute "x" turingHalf =
      lam "y" (call turingHalf) := by
    rw [substitute_lam_of_not_mem (by decide) (closed "y")]
    simp [call, substitute_app, substitute_var]
  have once : HeadStep fixTuring (lam "y" (call turingHalf)) := given ▸ .contract _ _ _
  have called : (call turingHalf).substitute "y" function =
      app function (app fixTuring function) := by
    simp [call, substitute_app, substitute_var, closed.substitute, fixTuring]
  refine ⟨_, (once.function function).normalStep, ?_⟩
  rw [(HeadStep.contract _ _ _).normalStep, called]

end Combinators

open Combinators

/-- Two steps of normal order turn a fixed-point combinator that is applied to a function into the
    function applied to the fixed point: to the same application again, to the first reduct, or
    to the first reduct delayed by an abstraction over any name that is not free in the function. -/
theorem fixed_point_equations (function : Term) :
    (∃ first, Strategy.normal.step (app fixTuring function) = some first ∧
      Strategy.normal.step first = some (app function (app fixTuring function))) ∧
    (∃ first, Strategy.normal.step (app fixLazy function) = some first ∧
      Strategy.normal.step first = some (app function first)) ∧
    ∃ first second, Strategy.normal.step (app fixStrict function) = some first ∧
      Strategy.normal.step first = some second ∧
      ∀ name, name ∉ function.freeNames →
        alphaEqual second (app function (lam name (app first (var name)))) = true := by
  refine ⟨exists_step_fixTuring function, ?_, ?_⟩
  · obtain ⟨param, half, _, once, twice⟩ :=
      exists_half_of_steps (app (var "x") (var "x")) (by decide) function
    refine ⟨app half half, once, ?_⟩
    rw [twice]
    simp [substitute_app, substitute_var]
  · obtain ⟨param, half, isHalf, once, twice⟩ :=
      exists_half_of_steps delayedCall (by decide) function
    refine ⟨app half half, _, once, twice, ?_⟩
    intro name unused
    have unusedInHalf : name ∉ half.freeNames := by
      rw [isHalf, mem_freeNames_lam, mem_freeNames_app, mem_freeNames_substitute,
        mem_freeNames_delayedCall, mem_freeNames_var]
      grind
    have delayed := alphaEqual_delayedCall param name half unusedInHalf
    rw [alphaEqual_iff_nameless] at delayed ⊢
    exact congrArg (Nameless.app function.nameless) delayed

/-- The function is free in both names of the combinators, so that the halves are over `x₀`, and the
    argument that is waited for is called `y₀` and may be called `f`. -/
theorem fixed_point_equations_renaming :
    let function := app (var "x") (var "y")
    let half := lam "x₀" (app function (app (var "x₀") (var "x₀")))
    let strict := lam "x₀" (app function (lam "y" (app (app (var "x₀") (var "x₀")) (var "y"))))
    let delayed (name : Name) := lam name (app (app strict strict) (var name))
    "f" ∉ function.freeNames ∧
      (∃ first, Strategy.normal.step (app fixTuring function) = some first ∧
        Strategy.normal.step first = some (app function (app fixTuring function))) ∧
      Strategy.normal.step (app half half) = some (app function (app half half)) ∧
      Strategy.normal.step (app strict strict) = some (app function (delayed "y₀")) ∧
      alphaEqual (app function (delayed "y₀")) (app function (delayed "f")) = true := by
  intro function half strict delayed
  have unused : "f" ∉ function.freeNames := by decide
  have isLazy : Strategy.normal.step (app fixLazy function) = some (app half half) := by
    decide +kernel
  have isStrict : Strategy.normal.step (app fixStrict function) = some (app strict strict) := by
    decide +kernel
  have renamed : Strategy.normal.step (app strict strict) = some (app function (delayed "y₀")) := by
    decide +kernel
  obtain ⟨turing, ⟨first, once, twice⟩, reduct, second, onceStrict, twiceStrict, alike⟩ :=
    fixed_point_equations function
  obtain rfl := Option.some.inj (isLazy.symm.trans once)
  obtain rfl := Option.some.inj (isStrict.symm.trans onceStrict)
  obtain rfl := Option.some.inj (renamed.symm.trans twiceStrict)
  exact ⟨unused, turing, twice, twiceStrict, alike "f" unused⟩

end UntypedLambda
