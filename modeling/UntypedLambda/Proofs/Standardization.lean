import UntypedLambda.Proofs.Simulation

/-!
# Normal order finds normal forms

Every reduction of a nameless term can be rearranged into a standard one: it
contracts at the head until the outermost shape of the target is there, and then
goes on in the parts from the left. A standard reduction to a normal form is what
normal order does, since in that case nothing at the head is left over and no
part is skipped.

Standard reductions are defined along the target. That a further step can always
be merged into one is the only place where reductions are rearranged.
-/

namespace UntypedLambda

namespace Nameless

/-- The contraction of the redex at the head: the function of the application, or
    of the application that is its function, and so on. -/
inductive HeadStep : Nameless → Nameless → Prop where
  | contract (body argument : Nameless) :
      HeadStep (app (lam body) argument) (body.instantiate argument)
  | function {function reduct : Nameless} (step : HeadStep function reduct) (argument : Nameless) :
      HeadStep (app function argument) (app reduct argument)

/-- Any number of contractions at the head. -/
abbrev HeadReduces : Nameless → Nameless → Prop :=
  Relation.ReflTransGen HeadStep

/-- A reduction that first contracts at the head until the outermost shape of the
    target is there, and then reduces the parts in the same way. -/
inductive Standard : Nameless → Nameless → Prop where
  | bound {term : Nameless} (index : Nat) (heads : HeadReduces term (bound index)) :
      Standard term (bound index)
  | free {term : Nameless} (name : Name) (heads : HeadReduces term (free name)) :
      Standard term (free name)
  | lam {term body target : Nameless} (heads : HeadReduces term (lam body))
      (bodies : Standard body target) : Standard term (lam target)
  | app {term function functionTarget argument argumentTarget : Nameless}
      (heads : HeadReduces term (app function argument))
      (functions : Standard function functionTarget)
      (arguments : Standard argument argumentTarget) :
      Standard term (app functionTarget argumentTarget)

/-- Head reduction goes on in the function of an application. -/
theorem HeadReduces.function {function reduct : Nameless} (heads : HeadReduces function reduct)
    (argument : Nameless) : HeadReduces (app function argument) (app reduct argument) :=
  Relation.ReflTransGen.lift (app · argument) (fun _ _ step => .function step argument) _ _ heads

/-- A head step is stable under assignment. -/
theorem HeadStep.assign {term reduct : Nameless} (step : HeadStep term reduct)
    (assignment : Assignment) : HeadStep (term.assign assignment) (reduct.assign assignment) := by
  induction step with
  | contract body argument =>
    rw [instantiate_assign]
    exact .contract _ _
  | function _ argument inductionHypothesis => exact .function inductionHypothesis _

/-- Head reduction is stable under assignment. -/
theorem HeadReduces.assign {term reduct : Nameless} (heads : HeadReduces term reduct)
    (assignment : Assignment) : HeadReduces (term.assign assignment) (reduct.assign assignment) :=
  Relation.ReflTransGen.lift (Nameless.assign assignment) (fun _ _ step => step.assign assignment)
    _ _ heads

/-- To reduce nothing is standard. -/
theorem Standard.refl (term : Nameless) : Standard term term := by
  induction term with
  | bound index => exact .bound index .refl
  | free name => exact .free name .refl
  | lam body inductionHypothesis => exact .lam .refl inductionHypothesis
  | app function argument functionHypothesis argumentHypothesis =>
    exact .app .refl functionHypothesis argumentHypothesis

/-- Head reduction may come before a standard reduction. -/
theorem Standard.after {term middle target : Nameless} (heads : HeadReduces term middle)
    (standard : Standard middle target) : Standard term target := by
  cases standard with
  | bound index more => exact .bound index (heads.trans more)
  | free name more => exact .free name (heads.trans more)
  | lam more bodies => exact .lam (heads.trans more) bodies
  | app more functions arguments => exact .app (heads.trans more) functions arguments

/-- A standard reduction is stable under assignment. -/
theorem Standard.assign_same (term target : Nameless) (assignment : Assignment)
    (standard : Standard term target) :
    Standard (term.assign assignment) (target.assign assignment) := by
  induction standard generalizing assignment with
  | bound index heads => exact .after (heads.assign assignment) (.refl _)
  | free name heads => exact .after (heads.assign assignment) (.refl _)
  | lam heads _ inductionHypothesis =>
    exact .lam (heads.assign assignment) (inductionHypothesis assignment.lifted)
  | app heads _ _ functionHypothesis argumentHypothesis =>
    exact .app (heads.assign assignment) (functionHypothesis assignment)
      (argumentHypothesis assignment)

/-- Standard reductions of a term and of its replacements make one of the term
    with its replacements. -/
theorem Standard.assign {term target : Nameless} (standard : Standard term target)
    {first second : Assignment} (related : Assignment.Related Standard first second) :
    Standard (term.assign first) (target.assign second) := by
  induction standard generalizing first second with
  | bound index heads => exact .after (heads.assign first) (related.index index)
  | free name heads => exact .after (heads.assign first) (related.name name)
  | lam heads _ inductionHypothesis =>
    exact .lam (heads.assign first)
      (inductionHypothesis (related.lifted Standard.refl Standard.assign_same))
  | app heads _ _ functionHypothesis argumentHypothesis =>
    exact .app (heads.assign first) (functionHypothesis related) (argumentHypothesis related)

/-- A contraction after a standard reduction can be done at the head: the head
    reduction of the function brings the binder, and what was reduced in body and
    argument is reduced after the contraction. -/
theorem Standard.contract {term body argument : Nameless}
    (standard : Standard term (.app (.lam body) argument)) :
    Standard term (body.instantiate argument) := by
  cases standard with
  | app heads functions arguments =>
    cases functions with
    | lam functionHeads bodies =>
      refine .after ((heads.trans (functionHeads.function _)).tail (.contract _ _)) ?_
      exact bodies.assign (.instantiation arguments Standard.refl)

/-- A standard reduction with one more step can be made standard. -/
theorem Standard.tail {term middle target : Nameless} (standard : Standard term middle)
    (step : Step middle target) : Standard term target := by
  induction step generalizing term with
  | contract body argument => exact standard.contract
  | lam _ inductionHypothesis =>
    cases standard with
    | lam heads bodies => exact .lam heads (inductionHypothesis bodies)
  | function _ argument inductionHypothesis =>
    cases standard with
    | app heads functions arguments => exact .app heads (inductionHypothesis functions) arguments
  | argument function _ inductionHypothesis =>
    cases standard with
    | app heads functions arguments => exact .app heads functions (inductionHypothesis arguments)

/-- Every reduction can be made standard. -/
theorem Reduces.standard {term target : Nameless} (reduces : Reduces term target) :
    Standard term target := by
  induction reduces with
  | refl => exact .refl term
  | tail _ step inductionHypothesis => exact inductionHypothesis.tail step

/-- Any number of steps in normal order. -/
abbrev Leftmost : Nameless → Nameless → Prop :=
  Relation.ReflTransGen fun term reduct => step .normal term = some reduct

/-- Only an abstraction can be contracted with an argument, whatever the argument. -/
theorem appliedTo?_eq_none_iff (function argument : Nameless) :
    function.appliedTo? argument = none ↔ ∀ body, function ≠ lam body := by
  cases function <;> simp [appliedTo?]

/-- Normal order has no step from an application exactly if the function is no
    abstraction and there is no step in either side. -/
theorem normalStep_app_eq_none_iff (function argument : Nameless) :
    step .normal (app function argument) = none ↔
      (∀ body, function ≠ lam body) ∧ step .normal function = none ∧
      step .normal argument = none := by
  rw [normalStep_app, ← appliedTo?_eq_none_iff function argument]
  simp only [Option.or_eq_none_iff, Option.map_eq_none_iff]

/-- If the function of an application is no abstraction, a step in normal order of
    the function is one of the application. -/
theorem normalStep_function {function reduct : Nameless} (argument : Nameless)
    (notLam : ∀ body, function ≠ lam body) (stepped : step .normal function = some reduct) :
    step .normal (app function argument) = some (app reduct argument) := by
  rw [normalStep_app, (appliedTo?_eq_none_iff function argument).mpr notLam, stepped]
  rfl

/-- If the function of an application is no abstraction and has no step, a step in
    normal order of the argument is one of the application. -/
theorem normalStep_argument {function argument reduct : Nameless}
    (notLam : ∀ body, function ≠ lam body) (ended : step .normal function = none)
    (stepped : step .normal argument = some reduct) :
    step .normal (app function argument) = some (app function reduct) := by
  rw [normalStep_app, (appliedTo?_eq_none_iff function argument).mpr notLam, ended, stepped]
  rfl

/-- A head step is the step of normal order. -/
theorem HeadStep.normalStep {term reduct : Nameless} (headStep : HeadStep term reduct) :
    step .normal term = some reduct := by
  induction headStep with
  | contract body argument =>
    rw [normalStep_app]
    rfl
  | function headStep argument inductionHypothesis =>
    apply normalStep_function argument _ inductionHypothesis
    rintro body rfl
    cases headStep

/-- Head reduction goes in normal order. -/
theorem HeadReduces.leftmost {term reduct : Nameless} (heads : HeadReduces term reduct) :
    Leftmost term reduct :=
  Relation.ReflTransGen.mono (fun _ _ headStep => headStep.normalStep) _ _ heads

/-- Normal order goes on below a binder. -/
theorem Leftmost.lam {body reduct : Nameless} (steps : Leftmost body reduct) :
    Leftmost (lam body) (lam reduct) :=
  Relation.ReflTransGen.lift Nameless.lam (fun term _ stepped =>
    (step_lam .normal term).trans (congrArg (Option.map Nameless.lam) stepped)) _ _ steps

/-- In normal order, abstractions remain abstractions. -/
theorem Leftmost.eq_lam {body reduct : Nameless} (steps : Leftmost (.lam body) reduct) :
    ∃ last, reduct = .lam last := by
  induction steps with
  | refl => exact ⟨body, rfl⟩
  | tail _ stepped inductionHypothesis =>
    obtain ⟨last, rfl⟩ := inductionHypothesis
    rw [step_lam, Option.map_eq_some_iff] at stepped
    obtain ⟨next, _, rfl⟩ := stepped
    exact ⟨next, rfl⟩

/-- Normal order reduces the function of an application as it does on its own, if
    it never becomes an abstraction. That it is none in the end is enough. -/
theorem Leftmost.function {function reduct : Nameless} (argument : Nameless)
    (steps : Leftmost function reduct) (notLam : ∀ body, reduct ≠ .lam body) :
    Leftmost (app function argument) (app reduct argument) := by
  induction steps using Relation.ReflTransGen.head_induction_on with
  | refl => exact .refl
  | head stepped rest inductionHypothesis =>
    refine .head (normalStep_function argument ?_ stepped) inductionHypothesis
    rintro body rfl
    obtain ⟨last, same⟩ := Leftmost.eq_lam (.head stepped rest)
    exact notLam last same

/-- Normal order reduces the argument of an application once the function is in
    normal form and no abstraction. -/
theorem Leftmost.argument {function argument reduct : Nameless} (steps : Leftmost argument reduct)
    (notLam : ∀ body, function ≠ .lam body) (ended : step .normal function = none) :
    Leftmost (app function argument) (app function reduct) :=
  Relation.ReflTransGen.lift (app function)
    (fun _ _ stepped => normalStep_argument notLam ended stepped) _ _ steps

/-- A standard reduction to a term from which normal order has no step is a
    reduction in normal order. -/
theorem Standard.leftmost {term target : Nameless} (standard : Standard term target)
    (ended : step .normal target = none) : Leftmost term target := by
  induction standard with
  | bound index heads => exact heads.leftmost
  | free name heads => exact heads.leftmost
  | lam heads _ inductionHypothesis =>
    rw [step_lam, Option.map_eq_none_iff] at ended
    exact heads.leftmost.trans (inductionHypothesis ended).lam
  | @app term function functionTarget argument argumentTarget heads _ _ functionHypothesis
      argumentHypothesis =>
    obtain ⟨notLam, functionEnded, argumentEnded⟩ := (normalStep_app_eq_none_iff _ _).mp ended
    have functionSteps : Leftmost (.app function argument) (.app functionTarget argument) :=
      (functionHypothesis functionEnded).function argument notLam
    have argumentSteps : Leftmost (.app functionTarget argument)
        (.app functionTarget argumentTarget) :=
      (argumentHypothesis argumentEnded).argument notLam functionEnded
    exact heads.leftmost.trans (functionSteps.trans argumentSteps)

end Nameless

namespace Term

/-- A nameless form that normal order reaches is the nameless form of a term that
    normal order reaches. -/
theorem exists_reaches_of_leftmost (term : Term) (target : Nameless)
    (steps : Nameless.Leftmost term.nameless target) :
    ∃ last, Reduction.Reaches Strategy.normal.step term last ∧ last.nameless = target := by
  induction steps with
  | refl => exact ⟨term, .refl, rfl⟩
  | tail _ stepped inductionHypothesis =>
    obtain ⟨middle, reached, rfl⟩ := inductionHypothesis
    have mapped := (map_step .normal [] middle).trans stepped
    obtain ⟨last, middleStepped, form⟩ := Option.map_eq_some_iff.mp mapped
    exact ⟨last, reached.tail middleStepped, form⟩

end Term

/-- Normal order is normalizing. If a term reduces to a term without a redex, by
    whatever choice of redexes, then for every limit that is large enough normal
    order ends, at that term up to the names of bound variables. -/
theorem normal_order_normalizes (term normalForm : Term) (reduces : Term.Reduces term normalForm)
    (redexFree : normalForm.RedexFree) :
    ∃ least, ∀ limit ≥ least,
      (Strategy.normal.reduce limit term).exhausted = false ∧
      Term.alphaEqual (Strategy.normal.reduce limit term).term normalForm = true := by
  have formEnded : Nameless.step .normal normalForm.nameless = none :=
    (Term.nameless_step_eq_none_iff .normal normalForm).mpr redexFree
  obtain ⟨last, reached, sameForm⟩ :=
    Term.exists_reaches_of_leftmost term normalForm.nameless
      (reduces.nameless.standard.leftmost formEnded)
  have lastFree : last.RedexFree :=
    (Term.nameless_step_eq_none_iff .normal last).mp (sameForm ▸ formEnded)
  have lastEnded : Strategy.normal.step last = none :=
    (Term.step_eq_none_iff .normal last).mpr lastFree
  obtain ⟨least, enough⟩ :=
    Reduction.exists_limit_of_reaches Strategy.normal.step term last reached lastEnded
  refine ⟨least, ?_⟩
  intro limit large
  have returned : (Strategy.normal.reduce limit term).term = last := enough limit large 0
  constructor
  · rw [Term.exhausted_reduce_iff, returned]
    exact lastFree
  · rw [returned, Term.alphaEqual_iff_nameless]
    exact sameForm

/-- The argument that is dropped reduces to itself forever, and the reduction that
    is given contracts it once before it turns to the head. -/
theorem normal_order_normalizes_dropped_loop :
    let loop := Term.app (.lam "x" (.app (.var "x") (.var "x")))
      (.lam "x" (.app (.var "x") (.var "x")))
    let term := Term.app (.app (.lam "x" (.lam "y" (.var "x"))) (.var "y")) loop
    Term.Reduces term (.var "y") ∧ Term.RedexFree (.var "y") ∧
      ∃ least, ∀ limit ≥ least,
        (Strategy.normal.reduce limit term).exhausted = false ∧
        Term.alphaEqual (Strategy.normal.reduce limit term).term (.var "y") = true := by
  intro loop term
  have loops : Term.BetaStep term term := .argument _ (.contract (by decide +kernel))
  have renames : Term.BetaStep term (.app (.lam "y₀" (.var "y")) loop) :=
    .function (.contract (by decide +kernel)) loop
  have drops : Term.BetaStep (.app (.lam "y₀" (.var "y")) loop) (.var "y") :=
    .contract (by decide +kernel)
  have reduces : Term.Reduces term (.var "y") := .head loops (.head renames (.single drops))
  have redexFree : Term.RedexFree (.var "y") := by decide
  exact ⟨reduces, redexFree, normal_order_normalizes term (.var "y") reduces redexFree⟩

end UntypedLambda
