import UntypedLambda.Proofs.Beta

/-!
# Positions of redexes

A position is the way from the root of a term to a subterm. The positions of a term can be listed
with each node before the nodes inside of it, or with each node after them; the function of an
application comes before its argument in both lists.

Normal order contracts the redex that the first list has first, and no redex contains that one.
Applicative order contracts the redex that the second list has first, and that one contains no
redex. Both replace nothing but that redex, and both stop exactly where no position has one.
-/

namespace UntypedLambda

/-- A way down from a node to one right below it. -/
inductive Branch where
  | body
  | function
  | argument
  deriving DecidableEq, Repr

/-- The way from the root of a term to a subterm. -/
abbrev Position := List Branch

namespace Term

/-- The subterm at a position, if the position leads to one. -/
def subterm? : Term → Position → Option Term
  | term, [] => some term
  | lam _ body, .body :: rest => body.subterm? rest
  | app function _, .function :: rest => function.subterm? rest
  | app _ argument, .argument :: rest => argument.subterm? rest
  | _, _ => none

/-- Whether there is a redex at a position. -/
def hasRedexAt (term : Term) (position : Position) : Bool :=
  (term.subterm? position).any isRedex

/-- All positions of a term. What is inside of a node is listed from the left, and `around` puts
    the node itself before or after that. -/
def positions (around : List Position → List Position) : Term → List Position
  | var _ => around []
  | lam _ body => around ((body.positions around).map (.body :: ·))
  | app function argument =>
    around ((function.positions around).map (.function :: ·) ++
      (argument.positions around).map (.argument :: ·))

/-- All positions, each before those inside of it. -/
def preorder : Term → List Position :=
  positions fun inside => [] :: inside

/-- All positions, each after those inside of it. -/
def postorder : Term → List Position :=
  positions fun inside => inside ++ [[]]

/-- A term with a hole in the place of one subterm. -/
inductive Holed where
  | hole
  | body (param : Name) (body : Holed)
  | function (function : Holed) (argument : Term)
  | argument (function : Term) (argument : Holed)
  deriving DecidableEq, Repr

namespace Holed

/-- The term with the hole filled. -/
def fill : Holed → Term → Term
  | hole, filling => filling
  | body param inner, filling => lam param (inner.fill filling)
  | function inner outerArgument, filling => app (inner.fill filling) outerArgument
  | argument outerFunction inner, filling => app outerFunction (inner.fill filling)

/-- The position of the hole. -/
def position : Holed → Position
  | hole => []
  | body _ inner => .body :: inner.position
  | function inner _ => .function :: inner.position
  | argument _ inner => .argument :: inner.position

/-- What the hole is filled with stands at the position of the hole. -/
theorem subterm?_fill (holed : Holed) (filling : Term) :
    (holed.fill filling).subterm? holed.position = some filling := by
  induction holed with
  | hole => simp [fill, position, subterm?]
  | body _ _ inductionHypothesis | function _ _ inductionHypothesis
  | argument _ _ inductionHypothesis =>
    exact inductionHypothesis

/-- Where the hole is neither above nor below, it does not matter what it is filled with. -/
theorem subterm?_fill_of_apart (holed : Holed) (filling other : Term) (place : Position)
    (notAbove : ¬ holed.position <+: place) (notBelow : ¬ place <+: holed.position) :
    (holed.fill filling).subterm? place = (holed.fill other).subterm? place := by
  induction holed generalizing place with
  | hole => exact absurd List.nil_prefix notAbove
  | body _ inner inductionHypothesis =>
    cases place with
    | nil => exact absurd List.nil_prefix notBelow
    | cons branch rest =>
      simp only [position, List.cons_prefix_cons, not_and] at notAbove notBelow
      cases branch with
      | body => exact inductionHypothesis rest (notAbove rfl) (notBelow rfl)
      | function | argument => rfl
  | function inner _ inductionHypothesis =>
    cases place with
    | nil => exact absurd List.nil_prefix notBelow
    | cons branch rest =>
      simp only [position, List.cons_prefix_cons, not_and] at notAbove notBelow
      cases branch with
      | function => exact inductionHypothesis rest (notAbove rfl) (notBelow rfl)
      | body | argument => rfl
  | argument _ inner inductionHypothesis =>
    cases place with
    | nil => exact absurd List.nil_prefix notBelow
    | cons branch rest =>
      simp only [position, List.cons_prefix_cons, not_and] at notAbove notBelow
      cases branch with
      | argument => exact inductionHypothesis rest (notAbove rfl) (notBelow rfl)
      | body | function => rfl

end Holed

/-- The redex at a position is replaced by its contraction, and the term around it stays. -/
def ContractsAt (term : Term) (position : Position) (result : Term) : Prop :=
  ∃ (holed : Holed) (redex reduct : Term), holed.position = position ∧ term = holed.fill redex ∧
    redex.contract? = some reduct ∧ result = holed.fill reduct

/-- A redex is contracted at its root. -/
theorem contractsAt_root {redex reduct : Term} (contraction : redex.contract? = some reduct) :
    ContractsAt redex [] reduct :=
  ⟨.hole, redex, reduct, rfl, rfl, contraction, rfl⟩

/-- A contraction in the body is one in the abstraction. -/
theorem ContractsAt.body {position : Position} {body result : Term}
    (contracts : ContractsAt body position result) (param : Name) :
    ContractsAt (lam param body) (.body :: position) (lam param result) := by
  obtain ⟨holed, redex, reduct, rfl, rfl, contraction, rfl⟩ := contracts
  exact ⟨.body param holed, redex, reduct, rfl, rfl, contraction, rfl⟩

/-- A contraction in the function is one in the application. -/
theorem ContractsAt.function {position : Position} {function result : Term}
    (contracts : ContractsAt function position result) (argument : Term) :
    ContractsAt (app function argument) (.function :: position) (app result argument) := by
  obtain ⟨holed, redex, reduct, rfl, rfl, contraction, rfl⟩ := contracts
  exact ⟨.function holed argument, redex, reduct, rfl, rfl, contraction, rfl⟩

/-- A contraction in the argument is one in the application. -/
theorem ContractsAt.argument {position : Position} {argument result : Term}
    (contracts : ContractsAt argument position result) (function : Term) :
    ContractsAt (app function argument) (.argument :: position) (app function result) := by
  obtain ⟨holed, redex, reduct, rfl, rfl, contraction, rfl⟩ := contracts
  exact ⟨.argument function holed, redex, reduct, rfl, rfl, contraction, rfl⟩

/-- A contraction puts the contraction of the redex in its place. -/
theorem ContractsAt.subterm?_eq {position : Position} {term result : Term}
    (contracts : ContractsAt term position result) :
    ∃ redex reduct, term.subterm? position = some redex ∧ redex.contract? = some reduct ∧
      result.subterm? position = some reduct := by
  obtain ⟨holed, redex, reduct, rfl, rfl, contraction, rfl⟩ := contracts
  exact ⟨redex, reduct, holed.subterm?_fill redex, contraction, holed.subterm?_fill reduct⟩

/-- A contraction leaves every subterm as it is that neither contains the redex nor is part of
    it. -/
theorem ContractsAt.subterm?_of_apart {position place : Position} {term result : Term}
    (contracts : ContractsAt term position result) (notAbove : ¬ position <+: place)
    (notBelow : ¬ place <+: position) : result.subterm? place = term.subterm? place := by
  obtain ⟨holed, redex, reduct, rfl, rfl, _, rfl⟩ := contracts
  exact holed.subterm?_fill_of_apart reduct redex place notAbove notBelow

/-- Every position that leads to a subterm is listed, wherever nodes are put in the list. -/
theorem mem_positions {around : List Position → List Position}
    (complete : ∀ inside position, position ∈ around inside ↔ position = [] ∨ position ∈ inside)
    (term : Term) (position : Position) :
    position ∈ term.positions around ↔ (term.subterm? position).isSome := by
  induction term generalizing position with
  | var name =>
    rw [positions, complete]
    cases position <;> simp [subterm?]
  | lam param body inductionHypothesis =>
    rw [positions, complete]
    rcases position with _ | ⟨_ | _ | _, rest⟩ <;> simp [subterm?, inductionHypothesis]
  | app function argument functionHypothesis argumentHypothesis =>
    rw [positions, complete]
    rcases position with _ | ⟨_ | _ | _, rest⟩ <;>
      simp [subterm?, functionHypothesis, argumentHypothesis]

/-- Where no listed position has a redex, no position has one. -/
theorem find?_positions_eq_none {around : List Position → List Position}
    (complete : ∀ inside position, position ∈ around inside ↔ position = [] ∨ position ∈ inside)
    (term : Term) :
    (term.positions around).find? term.hasRedexAt = none ↔
      ∀ position, term.hasRedexAt position = false := by
  rw [List.find?_eq_none]
  constructor
  · intro none position
    cases found : term.subterm? position with
    | none => rw [hasRedexAt, found, Option.any_none]
    | some subterm =>
      have listed := (mem_positions complete term position).mpr (by rw [found, Option.isSome_some])
      exact Bool.eq_false_iff.mpr (none position listed)
  · exact fun none position _ => Bool.eq_false_iff.mp (none position)

/-- Nothing is found exactly if no position has a redex, where nodes come first. -/
theorem find?_preorder_eq_none (term : Term) :
    term.preorder.find? term.hasRedexAt = none ↔ ∀ position, term.hasRedexAt position = false :=
  find?_positions_eq_none (fun _ _ => List.mem_cons) term

/-- Nothing is found exactly if no position has a redex, where nodes come last. -/
theorem find?_postorder_eq_none (term : Term) :
    term.postorder.find? term.hasRedexAt = none ↔ ∀ position, term.hasRedexAt position = false := by
  refine find?_positions_eq_none (fun inside position => ?_) term
  rw [List.mem_append, List.mem_singleton, or_comm]

/-- The first redex among the positions that begin with a branch is the first one below it. -/
theorem find?_map_branch (term part : Term) (branch : Branch)
    (below : ∀ rest, term.hasRedexAt (branch :: rest) = part.hasRedexAt rest)
    (places : List Position) :
    (places.map (branch :: ·)).find? term.hasRedexAt =
      (places.find? part.hasRedexAt).map (branch :: ·) := by
  rw [List.find?_map]
  congr 1
  exact congrArg (List.find? · places) (funext below)

/-- The first redex among the positions inside of an application is that of the function, or else
    that of the argument. -/
theorem find?_inside_app (function argument : Term) (inFunction inArgument : List Position) :
    (inFunction.map (.function :: ·) ++ inArgument.map (.argument :: ·)).find?
        (app function argument).hasRedexAt =
      ((inFunction.find? function.hasRedexAt).map (.function :: ·)).or
        ((inArgument.find? argument.hasRedexAt).map (.argument :: ·)) := by
  rw [List.find?_append, find?_map_branch _ function .function fun _ => rfl,
    find?_map_branch _ argument .argument fun _ => rfl]

/-- The position of the root, if there is a redex. -/
def redexAtRoot? (term : Term) : Option Position :=
  if term.isRedex then some [] else none

/-- The root is found first if it stands first. -/
theorem find?_root_cons (term : Term) (inside : List Position) :
    ([] :: inside).find? term.hasRedexAt = term.redexAtRoot?.or (inside.find? term.hasRedexAt) := by
  have root : term.hasRedexAt [] = term.isRedex := by simp [hasRedexAt, subterm?]
  rw [List.find?_cons, root, redexAtRoot?]
  cases term.isRedex <;> rfl

/-- The root is found last if it stands last. -/
theorem find?_concat_root (term : Term) (inside : List Position) :
    (inside ++ [[]]).find? term.hasRedexAt =
      (inside.find? term.hasRedexAt).or term.redexAtRoot? := by
  rw [List.find?_append, find?_root_cons, List.find?_nil, Option.or_none]

/-- Where nodes come first, the first redex of an abstraction is that of its body. -/
theorem find?_preorder_lam (param : Name) (body : Term) :
    (lam param body).preorder.find? (lam param body).hasRedexAt =
      (body.preorder.find? body.hasRedexAt).map (.body :: ·) :=
  find?_map_branch _ body .body (fun _ => rfl) body.preorder

/-- Where nodes come first, an application is found before what is inside of it. -/
theorem find?_preorder_app (function argument : Term) :
    (app function argument).preorder.find? (app function argument).hasRedexAt =
      (app function argument).redexAtRoot?.or
        (((function.preorder.find? function.hasRedexAt).map (.function :: ·)).or
          ((argument.preorder.find? argument.hasRedexAt).map (.argument :: ·))) := by
  rw [← find?_inside_app]
  exact find?_root_cons _ _

/-- Where nodes come last, too, the first redex of an abstraction is that of its body. -/
theorem find?_postorder_lam (param : Name) (body : Term) :
    (lam param body).postorder.find? (lam param body).hasRedexAt =
      (body.postorder.find? body.hasRedexAt).map (.body :: ·) := by
  rw [← find?_map_branch (lam param body) body .body fun _ => rfl]
  exact (find?_concat_root _ _).trans Option.or_none

/-- Where nodes come last, an application is found after what is inside of it. -/
theorem find?_postorder_app (function argument : Term) :
    (app function argument).postorder.find? (app function argument).hasRedexAt =
      ((function.postorder.find? function.hasRedexAt).map (.function :: ·)).or
        (((argument.postorder.find? argument.hasRedexAt).map (.argument :: ·)).or
          (app function argument).redexAtRoot?) := by
  rw [← Option.or_assoc, ← find?_inside_app]
  exact find?_concat_root _ _

/-- What was found and what came of a step belong together: there is neither a position nor a
    result, or the redex at the position was contracted. -/
abbrev Contracted (term : Term) : Option Position → Option Term → Prop :=
  Option.Rel fun position result => ContractsAt term position result

/-- If the first choice finds nothing, the second one decides. -/
theorem Contracted.or {term : Term} {first second : Option Position} {stepped other : Option Term}
    (one : Contracted term first stepped) (two : Contracted term second other) :
    Contracted term (first.or second) (stepped.or other) := by
  cases one with
  | none => exact two
  | some contracts => exact .some contracts

/-- What is found and contracted in a part is found and contracted in the whole. -/
theorem Contracted.inside {part whole : Term} {found : Option Position} {stepped : Option Term}
    {branch : Branch} {rebuild : Term → Term} (contracted : Contracted part found stepped)
    (lifts : ∀ position result, ContractsAt part position result →
      ContractsAt whole (branch :: position) (rebuild result)) :
    Contracted whole (found.map (branch :: ·)) (stepped.map rebuild) := by
  cases contracted with
  | none => exact .none
  | some contracts => exact .some (lifts _ _ contracts)

/-- The contraction of an application, if there is one, is at the root. -/
theorem contracted_root (function argument : Term) :
    Contracted (app function argument) (app function argument).redexAtRoot?
      (function.appliedTo? argument) := by
  cases function with
  | lam param body => exact .some (contractsAt_root rfl)
  | var name => exact .none
  | app _ _ => exact .none

/-- Normal order contracts the first redex, where nodes come before what is inside of them. -/
theorem contracted_normalStep (term : Term) :
    Contracted term (term.preorder.find? term.hasRedexAt) (Strategy.normal.step term) := by
  induction term with
  | var name => exact .none
  | lam param body inductionHypothesis =>
    rw [find?_preorder_lam, step_lam]
    exact inductionHypothesis.inside fun _ _ contracts => contracts.body param
  | app function argument functionHypothesis argumentHypothesis =>
    rw [find?_preorder_app, normalStep_app]
    refine (contracted_root function argument).or (.or ?_ ?_)
    · exact functionHypothesis.inside fun _ _ contracts => contracts.function argument
    · exact argumentHypothesis.inside fun _ _ contracts => contracts.argument function

/-- Applicative order contracts the first redex, where nodes come after what is inside of them. -/
theorem contracted_applicativeStep (term : Term) :
    Contracted term (term.postorder.find? term.hasRedexAt) (Strategy.applicative.step term) := by
  induction term with
  | var name => exact .none
  | lam param body inductionHypothesis =>
    rw [find?_postorder_lam, step_lam]
    exact inductionHypothesis.inside fun _ _ contracts => contracts.body param
  | app function argument functionHypothesis argumentHypothesis =>
    rw [find?_postorder_app, applicativeStep_app]
    refine .or ?_ (.or ?_ (contracted_root function argument))
    · exact functionHypothesis.inside fun _ _ contracts => contracts.function argument
    · exact argumentHypothesis.inside fun _ _ contracts => contracts.argument function

/-- No redex contains the one that is found first, where nodes come before what is inside of
    them. -/
theorem outermost_of_find?_preorder {term : Term} {position outer : Position}
    (first : term.preorder.find? term.hasRedexAt = some position) (above : outer <+: position)
    (other : outer ≠ position) : term.hasRedexAt outer = false := by
  induction term generalizing position outer with
  | var name => cases first
  | lam param body inductionHypothesis =>
    rw [find?_preorder_lam, Option.map_eq_some_iff] at first
    obtain ⟨rest, found, rfl⟩ := first
    obtain rfl | ⟨inner, rfl, innerAbove⟩ := List.prefix_cons_iff.mp above
    · rfl
    · exact inductionHypothesis found innerAbove fun same => other (same ▸ rfl)
  | app function argument functionHypothesis argumentHypothesis =>
    rw [find?_preorder_app] at first
    unfold redexAtRoot? at first
    split at first
    · obtain rfl := Option.some.inj first
      exact absurd (List.prefix_nil.mp above) other
    · rename_i notRoot
      rw [Option.none_or, Option.or_eq_some_iff] at first
      simp only [Option.map_eq_some_iff] at first
      obtain ⟨rest, found, rfl⟩ | ⟨_, rest, found, rfl⟩ := first <;>
        obtain rfl | ⟨inner, rfl, innerAbove⟩ := List.prefix_cons_iff.mp above
      · exact Bool.eq_false_iff.mpr notRoot
      · exact functionHypothesis found innerAbove fun same => other (same ▸ rfl)
      · exact Bool.eq_false_iff.mpr notRoot
      · exact argumentHypothesis found innerAbove fun same => other (same ▸ rfl)

/-- The redex that is found first contains none, where nodes come after what is inside of them. -/
theorem innermost_of_find?_postorder {term : Term} {position inner : Position}
    (first : term.postorder.find? term.hasRedexAt = some position) (below : position <+: inner)
    (other : inner ≠ position) : term.hasRedexAt inner = false := by
  induction term generalizing position inner with
  | var name => cases first
  | lam param body inductionHypothesis =>
    rw [find?_postorder_lam, Option.map_eq_some_iff] at first
    obtain ⟨rest, found, rfl⟩ := first
    obtain ⟨further, rfl, furtherBelow⟩ := List.cons_prefix_iff.mp below
    exact inductionHypothesis found furtherBelow fun same => other (same ▸ rfl)
  | app function argument functionHypothesis argumentHypothesis =>
    rw [find?_postorder_app] at first
    simp only [Option.or_eq_some_iff, Option.map_eq_some_iff, Option.map_eq_none_iff] at first
    obtain ⟨rest, found, rfl⟩ |
        ⟨noneInFunction, ⟨rest, found, rfl⟩ | ⟨noneInArgument, found⟩⟩ := first
    · obtain ⟨further, rfl, furtherBelow⟩ := List.cons_prefix_iff.mp below
      exact functionHypothesis found furtherBelow fun same => other (same ▸ rfl)
    · obtain ⟨further, rfl, furtherBelow⟩ := List.cons_prefix_iff.mp below
      exact argumentHypothesis found furtherBelow fun same => other (same ▸ rfl)
    · have noneInside := (find?_postorder_eq_none function).mp noneInFunction
      have noneInsideArgument := (find?_postorder_eq_none argument).mp noneInArgument
      unfold redexAtRoot? at found
      split at found
      · obtain rfl := Option.some.inj found
        rcases inner with _ | ⟨_ | _ | _, rest⟩
        · exact absurd rfl other
        · rfl
        · exact noneInside rest
        · exact noneInsideArgument rest
      · cases found

/-- There is no result exactly if nothing was found. -/
theorem Contracted.eq_none_iff {term : Term} {found : Option Position} {stepped : Option Term}
    (contracted : Contracted term found stepped) : stepped = none ↔ found = none := by
  cases contracted <;> simp

/-- A redex that was found was contracted. -/
theorem Contracted.exists_result {term : Term} {position : Position} {stepped : Option Term}
    (contracted : Contracted term (some position) stepped) :
    ∃ result, stepped = some result ∧ ContractsAt term position result := by
  cases contracted with
  | some contracts => exact ⟨_, rfl, contracts⟩

end Term

/-- Each strategy stops exactly at the terms in which no position has a redex. If some position has
    one, normal order contracts the first in the order in which nodes come before what is inside
    of them, and no redex is above it; applicative order contracts the first in the order in
    which nodes come after what is inside of them, and no redex is below it. The redex is replaced
    by its contraction, and whatever is neither above nor below stays. -/
theorem strategies_contract_first_redex (term : Term) :
    ((Strategy.normal.step term = none ↔ ∀ position, term.hasRedexAt position = false) ∧
      (Strategy.applicative.step term = none ↔ ∀ position, term.hasRedexAt position = false)) ∧
    ((∃ position, term.hasRedexAt position = true) →
      (∃ position result, term.preorder.find? term.hasRedexAt = some position ∧
        Strategy.normal.step term = some result ∧ term.ContractsAt position result ∧
        ∀ outer, outer <+: position → outer ≠ position → term.hasRedexAt outer = false) ∧
      (∃ position result, term.postorder.find? term.hasRedexAt = some position ∧
        Strategy.applicative.step term = some result ∧ term.ContractsAt position result ∧
        ∀ inner, position <+: inner → inner ≠ position → term.hasRedexAt inner = false)) ∧
    ∀ position result, term.ContractsAt position result →
      (∃ redex reduct, term.subterm? position = some redex ∧ redex.contract? = some reduct ∧
        result.subterm? position = some reduct) ∧
      ∀ place, ¬ position <+: place → ¬ place <+: position →
        result.subterm? place = term.subterm? place := by
  have normal := term.contracted_normalStep
  have applicative := term.contracted_applicativeStep
  have noneBefore := term.find?_preorder_eq_none
  have noneAfter := term.find?_postorder_eq_none
  refine ⟨⟨normal.eq_none_iff.trans noneBefore, applicative.eq_none_iff.trans noneAfter⟩, ?_, ?_⟩
  · rintro ⟨redexPosition, isRedex⟩
    have present : ¬ ∀ position, term.hasRedexAt position = false := fun none =>
      Bool.false_ne_true ((none redexPosition).symm.trans isRedex)
    constructor
    · obtain ⟨position, first⟩ :=
        Option.ne_none_iff_exists'.mp fun none => present (noneBefore.mp none)
      obtain ⟨result, stepped, contracts⟩ := Term.Contracted.exists_result (first ▸ normal)
      exact ⟨position, result, first, stepped, contracts, fun outer above other =>
        Term.outermost_of_find?_preorder first above other⟩
    · obtain ⟨position, first⟩ :=
        Option.ne_none_iff_exists'.mp fun none => present (noneAfter.mp none)
      obtain ⟨result, stepped, contracts⟩ := Term.Contracted.exists_result (first ▸ applicative)
      exact ⟨position, result, first, stepped, contracts, fun inner below other =>
        Term.innermost_of_find?_postorder first below other⟩
  · intro position result contracts
    exact ⟨contracts.subterm?_eq, fun place notAbove notBelow =>
      contracts.subterm?_of_apart notAbove notBelow⟩

/-- In a redex that has a redex in its function and one in its argument, normal order contracts the
    whole, and applicative order the one in the body of the function. -/
theorem strategies_contract_first_redex_nested :
    let argument : Term := .app (.lam "z" (.var "z")) (.var "w")
    let term : Term := .app (.lam "x" (.app (.lam "y" (.var "y")) (.var "x"))) argument
    let outer : Term := .app (.lam "y" (.var "y")) argument
    let inner : Term := .app (.lam "x" (.var "x")) argument
    term.hasRedexAt [.argument] = true ∧
      (Strategy.normal.step term = some outer ∧ term.ContractsAt [] outer) ∧
      (Strategy.applicative.step term = some inner ∧
        term.ContractsAt [.function, .body] inner) := by
  intro argument term outer inner
  have isRedex : term.hasRedexAt [.argument] = true := by decide
  obtain ⟨_, contracts, _⟩ := strategies_contract_first_redex term
  obtain ⟨⟨position, result, first, stepped, isOuter, _⟩,
    ⟨other, otherResult, found, otherStepped, isInner, _⟩⟩ := contracts ⟨_, isRedex⟩
  have takesOuter : Strategy.normal.step term = some outer := by decide +kernel
  have takesInner : Strategy.applicative.step term = some inner := by decide +kernel
  have atRoot : term.preorder.find? term.hasRedexAt = some [] := by decide
  have inBody : term.postorder.find? term.hasRedexAt = some [.function, .body] := by decide
  obtain rfl := Option.some.inj (atRoot.symm.trans first)
  obtain rfl := Option.some.inj (inBody.symm.trans found)
  obtain rfl := Option.some.inj (takesOuter.symm.trans stepped)
  obtain rfl := Option.some.inj (takesInner.symm.trans otherStepped)
  exact ⟨isRedex, ⟨stepped, isOuter⟩, otherStepped, isInner⟩

end UntypedLambda
