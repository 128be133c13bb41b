import UntypedLambda.Numeral
import UntypedLambda.Proofs.Interpretation

/-!
# Numerals are read up to renaming

A term with two binders of different names is read as a number exactly if it is the
numeral of that number up to the names of these binders. Where both names are the
same, a term may be a numeral and not be read.
-/

namespace UntypedLambda

namespace Term

/-- Only a variable that is bound has a position as its nameless form. -/
theorem eq_var_of_namelessUnder {scope : List Name} {term : Term} {index : Nat}
    (form : term.namelessUnder scope = .bound index) :
    ∃ name, term = var name ∧ scope.idxOf? name = some index := by
  cases term with
  | var name =>
    refine ⟨name, rfl, ?_⟩
    rw [namelessUnder, Interpretation.ofScope] at form
    cases found : scope.idxOf? name with
    | none => simp [found] at form
    | some position => simpa [found] using form
  | lam param body => cases form
  | app function argument => cases form

end Term

namespace Numeral

open Term

/-- What is counted is a repeated application of a variable to a variable. -/
theorem countApplications_eq_some_iff (function base : Name) (term : Term) (number : Nat) :
    countApplications function base term = some number ↔
      term = iterate (var function) number (var base) := by
  induction term generalizing number with
  | var name => cases number <;> simp [countApplications, iterate]
  | lam param body _ => cases number <;> simp [countApplications, iterate]
  | app head argument _ inductionHypothesis =>
    rw [countApplications]
    cases number with
    | zero => simp [iterate]
    | succ number => simp [iterate, inductionHypothesis]

/-- A body that is the body of a numeral up to the names of its two binders repeats
    the first of them on the second. -/
theorem eq_iterate_of_namelessUnder {function base : Name} {body : Term} {number : Nat}
    (same : body.namelessUnder [base, function] =
      (iterate (var "f") number (var "x")).namelessUnder ["x", "f"]) :
    body = iterate (var function) number (var base) := by
  induction number generalizing body with
  | zero =>
    have form : body.namelessUnder [base, function] = .bound 0 := same
    obtain ⟨name, rfl, position⟩ := eq_var_of_namelessUnder form
    obtain ⟨_, here, _⟩ := List.idxOf?_eq_some_iff.mp position
    exact congrArg var here.symm
  | succ number inductionHypothesis =>
    have form : body.namelessUnder [base, function] =
        .app (.bound 1) ((iterate (var "f") number (var "x")).namelessUnder ["x", "f"]) := same
    cases body with
    | var name =>
      rw [namelessUnder, Interpretation.ofScope] at form
      split at form <;> cases form
    | lam param body => cases form
    | app head argument =>
      obtain ⟨heads, arguments⟩ := Nameless.app.inj form
      obtain ⟨name, rfl, position⟩ := eq_var_of_namelessUnder heads
      obtain ⟨_, here, _⟩ := List.idxOf?_eq_some_iff.mp position
      obtain rfl : function = name := here
      rw [inductionHypothesis arguments, iterate]

/-- A term that is a numeral up to renaming, and whose binders have different names,
    is read as the number. -/
theorem number?_of_alphaEqual {function base : Name} (different : function ≠ base) {body : Term}
    {number : Nat} (alike : alphaEqual (lam function (lam base body)) (church number) = true) :
    number? (lam function (lam base body)) = some number := by
  rw [alphaEqual_iff_nameless] at alike
  have bodies := Nameless.lam.inj (Nameless.lam.inj alike)
  rw [number?, if_neg different, countApplications_eq_some_iff]
  exact eq_iterate_of_namelessUnder bodies

/-- The two outermost binders of a term, which has to have two, are for different names. -/
def BindersDiffer (term : Term) : Prop :=
  ∃ function base body, term = lam function (lam base body) ∧ function ≠ base

/-- The nameless form of a repeated application does not show the names of its two binders, if
    they are different. -/
theorem namelessUnder_iterate {function base : Name} (different : function ≠ base) (number : Nat) :
    (iterate (var function) number (var base)).namelessUnder [base, function] =
      (iterate (var "f") number (var "x")).namelessUnder ["x", "f"] := by
  induction number with
  | zero =>
    have innermost : (var base).namelessUnder [base, function] = .bound 0 := by
      simp [namelessUnder, Interpretation.ofScope, List.idxOf?_cons]
    exact innermost
  | succ number inductionHypothesis =>
    have outer : (var function).namelessUnder [base, function] = .bound 1 := by
      simp [namelessUnder, Interpretation.ofScope, List.idxOf?_cons, Ne.symm different]
    rw [iterate, namelessUnder, inductionHypothesis, outer]
    rfl

/-- What is read as a number has two binders of different names and is the numeral of that
    number up to these names. -/
theorem alphaEqual_of_number? {term : Term} {number : Nat} (success : number? term = some number) :
    BindersDiffer term ∧ alphaEqual term (church number) = true := by
  unfold number? at success
  split at success
  · rename_i function base body
    split at success
    · cases success
    · rename_i different
      obtain rfl := (countApplications_eq_some_iff function base body number).mp success
      refine ⟨⟨function, base, _, rfl, different⟩, (alphaEqual_iff_nameless _ _).mpr ?_⟩
      exact congrArg (fun form => Nameless.lam (.lam form)) (namelessUnder_iterate different number)
  · cases success

/-- A term is read as a number exactly if it is the numeral of that number up to renaming and its
    two outermost binders have different names. -/
theorem number?_eq_some_iff (term : Term) (number : Nat) :
    number? term = some number ↔ BindersDiffer term ∧ alphaEqual term (church number) = true := by
  constructor
  · exact alphaEqual_of_number?
  · rintro ⟨⟨function, base, body, rfl, different⟩, alike⟩
    exact number?_of_alphaEqual different alike

/-- Every numeral is read as its number. -/
theorem number?_church (number : Nat) : number? (church number) = some number :=
  number?_of_alphaEqual (by decide) ((alphaEqual_iff_nameless _ _).mpr rfl)

/-- Terms that are equal up to renaming are not read as different numbers. -/
theorem number_eq_of_alphaEqual {term other : Term} {number otherNumber : Nat}
    (success : number? term = some number) (otherSuccess : number? other = some otherNumber)
    (alike : alphaEqual term other = true) : number = otherNumber := by
  obtain ⟨differ, _⟩ := alphaEqual_of_number? success
  obtain ⟨_, otherAlike⟩ := alphaEqual_of_number? otherSuccess
  rw [alphaEqual_iff_nameless] at alike otherAlike
  have isOther : number? term = some otherNumber :=
    (number?_eq_some_iff term otherNumber).mpr
      ⟨differ, (alphaEqual_iff_nameless _ _).mpr (alike.trans otherAlike)⟩
  exact Option.some.inj (success.symm.trans isOther)

/-- A term is read as a number exactly if it is the numeral of that number up to renaming and its
    two outermost binders have different names; every other term is not read. Numerals are read
    as their numbers, and terms that are read as different numbers are not equal up to renaming. -/
theorem decoding_is_exact :
    (∀ (term : Term) (number : Nat),
      number? term = some number ↔ BindersDiffer term ∧ alphaEqual term (church number) = true) ∧
    (∀ number : Nat, number? (church number) = some number) ∧
    (∀ term : Term, number? term = none ↔
      ∀ number, ¬ (BindersDiffer term ∧ alphaEqual term (church number) = true)) ∧
    ∀ (term other : Term) (number otherNumber : Nat), number? term = some number →
      number? other = some otherNumber → number ≠ otherNumber → alphaEqual term other = false := by
  refine ⟨number?_eq_some_iff, number?_church, ?_, ?_⟩
  · intro term
    simp only [← number?_eq_some_iff, Option.eq_none_iff_forall_ne_some, ne_eq]
  · intro term other number otherNumber success otherSuccess different
    refine Bool.eq_false_iff.mpr fun alike => different ?_
    exact number_eq_of_alphaEqual success otherSuccess alike

/-- Two with the names of its binders exchanged is read, and it is not one with other names. Zero
    is not read if both of its binders have one name, although it is zero up to renaming. -/
theorem decoding_is_exact_renamed :
    let two := lam "x" (lam "f" (app (var "x") (app (var "x") (var "f"))))
    let one := lam "a" (lam "f" (app (var "a") (var "f")))
    let shadowed := lam "x" (lam "x" (var "x"))
    number? two = some 2 ∧ number? one = some 1 ∧ 2 ≠ 1 ∧ alphaEqual two one = false ∧
      alphaEqual shadowed (church 0) = true ∧ number? shadowed = none ∧
      ¬ BindersDiffer shadowed := by
  intro two one shadowed
  obtain ⟨exact, _, _, distinct⟩ := decoding_is_exact
  have isTwo : number? two = some 2 := by decide
  have isOne : number? one = some 1 := by decide
  have isZero : alphaEqual shadowed (church 0) = true := by decide
  have unread : number? shadowed = none := by decide
  refine ⟨isTwo, isOne, by decide, distinct two one 2 1 isTwo isOne (by decide), isZero, unread, ?_⟩
  intro differ
  exact Option.some_ne_none 0 (((exact shadowed 0).mpr ⟨differ, isZero⟩).symm.trans unread)

end Numeral

end UntypedLambda
