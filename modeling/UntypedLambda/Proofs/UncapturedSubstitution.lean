import UntypedLambda.Combinators
import UntypedLambda.Numeral

/-!
# Substitution that renames nothing

Substitution goes straight through a binder whose parameter is not free in the
replacement. In particular nothing is renamed where a closed term is put in, so
what becomes of a combinator that is given its arguments can be read off, with the
names of its binders unchanged.
-/

namespace UntypedLambda.Term

/-- The variable that is replaced. -/
theorem substitute_var_same (name : Name) (replacement : Term) :
    (var name).substitute name replacement = replacement := by
  rw [substitute_var, if_pos rfl]

/-- Any other variable stays. -/
theorem substitute_var_of_ne {other name : Name} (different : other ≠ name) (replacement : Term) :
    (var other).substitute name replacement = var other := by
  rw [substitute_var, if_neg different]

/-- The parameter of a binder is not free below it, so nothing is replaced. -/
theorem substitute_lam_self (param : Name) (body replacement : Term) :
    (lam param body).substitute param replacement = lam param body := by
  apply substitute_of_not_mem
  simp [mem_freeNames_lam]

/-- Under any other binder that captures nothing, substitution goes straight on. -/
theorem substitute_lam_of_not_mem {param name : Name} {replacement : Term}
    (different : param ≠ name)
    (uncaptured : param ∉ replacement.freeNames) (body : Term) :
    (lam param body).substitute name replacement =
      lam param (body.substitute name replacement) := by
  by_cases present : name ∈ (lam param body).freeNames
  · rw [substitute_lam, if_neg (not_not_intro present), if_neg uncaptured]
  · have absent : name ∉ body.freeNames := by
      intro inBody
      exact present ((mem_freeNames_lam name param body).mpr ⟨inBody, Ne.symm different⟩)
    rw [substitute_of_not_mem present, substitute_of_not_mem absent]

/-- A name that is replaced by itself stays, and no binder is renamed. -/
theorem substitute_var_self (term : Term) (name : Name) :
    term.substitute name (var name) = term := by
  induction term with
  | var other =>
    by_cases same : other = name
    · rw [same, substitute_var_same]
    · rw [substitute_var_of_ne same]
  | lam param body inductionHypothesis =>
    by_cases same : param = name
    · rw [same, substitute_lam_self]
    · have uncaptured : param ∉ (var name).freeNames := by
        rw [mem_freeNames_var]
        exact same
      rw [substitute_lam_of_not_mem same uncaptured, inductionHypothesis]
  | app function argument functionHypothesis argumentHypothesis =>
    rw [substitute_app, functionHypothesis, argumentHypothesis]

/-- A term without free names. -/
def Closed (term : Term) : Prop :=
  ∀ name, name ∉ term.freeNames

/-- A term whose free names are none is closed. -/
theorem closed_of_freeNames {term : Term} (none : term.freeNames = []) : term.Closed := by
  intro name free
  rw [none] at free
  exact List.not_mem_nil free

/-- Closed terms are left alone by substitution. -/
theorem Closed.substitute {term : Term} (closed : term.Closed) (name : Name) (replacement : Term) :
    term.substitute name replacement = term :=
  substitute_of_not_mem (closed name) replacement

/-- An application is closed if both sides are. -/
theorem Closed.app {function argument : Term} (functionClosed : function.Closed)
    (argumentClosed : argument.Closed) : (app function argument).Closed := by
  intro name free
  rcases (mem_freeNames_app name function argument).mp free with inFunction | inArgument
  · exact functionClosed name inFunction
  · exact argumentClosed name inArgument

end UntypedLambda.Term

namespace UntypedLambda.Numeral

open Term

/-- A repeated application has the free names of its function, if it is applied at
    all, and of its argument. -/
theorem mem_freeNames_iterate (name : Name) (function argument : Term) (count : Nat) :
    name ∈ (iterate function count argument).freeNames ↔
      (count ≠ 0 ∧ name ∈ function.freeNames) ∨ name ∈ argument.freeNames := by
  induction count with
  | zero => simp [iterate]
  | succ count inductionHypothesis =>
    rw [iterate, mem_freeNames_app, inductionHypothesis]
    by_cases free : name ∈ function.freeNames <;> simp [free]

/-- Substitution goes into a repeated application. -/
theorem substitute_iterate (function argument : Term) (count : Nat) (name : Name)
    (replacement : Term) :
    (iterate function count argument).substitute name replacement =
      iterate (function.substitute name replacement) count
        (argument.substitute name replacement) := by
  induction count with
  | zero => rfl
  | succ count inductionHypothesis => rw [iterate, substitute_app, inductionHypothesis, iterate]

/-- To apply a function some times and then some more times is to apply it as often
    as both together. -/
theorem iterate_add (function argument : Term) (count more : Nat) :
    iterate function (count + more) argument =
      iterate function count (iterate function more argument) := by
  induction count with
  | zero => rw [Nat.zero_add, iterate]
  | succ count inductionHypothesis => rw [Nat.succ_add, iterate, inductionHypothesis, iterate]

/-- Numerals are closed. -/
theorem closed_church (number : Nat) : (church number).Closed := by
  intro name free
  rw [church, mem_freeNames_lam, mem_freeNames_lam, mem_freeNames_iterate, mem_freeNames_var,
    mem_freeNames_var] at free
  obtain ⟨⟨inBody, notBase⟩, notFunction⟩ := free
  rcases inBody with ⟨_, isFunction⟩ | isBase
  · exact notFunction isFunction
  · exact notBase isBase

end UntypedLambda.Numeral
