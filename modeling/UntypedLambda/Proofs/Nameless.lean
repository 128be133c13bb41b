import UntypedLambda.Name

/-!
# Nameless terms

A bound variable is the number of binders between it and its own, and a free
variable keeps its name. Terms that differ in the names of bound variables are
the same nameless term.

All occurrences of all variables are replaced at once. An index above every
binder of a term is allowed: it stands for a binder that is not part of the
term. Replacing such indices and replacing free names are one operation, so each
law below is stated and proved for both.
-/

namespace UntypedLambda

/-- A term whose bound variables count binders outward from zero and whose free
    variables are names. -/
inductive Nameless where
  | bound (index : Nat)
  | free (name : Name)
  | lam (body : Nameless)
  | app (function argument : Nameless)
  deriving DecidableEq, Repr, Inhabited

namespace Nameless

/-- A renumbering of indices, taken under one more binder: the index of that
    binder stays. -/
def underBinder (renumber : Nat → Nat) : Nat → Nat
  | 0 => 0
  | index + 1 => renumber index + 1

/-- The term with its indices renumbered. Free names stay. -/
def rename (renumber : Nat → Nat) : Nameless → Nameless
  | bound index => bound (renumber index)
  | free name => free name
  | lam body => lam (body.rename (underBinder renumber))
  | app function argument => app (function.rename renumber) (argument.rename renumber)

/-- The term as it reads under one more binder. -/
def shifted (term : Nameless) : Nameless :=
  term.rename (· + 1)

/-- Replacements for all indices and all free names. -/
@[ext] structure Assignment where
  index : Nat → Nameless
  name : Name → Nameless

/-- The assignment as it reads under one more binder. That binder's own index
    stays, and no index of a replacement comes to refer to it. -/
def Assignment.lifted (assignment : Assignment) : Assignment where
  index
    | 0 => bound 0
    | index + 1 => (assignment.index index).shifted
  name name := (assignment.name name).shifted

/-- The term with every index and every free name replaced. -/
def assign (assignment : Assignment) : Nameless → Nameless
  | bound index => assignment.index index
  | free name => assignment.name name
  | lam body => lam (body.assign assignment.lifted)
  | app function argument => app (function.assign assignment) (argument.assign assignment)

/-- One assignment after the other. -/
def Assignment.andThen (first second : Assignment) : Assignment where
  index index := (first.index index).assign second
  name name := (first.name name).assign second

/-- The assignment that removes the innermost binder: its variable becomes the
    argument, and all other indices count one binder less. -/
def instantiation (argument : Nameless) : Assignment where
  index
    | 0 => argument
    | index + 1 => bound index
  name := free

/-- The body of a binder with an argument for the variable of that binder. -/
def instantiate (body argument : Nameless) : Nameless :=
  body.assign (instantiation argument)

/-- Renumbering is a special assignment. -/
theorem rename_eq_assign (renumber : Nat → Nat) (term : Nameless) :
    term.rename renumber = term.assign ⟨fun index => bound (renumber index), free⟩ := by
  induction term generalizing renumber with
  | bound index => rfl
  | free name => rfl
  | lam body inductionHypothesis =>
    have lifted : Assignment.lifted ⟨fun index => bound (renumber index), free⟩ =
        ⟨fun index => bound (underBinder renumber index), free⟩ := by
      ext index
      · cases index <;> rfl
      · rfl
    rw [rename, assign, lifted, inductionHypothesis]
  | app function argument functionHypothesis argumentHypothesis =>
    rw [rename, assign, functionHypothesis, argumentHypothesis]

/-- Shifting is a special assignment. -/
theorem shifted_eq_assign (term : Nameless) :
    term.shifted = term.assign ⟨fun index => bound (index + 1), free⟩ :=
  rename_eq_assign (· + 1) term

/-- Replacing every variable by itself changes nothing. -/
theorem assign_identity (term : Nameless) : term.assign ⟨bound, free⟩ = term := by
  induction term with
  | bound index => rfl
  | free name => rfl
  | lam body inductionHypothesis =>
    have lifted : Assignment.lifted ⟨bound, free⟩ = ⟨bound, free⟩ := by
      ext index
      · cases index <;> rfl
      · rfl
    rw [assign, lifted, inductionHypothesis]
  | app function argument functionHypothesis argumentHypothesis =>
    rw [assign, functionHypothesis, argumentHypothesis]

/-- To renumber and then to assign is to assign what stands at the new numbers. -/
theorem assign_rename (renumber : Nat → Nat) (assignment : Assignment) (term : Nameless) :
    (term.rename renumber).assign assignment =
      term.assign ⟨fun index => assignment.index (renumber index), assignment.name⟩ := by
  induction term generalizing renumber assignment with
  | bound index => rfl
  | free name => rfl
  | lam body inductionHypothesis =>
    have lifted : Assignment.lifted ⟨fun index => assignment.index (renumber index),
        assignment.name⟩ =
        ⟨fun index => assignment.lifted.index (underBinder renumber index),
          assignment.lifted.name⟩ := by
      ext index
      · cases index <;> rfl
      · rfl
    rw [rename, assign, assign, lifted, inductionHypothesis]
  | app function argument functionHypothesis argumentHypothesis =>
    rw [rename, assign, assign, functionHypothesis, argumentHypothesis]

/-- Renumbering twice is renumbering once by the composition. -/
theorem rename_rename (first second : Nat → Nat) (term : Nameless) :
    (term.rename first).rename second = term.rename fun index => second (first index) := by
  rw [rename_eq_assign second, assign_rename, rename_eq_assign]

/-- To assign and then to renumber is to assign renumbered terms. Under a binder a
    term may be shifted before it is renumbered or after, as both orders add one
    to every index. -/
theorem rename_assign (renumber : Nat → Nat) (assignment : Assignment) (term : Nameless) :
    (term.assign assignment).rename renumber =
      term.assign ⟨fun index => (assignment.index index).rename renumber,
        fun name => (assignment.name name).rename renumber⟩ := by
  induction term generalizing renumber assignment with
  | bound index => rfl
  | free name => rfl
  | lam body inductionHypothesis =>
    have commutes (replacement : Nameless) :
        replacement.shifted.rename (underBinder renumber) =
          (replacement.rename renumber).shifted := by
      rw [shifted, shifted, rename_rename, rename_rename]
      rfl
    have lifted : Assignment.lifted ⟨fun index => (assignment.index index).rename renumber,
          fun name => (assignment.name name).rename renumber⟩ =
        ⟨fun index => (assignment.lifted.index index).rename (underBinder renumber),
          fun name => (assignment.lifted.name name).rename (underBinder renumber)⟩ := by
      ext index
      · cases index with
        | zero => rfl
        | succ index => exact (commutes _).symm
      · exact (commutes _).symm
    rw [assign, rename, assign, lifted, inductionHypothesis]
  | app function argument functionHypothesis argumentHypothesis =>
    rw [assign, rename, assign, functionHypothesis, argumentHypothesis]

/-- A shifted term does not mention the innermost binder, so under that binder
    it is assigned as it was outside. -/
theorem shifted_assign_lifted (assignment : Assignment) (term : Nameless) :
    term.shifted.assign assignment.lifted = (term.assign assignment).shifted := by
  rw [shifted, assign_rename, shifted, rename_assign]
  rfl

/-- Lifting respects composition. -/
theorem Assignment.lifted_andThen (first second : Assignment) :
    (first.andThen second).lifted = first.lifted.andThen second.lifted := by
  ext index
  · cases index with
    | zero => rfl
    | succ index => exact (shifted_assign_lifted second _).symm
  · exact (shifted_assign_lifted second _).symm

/-- Assigning twice is assigning once by the composition. -/
theorem assign_assign (first second : Assignment) (term : Nameless) :
    (term.assign first).assign second = term.assign (first.andThen second) := by
  induction term generalizing first second with
  | bound index => rfl
  | free name => rfl
  | lam body inductionHypothesis =>
    rw [assign, assign, assign, inductionHypothesis, Assignment.lifted_andThen]
  | app function argument functionHypothesis argumentHypothesis =>
    rw [assign, assign, assign, functionHypothesis, argumentHypothesis]

/-- A term that does not mention the innermost binder is left alone when that
    binder is removed. -/
theorem shifted_instantiate (term argument : Nameless) :
    term.shifted.instantiate argument = term := by
  rw [instantiate, shifted, assign_rename]
  exact assign_identity term

/-- Removing a binder commutes with assigning, if the assignment is lifted for
    the body of that binder. -/
theorem instantiate_assign (assignment : Assignment) (body argument : Nameless) :
    (body.instantiate argument).assign assignment =
      (body.assign assignment.lifted).instantiate (argument.assign assignment) := by
  rw [instantiate, instantiate, assign_assign, assign_assign]
  congr 1
  ext index
  · cases index with
    | zero => rfl
    | succ index => exact (shifted_instantiate (assignment.index index) _).symm
  · exact (shifted_instantiate (assignment.name _) _).symm

end Nameless

end UntypedLambda
