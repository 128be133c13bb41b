import UntypedLambda.OrderedMap
import UntypedLambda.Term

/-!
# Environments

An environment binds names to terms. A definition may mention names that are
bound earlier, later or not at all. Two things are computed from it: the names
that a term reaches through definitions, and the term with all definitions put
in.

Environments with cycles are values like any other. Reaching names comes to an
end in them, and resolution reports the cycle that it runs into.
-/

namespace UntypedLambda

/-- Terms by name, in the order in which the names were first bound. -/
abbrev Environment := OrderedMap Name Term

namespace Environment

/-- The free names of all definitions of names outside a list, and one more for
    each of these definitions. It bounds what is still to be followed. -/
def weightOutside (entries : List (Name × Term)) (names : List Name) : Nat :=
  match entries with
  | [] => 0
  | (name, definition) :: rest =>
    (if name ∈ names then 0 else definition.freeNames.length + 1) + weightOutside rest names

/-- More names in the list leave no more weight outside. -/
theorem weightOutside_le (entries : List (Name × Term)) (names more : List Name)
    (included : ∀ name ∈ names, name ∈ more) :
    weightOutside entries more ≤ weightOutside entries names := by
  induction entries with
  | nil => exact Nat.le_refl _
  | cons entry rest inductionHypothesis =>
    obtain ⟨name, definition⟩ := entry
    unfold weightOutside
    by_cases inside : name ∈ names
    · simp only [inside, included name inside, if_true]
      omega
    · by_cases joined : name ∈ more <;> simp only [inside, joined, if_true, if_false] <;> omega

/-- A name that joins the list takes the weight of its definition with it. -/
theorem weightOutside_lt (entries : List (Name × Term)) (name : Name) (definition : Term)
    (names more : List Name) (included : ∀ other ∈ names, other ∈ more) (member : name ∈ more)
    (found : entries.lookup name = some definition) (fresh : name ∉ names) :
    weightOutside entries more + definition.freeNames.length < weightOutside entries names := by
  induction entries with
  | nil => simp at found
  | cons entry rest inductionHypothesis =>
    obtain ⟨key, value⟩ := entry
    unfold weightOutside
    have tail := weightOutside_le rest names more included
    rw [List.lookup_cons] at found
    split at found
    · rename_i same
      have sameKey : name = key := by simpa using same
      have sameValue : value = definition := by simpa using found
      rw [← sameKey, if_pos member, if_neg fresh, sameValue]
      omega
    · have smaller := inductionHypothesis found
      by_cases inside : key ∈ names
      · simp only [inside, included key inside, if_true]
        omega
      · by_cases joined : key ∈ more <;> simp only [inside, joined, if_true, if_false] <;> omega

/-- Extend a set of names by pending ones and by all that they reach. Names that
    have been reached already are not followed again. Every step either uses up
    a pending name or trades a definition for the names that it mentions. -/
def reachFrom (environment : Environment) (reached : List Name) : List Name → List Name
  | [] => reached
  | name :: pending =>
    if name ∈ reached then reachFrom environment reached pending
    else
      match _found : environment.get? name with
      | some definition =>
        reachFrom environment (name :: reached) (definition.freeNames ++ pending)
      | none => reachFrom environment (name :: reached) pending
termination_by pending => weightOutside environment.entries reached + pending.length
decreasing_by
  · simp only [List.length_cons]
    omega
  · rename_i fresh
    have less := weightOutside_lt environment.entries name definition reached (name :: reached)
      (fun _ member => List.mem_cons_of_mem _ member) List.mem_cons_self _found fresh
    simp only [List.length_cons, List.length_append]
    omega
  · have less := weightOutside_le environment.entries reached (name :: reached)
      (fun _ member => List.mem_cons_of_mem _ member)
    simp only [List.length_cons]
    omega

/-- The names that a term reaches: its free names, and those that the definition
    of a reached name mentions. Names that are not bound are among them. -/
def dependencies (environment : Environment) (term : Term) : List Name :=
  environment.reachFrom [] term.freeNames

/-- A cycle that resolution has run into: the names on the way down, the last
    of which occurs before in the chain. -/
structure Cycle where
  name : Name
  chain : List Name
  deriving DecidableEq, Repr

/-- Put the definitions of some names into a term, one after the other. The
    definitions are resolved themselves before they are put in; `expanding` holds
    the names whose definitions are being resolved. -/
def resolveNames (environment : Environment) (expanding : List Name) :
    (names : List Name) → Term → Except Cycle Term
  | [], term => .ok term
  | name :: names, term =>
    match _found : environment.get? name with
    | none => resolveNames environment expanding names term
    | some definition =>
      if name ∈ expanding then .error ⟨name, expanding ++ [name]⟩
      else
        match resolveNames environment (expanding ++ [name]) definition.freeNames definition with
        | .error cycle => .error cycle
        | .ok resolved =>
          resolveNames environment expanding names (term.substitute name resolved)
termination_by names => weightOutside environment.entries expanding + names.length
decreasing_by
  · simp only [List.length_cons]
    omega
  · rename_i fresh
    have less := weightOutside_lt environment.entries name definition expanding
      (expanding ++ [name]) (fun _ member => List.mem_append_left _ member) (by simp) _found fresh
    simp only [List.length_cons]
    omega
  · simp only [List.length_cons]
    omega

/-- The term with the definitions of all its free names put in, and so on in
    the definitions, in ascending order of names. -/
def resolve (environment : Environment) (expanding : List Name) (term : Term) : Except Cycle Term :=
  environment.resolveNames expanding term.freeNames term

/-- Resolution passes by a name that is not bound. A bound name ends it if its
    definition is being resolved already, and is replaced by its resolved
    definition otherwise. -/
theorem resolveNames_cons (environment : Environment) (expanding : List Name) (name : Name)
    (names : List Name) (term : Term) :
    environment.resolveNames expanding (name :: names) term =
      match environment.get? name with
      | none => environment.resolveNames expanding names term
      | some definition =>
        if name ∈ expanding then .error ⟨name, expanding ++ [name]⟩
        else (environment.resolve (expanding ++ [name]) definition).bind fun resolved =>
          environment.resolveNames expanding names (term.substitute name resolved) := by
  rw [resolveNames]
  split
  · rename_i unbound
    rw [unbound]
  · rename_i definition bound
    rw [bound]
    dsimp only [resolve]
    cases environment.resolveNames (expanding ++ [name]) definition.freeNames definition <;> rfl

end Environment

end UntypedLambda
