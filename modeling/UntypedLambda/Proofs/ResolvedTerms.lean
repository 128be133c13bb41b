import UntypedLambda.Proofs.Resolution
import UntypedLambda.Proofs.SimultaneousSubstitution

/-!
# What resolution puts in

Resolution replaces one name after the other. In an acyclic environment this amounts to a
simultaneous substitution of all bound names by their resolved definitions, since no bound name
comes in with a resolved definition. For the same reason the names may be gone through in any
order, in the term and in every definition: the terms that result differ in the names of bound
variables only.
-/

namespace UntypedLambda

namespace Environment

/-- What a name stands for: its resolved definition, or itself if it is not bound. A name whose
    definition cannot be resolved stands for itself, too. -/
def expansion (environment : Environment) (name : Name) : Term :=
  match environment.get? name with
  | none => .var name
  | some definition =>
    match environment.resolve [] definition with
    | .ok resolved => resolved
    | .error _ => .var name

/-- A name that is not bound stands for itself. -/
theorem expansion_of_unbound {environment : Environment} {name : Name}
    (unbound : environment.get? name = none) : environment.expansion name = .var name := by
  rw [expansion, unbound]

/-- In an acyclic environment a bound name stands for its resolved definition. -/
theorem resolve_definition {environment : Environment} (acyclic : environment.Acyclic) {name : Name}
    {definition : Term} (bound : environment.get? name = some definition) :
    environment.resolve [] definition = .ok (environment.expansion name) := by
  obtain ⟨resolved, resolves, _⟩ := resolve_of_acyclic acyclic definition
  rw [expansion, bound]
  dsimp only
  rw [resolves]

/-- What a bound name stands for mentions no bound name. -/
theorem unbound_of_mem_expansion {environment : Environment} (acyclic : environment.Acyclic)
    {name : Name} {definition : Term} (bound : environment.get? name = some definition)
    {other : Name}
    (occurs : other ∈ (environment.expansion name).freeNames) : environment.get? other = none := by
  obtain ⟨resolved, resolves, free⟩ := resolve_of_acyclic acyclic definition
  obtain rfl := Except.ok.inj (resolves.symm.trans (resolve_definition acyclic bound))
  exact ((free other).mp occurs).1

/-- The meanings of names once some of them are replaced by what they stand for. -/
def expanded (environment : Environment) (names : List Name) (meaning : Interpretation) :
    Interpretation :=
  fun name => if name ∈ names then (environment.expansion name).interpret meaning else meaning name

/-- For a name that is not bound nothing changes. -/
theorem expanded_cons_of_unbound {environment : Environment} {name : Name}
    (unbound : environment.get? name = none) (names : List Name) (meaning : Interpretation) :
    environment.expanded (name :: names) meaning = environment.expanded names meaning := by
  funext other
  by_cases same : other = name
  · subst same
    simp [expanded, expansion_of_unbound unbound, Term.interpret]
  · simp [expanded, same]

/-- It does not matter in which order the names are listed. -/
theorem expanded_perm (environment : Environment) {names others : List Name}
    (perm : names.Perm others)
    (meaning : Interpretation) :
    environment.expanded names meaning = environment.expanded others meaning := by
  funext name
  simp only [expanded, perm.mem_iff]

/-- Once a bound name is replaced by a term that means what the name stands for, the remaining
    names can be replaced without regard to what came in. -/
theorem interpret_substitute_expanded {environment : Environment} (acyclic : environment.Acyclic)
    {name : Name} {definition resolved : Term} (bound : environment.get? name = some definition)
    (means : ∀ meaning, resolved.interpret meaning = (environment.expansion name).interpret meaning)
    (names : List Name) (term : Term) (meaning : Interpretation) :
    (term.substitute name resolved).interpret (environment.expanded names meaning) =
      term.interpret (environment.expanded (name :: names) meaning) := by
  have inside : (environment.expansion name).interpret (environment.expanded names meaning) =
      (environment.expansion name).interpret meaning := by
    refine Term.interpret_congr _ _ _ fun other occurs => ?_
    have unbound : environment.get? other = none := unbound_of_mem_expansion acyclic bound occurs
    rw [expanded, expansion_of_unbound unbound, Term.interpret, ite_self]
  rw [Term.interpret_substitute, means, inside]
  congr 1
  funext other
  by_cases same : other = name
  · rw [same, Function.update_self, expanded, if_pos List.mem_cons_self]
  · rw [Function.update_of_ne same, expanded, expanded]
    simp [same]

/-- A name that is not bound is passed by. -/
theorem resolveNames_cons_of_unbound {environment : Environment} {name : Name}
    (unbound : environment.get? name = none) (expanding names : List Name) (term : Term) :
    environment.resolveNames expanding (name :: names) term =
      environment.resolveNames expanding names term := by
  rw [resolveNames_cons, unbound]

/-- A bound name whose definition can be resolved is replaced by what that gives. -/
theorem resolveNames_cons_of_bound {environment : Environment} {expanding : List Name} {name : Name}
    {definition inner : Term} (bound : environment.get? name = some definition)
    (fresh : name ∉ expanding)
    (resolves : environment.resolveNames (expanding ++ [name]) definition.freeNames definition =
      .ok inner)
    (names : List Name) (term : Term) :
    environment.resolveNames expanding (name :: names) term =
      environment.resolveNames expanding names (term.substitute name inner) := by
  rw [resolveNames_cons, bound]
  dsimp only
  rw [if_neg fresh, resolve, resolves]
  rfl

/-- With fewer names being expanded, definitions that could be put in still can be, with the
    same result. -/
theorem resolveNames_of_subset {environment : Environment} {expanding fewer names : List Name}
    {term result : Term} (included : ∀ name ∈ fewer, name ∈ expanding)
    (resolves : environment.resolveNames expanding names term = .ok result) :
    environment.resolveNames fewer names term = .ok result := by
  fun_induction environment.resolveNames expanding names term generalizing fewer result with
  | case1 expanding term =>
    rw [resolveNames]
    exact resolves
  | case2 expanding name names term unbound inductionHypothesis =>
    rw [resolveNames_cons_of_unbound unbound]
    exact inductionHypothesis included resolves
  | case3 => cases resolves
  | case4 => cases resolves
  | case5 expanding name names term definition bound fresh inner resolvesInner innerHypothesis
      inductionHypothesis =>
    have includedInner : ∀ other ∈ fewer ++ [name], other ∈ expanding ++ [name] :=
      fun other member => List.mem_append.mpr
        ((List.mem_append.mp member).imp_left (included other))
    have freshToo : name ∉ fewer := fun member => fresh (included name member)
    rw [resolveNames_cons_of_bound bound freshToo (innerHypothesis includedInner resolvesInner)]
    exact inductionHypothesis included resolves

/-- The definitions of bound names are put in as if each name meant what it stands for. While other
    names are being resolved, a definition resolves to the same term as on its own. -/
theorem interpret_of_resolveNames {environment : Environment} (acyclic : environment.Acyclic)
    {expanding names : List Name} {term result : Term}
    (resolves : environment.resolveNames expanding names term = .ok result)
    (meaning : Interpretation) :
    result.interpret meaning = term.interpret (environment.expanded names meaning) := by
  fun_induction environment.resolveNames expanding names term generalizing result with
  | case1 expanding term =>
    obtain rfl := Except.ok.inj resolves
    rfl
  | case2 expanding name names term unbound inductionHypothesis =>
    rw [inductionHypothesis resolves, expanded_cons_of_unbound unbound]
  | case3 => cases resolves
  | case4 => cases resolves
  | case5 expanding name names term definition bound fresh inner resolvesInner _
      inductionHypothesis =>
    have alone : environment.resolve [] definition = .ok inner :=
      resolveNames_of_subset (by simp) resolvesInner
    obtain rfl := Except.ok.inj (alone.symm.trans (resolve_definition acyclic bound))
    rw [inductionHypothesis resolves]
    exact interpret_substitute_expanded acyclic bound (fun _ => rfl) names term meaning

/-- A name that stands for its definition means what the definition means, with all its names
    meaning what they stand for. -/
theorem interpret_expansion {environment : Environment} (acyclic : environment.Acyclic)
    {name : Name} {definition : Term} (bound : environment.get? name = some definition)
    (meaning : Interpretation) :
    (environment.expansion name).interpret meaning =
      definition.interpret (environment.expanded definition.freeNames meaning) :=
  interpret_of_resolveNames acyclic (resolve_definition acyclic bound) meaning

/-- A term in which no bound name is free is resolved already. -/
theorem resolveNames_of_unbound {environment : Environment}
    (expanding names : List Name) (term : Term)
    (unbound : ∀ name ∈ names, environment.get? name = none) :
    environment.resolveNames expanding names term = .ok term := by
  induction names with
  | nil => rw [resolveNames]
  | cons name names inductionHypothesis =>
    rw [resolveNames_cons_of_unbound (unbound name List.mem_cons_self)]
    exact inductionHypothesis fun other member => unbound other (List.mem_cons_of_mem _ member)

end Environment

/-- An order in which to go through the free names of every term. It may be another one while the
    definitions of other names are being resolved. -/
structure NameOrder where
  names : (expanding : List Name) → Term → List Name
  perm (expanding : List Name) (term : Term) : (names expanding term).Perm term.freeNames

namespace NameOrder

/-- The order in which resolution goes through them. -/
def ascending : NameOrder :=
  ⟨fun _ term => term.freeNames, fun _ _ => .refl _⟩

/-- The opposite order. -/
def descending : NameOrder :=
  ⟨fun _ term => term.freeNames.reverse, fun _ term => term.freeNames.reverse_perm⟩

end NameOrder

namespace Environment

/-- Put the definitions of some names into a term as resolution does, but go through the names of
    each definition in a given order. -/
def resolveNamesIn (environment : Environment) (order : NameOrder) (expanding : List Name) :
    (names : List Name) → Term → Except Cycle Term
  | [], term => .ok term
  | name :: names, term =>
    match _found : environment.get? name with
    | none => resolveNamesIn environment order expanding names term
    | some definition =>
      if name ∈ expanding then .error ⟨name, expanding ++ [name]⟩
      else
        match resolveNamesIn environment order (expanding ++ [name])
          (order.names (expanding ++ [name]) definition) definition with
        | .error cycle => .error cycle
        | .ok resolved =>
          resolveNamesIn environment order expanding names (term.substitute name resolved)
termination_by names => weightOutside environment.entries expanding + names.length
decreasing_by
  · simp only [List.length_cons]
    omega
  · rename_i fresh
    have less := weightOutside_lt environment.entries name definition expanding
      (expanding ++ [name]) (fun _ member => List.mem_append_left _ member) (by simp) _found fresh
    simp only [List.length_cons, (order.perm _ definition).length_eq]
    omega
  · simp only [List.length_cons]
    omega

/-- The term with the definitions of all its free names put in, in a given order. -/
def resolveIn (environment : Environment) (order : NameOrder) (expanding : List Name)
    (term : Term) :
    Except Cycle Term :=
  environment.resolveNamesIn order expanding (order.names expanding term) term

/-- What happens to the first name: it is passed by, runs into a cycle, or is replaced. -/
theorem resolveNamesIn_cons (environment : Environment) (order : NameOrder)
    (expanding : List Name) (name : Name) (names : List Name) (term : Term) :
    environment.resolveNamesIn order expanding (name :: names) term =
      match environment.get? name with
      | none => environment.resolveNamesIn order expanding names term
      | some definition =>
        if name ∈ expanding then .error ⟨name, expanding ++ [name]⟩
        else (environment.resolveIn order (expanding ++ [name]) definition).bind fun resolved =>
          environment.resolveNamesIn order expanding names (term.substitute name resolved) := by
  rw [resolveNamesIn]
  split
  · rename_i unbound
    rw [unbound]
  · rename_i definition bound
    rw [bound]
    dsimp only [resolveIn]
    cases environment.resolveNamesIn order (expanding ++ [name])
      (order.names (expanding ++ [name]) definition) definition <;> rfl

/-- In ascending order, this is resolution. -/
theorem resolveIn_ascending (environment : Environment) (expanding : List Name) (term : Term) :
    environment.resolveIn .ascending expanding term = environment.resolve expanding term := by
  have sameNames (names : List Name) :
      environment.resolveNamesIn .ascending expanding names term =
        environment.resolveNames expanding names term := by
    fun_induction environment.resolveNames expanding names term with
    | case1 expanding term => rw [resolveNamesIn]
    | case2 expanding name names term unbound inductionHypothesis =>
      rw [resolveNamesIn_cons, unbound]
      exact inductionHypothesis
    | case3 expanding name names term definition bound among =>
      rw [resolveNamesIn_cons, bound]
      exact if_pos among
    | case4 expanding name names term definition bound fresh cycle fails innerHypothesis =>
      have failsToo : environment.resolveIn .ascending (expanding ++ [name]) definition =
          .error cycle :=
        innerHypothesis.trans fails
      rw [resolveNamesIn_cons, bound]
      dsimp only
      rw [if_neg fresh, failsToo]
      rfl
    | case5 expanding name names term definition bound fresh inner resolves innerHypothesis
        inductionHypothesis =>
      have resolvesToo : environment.resolveIn .ascending (expanding ++ [name]) definition =
          .ok inner :=
        innerHypothesis.trans resolves
      rw [resolveNamesIn_cons, bound]
      dsimp only
      rw [if_neg fresh, resolvesToo]
      exact inductionHypothesis
  exact sameNames term.freeNames

/-- What a definition is put in for leads to all names that are gone through in it. -/
theorem below_ordered (order : NameOrder) {environment : Environment} {expanding names : List Name}
    {name : Name} {definition : Term} (bound : environment.get? name = some definition)
    (below : ∀ source ∈ expanding, ∀ other ∈ name :: names,
      Relation.TransGen environment.Refers source other) :
    ∀ source ∈ expanding ++ [name], ∀ other ∈ order.names (expanding ++ [name]) definition,
      Relation.TransGen environment.Refers source other := by
  intro source among other member
  exact below_definition bound below source among other
    ((order.perm _ definition).mem_iff.mp member)

/-- Whatever the order, the definitions of some names can be put in, if each name whose definition
    is being resolved leads to all of them. Then each name means what it stands for. -/
theorem resolveNamesIn_of_acyclic {environment : Environment} (acyclic : environment.Acyclic)
    (order : NameOrder) (expanding names : List Name) (term : Term)
    (below : ∀ source ∈ expanding, ∀ name ∈ names,
      Relation.TransGen environment.Refers source name) :
    ∃ result, environment.resolveNamesIn order expanding names term = .ok result ∧
      ∀ meaning, result.interpret meaning =
        term.interpret (environment.expanded names meaning) := by
  fun_induction environment.resolveNamesIn order expanding names term with
  | case1 expanding term => exact ⟨term, rfl, fun _ => rfl⟩
  | case2 expanding name names term unbound inductionHypothesis =>
    obtain ⟨result, resolves, means⟩ := inductionHypothesis fun source among other member =>
      below source among other (List.mem_cons_of_mem _ member)
    refine ⟨result, resolves, fun meaning => ?_⟩
    rw [means, expanded_cons_of_unbound unbound]
  | case3 expanding name names term definition bound among =>
    exact absurd (below name among name List.mem_cons_self) (acyclic name)
  | case4 expanding name names term definition bound fresh cycle fails innerHypothesis =>
    obtain ⟨inner, resolves, _⟩ := innerHypothesis (below_ordered order bound below)
    cases fails.symm.trans resolves
  | case5 expanding name names term definition bound fresh inner resolves innerHypothesis
      inductionHypothesis =>
    obtain ⟨_, isInner, means⟩ := innerHypothesis (below_ordered order bound below)
    obtain rfl := Except.ok.inj (resolves.symm.trans isInner)
    obtain ⟨result, resolvesRest, meansRest⟩ := inductionHypothesis fun source among other member =>
      below source among other (List.mem_cons_of_mem _ member)
    have meansExpansion (meaning : Interpretation) :
        inner.interpret meaning = (environment.expansion name).interpret meaning := by
      rw [means, interpret_expansion acyclic bound,
        expanded_perm environment (order.perm _ definition)]
    refine ⟨result, resolvesRest, fun meaning => ?_⟩
    rw [meansRest]
    exact interpret_substitute_expanded acyclic bound meansExpansion names term meaning

/-- Whatever the order, every term can be resolved in an acyclic environment. Up to the names of
    bound variables, the result is the term with all names replaced at once by what they stand
    for. -/
theorem resolveIn_of_acyclic {environment : Environment} (acyclic : environment.Acyclic)
    (order : NameOrder) (term : Term) :
    ∃ result, environment.resolveIn order [] term = .ok result ∧
      result.nameless = (term.substituteAll environment.expansion).nameless := by
  obtain ⟨result, resolves, means⟩ :=
    resolveNamesIn_of_acyclic acyclic order [] (order.names [] term) term (by simp)
  refine ⟨result, resolves, ?_⟩
  rw [Term.nameless_eq_interpret, Term.nameless_eq_interpret, means, Term.interpret_substituteAll]
  refine Term.interpret_congr _ _ term fun name occurs => ?_
  rw [expanded, if_pos ((order.perm [] term).mem_iff.mpr occurs)]

end Environment

namespace Session

/-- A session resolves a term to what its environment resolves it to. -/
theorem resolve_eq_ok_iff (session : Session) (term resolved : Term) (expanding : List Name) :
    session.resolve term expanding = .ok resolved ↔
      session.environment.resolve expanding term = .ok resolved := by
  rw [resolve]
  cases session.environment.resolve expanding term <;> simp [Except.mapError]

/-- In every session that can be reached, every term can be resolved. What is free then is what
    the term reaches and is not bound, so nothing changes if that is resolved again. Up to the
    names of bound variables, the result is the term with all names replaced at once: those that
    are bound by their resolved definitions, and all others by themselves. So it does not matter
    in which order the names are gone through. -/
theorem resolution_is_simultaneous (session : Session) (reachable : session.Reachable fun _ => True)
    (term : Term) :
    ∃ resolved, session.resolve term [] = .ok resolved ∧
      (∀ name, name ∈ resolved.freeNames ↔
        name ∈ session.dependencies term ∧ session.environment.get? name = none) ∧
      session.resolve resolved [] = .ok resolved ∧
      (∀ name definition, session.environment.get? name = some definition →
        session.resolve definition [] = .ok (session.environment.expansion name)) ∧
      (∀ name, session.environment.get? name = none →
        session.environment.expansion name = .var name) ∧
      Term.alphaEqual resolved (term.substituteAll session.environment.expansion) = true ∧
      ∀ order, ∃ other, session.environment.resolveIn order [] term = .ok other ∧
        Term.alphaEqual other resolved = true := by
  have acyclic : session.environment.Acyclic :=
    acyclic_invariant.of_reachable acyclic_of_create reachable
  obtain ⟨resolved, resolves, free⟩ := Environment.resolve_of_acyclic acyclic term
  obtain ⟨_, ascends, same⟩ := Environment.resolveIn_of_acyclic acyclic .ascending term
  rw [Environment.resolveIn_ascending] at ascends
  obtain rfl := Except.ok.inj (resolves.symm.trans ascends)
  simp only [resolve_eq_ok_iff, Term.alphaEqual_iff_nameless]
  refine ⟨resolved, resolves, fun name => (free name).trans And.comm, ?_,
    fun _ _ bound => Environment.resolve_definition acyclic bound,
    fun _ unbound => Environment.expansion_of_unbound unbound, same, fun order => ?_⟩
  · exact Environment.resolveNames_of_unbound [] _ _ fun name occurs => ((free name).mp occurs).1
  · obtain ⟨other, resolvesIn, otherSame⟩ := Environment.resolveIn_of_acyclic acyclic order term
    exact ⟨other, resolvesIn, otherSame.trans same.symm⟩

/-- If `a` goes first, the binder is renamed while the bound name `y₀` is still there. If `y₀` goes
    first, its name is free to be taken. -/
theorem resolution_is_simultaneous_descending :
    let start : Session := {
      path := consolePath, environment := .ofList [], limit := 1000
      strategy := .normal, results := [], exited := false
      reporter := { (Reporter.create true false).registerFile consolePath with fatal := false } }
    let session :=
      ((start.bind "y₀" (.app (.var "c") (.var "b")) "").session.bind "a" (.var "y") "").session
    let term : Term := .lam "y" (.app (.app (.var "a") (.var "y₀")) (.var "y"))
    let resolved (param : Name) : Term :=
      .lam param (.app (.app (.var "y") (.app (.var "c") (.var "b"))) (.var param))
    session.Reachable (fun _ => True) ∧
      session.resolve term [] = .ok (resolved "y₁") ∧
      session.resolve (resolved "y₁") [] = .ok (resolved "y₁") ∧
      session.environment.resolveIn .descending [] term = .ok (resolved "y₀") ∧
      Term.alphaEqual (resolved "y₀") (resolved "y₁") = true := by
  intro start session term resolved
  have started : start.Reachable fun _ => True := .created (Reporter.create true false) {} rfl
  have reachable : session.Reachable fun _ => True :=
    .bound _ _ _ (.bound _ _ _ started trivial) trivial
  have ascends : (session.resolve term []).toOption = some (resolved "y₁") := by decide +kernel
  have descends : (session.environment.resolveIn .descending [] term).toOption =
      some (resolved "y₀") := by decide +kernel
  obtain ⟨_, resolves, _, again, _, _, _, orders⟩ :=
    resolution_is_simultaneous session reachable term
  rw [resolves] at ascends
  obtain rfl := Option.some.inj ascends
  obtain ⟨_, resolvesIn, same⟩ := orders .descending
  rw [resolvesIn] at descends
  obtain rfl := Option.some.inj descends
  exact ⟨reachable, resolves, again, resolvesIn, same⟩

end Session

end UntypedLambda
