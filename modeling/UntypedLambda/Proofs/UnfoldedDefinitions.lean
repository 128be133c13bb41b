import UntypedLambda.Proofs.AlphaInvariance
import UntypedLambda.Proofs.ResolvedTerms

/-!
# Definitions unfolded by hand

A bound name in a term may be replaced by its definition before the term is evaluated. The
definition is put in as it stands, so it may bring in names that are bound themselves, and a
binder of the term may have to be renamed on account of such a name although resolution would not
have renamed it.

Resolution reads every name as what it stands for, and a bound name stands for its definition with
all names of the definition read in the same way. So both terms resolve to the same term up to the
names of bound variables, and they reduce alike under every strategy and limit.
-/

namespace UntypedLambda

namespace Environment

/-- Only the free names of a term need to be listed among those that are replaced. -/
theorem interpret_expanded_of_subset (environment : Environment) {names : List Name} {term : Term}
    (listed : ∀ name ∈ term.freeNames, name ∈ names) (meaning : Interpretation) :
    term.interpret (environment.expanded names meaning) =
      term.interpret (environment.expanded term.freeNames meaning) := by
  refine Term.interpret_congr _ _ term fun name occurs => ?_
  rw [expanded, expanded, if_pos (listed name occurs), if_pos occurs]

/-- A term and the term with a definition unfolded resolve to terms of the same meaning. With the
    definition all of its names come in, and each is read as what it stands for. -/
theorem interpret_of_unfolded {environment : Environment}
    (acyclic : environment.Acyclic) {name : Name}
    {definition : Term} (bound : environment.get? name = some definition) (term : Term)
    {resolved unfolded : Term} (resolves : environment.resolve [] term = .ok resolved)
    (resolvesToo : environment.resolve [] (term.substitute name definition) = .ok unfolded)
    (meaning : Interpretation) : unfolded.interpret meaning = resolved.interpret meaning := by
  rw [interpret_of_resolveNames acyclic resolves, interpret_of_resolveNames acyclic resolvesToo,
    Term.interpret_substitute]
  refine Term.interpret_congr _ _ term fun other occurs => ?_
  have free := Term.mem_freeNames_substitute term name definition
  by_cases same : other = name
  · subst same
    have listed : ∀ inner ∈ definition.freeNames,
        inner ∈ (term.substitute other definition).freeNames :=
      fun inner inDefinition => (free inner).mpr (.inr ⟨occurs, inDefinition⟩)
    rw [Function.update_self, interpret_expanded_of_subset environment listed,
      ← interpret_expansion acyclic bound, expanded, if_pos occurs]
  · have remains : other ∈ (term.substitute name definition).freeNames :=
      (free other).mpr (.inl ⟨occurs, same⟩)
    rw [Function.update_of_ne same, expanded, expanded, if_pos remains, if_pos occurs]

end Environment

namespace Session

/-- Evaluating a term that can be resolved queues the reduction of the resolved term. Apart from
    what is printed nothing else changes. -/
theorem evaluate_of_resolve {session : Session} {term resolved : Term}
    (resolves : session.resolve term [] = .ok resolved) (source : String) :
    ∃ reporter, session.evaluate term source = .done { session with
      results := session.results ++ [session.strategy.reduce session.limit resolved],
        reporter } := by
  rw [evaluate, resolves]
  exact ⟨_, rfl⟩

/-- In every session that can be reached, a bound name may be replaced by its definition before a
    term is resolved: both terms can be resolved, and the results are equal up to the names of
    bound variables. Under every strategy and limit both are evaluated, with the same number of
    steps, the same verdict, and terms that are equal in the same way. -/
theorem definitions_can_be_unfolded (session : Session)
    (reachable : session.Reachable fun _ => True)
    (term : Term) (name : Name) (definition : Term)
    (bound : session.environment.get? name = some definition) :
    ∃ resolved unfolded, session.resolve term [] = .ok resolved ∧
      session.resolve (term.substitute name definition) [] = .ok unfolded ∧
      Term.alphaEqual unfolded resolved = true ∧
      ∀ strategy limit source otherSource,
        let chosen := { session with strategy, limit }
        ∃ reduction other reporter otherReporter,
          chosen.evaluate term source =
            .done { chosen with results := session.results ++ [reduction], reporter } ∧
          chosen.evaluate (term.substitute name definition) otherSource =
            .done { chosen with results := session.results ++ [other], reporter := otherReporter } ∧
          Reduction.Alike other reduction := by
  have acyclic : session.environment.Acyclic :=
    acyclic_invariant.of_reachable acyclic_of_create reachable
  obtain ⟨resolved, resolves, _⟩ := Environment.resolve_of_acyclic acyclic term
  obtain ⟨unfolded, resolvesToo, _⟩ :=
    Environment.resolve_of_acyclic acyclic (term.substitute name definition)
  have same : Term.alphaEqual unfolded resolved = true := by
    rw [Term.alphaEqual_iff_nameless, Term.nameless_eq_interpret, Term.nameless_eq_interpret]
    exact Environment.interpret_of_unfolded acyclic bound term resolves resolvesToo .free
  rw [← resolve_eq_ok_iff] at resolves resolvesToo
  refine ⟨resolved, unfolded, resolves, resolvesToo, same, ?_⟩
  intro strategy limit source otherSource chosen
  have chosenResolves : chosen.resolve term [] = .ok resolved := resolves
  have chosenResolvesToo : chosen.resolve (term.substitute name definition) [] = .ok unfolded :=
    resolvesToo
  obtain ⟨reporter, evaluates⟩ := evaluate_of_resolve chosenResolves source
  obtain ⟨otherReporter, evaluatesToo⟩ := evaluate_of_resolve chosenResolvesToo otherSource
  have alike := Reduction.alike_continued strategy.step (Term.sameStep_step strategy) limit
    unfolded resolved 0 same
  exact ⟨_, _, reporter, otherReporter, evaluates, evaluatesToo, alike⟩

/-- The definition of `a` mentions the bound name `y`, which the binder of the term would capture if
    the definition were put in as it stands. Once it is resolved, there is nothing to capture. -/
theorem definitions_can_be_unfolded_renamed :
    let start : Session := {
      path := consolePath, environment := .ofList [], limit := 1000
      strategy := .normal, results := [], exited := false
      reporter := { (Reporter.create true false).registerFile consolePath with fatal := false } }
    let definition : Term := .lam "x" (.app (.var "x") (.var "y"))
    let session := ((start.bind "y" (.var "z") "").session.bind "a" definition "").session
    let term : Term := .lam "y" (.app (.var "a") (.var "y"))
    let resolved (param : Name) : Term :=
      .lam param (.app (.lam "x" (.app (.var "x") (.var "z"))) (.var param))
    session.Reachable (fun _ => True) ∧ session.environment.get? "a" = some definition ∧
      session.resolve term [] = .ok (resolved "y") ∧
      session.resolve (term.substitute "a" definition) [] = .ok (resolved "y₀") ∧
      Term.alphaEqual (resolved "y₀") (resolved "y") = true := by
  intro start definition session term resolved
  have started : start.Reachable fun _ => True := .created (Reporter.create true false) {} rfl
  have reachable : session.Reachable fun _ => True :=
    .bound _ _ _ (.bound _ _ _ started trivial) trivial
  have bound : session.environment.get? "a" = some definition := by decide +kernel
  have direct : (session.resolve term []).toOption = some (resolved "y") := by decide +kernel
  have byHand : (session.resolve (term.substitute "a" definition) []).toOption =
      some (resolved "y₀") := by decide +kernel
  obtain ⟨_, _, resolves, resolvesToo, same, _⟩ :=
    definitions_can_be_unfolded session reachable term "a" definition bound
  rw [resolves] at direct
  rw [resolvesToo] at byHand
  obtain rfl := Option.some.inj direct
  obtain rfl := Option.some.inj byHand
  exact ⟨reachable, bound, resolves, resolvesToo, same⟩

end Session

end UntypedLambda
