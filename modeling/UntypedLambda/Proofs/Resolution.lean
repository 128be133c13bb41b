import UntypedLambda.Proofs.AcyclicBindings
import UntypedLambda.Proofs.FreeNames

/-!
# Resolution of terms

In an acyclic environment every term can be resolved. Each name whose definition is being
resolved leads to all names that are put in meanwhile, so to meet one of them again would be a
cycle. What is free in the end is what the term reaches and the environment does not bind.

Every session that can be reached has an acyclic environment, so evaluating a term never fails
there, and reduction brings in no name. No bound name occurs free in a result.
-/

namespace UntypedLambda

namespace Environment

/-- The free names of the second term are those to which a path leads from the first one and that
    are not bound. -/
def LeavesUnbound (environment : Environment) (term resolved : Term) : Prop :=
  ∀ name, name ∈ resolved.freeNames ↔
    environment.get? name = none ∧ ∃ start ∈ term.freeNames, environment.Path start name

/-- From a name that is not bound no path leads anywhere else. -/
theorem eq_of_path_of_unbound {environment : Environment} {start name : Name}
    (unbound : environment.get? start = none) (path : environment.Path start name) :
    name = start := by
  rcases Relation.ReflTransGen.cases_head path with same | ⟨next, refers, _⟩
  · exact same.symm
  · exact absurd refers (not_refers_of_unbound unbound next)

/-- A bound name reaches the same names that are not bound as its definition does. -/
theorem path_iff_of_bound {environment : Environment} {name other : Name} {definition : Term}
    (bound : environment.get? name = some definition) (unbound : environment.get? other = none) :
    environment.Path name other ↔ ∃ start ∈ definition.freeNames, environment.Path start other := by
  constructor
  · intro path
    rcases Relation.ReflTransGen.cases_head path with same | ⟨start, refers, rest⟩
    · rw [same, unbound] at bound
      exact absurd bound.symm (Option.some_ne_none _)
    · exact ⟨start, (refers_iff bound start).mp refers, rest⟩
  · rintro ⟨start, occurs, path⟩
    exact .head ((refers_iff bound start).mpr occurs) path

/-- What a definition is put in for leads to all free names of the definition, and so does
    whatever led to it. -/
theorem below_definition {environment : Environment} {expanding names : List Name} {name : Name}
    {definition : Term} (bound : environment.get? name = some definition)
    (below : ∀ source ∈ expanding, ∀ other ∈ name :: names,
      Relation.TransGen environment.Refers source other) :
    ∀ source ∈ expanding ++ [name], ∀ other ∈ definition.freeNames,
      Relation.TransGen environment.Refers source other := by
  intro source among other occurs
  have refers : environment.Refers name other := (refers_iff bound other).mpr occurs
  rcases List.mem_append.mp among with outer | isName
  · exact (below source outer name List.mem_cons_self).tail refers
  · obtain rfl := List.mem_singleton.mp isName
    exact .single refers

/-- Once a bound name is replaced by its resolved definition, what is not bound is reached from
    the term as before. -/
theorem reaches_substitute_iff {environment : Environment} {name : Name} {definition inner : Term}
    (bound : environment.get? name = some definition)
    (freeInner : environment.LeavesUnbound definition inner) (term : Term) {other : Name}
    (unbound : environment.get? other = none) :
    (∃ start ∈ (term.substitute name inner).freeNames, environment.Path start other) ↔
      ∃ start ∈ term.freeNames, environment.Path start other := by
  constructor
  · rintro ⟨start, free, path⟩
    rcases (Term.mem_freeNames_substitute term name inner start).mp free with
      ⟨inTerm, _⟩ | ⟨inTerm, inInner⟩
    · exact ⟨start, inTerm, path⟩
    · obtain ⟨startUnbound, fromDefinition⟩ := (freeInner start).mp inInner
      exact ⟨name, inTerm, ((path_iff_of_bound bound startUnbound).mpr fromDefinition).trans path⟩
  · rintro ⟨start, inTerm, path⟩
    by_cases isName : start = name
    · subst isName
      have inInner := (freeInner other).mpr ⟨unbound, (path_iff_of_bound bound unbound).mp path⟩
      exact ⟨other, (Term.mem_freeNames_substitute ..).mpr (.inr ⟨inTerm, inInner⟩), .refl⟩
    · exact ⟨start, (Term.mem_freeNames_substitute ..).mpr (.inl ⟨inTerm, isName⟩), path⟩

/-- In an acyclic environment the definitions of some names can be put into a term, if each name
    whose definition is being resolved leads to all of them. If no other bound name is free in the
    term, nothing but names that are not bound is free in the end. No name is met again while its
    definition is being resolved, as it would lead to itself; and a resolved definition brings in
    no bound name, so that only the remaining ones are left. -/
theorem resolveNames_of_acyclic {environment : Environment} (acyclic : environment.Acyclic)
    (expanding names : List Name) (term : Term)
    (below : ∀ source ∈ expanding, ∀ name ∈ names, Relation.TransGen environment.Refers source name)
    (complete : ∀ name ∈ term.freeNames, environment.get? name ≠ none → name ∈ names) :
    ∃ resolved, environment.resolveNames expanding names term = .ok resolved ∧
      environment.LeavesUnbound term resolved := by
  fun_induction environment.resolveNames expanding names term with
  | case1 expanding term =>
    have unbound : ∀ name ∈ term.freeNames, environment.get? name = none :=
      fun name free => not_not.mp fun bound => List.not_mem_nil (complete name free bound)
    refine ⟨term, rfl, fun name => ⟨fun free => ⟨unbound name free, name, free, .refl⟩, ?_⟩⟩
    rintro ⟨_, start, free, path⟩
    exact eq_of_path_of_unbound (unbound start free) path ▸ free
  | case2 expanding name names term unbound inductionHypothesis =>
    refine inductionHypothesis (fun source among other member =>
      below source among other (List.mem_cons_of_mem _ member)) ?_
    intro other free bound
    refine (List.mem_cons.mp (complete other free bound)).resolve_left ?_
    rintro rfl
    exact bound unbound
  | case3 expanding name names term definition bound among =>
    exact absurd (below name among name List.mem_cons_self) (acyclic name)
  | case4 expanding name names term definition bound fresh cycle fails innerHypothesis =>
    obtain ⟨inner, resolves, _⟩ :=
      innerHypothesis (below_definition bound below) fun _ free _ => free
    cases fails.symm.trans resolves
  | case5 expanding name names term definition bound fresh inner resolves innerHypothesis
      inductionHypothesis =>
    obtain ⟨_, isInner, freeInner⟩ :=
      innerHypothesis (below_definition bound below) fun _ free _ => free
    obtain rfl := Except.ok.inj (resolves.symm.trans isInner)
    have completeRest : ∀ other ∈ (term.substitute name inner).freeNames,
        environment.get? other ≠ none → other ∈ names := by
      intro other free otherBound
      rcases (Term.mem_freeNames_substitute term name inner other).mp free with
        ⟨inTerm, different⟩ | ⟨_, inInner⟩
      · exact (List.mem_cons.mp (complete other inTerm otherBound)).resolve_left different
      · exact absurd ((freeInner other).mp inInner).1 otherBound
    obtain ⟨resolved, resolvesRest, free⟩ := inductionHypothesis (fun source among other member =>
      below source among other (List.mem_cons_of_mem _ member)) completeRest
    refine ⟨resolved, resolvesRest, fun other => (free other).trans ?_⟩
    exact and_congr_right fun unbound => reaches_substitute_iff bound freeInner term unbound

/-- In an acyclic environment every term can be resolved, and what is free then is what the term
    reaches and the environment does not bind. -/
theorem resolve_of_acyclic {environment : Environment} (acyclic : environment.Acyclic)
    (term : Term) :
    ∃ resolved, environment.resolve [] term = .ok resolved ∧
      ∀ name, name ∈ resolved.freeNames ↔
        environment.get? name = none ∧ name ∈ environment.dependencies term := by
  obtain ⟨resolved, resolves, free⟩ :=
    resolveNames_of_acyclic acyclic [] term.freeNames term (by simp)
    fun _ occurs _ => occurs
  refine ⟨resolved, resolves, fun name => ?_⟩
  rw [free name, mem_dependencies_iff]

end Environment

namespace Session

/-- In every session that can be reached, every term can be evaluated. One reduction is queued,
    and apart from what is printed nothing else changes. What is free in its term is reached by
    the term that was evaluated and is not bound. -/
theorem evaluation_is_total (session : Session) (reachable : session.Reachable fun _ => True)
    (term : Term) (source : String) :
    ∃ resolved reduction reporter, session.resolve term [] = .ok resolved ∧
      reduction = session.strategy.reduce session.limit resolved ∧
      session.evaluate term source =
        .done { session with results := session.results ++ [reduction], reporter } ∧
      ∀ name ∈ reduction.term.freeNames,
        name ∈ session.dependencies term ∧ session.environment.get? name = none := by
  have acyclic : session.environment.Acyclic :=
    acyclic_invariant.of_reachable acyclic_of_create reachable
  obtain ⟨resolved, resolvedIn, free⟩ := Environment.resolve_of_acyclic acyclic term
  have resolves : session.resolve term [] = .ok resolved := by
    rw [resolve, resolvedIn]
    rfl
  let reduction := session.strategy.reduce session.limit resolved
  have evaluates : ∃ reporter, session.evaluate term source =
      .done { session with results := session.results ++ [reduction], reporter } := by
    rw [evaluate, resolves]
    exact ⟨_, rfl⟩
  obtain ⟨reporter, evaluates⟩ := evaluates
  refine ⟨resolved, reduction, reporter, resolves, rfl, evaluates, fun name occurs => ?_⟩
  have reduces := Term.reduces_reduce session.strategy session.limit resolved
  obtain ⟨unbound, reached⟩ := (free name).mp (reduces.freeNames_subset name occurs)
  exact ⟨reached, unbound⟩

/-- The definition of `f` mentions `y`, and `f` is put in where `y` is bound, so that this binder is
    renamed. The limit ends the reduction early, and names that are not bound are left. -/
theorem evaluation_is_total_renamed :
    let start : Session := {
      path := consolePath, environment := .ofList [], limit := 1000
      strategy := .normal, results := [], exited := false
      reporter := { (Reporter.create true false).registerFile consolePath with fatal := false } }
    let load := Script.run (fun _ => none) 1
    let session := (start.add load "f = λx. g x y; g = λx. z" none "").session
    let limited := (session.add load ":limit 1" none "").session
    let term : Term := .app (.lam "y" (.app (.var "f") (.var "y"))) (.var "w")
    let reduct : Term :=
      .app (.lam "x" (.app (.app (.lam "x" (.var "z")) (.var "x")) (.var "y"))) (.var "w")
    limited.Reachable (fun _ => True) ∧
      ∃ reporter, limited.evaluate term "" =
          .done { limited with results := [⟨reduct, 1, true⟩], reporter } ∧
        ∀ name ∈ reduct.freeNames,
          name ∈ limited.dependencies term ∧ limited.environment.get? name = none := by
  intro start load session limited term reduct
  have started : start.Reachable fun _ => True := .created (Reporter.create true false) {} rfl
  have reachable : limited.Reachable fun _ => True :=
    .added (fun _ => none) 1 _ none "" (.added (fun _ => none) 1 _ none "" started)
  obtain ⟨_, reduction, reporter, _, _, evaluates, free⟩ :=
    evaluation_is_total limited reachable term ""
  have none : limited.results = [] := by decide +kernel
  have queued : (limited.evaluate term "").session.results = [⟨reduct, 1, true⟩] := by
    decide +kernel
  rw [none, List.nil_append] at evaluates
  obtain rfl : reduction = ⟨reduct, 1, true⟩ := by
    rw [evaluates] at queued
    exact List.singleton_inj.mp queued
  exact ⟨reachable, reporter, evaluates, free⟩

end Session

end UntypedLambda
