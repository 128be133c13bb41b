import UntypedLambda.Proofs.ReachedNames

/-!
# Names that refer to names

The names that a term reaches are those to which a path of references leads from its free names.
Binding a name changes the references of that name only. A path to the name is therefore the same
before and after, and a cycle that binding brings about leads through the name. This decides, from
the environment before, whether binding keeps it acyclic, whatever the name referred to so far.
-/

namespace UntypedLambda.Environment

/-- Any number of references, one after the other. -/
abbrev Path (environment : Environment) : Name → Name → Prop :=
  Relation.ReflTransGen environment.Refers

/-- No name refers to itself, neither directly nor through other names. -/
def Acyclic (environment : Environment) : Prop :=
  ∀ name, ¬ Relation.TransGen environment.Refers name name

/-- A term reaches exactly the names to which a path leads from its free names. -/
theorem mem_dependencies_iff (environment : Environment) (term : Term) (name : Name) :
    name ∈ environment.dependencies term ↔
      ∃ start ∈ term.freeNames, environment.Path start name := by
  obtain ⟨saturated, least⟩ := environment.isLeast_dependencies term
  constructor
  · have paths : environment.Saturated term
        {name | ∃ start ∈ term.freeNames, environment.Path start name} := by
      constructor
      · exact fun name occurs => ⟨name, occurs, .refl⟩
      · rintro name ⟨start, occurs, path⟩ definition bound other mentioned
        exact ⟨start, occurs, path.tail ((refers_iff bound other).mpr mentioned)⟩
    exact fun found => least paths found
  · rintro ⟨start, occurs, path⟩
    induction path with
    | refl => exact saturated.free start occurs
    | tail _ refers inductionHypothesis => exact saturated.refers inductionHypothesis refers

/-- Binding a name makes it refer to the free names of the term. -/
theorem references_set_self (environment : Environment) (name : Name) (term : Term) :
    Environment.references (environment.set name term) name = term.freeNames := by
  rw [references, OrderedMap.get?_set, if_pos rfl]

/-- Binding a name leaves what other names refer to. -/
theorem references_set_of_ne (environment : Environment) (name source : Name) (term : Term)
    (different : source ≠ name) :
    Environment.references (environment.set name term) source = environment.references source := by
  rw [references, OrderedMap.get?_set, if_neg different, references]

/-- A path to a name uses none of the references of that name, so it is there in
    every environment in which all other names refer to the same. -/
theorem path_of_agree (environment other : Environment) (start name : Name)
    (agree : ∀ source, source ≠ name → environment.references source = other.references source)
    (path : environment.Path start name) : other.Path start name := by
  induction path using Relation.ReflTransGen.head_induction_on with
  | refl => exact .refl
  | @head source next refers _ inductionHypothesis =>
    by_cases arrived : source = name
    · exact arrived ▸ .refl
    · refine .head ?_ inductionHypothesis
      rw [Refers, ← agree source arrived]
      exact refers

/-- Binding a name changes no path to that name. -/
theorem path_set_iff (environment : Environment) (name start : Name) (term : Term) :
    Path (environment.set name term) start name ↔ environment.Path start name := by
  constructor
  · exact path_of_agree _ _ start name fun source different =>
      references_set_of_ne environment name source term different
  · exact path_of_agree _ _ start name fun source different =>
      (references_set_of_ne environment name source term different).symm

/-- After binding a name, one or more references lead where they led before, or
    they lead to the name and from there on. -/
theorem transGen_set (environment : Environment) (name source target : Name) (term : Term)
    (path : Relation.TransGen (Refers (environment.set name term)) source target) :
    Relation.TransGen environment.Refers source target ∨
      Path (environment.set name term) source name ∧
        Relation.TransGen (Refers (environment.set name term)) name target := by
  induction path with
  | @single target refers =>
    by_cases bound : source = name
    · subst bound
      exact .inr ⟨.refl, .single refers⟩
    · rw [Refers, references_set_of_ne environment name source term bound] at refers
      exact .inl (.single refers)
  | @tail middle target path refers inductionHypothesis =>
    rcases inductionHypothesis with before | ⟨toName, fromName⟩
    · by_cases bound : middle = name
      · subst bound
        exact .inr ⟨path.to_reflTransGen, .single refers⟩
      · rw [Refers, references_set_of_ne environment name middle term bound] at refers
        exact .inl (before.tail refers)
    · exact .inr ⟨toName, fromName.tail refers⟩

/-- Binding a name to a term brings about a cycle exactly if the term reached the
    name before. Such a cycle passes through the name, so it can be turned around to
    begin there. -/
theorem acyclic_set_iff (environment : Environment) (acyclic : environment.Acyclic) (name : Name)
    (term : Term) :
    Acyclic (environment.set name term) ↔ name ∉ environment.dependencies term := by
  rw [mem_dependencies_iff]
  constructor
  · rintro stillAcyclic ⟨start, occurs, path⟩
    have first : Refers (environment.set name term) name start := by
      rwa [Refers, references_set_self]
    exact stillAcyclic name (.head' first ((path_set_iff environment name start term).mpr path))
  · intro unreached source cycle
    rcases transGen_set environment name source source term cycle with before | ⟨toName, fromName⟩
    · exact acyclic source before
    · have turned : Relation.TransGen (Refers (environment.set name term)) name name :=
        fromName.trans_left toName
      obtain ⟨start, first, path⟩ := Relation.TransGen.head'_iff.mp turned
      rw [Refers, references_set_self] at first
      exact unreached ⟨start, first, (path_set_iff environment name start term).mp path⟩

/-- An environment of definitions without free names is acyclic. -/
theorem acyclic_of_closed (environment : Environment)
    (closed : ∀ name definition, environment.get? name = some definition →
      definition.freeNames = []) :
    environment.Acyclic := by
  intro name cycle
  obtain ⟨other, refers, _⟩ := Relation.TransGen.head'_iff.mp cycle
  cases bound : environment.get? name with
  | none => exact not_refers_of_unbound bound other refers
  | some definition =>
    rw [refers_iff bound, closed name definition bound] at refers
    exact List.not_mem_nil refers

end UntypedLambda.Environment
