import Mathlib.Data.List.Chain
import UntypedLambda.Proofs.Dependencies
import UntypedLambda.Session

/-!
# Cycles that resolution reports

Bindings may be cyclic if they did not come about by binding one name after the other. Resolution
comes to an end all the same: definitions are resolved inside of definitions only as long as there
are bound names whose definitions are not being resolved yet.

It fails exactly if a name that leads back to itself is reached from the term. A name need not be
free in the term for that, nor does the cycle have to lead back to where resolution came in. The
chain that is reported goes from a free name of the term down to the first name that is met again.
-/

namespace UntypedLambda

namespace Environment

/-- The bound names whose definitions are not being resolved yet. -/
def unexpanded (environment : Environment) (expanding : List Name) : List Name :=
  environment.keys.filter (· ∉ expanding)

/-- Put the definitions of some names into a term as resolution does. How the definitions are
    resolved themselves is given, and this may be given up. -/
def resolveEach (environment : Environment)
    (resolveDefinition : List Name → Term → Option (Except Cycle Term)) (expanding : List Name) :
    (names : List Name) → Term → Option (Except Cycle Term)
  | [], term => some (.ok term)
  | name :: names, term =>
    match environment.get? name with
    | none => resolveEach environment resolveDefinition expanding names term
    | some definition =>
      if name ∈ expanding then some (.error ⟨name, expanding ++ [name]⟩)
      else
        match resolveDefinition (expanding ++ [name]) definition with
        | none => none
        | some (.error cycle) => some (.error cycle)
        | some (.ok resolved) =>
          resolveEach environment resolveDefinition expanding names (term.substitute name resolved)

/-- Resolution that is given up if its calls nest deeper than so many levels. -/
def resolveWithin (environment : Environment) :
    (depth : Nat) → (expanding : List Name) → Term → Option (Except Cycle Term)
  | 0, _, _ => none
  | depth + 1, expanding, term =>
    environment.resolveEach (environment.resolveWithin depth) expanding term.freeNames term

/-- A name that is being expanded now is no longer among those that are not. -/
theorem length_unexpanded_lt {environment : Environment} {expanding : List Name} {name : Name}
    {definition : Term} (bound : environment.get? name = some definition)
    (fresh : name ∉ expanding) :
    (environment.unexpanded (expanding ++ [name])).length <
      (environment.unexpanded expanding).length := by
  have without : environment.unexpanded (expanding ++ [name]) =
      (environment.unexpanded expanding).filter (· ≠ name) := by
    simp only [unexpanded, List.filter_filter, List.mem_append, List.mem_singleton, not_or,
      Bool.decide_and, Bool.and_comm]
  have among : name ∈ environment.unexpanded expanding := by
    refine List.mem_filter.mpr ⟨environment.mem_keys_of_get? name definition bound, ?_⟩
    exact decide_eq_true fresh
  rw [without]
  exact List.length_filter_lt_length_iff_exists.mpr ⟨name, among, by simp⟩

/-- If definitions are resolved as resolution does it, so are terms. -/
theorem resolveEach_eq (environment : Environment)
    (resolveDefinition : List Name → Term → Option (Except Cycle Term))
    (expanding names : List Name)
    (term : Term)
    (resolves : ∀ name definition, environment.get? name = some definition → name ∉ expanding →
      resolveDefinition (expanding ++ [name]) definition =
        some (environment.resolve (expanding ++ [name]) definition)) :
    environment.resolveEach resolveDefinition expanding names term =
      some (environment.resolveNames expanding names term) := by
  induction names generalizing term with
  | nil => rw [resolveEach, resolveNames]
  | cons name names inductionHypothesis =>
    rw [resolveEach, resolveNames_cons]
    cases bound : environment.get? name with
    | none => exact inductionHypothesis term
    | some definition =>
      dsimp only
      by_cases among : name ∈ expanding
      · rw [if_pos among, if_pos among]
      · rw [if_neg among, if_neg among, resolves name definition bound among]
        cases environment.resolve (expanding ++ [name]) definition with
        | error cycle => rfl
        | ok resolved => exact inductionHypothesis _

/-- Calls never nest deeper than there are bound names to be expanded, and one level for the call
    itself. -/
theorem resolveWithin_eq (environment : Environment) (depth : Nat) (expanding : List Name)
    (term : Term) (enough : (environment.unexpanded expanding).length < depth) :
    environment.resolveWithin depth expanding term = some (environment.resolve expanding term) := by
  induction depth generalizing expanding term with
  | zero => omega
  | succ depth inductionHypothesis =>
    rw [resolveWithin, resolve]
    apply resolveEach_eq
    intro name definition bound fresh
    apply inductionHypothesis
    have fewer := length_unexpanded_lt bound fresh
    omega

/-- If the definitions of some names can be put in, none of these names is being expanded, and the
    definition of each can be resolved. -/
theorem resolves_of_mem {environment : Environment} {expanding names : List Name}
    {term result : Term}
    (resolves : environment.resolveNames expanding names term = .ok result) {name : Name}
    {definition : Term} (among : name ∈ names) (bound : environment.get? name = some definition) :
    name ∉ expanding ∧ ∃ resolved,
      environment.resolve (expanding ++ [name]) definition = .ok resolved := by
  induction names generalizing term with
  | nil => exact absurd among List.not_mem_nil
  | cons first names inductionHypothesis =>
    rw [resolveNames_cons] at resolves
    cases firstBound : environment.get? first with
    | none =>
      rw [firstBound] at resolves
      rcases List.mem_cons.mp among with rfl | later
      · cases firstBound.symm.trans bound
      · exact inductionHypothesis resolves later
    | some firstDefinition =>
      rw [firstBound] at resolves
      dsimp only at resolves
      split at resolves
      · cases resolves
      · rename_i fresh
        cases inner : environment.resolve (expanding ++ [first]) firstDefinition with
        | error cycle =>
          rw [inner] at resolves
          cases resolves
        | ok resolved =>
          rw [inner] at resolves
          rcases List.mem_cons.mp among with rfl | later
          · obtain rfl := Option.some.inj (firstBound.symm.trans bound)
            exact ⟨fresh, resolved, inner⟩
          · exact inductionHypothesis resolves later

/-- If a term can be resolved, so can the definition of every name that it reaches, while at least
    the same names are being expanded and that name is not. -/
theorem resolves_along_path {environment : Environment} {expanding : List Name} {term result : Term}
    (resolves : environment.resolve expanding term = .ok result) {start name : Name}
    {definition : Term} (occurs : start ∈ term.freeNames) (path : environment.Path start name)
    (bound : environment.get? name = some definition) :
    ∃ more, expanding ⊆ more ∧ name ∉ more ∧
      ∃ resolved, environment.resolve (more ++ [name]) definition = .ok resolved := by
  induction path generalizing definition with
  | refl => exact ⟨expanding, List.Subset.refl _, resolves_of_mem resolves occurs bound⟩
  | @tail middle name _ refers inductionHypothesis =>
    cases middleBound : environment.get? middle with
    | none => exact absurd refers (not_refers_of_unbound middleBound name)
    | some middleDefinition =>
      obtain ⟨more, included, _, _, resolvesMiddle⟩ := inductionHypothesis middleBound
      have occursThere : name ∈ middleDefinition.freeNames :=
        (refers_iff middleBound name).mp refers
      refine ⟨more ++ [middle], ?_, resolves_of_mem resolvesMiddle occursThere bound⟩
      exact fun other member => List.mem_append_left _ (included member)

/-- If a term can be resolved, no name that it reaches leads back to itself: while the definition of
    the name is being resolved, the name must not be reached again. -/
theorem not_cyclic_of_resolve {environment : Environment} {expanding : List Name}
    {term result : Term}
    (resolves : environment.resolve expanding term = .ok result) {start name : Name}
    (occurs : start ∈ term.freeNames) (path : environment.Path start name) :
    ¬ Relation.TransGen environment.Refers name name := by
  intro cycle
  obtain ⟨next, refers, back⟩ := Relation.TransGen.head'_iff.mp cycle
  cases bound : environment.get? name with
  | none => exact not_refers_of_unbound bound next refers
  | some definition =>
    obtain ⟨more, _, _, _, resolvesName⟩ := resolves_along_path resolves occurs path bound
    have occursThere : next ∈ definition.freeNames := (refers_iff bound next).mp refers
    obtain ⟨further, included, fresh, _⟩ := resolves_along_path resolvesName occursThere back bound
    exact fresh (included (List.mem_append_right _ (List.mem_singleton.mpr rfl)))

/-- A chain leads from its first name to its last one. -/
theorem transGen_of_isChain {relation : Name → Name → Prop} {first last : Name}
    {between : List Name}
    (chain : (first :: between ++ [last]).IsChain relation) :
    Relation.TransGen relation first last := by
  induction between generalizing first with
  | nil => exact .single (List.isChain_pair.mp chain)
  | cons next between inductionHypothesis =>
    obtain ⟨related, rest⟩ := List.isChain_cons_cons.mp chain
    exact .head related (inductionHypothesis rest)

/-- The names lead down from a free name of the term, each one mentioned by the definition of the
    one before. -/
structure Descends (environment : Environment) (term : Term) (chain : List Name) : Prop where
  starts : ∃ first ∈ term.freeNames, chain.head? = some first
  follows : chain.IsChain environment.Refers

/-- The last name of a chain leads on to the names that its definition mentions. -/
theorem Descends.concat {environment : Environment} {term : Term} {chain : List Name}
    {name other : Name}
    (descends : environment.Descends term (chain ++ [name]))
    (refers : environment.Refers name other) :
    environment.Descends term ((chain ++ [name]) ++ [other]) where
  starts := by
    obtain ⟨first, occurs, isFirst⟩ := descends.starts
    exact ⟨first, occurs, by rw [List.head?_append, isFirst, Option.some_or]⟩
  follows := by
    rw [List.append_assoc, List.singleton_append, List.isChain_append_cons_cons]
    exact ⟨descends.follows, refers, .singleton other⟩

/-- What a reported cycle says of a term: its chain leads down from a free name of the term through
    bound names, and the last name is the only one that has occurred before. -/
structure Cycle.Genuine (environment : Environment) (term : Term) (cycle : Cycle) : Prop
    extends environment.Descends term cycle.chain where
  bound : ∀ name ∈ cycle.chain, environment.get? name ≠ none
  closes : ∃ before, cycle.chain = before ++ [cycle.name] ∧ before.Nodup ∧ cycle.name ∈ before

/-- Every cycle that resolution reports is genuine, if the names that are being expanded are bound
    names that lead down from the term to all names that are gone through. -/
theorem genuine_of_resolveNames {environment : Environment} (origin : Term)
    {expanding names : List Name} {term : Term} {cycle : Cycle}
    (fails : environment.resolveNames expanding names term = .error cycle)
    (distinct : expanding.Nodup) (bound : ∀ name ∈ expanding, environment.get? name ≠ none)
    (descends : ∀ name ∈ names, environment.Descends origin (expanding ++ [name])) :
    cycle.Genuine environment origin := by
  fun_induction environment.resolveNames expanding names term with
  | case1 => cases fails
  | case2 expanding name names term unbound inductionHypothesis =>
    exact inductionHypothesis fails distinct bound fun other member =>
      descends other (List.mem_cons_of_mem _ member)
  | case3 expanding name names term definition nameBound among =>
    obtain rfl := Except.error.inj fails
    refine ⟨descends name List.mem_cons_self, fun other member => ?_, expanding, rfl,
      distinct, among⟩
    rcases List.mem_append.mp member with outer | isName
    · exact bound other outer
    · exact bound other (List.mem_singleton.mp isName ▸ among)
  | case4 expanding name names term definition nameBound fresh inner failsInner innerHypothesis =>
    obtain rfl := Except.error.inj fails
    apply innerHypothesis failsInner
    · refine List.nodup_append.mpr ⟨distinct, List.pairwise_singleton _ name, ?_⟩
      rintro other outer last isLast rfl
      exact fresh (List.mem_singleton.mp isLast ▸ outer)
    · intro other member
      rcases List.mem_append.mp member with outer | isName
      · exact bound other outer
      · rw [List.mem_singleton.mp isName, nameBound]
        exact Option.some_ne_none definition
    · intro other occurs
      exact (descends name List.mem_cons_self).concat ((refers_iff nameBound other).mpr occurs)
  | case5 expanding name names term definition nameBound fresh inner resolvesInner _
      inductionHypothesis =>
    exact inductionHypothesis fails distinct bound fun other member =>
      descends other (List.mem_cons_of_mem _ member)

/-- A chain that leads down from a term is a path to its last name. -/
theorem Descends.exists_path {environment : Environment} {term : Term}
    {chain : List Name} {name : Name}
    (descends : environment.Descends term (chain ++ [name])) :
    ∃ start ∈ term.freeNames, environment.Path start name := by
  obtain ⟨first, occurs, isFirst⟩ := descends.starts
  refine ⟨first, occurs, ?_⟩
  cases chain with
  | nil =>
    obtain rfl := Option.some.inj isFirst
    exact .refl
  | cons start between =>
    obtain rfl := Option.some.inj isFirst
    exact (transGen_of_isChain descends.follows).to_reflTransGen

/-- The name that closes a genuine cycle is reached from the term and leads back to itself. -/
theorem Cycle.Genuine.exists_cyclic {environment : Environment} {term : Term} {cycle : Cycle}
    (genuine : cycle.Genuine environment term) :
    ∃ start ∈ term.freeNames, ∃ name, environment.Path start name ∧
      Relation.TransGen environment.Refers name name := by
  obtain ⟨before, isChain, _, again⟩ := genuine.closes
  have descends := genuine.toDescends
  rw [isChain] at descends
  obtain ⟨start, occurs, path⟩ := descends.exists_path
  refine ⟨start, occurs, cycle.name, path, ?_⟩
  obtain ⟨left, right, rfl⟩ := List.append_of_mem again
  have follows := descends.follows
  rw [List.append_assoc, List.cons_append] at follows
  exact transGen_of_isChain (List.isChain_split.mp follows).2

/-- Whatever cycle the resolution of a term reports is genuine. -/
theorem genuine_of_resolve {environment : Environment} {term : Term} {cycle : Cycle}
    (fails : environment.resolve [] term = .error cycle) : cycle.Genuine environment term := by
  refine genuine_of_resolveNames term fails List.nodup_nil (by simp) ?_
  intro name occurs
  exact ⟨⟨name, occurs, rfl⟩, .singleton name⟩

/-- A term cannot be resolved exactly if it reaches a name that leads back to itself. -/
theorem exists_resolve_eq_error_iff (environment : Environment) (term : Term) :
    (∃ cycle, environment.resolve [] term = .error cycle) ↔
      ∃ start ∈ term.freeNames, ∃ name, environment.Path start name ∧
        Relation.TransGen environment.Refers name name := by
  constructor
  · rintro ⟨cycle, fails⟩
    exact (genuine_of_resolve fails).exists_cyclic
  · rintro ⟨start, occurs, name, path, cyclic⟩
    cases resolves : environment.resolve [] term with
    | error cycle => exact ⟨cycle, rfl⟩
    | ok resolved => exact absurd cyclic (not_cyclic_of_resolve resolves occurs path)

end Environment

namespace Session

/-- A session fails to resolve a term with the fault that reports the cycle. -/
theorem resolve_eq_error_iff (session : Session) (term : Term) (expanding : List Name)
    (fault : Fault) :
    session.resolve term expanding = .error fault ↔
      ∃ cycle, session.environment.resolve expanding term = .error cycle ∧
        fault = .cyclicBinding cycle.name cycle.chain := by
  rw [resolve]
  cases session.environment.resolve expanding term with
  | error cycle => simp [Except.mapError, eq_comm]
  | ok resolved => simp [Except.mapError]

/-- In every session, whatever it binds, the resolution of a term comes to an end without nesting
    its calls deeper than there are bindings, one level apart. It fails exactly if the term reaches
    a name that leads back to itself. The fault then reports a chain of bound names that begins
    with a free name of the term, in which every name is mentioned by the definition of the one
    before and only the last one has occurred before. -/
theorem cycles_are_found (session : Session) (term : Term) :
    (∀ depth, session.environment.keys.length < depth →
      session.environment.resolveWithin depth [] term =
        some (session.environment.resolve [] term)) ∧
    ((∃ fault, session.resolve term [] = .error fault) ↔
      ∃ start ∈ term.freeNames, ∃ name, session.environment.Path start name ∧
        Relation.TransGen session.environment.Refers name name) ∧
    ∀ fault, session.resolve term [] = .error fault →
      ∃ cycle : Environment.Cycle, fault = .cyclicBinding cycle.name cycle.chain ∧
        fault.report.message = Markup.plain "binding '" ++ Markup.bold cycle.name ++
          Markup.plain "' is cyclic (" ++ Markup.bold (" -> ".intercalate cycle.chain) ++
          Markup.plain ")" ∧
        cycle.Genuine session.environment term := by
  refine ⟨fun depth enough => ?_, ?_, fun fault fails => ?_⟩
  · apply session.environment.resolveWithin_eq
    exact Nat.lt_of_le_of_lt (List.length_filter_le _ _) enough
  · rw [← session.environment.exists_resolve_eq_error_iff]
    simp only [resolve_eq_error_iff]
    constructor
    · rintro ⟨_, cycle, fails, _⟩
      exact ⟨cycle, fails⟩
    · rintro ⟨cycle, fails⟩
      exact ⟨_, cycle, fails, rfl⟩
  · obtain ⟨cycle, failsThere, rfl⟩ := (session.resolve_eq_error_iff term [] fault).mp fails
    exact ⟨cycle, rfl, rfl, Environment.genuine_of_resolve failsThere⟩

/-- The cycle does not lead back to `x`, by which it is reached. All three definitions are entered
    before `y` is met again. -/
theorem cycles_are_found_below :
    let session : Session := {
      path := consolePath
      environment := .ofList [("x", .app (.var "y") (.var "w")),
        ("y", .lam "a" (.app (.var "z") (.var "a"))), ("z", .var "y")]
      limit := 1000, strategy := .normal, results := [], exited := false
      reporter := { (Reporter.create true false).registerFile consolePath with fatal := false } }
    let term : Term := .app (.var "v") (.var "x")
    let cycle : Environment.Cycle := ⟨"y", ["x", "y", "z", "y"]⟩
    session.resolve term [] = .error (.cyclicBinding "y" ["x", "y", "z", "y"]) ∧
      cycle.Genuine session.environment term ∧
      session.environment.resolveWithin 3 [] term = none ∧
      session.environment.resolveWithin 4 [] term = some (.error cycle) := by
  intro session term cycle
  have reported : (match session.environment.resolve [] term with
      | .ok _ => none
      | .error found => some found) = some cycle := by decide +kernel
  have fails : session.environment.resolve [] term = .error cycle := by
    cases resolves : session.environment.resolve [] term with
    | ok resolved =>
      rw [resolves] at reported
      cases reported
    | error found =>
      rw [resolves] at reported
      rw [Option.some.inj reported]
  have failsHere : session.resolve term [] = .error (.cyclicBinding "y" ["x", "y", "z", "y"]) :=
    (session.resolve_eq_error_iff term [] _).mpr ⟨cycle, fails, rfl⟩
  have threeBindings : session.environment.keys.length < 4 := by decide +kernel
  have givenUp : (session.environment.resolveWithin 3 [] term).isNone = true := by decide +kernel
  obtain ⟨ends, _, genuine⟩ := cycles_are_found session term
  have deepEnough := ends 4 threeBindings
  rw [fails] at deepEnough
  obtain ⟨found, sameFault, _, isGenuine⟩ := genuine _ failsHere
  obtain ⟨sameName, sameChain⟩ := Fault.cyclicBinding.inj sameFault
  have isCycle : found = cycle := by
    cases found
    cases sameName
    cases sameChain
    rfl
  exact ⟨failsHere, isCycle ▸ isGenuine, Option.isNone_iff_eq_none.mp givenUp, deepEnough⟩

end Session

end UntypedLambda
