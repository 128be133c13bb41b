import UntypedLambda.Proofs.PrintedTerms
import UntypedLambda.Proofs.SessionInvariant

/-!
# Everything that is printed can be typed back

A term whose names can be typed is printed as a text that is read as that very term.
Names can be typed wherever they come from: those of a line are tokens of it, and
whatever a session does to terms keeps their names valid. So each result that a
session prints can be typed back.
-/

namespace UntypedLambda

open Grammar (Derives Phrase)

namespace Grammar

/-- A term has the names of its words. Those of numerals are valid anyway. -/
theorem Derives.validNames {phrase : Phrase} {words : List Word} {term : Term}
    (derives : Derives phrase words term) (valid : ∀ word ∈ words, word.Valid) :
    term.ValidNames := by
  induction derives with
  | abstracted _ inductionHypothesis => exact inductionHypothesis valid
  | applied _ inductionHypothesis => exact inductionHypothesis valid
  | abstraction lambda params dot _ _ named _ _ inductionHypothesis =>
    obtain ⟨validBinder, validRest⟩ := List.forall_mem_append.mp valid
    refine Term.validNames_abstraction ?_
      (inductionHypothesis fun word member => validRest word (List.mem_cons_of_mem _ member))
    intro name member
    obtain ⟨param, isParam, rfl⟩ := List.mem_map.mp member
    exact validBinder param (List.mem_cons_of_mem _ isParam) (named param isParam)
  | row _ inductionHypothesis => exact inductionHypothesis valid
  | trailing _ _ functionHypothesis argumentHypothesis =>
    obtain ⟨validFunction, validArgument⟩ := List.forall_mem_append.mp valid
    exact ⟨functionHypothesis validFunction, argumentHypothesis validArgument⟩
  | first _ inductionHypothesis => exact inductionHypothesis valid
  | next _ _ functionHypothesis argumentHypothesis =>
    obtain ⟨validFunction, validArgument⟩ := List.forall_mem_append.mp valid
    exact ⟨functionHypothesis validFunction, argumentHypothesis validArgument⟩
  | name word named => exact valid word List.mem_cons_self named
  | number word _ => exact Term.validNames_church _
  | group opening closing _ _ _ inductionHypothesis =>
    obtain ⟨validInner, _⟩ := List.forall_mem_append.mp valid
    exact inductionHypothesis fun word member => validInner word (List.mem_cons_of_mem _ member)

/-- The term of a binding has the names of its words. -/
theorem Binding.validNames {words : List Word} {action : Action} (derives : Binding words action)
    (valid : ∀ word ∈ words, word.Valid) : ∀ term ∈ action.term?, term.ValidNames := by
  cases derives with
  | intro name equals _ _ derives =>
    intro term member
    obtain rfl := Option.some.inj member
    exact derives.validNames fun word member =>
      valid word (List.mem_cons_of_mem _ (List.mem_cons_of_mem _ member))

/-- The terms of bindings have the names of their words. -/
theorem Bindings.validNames {words : List Word} {actions : List Action}
    (derives : Bindings words actions) (valid : ∀ word ∈ words, word.Valid) :
    ∀ action ∈ actions, ∀ term ∈ action.term?, term.ValidNames := by
  induction derives with
  | last binding => exact List.forall_mem_singleton.mpr (binding.validNames valid)
  | more separator binding _ _ inductionHypothesis =>
    obtain ⟨validFirst, validOthers⟩ := List.forall_mem_append.mp valid
    refine List.forall_mem_cons.mpr ⟨binding.validNames validFirst, inductionHypothesis ?_⟩
    exact fun word member => validOthers word (List.mem_cons_of_mem _ member)

/-- The terms of a line have the names of its words. -/
theorem Line.validNames {words : List Word} {actions : List Action} (derives : Line words actions)
    (valid : ∀ word ∈ words, word.Valid) :
    ∀ action ∈ actions, ∀ term ∈ action.term?, term.ValidNames := by
  cases derives with
  | empty => simp
  | command colon _ command => cases command <;> simp [Action.term?]
  | bindings bindings => exact bindings.validNames valid
  | closed separator bindings _ =>
    exact bindings.validNames fun word member => valid word (List.mem_append_left _ member)
  | term derives =>
    refine List.forall_mem_singleton.mpr ?_
    intro term member
    obtain rfl := Option.some.inj member
    exact derives.validNames valid

end Grammar

/-- The names of a term that was typed are valid. -/
theorem Term.validNames_of_parse {line : String} {term : Term}
    (parsed : Term.parse line = .ok term) :
    term.ValidNames :=
  ((Term.parse_eq_ok_iff line term).mp parsed).validNames (Token.valid_words line)

namespace Session

/-- The definitions and the results of a session have valid names only. -/
structure ValidNames (session : Session) : Prop where
  definitions (name : Name) (definition : Term)
    (bound : session.environment.get? name = some definition) : definition.ValidNames
  results : ∀ reduction ∈ session.results, reduction.term.ValidNames

/-- Names stay valid whatever a session does. -/
theorem validNames_invariant : Invariant Term.ValidNames ValidNames where
  typed line statements parsed statement member term among := by
    have derives := (Statement.parse_iff_derives line _).mp ⟨statements, parsed, rfl⟩
    exact derives.validNames (Token.valid_words line) statement.action
      (List.mem_map_of_mem member) term among
  frame session other held environment results :=
    ⟨environment ▸ held.definitions, results ▸ held.results⟩
  bind session held name term permitted _ := by
    refine ⟨?_, held.results⟩
    intro other definition bound
    rw [OrderedMap.get?_set] at bound
    split at bound
    · obtain rfl := Option.some.inj bound
      exact permitted
    · exact held.definitions other definition bound
  evaluate session held term resolved permitted resolves := by
    refine ⟨held.definitions, List.forall_mem_append.mpr ⟨held.results, ?_⟩⟩
    refine List.forall_mem_singleton.mpr ?_
    have resolvedIn : session.environment.resolve [] term = .ok resolved :=
      (mapError_eq_ok_iff _ _ _).mp resolves
    have validResolved : resolved.ValidNames :=
      session.environment.validNames_resolveNames held.definitions [] _ term resolved permitted
        resolvedIn
    exact validResolved.reduces (Term.reduces_reduce session.strategy session.limit resolved)

/-- A new session has valid names only. -/
theorem validNames_of_create (reporter : Reporter) (settings : Settings) (session : Session)
    (creates : create reporter settings = .ok session) : session.ValidNames where
  definitions _ _ bound :=
    Term.validNames_named _ (mem_named_of_create reporter settings session creates bound)
  results := by simp [(environment_of_create reporter settings session creates).2]

end Session

/-- A term with valid names is printed as a text that is read as that very term, and
    as a request to evaluate it. Terms that are typed have valid names, and
    substitution and reduction keep names valid; so every result of a session in
    which only terms with valid names were bound and evaluated can be typed back. -/
theorem display_round_trip :
    (∀ term : Term, term.ValidNames →
      Term.parse term.display = .ok term ∧
        Statement.parse term.display = .ok [⟨.evaluate term, term.display⟩]) ∧
    (∀ (line : String) (term : Term), Term.parse line = .ok term → term.ValidNames) ∧
    (∀ (term replacement : Term) (name : Name), term.ValidNames → replacement.ValidNames →
      (term.substitute name replacement).ValidNames) ∧
    (∀ (strategy : Strategy) (term reduct : Term), term.ValidNames →
      Reduction.Reaches strategy.step term reduct → reduct.ValidNames) ∧
    (∀ session : Session, session.Reachable Term.ValidNames → ∀ reduction ∈ session.results,
      Term.parse reduction.term.display = .ok reduction.term) := by
  have typedBack (term : Term) (valid : term.ValidNames) : Term.parse term.display = .ok term :=
    (Term.parse_eq_ok_iff _ _).mpr valid.derives_display
  refine ⟨?_, ?_, ?_, ?_, ?_⟩
  · intro term valid
    exact ⟨typedBack term valid, Statement.parse_display valid⟩
  · intro line term parsed
    exact Term.validNames_of_parse parsed
  · intro term replacement name valid validReplacement
    exact valid.substitute name validReplacement
  · intro strategy term reduct valid reaches
    exact valid.reduces (Relation.ReflTransGen.mono (Term.betaStep_of_step strategy) _ _ reaches)
  · intro session reachable reduction member
    have valid : session.ValidNames :=
      Session.validNames_invariant.of_reachable Session.validNames_of_create reachable
    exact typedBack _ (valid.results reduction member)

/-- Reducing `(λx. λy. x) y` renames a binder. The fresh name is a single token, so the
    result can be typed back. -/
theorem display_round_trip_renamed :
    let term : Term := .app (.lam "x" (.lam "y" (.var "x"))) (.var "y")
    let reduct : Term := .lam "y₀" (.var "y")
    let start : Session := {
      path := consolePath, environment := .ofList [], limit := 1000
      strategy := .normal, results := [], exited := false
      reporter := { (Reporter.create true false).registerFile consolePath with fatal := false } }
    let session := (start.evaluate term "").session
    Term.parse "(λx. λy. x) y" = .ok term ∧ term.ValidNames ∧ (Term.var "y").ValidNames ∧
      (Term.lam "y" (.var "x")).substitute "x" (.var "y") = reduct ∧
      Reduction.Reaches Strategy.normal.step term reduct ∧ reduct.ValidNames ∧
      Statement.parse "λy₀. y" = .ok [⟨.evaluate reduct, "λy₀. y"⟩] ∧
      session.Reachable Term.ValidNames ∧ session.results.map Reduction.term = [reduct] ∧
      ∀ reduction ∈ session.results, Term.parse reduction.term.display = .ok reduction.term := by
  intro term reduct start session
  obtain ⟨typedBack, typed, substituted, reduced, results⟩ := display_round_trip
  have parsed : Term.parse "(λx. λy. x) y" = .ok term := by with_unfolding_all rfl
  have valid : term.ValidNames := typed _ term parsed
  have validArgument : (Term.var "y").ValidNames := by decide
  have renamed : (Term.lam "y" (.var "x")).substitute "x" (.var "y") = reduct := by
    with_unfolding_all rfl
  have validReduct : reduct.ValidNames :=
    renamed ▸ substituted (.lam "y" (.var "x")) (.var "y") "x" valid.1.2 validArgument
  have reaches : Reduction.Reaches Strategy.normal.step term reduct :=
    .single (by with_unfolding_all rfl)
  have started : start.Reachable Term.ValidNames :=
    .created (Reporter.create true false) {} rfl
  have reachable : session.Reachable Term.ValidNames := .evaluated term "" started valid
  have terms : session.results.map Reduction.term = [reduct] := by with_unfolding_all rfl
  exact ⟨parsed, valid, validArgument, renamed, reaches, reduced .normal term reduct valid reaches,
    (typedBack reduct validReduct).2, reachable, terms, results session reachable⟩

end UntypedLambda
