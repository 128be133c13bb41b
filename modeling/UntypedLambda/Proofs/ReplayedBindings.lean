import UntypedLambda.Proofs.AcyclicBindings
import UntypedLambda.Proofs.DisplayRoundTrip
import UntypedLambda.Proofs.KeyOrder
import UntypedLambda.Proofs.NestedLoads

/-!
# The listed bindings can be typed back

The command that lists bindings prints a line for each of them, in the order in which the
names were first bound, and each of these lines binds the name anew. Typed into a session in
which nothing is bound, they bring about the same bindings.

A line may mention names that only later lines bind. Still none of them is refused, as a binding
that would close a cycle among the first lines would close it in the environment that was listed.
-/

namespace UntypedLambda

namespace Grammar

/-- The name that a binding binds is a word of it. -/
theorem Binding.exists_word {words : List Word} {name : Name} {term : Term}
    (derives : Binding words (.bind name term)) :
    ∃ word ∈ words, word.kind = .name ∧ word.content = name := by
  cases derives with
  | intro word equals named _ _ => exact ⟨word, List.mem_cons_self, named, rfl⟩

/-- The names that bindings bind are words of them. -/
theorem Bindings.exists_word {words : List Word} {actions : List Action} {name : Name} {term : Term}
    (derives : Bindings words actions) (member : .bind name term ∈ actions) :
    ∃ word ∈ words, word.kind = .name ∧ word.content = name := by
  induction derives with
  | last binding =>
    obtain rfl := List.mem_singleton.mp member
    exact binding.exists_word
  | more separator binding _ _ inductionHypothesis =>
    rcases List.mem_cons.mp member with rfl | later
    · obtain ⟨word, among, isName⟩ := binding.exists_word
      exact ⟨word, List.mem_append_left _ among, isName⟩
    · obtain ⟨word, among, isName⟩ := inductionHypothesis later
      exact ⟨word, List.mem_append_right _ (List.mem_cons_of_mem _ among), isName⟩

/-- The names that a line binds are words of it. -/
theorem Line.exists_word {words : List Word} {actions : List Action} {name : Name} {term : Term}
    (derives : Line words actions) (member : .bind name term ∈ actions) :
    ∃ word ∈ words, word.kind = .name ∧ word.content = name := by
  cases derives with
  | empty => exact absurd member List.not_mem_nil
  | command colon _ command => cases command <;> simp at member
  | bindings bindings => exact bindings.exists_word member
  | closed separator bindings _ =>
    obtain ⟨word, among, isName⟩ := bindings.exists_word member
    exact ⟨word, List.mem_append_left _ among, isName⟩
  | term => simp at member

end Grammar

/-- A binding that was typed has valid names, on both sides of its equals sign. -/
theorem Action.Typed.validNames {name : Name} {term : Term}
    (typed : (Action.bind name term).Typed) :
    name.Valid ∧ term.ValidNames := by
  obtain ⟨line, statements, parsed, statement, member, isBind⟩ := typed
  have derives := (Statement.parse_iff_derives line _).mp ⟨statements, parsed, rfl⟩
  have among : Action.bind name term ∈ statements.map Statement.action :=
    isBind ▸ List.mem_map_of_mem member
  obtain ⟨word, isWord, named, rfl⟩ := derives.exists_word among
  exact ⟨Token.valid_words line word isWord named,
    derives.validNames (Token.valid_words line) _ among term rfl⟩

namespace Environment

/-- The names that are bound and all names of their definitions can be typed. -/
def ValidNames (environment : Environment) : Prop :=
  ∀ name definition, environment.get? name = some definition → name.Valid ∧ definition.ValidNames

/-- All bindings of the first environment are bindings of the second. -/
def PartOf (part whole : Environment) : Prop :=
  ∀ name definition, part.get? name = some definition → whole.get? name = some definition

/-- What part of an environment refers to, all of it refers to. -/
theorem PartOf.path {part whole : Environment} (within : PartOf part whole) {start name : Name}
    (path : part.Path start name) : whole.Path start name := by
  refine Relation.ReflTransGen.mono (fun source target refers => ?_) _ _ path
  cases bound : part.get? source with
  | none => exact absurd refers (not_refers_of_unbound bound target)
  | some definition =>
    rw [refers_iff bound] at refers
    exact (refers_iff (within source definition bound) target).mpr refers

/-- The definition of a name does not reach the name in any part of an acyclic environment. -/
theorem Acyclic.not_mem_dependencies {part whole : Environment} (acyclic : whole.Acyclic)
    (within : PartOf part whole) {name : Name} {definition : Term}
    (bound : whole.get? name = some definition) : name ∉ part.dependencies definition := by
  rw [mem_dependencies_iff]
  rintro ⟨start, occurs, path⟩
  have first : whole.Refers name start := (refers_iff bound start).mpr occurs
  exact acyclic name (.head' first (within.path path))

end Environment

namespace Statement

/-- A listed binding is read as that very binding. -/
theorem parse_bindingLine {name : Name} {term : Term} (validName : name.Valid)
    (valid : term.ValidNames) :
    ∃ source, parse (Session.bindingLine name term) = .ok [⟨.bind name term, source⟩] := by
  have equals : Token.Writes "=" [⟨.equals, ['=']⟩] :=
    ⟨⟨'=', [], rfl, by decide⟩, fun _ rest => .mark (by decide) rest⟩
  have line_eq : Session.bindingLine name term = name ++ " " ++ "=" ++ " " ++ term.display := by
    simp [Session.bindingLine, String.append_assoc]
  have splits := (((Token.Writes.name validName).spaced equals).spaced valid.writes).splits
    (by simp [Token.EndsName]) .nil
  rw [List.append_nil, List.append_nil, ← line_eq] at splits
  have derives : Grammar.Line (Token.words (Session.bindingLine name term)) [.bind name term] := by
    have binding := Grammar.Binding.intro ⟨.name, name.toList⟩ ⟨.equals, ['=']⟩ rfl rfl
      (Term.derives_term term.derives_words)
    rw [Word.content, String.ofList_toList] at binding
    rw [splits.words_eq]
    exact .bindings (.last binding)
  obtain ⟨statements, parsed, actions⟩ := (parse_iff_derives _ _).mpr derives
  obtain ⟨⟨action, source⟩, rfl, rfl⟩ := List.map_eq_singleton_iff.mp actions
  exact ⟨source, parsed⟩

end Statement

namespace Session

/-- The lines that the command for bindings prints. -/
def listing (session : Session) : List String :=
  session.environment.entries.map fun (name, term) => bindingLine name term

/-- What is printed when a name is bound that was not bound before. -/
def addedLine (name : Name) : Markup :=
  Reporter.noticeLine (Markup.plain "binding " ++ Markup.bold name ++ Markup.plain " added")

/-- Execute lines one by one, up to the first that fails. -/
def addAll (load : String → Session → Outcome) (session : Session) : List String → Outcome
  | [] => .done session
  | line :: lines => (session.add load line none "").andThen fun next => next.addAll load lines

/-- Whatever a new session binds can be typed. -/
theorem validNames_environment_of_create (reporter : Reporter) (settings : Settings)
    (session : Session)
    (creates : create reporter settings = .ok session) : session.environment.ValidNames := by
  have names : ∀ entry ∈ Combinators.named, Name.Valid entry.1 := by decide +kernel
  intro name definition bound
  have member := mem_named_of_create reporter settings session creates bound
  exact ⟨names _ member, Term.validNames_named _ member⟩

/-- Every change of a session keeps the names of the environment valid. -/
theorem Changes.validNames_environment {session next : Session} (changes : Changes session next)
    (valid : session.environment.ValidNames) : next.environment.ValidNames := by
  cases changes with
  | @bound name term typed unreached =>
    intro other definition bound
    rw [OrderedMap.get?_set] at bound
    split at bound
    · rename_i same
      obtain rfl := Option.some.inj bound
      exact same ▸ typed.validNames
    · exact valid other definition bound
  | reported | evaluated | limited | chosen | left => exact valid

/-- Whatever becomes of a session, the names of the environment stay valid. -/
theorem Evolves.validNames_environment {session next : Session} (evolves : Evolves session next)
    (valid : session.environment.ValidNames) : next.environment.ValidNames :=
  evolves.keeps (fun _ _ changes valid => changes.validNames_environment valid) valid

/-- A line with a single statement is done if its statement is. -/
theorem add_of_single {load : String → Session → Outcome} {session next : Session}
    {line path : String}
    {number : Option Int} {statement : Statement} (parsed : Statement.parse line = .ok [statement])
    (executed : (session.enter path ⟨line, number⟩).execute load statement = .done next) :
    session.add load line number path =
      .done (next.withReporter (·.forgetLine (if path = "" then session.path else path))) := by
  rw [add_of_parsed parsed, executeAll, executed]
  rfl

/-- A name that is not bound yet is bound by a term that does not reach it, and nothing but the
    notice is printed. -/
theorem bind_of_new (session : Session) {name : Name} {term : Term}
    (unbound : name ∉ session.environment.keys) (unreached : name ∉ session.dependencies term)
    (source : String) :
    session.bind name term source =
      .done ({ session with environment := session.environment.set name term }.withReporter
        (noticeOf "binding " name " added")) := by
  have absent : session.environment.contains name = false := by
    simpa [OrderedMap.contains] using unbound
  unfold bind
  rw [if_neg unreached, absent]
  rfl

/-- A line of the list adds its binding at the end, if the name is not bound yet and the term
    does not reach it. Nothing but the notice is printed. -/
theorem add_bindingLine (load : String → Session → Outcome) (session : Session) {name : Name}
    {term : Term} (validName : name.Valid) (valid : term.ValidNames)
    (unbound : name ∉ session.environment.keys) (unreached : name ∉ session.dependencies term) :
    ∃ next, session.add load (bindingLine name term) none "" = .done next ∧
      next.environment.entries = session.environment.entries ++ [(name, term)] ∧
      next.reporter.output = session.reporter.output ++ [addedLine name] := by
  obtain ⟨source, parsed⟩ := Statement.parse_bindingLine validName valid
  let entered := session.enter "" ⟨bindingLine name term, none⟩
  have binds : entered.execute load ⟨.bind name term, source⟩ = _ :=
    entered.bind_of_new unbound unreached source
  exact ⟨_, add_of_single parsed binds,
    session.environment.entries_set_of_not_mem term unbound, rfl⟩

/-- The lines for the bindings that are still missing in a part of an acyclic environment add
    them one by one. -/
theorem addAll_bindingLines (load : String → Session → Outcome) {whole : Environment}
    (acyclic : whole.Acyclic) (valid : whole.ValidNames) (session : Session)
    (missing : List (Name × Term))
    (entries : session.environment.entries ++ missing = whole.entries) :
    ∃ final, session.addAll load (missing.map fun (name, term) => bindingLine name term) =
      .done final ∧
      final.environment = whole ∧
      final.reporter.output = session.reporter.output ++ missing.map (addedLine ·.1) := by
  induction missing generalizing session with
  | nil =>
    rw [List.append_nil] at entries
    exact ⟨session, rfl, OrderedMap.ext entries, by simp⟩
  | cons entry missing inductionHypothesis =>
    obtain ⟨name, term⟩ := entry
    have member : (name, term) ∈ whole.entries := by simp [← entries]
    have bound : whole.get? name = some term := (whole.mem_entries_iff name term).mp member
    have within : Environment.PartOf session.environment whole := by
      intro other definition found
      have present := (session.environment.mem_entries_iff other definition).mpr found
      refine (whole.mem_entries_iff other definition).mp ?_
      rw [← entries]
      exact List.mem_append_left _ present
    have unbound : name ∉ session.environment.keys := by
      have distinct := whole.distinct
      rw [← entries, List.map_append, List.nodup_append] at distinct
      intro present
      exact distinct.2.2 name present name List.mem_cons_self rfl
    obtain ⟨next, added, nextEntries, printed⟩ :=
      session.add_bindingLine load (valid name term bound).1
      (valid name term bound).2 unbound (acyclic.not_mem_dependencies within bound)
    obtain ⟨final, addedAll, environment, output⟩ := inductionHypothesis next
      (by rw [nextEntries, ← entries, List.append_assoc, List.singleton_append])
    refine ⟨final, ?_, environment, ?_⟩
    · rw [List.map_cons, addAll, added]
      exact addedAll
    · rw [output, printed, List.append_assoc, List.singleton_append, List.map_cons]

/-- In every session that was reached by lines and scripts, the command for bindings prints one
    line for each binding, and these lines bring about the same environment in every new session
    without combinators: the same names in the same order, with the same terms. No line is
    refused, and nothing is printed but that the names were added. -/
theorem listing_rebuilds_environment (session : Session)
    (reachable : session.Reachable fun _ => False)
    (load : String → Session → Outcome) (reporter : Reporter) (settings : Settings)
    (fresh : Session)
    (bare : settings.combinators = false) (creates : create reporter settings = .ok fresh) :
    (∃ listed, session.add load ":binds" none "" = .done listed ∧
      listed.reporter.output = session.reporter.output ++ session.listing.map Markup.plain) ∧
    ∃ final, fresh.addAll load session.listing = .done final ∧
      final.environment = session.environment ∧
      final.reporter.output = fresh.reporter.output ++ session.environment.keys.map addedLine := by
  constructor
  · have parsed : Statement.parse ":binds" = .ok [⟨.listBindings, ":binds"⟩] := by
      with_unfolding_all rfl
    refine ⟨_, add_of_single parsed rfl, ?_⟩
    show session.reporter.output ++ _ = session.reporter.output ++ _
    rw [listing, List.map_map]
    rfl
  · obtain ⟨startReporter, startSettings, start, started, evolves⟩ := reachable.exists_evolves
    have acyclic : session.environment.Acyclic :=
      acyclic_invariant.of_evolves (acyclic_of_create _ _ start started) evolves
    have valid : session.environment.ValidNames :=
      evolves.validNames_environment (validNames_environment_of_create _ _ start started)
    have nothing : fresh.environment.entries = [] := by
      rw [(environment_of_create reporter settings fresh creates).1, bare]
      rfl
    obtain ⟨final, addedAll, environment, output⟩ := addAll_bindingLines load acyclic valid fresh
      session.environment.entries (by rw [nothing, List.nil_append])
    refine ⟨final, addedAll, environment, ?_⟩
    rw [output, OrderedMap.keys, List.map_map]
    rfl

/-- The name `b` is bound anew, and to a term that mentions a name which was bound only after it.
    So the first line of the list mentions a name that is not bound yet. -/
theorem listing_rebuilds_environment_forward :
    let start : Session := {
      path := consolePath, environment := .ofList [], limit := 1000
      strategy := .normal, results := [], exited := false
      reporter := { (Reporter.create true false).registerFile consolePath with fatal := false } }
    let load := Script.run (fun _ => none) 1
    let session := (start.add load "b = c; a = λx y. y (x y); b = a c" none "").session
    session.Reachable (fun _ => False) ∧ create (Reporter.create true false) {} = .ok start ∧
      session.listing = ["b = a c", "a = λx. λy. y (x y)"] ∧
      ∃ final, start.addAll load ["b = a c", "a = λx. λy. y (x y)"] = .done final ∧
        final.environment = session.environment ∧
        final.reporter.output = [addedLine "b", addedLine "a"] := by
  intro start load session
  have creates : create (Reporter.create true false) {} = .ok start := rfl
  have started : start.Reachable fun _ => False := .created _ _ creates
  have reachable : session.Reachable fun _ => False := .added (fun _ => none) 1 _ none "" started
  have listed : session.listing = ["b = a c", "a = λx. λy. y (x y)"] := by decide +kernel
  have keys : session.environment.keys = ["b", "a"] := by decide +kernel
  obtain ⟨_, final, addedAll, environment, output⟩ :=
    listing_rebuilds_environment session reachable load _ {} start rfl creates
  rw [keys] at output
  exact ⟨reachable, creates, listed, final, listed ▸ addedAll, environment, output⟩

end Session

end UntypedLambda
