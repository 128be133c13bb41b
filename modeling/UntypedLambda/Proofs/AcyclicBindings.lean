import UntypedLambda.Proofs.Dependencies
import UntypedLambda.Proofs.KeyOrder
import UntypedLambda.Proofs.SessionInvariant

/-!
# Bindings never form a cycle

Every session that can be reached has an acyclic environment. To bind a name is
refused exactly if it would bring about a cycle, whatever the name was bound to
before and whether or not the names that are mentioned are bound yet. A refusal
changes no binding, and a binding that is made changes one entry only.
-/

namespace UntypedLambda

namespace OrderedMap

variable {κ α : Type} [DecidableEq κ]

/-- The second map has a value for a key, and it is the first map in everything
    else: the keys keep their order, a new one comes last, and every other entry
    stands where it stood. -/
structure ChangedAt (key : κ) (value : α) (before after : OrderedMap κ α) : Prop where
  value : after.get? key = some value
  keys : after.keys = if key ∈ before.keys then before.keys else before.keys ++ [key]
  others (position : Nat) (entry : κ × α) (there : before.entries[position]? = some entry)
    (different : entry.1 ≠ key) : after.entries[position]? = some entry

/-- Setting a key leaves every entry of another key where it stands. -/
theorem getElem?_setEntry_of_ne (key : κ) (value : α) (entries : List (κ × α)) (position : Nat)
    (entry : κ × α) (there : entries[position]? = some entry) (different : entry.1 ≠ key) :
    (setEntry key value entries)[position]? = some entry := by
  induction entries generalizing position with
  | nil => simp at there
  | cons first rest inductionHypothesis =>
    obtain ⟨other, old⟩ := first
    unfold setEntry
    cases position with
    | zero =>
      obtain rfl : (other, old) = entry := by simpa using there
      rw [if_neg different]
      exact there
    | succ position =>
      have later : rest[position]? = some entry := by simpa using there
      split
      · simpa using later
      · simpa using inductionHypothesis position later

/-- Setting a key changes the map at that key. -/
theorem changedAt_set (map : OrderedMap κ α) (key : κ) (value : α) :
    ChangedAt key value map (map.set key value) where
  value := by rw [get?_set, if_pos rfl]
  keys := by
    split
    · rename_i present
      exact map.keys_set_of_mem value present
    · rename_i absent
      exact map.keys_set_of_not_mem value absent
  others := getElem?_setEntry_of_ne key value map.entries

end OrderedMap

/-- No combinator has a free name. -/
theorem Combinators.freeNames_named : ∀ entry ∈ named, entry.2.freeNames = [] := by
  decide +kernel

namespace Session

/-- The environment of a new session is acyclic, as all combinators are closed. -/
theorem acyclic_of_create (reporter : Reporter) (settings : Settings) (session : Session)
    (creates : create reporter settings = .ok session) : session.environment.Acyclic := by
  apply Environment.acyclic_of_closed
  intro name definition bound
  exact Combinators.freeNames_named _ (mem_named_of_create reporter settings session creates bound)

/-- Acyclic environments survive everything that a session does. -/
theorem acyclic_invariant :
    Invariant (fun _ => True) fun session => session.environment.Acyclic where
  typed _ _ _ _ _ _ _ := trivial
  frame _ _ held environment _ := environment ▸ held
  bind session held name term _ unreached :=
    (session.environment.acyclic_set_iff held name term).mpr unreached
  evaluate _ held _ _ _ _ := held

/-- In every session that can be reached, no name refers to itself through one or
    more bindings. Binding a name is refused exactly if that would change; then
    all bindings are as they were. Otherwise only the entry of the name changes,
    and all other entries keep their terms and their places. -/
theorem bind_refuses_exactly_cycles (session : Session)
    (reachable : session.Reachable fun _ => True) :
    session.environment.Acyclic ∧
    ∀ (name : Name) (term : Term) (source : String),
      let outcome := session.bind name term source
      let environment : Environment := session.environment.set name term
      (outcome.failure = some (.fault (.recursiveBinding (quotation source term) name)) ↔
        ¬ environment.Acyclic) ∧
      (outcome.failure = none ↔ environment.Acyclic) ∧
      (outcome.failure ≠ none → outcome.session.environment = session.environment) ∧
      (outcome.failure = none →
        OrderedMap.ChangedAt name term session.environment outcome.session.environment) := by
  have acyclic : session.environment.Acyclic :=
    acyclic_invariant.of_reachable acyclic_of_create reachable
  refine ⟨acyclic, ?_⟩
  intro name term source outcome environment
  have decided := session.environment.acyclic_set_iff acyclic name term
  by_cases reached : name ∈ session.dependencies term
  · have refused : outcome =
        .failed session (.fault (.recursiveBinding (quotation source term) name)) :=
      if_pos reached
    have cyclic : ¬ environment.Acyclic := fun stays => decided.mp stays reached
    rw [refused]
    simp [Outcome.failed, cyclic]
  · have stays : environment.Acyclic := decided.mpr reached
    have bound : outcome.failure = none ∧ outcome.session.environment = environment := by
      dsimp only [outcome, Session.bind]
      rw [if_neg reached]
      split <;> exact ⟨rfl, rfl⟩
    rw [bound.1, bound.2]
    simp [stays, environment, OrderedMap.changedAt_set]

/-- The name `b` is mentioned before it is bound, and bound anew after that: first
    the way back from `c` is refused, then, with `b` bound otherwise, it is free. -/
theorem bind_refuses_exactly_cycles_rebinding :
    let start : Session := {
      path := consolePath, environment := .ofList Combinators.named, limit := 1000
      strategy := .normal, results := [], exited := false
      reporter := { (Reporter.create true false).registerFile consolePath with fatal := false } }
    let chained := ((start.bind "a" (.app (.var "b") (.var "id")) "").session.bind "b"
      (.var "c") "").session
    let rebound := (chained.bind "b" (.var "d") "").session
    chained.Reachable (fun _ => True) ∧ rebound.Reachable (fun _ => True) ∧
      chained.environment.Acyclic ∧
      (chained.bind "c" (.var "a") "").failure = some (.fault (.recursiveBinding "a" "c")) ∧
      (chained.bind "c" (.var "a") "").session.environment = chained.environment ∧
      Environment.Acyclic (rebound.environment.set "c" (.var "a")) := by
  intro start chained rebound
  have started : start.Reachable fun _ => True :=
    .created (Reporter.create true false) { combinators := true } rfl
  have chainedReachable : chained.Reachable fun _ => True :=
    .bound _ _ _ (.bound _ _ _ started trivial) trivial
  have reboundReachable : rebound.Reachable fun _ => True := .bound _ _ _ chainedReachable trivial
  have cycle : "c" ∈ chained.dependencies (.var "a") := by decide +kernel
  have refused : chained.bind "c" (.var "a") "" =
      .failed chained (.fault (.recursiveBinding "a" "c")) := if_pos cycle
  have noCycle : "c" ∉ rebound.dependencies (.var "a") := by decide +kernel
  have accepted : (rebound.bind "c" (.var "a") "").failure = none := by
    unfold Session.bind
    rw [if_neg noCycle]
    split <;> rfl
  obtain ⟨acyclic, bindings⟩ := bind_refuses_exactly_cycles chained chainedReachable
  obtain ⟨_, _, unchanged, _⟩ := bindings "c" (.var "a") ""
  obtain ⟨_, otherBindings⟩ := bind_refuses_exactly_cycles rebound reboundReachable
  obtain ⟨_, succeeds, _, _⟩ := otherBindings "c" (.var "a") ""
  refine ⟨chainedReachable, reboundReachable, acyclic, congrArg Outcome.failure refused, ?_,
    succeeds.mp accepted⟩
  exact unchanged (by rw [refused]; exact Option.some_ne_none _)

end Session

end UntypedLambda
