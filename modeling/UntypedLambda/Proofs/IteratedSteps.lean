import UntypedLambda.Proofs.BoundedReduction

/-!
# Bounded reduction as iteration

The terms of a reduction sequence are numbered: the starting term has the number zero, and each
term is followed by its reduct as long as there is one. Bounded reduction, the list of reducts and
the trace are recursions of their own. Here each of them is described by the numbered terms alone,
and so is what an observer is told who is called after every step of a reduction.

Nothing is assumed about the step function. A sequence may end, be it on the last permitted step,
or go on forever. In every case a reduction that stopped at its limit can be resumed at the term
that it returned.
-/

namespace UntypedLambda.Reduction

variable (step : Term → Option Term)

/-- The term after a number of steps, if the sequence goes on that long. -/
def afterSteps : (count : Nat) → (term : Term) → Option Term
  | 0, term => some term
  | count + 1, term => (afterSteps count term).bind step

/-- The sequence ends after a number of steps: it goes on that long, and from the term that is
    reached there is no step. -/
def EndsAfter (count : Nat) (term : Term) : Prop :=
  ∃ last, afterSteps step count term = some last ∧ step last = none

/-- A bounded reduction with an observer. After each step the observer is told its number and the
    reduct, and may remember something of it. -/
def observed {Memory : Type} (observe : Memory → Nat → Term → Memory) :
    (limit : Nat) → (term : Term) → (taken : Nat) → (memory : Memory) → Reduction × Memory
  | 0, term, taken, memory => (⟨term, taken, (step term).isSome⟩, memory)
  | limit + 1, term, taken, memory =>
    match step term with
    | none => (⟨term, taken, false⟩, memory)
    | some reduct => observed observe limit reduct (taken + 1) (observe memory (taken + 1) reduct)

/-- One step more is one step first. -/
theorem afterSteps_succ (count : Nat) (term : Term) :
    afterSteps step (count + 1) term = (step term).bind (afterSteps step count) := by
  induction count with
  | zero => cases stepped : step term <;> simp [afterSteps, stepped]
  | succ count inductionHypothesis =>
    rw [afterSteps, inductionHypothesis, Option.bind_assoc]
    rfl

/-- If there is no step, no number of steps from one on leads anywhere. -/
theorem afterSteps_succ_of_none {term : Term} (ended : step term = none) (count : Nat) :
    afterSteps step (count + 1) term = none := by
  rw [afterSteps_succ, ended, Option.bind_none]

/-- If there is a step, the remaining ones are taken from the reduct. -/
theorem afterSteps_succ_of_some {term reduct : Term} (stepped : step term = some reduct)
    (count : Nat) :
    afterSteps step (count + 1) term = afterSteps step count reduct := by
  rw [afterSteps_succ, stepped, Option.bind_some]

/-- From a term without a step, the sequence ends at once and only there. -/
theorem endsAfter_of_none {term : Term} (ended : step term = none) (count : Nat) :
    EndsAfter step count term ↔ count = 0 := by
  cases count with
  | zero => exact ⟨fun _ => rfl, fun _ => ⟨term, rfl, ended⟩⟩
  | succ count => simp [EndsAfter, afterSteps_succ_of_none step ended]

/-- From any other term, it ends one step after it does from the reduct. -/
theorem endsAfter_of_some {term reduct : Term} (stepped : step term = some reduct) (count : Nat) :
    EndsAfter step count term ↔ ∃ earlier, count = earlier + 1 ∧ EndsAfter step earlier reduct := by
  cases count with
  | zero => simp [EndsAfter, afterSteps, stepped]
  | succ count => simp [EndsAfter, afterSteps_succ_of_some step stepped]

/-- The reducts are the terms after one, two and more steps, as many as are asked for. -/
theorem getElem?_reducts (count index : Nat) (term : Term) :
    (reducts step count term)[index]? =
      if index < count then afterSteps step (index + 1) term else none := by
  induction count generalizing term index with
  | zero => simp [reducts]
  | succ count inductionHypothesis =>
    rw [reducts]
    cases stepped : step term with
    | none => simp [afterSteps_succ_of_none step stepped]
    | some reduct =>
      rw [afterSteps_succ_of_some step stepped]
      cases index with
      | zero => simp [afterSteps]
      | succ index => simp [inductionHypothesis]

/-- If the sequence ends, there are no more reducts than steps to its end. -/
theorem length_reducts_of_ends {count : Nat} {term : Term} (ends : EndsAfter step count term)
    (limit : Nat) : (reducts step limit term).length = min limit count := by
  induction limit generalizing count term with
  | zero => simp [reducts]
  | succ limit inductionHypothesis =>
    rw [reducts]
    cases stepped : step term with
    | none =>
      obtain rfl := (endsAfter_of_none step stepped count).mp ends
      rfl
    | some reduct =>
      obtain ⟨earlier, rfl, endsEarlier⟩ := (endsAfter_of_some step stepped count).mp ends
      rw [List.length_cons, inductionHypothesis endsEarlier]
      omega

/-- If the sequence does not end, there are as many reducts as are asked for. -/
theorem length_reducts_of_endless {term : Term} (endless : ∀ count, ¬ EndsAfter step count term)
    (limit : Nat) : (reducts step limit term).length = limit := by
  induction limit generalizing term with
  | zero => rfl
  | succ limit inductionHypothesis =>
    rw [reducts]
    cases stepped : step term with
    | none => exact absurd ((endsAfter_of_none step stepped 0).mpr rfl) (endless 0)
    | some reduct =>
      rw [List.length_cons, inductionHypothesis]
      intro count ends
      exact endless (count + 1) ((endsAfter_of_some step stepped _).mpr ⟨count, rfl, ends⟩)

/-- A reduction that has taken some steps goes on like a new one, and counts on. -/
theorem continued_eq_run (limit : Nat) (term : Term) (taken : Nat) :
    continued step limit term taken =
      { run step limit term with steps := taken + (run step limit term).steps } := by
  induction limit generalizing term taken with
  | zero => rfl
  | succ limit inductionHypothesis =>
    rw [run, continued, continued]
    cases step term with
    | none => rfl
    | some reduct =>
      dsimp only
      rw [inductionHypothesis reduct (taken + 1), inductionHypothesis reduct (0 + 1)]
      simp only [Nat.zero_add, Nat.add_assoc]

/-- A reduction takes one step for each reduct. -/
theorem steps_run (limit : Nat) (term : Term) :
    (run step limit term).steps = (reducts step limit term).length := by
  induction limit generalizing term with
  | zero => rfl
  | succ limit inductionHypothesis =>
    rw [run, continued, reducts]
    cases step term with
    | none => rfl
    | some reduct =>
      rw [List.length_cons, ← inductionHypothesis reduct]
      dsimp only
      rw [continued_eq_run]
      exact Nat.add_comm _ _

/-- The term that a reduction returns is the one after the steps that it has counted. -/
theorem afterSteps_steps_run (limit : Nat) (term : Term) :
    afterSteps step (run step limit term).steps term = some (run step limit term).term := by
  induction limit generalizing term with
  | zero => rfl
  | succ limit inductionHypothesis =>
    rw [run, continued]
    cases stepped : step term with
    | none => rfl
    | some reduct =>
      dsimp only
      rw [continued_eq_run, Nat.add_comm, Nat.zero_add, afterSteps_succ_of_some step stepped]
      exact inductionHypothesis reduct

/-- To take further steps from where a reduction stopped is to have had the higher limit from the
    beginning. -/
theorem continued_continued (limit more : Nat) (term : Term) (taken : Nat) :
    continued step more (continued step limit term taken).term
      (continued step limit term taken).steps =
      continued step (limit + more) term taken := by
  induction limit generalizing term taken with
  | zero => rw [continued, Nat.zero_add]
  | succ limit inductionHypothesis =>
    rw [Nat.add_right_comm, continued, continued]
    cases stepped : step term with
    | none => exact continued_of_none step more term taken stepped
    | some reduct => exact inductionHypothesis reduct (taken + 1)

/-- An observer is told of the reducts, with their numbers and in order, and does not change what
    is returned. -/
theorem observed_eq {Memory : Type} (observe : Memory → Nat → Term → Memory) (limit : Nat)
    (term : Term) (taken : Nat) (memory : Memory) :
    observed step observe limit term taken memory =
      (continued step limit term taken,
        ((reducts step limit term).zipIdx (taken + 1)).foldl
          (fun memory (reduct, number) => observe memory number reduct) memory) := by
  induction limit generalizing term taken memory with
  | zero => rfl
  | succ limit inductionHypothesis =>
    rw [observed, continued, reducts]
    cases step term with
    | none => rfl
    | some reduct => exact inductionHypothesis reduct (taken + 1) _

/-- The trace has the terms after one, two and more steps, up to the number of steps that were
    taken, each with its number. -/
theorem map_trace (limit : Nat) (term : Term) :
    (trace step limit term).map (fun (number, reduct) => (number, some reduct)) =
      (List.range' 1 (run step limit term).steps).map fun number =>
        (number, afterSteps step number term) := by
  have traced : (trace step limit term).map (fun (number, reduct) => (number, some reduct)) =
      ((reducts step limit term).zipIdx 1).map fun (reduct, number) => (number, some reduct) := by
    rw [trace, List.map_map]
    rfl
  rw [traced, steps_run]
  apply List.ext_getElem
  · simp
  · intro index inside _
    have found := getElem?_reducts step limit index term
    simp only [List.length_map, List.length_zipIdx] at inside
    rw [List.getElem?_eq_getElem inside] at found
    split at found
    · simp [found, Nat.add_comm]
    · cases found

/-- What an observer remembers of a bounded reduction is what the trace tells it. -/
theorem observed_run {Memory : Type} (observe : Memory → Nat → Term → Memory) (limit : Nat)
    (term : Term) (memory : Memory) :
    observed step observe limit term 0 memory =
      (run step limit term, (trace step limit term).foldl
        (fun memory (number, reduct) => observe memory number reduct) memory) := by
  rw [observed_eq, trace, List.foldl_map]
  rfl

/-- A reduction that is exhausted has used up its limit. Had it reached the end before, there would
    be no further step. -/
theorem steps_run_of_exhausted {limit : Nat} {term : Term}
    (exhausted : (run step limit term).exhausted = true) : (run step limit term).steps = limit := by
  by_cases ends : ∃ count, EndsAfter step count term
  · obtain ⟨count, ends⟩ := ends
    have counted : (run step limit term).steps = min limit count := by
      rw [steps_run, length_reducts_of_ends step ends]
    have notThere : (run step limit term).steps ≠ count := by
      intro there
      obtain ⟨last, reached, ended⟩ := ends
      rw [← there, afterSteps_steps_run] at reached
      rw [run, exhausted_continued, ← run, Option.some.inj reached, ended] at exhausted
      cases exhausted
    omega
  · rw [steps_run]
    exact length_reducts_of_endless step (fun count endsThere => ends ⟨count, endsThere⟩) limit

/-- Whatever the step function, the starting term and the limit are, a bounded reduction takes as
    many steps as there are up to the end of the sequence, but no more than the limit, and returns
    the term after these steps. It is exhausted if there is a further step, and then the limit is
    used up. An observer is told of the steps in order, each with its number and its reduct. The
    reducts are the terms after one, two and more steps. To go on with a new limit leads to the same
    term and verdict as one reduction with both limits together, and the steps add up. -/
theorem run_is_bounded_iteration (limit : Nat) (term : Term) :
    let result := run step limit term
    (∀ count, EndsAfter step count term → result.steps = min limit count) ∧
    ((∀ count, ¬ EndsAfter step count term) → result.steps = limit) ∧
    afterSteps step result.steps term = some result.term ∧
    (result.exhausted = true ↔ step result.term ≠ none) ∧
    (result.exhausted = true → result.steps = limit) ∧
    (trace step limit term).map (fun (number, reduct) => (number, some reduct)) =
      (List.range' 1 result.steps).map (fun number => (number, afterSteps step number term)) ∧
    (∀ (Memory : Type) (observe : Memory → Nat → Term → Memory) (memory : Memory),
      observed step observe limit term 0 memory =
        (result, (trace step limit term).foldl
          (fun memory (number, reduct) => observe memory number reduct) memory)) ∧
    (∀ count index, (reducts step count term)[index]? =
      if index < count then afterSteps step (index + 1) term else none) ∧
    ∀ more,
      let resumed := run step more result.term
      let whole := run step (limit + more) term
      resumed.term = whole.term ∧ resumed.exhausted = whole.exhausted ∧
        result.steps + resumed.steps = whole.steps := by
  intro result
  refine ⟨fun count ends => ?_, fun endless => ?_, afterSteps_steps_run step limit term, ?_,
    steps_run_of_exhausted step, map_trace step limit term,
    fun _ observe memory => observed_run step observe limit term memory,
    fun count index => getElem?_reducts step count index term, fun more => ?_⟩
  · exact (steps_run step limit term).trans (length_reducts_of_ends step ends limit)
  · exact (steps_run step limit term).trans (length_reducts_of_endless step endless limit)
  · have isExhausted : result.exhausted = (step result.term).isSome :=
      exhausted_continued step limit term 0
    rw [isExhausted, Option.isSome_iff_ne_none]
  · have resumes := continued_continued step limit more term 0
    rw [continued_eq_run] at resumes
    have whole : run step (limit + more) term = _ := resumes.symm
    rw [whole]
    exact ⟨rfl, rfl, rfl⟩

/-- The identity applied to the identity applied to a name is normal after two steps, which is not
    reported as exhausted if two steps are permitted. Self-application goes on forever and uses up
    every limit. -/
theorem run_is_bounded_iteration_at_limit :
    let identity : Term := .lam "x" (.var "x")
    let twice : Term := .app identity (.app identity (.var "y"))
    let half : Term := .lam "x" (.app (.var "x") (.var "x"))
    let step := Strategy.normal.step
    EndsAfter step 2 twice ∧ (run step 2 twice).steps = 2 ∧ (run step 2 twice).term = .var "y" ∧
      (run step 2 twice).exhausted = false ∧
      (∀ count, ¬ EndsAfter step count (.app half half)) ∧
      (run step 7 (.app half half)).steps = 7 := by
  intro identity twice half step
  have arrived : afterSteps step 2 twice = some (.var "y") := by decide +kernel
  have ends : EndsAfter step 2 twice := ⟨.var "y", arrived, rfl⟩
  obtain ⟨counts, _, returned, exhausted, _⟩ := run_is_bounded_iteration step 2 twice
  have counted : (run step 2 twice).steps = 2 := counts 2 ends
  rw [counted, arrived] at returned
  have isName : (run step 2 twice).term = .var "y" := (Option.some.inj returned).symm
  have unexhausted : (run step 2 twice).exhausted = false := by
    rw [← Bool.not_eq_true, exhausted, isName]
    exact fun steps => steps rfl
  have again : step (.app half half) = some (.app half half) := by decide +kernel
  have same (count : Nat) : afterSteps step count (.app half half) = some (.app half half) := by
    induction count with
    | zero => rfl
    | succ count inductionHypothesis =>
      rw [afterSteps, inductionHypothesis, Option.bind_some, again]
  have endless (count : Nat) : ¬ EndsAfter step count (.app half half) := by
    rintro ⟨last, reached, ended⟩
    obtain rfl := Option.some.inj ((same count).symm.trans reached)
    cases again.symm.trans ended
  obtain ⟨_, countsOn, _⟩ := run_is_bounded_iteration step 7 (.app half half)
  exact ⟨ends, counted, isName, unexhausted, endless, countsOn endless⟩

end UntypedLambda.Reduction
