import Mathlib.Logic.Relation
import Mathlib.Order.Bounds.Basic
import UntypedLambda.Session

/-!
# Which names a term reaches

The search for the names that a term reaches may take them up in any order, and it
may come upon a name again before or after it has been followed. It ends in every
environment, cyclic ones included: a name that is followed takes the weight of its
definition with it, and every other step leaves fewer names pending. Whatever the
order, it ends with the least set that contains the free names of the term and,
with every bound name, the free names of its definition. What is not bound belongs
to this set like everything else that is mentioned.
-/

namespace UntypedLambda

namespace Environment

/-- The names that the definition of a name mentions. A name that is not bound
    refers to nothing. -/
def references (environment : Environment) (name : Name) : List Name :=
  match environment.get? name with
  | some definition => definition.freeNames
  | none => []

/-- The definition of the first name mentions the second. -/
def Refers (environment : Environment) (name other : Name) : Prop :=
  other ∈ environment.references name

/-- A bound name refers to the free names of its definition. -/
theorem refers_iff {environment : Environment} {name : Name} {definition : Term}
    (bound : environment.get? name = some definition) (other : Name) :
    environment.Refers name other ↔ other ∈ definition.freeNames := by
  rw [Refers, references, bound]

/-- A name that is not bound refers to nothing. -/
theorem not_refers_of_unbound {environment : Environment} {name : Name}
    (unbound : environment.get? name = none) (other : Name) : ¬ environment.Refers name other := by
  rw [Refers, references, unbound]
  exact List.not_mem_nil

/-- A name refers to no name twice. -/
theorem nodup_references (environment : Environment) (name : Name) :
    (environment.references name).Nodup := by
  unfold references
  split
  · exact Term.nodup_freeNames _
  · exact List.nodup_nil

/-- Sets that contain the free names of a term and, with every bound name, the free names of its
    definition. -/
structure Saturated (environment : Environment) (term : Term) (names : Set Name) : Prop where
  free : ∀ name ∈ term.freeNames, name ∈ names
  closed : ∀ name ∈ names, ∀ definition, environment.get? name = some definition →
    ∀ other ∈ definition.freeNames, other ∈ names

/-- Such a set contains what its members refer to: only bound names refer to anything. -/
theorem Saturated.refers {environment : Environment} {term : Term} {names : Set Name}
    (saturated : environment.Saturated term names) {name other : Name} (member : name ∈ names)
    (refers : environment.Refers name other) : other ∈ names := by
  cases bound : environment.get? name with
  | none => exact absurd refers (not_refers_of_unbound bound other)
  | some definition =>
    exact saturated.closed name member definition bound other ((refers_iff bound other).mp refers)

/-- The search between two steps: what has been reached, and what is still to be looked at. A name
    may be pending more than once, and although it has been reached. -/
structure Worklist where
  reached : List Name
  pending : List Name

/-- A name has been reached, or it is pending. -/
def Worklist.Known (state : Worklist) (name : Name) : Prop :=
  name ∈ state.reached ∨ name ∈ state.pending

/-- The members of a set of names, each of them once, in some order. -/
def Lists (order names : List Name) : Prop :=
  order.Nodup ∧ ∀ name, name ∈ order ↔ name ∈ names

instance (order names : List Name) : Decidable (Lists order names) :=
  decidable_of_iff (order.Nodup ∧ order ⊆ names ∧ names ⊆ order) <| and_congr_right fun _ =>
    ⟨fun ⟨there, back⟩ _ => ⟨@there _, @back _⟩,
      fun same => ⟨fun _ => (same _).mp, fun _ => (same _).mpr⟩⟩

/-- One step of the search. Some pending name is taken out. If it has been reached before, that is
    all; otherwise it is reached, and what it refers to becomes pending. Which name it is, and where
    the others are put, is left open. -/
inductive Visits (environment : Environment) : Worklist → Worklist → Prop where
  | old {reached pending rest : List Name} {name : Name} (taken : pending.Perm (name :: rest))
      (known : name ∈ reached) : Visits environment ⟨reached, pending⟩ ⟨reached, rest⟩
  | new {reached pending rest mentioned next : List Name} {name : Name}
      (taken : pending.Perm (name :: rest)) (fresh : name ∉ reached)
      (lists : Lists mentioned (environment.references name))
      (joined : next.Perm (mentioned ++ rest)) :
      Visits environment ⟨reached, pending⟩ ⟨name :: reached, next⟩

/-! ### The search ends -/

/-- A name that is reached takes the weight of what it refers to with it. -/
theorem weightOutside_references_le (environment : Environment) (reached : List Name) (name : Name)
    (fresh : name ∉ reached) :
    weightOutside environment.entries (name :: reached) + (environment.references name).length ≤
      weightOutside environment.entries reached := by
  have included : ∀ other ∈ reached, other ∈ name :: reached :=
    fun _ member => List.mem_cons_of_mem _ member
  unfold references
  split
  · rename_i definition bound
    exact Nat.le_of_lt (weightOutside_lt environment.entries name definition reached _ included
      List.mem_cons_self bound fresh)
  · exact weightOutside_le environment.entries reached _ included

/-- What is left to do: the weight of what has not been reached, and the pending names. -/
def Worklist.weight (environment : Environment) (state : Worklist) : Nat :=
  weightOutside environment.entries state.reached + state.pending.length

/-- Every step leaves less to do. The names that join are listed once, so the weight that a new name
    takes with it pays for them. -/
theorem Visits.weight_lt {environment : Environment} {state next : Worklist}
    (visits : environment.Visits state next) :
    next.weight environment < state.weight environment := by
  cases visits with
  | old taken _ =>
    have shorter := taken.length_eq
    simp only [Worklist.weight, List.length_cons] at shorter ⊢
    omega
  | @new reached pending rest mentioned next name taken fresh lists joined =>
    have shorter := taken.length_eq
    have longer := joined.length_eq
    have once : mentioned.length ≤ (environment.references name).length :=
      lists.1.length_le_of_subset fun other member => (lists.2 other).mp member
    have lighter := weightOutside_references_le environment reached name fresh
    simp only [Worklist.weight, List.length_cons, List.length_append] at shorter longer ⊢
    omega

/-- No search goes on forever, whatever names it takes up first. -/
theorem wellFounded_visits (environment : Environment) :
    WellFounded fun next state => environment.Visits state next :=
  Subrelation.wf (fun visits => visits.weight_lt) (measure (Worklist.weight environment)).wf

/-- The search goes on exactly as long as a name is pending. -/
theorem visits_ends_iff (environment : Environment) (state : Worklist) :
    (∀ next, ¬ environment.Visits state next) ↔ state.pending = [] := by
  obtain ⟨reached, pending⟩ := state
  cases pending with
  | nil =>
    refine iff_of_true (fun next visits => ?_) rfl
    cases visits with
    | old taken => exact List.cons_ne_nil _ _ taken.nil_eq.symm
    | new taken => exact List.cons_ne_nil _ _ taken.nil_eq.symm
  | cons name rest =>
    refine iff_of_false (fun ended => ?_) (List.cons_ne_nil name rest)
    by_cases known : name ∈ reached
    · exact ended _ (.old (.refl _) known)
    · exact ended _
        (.new (.refl _) known ⟨environment.nodup_references name, fun _ => .rfl⟩ (.refl _))

/-! ### What the search finds -/

/-- What holds all along: the free names of the term are known, and so is all that a reached name
    refers to, and whatever is known belongs to all sets of the kind that is looked for. -/
structure Worklist.Explores (environment : Environment) (term : Term)
    (state : Worklist) : Prop where
  free : ∀ name ∈ term.freeNames, state.Known name
  followed : ∀ name ∈ state.reached, ∀ other, environment.Refers name other → state.Known other
  inside : ∀ names, environment.Saturated term names → ∀ name, state.Known name → name ∈ names

/-- The search begins with the free names of the term. -/
theorem Worklist.Explores.start (environment : Environment) (term : Term) {order : List Name}
    (lists : Lists order term.freeNames) : Explores environment term ⟨[], order⟩ where
  free name occurs := .inr ((lists.2 name).mpr occurs)
  followed _ member := absurd member List.not_mem_nil
  inside names saturated name known := by
    rcases known with impossible | pending
    · exact absurd impossible List.not_mem_nil
    · exact saturated.free name ((lists.2 name).mp pending)

/-- A step that follows no name changes nothing about what is known. One that does adds what that
    name refers to. -/
theorem Visits.known {environment : Environment} {state next : Worklist}
    (visits : environment.Visits state next) :
    (next.reached = state.reached ∧ ∀ other, next.Known other ↔ state.Known other) ∨
      ∃ name, next.reached = name :: state.reached ∧ state.Known name ∧
        ∀ other, next.Known other ↔ state.Known other ∨ environment.Refers name other := by
  cases visits with
  | @old reached pending rest name taken known =>
    refine .inl ⟨rfl, fun other => ?_⟩
    simp only [Worklist.Known, taken.mem_iff, List.mem_cons]
    grind
  | @new reached pending rest mentioned next name taken fresh lists joined =>
    refine .inr ⟨name, rfl, .inr (taken.mem_iff.mpr List.mem_cons_self), fun other => ?_⟩
    simp only [Worklist.Known, Refers, taken.mem_iff, joined.mem_iff, List.mem_cons,
      List.mem_append, lists.2]
    grind

/-- One step keeps what holds all along. -/
theorem Worklist.Explores.visits {environment : Environment} {term : Term} {state next : Worklist}
    (explores : state.Explores environment term) (visits : environment.Visits state next) :
    next.Explores environment term := by
  rcases visits.known with ⟨sameReached, known⟩ | ⟨name, reached, wasKnown, known⟩
  · exact {
      free := fun other occurs => (known other).mpr (explores.free other occurs)
      followed := fun source member other refers =>
        (known other).mpr (explores.followed source (sameReached ▸ member) other refers)
      inside := fun names saturated other isKnown =>
        explores.inside names saturated other ((known other).mp isKnown) }
  · constructor
    · exact fun other occurs => (known other).mpr (.inl (explores.free other occurs))
    · intro source member other refers
      rw [reached] at member
      rcases List.mem_cons.mp member with rfl | before
      · exact (known other).mpr (.inr refers)
      · exact (known other).mpr (.inl (explores.followed source before other refers))
    · intro names saturated other isKnown
      rcases (known other).mp isKnown with before | refers
      · exact explores.inside names saturated other before
      · exact saturated.refers (explores.inside names saturated name wasKnown) refers

/-- A whole search keeps what holds all along. -/
theorem Worklist.Explores.run {environment : Environment} {term : Term} {state last : Worklist}
    (explores : state.Explores environment term)
    (run : Relation.ReflTransGen environment.Visits state last) :
    last.Explores environment term := by
  induction run with
  | refl => exact explores
  | tail _ visits inductionHypothesis => exact inductionHypothesis.visits visits

/-- With nothing pending, the names that were reached are the least set that is looked for. -/
theorem Worklist.Explores.isLeast {environment : Environment} {term : Term} {reached : List Name}
    (explores : Explores environment term ⟨reached, []⟩) :
    IsLeast {names | environment.Saturated term names} {name | name ∈ reached} := by
  have isReached : ∀ name, Known ⟨reached, []⟩ name → name ∈ reached :=
    fun name known => known.resolve_right List.not_mem_nil
  constructor
  · exact {
      free := fun name occurs => isReached name (explores.free name occurs)
      closed := fun name member definition bound other occurs =>
        isReached other
          (explores.followed name member other ((refers_iff bound other).mpr occurs)) }
  · exact fun names saturated name member => explores.inside names saturated name (.inl member)

/-! ### One of the searches -/

/-- A pending name that has not been reached is replaced by the names that it
    refers to, and none if it is not bound. -/
theorem reachFrom_cons (environment : Environment) (reached : List Name) (name : Name)
    (pending : List Name) :
    environment.reachFrom reached (name :: pending) =
      if name ∈ reached then environment.reachFrom reached pending
      else environment.reachFrom (name :: reached) (environment.references name ++ pending) := by
  rw [reachFrom, references]
  split
  · rfl
  · split <;> rename_i bound <;> rw [bound]
    rfl

/-- Induction along the search: nothing pending, a name that was reached before,
    and one that is reached now. -/
@[elab_as_elim] theorem reachInduction (environment : Environment)
    {motive : List Name → List Name → Prop}
    (done : ∀ reached, motive reached [])
    (old : ∀ reached name pending, name ∈ reached → motive reached pending →
      motive reached (name :: pending))
    (new : ∀ reached name pending, name ∉ reached →
      motive (name :: reached) (environment.references name ++ pending) →
      motive reached (name :: pending))
    (reached pending : List Name) : motive reached pending := by
  induction reached, pending using reachFrom.induct environment with
  | case1 reached => exact done reached
  | case2 reached name pending member inductionHypothesis =>
    exact old reached name pending member inductionHypothesis
  | case3 reached name pending fresh definition bound inductionHypothesis =>
    refine new reached name pending fresh ?_
    rwa [references, bound]
  | case4 reached name pending fresh unbound inductionHypothesis =>
    refine new reached name pending fresh ?_
    rwa [references, unbound]

/-- Taking up the foremost name first and putting what it refers to in front is one of the ways to
    search. -/
theorem visits_reachFrom (environment : Environment) (reached pending : List Name) :
    Relation.ReflTransGen environment.Visits ⟨reached, pending⟩
      ⟨environment.reachFrom reached pending, []⟩ := by
  induction reached, pending using reachInduction environment with
  | done reached =>
    rw [reachFrom]
  | old reached name pending member inductionHypothesis =>
    rw [reachFrom_cons, if_pos member]
    exact .head (.old (.refl _) member) inductionHypothesis
  | new reached name pending fresh inductionHypothesis =>
    rw [reachFrom_cons, if_neg fresh]
    exact .head (.new (.refl _) fresh ⟨environment.nodup_references name, fun _ => .rfl⟩ (.refl _))
      inductionHypothesis

/-- The names that a term reaches are the least set that is looked for. -/
theorem isLeast_dependencies (environment : Environment) (term : Term) :
    IsLeast {names | environment.Saturated term names}
      {name | name ∈ environment.dependencies term} := by
  have start := Worklist.Explores.start environment term ⟨term.nodup_freeNames, fun _ => .rfl⟩
  exact (start.run (environment.visits_reachFrom [] term.freeNames)).isLeast

/-- In ascending order, every search that has come to an end lists the same names. -/
theorem sorted_reached_eq (environment : Environment) (term : Term) {order reached : List Name}
    (lists : Lists order term.freeNames)
    (run : Relation.ReflTransGen environment.Visits ⟨[], order⟩ ⟨reached, []⟩) :
    Name.sorted reached = Name.sorted (environment.dependencies term) := by
  have least := ((Worklist.Explores.start environment term lists).run run).isLeast
  have same := Set.ext_iff.mp (least.unique (environment.isLeast_dependencies term))
  have ascending (names : List Name) : Name.Ascending (Name.sorted names) :=
    Name.ascending_sorted names
  have perm : (Name.sorted reached).Perm (Name.sorted (environment.dependencies term)) := by
    refine (List.perm_ext_iff_of_nodup (ascending _).nodup (ascending _).nodup).mpr fun name => ?_
    rw [Name.mem_sorted, Name.mem_sorted]
    exact same name
  exact perm.eq_of_pairwise (fun _ _ _ _ below above => absurd below (String.lt_asymm above))
    (ascending _) (ascending _)

end Environment

namespace Session

open Environment

/-- The search for the names that a term reaches in a session comes to an end in whatever order it
    takes them up, and not before nothing is pending any more. What it has reached then is the least
    set that contains the free names of the term and, with every bound name, the free names of its
    definition. The names that are returned are found by one of these searches and are that set. -/
theorem dependencies_are_least (session : Session) (term : Term) :
    (WellFounded fun next state => session.environment.Visits state next) ∧
    (∀ state, (∀ next, ¬ session.environment.Visits state next) ↔ state.pending = []) ∧
    (∀ order reached, Lists order term.freeNames →
      Relation.ReflTransGen session.environment.Visits ⟨[], order⟩ ⟨reached, []⟩ →
      IsLeast {names | session.environment.Saturated term names} {name | name ∈ reached}) ∧
    Relation.ReflTransGen session.environment.Visits ⟨[], term.freeNames⟩
      ⟨session.dependencies term, []⟩ ∧
    IsLeast {names | session.environment.Saturated term names}
      {name | name ∈ session.dependencies term} := by
  refine ⟨session.environment.wellFounded_visits, session.environment.visits_ends_iff, ?_,
    session.environment.visits_reachFrom [] term.freeNames,
    session.environment.isLeast_dependencies term⟩
  intro order reached lists run
  exact ((Worklist.Explores.start session.environment term lists).run run).isLeast

/-- The definitions of `x` and `y` mention each other, and `z` and `w` are not bound. From the end
    of the list, `x` is taken up first and met again behind `y`. -/
theorem dependencies_are_least_cyclic :
    let session : Session := {
      path := consolePath
      environment := .ofList [("x", .app (.var "y") (.var "z")),
        ("y", .lam "a" (.app (.var "x") (.var "a")))]
      limit := 1000, strategy := .normal, results := [], exited := false
      reporter := { (Reporter.create true false).registerFile consolePath with fatal := false } }
    let term : Term := .lam "b" (.app (.var "w") (.app (.var "x") (.var "b")))
    Lists ["w", "x"] term.freeNames ∧
      Relation.ReflTransGen session.environment.Visits ⟨[], ["w", "x"]⟩ ⟨["w", "z", "y", "x"], []⟩ ∧
      IsLeast {names | session.environment.Saturated term names}
        {name | name ∈ ["w", "z", "y", "x"]} := by
  intro session term
  have lists : Lists ["w", "x"] term.freeNames := by decide
  have run : Relation.ReflTransGen session.environment.Visits ⟨[], ["w", "x"]⟩
      ⟨["w", "z", "y", "x"], []⟩ := by
    have toX : session.environment.Visits ⟨[], ["w", "x"]⟩ ⟨["x"], ["w", "z", "y"]⟩ :=
      .new (by decide : List.Perm _ ("x" :: ["w"])) (by decide)
        (by decide : Lists ["z", "y"] _) (by decide)
    have toY : session.environment.Visits ⟨["x"], ["w", "z", "y"]⟩ ⟨["y", "x"], ["w", "z", "x"]⟩ :=
      .new (by decide : List.Perm _ ("y" :: ["w", "z"])) (by decide)
        (by decide : Lists ["x"] _) (by decide)
    have backToX : session.environment.Visits ⟨["y", "x"], ["w", "z", "x"]⟩
        ⟨["y", "x"], ["w", "z"]⟩ :=
      .old (by decide : List.Perm _ ("x" :: _)) (by decide)
    have toZ : session.environment.Visits ⟨["y", "x"], ["w", "z"]⟩ ⟨["z", "y", "x"], ["w"]⟩ :=
      .new (by decide : List.Perm _ ("z" :: ["w"])) (by decide) (by decide : Lists [] _) (by decide)
    have toW : session.environment.Visits ⟨["z", "y", "x"], ["w"]⟩ ⟨["w", "z", "y", "x"], []⟩ :=
      .new (.refl _) (by decide) (by decide : Lists [] _) (.refl _)
    exact .head toX (.head toY (.head backToX (.head toZ (.single toW))))
  obtain ⟨_, _, found, _, _⟩ := dependencies_are_least session term
  exact ⟨lists, run, found ["w", "x"] _ lists run⟩

end Session

end UntypedLambda
