import Mathlib.Data.Finset.Card
import Mathlib.Order.Bounds.Basic
import UntypedLambda.Proofs.Subscripts

/-!
# The search for a fresh name ends, and at the next one

The search has no bound of its own: it goes on as long as its candidates are in use. It ends all the
same. Its candidates are pairwise distinct, so no more of them are refused than there are names in
use, whatever these look like, and the one that is taken has the least subscript that is above that
of the name and not in use. The attempts that are counted in `firstUnused` never run out first.
-/

namespace UntypedLambda.Name

/-- The subscript after a given one. A name without a subscript counts from zero. -/
def nextSubscript (number : Option Nat) : Nat :=
  match number with
  | none => 0
  | some present => present + 1

/-- The search as it is, without any bound: from a subscript on it refuses so many candidates and
    ends with a name. A candidate is refused if it is in use, and taken otherwise. -/
inductive Search (base : String) (used : List Name) : (number refused : Nat) → Name → Prop where
  | take {number : Nat} (unused : subscript base number ∉ used) :
      Search base used number 0 (subscript base number)
  | refuse {number refused : Nat} {found : Name} (present : subscript base number ∈ used)
      (rest : Search base used (number + 1) refused found) :
      Search base used number (refused + 1) found

/-- The search leaves no choice. -/
theorem Search.unique {base : String} {used : List Name} {number refused count : Nat}
    {found other : Name} (search : Search base used number refused found)
    (another : Search base used number count other) : count = refused ∧ other = found := by
  induction search generalizing count other with
  | take unused =>
    cases another with
    | take => exact ⟨rfl, rfl⟩
    | refuse present => exact absurd present unused
  | refuse present _ inductionHypothesis =>
    cases another with
    | take unused => exact absurd present unused
    | refuse _ rest =>
      obtain ⟨sameCount, sameName⟩ := inductionHypothesis rest
      exact ⟨congrArg (· + 1) sameCount, sameName⟩

/-- The search ends at the first candidate that is not in use. -/
theorem search_of_refusals {base : String} {used : List Name} {number refused : Nat}
    (refusals : ∀ earlier < refused, subscript base (number + earlier) ∈ used)
    (unused : subscript base (number + refused) ∉ used) :
    Search base used number refused (subscript base (number + refused)) := by
  induction refused generalizing number with
  | zero => exact .take unused
  | succ refused inductionHypothesis =>
    have later : ∀ count, number + (count + 1) = number + 1 + count := by omega
    rw [later] at unused ⊢
    refine .refuse (refusals 0 (Nat.succ_pos refused)) (inductionHypothesis ?_ unused)
    intro earlier inside
    rw [← later]
    exact refusals (earlier + 1) (by omega)

/-- From every subscript on, the search refuses at most as many candidates as there are names in
    use, however often these are listed, and the attempts that they allow for lead to the
    candidate that it takes. -/
theorem exists_refused (base : String) (used : List Name) (number : Nat) :
    ∃ refused ≤ used.toFinset.card,
      firstUnused base used used.length number = subscript base (number + refused) ∧
      (∀ earlier < refused, subscript base (number + earlier) ∈ used) ∧
      subscript base (number + refused) ∉ used := by
  obtain ⟨refused, _, taken, refusals, _⟩ := firstUnused_eq base used used.length number
  refine ⟨refused, ?_, taken, refusals, taken ▸ firstUnused_not_mem base used number⟩
  rw [List.card_toFinset]
  exact refused_le_length base used.dedup number refused fun earlier inside =>
    List.mem_dedup.mpr (refusals earlier inside)

/-- The candidate that is taken after some were refused has the least subscript that is not in
    use. -/
theorem isLeast_of_refusals {base : String} {used : List Name} {number refused : Nat}
    (refusals : ∀ earlier < refused, subscript base (number + earlier) ∈ used)
    (unused : subscript base (number + refused) ∉ used) :
    IsLeast {k | number ≤ k ∧ subscript base k ∉ used} (number + refused) := by
  refine ⟨⟨Nat.le_add_right number refused, unused⟩, ?_⟩
  rintro k ⟨above, unusedToo⟩
  by_contra below
  have inside := refusals (k - number) (by omega)
  rw [Nat.add_sub_cancel' above] at inside
  exact unusedToo inside

/-- The subscripts above that of a name are the next one and those that follow it. -/
theorem above_iff_nextSubscript_le (number : Option Nat) (k : Nat) :
    (∀ present ∈ number, present < k) ↔ nextSubscript number ≤ k := by
  cases number with
  | none => simp [nextSubscript]
  | some present =>
    constructor
    · intro above
      exact above present rfl
    · intro reached other same
      obtain rfl := Option.some.inj same
      exact reached

/-- A fresh name is searched from the next subscript on. -/
theorem fresh_eq_firstUnused (name : Name) (used : List Name) :
    name.fresh used =
      firstUnused (split name).1 used used.length (nextSubscript (split name).2) :=
  rfl

/-- A base with a subscript above that of a name is not that name, however the name writes its
    subscript. -/
theorem subscript_ne_of_above {name : Name} {k : Nat}
    (above : ∀ present ∈ (split name).2, present < k) : subscript (split name).1 k ≠ name := by
  intro same
  have apart := split_subscript (unmarked_split name) k
  rw [same] at apart
  exact Nat.lt_irrefl k (above k (by rw [apart]; rfl))

/-- A fresh name has the base of the name that it is made from, and of the subscripts above that of
    the name it has the least one that is not in use. The search for it, which goes on for as long
    as candidates are in use, ends with it and in no other way, and has then refused at most as
    many candidates as there are names in use. The fresh name is another one than the name. -/
theorem fresh_is_next_unused (name : Name) (used : List Name) :
    ∃ number refused, name.fresh used = subscript (split name).1 number ∧
      IsLeast {k | (∀ present ∈ (split name).2, present < k) ∧ subscript (split name).1 k ∉ used}
        number ∧
      (∀ count found, Search (split name).1 used (nextSubscript (split name).2) count found ↔
        count = refused ∧ found = name.fresh used) ∧
      refused ≤ used.toFinset.card ∧ name.fresh used ≠ name := by
  obtain ⟨refused, few, taken, refusals, unused⟩ :=
    exists_refused (split name).1 used (nextSubscript (split name).2)
  rw [← fresh_eq_firstUnused] at taken
  have search := search_of_refusals refusals unused
  have least := isLeast_of_refusals refusals unused
  simp only [← above_iff_nextSubscript_le] at least
  refine ⟨_, refused, taken, least, ?_, few, ?_⟩
  · intro count found
    rw [taken]
    constructor
    · exact search.unique
    · rintro ⟨rfl, rfl⟩
      exact search
  · rw [taken]
    exact subscript_ne_of_above least.1.1

/-- The subscript of the name has a leading zero. Its own spelling and one of the next subscript
    with a zero do not count, one without does. -/
example : fresh "x₀₉" ["x₀₉", "x₉", "x₀₁₀", "x₁₁", "x₁₀"] = "x₁₂" := by decide +kernel

end UntypedLambda.Name
