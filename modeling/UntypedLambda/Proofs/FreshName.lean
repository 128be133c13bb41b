import UntypedLambda.Name

/-!
# Fresh names are unused

A subscript can be read back, so names of one base with different subscripts are
different names. The search for an unused name therefore refuses pairwise
distinct candidates, all of them used: it cannot refuse more of them than there
are used names.
-/

namespace UntypedLambda

/-- A number has at least one digit. -/
theorem Decimal.digits_ne_nil (number : Nat) : digits number ≠ [] := by
  rw [digits]
  split
  · simp
  · simp

/-- Every digit of a number is below ten. -/
theorem Decimal.digits_lt_ten (number : Nat) : ∀ digit ∈ digits number, digit < 10 := by
  induction number using digits.induct with
  | case1 number small =>
    rw [digits, if_pos small]
    simpa using small
  | case2 number large inductionHypothesis =>
    rw [digits, if_neg large]
    intro digit member
    rcases List.mem_append.mp member with higher | lowest
    · exact inductionHypothesis digit higher
    · have last : digit = number % 10 := List.mem_singleton.mp lowest
      omega

namespace Name

/-- A subscript character is read as the digit that it was written for. -/
theorem subscriptDigit?_subscriptChar (digit : Nat) (small : digit < 10) :
    subscriptDigit? (subscriptChar digit) = some digit := by
  decide +revert

/-- Subscript characters are read back digit by digit, none of them skipped. -/
theorem filterMap_map_subscriptChar (ds : List Nat) (small : ∀ digit ∈ ds, digit < 10) :
    (ds.map subscriptChar).filterMap subscriptDigit? = ds := by
  induction ds with
  | nil => rfl
  | cons digit rest inductionHypothesis =>
    rw [List.map_cons, List.filterMap_cons_some
      (subscriptDigit?_subscriptChar digit (small digit List.mem_cons_self))]
    rw [inductionHypothesis fun other member => small other (List.mem_cons_of_mem digit member)]

/-- The name with this base and these digits as its subscript. -/
def marked (base : String) (ds : List Nat) : Name :=
  base ++ String.ofList (ds.map subscriptChar)

/-- Names of one base with different digits are different. -/
theorem marked_injective {base : String} {ds others : List Nat} (small : ∀ digit ∈ ds, digit < 10)
    (othersSmall : ∀ digit ∈ others, digit < 10) (same : marked base ds = marked base others) :
    ds = others := by
  have sameMarks : ds.map subscriptChar = others.map subscriptChar :=
    String.ofList_injective ((String.append_right_inj base).mp same)
  rw [← filterMap_map_subscriptChar ds small, sameMarks,
    filterMap_map_subscriptChar others othersSmall]

/-- Names of one base with different subscripts are different. -/
theorem subscript_injective (base : String) (number other : Nat)
    (same : subscript base number = subscript base other) : number = other := by
  have sameDigits : Decimal.digits number = Decimal.digits other :=
    marked_injective (Decimal.digits_lt_ten number) (Decimal.digits_lt_ten other) same
  rw [← Decimal.value_digits number, sameDigits, Decimal.value_digits]

/-- The search takes a candidate after refusing all those before it. Unless the
    attempts are used up, the candidate that it takes is unused. -/
theorem firstUnused_eq (base : String) (used : List Name) (attempts number : Nat) :
    ∃ refused ≤ attempts,
      firstUnused base used attempts number = subscript base (number + refused) ∧
      (∀ earlier < refused, subscript base (number + earlier) ∈ used) ∧
      (refused < attempts → subscript base (number + refused) ∉ used) := by
  induction attempts generalizing number with
  | zero => exact ⟨0, Nat.le_refl 0, rfl, by simp, by simp⟩
  | succ attempts inductionHypothesis =>
    unfold firstUnused
    by_cases present : subscript base number ∈ used
    · obtain ⟨refused, bound, taken, refusals, unused⟩ := inductionHypothesis (number + 1)
      have later : ∀ count, number + 1 + count = number + (count + 1) := by omega
      simp only [later] at taken refusals unused
      refine ⟨refused + 1, by omega, by rw [if_pos present, taken], ?_, by simpa using unused⟩
      intro earlier inside
      cases earlier with
      | zero => exact present
      | succ earlier => exact refusals earlier (by omega)
    · exact ⟨0, by omega, by rw [if_neg present, Nat.add_zero], by simp, fun _ => present⟩

/-- Candidates that are all used are at most as many as the used names, because
    they are pairwise distinct. -/
theorem refused_le_length (base : String) (used : List Name) (number refused : Nat)
    (refusals : ∀ earlier < refused, subscript base (number + earlier) ∈ used) :
    refused ≤ used.length := by
  have distinct : ((List.range refused).map fun earlier =>
      subscript base (number + earlier)).Nodup := by
    refine List.pairwise_map.mpr (List.nodup_range.imp ?_)
    intro earlier later different same
    have sameNumber : number + earlier = number + later := subscript_injective base _ _ same
    omega
  have included :
      ((List.range refused).map fun earlier => subscript base (number + earlier)) ⊆ used := by
    intro candidate member
    obtain ⟨earlier, inside, rfl⟩ := List.mem_map.mp member
    exact refusals earlier (List.mem_range.mp inside)
  simpa using distinct.length_le_of_subset included

/-- With as many attempts as there are used names, the search ends at an unused
    one. -/
theorem firstUnused_not_mem (base : String) (used : List Name) (number : Nat) :
    firstUnused base used used.length number ∉ used := by
  obtain ⟨refused, bound, taken, refusals, unused⟩ := firstUnused_eq base used used.length number
  rw [taken]
  intro present
  have refusalsToo : ∀ earlier < refused + 1, subscript base (number + earlier) ∈ used := by
    intro earlier inside
    rcases Nat.lt_succ_iff_lt_or_eq.mp inside with before | rfl
    · exact refusals earlier before
    · exact present
  have few : refused + 1 ≤ used.length := refused_le_length base used number _ refusalsToo
  exact unused (by omega) present

/-- A fresh name is not in use. -/
theorem fresh_not_mem (name : Name) (used : List Name) : name.fresh used ∉ used :=
  firstUnused_not_mem _ used _

end Name

end UntypedLambda
