import Mathlib.Data.List.DropRight
import UntypedLambda.Proofs.FreshName

/-!
# Names taken apart and put together

The digits that stand behind a base are found again, one by one, unless the base ends in a subscript
digit itself. Read as a number they lose their leading zeros. What is put together from the base and
the number is therefore the name again exactly if there was no zero to lose, and of all names that
are taken apart alike it is the only one that is written without superfluous zeros.
-/

namespace UntypedLambda

namespace Decimal

/-- Digits without superfluous zeros: only zero itself begins with a zero. -/
def Canonical (ds : List Nat) : Prop :=
  ds.head? = some 0 → ds = [0]

instance (ds : List Nat) : Decidable (Canonical ds) :=
  inferInstanceAs (Decidable (ds.head? = some 0 → ds = [0]))

/-- Numbers are written without superfluous zeros. The digits in front of the last one would be a
    single zero, but they denote something. -/
theorem canonical_digits (number : Nat) : Canonical (digits number) := by
  induction number using digits.induct with
  | case1 number small =>
    rw [digits, if_pos small]
    intro zero
    exact congrArg ([·]) (Option.some.inj zero)
  | case2 number large inductionHypothesis =>
    rw [digits, if_neg large]
    intro zero
    rw [List.head?_append_of_ne_nil _ (digits_ne_nil (number / 10))] at zero
    have nothing : number / 10 = 0 := by
      rw [← value_digits (number / 10), inductionHypothesis zero]
      rfl
    omega

/-- Digits that are read and written again come back if none of them was superfluous. If there are
    several, the first one is no zero, so those in front of the last one are not superfluous
    either, and they denote something. -/
theorem digits_value {ds : List Nat} (nonempty : ds ≠ []) (small : ∀ digit ∈ ds, digit < 10)
    (canonical : Canonical ds) : digits (value ds) = ds := by
  induction ds using List.reverseRecOn with
  | nil => exact absurd rfl nonempty
  | append_singleton front last inductionHypothesis =>
    have lastSmall : last < 10 := small last (by simp)
    rw [value_concat]
    by_cases single : front = []
    · subst single
      rw [digits, if_pos (by simpa [value] using lastSmall)]
      simp [value]
    · have noZero : front.head? ≠ some 0 := by
        intro zero
        rw [← List.head?_append_of_ne_nil front single] at zero
        rcases List.append_eq_singleton_iff.mp (canonical zero) with ⟨noFront, _⟩ | ⟨_, impossible⟩
        · exact single noFront
        · cases impossible
      have frontDigits : digits (value front) = front :=
        inductionHypothesis single (fun digit member => small digit (by simp [member]))
          (fun zero => absurd zero noZero)
      have positive : value front ≠ 0 := by
        intro zero
        rw [zero, digits, if_pos (by decide)] at frontDigits
        exact noZero (by rw [← frontDigits]; rfl)
      rw [digits, if_neg (by omega)]
      rw [show (10 * value front + last) / 10 = value front by omega, frontDigits]
      rw [show (10 * value front + last) % 10 = last by omega]

/-- Digits that are read and written again come back exactly if none of them was superfluous. -/
theorem digits_value_iff {ds : List Nat} (nonempty : ds ≠ []) (small : ∀ digit ∈ ds, digit < 10) :
    digits (value ds) = ds ↔ Canonical ds :=
  ⟨fun same => same ▸ canonical_digits (value ds), digits_value nonempty small⟩

/-- A zero in front of another digit is superfluous; the digit of zero is not. -/
example : Canonical [0] ∧ ¬ Canonical [0, 7] := by decide

end Decimal

namespace Name

/-- A text that does not end in a subscript digit. -/
def Unmarked (text : String) : Prop :=
  ∀ c ∈ text.toList.getLast?, isSubscript c = false

instance (text : String) : Decidable (Unmarked text) :=
  Option.decidableForallMem text.toList.getLast?

/-- The subscript digits are the characters of the ten digits. -/
theorem isSubscript_iff (c : Char) :
    isSubscript c = true ↔ ∃ digit < 10, c = subscriptChar digit := by
  constructor
  · intro isMark
    unfold isSubscript subscriptDigit? at isMark
    split at isMark
    · rename_i inside
      refine ⟨c.toNat - 0x2080, by omega, ?_⟩
      rw [subscriptChar, show 0x2080 + (c.toNat - 0x2080) = c.toNat by omega, Char.ofNat_toNat]
    · cases isMark
  · rintro ⟨digit, small, rfl⟩
    rw [isSubscript, subscriptDigit?_subscriptChar digit small]
    rfl

/-- Subscript digits are the characters of some digits. -/
theorem exists_digits_of_marks (marks : List Char) (isMarks : ∀ c ∈ marks, isSubscript c = true) :
    ∃ ds : List Nat, (∀ digit ∈ ds, digit < 10) ∧ marks = ds.map subscriptChar := by
  induction marks with
  | nil => exact ⟨[], by simp, rfl⟩
  | cons mark rest inductionHypothesis =>
    obtain ⟨digit, digitSmall, rfl⟩ := (isSubscript_iff mark).mp (isMarks mark List.mem_cons_self)
    obtain ⟨ds, small, rfl⟩ :=
      inductionHypothesis fun c member => isMarks c (List.mem_cons_of_mem _ member)
    exact ⟨digit :: ds, by simpa using ⟨digitSmall, small⟩, rfl⟩

/-- A base that does not end in a subscript digit is all that stands before the subscript. -/
theorem baseChars_marked {base : String} (unmarked : Unmarked base) {ds : List Nat}
    (small : ∀ digit ∈ ds, digit < 10) : baseChars (marked base ds) = base.toList := by
  have marks : ∀ c ∈ (ds.map subscriptChar).reverse, isSubscript c = true := by
    intro c member
    obtain ⟨digit, isDigit, rfl⟩ := List.mem_map.mp (List.mem_reverse.mp member)
    exact (isSubscript_iff _).mpr ⟨digit, small digit isDigit, rfl⟩
  have kept : base.toList.rdropWhile isSubscript = base.toList := by
    rw [List.rdropWhile_eq_self_iff]
    intro nonempty
    rw [unmarked _ (List.getLast?_eq_some_getLast nonempty)]
    exact Bool.false_ne_true
  rw [baseChars, marked, String.toList_append, String.toList_ofList, List.reverse_append,
    List.dropWhile_append_of_pos marks]
  exact kept

/-- The base of a name and its subscript make up the name. -/
theorem baseChars_append_subscriptChars (name : Name) :
    baseChars name ++ subscriptChars name = name.toList :=
  List.rdropWhile_append_rtakeWhile

/-- The digits behind such a base are the subscript. -/
theorem subscriptChars_marked {base : String} (unmarked : Unmarked base) {ds : List Nat}
    (small : ∀ digit ∈ ds, digit < 10) :
    subscriptChars (marked base ds) = ds.map subscriptChar := by
  have whole := baseChars_append_subscriptChars (marked base ds)
  rw [baseChars_marked unmarked small, marked, String.toList_append, String.toList_ofList] at whole
  exact List.append_cancel_left whole

/-- What stands before the subscript of a name does not end in a subscript digit. -/
theorem unmarked_baseChars (name : Name) : Unmarked (String.ofList (baseChars name)) := by
  intro c isLast
  rw [String.toList_ofList] at isLast
  obtain ⟨nonempty, rfl⟩ := List.mem_getLast?_eq_getLast isLast
  exact Bool.eq_false_iff.mpr (List.rdropWhile_last_not isSubscript name.toList nonempty)

/-- A name either does not end in a subscript digit or is a base that does not, with digits. -/
theorem unmarked_or_marked (name : Name) :
    Unmarked name ∨ ∃ base ds, Unmarked base ∧ ds ≠ [] ∧ (∀ digit ∈ ds, digit < 10) ∧
      name = marked base ds := by
  obtain ⟨ds, small, marks_eq⟩ := exists_digits_of_marks (subscriptChars name) fun c member =>
    List.mem_rtakeWhile_imp member
  have name_eq : name = marked (String.ofList (baseChars name)) ds := by
    apply String.toList_injective
    rw [marked, String.toList_append, String.toList_ofList, String.toList_ofList, ← marks_eq,
      baseChars_append_subscriptChars]
  by_cases bare : ds = []
  · subst bare
    refine .inl ?_
    rw [name_eq, marked]
    simpa using unmarked_baseChars name
  · exact .inr ⟨_, ds, unmarked_baseChars name, bare, small, name_eq⟩

/-- A name that does not end in a subscript digit is a base without a number. -/
theorem split_of_unmarked {name : Name} (unmarked : Unmarked name) : split name = (name, none) := by
  have noMarks : subscriptChars name = [] := by
    simpa [marked] using @subscriptChars_marked name unmarked [] (by simp)
  rw [split, noMarks]

/-- A name is taken apart into the base and the number of its digits. -/
theorem split_marked {base : String} (unmarked : Unmarked base) {ds : List Nat} (nonempty : ds ≠ [])
    (small : ∀ digit ∈ ds, digit < 10) :
    split (marked base ds) = (base, some (Decimal.value ds)) := by
  have marks := subscriptChars_marked unmarked small
  unfold split
  split
  · rename_i noMarks
    exact absurd (List.map_eq_nil_iff.mp (marks.symm.trans noMarks)) nonempty
  · rw [marks, baseChars_marked unmarked small, String.ofList_toList,
      filterMap_map_subscriptChar ds small]

/-- The base that a name is taken apart into does not end in a subscript digit. -/
theorem unmarked_split (name : Name) : Unmarked (split name).1 := by
  rcases unmarked_or_marked name with unmarked | ⟨base, ds, unmarked, nonempty, small, rfl⟩
  · rw [split_of_unmarked unmarked]
    exact unmarked
  · rw [split_marked unmarked nonempty small]
    exact unmarked

/-- A name with digits is not its base. -/
theorem marked_ne_self {base : String} {ds : List Nat} (nonempty : ds ≠ []) :
    marked base ds ≠ base := by
  intro same
  have noMarks : ds.map subscriptChar = [] := by
    have chars := congrArg String.toList same
    rw [marked, String.toList_append, String.toList_ofList] at chars
    exact List.append_right_eq_self.mp chars
  exact nonempty (List.map_eq_nil_iff.mp noMarks)

/-- A base that does not end in a subscript digit and a number are found again in the name that is
    made of them. -/
theorem split_subscript {base : String} (unmarked : Unmarked base) (number : Nat) :
    split (subscript base number) = (base, some number) := by
  have apart := split_marked unmarked (Decimal.digits_ne_nil number) (Decimal.digits_lt_ten number)
  rw [Decimal.value_digits] at apart
  exact apart

/-- Written again, a name with digits comes back exactly if none of them was superfluous. -/
theorem subscript_value_iff {base : String} {ds : List Nat} (nonempty : ds ≠ [])
    (small : ∀ digit ∈ ds, digit < 10) :
    subscript base (Decimal.value ds) = marked base ds ↔ Decimal.Canonical ds := by
  rw [← Decimal.digits_value_iff nonempty small]
  constructor
  · exact marked_injective (Decimal.digits_lt_ten _) small
  · exact fun same => congrArg (marked base) same

/-- Base and number are found again in the name that is made of them, if the base does not end in
    a subscript digit. Conversely, every name is taken apart into a base that does not, and there is
    no number exactly if the base is the whole name. Otherwise the name is the base with digits that
    denote the number, and it is made of base and number again exactly if none of the digits is
    superfluous. -/
theorem split_inverts_subscript :
    (∀ (base : String) (number : Nat), Unmarked base →
      split (subscript base number) = (base, some number)) ∧
    ∀ (name : Name) (base : String) (number : Option Nat), split name = (base, number) →
      Unmarked base ∧ (number = none ↔ name = base) ∧
      ∀ value, number = some value →
        ∃ ds, ds ≠ [] ∧ (∀ digit ∈ ds, digit < 10) ∧ name = marked base ds ∧
          Decimal.value ds = value ∧ (subscript base value = name ↔ Decimal.Canonical ds) := by
  refine ⟨fun base number unmarked => split_subscript unmarked number, ?_⟩
  intro name base number apart
  rcases unmarked_or_marked name with unmarked | ⟨front, ds, unmarked, nonempty, small, rfl⟩
  · rw [split_of_unmarked unmarked] at apart
    obtain ⟨rfl, rfl⟩ := Prod.mk.inj apart
    exact ⟨unmarked, iff_of_true rfl rfl, by simp⟩
  · rw [split_marked unmarked nonempty small] at apart
    obtain ⟨rfl, rfl⟩ := Prod.mk.inj apart
    refine ⟨unmarked, iff_of_false (Option.some_ne_none _) (marked_ne_self nonempty), ?_⟩
    intro value same
    obtain rfl := Option.some.inj same
    exact ⟨ds, nonempty, small, rfl, rfl, subscript_value_iff nonempty small⟩

/-- A base with a digit that is no subscript digit, and a name that is nothing but a subscript with
    a leading zero: it is taken apart like the name without the zero, which is the one that is
    written. -/
theorem split_inverts_subscript_leading_zero :
    Unmarked "x1" ∧ split (subscript "x1" 10) = ("x1", some 10) ∧
      split "₀₇" = ("", some 7) ∧ Unmarked "" ∧ "₀₇" ≠ "" ∧
      (∃ ds, ds ≠ [] ∧ (∀ digit ∈ ds, digit < 10) ∧ "₀₇" = marked "" ds ∧ Decimal.value ds = 7 ∧
        (subscript "" 7 = "₀₇" ↔ Decimal.Canonical ds)) ∧
      subscript "" 7 = "₇" := by
  obtain ⟨found, apart⟩ := split_inverts_subscript
  have unmarked : Unmarked "x1" := by decide
  have seven : split "₀₇" = ("", some 7) := by decide
  obtain ⟨unmarkedBase, whole, digits⟩ := apart "₀₇" "" (some 7) seven
  have isMarked : "₀₇" ≠ "" := fun same => Option.some_ne_none 7 (whole.mpr same)
  exact ⟨unmarked, found "x1" 10 unmarked, seven, unmarkedBase, isMarked, digits 7 rfl,
    by decide +kernel⟩

end Name

end UntypedLambda
