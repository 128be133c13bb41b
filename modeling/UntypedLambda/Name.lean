import UntypedLambda.Text.Decimal

/-!
# Names and their subscripts

A name is any text. The subscript digits at its end, if there are any, are read
as a decimal number; what stands before them is its base. A fresh name keeps the
base and takes the next subscript that is not in use.

Reading a subscript forgets leading zeros, so `split` has no inverse in general:
two different names may have the same base and the same number.
-/

namespace UntypedLambda

/-- Names are compared character by character and ordered by code point. -/
abbrev Name := String

namespace Name

/-- The subscript character of a digit below ten: U+2080 and the nine after it. -/
def subscriptChar (digit : Nat) : Char :=
  Char.ofNat (0x2080 + digit)

/-- The digit that a subscript character stands for. -/
def subscriptDigit? (c : Char) : Option Nat :=
  if 0x2080 ≤ c.toNat ∧ c.toNat ≤ 0x2089 then some (c.toNat - 0x2080) else none

/-- Whether a character is one of the ten subscript digits. -/
def isSubscript (c : Char) : Bool :=
  (subscriptDigit? c).isSome

/-- The name with this base and this subscript. -/
def subscript (base : String) (number : Nat) : Name :=
  base ++ String.ofList ((Decimal.digits number).map subscriptChar)

/-- The base of a name, in characters. -/
def baseChars (name : Name) : List Char :=
  (name.toList.reverse.dropWhile isSubscript).reverse

/-- The subscript digits at the end of a name, in reading order. -/
def subscriptChars (name : Name) : List Char :=
  (name.toList.reverse.takeWhile isSubscript).reverse

/-- A name taken apart into its base and its subscript. There is no number
    exactly if the name does not end in a subscript digit. -/
def split (name : Name) : String × Option Nat :=
  match subscriptChars name with
  | [] => (name, none)
  | marks => (String.ofList (baseChars name),
      some (Decimal.value (marks.filterMap subscriptDigit?)))

/-- The first name with this base that is not in use, from a given subscript
    on. At most `attempts` candidates are refused; the one after them is taken
    as it is, so the caller provides as many attempts as there are used names. -/
def firstUnused (base : String) (used : List Name) : (attempts number : Nat) → Name
  | 0, number => subscript base number
  | attempts + 1, number =>
    if subscript base number ∈ used then firstUnused base used attempts (number + 1)
    else subscript base number

/-- The next name like this one that is not in use: the same base, and the
    least subscript above the present one. A name without a subscript counts
    from zero. -/
def fresh (name : Name) (used : List Name) : Name :=
  let (base, number) := split name
  firstUnused base used used.length (match number with | none => 0 | some k => k + 1)

/-- Put a name before the names of an ascending list that come after it. The
    smaller ones stay in front; `rest` says what becomes of the larger ones, and
    the name itself is not repeated. -/
def mergeOne (name : Name) (rest : List Name → List Name) : List Name → List Name
  | [] => name :: rest []
  | other :: others =>
    if name < other then name :: rest (other :: others)
    else if name = other then name :: rest others
    else other :: mergeOne name rest others

/-- The members of two ascending lists in ascending order, each of them once. -/
def union : List Name → List Name → List Name
  | [] => fun names => names
  | name :: names => mergeOne name (union names)

/-- The members of a list in ascending order, each of them once. -/
def sorted (names : List Name) : List Name :=
  names.foldr (fun name others => union [name] others) []

/-- Nothing is lost and nothing but the name is added, if the rest is treated
    that way. -/
theorem mem_mergeOne (candidate name : Name) (rest : List Name → List Name) (names : List Name)
    (kept : List Name)
    (mem_rest : ∀ others, candidate ∈ rest others ↔ candidate ∈ kept ∨ candidate ∈ others) :
    candidate ∈ mergeOne name rest names ↔ candidate ∈ name :: kept ∨ candidate ∈ names := by
  induction names with
  | nil => simp [mergeOne, mem_rest]
  | cons other others inductionHypothesis =>
    unfold mergeOne
    split
    · simp [mem_rest, or_assoc]
    · split
      · rename_i same
        simp only [same, List.mem_cons, mem_rest]
        grind
      · simp only [List.mem_cons, inductionHypothesis]
        grind

/-- A name is in the union exactly if it is in one of the lists. -/
@[simp] theorem mem_union (candidate : Name) (names others : List Name) :
    candidate ∈ union names others ↔ candidate ∈ names ∨ candidate ∈ others := by
  induction names generalizing others with
  | nil => simp [union]
  | cons name names inductionHypothesis =>
    exact mem_mergeOne candidate name (union names) others names inductionHypothesis

/-- Ascending order, which leaves no room for repetitions. -/
abbrev Ascending (names : List Name) : Prop :=
  names.Pairwise (· < ·)

/-- No name is repeated in ascending order. -/
theorem Ascending.nodup {names : List Name} (ascending : Ascending names) : names.Nodup := by
  refine List.Pairwise.imp ?_ ascending
  rintro name _ before rfl
  exact String.lt_irrefl name before

/-- A name is put where it belongs among ascending ones, if the rest is treated that
    way and is above the name. -/
theorem ascending_mergeOne (name : Name) (rest : List Name → List Name) (names kept : List Name)
    (mem_rest : ∀ candidate others, candidate ∈ rest others ↔ candidate ∈ kept ∨ candidate ∈ others)
    (ascending_rest : ∀ others, Ascending others → Ascending (rest others))
    (above : ∀ other ∈ kept, name < other) (ascending : Ascending names) :
    Ascending (mergeOne name rest names) := by
  induction names with
  | nil =>
    refine List.pairwise_cons.mpr ⟨fun candidate member => ?_, ascending_rest [] ascending⟩
    exact above candidate (by simpa using (mem_rest candidate []).mp member)
  | cons other others inductionHypothesis =>
    obtain ⟨first, later⟩ := List.pairwise_cons.mp ascending
    unfold mergeOne
    split
    · rename_i before
      refine List.pairwise_cons.mpr ⟨fun candidate member => ?_, ascending_rest _ ascending⟩
      rcases (mem_rest candidate _).mp member with among | among
      · exact above candidate among
      · rcases List.mem_cons.mp among with rfl | among
        · exact before
        · exact String.lt_trans before (first candidate among)
    · split
      · rename_i same
        refine List.pairwise_cons.mpr ⟨fun candidate member => ?_, ascending_rest _ later⟩
        rcases (mem_rest candidate _).mp member with among | among
        · exact above candidate among
        · exact same ▸ first candidate among
      · rename_i notBefore different
        have after : other < name :=
          Std.lt_of_le_of_ne (String.not_lt.mp notBefore) (Ne.symm different)
        refine List.pairwise_cons.mpr ⟨fun candidate member => ?_, inductionHypothesis later⟩
        rcases (mem_mergeOne candidate name rest others kept (mem_rest candidate)).mp member with
          among | among
        · rcases List.mem_cons.mp among with rfl | among
          · exact after
          · exact String.lt_trans after (above candidate among)
        · exact first candidate among

/-- The union of ascending lists is ascending. -/
theorem ascending_union (names others : List Name) (ascending : Ascending names)
    (othersAscending : Ascending others) : Ascending (union names others) := by
  induction names generalizing others with
  | nil => exact othersAscending
  | cons name names inductionHypothesis =>
    obtain ⟨above, later⟩ := List.pairwise_cons.mp ascending
    exact ascending_mergeOne name (union names) others names
      (fun candidate others => mem_union candidate names others)
      (fun others => inductionHypothesis others later) above othersAscending

/-- Sorting a list brings it into ascending order. -/
theorem ascending_sorted (names : List Name) : Ascending (sorted names) := by
  induction names with
  | nil => exact .nil
  | cons name names inductionHypothesis =>
    exact ascending_union [name] (sorted names) (List.pairwise_singleton _ name) inductionHypothesis

/-- A name is in the sorted list exactly if it is in the list. -/
theorem mem_sorted (candidate : Name) (names : List Name) :
    candidate ∈ sorted names ↔ candidate ∈ names := by
  induction names with
  | nil => simp [sorted]
  | cons name names inductionHypothesis =>
    rw [show sorted (name :: names) = union [name] (sorted names) from rfl, mem_union,
      inductionHypothesis, List.mem_singleton, List.mem_cons]

end Name

end UntypedLambda
