import UntypedLambda.Proofs.BrokenStatements
import UntypedLambda.Script

/-!
# Logical lines of a script

The physical lines of a script fall into groups, each of which is the shortest one that
leaves no parenthesis open; only the last group may stay open. There is exactly one way
to group lines so. The logical lines are the texts of the groups, each with the number
of its first physical line, so that no physical line is lost or taken twice.

The text of a group is what is on its lines, comments and outer blanks aside, with one
blank between two of them. A line on which there is nothing else leaves no trace.
-/

namespace UntypedLambda

namespace Blank

/-- Whether a text neither begins nor ends with a blank. -/
structure Trimmed (text : String) : Prop where
  first : ∀ c ∈ text.toList.head?, isBlank c = false
  last : ∀ c ∈ text.toList.getLast?, isBlank c = false

/-- What is stripped is trimmed. -/
theorem trimmed_stripped (text : String) : Trimmed (stripped text) := by
  constructor
  · intro c member
    rw [stripped, String.toList_ofList] at member
    obtain ⟨rest, taken⟩ := List.rdropWhile_prefix isBlank (text.toList.dropWhile isBlank)
    have nonempty : strip text.toList ≠ [] := by
      rintro none
      simp [none] at member
    have isFirst : (text.toList.dropWhile isBlank).head? = some c := by
      rw [← taken]
      exact (List.head?_append_of_ne_nil _ nonempty).trans member
    simpa [isFirst] using List.head?_dropWhile_not isBlank text.toList
  · rw [stripped, String.toList_ofList]
    exact getLast?_strip text.toList

/-- A trimmed text has nothing to be stripped. -/
theorem Trimmed.stripped_eq {text : String} (trimmed : Trimmed text) : stripped text = text := by
  have nothing : text.toList.dropWhile isBlank = text.toList := by
    cases characters : text.toList with
    | nil => rfl
    | cons first rest =>
      have isFirst : first ∈ text.toList.head? := by rw [characters]; rfl
      rw [List.dropWhile_cons_of_neg (by simp [trimmed.first first isFirst])]
  rw [stripped, strip_eq_dropWhile trimmed.last, nothing, String.ofList_toList]

/-- Two trimmed texts with a blank between them are trimmed, if neither of them is empty. -/
theorem Trimmed.append {text other : String} (trimmed : Trimmed text) (otherTrimmed : Trimmed other)
    (nonempty : text ≠ "") (otherNonempty : other ≠ "") : Trimmed (text ++ " " ++ other) := by
  have some : text.toList ≠ [] := by simpa using nonempty
  have otherSome : other.toList ≠ [] := by simpa using otherNonempty
  constructor
  · rw [String.toList_append, String.toList_append, List.append_assoc,
      List.head?_append_of_ne_nil _ some]
    exact trimmed.first
  · rw [String.toList_append, List.getLast?_append_of_ne_nil _ otherSome]
    exact otherTrimmed.last

/-- One blank at the end of a trimmed text is stripped. -/
theorem Trimmed.stripped_space {text : String} (trimmed : Trimmed text) (nonempty : text ≠ "") :
    stripped (text ++ " ") = text := by
  have some : text.toList ≠ [] := by simpa using nonempty
  have start : (text.toList ++ [' ']).dropWhile isBlank = text.toList ++ [' '] := by
    cases characters : text.toList with
    | nil => exact absurd characters some
    | cons first rest =>
      have isFirst : first ∈ text.toList.head? := by rw [characters]; rfl
      rw [List.cons_append, List.dropWhile_cons_of_neg (by simp [trimmed.first first isFirst])]
  have stop : stripRight (text.toList ++ [' ']) = text.toList :=
    (List.rdropWhile_concat_pos isBlank _ ' ' (by decide)).trans
      (Token.stripRight_eq_self trimmed.last)
  rw [stripped, strip, String.toList_append, show " ".toList = [' '] from rfl, start, stop,
    String.ofList_toList]

end Blank

namespace Layout

/-- What is on a physical line, its comment and the blanks around it aside. -/
def bare (line : String) : String :=
  Blank.stripped (withoutComment line)

/-- The text of physical lines that belong together: what is on them, with one blank between
    two of them. -/
def together (lines : List String) : String :=
  " ".intercalate ((lines.map bare).filter (· ≠ ""))

/-- A line on which there is nothing adds nothing. -/
theorem together_concat_of_empty (lines : List String) {line : String} (empty : bare line = "") :
    together (lines ++ [line]) = together lines := by
  simp [together, empty]

/-- There is nothing on lines of which the text is empty. -/
theorem filter_eq_nil_of_together {lines : List String} (empty : together lines = "") :
    (lines.map bare).filter (· ≠ "") = [] := by
  unfold together at empty
  cases texts : (lines.map bare).filter (· ≠ "") with
  | nil => rfl
  | cons first rest =>
    have member : first ∈ (lines.map bare).filter (· ≠ "") := texts ▸ List.mem_cons_self
    have nonempty : first ≠ "" := by simpa using (List.mem_filter.mp member).2
    rw [texts, ← List.singleton_append] at empty
    cases rest with
    | nil =>
      rw [List.append_nil, String.intercalate_singleton] at empty
      exact absurd empty nonempty
    | cons second rest =>
      rw [String.intercalate_append_of_ne_nil (by simp) (by simp),
        String.intercalate_singleton] at empty
      simp [nonempty] at empty

/-- What is on a further line comes after a blank, or alone. -/
theorem together_concat (lines : List String) {line : String} (nonempty : bare line ≠ "") :
    together (lines ++ [line]) =
      if together lines = "" then bare line else together lines ++ " " ++ bare line := by
  have appended : ((lines ++ [line]).map bare).filter (· ≠ "") =
      (lines.map bare).filter (· ≠ "") ++ [bare line] := by
    simp [nonempty]
  split
  · rename_i empty
    rw [together, appended, filter_eq_nil_of_together empty, List.nil_append,
      String.intercalate_singleton]
  · rename_i some
    have others : (lines.map bare).filter (· ≠ "") ≠ [] := by
      intro none
      exact some (by rw [together, none, String.intercalate_nil])
    rw [together, appended, String.intercalate_append_of_ne_nil others (List.cons_ne_nil _ _),
      String.intercalate_singleton]
    rfl

/-- The text of physical lines is trimmed. -/
theorem trimmed_together (lines : List String) : Blank.Trimmed (together lines) := by
  induction lines using List.reverseRecOn with
  | nil => exact ⟨by simp [together], by simp [together]⟩
  | append_singleton lines line inductionHypothesis =>
    have last : Blank.Trimmed (bare line) := Blank.trimmed_stripped _
    by_cases empty : bare line = ""
    · rw [together_concat_of_empty lines empty]
      exact inductionHypothesis
    · rw [together_concat lines empty]
      split
      · exact last
      · rename_i some
        exact inductionHypothesis.append last some empty

/-- Joining a line to the text of the lines before it gives the text of all of them. -/
theorem joined_together (lines : List String) (line : String) :
    joined (together lines) line = together (lines ++ [line]) := by
  have trimmed := trimmed_together lines
  have last : Blank.Trimmed (bare line) := Blank.trimmed_stripped _
  change (if together lines = "" then bare line
    else Blank.stripped (together lines ++ " " ++ bare line)) = _
  by_cases empty : bare line = ""
  · rw [together_concat_of_empty lines empty, empty]
    split
    · rename_i none
      exact none.symm
    · rename_i some
      rw [String.append_empty]
      exact trimmed.stripped_space some
  · rw [together_concat lines empty]
    split
    · rfl
    · rename_i some
      exact (trimmed.append last some empty).stripped_eq

/-- The text is unfinished after each of some physical lines. -/
def Unfinished (lines : List String) : Prop :=
  ∀ first, first <+: lines → first ≠ [] → isContinued (together first) = true

/-- Physical lines are the shortest that leave no parenthesis open: the text is unfinished
    before the last of them, and finished after it. -/
structure Closes (lines : List String) : Prop where
  nonempty : lines ≠ []
  opened : Unfinished lines.dropLast
  closed : isContinued (together lines) = false

/-- Lines that close begin with no others that do. -/
theorem Closes.eq_of_prefix {lines others : List String} (closes : Closes lines)
    (otherCloses : Closes others)
    (starts : lines <+: others) : lines = others := by
  obtain ⟨rest, whole⟩ := starts
  cases rest using List.reverseRecOn with
  | nil => simpa using whole
  | append_singleton rest last =>
    have before : lines <+: others.dropLast := by
      rw [← whole, ← List.append_assoc, List.dropLast_concat]
      exact List.prefix_append lines rest
    have unfinished := otherCloses.opened lines before closes.nonempty
    simp [closes.closed] at unfinished

/-- Lines are unfinished all the time, or they begin with some that close. -/
theorem unfinished_or_closes (lines : List String) :
    Unfinished lines ∨ ∃ group rest, lines = group ++ rest ∧ Closes group := by
  induction lines using List.reverseRecOn with
  | nil =>
    left
    intro first starts nonempty
    exact absurd (List.prefix_nil.mp starts) nonempty
  | append_singleton lines line inductionHypothesis =>
    obtain unfinished | ⟨group, rest, rfl, closes⟩ := inductionHypothesis
    · cases continued : isContinued (together (lines ++ [line])) with
      | false =>
        refine .inr ⟨lines ++ [line], [], (List.append_nil _).symm, by simp, ?_, continued⟩
        rw [List.dropLast_concat]
        exact unfinished
      | true =>
        left
        intro first starts nonempty
        obtain rfl | before := List.prefix_concat_iff.mp starts
        · exact continued
        · exact unfinished first before nonempty
    · exact .inr ⟨group, rest ++ [line], by rw [List.append_assoc], closes⟩

end Layout

namespace Script

open Layout (together Unfinished Closes isContinued)

/-- The ways to take physical lines in consecutive groups: each group is the shortest that
    leaves no parenthesis open, and only the last one may stay open. -/
inductive Grouping : List String → List (List String) → Prop where
  | none : Grouping [] []
  | unclosed {lines : List String} (nonempty : lines ≠ []) (unfinished : Unfinished lines) :
      Grouping lines [lines]
  | closed {group rest : List String} {groups : List (List String)} (closes : Closes group)
      (grouping : Grouping rest groups) : Grouping (group ++ rest) (group :: groups)

/-- The texts of groups, each with the number of its first line. The first line of all has a
    given number. -/
def numbered (number : Nat) : List (List String) → List LogicalLine
  | [] => []
  | group :: groups => ⟨together group, number⟩ :: numbered (number + group.length) groups

/-- Groups are made of all lines, in order. -/
theorem Grouping.flatten_eq {lines : List String} {groups : List (List String)}
    (grouping : Grouping lines groups) : groups.flatten = lines := by
  induction grouping with
  | none => rfl
  | unclosed => exact List.append_nil _
  | closed _ _ inductionHypothesis => rw [List.flatten_cons, inductionHypothesis]

/-- Lines can be grouped. -/
theorem exists_grouping (lines : List String) : ∃ groups, Grouping lines groups := by
  induction length : lines.length using Nat.strongRecOn generalizing lines with
  | ind count inductionHypothesis =>
    obtain unfinished | ⟨group, rest, rfl, closes⟩ := Layout.unfinished_or_closes lines
    · by_cases empty : lines = []
      · exact ⟨[], empty ▸ .none⟩
      · exact ⟨[lines], .unclosed empty unfinished⟩
    · have shorter : rest.length < count := by
        have positive := List.length_pos_iff.mpr closes.nonempty
        rw [List.length_append] at length
        omega
      obtain ⟨groups, grouping⟩ := inductionHypothesis rest.length shorter rest rfl
      exact ⟨group :: groups, .closed closes grouping⟩

/-- There is no other way to group lines. -/
theorem Grouping.unique {lines : List String} {groups others : List (List String)}
    (grouping : Grouping lines groups) (otherGrouping : Grouping lines others) :
    groups = others := by
  have notBoth {group rest : List String} (closes : Closes group)
      (unfinished : Unfinished (group ++ rest)) :
      False := by
    have continued := unfinished group (List.prefix_append group rest) closes.nonempty
    simp [closes.closed] at continued
  induction grouping generalizing others with
  | none =>
    generalize isEmpty : ([] : List String) = lines at otherGrouping
    cases otherGrouping with
    | none => rfl
    | unclosed nonempty => exact absurd isEmpty.symm nonempty
    | closed closes => exact absurd (List.append_eq_nil_iff.mp isEmpty.symm).1 closes.nonempty
  | unclosed nonempty unfinished =>
    cases otherGrouping with
    | none => exact absurd rfl nonempty
    | unclosed => rfl
    | closed closes => exact (notBoth closes unfinished).elim
  | @closed group rest groups closes _ inductionHypothesis =>
    generalize isWhole : group ++ rest = lines at otherGrouping
    cases otherGrouping with
    | none => exact absurd (List.append_eq_nil_iff.mp isWhole).1 closes.nonempty
    | unclosed _ unfinished => exact (notBoth closes (isWhole ▸ unfinished)).elim
    | @closed otherGroup otherRest _ otherCloses otherGrouping =>
      have same : group = otherGroup := by
        obtain shorter | longer := List.prefix_or_prefix_of_prefix (List.prefix_append group rest)
          (isWhole ▸ List.prefix_append otherGroup otherRest)
        · exact closes.eq_of_prefix otherCloses shorter
        · exact (otherCloses.eq_of_prefix closes longer).symm
      subst same
      obtain rfl := List.append_cancel_left isWhole
      rw [inductionHypothesis otherGrouping]

/-- The group that some lines have begun, if there are any. -/
def begun (number : Nat) (lines : List String) : Option LogicalLine :=
  if lines = [] then .none else some ⟨together lines, number⟩

/-- Grouping takes in one line: it is joined to the text of the group that is open. -/
theorem groupFrom_cons (opened : Option LogicalLine) (number : Nat) (line : String)
    (lines : List String) :
    groupFrom opened number (line :: lines) =
      let group : LogicalLine :=
        ⟨Layout.joined (opened.elim "" LogicalLine.text) line,
          opened.elim number LogicalLine.number⟩
      if isContinued group.text then groupFrom (some group) (number + 1) lines
      else group :: groupFrom .none (number + 1) lines := by
  cases opened <;> rfl

/-- Grouping takes in one line after some others of the same group. -/
theorem groupFrom_begun (number : Nat) (before : List String) (line : String)
    (lines : List String) :
    groupFrom (begun number before) (number + before.length) (line :: lines) =
      if isContinued (together (before ++ [line])) then
        groupFrom (begun number (before ++ [line])) (number + (before ++ [line]).length) lines
      else ⟨together (before ++ [line]), number⟩ ::
        groupFrom .none (number + (before ++ [line]).length) lines := by
  have text : (begun number before).elim "" LogicalLine.text = together before := by
    unfold begun
    split
    · rename_i empty
      rw [empty]
      rfl
    · rfl
  have first : (begun number before).elim (number + before.length) LogicalLine.number = number := by
    unfold begun
    split
    · rename_i empty
      rw [empty]
      rfl
    · rfl
  rw [groupFrom_cons, text, first, Layout.joined_together, List.length_append, ← Nat.add_assoc,
    begun, if_neg (List.append_ne_nil_of_right_ne_nil before (List.cons_ne_nil line []))]
  rfl

/-- As long as the text is unfinished, lines are taken into one group. -/
theorem groupFrom_unfinished (number : Nat) {group : List String} (unfinished : Unfinished group)
    (lines : List String) : groupFrom .none number (group ++ lines) =
      groupFrom (begun number group) (number + group.length) lines := by
  induction group using List.reverseRecOn generalizing lines with
  | nil => rfl
  | append_singleton before line inductionHypothesis =>
    have shorter : Unfinished before := fun first starts =>
      unfinished first (starts.trans (List.prefix_append before [line]))
    have continued := unfinished (before ++ [line]) (List.prefix_refl _) (by simp)
    rw [List.append_assoc, List.singleton_append, inductionHypothesis shorter, groupFrom_begun,
      if_pos continued]

/-- Lines that close are one logical line, and what follows is grouped by itself. -/
theorem groupFrom_closes (number : Nat) {group : List String} (closes : Closes group)
    (lines : List String) :
    groupFrom .none number (group ++ lines) =
      ⟨together group, number⟩ :: groupFrom .none (number + group.length) lines := by
  obtain ⟨nonempty, opened, closed⟩ := closes
  obtain ⟨before, last, rfl⟩ := (List.eq_nil_or_concat' group).resolve_left nonempty
  rw [List.dropLast_concat] at opened
  rw [List.append_assoc, List.singleton_append, groupFrom_unfinished number opened, groupFrom_begun,
    if_neg (by simp [closed])]

/-- The logical lines are the texts of the groups, with the numbers of their first lines. -/
theorem Grouping.groupFrom_eq {lines : List String} {groups : List (List String)}
    (grouping : Grouping lines groups) (number : Nat) :
    groupFrom .none number lines = numbered number groups := by
  induction grouping generalizing number with
  | none => rfl
  | @unclosed lines nonempty unfinished =>
    have whole := groupFrom_unfinished number unfinished []
    rw [List.append_nil, begun, if_neg nonempty] at whole
    exact whole
  | closed closes _ inductionHypothesis =>
    rw [groupFrom_closes number closes, inductionHypothesis]
    rfl

/-- Groups that all close are followed by the groups of the lines that follow. -/
theorem Grouping.append {lines rest : List String} {groups others : List (List String)}
    (grouping : Grouping lines groups) (closes : ∀ group ∈ groups, Closes group)
    (otherGrouping : Grouping rest others) : Grouping (lines ++ rest) (groups ++ others) := by
  induction grouping with
  | none => exact otherGrouping
  | unclosed => exact .closed (closes _ (List.mem_singleton_self _)) otherGrouping
  | closed _ _ inductionHypothesis =>
    rw [List.append_assoc, List.cons_append]
    rw [List.forall_mem_cons] at closes
    exact .closed closes.1 (inductionHypothesis closes.2)

/-- The groups before another one all close, and they are the groups of their lines. -/
theorem Grouping.earlier {lines : List String} {earlier later : List (List String)}
    {group : List String}
    (grouping : Grouping lines (earlier ++ group :: later)) :
    Grouping earlier.flatten earlier ∧ ∀ other ∈ earlier, Closes other := by
  induction earlier generalizing lines with
  | nil => exact ⟨.none, by simp⟩
  | cons first earlier inductionHypothesis =>
    generalize others : earlier ++ group :: later = rest at inductionHypothesis grouping
    rw [List.cons_append, others] at grouping
    cases grouping with
    | unclosed => simp at others
    | closed closes rest =>
      obtain ⟨isGrouping, allClose⟩ := inductionHypothesis rest
      exact ⟨.closed closes isGrouping, List.forall_mem_cons.mpr ⟨closes, allClose⟩⟩

/-- Numbers go on with the lines of the groups before. -/
theorem numbered_append (number : Nat) (groups others : List (List String)) :
    numbered number (groups ++ others) =
      numbered number groups ++ numbered (number + groups.flatten.length) others := by
  induction groups generalizing number with
  | nil => rfl
  | cons group groups inductionHypothesis =>
    rw [List.cons_append, numbered, numbered, inductionHypothesis, List.flatten_cons,
      List.length_append, Nat.add_assoc, List.cons_append]

/-- A logical line stands for one of the groups. -/
theorem exists_of_numbered_eq {number : Nat} {groups : List (List String)}
    {earlier later : List LogicalLine}
    {line : LogicalLine} (split : numbered number groups = earlier ++ line :: later) :
    ∃ before group after, groups = before ++ group :: after ∧ earlier = numbered number before ∧
      line = ⟨together group, number + before.flatten.length⟩ := by
  induction groups generalizing number earlier with
  | nil => simp [numbered] at split
  | cons group groups inductionHypothesis =>
    rw [numbered] at split
    obtain ⟨rfl, rest⟩ | ⟨others, rfl, rest⟩ := List.cons_eq_append_iff.mp split
    · rw [List.cons.injEq] at rest
      exact ⟨[], group, groups, rfl, rfl, rest.1⟩
    · obtain ⟨before, found, after, rfl, rfl, rfl⟩ := inductionHypothesis rest
      refine ⟨group :: before, found, after, rfl, rfl, ?_⟩
      rw [List.flatten_cons, List.length_append, Nat.add_assoc]

/-- No parenthesis is left open after some physical lines: their last logical line is closed. -/
def Settled (lines : List String) : Prop :=
  ∀ line ∈ (groupFrom .none 1 lines).getLast?, isContinued line.text = false

instance (lines : List String) : Decidable (Settled lines) :=
  inferInstanceAs (Decidable (∀ line ∈ (groupFrom .none 1 lines).getLast?,
    isContinued line.text = false))

/-- If the last group closes, then all of them do. -/
theorem Grouping.closes_of_getLast? {lines : List String} {groups : List (List String)}
    (grouping : Grouping lines groups) {number : Nat}
    (closed : ∀ line ∈ (numbered number groups).getLast?, isContinued line.text = false) :
    ∀ group ∈ groups, Closes group := by
  induction grouping generalizing number with
  | none => simp
  | @unclosed lines nonempty unfinished =>
    have continued := unfinished lines (List.prefix_refl lines) nonempty
    simp [closed ⟨together lines, number⟩ rfl] at continued
  | @closed group _ groups closes _ inductionHypothesis =>
    have isLast : ∀ line ∈ (numbered (number + group.length) groups).getLast?,
        isContinued line.text = false := by
      intro line member
      apply closed
      rw [numbered, List.getLast?_cons, member]
      exact Option.mem_some_self line
    exact List.forall_mem_cons.mpr ⟨closes, inductionHypothesis isLast⟩

/-- After settled lines, grouping starts anew. -/
theorem Settled.groupFrom_append {lines : List String} (settled : Settled lines) (number : Nat)
    (rest : List String) : groupFrom .none number (lines ++ rest) =
      groupFrom .none number lines ++ groupFrom .none (number + lines.length) rest := by
  obtain ⟨groups, grouping⟩ := exists_grouping lines
  obtain ⟨others, otherGrouping⟩ := exists_grouping rest
  rw [Settled, grouping.groupFrom_eq] at settled
  have whole := grouping.append (grouping.closes_of_getLast? settled) otherGrouping
  rw [whole.groupFrom_eq, grouping.groupFrom_eq, otherGrouping.groupFrom_eq, numbered_append,
    grouping.flatten_eq]

end Script

end UntypedLambda
