import UntypedLambda.Text.Lines

/-!
# Lines that are written to a file

A file with given lines has each of them, and a line feed after it. If there are no line
feeds and no carriage returns in the lines, then they are read back. The lines of a file
have none.
-/

namespace UntypedLambda

namespace Lines

/-- The text of a file with given lines. -/
def toFile (lines : List String) : String :=
  String.join (lines.map (· ++ "\n"))

/-- Where no line ends with a carriage return, all lines end alike. -/
theorem unifyEnds_eq_self {characters : List Char} (plain : '\r' ∉ characters) :
    unifyEnds characters = characters := by
  induction characters with
  | nil => rfl
  | cons c rest inductionHypothesis =>
    obtain ⟨different, others⟩ : '\r' ≠ c ∧ '\r' ∉ rest := by simpa using plain
    rw [unifyEnds, inductionHypothesis others]
    · rintro _ rfl
      exact absurd rfl different
    · rintro rfl
      exact absurd rfl different

/-- Characters are split at the first line feed. -/
theorem split_append {line : List Char} (physical : '\n' ∉ line) (rest : List Char) :
    split (line ++ '\n' :: rest) = line :: split rest := by
  induction line with
  | nil => rfl
  | cons c line inductionHypothesis =>
    obtain ⟨different, others⟩ : '\n' ≠ c ∧ '\n' ∉ line := by simpa using physical
    rw [List.cons_append, split, inductionHypothesis others]
    rintro rfl
    exact absurd rfl different

/-- Lines that are written to a file are read back. -/
theorem ofFile_toFile {lines : List String}
    (plain : ∀ line ∈ lines, '\n' ∉ line.toList ∧ '\r' ∉ line.toList) :
    ofFile (toFile lines) = lines := by
  have text : (toFile lines).toList = lines.flatMap fun line => line.toList ++ ['\n'] := by
    simp [toFile, String.toList_join, List.flatMap_map]
  have returnless : '\r' ∉ lines.flatMap fun line => line.toList ++ ['\n'] := by
    simpa using fun line member => (plain line member).2
  rw [ofFile, text, unifyEnds_eq_self returnless]
  clear text returnless
  induction lines with
  | nil => rfl
  | cons line lines inductionHypothesis =>
    rw [List.forall_mem_cons] at plain
    rw [List.flatMap_cons, List.append_assoc, List.singleton_append, split_append plain.1.1,
      List.map_cons, inductionHypothesis plain.2, String.ofList_toList]

/-- No carriage return is left where all lines end alike. -/
theorem not_mem_unifyEnds (characters : List Char) : '\r' ∉ unifyEnds characters := by
  fun_induction unifyEnds characters with
  | case1 rest inductionHypothesis => simpa using inductionHypothesis
  | case2 rest _ inductionHypothesis => simpa using inductionHypothesis
  | case3 c rest notPair notReturn inductionHypothesis =>
    rw [List.mem_cons, not_or]
    exact ⟨fun isReturn => notReturn isReturn.symm, inductionHypothesis⟩
  | case4 => simp

/-- No line has a line feed in it, and all its characters are of the text. -/
theorem plain_of_mem_split {characters line : List Char} (member : line ∈ split characters) :
    '\n' ∉ line ∧ ∀ c ∈ line, c ∈ characters := by
  fun_induction split characters generalizing line with
  | case1 => simp at member
  | case2 rest inductionHypothesis =>
    obtain rfl | member := List.mem_cons.mp member
    · simp
    · obtain ⟨physical, among⟩ := inductionHypothesis member
      exact ⟨physical, fun c isOf => List.mem_cons_of_mem _ (among c isOf)⟩
  | case3 c rest different none inductionHypothesis =>
    obtain rfl := List.mem_singleton.mp member
    exact ⟨by simpa using fun isFeed => different isFeed.symm, by simp⟩
  | case4 c rest different first others isSplit inductionHypothesis =>
    rw [isSplit] at inductionHypothesis
    obtain rfl | member := List.mem_cons.mp member
    · obtain ⟨physical, among⟩ := inductionHypothesis List.mem_cons_self
      rw [List.mem_cons, not_or, List.forall_mem_cons]
      exact ⟨⟨fun isFeed => different isFeed.symm, physical⟩, List.mem_cons_self,
        fun c isOf => List.mem_cons_of_mem _ (among c isOf)⟩
    · obtain ⟨physical, among⟩ := inductionHypothesis (List.mem_cons_of_mem _ member)
      exact ⟨physical, fun c isOf => List.mem_cons_of_mem _ (among c isOf)⟩

/-- The lines of a file have neither line feeds nor carriage returns in them. -/
theorem plain_ofFile (text : String) :
    ∀ line ∈ ofFile text, '\n' ∉ line.toList ∧ '\r' ∉ line.toList := by
  intro line member
  obtain ⟨characters, isLine, rfl⟩ := List.mem_map.mp member
  obtain ⟨physical, among⟩ := plain_of_mem_split isLine
  rw [String.toList_ofList]
  exact ⟨physical, fun isReturn => not_mem_unifyEnds text.toList (among _ isReturn)⟩

/-- There is a file that has only the first lines of another. -/
theorem exists_ofFile_eq_take (text : String) (count : Nat) :
    ∃ truncated, ofFile truncated = (ofFile text).take count :=
  ⟨toFile ((ofFile text).take count),
    ofFile_toFile fun line member => plain_ofFile text line (List.mem_of_mem_take member)⟩

end Lines

end UntypedLambda
