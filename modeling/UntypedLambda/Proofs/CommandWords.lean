import UntypedLambda.Proofs.AlikeSessions
import UntypedLambda.Proofs.ShellHistory

/-!
# Command words of the shell

The shell takes the command word off a line before the line is read. A line with any other
command word is entered as it is, and so it is executed as what it says. Two of the three
words are put back in front of what follows them, with one blank between: that changes
nothing unless what follows would have made a longer name of the word. The third word ends
the shell whatever follows it.
-/

namespace UntypedLambda

namespace Token

/-- A text that begins with a name carries that name first, if the name ends there. -/
theorem Carries.name_append {name : Name} {following : List Char} {words : List Word}
    (valid : name.Valid) (ends : EndsName following) (carries : Carries following words) :
    Carries (name.toList ++ following) (⟨.name, name.toList⟩ :: words) := by
  obtain ⟨all, splits, rfl⟩ := carries
  exact ⟨_, splits.name valid ends, by rw [List.filter_cons_of_pos (by simp)]⟩

/-- Every text carries some words. -/
theorem exists_carries (characters : List Char) : ∃ words, Carries characters words :=
  ⟨_, _, splits_scanFrom 0 characters, rfl⟩

/-- A name that goes on is a name. -/
theorem valid_append {name : Name} (valid : name.Valid) (more : List Char)
    (continues : ∀ c ∈ more, isNameChar c = true) :
    Name.Valid (String.ofList (name.toList ++ more)) := by
  obtain ⟨first, others, name_eq, isStart, nameChars⟩ := (Name.valid_iff name).mp valid
  refine (Name.valid_iff _).mpr ⟨first, others ++ more, ?_, isStart, ?_⟩
  · rw [String.toList_ofList, name_eq, List.cons_append]
  · exact List.forall_mem_append.mpr ⟨nameChars, continues⟩

/-- A name in front of a text after one blank. The blanks at the beginning of the text are left
    out. -/
theorem Carries.name_space {name : Name} {rest : List Char} {words : List Word} (valid : name.Valid)
    (carries : Carries rest words) :
    Carries (name.toList ++ ' ' :: rest.dropWhile Blank.isBlank)
      (⟨.name, name.toList⟩ :: words) := by
  have separate : EndsName (' ' :: rest.dropWhile Blank.isBlank) := by
    rintro c ⟨rfl⟩
    decide
  have spaced : Carries ([' '] ++ rest.dropWhile Blank.isBlank) words :=
    carries.dropWhile_isBlank.blank_append (List.forall_mem_singleton.mpr (by decide))
  exact spaced.name_append valid separate

/-- A name that a text runs into is not the first word of the text. -/
theorem head?_words_ne {name : Name} {rest : List Char} {next : Char} (valid : name.Valid)
    (runsInto : rest.head? = some next) (isNext : isNameChar next = true) (text : String)
    (isText : text.toList = name.toList ++ rest) :
    (words text).head? ≠ some ⟨.name, name.toList⟩ := by
  obtain ⟨others, carries⟩ := exists_carries (rest.dropWhile isNameChar)
  have longer := valid_append valid (rest.takeWhile isNameChar) fun c member =>
    List.mem_takeWhile_imp member
  have ends : EndsName (rest.dropWhile isNameChar) := by
    intro c member
    simpa [Option.mem_def.mp member] using List.head?_dropWhile_not isNameChar rest
  have whole := carries.name_append longer ends
  rw [String.toList_ofList, List.append_assoc, List.takeWhile_append_dropWhile, ← isText] at whole
  rw [whole.words_eq, List.filter_cons_of_pos (by simp), List.head?_cons]
  intro same
  have none : rest.takeWhile isNameChar = [] := by simpa using same
  cases rest with
  | nil => cases runsInto
  | cons first rest =>
    obtain rfl : first = next := Option.some.inj runsInto
    simp [isNext] at none

end Token

/-- A line that continues none carries its own words. -/
theorem Layout.words_joined (line : String) (physical : '\n' ∉ line.toList) :
    Token.words (joined "" line) = Token.words line := by
  have empty : Token.Carries "".toList [] := Token.carries_nil
  have carries := carries_joined empty (by simp) line physical
  exact words_of_carries carries (uncommented_words line)

namespace Shell

/-- The command word of a text. -/
def commandWord (text : List Char) : String :=
  String.ofList (text.takeWhile isWordChar)

/-- What follows the command word of a text. -/
def afterWord (text : List Char) : List Char :=
  text.dropWhile isWordChar

/-- A text is its command word and what follows it. -/
theorem commandWord_append (text : List Char) :
    (commandWord text).toList ++ afterWord text = text := by
  rw [commandWord, afterWord, String.toList_ofList, List.takeWhile_append_dropWhile]

/-- A command word before what follows it, after one blank. -/
def putBack (text : List Char) : String :=
  commandWord text ++ " " ++ String.ofList ((afterWord text).dropWhile Blank.isBlank)

section Stripped

variable {text : List Char} (last : ∀ c ∈ text.getLast?, Blank.isBlank c = false)
  (more : afterWord text ≠ [])
include last more

/-- What follows the command word of a stripped text does not end with a blank. -/
theorem getLast?_afterWord : ∀ c ∈ (afterWord text).getLast?, Blank.isBlank c = false := by
  intro c member
  refine last c ?_
  rwa [← commandWord_append text, List.getLast?_append_of_ne_nil _ more]

/-- What follows the command word of a stripped text is not only blanks. -/
theorem strip_afterWord_ne_nil : Blank.strip (afterWord text) ≠ [] := by
  have nonblank := getLast?_afterWord last more
  rw [Blank.strip_eq_dropWhile nonblank]
  intro none
  have blank := List.dropWhile_eq_nil_iff.mp none _ (List.getLast_mem more)
  simp [nonblank _ (List.getLast?_eq_some_getLast more)] at blank

/-- Two of the command words are put back in front of what follows them, after one blank. -/
theorem command_of_putBack (load : String → Session → Outcome) (shell : Shell)
    (isPutBack : commandWord text = "help" ∨ commandWord text = "exit") :
    shell.command load text = shell.enter load (putBack text) := by
  have stripped := Blank.strip_eq_dropWhile (getLast?_afterWord last more)
  have argument : String.ofList (Blank.strip (afterWord text)) ≠ "" := by
    intro empty
    refine strip_afterWord_ne_nil last more ?_
    simpa using congrArg String.toList empty
  unfold command
  change (if commandWord text = "help" then
    if String.ofList (Blank.strip (afterWord text)) = "" then _ else _
    else if commandWord text = "exit" then
      if String.ofList (Blank.strip (afterWord text)) = "" then _ else _ else _) = _
  rw [if_neg argument, if_neg argument, putBack, ← stripped]
  obtain isHelp | isExit := isPutBack
  · rw [if_pos isHelp, isHelp]
    rfl
  · rw [if_neg (by rw [isExit]; decide), if_pos isExit, isExit]
    rfl

end Stripped

/-- The command words that are put back are names. -/
theorem valid_of_putBack {word : String} (isPutBack : word = "help" ∨ word = "exit") :
    Name.Valid word := by
  obtain rfl | rfl := isPutBack <;> decide

/-- Putting back a command word keeps a text on its line. -/
theorem physical_putBack {text : List Char} (physical : '\n' ∉ text) :
    '\n' ∉ (putBack text).toList := by
  rw [← commandWord_append text, List.mem_append, not_or] at physical
  intro member
  simp only [putBack, String.toList_append, String.toList_ofList, List.append_assoc,
    List.mem_append] at member
  obtain inWord | inBlank | inRest := member
  · exact physical.1 inWord
  · exact absurd inBlank (by decide)
  · exact physical.2 ((List.dropWhile_sublist _).subset inRest)

/-- The words of a text with its command word put back are the word and those that follow it. -/
theorem words_putBack {text : List Char}
    (isPutBack : commandWord text = "help" ∨ commandWord text = "exit")
    {words : List Word} (carries : Token.Carries (afterWord text) words) :
    Token.words (putBack text) =
      ⟨.name, (commandWord text).toList⟩ :: words.filter (·.kind ≠ .comment) := by
  have spaced := carries.name_space (valid_of_putBack isPutBack)
  have isPut : (putBack text).toList =
      (commandWord text).toList ++ ' ' :: (afterWord text).dropWhile Blank.isBlank := by
    simp [putBack]
  rw [← isPut] at spaced
  rw [spaced.words_eq, List.filter_cons_of_pos (by simp)]

/-- Putting back a command word has no effect if what follows does not make a longer name of
    it: the words of the line are the same. -/
theorem enter_putBack_alike (load : String → Session → Outcome) (shell : Shell)
    (settled : shell.pending = "") {text : List Char} (physical : '\n' ∉ text)
    (isPutBack : commandWord text = "help" ∨ commandWord text = "exit")
    (ends : Token.EndsName (afterWord text)) :
    (shell.enter load (putBack text)).Alike (shell.enter load (String.ofList text)) := by
  obtain ⟨words, carries⟩ := Token.exists_carries (afterWord text)
  have whole := carries.name_append (valid_of_putBack isPutBack) ends
  have isText : (String.ofList text).toList = (commandWord text).toList ++ afterWord text := by
    rw [String.toList_ofList, commandWord_append]
  rw [← isText] at whole
  have textPhysical : '\n' ∉ (String.ofList text).toList := by rwa [String.toList_ofList]
  refine enter_alike load shell ?_ ?_
  · rw [settled, Layout.words_joined _ textPhysical,
      Layout.words_joined _ (physical_putBack physical),
      whole.words_eq, List.filter_cons_of_pos (by simp), words_putBack isPutBack carries]
  · rw [settled, Layout.words_joined _ (physical_putBack physical), words_putBack isPutBack carries]
    rintro word ⟨rfl⟩
    simp

/-- A text with any other command word is entered as it is, with an exclamation mark in front or
    not. -/
theorem command_of_other (load : String → Session → Outcome) (shell : Shell) {text : List Char}
    (other : commandWord text ∉ ["help", "exit", "EOF"]) :
    shell.command load text = shell.enter load (String.ofList text) := by
  simp only [List.mem_cons, List.not_mem_nil, or_false, not_or] at other
  unfold command
  change (if commandWord text = "help" then _ else if commandWord text = "exit" then _
    else if commandWord text = "EOF" then _ else _) = _
  rw [if_neg other.1, if_neg other.2.1, if_neg other.2.2]

/-- The third command word ends the shell, whatever follows it. -/
theorem command_of_end (load : String → Session → Outcome) (shell : Shell) {text : List Char}
    (isEnd : commandWord text = "EOF") :
    shell.command load text = ⟨shell.print "", .ok (some true)⟩ := by
  unfold command
  change (if commandWord text = "help" then _ else if commandWord text = "exit" then _
    else if commandWord text = "EOF" then _ else _) = _
  rw [if_neg (by rw [isEnd]; decide), if_neg (by rw [isEnd]; decide), if_pos isEnd]

/-- A typed line that does not ask for help by a question mark is taken as it is, without the
    blanks around it. Nothing is taken off before an exclamation mark, as this belongs to no
    command word. -/
theorem takeLine_eq_command (load : String → Session → Outcome) (shell : Shell) {line : String}
    (nonempty : Blank.strip line.toList ≠ [])
    (noQuestion : (Blank.strip line.toList).head? ≠ some '?') :
    shell.takeLine load line = shell.command load (Blank.strip line.toList) := by
  unfold takeLine
  split
  · rename_i none
    exact absurd none nonempty
  · rename_i rest isQuestion
    exact absurd (by rw [isQuestion, List.head?_cons]) noQuestion
  · rename_i rest isMark
    have noWord : commandWord ('!' :: rest) = "" := by
      rw [commandWord, List.takeWhile_cons_of_neg (by decide)]
    rw [isMark, command_of_other load shell (by rw [noWord]; decide)]
  · rfl

/-- A typed line that is no command is executed as the line of the term language that it is if
    it begins with no command word, and also if what follows the word makes no longer name of
    it. If it does, other words are entered than those of the line; and a line that
    begins with the third word ends the shell, whatever follows. -/
theorem takeLine_of_text (load : String → Session → Outcome) (shell : Shell) (line : String)
    (settled : shell.pending = "") (physical : '\n' ∉ line.toList)
    (nonempty : Blank.stripped line ≠ "")
    (noQuestion : (Blank.stripped line).toList.head? ≠ some '?')
    (noCommand : Blank.stripped line ∉ ["help", "exit", "EOF"]) :
    (commandWord (Blank.stripped line).toList ∉ ["help", "exit", "EOF"] →
      shell.takeLine load line = shell.enter load (Blank.stripped line)) ∧
    (commandWord (Blank.stripped line).toList ∈ ["help", "exit"] →
      Token.EndsName (afterWord (Blank.stripped line).toList) →
      (shell.takeLine load line).Alike (shell.enter load (Blank.stripped line))) ∧
    (commandWord (Blank.stripped line).toList ∈ ["help", "exit"] →
      ¬ Token.EndsName (afterWord (Blank.stripped line).toList) →
      ∃ entered, shell.takeLine load line = shell.enter load entered ∧
        (Token.words entered).head? ≠ (Token.words (Blank.stripped line)).head?) ∧
    (commandWord (Blank.stripped line).toList = "EOF" →
      shell.takeLine load line = ⟨shell.print "", .ok (some true)⟩) := by
  unfold Blank.stripped at *
  rw [String.toList_ofList] at *
  have last := Blank.getLast?_strip line.toList
  have within : '\n' ∉ Blank.strip line.toList :=
    fun member => physical (Blank.mem_of_mem_strip member)
  have isText : Blank.strip line.toList ≠ [] := by
    rintro none
    exact nonempty (by rw [none])
  rw [takeLine_eq_command load shell isText noQuestion]
  generalize Blank.strip line.toList = text at *
  have more (isWord : commandWord text ∈ ["help", "exit"]) : afterWord text ≠ [] := by
    intro none
    have whole := commandWord_append text
    rw [none, List.append_nil] at whole
    rw [← whole, String.ofList_toList] at noCommand
    simp only [List.mem_cons, List.not_mem_nil, or_false, not_or] at isWord noCommand
    exact isWord.elim noCommand.1 noCommand.2.1
  refine ⟨command_of_other load shell, fun isWord ends => ?_, fun isWord runsInto => ?_,
    command_of_end load shell⟩
  · have isPutBack : commandWord text = "help" ∨ commandWord text = "exit" := by simpa using isWord
    rw [command_of_putBack last (more isWord) load shell isPutBack]
    exact enter_putBack_alike load shell settled within isPutBack ends
  · have isPutBack : commandWord text = "help" ∨ commandWord text = "exit" := by simpa using isWord
    refine ⟨putBack text, command_of_putBack last (more isWord) load shell isPutBack, ?_⟩
    obtain ⟨words, carries⟩ := Token.exists_carries (afterWord text)
    rw [words_putBack isPutBack carries, List.head?_cons]
    obtain ⟨next, runs⟩ := not_forall.mp runsInto
    obtain ⟨isNext, isName⟩ := Classical.not_imp.mp runs
    refine (Token.head?_words_ne (valid_of_putBack isPutBack) isNext
      (by simpa using isName) _ ?_).symm
    rw [String.toList_ofList, commandWord_append]

/-- A word that is put back may stand before two blanks. -/
theorem takeLine_of_text_spaced : ∃ shell, Reachable shell ∧
    (shell.takeLine (Script.run (fun _ => none) 1) "exit  x").Alike
      (shell.enter (Script.run (fun _ => none) 1) "exit  x") := by
  have stripped : Blank.stripped "exit  x" = "exit  x" := by decide +kernel
  have ends : Token.EndsName (afterWord "exit  x".toList) := by
    have after : afterWord "exit  x".toList = [' ', ' ', 'x'] := by decide +kernel
    rw [after]
    rintro c ⟨rfl⟩
    decide
  have effect (session : Session) :
      ((create session).takeLine (Script.run (fun _ => none) 1) "exit  x").Alike
      ((create session).enter (Script.run (fun _ => none) 1) "exit  x") := by
    have whole := takeLine_of_text (Script.run (fun _ => none) 1) (create session) "exit  x" rfl
      (by decide +kernel) (by rw [stripped]; decide +kernel) (by rw [stripped]; decide +kernel)
      (by rw [stripped]; decide +kernel)
    rw [stripped] at whole
    exact whole.2.1 (by decide +kernel) ends
  exact ⟨_, .started true false {} rfl (by with_unfolding_all rfl), effect _⟩

/-- A name that begins with a command word cannot be bound, and a line that begins with the third
    word is not executed. -/
theorem command_word_breaks_name : ∃ shell, Reachable shell ∧ shell.pending = "" ∧
    (shell.takeLine (Script.run (fun _ => none) 1)
      "exit-now = λx. x").shell.session.environment.get? "exit-now" = none ∧
    (shell.enter (Script.run (fun _ => none) 1)
      "exit-now = λx. x").shell.session.environment.get? "exit-now" =
        some (.lam "x" (.var "x")) ∧
    (shell.takeLine (Script.run (fun _ => none) 1) "EOF x").verdict = .ok (some true) ∧
    (shell.enter (Script.run (fun _ => none) 1) "EOF x").verdict = .ok (some false) := by
  refine ⟨_, .started true false {} rfl (by with_unfolding_all rfl), rfl, ?_, ?_, ?_, ?_⟩
  · with_unfolding_all rfl
  · with_unfolding_all rfl
  · with_unfolding_all rfl
  · with_unfolding_all rfl

end Shell

end UntypedLambda
