import Mathlib.Logic.Relation
import UntypedLambda.Proofs.Executions
import UntypedLambda.Proofs.KeyOrder

/-!
# What loading leaves on the trail

A file that has been loaded is not on the trail any more, and neither are the files that it
has loaded in turn. As long as no file loads itself, nothing else happens to the trail: the
entries that were there before stand where they stood, with the lines that they had.
-/

namespace UntypedLambda

/-- An activity takes files off the trail, each of them one of those that it may load, and
    leaves the other entries as they are. -/
def Session.Clears (among : String → Prop) (session next : Session) : Prop :=
  next.path = session.path ∧ ∃ removed, (∀ path ∈ removed, among path) ∧
    next.reporter.trail = session.reporter.trail.without removed

namespace Session

variable {among : String → Prop}

/-- Doing nothing on the trail takes no file off it. -/
theorem Clears.of_place {session next : Session} (place : SamePlace session next) :
    Clears among session next :=
  ⟨place.path, [], by simp, by rw [place.trail, OrderedMap.without_nil]⟩

/-- Two activities take off what each of them does. -/
theorem Clears.trans {session middle next : Session} (first : Clears among session middle)
    (second : Clears among middle next) : Clears among session next := by
  obtain ⟨firstPath, firstRemoved, firstAmong, firstTrail⟩ := first
  obtain ⟨secondPath, secondRemoved, secondAmong, secondTrail⟩ := second
  refine ⟨secondPath.trans firstPath, firstRemoved ++ secondRemoved, fun path member => ?_, ?_⟩
  · exact (List.mem_append.mp member).elim (firstAmong path) (secondAmong path)
  · rw [secondTrail, firstTrail, OrderedMap.without_without]

/-- Files that may be loaded are among those that another activity may load. -/
theorem Clears.mono {others : String → Prop} (included : ∀ path, among path → others path)
    {session next : Session} (clears : Clears among session next) : Clears others session next := by
  obtain ⟨path, removed, isAmong, trail⟩ := clears
  exact ⟨path, removed, fun other member => included other (isAmong other member), trail⟩

/-- What is done takes off only files among those that are named. -/
def ClearsIfDone (among : String → Prop) (session : Session) (outcome : Outcome) : Prop :=
  ∀ next, outcome = .done next → Clears among session next

/-- One activity after the other takes off what both of them do. -/
theorem composes_clears (among : String → Prop) : Script.Composes (ClearsIfDone among) where
  nothing _ _ done := by
    cases done
    exact .of_place ⟨rfl, rfl, rfl⟩
  andThen first second next done := (first _ rfl).trans (second next done)

/-- A statement takes off what the file does that it loads. -/
theorem execute_clears {load : String → Session → Outcome} (session : Session)
    {statement : Statement}
    (loads : ∀ path, statement.action = .load path →
      ClearsIfDone among session (load path session)) :
    ClearsIfDone among session (session.execute load statement) := by
  intro next done
  obtain ⟨path, asks, executes⟩ | ⟨fault, executes⟩ | ⟨other, executes, place⟩ :=
    execute_cases load session statement
  · exact loads path asks next (executes.symm.trans done)
  · exact absurd (done.symm.trans executes) Outcome.done_ne_failed
  · cases executes.symm.trans done
    exact .of_place place

/-- A line of a file is registered under the path of the file. -/
theorem trail_enter (session : Session) {path : String} (named : path ≠ "") (line : TrailLine) :
    (session.enter path line).reporter.trail = session.reporter.trail.set path (some line) := by
  rw [enter, if_neg named]
  rfl

end Session

namespace Script

/-- The files that a file comes to load. They can all be read. -/
def Below (files : Files) (outer path : String) : Prop :=
  files path ≠ none ∧ Relation.TransGen (Loads files) outer path

/-- The files that loading a file may load, itself among them. They can all be read. -/
def Within (files : Files) (outer path : String) : Prop :=
  files path ≠ none ∧ Relation.ReflTransGen (Loads files) outer path

variable {files : Files}

/-- A file takes off itself and what its lines take off. -/
theorem clears_file {path : String} (readable : files path ≠ none) {session next : Session}
    (clears : Session.Clears (Below files path)
      ((session.withReporter (·.registerFile path)).withReporter (·.forgetLine path))
      (next.withReporter (·.forgetLine path))) :
    Session.Clears (Within files path) session (next.withReporter (·.forgetFile path)) := by
  obtain ⟨samePath, removed, below, trail⟩ := clears
  replace trail : next.reporter.trail.set path none =
      OrderedMap.without ((session.reporter.trail.set path none).set path none) removed := trail
  refine ⟨samePath, removed ++ [path], fun other member => ?_, ?_⟩
  · obtain inner | itself := List.mem_append.mp member
    · exact ⟨(below other inner).1, (below other inner).2.to_reflTransGen⟩
    · obtain rfl := List.mem_singleton.mp itself
      exact ⟨readable, .refl⟩
  · have last : path ∈ removed ++ [path] := List.mem_append_right _ (List.mem_singleton_self path)
    calc next.reporter.trail.erase path
        = (next.reporter.trail.set path none).without [path] := by
          rw [OrderedMap.erase_eq_without,
            OrderedMap.without_set_of_mem _ _ (List.mem_singleton_self path)]
      _ = (session.reporter.trail.set path none).without (removed ++ [path]) := by
          rw [trail, OrderedMap.set_set, OrderedMap.without_without]
      _ = session.reporter.trail.without (removed ++ [path]) :=
          OrderedMap.without_set_of_mem _ _ last

variable (acyclic : ∀ path, ¬ Relation.TransGen (Loads files) path path)
include acyclic

/-- A line of a file takes off what its statements do, apart from its own entry, which it leaves
    without a line. -/
theorem clears_line {path : String} (named : path ≠ "") {session next : Session}
    {line : TrailLine} (clears : Session.Clears (Below files path) (session.enter path line) next) :
    Session.Clears (Below files path) (session.withReporter (·.forgetLine path))
      ((next.withReporter (·.forgetLine path)).withReporter (·.forgetLine path)) := by
  obtain ⟨samePath, removed, below, trail⟩ := clears
  have kept : path ∉ removed := fun member => acyclic path (below path member).2
  refine ⟨samePath, removed, below, ?_⟩
  calc (next.reporter.trail.set path none).set path none
      = ((session.reporter.trail.set path (some line)).without removed).set path none := by
        rw [OrderedMap.set_set, trail, session.trail_enter named]
    _ = (session.reporter.trail.set path none).without removed := by
        rw [← OrderedMap.without_set_of_not_mem _ _ kept, OrderedMap.set_set]

variable (nameless : files "" = none)
include nameless

/-- Statements take files off the trail that lie below the file of their line, and so do lines,
    apart from the entry of their file. A file takes off itself as well. -/
theorem clears_steps : Steps files
    (fun path => Session.ClearsIfDone (Below files path))
    (fun path session outcome => path ≠ "" → ∀ next, outcome = .done next →
      Session.Clears (Below files path) (session.withReporter (·.forgetLine path))
        (next.withReporter (·.forgetLine path)))
    (fun path => Session.ClearsIfDone (Within files path)) where
  composeStatements path := Session.composes_clears (Below files path)
  composeLines path := by
    constructor
    · intro session _ next done
      cases done
      exact .of_place ⟨rfl, rfl, rfl⟩
    · intro session middle outcome first second named next done
      exact (first named middle rfl).trans (second named next done)
  statement _ session loads := session.execute_clears loads
  malformed _ _ _ _ _ _ done := absurd done.symm Outcome.done_ne_failed
  line {path session line outcome} executed named next done := by
    obtain ⟨middle, rfl, forgets⟩ := Outcome.andThen_eq_done done
    cases forgets
    rw [if_neg named]
    exact clears_line acyclic named (executed middle rfl)
  unread _ _ _ _ done := absurd done.symm Outcome.done_ne_failed
  file {path text session outcome} found executed next done := by
    obtain ⟨middle, rfl, forgets⟩ := Outcome.andThen_eq_done done
    cases forgets
    have readable : files path ≠ none := by simp [found]
    have named : path ≠ "" := by
      rintro rfl
      exact readable nameless
    exact clears_file readable (executed named middle rfl)
  inner loads loaded next done :=
    (loaded next done).mono fun _ within => ⟨within.1, .head' loads within.2⟩

/-- A file that is loaded takes off itself and what files it loads, and nothing else on the
    trail changes. -/
theorem clears_run (depth : Nat) (path : String) (session final : Session)
    (done : run files depth path session = .done final) :
    Session.Clears (Within files path) session final :=
  (clears_steps acyclic nameless).run depth path session final done

/-- Lines of a file take off what files they load, but not the file itself. -/
theorem clears_lines {left : Nat} {path text : String} (found : files path = some text)
    {lines : List LogicalLine} (included : ∀ line ∈ lines, line ∈ logicalLines text)
    {session final : Session}
    (executed : runLines (run files left) path (session.withReporter (·.registerFile path)) lines =
      .done final) :
    ∃ removed, final.path = session.path ∧ (∀ other ∈ removed, Below files path other) ∧
      final.reporter.trail.set path none =
        (session.reporter.trail.without removed).set path none := by
  have named : path ≠ "" := by
    rintro rfl
    rw [nameless] at found
    cases found
  have steps := clears_steps acyclic nameless
  obtain ⟨samePath, removed, below, trail⟩ :=
    steps.runLines found included (steps.run left) _ named final executed
  have kept : path ∉ removed := fun member => acyclic path (below path member).2
  refine ⟨removed, samePath, below, trail.trans ?_⟩
  rw [← OrderedMap.without_set_of_not_mem _ _ kept]
  exact congrArg (OrderedMap.without · removed) (OrderedMap.set_set ..)

end Script

end UntypedLambda
