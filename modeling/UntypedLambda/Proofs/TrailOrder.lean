import Mathlib.Data.List.Perm.Lattice
import UntypedLambda.Proofs.LoadedFiles
import UntypedLambda.Proofs.ShellHistory

/-!
# The order of the trail

While statements are executed, the lines that are registered are those that are being
executed, as long as no file loads itself. They stand on the trail in the order in which
their files were put there first. A file that was loaded leaves the trail, but one that
failed stays on it, so a file that is loaded inside of another one may stand before that one
if it has failed earlier. Unless this happens, the innermost line is the last one.
-/

namespace UntypedLambda

namespace Trail

/-- The trail with lines of further files registered, one after the other. -/
def entered (trail : Trail) (nesting : Script.Nesting) : Trail :=
  nesting.foldl (fun trail (path, line) => trail.set path (some line)) trail

/-- The last line is registered after the others. -/
theorem entered_concat (trail : Trail) (nesting : Script.Nesting) (path : String)
    (line : TrailLine) :
    trail.entered (nesting ++ [(path, line)]) = (trail.entered nesting).set path (some line) := by
  rw [entered, List.foldl_append]
  rfl

/-- Registering lines may be exchanged with removing other files. -/
theorem without_entered {removed : List String} (nesting : Script.Nesting) (trail : Trail)
    (kept : ∀ path ∈ removed, path ∉ nesting.map Prod.fst) :
    OrderedMap.without (trail.entered nesting) removed =
      entered (trail.without removed) nesting := by
  induction nesting generalizing trail with
  | nil => rfl
  | cons entry nesting inductionHypothesis =>
    obtain ⟨path, line⟩ := entry
    have notFirst : path ∉ removed := fun member => kept path member List.mem_cons_self
    have notLater : ∀ other ∈ removed, other ∉ nesting.map Prod.fst := fun other member later =>
      kept other member (List.mem_cons_of_mem path later)
    refine (inductionHypothesis (trail.set path (some line)) notLater).trans ?_
    rw [OrderedMap.without_set_of_not_mem _ _ notFirst]
    rfl

/-- Files that are not registered before are registered with their lines. -/
theorem get?_entered (nesting : Script.Nesting) (trail : Trail)
    (distinct : (nesting.map Prod.fst).Nodup)
    (path : String) (line : TrailLine) :
    (trail.entered nesting).get? path = some (some line) ↔
      (path, line) ∈ nesting ∨
        path ∉ nesting.map Prod.fst ∧ trail.get? path = some (some line) := by
  induction nesting generalizing trail with
  | nil => simp [entered]
  | cons entry nesting inductionHypothesis =>
    obtain ⟨other, given⟩ := entry
    rw [List.map_cons, List.nodup_cons] at distinct
    refine (inductionHypothesis (trail.set other (some given)) distinct.2).trans ?_
    rw [OrderedMap.get?_set, List.mem_cons, List.map_cons, List.mem_cons, Prod.mk.injEq]
    by_cases same : path = other
    · subst same
      have absent : (path, line) ∉ nesting := fun member =>
        distinct.1 (List.mem_map.mpr ⟨(path, line), member, rfl⟩)
      simp [distinct.1, absent, eq_comm]
    · simp [same]

/-- Files that are new on the trail are put there in order. -/
theorem keys_entered (nesting : Script.Nesting) (trail : Trail)
    (distinct : (nesting.map Prod.fst).Nodup)
    (new : ∀ path ∈ nesting.map Prod.fst, path ∉ trail.keys) :
    (trail.entered nesting).keys = trail.keys ++ nesting.map Prod.fst := by
  induction nesting generalizing trail with
  | nil => simp [entered]
  | cons entry nesting inductionHypothesis =>
    obtain ⟨path, line⟩ := entry
    rw [List.map_cons, List.nodup_cons] at distinct
    rw [List.map_cons, List.forall_mem_cons] at new
    have keys := OrderedMap.keys_set_of_not_mem trail (some line) new.1
    refine (inductionHypothesis (trail.set path (some line)) distinct.2
      fun other member => ?_).trans ?_
    · rw [keys, List.mem_append, List.mem_singleton, not_or]
      exact ⟨new.2 other member, fun same => distinct.1 (same ▸ member)⟩
    · rw [keys, List.append_assoc]
      rfl

end Trail

namespace Script

/-- What holds of a moment: it is in the session's place, every line that is being executed is
    one of another file, each of these files comes to load what is loaded next, and the
    trail is that of the beginning, without some files, with these lines entered. -/
structure Placed (files : Files) (start : Session) (nesting : Nesting) (session : Session)
    (focus : Focus) :
    Prop where
  path : session.path = start.path
  distinct : (nesting.map Prod.fst).Nodup
  outer : ∀ inner, focus.Asks inner → ∀ path ∈ nesting.map Prod.fst,
    path = start.path ∨ Relation.TransGen (Loads files) path inner
  trail : ∃ removed, session.reporter.trail =
    Trail.entered (start.reporter.trail.without removed) nesting

variable {files : Files} {start : Session} {depth : Nat} {typed : TrailLine}

/-- Taking files off the trail that are not being executed is taking them off beforehand. -/
theorem Placed.without {nesting : Nesting} {session : Session} {focus : Focus}
    (placed : Placed files start nesting session focus) {removed : List String}
    (kept : ∀ path ∈ removed, path ∉ nesting.map Prod.fst) :
    ∃ others, session.reporter.trail.without removed =
      Trail.entered (start.reporter.trail.without others) nesting := by
  obtain ⟨before, trail⟩ := placed.trail
  exact ⟨before ++ removed,
    by rw [trail, Trail.without_entered _ _ kept, OrderedMap.without_without]⟩

/-- A typed line is entered on the trail that was there before. -/
theorem placed_typed (start : Session) (typed : TrailLine) :
    Placed files start [(start.path, typed)] (start.enter "" typed) (.line typed.text) where
  path := rfl
  distinct := List.nodup_singleton _
  outer _ _ _ member := .inl (List.mem_singleton.mp member)
  trail := ⟨[], by rw [OrderedMap.without_nil start.reporter.trail]; rfl⟩

variable (acyclic : ∀ path, ¬ Relation.TransGen (Loads files) path path)
  (nameless : files "" = none) (console : files start.path = none)
include acyclic console

/-- No file that is loaded next is one that is being executed. -/
theorem Placed.foreign {nesting : Nesting} {session : Session} {focus : Focus}
    (placed : Placed files start nesting session focus) {inner path : String}
    (asks : focus.Asks inner) (within : Within files inner path) :
    path ∉ nesting.map Prod.fst := by
  intro member
  obtain rfl | loads := placed.outer inner asks path member
  · exact within.1 console
  · exact acyclic path (loads.trans_left within.2)

include nameless

/-- The statements of a line that are done take files off the trail, but none that is being
    executed. -/
theorem Placed.reached {left : Nat} {nesting : Nesting} {session next : Session} {text : String}
    {earlier later : List Statement} {statement : Statement}
    (placed : Placed files start nesting session (.line text))
    (parsed : Statement.parse text = .ok (earlier ++ statement :: later))
    (executed : session.executeAll (run files left) earlier = .done next) :
    Placed files start nesting next (.statement statement) := by
  have asks {other : Statement} (member : other ∈ earlier ++ statement :: later) {path : String}
      (loads : other.action = .load path) : (Focus.line text).Asks path :=
    ⟨_, parsed, other, member, loads⟩
  have clears : Session.Clears (· ∉ nesting.map Prod.fst) session next := by
    refine (Session.composes_clears _).executeAll (fun other member before => ?_) session _ executed
    refine before.execute_clears fun inner loads after loaded => ?_
    refine (clears_run acyclic nameless left inner before after loaded).mono fun path within => ?_
    exact placed.foreign acyclic console (asks (List.mem_append_left _ member) loads) within
  obtain ⟨samePath, removed, kept, trail⟩ := clears
  refine ⟨samePath.trans placed.path, placed.distinct, fun inner loads => ?_, ?_⟩
  · exact placed.outer inner (asks (List.mem_append_right _ List.mem_cons_self) loads)
  · exact trail ▸ placed.without kept

/-- A line of a file that is loaded is entered last. The lines before it, which are done, have
    taken files off the trail, but none that is being executed. -/
theorem Placed.loaded {left : Nat} {nesting : Nesting} {session next : Session}
    {path source text : String} {earlier later : List LogicalLine} {line : LogicalLine}
    (placed : Placed files start nesting session (.statement ⟨.load path, source⟩))
    (found : files path = some text) (grouped : logicalLines text = earlier ++ line :: later)
    (executed : runLines (run files left) path
      (session.withReporter (·.registerFile path)) earlier =
      .done next) :
    Placed files start (nesting ++ [(path, ⟨line.text, some line.number⟩)])
      (next.enter path ⟨line.text, some line.number⟩) (.line line.text) := by
  have member : line ∈ logicalLines text := grouped ▸ List.mem_append_right _ List.mem_cons_self
  have readable : files path ≠ none := by simp [found]
  have new : path ∉ nesting.map Prod.fst :=
    placed.foreign acyclic console rfl ⟨readable, .refl⟩
  have named : path ≠ "" := by
    rintro rfl
    exact readable nameless
  obtain ⟨removed, samePath, below, trail⟩ := clears_lines acyclic nameless found
    (fun other among => grouped ▸ List.mem_append_left _ among) executed
  have kept : ∀ other ∈ removed, other ∉ nesting.map Prod.fst := fun other among =>
    placed.foreign acyclic console rfl
      ⟨(below other among).1, (below other among).2.to_reflTransGen⟩
  obtain ⟨others, removes⟩ := placed.without kept
  refine ⟨samePath.trans placed.path, ?_, fun inner asks other among => ?_, others, ?_⟩
  · rw [List.map_append, List.nodup_append]
    refine ⟨placed.distinct, List.nodup_singleton _, fun outer isOuter inner isInner same => ?_⟩
    obtain rfl := List.mem_singleton.mp isInner
    exact new (same ▸ isOuter)
  · have loads : Loads files path inner := ⟨text, found, line, member, asks⟩
    rw [List.map_append, List.mem_append] at among
    obtain among | among := among
    · exact (placed.outer path rfl other among).imp_right fun reaches => reaches.tail loads
    · obtain rfl := List.mem_singleton.mp among
      exact .inr (.single loads)
  · rw [next.trail_enter named, Trail.entered_concat, ← removes]
    calc next.reporter.trail.set path (some ⟨line.text, some line.number⟩)
        = (next.reporter.trail.set path none).set path (some ⟨line.text, some line.number⟩) :=
          (OrderedMap.set_set ..).symm
      _ = (session.reporter.trail.without removed).set path
            (some ⟨line.text, some line.number⟩) := by
          rw [trail, OrderedMap.set_set]

/-- Every moment is as described, if no file loads itself and the session's path is no file. -/
theorem Underway.placed {left : Nat} {nesting : Nesting} {session : Session} {focus : Focus}
    (underway : Underway files depth start typed left nesting session focus) :
    Placed files start nesting session focus := by
  induction underway with
  | typed => exact placed_typed start typed
  | reached _ parsed executed placed =>
    exact placed.reached acyclic nameless console parsed executed
  | loaded _ _ found grouped executed _ placed =>
    exact placed.loaded acyclic nameless console found grouped executed

end Script

namespace Trail

/-- What a trail shows of the lines that are being executed, when it was another one before
    the outermost of them. They are all registered, and nothing else is. They are in order if
    their files are keys in order, and so they are if no file but the outermost one was on the
    trail before. What is reported is then the innermost line, or all lines from the outermost
    inwards. -/
structure Shows (trail before : Trail) (nesting : Script.Nesting) : Prop where
  registered : trail.registered.Perm nesting
  ordered : trail.registered = nesting ↔ (nesting.map Prod.fst).Sublist trail.keys
  new : (∀ path ∈ nesting.tail.map Prod.fst, path ∉ before.keys) → trail.registered = nesting
  reported : trail.registered = nesting →
    trail.innermost? = nesting.getLast? ∧ trail.visible = nesting

/-- Lines that were entered are registered in order if their files are keys in order. -/
theorem registered_eq_iff {trail : Trail} {nesting : Script.Nesting}
    (registered : trail.registered.Perm nesting) :
    trail.registered = nesting ↔ (nesting.map Prod.fst).Sublist trail.keys := by
  constructor
  · intro same
    exact same ▸ trail.registered_sublist
  · intro ordered
    have lookups : nesting = (nesting.map Prod.fst).filterMap trail.registeredAt := by
      rw [List.filterMap_map]
      refine (List.filterMap_some.symm.trans (List.filterMap_congr fun (path, line) member => ?_))
      have found := (trail.mem_registered path line).mp (registered.mem_iff.mpr member)
      simp [registeredAt, found]
    have sublist : nesting.Sublist trail.registered := by
      rw [registered_eq, lookups]
      exact ordered.filterMap trail.registeredAt
    exact (sublist.eq_of_length registered.length_eq.symm).symm

/-- Lines whose files were not on the trail, but for that of the first one, are entered in the
    order of the keys. -/
theorem sublist_keys_entered (trail : Trail) (nesting : Script.Nesting)
    (distinct : (nesting.map Prod.fst).Nodup)
    (new : ∀ path ∈ nesting.tail.map Prod.fst, path ∉ trail.keys) :
    (nesting.map Prod.fst).Sublist (trail.entered nesting).keys := by
  cases nesting with
  | nil => exact List.nil_sublist _
  | cons entry nesting =>
    obtain ⟨path, line⟩ := entry
    rw [List.map_cons, List.nodup_cons] at distinct
    have present (other : String) : other ∈ (trail.set path (some line)).keys ↔
        other = path ∨ other ∈ trail.keys := OrderedMap.mem_keys_setEntry ..
    have keys := keys_entered nesting (trail.set path (some line)) distinct.2 fun other member => by
      rw [present, not_or]
      exact ⟨fun same => distinct.1 (same ▸ member), new other member⟩
    have first : [path].Sublist (trail.set path (some line)).keys :=
      List.singleton_sublist.mpr ((present path).mpr (.inl rfl))
    exact keys ▸ first.append_right (nesting.map Prod.fst)

end Trail

/-- An empty line asks for nothing. -/
theorem Statement.parse_empty : parse "" = .ok [] := by
  with_unfolding_all rfl

namespace Script

/-- A line that is being executed is not empty, unless it is yet to be read. -/
theorem Underway.text_ne_empty {files : Files} {start : Session} {depth left : Nat}
    {typed : TrailLine}
    {nesting : Nesting} {session : Session} {focus : Focus}
    (underway : Underway files depth start typed left nesting session focus)
    (nonempty : ∀ text, focus = .line text → text ≠ "") : ∀ entry ∈ nesting, entry.2.text ≠ "" := by
  induction underway with
  | typed => exact fun entry member => List.mem_singleton.mp member ▸ nonempty _ rfl
  | reached _ parsed _ inductionHypothesis =>
    refine inductionHypothesis fun text same => ?_
    cases same
    rintro rfl
    simp [Statement.parse_empty] at parsed
  | loaded _ _ _ _ _ _ inductionHypothesis =>
    intro entry member
    obtain earlier | last := List.mem_append.mp member
    · exact inductionHypothesis (fun text same => by cases same) entry earlier
    · exact List.mem_singleton.mp last ▸ nonempty _ rfl

/-- The trail shows the lines that are being executed, if nothing was registered before. -/
theorem Placed.shows {files : Files} {start : Session} {nesting : Nesting} {session : Session}
    {focus : Focus} (placed : Placed files start nesting session focus)
    (unregistered : start.reporter.trail.registered = [])
    (nonempty : ∀ entry ∈ nesting, entry.2.text ≠ "") :
    session.reporter.trail.Shows start.reporter.trail nesting := by
  obtain ⟨removed, trail⟩ := placed.trail
  have registered : session.reporter.trail.registered.Perm nesting := by
    refine (List.perm_ext_iff_of_nodup ?_ (.of_map _ placed.distinct)).mpr fun (path, line) => ?_
    · exact Trail.nodup_registered _
    · rw [Trail.mem_registered, trail, Trail.get?_entered nesting _ placed.distinct]
      refine or_iff_left fun before => ?_
      have earlier := (Trail.mem_registered_without ..).mp ((Trail.mem_registered ..).mpr before.2)
      exact absurd (unregistered ▸ earlier.2) List.not_mem_nil
  have ordered := Trail.registered_eq_iff registered
  refine ⟨registered, ordered, fun new => ordered.mpr ?_, fun same => ?_⟩
  · rw [trail]
    refine Trail.sublist_keys_entered _ nesting placed.distinct fun path member present => ?_
    rw [OrderedMap.keys_without] at present
    exact new path member (List.mem_filter.mp present).1
  · rw [Trail.innermost?_eq, Trail.visible_eq, same]
    exact ⟨rfl, List.filter_eq_self.mpr fun entry member => by simpa using nonempty entry member⟩

end Script

/-- In a shell that was reached by typing lines, the trail shows the lines that are being executed
    at every moment at which a statement is, and also when a line has failed, if no file loads
    itself and the session's own path is no file. -/
theorem Shell.trail_shows_nesting {shell : Shell} (reachable : Reachable shell) (files : Files)
    (acyclic : ∀ path, ¬ Relation.TransGen (Script.Loads files) path path)
    (nameless : files "" = none) (console : files shell.session.path = none)
    (depth : Nat) (line : TrailLine) :
    (∀ left nesting session statement,
      Script.Underway files depth shell.session line left nesting session (.statement statement) →
      session.reporter.trail.Shows shell.session.reporter.trail nesting) ∧
    (∀ final failure,
      shell.session.add (Script.run files depth) line.text line.number "" = .failed final failure →
      ∃ left nesting focus,
        Script.Underway files depth shell.session line left nesting final focus ∧
        Script.Refused left focus failure ∧
        final.reporter.trail.Shows shell.session.reporter.trail nesting) := by
  have unregistered := reachable.atRest.unregistered
  constructor
  · intro left nesting session statement underway
    have nonempty := underway.text_ne_empty fun text same => by cases same
    exact (underway.placed acyclic nameless console).shows unregistered nonempty
  · intro final failure fails
    obtain ⟨left, nesting, focus, underway, refused⟩ := Script.Underway.exists_refused line fails
    have nonempty := underway.text_ne_empty fun text same => by
      rintro rfl
      subst same
      cases refused with
      | malformed parsed =>
        simp [Statement.parse_empty] at parsed
    exact ⟨left, nesting, focus, underway, refused,
      (underway.placed acyclic nameless console).shows unregistered nonempty⟩

/-- A file that loads another one, of which the second line cannot be read. -/
def Script.failingInside : Files := fun path =>
  if path = "a.lc" then some ":load \"b.lc\""
  else if path = "b.lc" then some "x = y\nx )"
  else none

namespace Script

/-- The first file loads the second one, and that is all. -/
theorem loads_failingInside {outer inner : String} (loads : Loads failingInside outer inner) :
    outer = "a.lc" ∧ inner = "b.lc" := by
  obtain ⟨text, found, line, member, statements, parsed, statement, among, asks⟩ := loads
  unfold failingInside at found
  split at found
  · rename_i outerIs
    cases found
    have lines : logicalLines ":load \"b.lc\"" = [⟨":load \"b.lc\"", 1⟩] := by
      with_unfolding_all rfl
    have reads : Statement.parse ":load \"b.lc\"" = .ok [⟨.load "b.lc", ":load \"b.lc\""⟩] := by
      with_unfolding_all rfl
    obtain rfl := List.mem_singleton.mp (lines ▸ member)
    cases reads.symm.trans parsed
    obtain rfl := List.mem_singleton.mp among
    cases asks
    exact ⟨outerIs, rfl⟩
  split at found
  · cases found
    have lines : logicalLines "x = y\nx )" = [⟨"x = y", 1⟩, ⟨"x )", 2⟩] := by with_unfolding_all rfl
    have reads : Statement.parse "x = y" = .ok [⟨.bind "x" (.var "y"), "x = y"⟩] := by
      with_unfolding_all rfl
    have refuses : (Statement.parse "x )").toOption = none := by with_unfolding_all rfl
    obtain rfl | last := List.mem_cons.mp (lines ▸ member)
    · cases reads.symm.trans parsed
      obtain rfl := List.mem_singleton.mp among
      cases asks
    · obtain rfl := List.mem_singleton.mp last
      rw [parsed] at refuses
      cases refuses
  · cases found

/-- Neither of the two files loads itself. -/
theorem acyclic_failingInside (path : String) :
    ¬ Relation.TransGen (Loads failingInside) path path := by
  have ends {outer inner : String} (reaches : Relation.TransGen (Loads failingInside) outer inner) :
      outer = "a.lc" ∧ inner = "b.lc" := by
    induction reaches with
    | single loads => exact loads_failingInside loads
    | tail _ loads inductionHypothesis =>
      exact ⟨inductionHypothesis.1, (loads_failingInside loads).2⟩
  intro cycle
  obtain ⟨rfl, same⟩ := ends cycle
  exact absurd same (by decide)

/-- The moment at which the first line of the second file is executed inside of the first one. -/
theorem underway_failingInside (start : Session) (number : Option Int) : ∃ session,
    Underway failingInside 2 start ⟨":load \"a.lc\"", number⟩ 0
      [(start.path, ⟨":load \"a.lc\"", number⟩), ("a.lc", ⟨":load \"b.lc\"", some 1⟩),
        ("b.lc", ⟨"x = y", some 1⟩)] session (.statement ⟨.bind "x" (.var "y"), "x = y"⟩) ∧
    session.reporter.trail = ((((start.reporter.trail.set start.path
      (some ⟨":load \"a.lc\"", number⟩)).set "a.lc" none).set "a.lc"
      (some ⟨":load \"b.lc\"", some 1⟩)).set "b.lc" none).set "b.lc" (some ⟨"x = y", some 1⟩) := by
  have outer : Statement.parse ":load \"a.lc\"" =
      .ok ([] ++ ⟨.load "a.lc", ":load \"a.lc\""⟩ :: []) := by with_unfolding_all rfl
  have inner : Statement.parse ":load \"b.lc\"" =
      .ok ([] ++ ⟨.load "b.lc", ":load \"b.lc\""⟩ :: []) := by with_unfolding_all rfl
  have binding : Statement.parse "x = y" = .ok ([] ++ ⟨.bind "x" (.var "y"), "x = y"⟩ :: []) := by
    with_unfolding_all rfl
  have outerLines : logicalLines ":load \"b.lc\"" = [] ++ ⟨":load \"b.lc\"", 1⟩ :: [] := by
    with_unfolding_all rfl
  have innerLines : logicalLines "x = y\nx )" = [] ++ ⟨"x = y", 1⟩ :: [⟨"x )", 2⟩] := by
    with_unfolding_all rfl
  have types : Underway failingInside 2 start ⟨":load \"a.lc\"", number⟩ 2 _ _
      (.line ":load \"a.lc\"") := .typed
  have entersOuter : Underway failingInside 2 start ⟨":load \"a.lc\"", number⟩ 1 _ _
      (.line ":load \"b.lc\"") :=
    (types.reached outer rfl).loaded (by decide) rfl outerLines rfl (.inl rfl)
  have entersInner : Underway failingInside 2 start ⟨":load \"a.lc\"", number⟩ 0 _ _
      (.line "x = y") :=
    (entersOuter.reached inner rfl).loaded (by decide) rfl innerLines rfl (.inl rfl)
  exact ⟨_, entersInner.reached binding rfl, rfl⟩

end Script

namespace Shell

/-- In a new shell, the three lines stand on the trail from the outermost to the innermost one. -/
theorem trail_shows_nesting_anew : ∃ shell, Reachable shell ∧ ∃ nesting session statement,
    Script.Underway Script.failingInside 2 shell.session ⟨":load \"a.lc\"", some 1⟩ 0
      nesting session
      (.statement statement) ∧
    nesting.map Prod.fst = ["<in>", "a.lc", "b.lc"] ∧ session.reporter.trail.registered = nesting ∧
    session.reporter.trail.innermost? = some ("b.lc", ⟨"x = y", some 1⟩) := by
  refine ⟨_, .started true false {} rfl (by with_unfolding_all rfl), ?_⟩
  have reachable := Reachable.started true false {} rfl (by with_unfolding_all rfl)
  obtain ⟨session, underway, _⟩ := Script.underway_failingInside (Shell.session (create _)) (some 1)
  have shows := (trail_shows_nesting reachable Script.failingInside
    Script.acyclic_failingInside rfl rfl 2
    ⟨":load \"a.lc\"", some 1⟩).1 _ _ _ _ underway
  have inOrder := shows.new (by decide +kernel)
  exact ⟨_, session, _, underway, rfl, inOrder, (shows.reported inOrder).1⟩

/-- After the second file has failed once, its line stands before that of the first file, although
    it is loaded inside of it: the innermost line is taken to be the one that loads it. -/
theorem failed_file_keeps_its_place : ∃ shell, Reachable shell ∧ ∃ nesting session statement,
    Script.Underway Script.failingInside 2 shell.session ⟨":load \"a.lc\"", some 2⟩ 0
      nesting session
      (.statement statement) ∧
    nesting.map Prod.fst = ["<in>", "a.lc", "b.lc"] ∧
    session.reporter.trail.registered.map Prod.fst = ["<in>", "b.lc", "a.lc"] ∧
    session.reporter.trail.innermost? = some ("a.lc", ⟨":load \"b.lc\"", some 1⟩) := by
  have new := Reachable.started true false {} rfl (by with_unfolding_all rfl)
  refine ⟨_, new.typed Script.failingInside 2 ":load \"b.lc\"", ?_⟩
  obtain ⟨session, underway, trail⟩ := Script.underway_failingInside _ (some 2)
  refine ⟨_, session, _, underway, ?_, ?_, ?_⟩
  · with_unfolding_all rfl
  · rw [trail]
    with_unfolding_all rfl
  · rw [trail]
    with_unfolding_all rfl

end Shell

end UntypedLambda
