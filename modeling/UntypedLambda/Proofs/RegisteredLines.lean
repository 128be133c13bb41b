import UntypedLambda.Proofs.KeyOrder
import UntypedLambda.Reporter

/-!
# Registered lines

A line is registered for a file if it is the one that the file has reached. Where a warning
arises is decided by the last registered line, and an error lists all of them that are not
empty. Each file has at most one, so that registering and forgetting lines are told by what
they do to the lines of single files.
-/

namespace UntypedLambda

namespace Trail

/-- The registered lines, in the order of the trail. -/
def registered (trail : Trail) : List (String × TrailLine) :=
  trail.entries.filterMap fun (path, line) => line.map (path, ·)

/-- The line that a file has registered. -/
def registeredAt (trail : Trail) (path : String) : Option (String × TrailLine) :=
  (trail.get? path).join.map (path, ·)

/-- The innermost line is the last one that is registered. -/
theorem innermost?_eq (trail : Trail) : trail.innermost? = trail.registered.getLast? :=
  rfl

/-- What is listed in an error are the registered lines that are not empty. -/
theorem visible_eq (trail : Trail) :
    trail.visible = trail.registered.filter (·.2.text ≠ "") := by
  unfold visible registered
  rw [List.filter_filterMap]
  refine List.filterMap_congr fun (path, line) _ => ?_
  cases line with
  | none => rfl
  | some line => by_cases empty : line.text = "" <;> simp [empty, Option.filter_some]

/-- A line is registered if its file has it. -/
theorem mem_registered (trail : Trail) (path : String) (line : TrailLine) :
    (path, line) ∈ trail.registered ↔ trail.get? path = some (some line) := by
  rw [← OrderedMap.mem_entries_iff]
  simp only [registered, List.mem_filterMap, Option.map_eq_some_iff, Prod.exists, Prod.mk.injEq]
  constructor
  · rintro ⟨_, _, member, _, rfl, rfl, rfl⟩
    exact member
  · intro member
    exact ⟨path, some line, member, line, rfl, rfl, rfl⟩

/-- The registered lines come in the order of the keys. -/
theorem registered_eq (trail : Trail) :
    trail.registered = trail.keys.filterMap trail.registeredAt := by
  unfold registered OrderedMap.keys
  rw [List.filterMap_map]
  refine List.filterMap_congr fun (path, line) member => ?_
  have found := (trail.mem_entries_iff path line).mp member
  simp [registeredAt, found]

/-- The files of the registered lines are keys, in order. -/
theorem registered_sublist (trail : Trail) :
    (trail.registered.map Prod.fst).Sublist trail.keys := by
  unfold registered OrderedMap.keys
  induction trail.entries with
  | nil => exact .slnil
  | cons entry rest inductionHypothesis =>
    obtain ⟨path, _ | line⟩ := entry
    · exact inductionHypothesis.cons path
    · exact inductionHypothesis.cons_cons path

/-- No line is registered twice, as no file is on the trail twice. -/
theorem nodup_registered (trail : Trail) : trail.registered.Nodup :=
  .of_map _ (trail.distinct.sublist trail.registered_sublist)

/-- Where a file has no line, nothing is registered for it. -/
theorem mem_registered_set_none (trail : Trail) (path : String) (entry : String × TrailLine) :
    entry ∈ registered (trail.set path none) ↔ entry.1 ≠ path ∧ entry ∈ trail.registered := by
  rw [mem_registered, mem_registered, OrderedMap.get?_set]
  split <;> simp [*]

/-- Where a file has a line, that line is registered for it and no other one. -/
theorem mem_registered_set_some (trail : Trail) (path : String) (line : TrailLine)
    (entry : String × TrailLine) :
    entry ∈ registered (trail.set path (some line)) ↔
      entry = (path, line) ∨ entry.1 ≠ path ∧ entry ∈ trail.registered := by
  obtain ⟨other, given⟩ := entry
  rw [mem_registered, mem_registered, OrderedMap.get?_set, Prod.mk.injEq]
  by_cases same : other = path
  · simp [same, eq_comm]
  · simp [same]

/-- Putting a file on the trail registers nothing. -/
theorem registered_set_none {trail : Trail} (unregistered : trail.registered = [])
    (path : String) : registered (trail.set path none) = [] := by
  rw [List.eq_nil_iff_forall_not_mem]
  intro entry isRegistered
  exact absurd (unregistered ▸ ((mem_registered_set_none ..).mp isRegistered).2) List.not_mem_nil

/-- Nothing is registered for files that are taken off the trail. -/
theorem mem_registered_without (trail : Trail) (removed : List String)
    (entry : String × TrailLine) :
    entry ∈ registered (trail.without removed) ↔ entry.1 ∉ removed ∧ entry ∈ trail.registered := by
  rw [mem_registered, mem_registered, OrderedMap.get?_without]
  split <;> simp [*]

/-- Nothing is registered once all lines are forgotten. -/
theorem registered_forgotten (trail : Trail) :
    registered (trail.mapValues fun _ => none) = [] := by
  rw [List.eq_nil_iff_forall_not_mem]
  intro entry isRegistered
  rw [mem_registered, OrderedMap.get?_mapValues] at isRegistered
  simp at isRegistered

/-- If nothing was registered before, then the line of a file is the only one. -/
theorem registered_set_some {trail : Trail} (unregistered : trail.registered = [])
    (path : String) (line : TrailLine) :
    registered (trail.set path (some line)) = [(path, line)] := by
  have only (entry : String × TrailLine) :
      entry ∈ registered (trail.set path (some line)) ↔ entry ∈ [(path, line)] := by
    rw [mem_registered_set_some, unregistered]
    simp
  exact List.perm_singleton.mp
    ((List.perm_ext_iff_of_nodup (nodup_registered _) (List.nodup_singleton _)).mpr only)

end Trail

end UntypedLambda
