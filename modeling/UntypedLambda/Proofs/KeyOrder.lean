import Mathlib.Data.List.Nodup
import UntypedLambda.OrderedMap

/-!
# The order of keys

Setting a key that is present keeps the order of the keys, and a new key comes last. Removing
keys keeps the order of the others. Setting a key and removing other keys may be exchanged;
setting a key that is removed anyway has no effect.
-/

namespace UntypedLambda.OrderedMap

variable {κ α : Type}

/-- A map is its entries. -/
@[ext]
theorem ext {map other : OrderedMap κ α} (same : map.entries = other.entries) : map = other := by
  cases map
  cases other
  cases same
  rfl

variable [DecidableEq κ]

/-- Setting a key sets it among the entries. -/
theorem entries_set (map : OrderedMap κ α) (key : κ) (value : α) :
    (map.set key value).entries = setEntry key value map.entries :=
  rfl

/-- A key that is present is set where it stands. -/
theorem keys_set_of_mem (map : OrderedMap κ α) {key : κ} (value : α) (present : key ∈ map.keys) :
    (map.set key value).keys = map.keys := by
  unfold keys at *
  rw [entries_set]
  generalize map.entries = entries at present
  induction entries with
  | nil => exact absurd present List.not_mem_nil
  | cons entry rest inductionHypothesis =>
    obtain ⟨other, old⟩ := entry
    rw [setEntry]
    by_cases same : other = key
    · rw [if_pos same, List.map_cons, List.map_cons, same]
    · rw [if_neg same, List.map_cons, List.map_cons, inductionHypothesis]
      exact (List.mem_cons.mp present).resolve_left fun first => same first.symm

/-- A new key is set at the end, and nothing else changes. -/
theorem entries_set_of_not_mem (map : OrderedMap κ α) {key : κ} (value : α)
    (absent : key ∉ map.keys) : (map.set key value).entries = map.entries ++ [(key, value)] := by
  unfold keys at absent
  rw [entries_set]
  generalize map.entries = entries at absent
  induction entries with
  | nil => rfl
  | cons entry rest inductionHypothesis =>
    obtain ⟨other, old⟩ := entry
    rw [List.map_cons, List.mem_cons, not_or] at absent
    rw [setEntry, if_neg fun same => absent.1 same.symm, inductionHypothesis absent.2]
    rfl

/-- A new key comes last. -/
theorem keys_set_of_not_mem (map : OrderedMap κ α) {key : κ} (value : α) (absent : key ∉ map.keys) :
    (map.set key value).keys = map.keys ++ [key] := by
  rw [keys, entries_set_of_not_mem map value absent, List.map_append]
  rfl

/-- A key that is set twice has the second value. -/
theorem set_set (map : OrderedMap κ α) (key : κ) (first second : α) :
    (map.set key first).set key second = map.set key second := by
  ext1
  rw [entries_set, entries_set, entries_set]
  generalize map.entries = entries
  induction entries with
  | nil => simp [setEntry]
  | cons entry rest inductionHypothesis =>
    obtain ⟨other, old⟩ := entry
    by_cases same : other = key
    · simp [setEntry, same]
    · simp [setEntry, same, inductionHypothesis]

/-- An entry is there if its key has its value. -/
theorem mem_entries_iff (map : OrderedMap κ α) (key : κ) (value : α) :
    (key, value) ∈ map.entries ↔ map.get? key = some value := by
  obtain ⟨entries, distinct⟩ := map
  unfold get?
  dsimp only
  induction entries with
  | nil => simp
  | cons entry rest inductionHypothesis =>
    obtain ⟨other, old⟩ := entry
    rw [List.map_cons, List.nodup_cons] at distinct
    rw [List.mem_cons, lookup_entry, inductionHypothesis distinct.2, Prod.mk.injEq]
    by_cases same : key = other
    · have absent : rest.lookup key ≠ some value := by
        intro found
        exact distinct.1 (same ▸ mem_keys_of_get? ⟨rest, distinct.2⟩ key value found)
      simp [same ▸ absent, same, eq_comm]
    · simp [same]

/-- A function that is applied to all values is applied to that of each key. -/
theorem get?_mapValues {β : Type} (map : OrderedMap κ α) (f : α → β) (key : κ) :
    (map.mapValues f).get? key = (map.get? key).map f := by
  unfold get? mapValues
  dsimp only
  induction map.entries with
  | nil => rfl
  | cons entry rest inductionHypothesis =>
    rw [List.map_cons, lookup_entry, lookup_entry, inductionHypothesis]
    split <;> rfl

/-- A function may be applied to all values before or after a key is set. -/
theorem mapValues_set {β : Type} (map : OrderedMap κ α) (f : α → β) (key : κ) (value : α) :
    (map.set key value).mapValues f = (map.mapValues f).set key (f value) := by
  ext1
  unfold mapValues set
  dsimp only
  induction map.entries with
  | nil => rfl
  | cons entry rest inductionHypothesis =>
    obtain ⟨other, old⟩ := entry
    by_cases same : other = key
    · simp [setEntry, same]
    · simp [setEntry, same, inductionHypothesis]

/-- The map without the entries of some keys. -/
def without (map : OrderedMap κ α) (removed : List κ) : OrderedMap κ α :=
  ⟨map.entries.filter (·.1 ∉ removed), map.distinct.sublist (List.filter_sublist.map Prod.fst)⟩

/-- Removing a key is removing that key only. -/
theorem erase_eq_without (map : OrderedMap κ α) (key : κ) : map.erase key = map.without [key] := by
  ext1
  simp [erase, without]

/-- Removing no keys changes nothing. -/
theorem without_nil (map : OrderedMap κ α) : map.without [] = map := by
  ext1
  simp [without]

/-- Keys that are removed one after the other are removed together. -/
theorem without_without (map : OrderedMap κ α) (first second : List κ) :
    (map.without first).without second = map.without (first ++ second) := by
  ext1
  simp only [without, List.filter_filter, List.mem_append, not_or]
  exact List.filter_congr fun entry _ => by simp [Bool.and_comm]

/-- Among entries, a key that is removed anyway need not be set. -/
theorem filter_setEntry_of_mem {removed : List κ} {key : κ} (value : α) (entries : List (κ × α))
    (member : key ∈ removed) :
    (setEntry key value entries).filter (·.1 ∉ removed) = entries.filter (·.1 ∉ removed) := by
  induction entries with
  | nil => simp [setEntry, member]
  | cons entry rest inductionHypothesis =>
    obtain ⟨other, old⟩ := entry
    by_cases same : other = key
    · simp [setEntry, same, member]
    · simp only [setEntry, if_neg same, List.filter_cons, inductionHypothesis]

/-- Among entries, setting a key may be exchanged with removing other keys. -/
theorem filter_setEntry_of_not_mem {removed : List κ} {key : κ} (value : α) (entries : List (κ × α))
    (kept : key ∉ removed) :
    (setEntry key value entries).filter (·.1 ∉ removed) =
      setEntry key value (entries.filter (·.1 ∉ removed)) := by
  induction entries with
  | nil => simp [setEntry, kept]
  | cons entry rest inductionHypothesis =>
    obtain ⟨other, old⟩ := entry
    by_cases same : other = key
    · simp [setEntry, same, kept]
    · by_cases gone : other ∈ removed
      · simpa [setEntry, same, gone] using inductionHypothesis
      · simpa [setEntry, same, gone] using inductionHypothesis

/-- Setting a key that is removed has no effect. -/
theorem without_set_of_mem (map : OrderedMap κ α) {removed : List κ} {key : κ} (value : α)
    (member : key ∈ removed) : (map.set key value).without removed = map.without removed :=
  ext (filter_setEntry_of_mem value map.entries member)

/-- Setting a key may be exchanged with removing other keys. -/
theorem without_set_of_not_mem (map : OrderedMap κ α) {removed : List κ} {key : κ} (value : α)
    (kept : key ∉ removed) :
    (map.set key value).without removed = (map.without removed).set key value :=
  ext (filter_setEntry_of_not_mem value map.entries kept)

/-- A key that is removed has no value, and every other key has the value that it had. -/
theorem get?_without (map : OrderedMap κ α) (removed : List κ) (key : κ) :
    (map.without removed).get? key = if key ∈ removed then none else map.get? key := by
  apply Option.ext
  intro value
  rw [← mem_entries_iff]
  split
  · rename_i member
    simp [without, member]
  · rename_i kept
    rw [← mem_entries_iff]
    simp [without, kept]

/-- What is removed is not a key any more, and the order of the others is kept. -/
theorem keys_without (map : OrderedMap κ α) (removed : List κ) :
    (map.without removed).keys = map.keys.filter (· ∉ removed) := by
  simp [keys, without, List.filter_map, Function.comp_def]

end UntypedLambda.OrderedMap
