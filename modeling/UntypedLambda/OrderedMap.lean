/-!
# Maps that keep the order of insertion

A map is a list of entries with distinct keys. Setting a key that is present
replaces its value where it stands; a new key goes to the end. So the order of
the entries tells which key was set first, however often it was set since.
-/

namespace UntypedLambda

/-- Entries in the order in which their keys were first set. -/
structure OrderedMap (κ : Type) (α : Type) where
  entries : List (κ × α)
  distinct : (entries.map Prod.fst).Nodup

namespace OrderedMap

variable {κ α β : Type}

/-- No entries. -/
def empty : OrderedMap κ α :=
  ⟨[], List.nodup_nil⟩

instance : Inhabited (OrderedMap κ α) := ⟨empty⟩

/-- The keys in order. -/
def keys (map : OrderedMap κ α) : List κ :=
  map.entries.map Prod.fst

/-- The values with a function applied to each of them. -/
def mapValues (f : α → β) (map : OrderedMap κ α) : OrderedMap κ β :=
  ⟨map.entries.map fun (key, value) => (key, f value), by
    simpa [Function.comp_def] using map.distinct⟩

variable [DecidableEq κ]

/-- The value of a key, if the key is present. -/
def get? (map : OrderedMap κ α) (key : κ) : Option α :=
  map.entries.lookup key

/-- Whether a key is present. -/
def contains (map : OrderedMap κ α) (key : κ) : Bool :=
  key ∈ map.keys

/-- A key that has a value is present. -/
theorem mem_keys_of_get? (map : OrderedMap κ α) (key : κ) (value : α)
    (found : map.get? key = some value) : key ∈ map.keys := by
  unfold get? at found
  unfold keys
  generalize map.entries = entries at found
  induction entries with
  | nil => simp at found
  | cons entry rest inductionHypothesis =>
    rw [List.lookup_cons] at found
    rw [List.map_cons, List.mem_cons]
    split at found
    · rename_i same
      exact .inl (by simpa using same)
    · exact .inr (inductionHypothesis found)

/-- Entries with the value of a key replaced, or with a new entry at the end. -/
def setEntry (key : κ) (value : α) : List (κ × α) → List (κ × α)
  | [] => [(key, value)]
  | (other, old) :: rest =>
    if other = key then (key, value) :: rest else (other, old) :: setEntry key value rest

/-- Setting a key adds it to the keys and removes none. -/
theorem mem_keys_setEntry (key candidate : κ) (value : α) (entries : List (κ × α)) :
    candidate ∈ (setEntry key value entries).map Prod.fst ↔
      candidate = key ∨ candidate ∈ entries.map Prod.fst := by
  induction entries with
  | nil => simp [setEntry]
  | cons entry rest inductionHypothesis =>
    obtain ⟨other, old⟩ := entry
    unfold setEntry
    split
    · rename_i same
      simp [same]
    · rw [List.map_cons, List.mem_cons, inductionHypothesis, List.map_cons, List.mem_cons]
      exact or_left_comm

/-- Setting a key keeps the keys distinct. -/
theorem nodup_setEntry (key : κ) (value : α) (entries : List (κ × α))
    (distinct : (entries.map Prod.fst).Nodup) :
    ((setEntry key value entries).map Prod.fst).Nodup := by
  induction entries with
  | nil => simp [setEntry]
  | cons entry rest inductionHypothesis =>
    obtain ⟨other, old⟩ := entry
    simp only [List.map_cons, List.nodup_cons] at distinct
    unfold setEntry
    split
    · rename_i same
      simpa [same] using distinct
    · rename_i different
      simp only [List.map_cons, List.nodup_cons, mem_keys_setEntry, not_or]
      exact ⟨⟨different, distinct.1⟩, inductionHypothesis distinct.2⟩

/-- Give a key a value. -/
def set (map : OrderedMap κ α) (key : κ) (value : α) : OrderedMap κ α :=
  ⟨setEntry key value map.entries, nodup_setEntry key value map.entries map.distinct⟩

/-- Looking up a key compares it with the key of the first entry. -/
theorem lookup_entry (candidate key : κ) (value : α) (rest : List (κ × α)) :
    ((key, value) :: rest).lookup candidate =
      if candidate = key then some value else rest.lookup candidate := by
  rw [List.lookup_cons]
  by_cases same : candidate = key
  · simp [same]
  · rw [beq_false_of_ne same, if_neg same]

/-- Among entries, too, setting a key decides its value and no other one's. -/
theorem lookup_setEntry (key candidate : κ) (value : α) (entries : List (κ × α)) :
    (setEntry key value entries).lookup candidate =
      if candidate = key then some value else entries.lookup candidate := by
  induction entries with
  | nil => rw [setEntry, lookup_entry]
  | cons entry rest inductionHypothesis =>
    obtain ⟨other, old⟩ := entry
    rw [setEntry, lookup_entry candidate other]
    by_cases present : other = key
    · rw [if_pos present, lookup_entry, present]
      by_cases same : candidate = key <;> simp [same]
    · rw [if_neg present, lookup_entry, inductionHypothesis]
      by_cases same : candidate = other
      · rw [if_pos same, if_pos same, if_neg (same ▸ present)]
      · rw [if_neg same, if_neg same]

/-- A key that was set has the value that it was set to, and every other key has
    the value that it had. -/
theorem get?_set (map : OrderedMap κ α) (key candidate : κ) (value : α) :
    (map.set key value).get? candidate =
      if candidate = key then some value else map.get? candidate :=
  lookup_setEntry key candidate value map.entries

/-- Remove a key. -/
def erase (map : OrderedMap κ α) (key : κ) : OrderedMap κ α :=
  ⟨map.entries.filter (·.1 ≠ key), map.distinct.sublist (List.filter_sublist.map Prod.fst)⟩

/-- The map that arises from setting keys one after the other. -/
def ofList (entries : List (κ × α)) : OrderedMap κ α :=
  entries.foldl (fun map (key, value) => map.set key value) empty

end OrderedMap

end UntypedLambda
