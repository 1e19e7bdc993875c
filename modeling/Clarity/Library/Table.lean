import Mathlib.Data.List.Nodup
import Mathlib.Data.List.Lookmap
import Mathlib.Data.List.MinMax

/-!
Contract: finite maps as association lists whose keys are distinct.

Owns: the `Table` structure, its lookup and update operations, and the
membership and lookup equations of every operation.

Entries keep their insertion order. A caller that must not depend on an
iteration order takes that order as a parameter of its own.
-/

namespace Clarity.Library

variable {K V : Type}

/-- A finite map: a list of entries, no key twice. -/
structure Table (K V : Type) where
  entries : List (K × V)
  distinct : (entries.map Prod.fst).Nodup
deriving DecidableEq

namespace Table

variable {key : K} {table : Table K V} {value : V} {entry : K × V}

instance : Inhabited (Table K V) := ⟨⟨[], List.nodup_nil⟩⟩

def empty : Table K V := ⟨[], List.nodup_nil⟩

def keys (table : Table K V) : List K := table.entries.map Prod.fst

def size (table : Table K V) : Nat := table.entries.length

def filter (table : Table K V) (keep : K × V → Bool) : Table K V :=
  ⟨table.entries.filter keep,
    table.distinct.sublist (List.filter_sublist.map Prod.fst)⟩

variable [DecidableEq K]

def find? (table : Table K V) (key : K) : Option V := table.entries.lookup key

def contains (table : Table K V) (key : K) : Bool := (table.find? key).isSome

def erase (table : Table K V) (key : K) : Table K V :=
  table.filter fun entry => entry.1 ≠ key

omit [DecidableEq K] in
private theorem append_distinct (table : Table K V) (key : K) (value : V)
    (fresh : key ∉ table.keys) :
    ((table.entries ++ [(key, value)]).map Prod.fst).Nodup := by
  rw [List.map_append, List.map_singleton]
  apply List.Nodup.append table.distinct (List.nodup_singleton key)
  intro other inTable isKey
  rw [List.mem_singleton] at isKey
  exact fresh (isKey ▸ inTable)

/-- Insert unless the key is there already: the first value stays. -/
def emplace (table : Table K V) (key : K) (value : V) : Table K V :=
  if present : key ∈ table.keys then table
  else ⟨table.entries ++ [(key, value)], append_distinct table key value present⟩

private theorem replace_keys (entries : List (K × V)) (key : K) (value : V) :
    (entries.map fun entry => if entry.1 = key then (key, value) else entry).map Prod.fst =
      entries.map Prod.fst := by
  rw [List.map_map]
  apply List.map_congr_left
  intro entry _
  by_cases same : entry.1 = key <;> simp [same]

/-- Insert or overwrite: the last value stays. -/
def put (table : Table K V) (key : K) (value : V) : Table K V :=
  if present : key ∈ table.keys then
    ⟨table.entries.map fun entry => if entry.1 = key then (key, value) else entry, by
      rw [replace_keys]
      exact table.distinct⟩
  else ⟨table.entries ++ [(key, value)], append_distinct table key value present⟩

/-! ### Lookup and membership -/

theorem find?_eq_some_iff : table.find? key = some value ↔ (key, value) ∈ table.entries := by
  unfold find?
  rw [List.lookup_eq_some_iff]
  constructor
  · rintro ⟨before, after, isEntries, _⟩
    simp [isEntries]
  · intro member
    obtain ⟨before, after, isEntries⟩ := List.append_of_mem member
    have distinct := table.distinct
    rw [isEntries, List.map_append, List.map_cons, List.nodup_middle, List.nodup_cons] at distinct
    refine ⟨before, after, isEntries, fun other earlier => bne_iff_ne.mpr fun same => ?_⟩
    exact distinct.1 (List.mem_append_left _ (List.mem_map.mpr ⟨other, earlier, same.symm⟩))

theorem find?_eq_none_iff : table.find? key = none ↔ key ∉ table.keys := by
  unfold find? keys
  rw [List.lookup_eq_none_iff, List.mem_map, not_exists]
  exact forall_congr' fun entry => by simp [@eq_comm _ key]

@[simp] theorem find?_empty (key : K) : (empty : Table K V).find? key = none := rfl

theorem mem_emplace (member : entry ∈ (table.emplace key value).entries) :
    entry ∈ table.entries ∨ entry = (key, value) := by
  unfold emplace at member
  split at member
  · exact Or.inl member
  · simpa using member

theorem mem_put (member : entry ∈ (table.put key value).entries) :
    (entry ∈ table.entries ∧ entry.1 ≠ key) ∨ entry = (key, value) := by
  unfold put at member
  split at member
  · obtain ⟨old, inTable, replaced⟩ := List.mem_map.mp member
    by_cases same : old.1 = key
    · rw [if_pos same] at replaced
      exact Or.inr replaced.symm
    · rw [if_neg same] at replaced
      subst replaced
      exact Or.inl ⟨inTable, same⟩
  next fresh =>
    rw [List.mem_append, List.mem_singleton] at member
    rcases member with inTable | isNew
    · left
      refine ⟨inTable, ?_⟩
      intro same
      exact fresh (same ▸ List.mem_map_of_mem inTable)
    · exact Or.inr isNew

theorem mem_put_self (table : Table K V) (key : K) (value : V) :
    (key, value) ∈ (table.put key value).entries := by
  unfold put
  split
  next present =>
    obtain ⟨entry, inTable, isKey⟩ := List.mem_map.mp present
    exact List.mem_map.mpr ⟨entry, inTable, by simp [isKey]⟩
  next fresh => simp

theorem mem_put_of_ne (member : entry ∈ table.entries) (other : entry.1 ≠ key) :
    entry ∈ (table.put key value).entries := by
  unfold put
  split
  · exact List.mem_map.mpr ⟨entry, member, by simp [other]⟩
  · exact List.mem_append_left _ member

theorem find?_put (table : Table K V) (key : K) (value : V) (other : K) :
    (table.put key value).find? other =
      if other = key then some value else table.find? other := by
  by_cases same : other = key
  · subst same
    rw [if_pos rfl, find?_eq_some_iff]
    exact mem_put_self table other value
  · rw [if_neg same]
    apply Option.ext
    intro stored
    rw [find?_eq_some_iff, find?_eq_some_iff]
    constructor
    · intro member
      rcases mem_put member with ⟨inTable, _⟩ | isNew
      · exact inTable
      · exact absurd (congrArg Prod.fst isNew) same
    · intro member
      exact mem_put_of_ne member same

theorem find?_emplace (table : Table K V) (key : K) (value : V) (other : K) :
    (table.emplace key value).find? other =
      if other = key then some ((table.find? key).getD value) else table.find? other := by
  by_cases present : key ∈ table.keys
  · rw [emplace, dif_pos present]
    split
    next same =>
      subst same
      cases found : table.find? other with
      | none => exact absurd present (find?_eq_none_iff.mp found)
      | some stored => rfl
    · rfl
  · have isPut : table.emplace key value = table.put key value := by
      rw [emplace, put, dif_neg present, dif_neg present]
    rw [isPut, find?_put, find?_eq_none_iff.mpr present]
    rfl

omit [DecidableEq K] in
theorem mem_filter {keep : K × V → Bool} :
    entry ∈ (table.filter keep).entries ↔ entry ∈ table.entries ∧ keep entry = true :=
  List.mem_filter

theorem mem_erase : entry ∈ (table.erase key).entries ↔ entry ∈ table.entries ∧ entry.1 ≠ key := by
  unfold erase
  rw [mem_filter]
  simp

theorem find?_erase (table : Table K V) (key other : K) :
    (table.erase key).find? other = if other = key then none else table.find? other := by
  apply Option.ext
  intro stored
  rw [find?_eq_some_iff, mem_erase]
  by_cases same : other = key
  · simp [same]
  · rw [if_neg same, find?_eq_some_iff]
    simp [same]

/-! ### Facts about every entry -/

section Entries

variable {holds : K → V → Prop}
  (held : ∀ other found, table.find? other = some found → holds other found)

include held

theorem forall_put (new : holds key value) :
    ∀ other found, (table.put key value).find? other = some found → holds other found := by
  intro other found isFound
  rw [find?_put] at isFound
  split at isFound
  next same =>
    cases isFound
    exact same ▸ new
  · exact held other found isFound

theorem forall_erase :
    ∀ other found, (table.erase key).find? other = some found → holds other found := by
  intro other found isFound
  rw [find?_erase] at isFound
  split at isFound
  · cases isFound
  · exact held other found isFound

end Entries

end Table

end Clarity.Library
