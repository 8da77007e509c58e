import Mathlib.Data.List.Basic
import Mathlib.Data.List.Nodup

/-!
# Insertion-ordered maps

A finite map that remembers the order in which its keys were first set: setting a present key
replaces its value in place, setting an absent one puts it at the end, and erasing a key forgets its
place. The distinctness of the keys is part of the type, so a key's entry is determined by its
`lookup`.
-/

variable {κ ν : Type*}

/-- The entries in the order of their keys' insertion. -/
structure OrderedMap (κ ν : Type*) where
  entries : List (κ × ν)
  nodup_keys : (entries.map Prod.fst).Nodup

namespace OrderedMap

@[ext] theorem ext {m m' : OrderedMap κ ν} (h : m.entries = m'.entries) : m = m' := by
  cases m
  cases m'
  subst h
  rfl

/-- The keys in insertion order. -/
def keys (m : OrderedMap κ ν) : List κ := m.entries.map Prod.fst

/-- The values in insertion order. -/
def values (m : OrderedMap κ ν) : List ν := m.entries.map Prod.snd

/-- The map without entries. -/
def empty : OrderedMap κ ν := ⟨[], List.nodup_nil⟩

theorem nodup (m : OrderedMap κ ν) : m.keys.Nodup := m.nodup_keys

@[simp] theorem keys_empty : (empty : OrderedMap κ ν).keys = [] := rfl

variable [DecidableEq κ]

/-- The value under a key. -/
def lookup (m : OrderedMap κ ν) (k : κ) : Option ν :=
  (m.entries.find? fun p => p.1 = k).map Prod.snd

/-- Replace the value under a key in a list of entries. -/
def replace (l : List (κ × ν)) (k : κ) (v : ν) : List (κ × ν) :=
  l.map fun p => if p.1 = k then (k, v) else p

theorem map_fst_replace (l : List (κ × ν)) (k : κ) (v : ν) :
    (replace l k v).map Prod.fst = l.map Prod.fst := by
  rw [replace, List.map_map]
  refine List.map_congr_left fun p _ => ?_
  by_cases h : p.1 = k
  · simp [h]
  · simp [h]

/-- Set a key: in place where it is present, at the end where it is not. -/
def set (m : OrderedMap κ ν) (k : κ) (v : ν) : OrderedMap κ ν where
  entries := if k ∈ m.keys then replace m.entries k v else m.entries ++ [(k, v)]
  nodup_keys := by
    by_cases h : k ∈ m.keys
    · rw [if_pos h, map_fst_replace]
      exact m.nodup_keys
    · rw [if_neg h, List.map_append, List.map_cons, List.map_nil]
      refine List.nodup_append.mpr ⟨m.nodup_keys, List.nodup_singleton _, ?_⟩
      rintro a ha b hb rfl
      have hk : a = k := List.mem_singleton.mp hb
      exact h (hk ▸ ha)

/-- Erase a key. -/
def erase (m : OrderedMap κ ν) (k : κ) : OrderedMap κ ν where
  entries := m.entries.filter fun p => p.1 ≠ k
  nodup_keys := m.nodup_keys.sublist (List.filter_sublist.map _)

@[simp] theorem lookup_empty (k : κ) : (empty : OrderedMap κ ν).lookup k = none := rfl

theorem entries_set_of_mem {m : OrderedMap κ ν} {k : κ} (h : k ∈ m.keys) (v : ν) :
    (m.set k v).entries = replace m.entries k v := if_pos h

theorem entries_set_of_notMem {m : OrderedMap κ ν} {k : κ} (h : k ∉ m.keys) (v : ν) :
    (m.set k v).entries = m.entries ++ [(k, v)] := if_neg h

theorem mem_entries_iff {m : OrderedMap κ ν} {k : κ} {v : ν} :
    (k, v) ∈ m.entries ↔ m.lookup k = some v := by
  obtain ⟨l, hl⟩ := m
  rw [lookup]
  induction l with
  | nil => simp
  | cons p l ih =>
    obtain ⟨k', v'⟩ := p
    obtain ⟨hnot, hnodup⟩ := List.nodup_cons.mp hl
    by_cases hk : k' = k
    · subst hk
      -- the rest holds no second entry of the key
      have hrest : (k', v) ∉ l := fun h => hnot (List.mem_map.mpr ⟨_, h, rfl⟩)
      simp [hrest, eq_comm]
    · simpa [hk, Ne.symm hk] using ih hnodup

theorem mem_keys_iff {m : OrderedMap κ ν} {k : κ} : k ∈ m.keys ↔ (m.lookup k).isSome := by
  rw [keys, List.mem_map, Option.isSome_iff_exists]
  constructor
  · rintro ⟨⟨k', v⟩, hmem, rfl⟩
    exact ⟨v, mem_entries_iff.mp hmem⟩
  · rintro ⟨v, hv⟩
    exact ⟨(k, v), mem_entries_iff.mpr hv, rfl⟩

theorem notMem_keys_iff {m : OrderedMap κ ν} {k : κ} : k ∉ m.keys ↔ m.lookup k = none := by
  rw [mem_keys_iff, Option.not_isSome_iff_eq_none]

/-! ## What the operations do to the keys -/

theorem keys_set_of_mem {m : OrderedMap κ ν} {k : κ} (h : k ∈ m.keys) (v : ν) :
    (m.set k v).keys = m.keys := by
  rw [keys, entries_set_of_mem h, map_fst_replace, keys]

theorem keys_set_of_notMem {m : OrderedMap κ ν} {k : κ} (h : k ∉ m.keys) (v : ν) :
    (m.set k v).keys = m.keys ++ [k] := by
  rw [keys, entries_set_of_notMem h, List.map_append, keys, List.map_cons, List.map_nil]

theorem mem_keys_set {m : OrderedMap κ ν} {k k' : κ} {v : ν} :
    k' ∈ (m.set k v).keys ↔ k' ∈ m.keys ∨ k' = k := by
  by_cases h : k ∈ m.keys
  · rw [keys_set_of_mem h]
    exact ⟨.inl, fun h' => h'.elim id fun e => e ▸ h⟩
  · rw [keys_set_of_notMem h, List.mem_append, List.mem_singleton]

theorem keys_erase (m : OrderedMap κ ν) (k : κ) : (m.erase k).keys = m.keys.erase k := by
  rw [keys, erase, keys, m.nodup_keys.erase_eq_filter, List.filter_map]
  congr 1
  refine List.filter_congr fun p _ => ?_
  by_cases h : p.1 = k
  · simp [h]
  · simp [h]

theorem mem_keys_erase {m : OrderedMap κ ν} {k k' : κ} :
    k' ∈ (m.erase k).keys ↔ k' ≠ k ∧ k' ∈ m.keys := by
  rw [keys_erase, m.nodup.mem_erase_iff]

/-! ## What they do to the values -/

@[simp] theorem lookup_set_self (m : OrderedMap κ ν) (k : κ) (v : ν) :
    (m.set k v).lookup k = some v := by
  refine mem_entries_iff.mp ?_
  by_cases h : k ∈ m.keys
  · obtain ⟨p, hp, hk⟩ := List.mem_map.mp h
    rw [entries_set_of_mem h]
    exact List.mem_map.mpr ⟨p, hp, by rw [if_pos hk]⟩
  · rw [entries_set_of_notMem h]
    simp

theorem lookup_set_ne {m : OrderedMap κ ν} {k k' : κ} (h : k' ≠ k) (v : ν) :
    (m.set k v).lookup k' = m.lookup k' := by
  refine Option.ext fun w => ?_
  rw [← mem_entries_iff, ← mem_entries_iff]
  by_cases hk : k ∈ m.keys
  · rw [entries_set_of_mem hk, replace, List.mem_map]
    constructor
    · rintro ⟨p, hp, heq⟩
      by_cases hpk : p.1 = k
      · rw [if_pos hpk] at heq
        exact absurd (congrArg Prod.fst heq).symm h
      · rw [if_neg hpk] at heq
        exact heq ▸ hp
    · intro hp
      exact ⟨(k', w), hp, by rw [if_neg h]⟩
  · rw [entries_set_of_notMem hk, List.mem_append, List.mem_singleton, Prod.mk.injEq]
    simp [h]

@[simp] theorem lookup_erase_self (m : OrderedMap κ ν) (k : κ) : (m.erase k).lookup k = none := by
  rw [← notMem_keys_iff, mem_keys_erase]
  simp

theorem lookup_erase_ne {m : OrderedMap κ ν} {k k' : κ} (h : k' ≠ k) :
    (m.erase k).lookup k' = m.lookup k' := by
  refine Option.ext fun w => ?_
  rw [← mem_entries_iff, ← mem_entries_iff, erase, List.mem_filter]
  simp [h]

/-- The values, read key by key. -/
theorem values_eq_filterMap (m : OrderedMap κ ν) : m.values = m.keys.filterMap m.lookup := by
  rw [values, keys, List.filterMap_map]
  have hsome : ∀ p ∈ m.entries, (m.lookup ∘ Prod.fst) p = (some ∘ Prod.snd) p := fun p hp =>
    mem_entries_iff.mp hp
  rw [List.filterMap_congr hsome]
  exact (List.filterMap_eq_map (f := Prod.snd) ▸ rfl)

end OrderedMap
