import Mathlib.Data.List.Basic
import Mathlib.Data.List.Nodup
import Mathlib.Logic.Function.Basic

/-!
# Registered clusters

Reference: `internal/cluster/registry.go`, `internal/cluster/registry_crd.go`.

`CRDRegistry` is generic in the handle it stores, as the Go map stores `*Entry` and never looks
behind the pointer. The agreement of `order` with the keys of `entries` is part of the type: the
only constructor is `NewCRDRegistry`, and `Set` and `Delete` keep it.
-/

namespace Yafu.Cluster

/-- Nanoseconds since the zero `time.Time`. -/
abbrev Time := ℕ

/-- `time.Second` in nanoseconds. -/
def second : Time := 1000000000

/-- `Summary` of the Flux objects of one cluster. -/
structure Summary where
  apps : ℕ := 0
  ready : ℕ := 0
  failing : ℕ := 0
  suspended : ℕ := 0
  sources : ℕ := 0
deriving DecidableEq, Repr

/-- `Status`: a snapshot of a cluster's reachability and Flux deployment. The defaults are Go's
zero value, which is what an `Entry` carries before its first probe. -/
structure Status where
  reachable : Bool := false
  fluxInstalled : Bool := false
  kubernetesVersion : String := ""
  fluxVersion : String := ""
  lastError : String := ""
  lastProbe : Time := 0
  summary : Summary := {}
deriving DecidableEq, Repr

/-- `Entry`: a registered cluster the HTTP API can address. `clients` bundles the three handles
`Client`, `Discovery` and `Kube`. -/
structure Entry (κ : Type*) where
  name : String
  displayName : String
  region : String
  environment : String
  fluxNamespace : String
  clients : κ
  generation : ℕ := 0
  builtAt : Time := 0
  status : Status := {}

/-- `Entry.SetStatus`. -/
def Entry.setStatus {κ : Type*} (e : Entry κ) (s : Status) : Entry κ := { e with status := s }

/-- `CRDRegistry`: a map and the order its keys were first inserted in. -/
structure CRDRegistry (ε : Type*) where
  entries : String → Option ε
  order : List String
  order_nodup : order.Nodup
  mem_order : ∀ name, name ∈ order ↔ (entries name).isSome

namespace CRDRegistry

variable {ε : Type*}

/-- `NewCRDRegistry`. -/
def new : CRDRegistry ε where
  entries := fun _ => none
  order := []
  order_nodup := List.nodup_nil
  mem_order := by simp

/-- `CRDRegistry.List`: the entries in insertion order. -/
def list (r : CRDRegistry ε) : List ε := r.order.filterMap r.entries

/-- `CRDRegistry.Get`. -/
def get (r : CRDRegistry ε) (name : String) : Option ε := r.entries name

/-- `CRDRegistry.Set`: a new name goes to the end of `order`, a present one keeps its place. -/
def set (r : CRDRegistry ε) (name : String) (e : ε) : CRDRegistry ε where
  entries := Function.update r.entries name (some e)
  order := if (r.entries name).isSome then r.order else r.order ++ [name]
  order_nodup := by
    by_cases h : (r.entries name).isSome
    · simpa [h] using r.order_nodup
    · have hnot : name ∉ r.order := fun hm => h ((r.mem_order name).mp hm)
      rw [if_neg h]
      exact List.nodup_append.mpr ⟨r.order_nodup, List.nodup_singleton _, by
        rintro a ha b hb rfl
        exact hnot (List.mem_singleton.mp hb ▸ ha)⟩
  mem_order := by
    intro n
    by_cases hn : n = name
    · subst hn
      by_cases h : (r.entries n).isSome
      · simp [h, (r.mem_order n).mpr h]
      · simp [h]
    · by_cases h : (r.entries name).isSome <;>
        simp [h, hn, r.mem_order n]

/-- `CRDRegistry.Delete`. -/
def delete (r : CRDRegistry ε) (name : String) : CRDRegistry ε where
  entries := Function.update r.entries name none
  order := r.order.erase name
  order_nodup := r.order_nodup.erase name
  mem_order := by
    intro n
    rw [r.order_nodup.mem_erase_iff]
    by_cases hn : n = name
    · subst hn
      simp
    · simp [hn, r.mem_order n]

@[simp] theorem get_new (n : String) : (new : CRDRegistry ε).get n = none := rfl

@[simp] theorem get_set_self (r : CRDRegistry ε) (n : String) (e : ε) :
    (r.set n e).get n = some e := by simp [get, set]

theorem get_set_ne (r : CRDRegistry ε) {n m : String} (h : n ≠ m) (e : ε) :
    (r.set m e).get n = r.get n := by simp [get, set, Function.update_of_ne h]

@[simp] theorem get_delete_self (r : CRDRegistry ε) (n : String) : (r.delete n).get n = none := by
  simp [get, delete]

theorem get_delete_ne (r : CRDRegistry ε) {n m : String} (h : n ≠ m) :
    (r.delete m).get n = r.get n := by simp [get, delete, Function.update_of_ne h]

end CRDRegistry

/-! ## The registry together with the entries it points to

`Get` and `List` hand out `*Entry`, and `SetStatus` writes through such a pointer. `heap` holds
every entry ever allocated; an `EntryPtr` is its position there. -/

/-- A `*Entry`. -/
abbrev EntryPtr := ℕ

/-- The allocated entries and the registry that points into them. -/
structure Store (κ : Type*) where
  heap : List (Entry κ)
  registry : CRDRegistry EntryPtr
  mapped : ∀ name p, registry.get name = some p → p < heap.length

namespace Store

variable {κ : Type*}

/-- No entry allocated, none registered. -/
def new : Store κ := ⟨[], .new, by simp⟩

/-- The entry `Registry.Get` points to. -/
def lookup (s : Store κ) (name : String) : Option (Entry κ) :=
  (s.registry.get name).bind fun p => s.heap[p]?

/-- Allocate an entry and `Registry.Set` it. -/
def set (s : Store κ) (name : String) (e : Entry κ) : Store κ where
  heap := s.heap ++ [e]
  registry := s.registry.set name s.heap.length
  mapped := by
    intro n p hp
    rw [List.length_append, List.length_singleton]
    by_cases hn : n = name
    · rw [hn, CRDRegistry.get_set_self, Option.some.injEq] at hp
      exact hp ▸ Nat.lt_succ_self _
    · rw [CRDRegistry.get_set_ne _ hn] at hp
      exact Nat.lt_succ_of_lt (s.mapped n p hp)

/-- `Registry.Delete`. -/
def delete (s : Store κ) (name : String) : Store κ where
  heap := s.heap
  registry := s.registry.delete name
  mapped := by
    intro n p hp
    by_cases hn : n = name
    · rw [hn, CRDRegistry.get_delete_self] at hp
      exact absurd hp (by simp)
    · exact s.mapped n p (by rwa [CRDRegistry.get_delete_ne _ hn] at hp)

/-- `e.SetStatus(st)` through a pointer. -/
def setStatus (s : Store κ) (p : EntryPtr) (st : Status) : Store κ where
  heap := s.heap.modify p (Entry.setStatus · st)
  registry := s.registry
  mapped := by simpa using s.mapped

@[simp] theorem registry_set (s : Store κ) (n : String) (e : Entry κ) :
    (s.set n e).registry = s.registry.set n s.heap.length := rfl

@[simp] theorem registry_delete (s : Store κ) (n : String) :
    (s.delete n).registry = s.registry.delete n := rfl

@[simp] theorem registry_setStatus (s : Store κ) (p : EntryPtr) (st : Status) :
    (s.setStatus p st).registry = s.registry := rfl

@[simp] theorem heap_delete (s : Store κ) (n : String) : (s.delete n).heap = s.heap := rfl

theorem lookup_of_get {s : Store κ} {n : String} {p : EntryPtr} (h : s.registry.get n = some p) :
    s.lookup n = s.heap[p]? := by rw [lookup, h, Option.bind_some]

theorem lookup_isSome {s : Store κ} {n : String} {p : EntryPtr} (h : s.registry.get n = some p) :
    ∃ e, s.heap[p]? = some e := by
  have hp : p < s.heap.length := s.mapped n p h
  exact ⟨s.heap[p], List.getElem?_eq_getElem hp⟩

@[simp] theorem lookup_set_self (s : Store κ) (n : String) (e : Entry κ) :
    (s.set n e).lookup n = some e := by simp [lookup, set]

theorem lookup_set_ne {s : Store κ} {n m : String} (h : n ≠ m) (e : Entry κ) :
    (s.set m e).lookup n = s.lookup n := by
  simp only [lookup, registry_set, CRDRegistry.get_set_ne _ h]
  cases hp : s.registry.get n with
  | none => rfl
  | some p =>
    have hlt : p < s.heap.length := s.mapped n p hp
    simp only [Option.bind_some, set, List.getElem?_append_left hlt]

@[simp] theorem lookup_delete_self (s : Store κ) (n : String) : (s.delete n).lookup n = none := by
  simp [lookup]

end Store

end Yafu.Cluster
