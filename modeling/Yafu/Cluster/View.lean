import Yafu.Cluster.Registry
import Yafu.Lib.GoString

/-!
# What a registry shows

Reference: the interface `Registry` in `internal/cluster/registry.go`.

A handler asks a registry for the list of its entries and for the entry under a name. `restrict`
leaves out the clusters that someone may not see; registries that agree on the others, `AgreeOn`,
have the same restriction.
-/

namespace Yafu.Cluster

/-- `Registry`, with the entries as they are while one request is served. -/
structure Registry (κ : Type*) where
  list : List (Entry κ)
  get : GoString → Option (Entry κ)

/-- What the registry of a store shows. -/
def Store.toRegistry {κ : Type*} (s : Store κ) : Registry κ where
  list := s.registry.list.filterMap fun p => s.heap[p]?
  get c := (s.registry.order.find? fun n : String => (n : GoString) = c).bind s.lookup

namespace Registry

variable {κ : Type*} {seen : GoString → Bool}

/-- The entries with what a handle of theirs gives in its place. -/
def map {ι : Type*} (f : κ → ι) (r : Registry κ) : Registry ι where
  list := r.list.map fun e => { e with clients := f e.clients }
  get c := (r.get c).map fun e => { e with clients := f e.clients }

/-- The registry without the clusters that are not seen. -/
def restrict (seen : GoString → Bool) (r : Registry κ) : Registry κ where
  list := r.list.filter fun e => seen e.name
  get c := if seen c then r.get c else none

/-- Two registries agree on every cluster that is seen: they list the same entries for these in the
same order, and have the same entry, or none, under the name of each. -/
structure AgreeOn (seen : GoString → Bool) (r₁ r₂ : Registry κ) : Prop where
  list : (r₁.list.filter fun e => seen e.name) = r₂.list.filter fun e => seen e.name
  get : ∀ c, seen c → r₁.get c = r₂.get c

theorem AgreeOn.restrict_eq {r₁ r₂ : Registry κ} (h : AgreeOn seen r₁ r₂) :
    r₁.restrict seen = r₂.restrict seen := by
  simp only [restrict, h.list, mk.injEq, true_and]
  funext c
  split
  · rename_i hc
    exact h.get c hc
  · rfl

/-- A second restriction to more clusters changes nothing. -/
theorem get_restrict {c : GoString} (r : Registry κ) (hc : seen c) :
    (r.restrict seen).get c = r.get c := if_pos hc

end Registry

namespace Store

variable {κ : Type*} {s : Store κ}

/-- Entries are stored under their own names, as the controller and the file registry store them. -/
def Keyed (s : Store κ) : Prop := ∀ n e, s.lookup n = some e → e.name = n

theorem keyed_new : (new : Store κ).Keyed := by
  intro n e h
  cases h

theorem Keyed.set (h : s.Keyed) (e : Entry κ) : (s.set e.name e).Keyed := by
  intro n f hf
  by_cases hn : n = e.name
  · rw [hn, lookup_set_self, Option.some.injEq] at hf
    rw [hn, hf]
  · exact h n f (by rwa [lookup_set_ne hn] at hf)

theorem mem_toRegistry_list {e : Entry κ} : e ∈ s.toRegistry.list ↔ ∃ n, s.lookup n = some e := by
  simp only [toRegistry, List.mem_filterMap, CRDRegistry.list, lookup, CRDRegistry.get,
    Option.bind_eq_some_iff]
  constructor
  · rintro ⟨p, ⟨n, -, hn⟩, hp⟩
    exact ⟨n, p, hn, hp⟩
  · rintro ⟨n, p, hn, hp⟩
    exact ⟨p, ⟨n, (s.registry.mem_order n).mpr (by rw [hn, Option.isSome_some]), hn⟩, hp⟩

theorem utf8_injective {m n : String} (h : (m : GoString) = n) : m = n :=
  String.toByteArray_inj.mp (ByteArray.ext (Array.toList_inj.mp h))

/-- `Get` finds the listed entry of that name. -/
theorem Keyed.get_eq_some_iff (h : s.Keyed) {c : GoString} {e : Entry κ} :
    s.toRegistry.get c = some e ↔ e ∈ s.toRegistry.list ∧ (e.name : GoString) = c := by
  rw [mem_toRegistry_list]
  simp only [toRegistry, Option.bind_eq_some_iff]
  constructor
  · rintro ⟨n, hfind, hn⟩
    have hbytes := List.find?_some hfind
    rw [decide_eq_true_eq] at hbytes
    exact ⟨⟨n, hn⟩, by rw [h n e hn, hbytes]⟩
  · rintro ⟨⟨n, hn⟩, rfl⟩
    have hname := h n e hn
    obtain ⟨p, hp, -⟩ := Option.bind_eq_some_iff.mp hn
    have hmem : n ∈ s.registry.order := (s.registry.mem_order n).mpr (Option.isSome_of_eq_some hp)
    have hsome : (s.registry.order.find? fun m : String => (m : GoString) = e.name).isSome :=
      List.find?_isSome.mpr ⟨n, hmem, by rw [hname, decide_eq_true_eq]⟩
    obtain ⟨m, hm⟩ := Option.isSome_iff_exists.mp hsome
    have hbytes := List.find?_some hm
    rw [decide_eq_true_eq] at hbytes
    exact ⟨n, by rw [hm, utf8_injective hbytes, hname], hn⟩

/-- Registries that list the same for what is seen also get the same. -/
theorem Keyed.agreeOn {seen : GoString → Bool} {s₁ s₂ : Store κ} (h₁ : s₁.Keyed) (h₂ : s₂.Keyed)
    (h : (s₁.toRegistry.list.filter fun e => seen e.name) =
      s₂.toRegistry.list.filter fun e => seen e.name) :
    Registry.AgreeOn seen s₁.toRegistry s₂.toRegistry := by
  refine ⟨h, fun c hc => Option.ext fun e => ?_⟩
  rw [h₁.get_eq_some_iff, h₂.get_eq_some_iff]
  refine and_congr_left fun hname => ?_
  have hseen : seen e.name := hname ▸ hc
  have hmem : ∀ l : List (Entry κ), e ∈ l ↔ e ∈ l.filter fun e => seen e.name :=
    fun l => by rw [List.mem_filter, and_iff_left hseen]
  rw [hmem, h, ← hmem]

end Store

end Yafu.Cluster
