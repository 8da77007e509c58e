import Yafu.Render.Diff

/-!
# Inventories

Reference: `inventoryKeysFromKustomization` in `internal/api/render.go`, and the inventory of the
Flux API types.

kustomize-controller records what it applied as ids `<ns>_<name>_<group>_<kind>`, in which a `:` of
the name is written `__`. The decoder cuts an id at its first three underscores.
-/

namespace Yafu.Api

open Yafu.Render

/-- `ResourceRef` of `status.inventory`. -/
structure ResourceRef where
  id : GoString
  version : GoString
deriving DecidableEq, Repr

/-- One round of the loop of `inventoryKeysFromKustomization`. -/
def inventoryKey (ref : ResourceRef) : Option ResourceKey :=
  match GoString.splitN '_'.toUInt8 3 ref.id with
  | [ns, name, group, kind] => some ⟨⟨group, ref.version, kind⟩, ns, name⟩
  | _ => none

/-- `inventoryKeysFromKustomization`. -/
def inventoryKeysFromKustomization (inventory : Option (List ResourceRef)) : List ResourceKey :=
  match inventory with
  | none => []
  | some entries => entries.filterMap inventoryKey

/-! ## Ids as kustomize-controller writes them -/

/-- The entry for a resource. -/
def ResourceRef.ofKey (k : ResourceKey) : ResourceRef where
  id := k.ns ++ '_'.toUInt8 :: (GoString.replaceAll ':'.toUInt8 "__" k.nm ++
    '_'.toUInt8 :: (k.gvk.group ++ '_'.toUInt8 :: k.gvk.kind))
  version := k.gvk.version

/-- A name that an id spells as it is. -/
def PlainName (name : GoString) : Prop := ':'.toUInt8 ∉ name ∧ '_'.toUInt8 ∉ name

instance (name : GoString) : Decidable (PlainName name) := inferInstanceAs (Decidable (_ ∧ _))

/-- A key without an underscore, except perhaps in its name. -/
structure Admissible (k : ResourceKey) : Prop where
  ns : '_'.toUInt8 ∉ k.ns
  group : '_'.toUInt8 ∉ k.gvk.group
  kind : '_'.toUInt8 ∉ k.gvk.kind

theorem inventoryKey_ofKey {k : ResourceKey} (h : Admissible k) (hname : PlainName k.nm) :
    inventoryKey (.ofKey k) = some k := by
  simp only [inventoryKey, ResourceRef.ofKey, GoString.replaceAll_of_notMem hname.1, GoString.splitN,
    GoString.cut_append h.ns, GoString.cut_append hname.2, GoString.cut_append h.group]

/-- A name that is not plain shifts the parts of an id, so that the kind starts too early. -/
theorem inventoryKey_ofKey_of_not_plain {k : ResourceKey} (h : Admissible k)
    (hname : ¬PlainName k.nm) :
    ∃ k', inventoryKey (.ofKey k) = some k' ∧ '_'.toUInt8 ∈ k'.gvk.kind := by
  have hmem : '_'.toUInt8 ∈ GoString.replaceAll ':'.toUInt8 "__" k.nm := by
    rw [GoString.replaceAll, List.mem_flatMap]
    by_cases hcolon : ':'.toUInt8 ∈ k.nm
    · exact ⟨_, hcolon, by decide⟩
    · have hunderscore : '_'.toUInt8 ∈ k.nm := by
        by_contra hno
        exact hname ⟨hcolon, hno⟩
      exact ⟨_, hunderscore, by decide⟩
  obtain ⟨a, b, hab, ha⟩ := List.eq_append_cons_of_mem hmem
  -- the third cut is in the name or right behind it, before the group
  obtain ⟨x, y, hcut, hsuffix⟩ := GoString.exists_cut_append '_'.toUInt8 b
    (k.gvk.group ++ '_'.toUInt8 :: k.gvk.kind)
  refine ⟨⟨⟨x, k.gvk.version, y⟩, k.ns, a⟩, ?_, hsuffix.subset (by simp)⟩
  simp only [inventoryKey, ResourceRef.ofKey, hab, List.append_assoc, List.cons_append,
    GoString.splitN, GoString.cut_append h.ns, GoString.cut_append ha, hcut]

end Yafu.Api
