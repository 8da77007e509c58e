import Yafu.Api.Tree

/-!
# Who manages the resources of an application

Reference: `internal/api/diff.go`.

A resource has drifted if someone else than Flux has written to it. The order of the rows is no weak
order: two rows with different statuses, neither of them drifted, are not ordered, so that rows of
the same status next to them need not come out sorted.
-/

namespace Yafu.Api

open Yafu.Auth (Policy)
open Yafu.Cluster (Registry)
open Yafu.Render

/-- `fluxManagers`. -/
def fluxManagers : List GoString :=
  ["kustomize-controller", "helm-controller", "source-controller", "notification-controller",
    "image-reflector-controller", "image-automation-controller"]

/-- `strings.TrimSuffix`. -/
def trimSuffix (s suffix : GoString) : GoString :=
  if suffix <:+ s then s.take (s.length - suffix.length) else s

/-- One round of the loop of `classifyManagers`. -/
def managedField (mf : ManagedFieldsEntry) : Types.ManagedField :=
  let mgr := trimSuffix mf.manager ".exe"
  { manager := mgr
    operation := mf.operation
    foreign := !fluxManagers.contains mgr
    time := match mf.time with
      | none => []
      | some t => Clock.rfc3339 t }

/-- `classifyManagers`. -/
def classifyManagers (mfs : List ManagedFieldsEntry) : List Types.ManagedField × GoString :=
  let out := mfs.map managedField
  (out, if out.any (·.foreign) then "drift" else "ready")

/-- `checkOneDrift`. -/
def checkOneDrift (rt : Runtime) (c : Clients) (ref : InventoryRef) : Types.DriftedResource :=
  let (managers, status) : List Types.ManagedField × GoString :=
    match c.getUnstructured ref.key with
    | .notFound _ => ([], "notfound")
    | .failed _ => ([], "unknown")
    | .found o => classifyManagers (rt.getManagedFields o)
  { group := ref.group, version := ref.version, kind := ref.kind, ns := ref.ns, name := ref.name
    status, managers }

/-- `checkDrift`. The goroutines write to a slot each, so their order is of no matter. -/
def checkDrift (rt : Runtime) (e : Entry) (refs : List InventoryRef) : List Types.DriftedResource :=
  refs.map (checkOneDrift rt e.clients)

/-- The order of the rows: drifted ones first, then those of one status by namespace, kind and name.
-/
def driftLess (a b : Types.DriftedResource) : Bool :=
  if a.status ≠ b.status then a.status = "drift" && b.status ≠ "drift"
  else lexLess [(·.ns), (·.kind), (·.name)] a b

/-- Keys that decide what `driftLess` decides, and the rest by the status. -/
def driftKeys : List (Types.DriftedResource → GoString) :=
  [fun d => if d.status = ("drift" : GoString) then [] else [0], (·.status), (·.ns), (·.kind), (·.name)]

theorem lexLess_driftKeys (a b : Types.DriftedResource) (h : driftLess a b) :
    lexLess driftKeys a b := by
  unfold driftLess at h
  by_cases hstatus : a.status = b.status
  · rw [if_neg (not_not.mpr hstatus)] at h
    simpa only [driftKeys, lexLess, hstatus, ne_eq, not_true_eq_false, if_false] using h
  · rw [if_pos hstatus, Bool.and_eq_true, decide_eq_true_eq, decide_eq_true_eq] at h
    simp only [driftKeys, lexLess, if_pos h.1, if_neg h.2]
    rfl

/-- Sorting by these keys. -/
def driftSort : SortSliceWeak driftLess := (SortSlice.lex driftKeys).weaken lexLess_driftKeys

/-- `diff` behind the checks. -/
def diffOf (rt : Runtime) (sort : SortSliceWeak driftLess) (p : AppPath) (e : Entry) (fuel : ℕ) :
    Option Response :=
  match getApp rt e.clients p.ns p.kind p.name with
  | .error err => some (getAppFailed err)
  | .ok obj =>
    (inventoryEntriesOf rt fuel e.clients.kube obj).map fun (entries, _) =>
      { body := .diff
          { appId := p.id
            resources := sort.sort (checkDrift rt e entries)
            note := "v0.1 surfaces field-ownership drift via metadata.managedFields. True Git-vs-cluster diff (kustomize build / helm render against the source) lands in v0.4." } }

/-- `applicationsHandler.diff`. -/
def diff (rt : Runtime) (policy : Policy) (registry : Option (Registry Clients)) (r : Request)
    (sort : SortSliceWeak driftLess) (p : AppPath) : Set Response :=
  withEntry rt policy registry r jsonHeaders p.cluster fun e => eventually (diffOf rt sort p e)

end Yafu.Api
