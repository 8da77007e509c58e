import Yafu.Api.Handler

/-!
# The resource tree of an application

Reference: `internal/api/tree.go`.

The references come out of the inventory of the application, the status of each resource out of the
object on the cluster.
-/

namespace Yafu.Api

open Yafu.Auth (Policy)
open Yafu.Cluster (Registry)
open Yafu.Render

/-! ## Inventories -/

/-- `parseInventoryID`. -/
def parseInventoryID (id version : GoString) : Option InventoryRef :=
  match GoString.splitN '_'.toUInt8 3 id with
  | [ns, name, group, kind] => some { ns, name, group, kind, version }
  | _ => none

/-- `inventoryEntriesOf`: the references and the note. -/
def inventoryEntriesOf (rt : Runtime) (fuel : ℕ) (kube : Option Kube) :
    App → Option (List InventoryRef × GoString)
  | .kustomization k =>
    match k.inventory with
    | none | some [] =>
      some ([], "no inventory recorded — Kustomization may not have reconciled yet")
    | some entries => some (entries.filterMap fun ref => parseInventoryID ref.id ref.version, [])
  | .helmRelease hr =>
    match kube with
    | none => some ([], "HelmRelease inventory requires the kubernetes clientset")
    | some kube =>
      (helmReleaseInventory kube.getSecret rt.storage rt.newDecoder fuel hr.history
        hr.storageNamespace).map fun answer =>
        match answer.err with
        | some err => ([], ("Helm release inventory: " : GoString) ++ err)
        | none => (answer.refs, answer.note)

/-- The reference of a key. -/
def InventoryRef.ofKey (k : ResourceKey) : InventoryRef :=
  ⟨k.ns, k.nm, k.gvk.group, k.gvk.kind, k.gvk.version⟩

/-- Both decoders cut an id alike. -/
theorem inventoryKey_eq (ref : ResourceRef) :
    inventoryKey ref = (parseInventoryID ref.id ref.version).map InventoryRef.key := by
  rw [inventoryKey, parseInventoryID]
  rcases GoString.splitN '_'.toUInt8 3 ref.id with
    _ | ⟨ns, _ | ⟨name, _ | ⟨group, _ | ⟨kind, _ | ⟨rest, parts⟩⟩⟩⟩⟩ <;> rfl

theorem parseInventoryID_ofKey_iff {k : ResourceKey} (h : Admissible k) :
    parseInventoryID (ResourceRef.ofKey k).id k.gvk.version = some (.ofKey k) ↔ PlainName k.nm := by
  have hkey : inventoryKey (.ofKey k) =
      (parseInventoryID (ResourceRef.ofKey k).id k.gvk.version).map InventoryRef.key :=
    inventoryKey_eq _
  constructor
  · intro hparse
    by_contra hname
    obtain ⟨k', hk', hkind⟩ := inventoryKey_ofKey_of_not_plain h hname
    rw [hkey, hparse, Option.map_some, Option.some.injEq] at hk'
    rw [← hk'] at hkind
    exact h.kind hkind
  · intro hname
    rw [inventoryKey_ofKey h hname] at hkey
    obtain ⟨ref, hparse, href⟩ := Option.map_eq_some_iff.mp hkey.symm
    rw [hparse, ← href]
    rfl

theorem inventoryKeys_map_ofKey : ∀ {ks : List ResourceKey}, (∀ k ∈ ks, Admissible k) →
    (∀ k ∈ ks, PlainName k.nm) → inventoryKeysFromKustomization (some (ks.map .ofKey)) = ks
  | [], _, _ => rfl
  | k :: ks, hadm, hname => by
    have ih := inventoryKeys_map_ofKey (fun k' hk' => hadm k' (List.mem_cons_of_mem _ hk'))
      fun k' hk' => hname k' (List.mem_cons_of_mem _ hk')
    have hkey := inventoryKey_ofKey (hadm k List.mem_cons_self) (hname k List.mem_cons_self)
    rw [inventoryKeysFromKustomization] at ih ⊢
    rw [List.map_cons, List.filterMap_cons_some hkey, ih]

/-- Both decoders give the keys back that an inventory was made of if and only if every name is spelt
as it is. -/
theorem decodeInventory_iff {ks : List ResourceKey} (h : ∀ k ∈ ks, Admissible k) :
    ((∀ k ∈ ks, parseInventoryID (ResourceRef.ofKey k).id k.gvk.version = some (.ofKey k)) ∧
        inventoryKeysFromKustomization (some (ks.map .ofKey)) = ks) ↔
      ∀ k ∈ ks, PlainName k.nm := by
  constructor
  · rintro ⟨hparse, -⟩ k hk
    exact (parseInventoryID_ofKey_iff (h k hk)).mp (hparse k hk)
  · intro hname
    exact ⟨fun k hk => (parseInventoryID_ofKey_iff (h k hk)).mpr (hname k hk),
      inventoryKeys_map_ofKey h hname⟩

/-- The ClusterRole of a controller of Kubernetes. -/
def controllerRole : ResourceKey :=
  ⟨⟨"rbac.authorization.k8s.io", "v1", "ClusterRole"⟩, [], "system:controller:job-controller"⟩

/-- A Service in a namespace. -/
def shopService : ResourceKey := ⟨⟨[], "v1", "Service"⟩, "shop", "checkout-api"⟩

theorem decodeInventory_shop :
    (∀ k ∈ [shopService],
        parseInventoryID (ResourceRef.ofKey k).id k.gvk.version = some (.ofKey k)) ∧
      inventoryKeysFromKustomization (some ([shopService].map .ofKey)) = [shopService] := by
  have hadm : ∀ k ∈ [shopService], Admissible k := by
    intro k hk
    rw [List.mem_singleton.mp hk]
    exact ⟨by decide, by decide, by decide⟩
  refine (decodeInventory_iff hadm).mpr fun k hk => ?_
  rw [List.mem_singleton.mp hk]
  decide

/-- The name is cut at the first `__`, and the rest of it goes to the kind. -/
theorem decodeInventory_controllerRole :
    parseInventoryID (ResourceRef.ofKey controllerRole).id "v1" =
        some ⟨[], "system", [],
          "controller__job-controller_rbac.authorization.k8s.io_ClusterRole", "v1"⟩ ∧
      parseInventoryID (ResourceRef.ofKey controllerRole).id "v1" ≠ some (.ofKey controllerRole) ∧
      inventoryKeysFromKustomization (some [.ofKey controllerRole]) ≠ [controllerRole] := by
  decide

/-! ## Status -/

/-- `NestedFieldNoCopy`, `none` where it finds nothing or fails. -/
def nestedField (o : Object) : List GoString → Option Json
  | [] => some (.obj o)
  | [k] => o.get k
  | k :: ks =>
    match o.get k with
    | some (.obj m) => nestedField m ks
    | _ => none

/-- `NestedInt64`. -/
def nestedInt64 (o : Object) (fields : List GoString) : Option ℤ :=
  match nestedField o fields with
  | some (.int64 n) => some n
  | _ => none

/-- The elements of `status.conditions`. -/
def statusConditions (o : Object) : List Json :=
  match nestedField o ["status", "conditions"] with
  | some (.arr conds) => conds
  | _ => []

/-- The status and the message that one condition gives, none if it is no `Ready` condition. -/
def readyCondition : Json → Option (GoString × GoString)
  | .obj cm =>
    if Object.getString cm "type" = "Ready" then
      let msg := Object.getString cm "message"
      some (if Object.getString cm "status" = "True" then ("ready", msg) else ("failing", msg))
    else none
  | _ => none

/-- The status of a workload by its replicas. -/
def replicaStatus (o : Object) (ready : ℤ) : GoString × GoString :=
  let desired :=
    match nestedInt64 o ["status", "replicas"] with
    | some desired => desired
    | none => (nestedInt64 o ["spec", "replicas"]).getD 0
  let msg := Clock.signed ready ++ ("/" : GoString) ++ Clock.signed desired ++ (" ready" : GoString)
  if desired = 0 ∨ desired ≤ ready then ("ready", msg) else ("progressing", msg)

/-- `unstructuredStatus`: the status and the message. -/
def unstructuredStatus (o : Object) : GoString × GoString :=
  match (statusConditions o).findSome? readyCondition with
  | some answer => answer
  | none =>
    match nestedInt64 o ["status", "readyReplicas"] with
    | some ready => replicaStatus o ready
    | none => ("ready", [])

/-! ### What the status says -/

/-- The condition is one of the type `Ready`. -/
def IsReady : Json → Prop
  | .obj cm => Object.getString cm "type" = "Ready"
  | _ => False

/-- The replicas that a workload is to have, if its integers say so. -/
def desiredReplicas (o : Object) : Option ℤ :=
  match nestedInt64 o ["status", "replicas"] with
  | some desired => some desired
  | none => nestedInt64 o ["spec", "replicas"]

/-- The replicas that are ready. The API server leaves a zero out; a field that is no integer counts
nothing. -/
def readyReplicas (o : Object) : Option ℤ :=
  match nestedField o ["status", "readyReplicas"] with
  | none => some 0
  | some (.int64 ready) => some ready
  | some _ => none

/-- The status tells whether the object is ready: by its first `Ready` condition, and by its replicas
if it has none. -/
structure TellsReady (o : Object) : Prop where
  condition : ∀ before cm after, statusConditions o = before ++ .obj cm :: after →
    (∀ c ∈ before, ¬ IsReady c) → IsReady (.obj cm) →
      ((unstructuredStatus o).1 = "ready" ↔ Object.getString cm "status" = "True")
  replicas : (∀ c ∈ statusConditions o, ¬ IsReady c) → ∀ desired ready,
    desiredReplicas o = some desired → 0 < desired → readyReplicas o = some ready →
      ((unstructuredStatus o).1 = "ready" ↔ desired ≤ ready)

theorem readyCondition_eq_none {c : Json} (h : ¬ IsReady c) : readyCondition c = none := by
  cases c with
  | obj cm => exact if_neg h
  | _ => rfl

theorem unstructuredStatus_of_ready {o : Object} {before after : List Json} {cm : Object}
    (hconds : statusConditions o = before ++ .obj cm :: after) (hbefore : ∀ c ∈ before, ¬ IsReady c)
    (hready : IsReady (.obj cm)) :
    (unstructuredStatus o).1 =
      if Object.getString cm "status" = "True" then ("ready" : GoString) else "failing" := by
  have hnone : before.findSome? readyCondition = none :=
    List.findSome?_eq_none_iff.mpr fun c hc => readyCondition_eq_none (hbefore c hc)
  have hsome : readyCondition (.obj cm) =
      some (if Object.getString cm "status" = "True" then
          (("ready", Object.getString cm "message") : GoString × GoString)
        else ("failing", Object.getString cm "message")) := if_pos hready
  rw [unstructuredStatus, hconds, List.findSome?_append, hnone, Option.none_or,
    List.findSome?_cons_of_isSome (by rw [hsome]; rfl), hsome]
  split_ifs
  · rfl
  · rfl

theorem unstructuredStatus_of_not_ready {o : Object} (h : ∀ c ∈ statusConditions o, ¬ IsReady c) :
    unstructuredStatus o =
      match nestedInt64 o ["status", "readyReplicas"] with
      | some ready => replicaStatus o ready
      | none => ("ready", []) := by
  have hnone : (statusConditions o).findSome? readyCondition = none :=
    List.findSome?_eq_none_iff.mpr fun c hc => readyCondition_eq_none (h c hc)
  rw [unstructuredStatus, hnone]

theorem replicaStatus_eq_ready_iff {o : Object} {desired : ℤ} (h : desiredReplicas o = some desired)
    (hpos : 0 < desired) (ready : ℤ) : (replicaStatus o ready).1 = "ready" ↔ desired ≤ ready := by
  have hdesired : (match nestedInt64 o ["status", "replicas"] with
      | some desired => desired
      | none => (nestedInt64 o ["spec", "replicas"]).getD 0) = desired := by
    rw [desiredReplicas] at h
    cases hstatus : nestedInt64 o ["status", "replicas"] with
    | some d =>
      rw [hstatus] at h
      exact Option.some.inj h
    | none =>
      rw [hstatus] at h
      exact congrArg (Option.getD · 0) h
  have hne : ("progressing" : GoString) ≠ "ready" := by decide
  rw [replicaStatus, hdesired]
  split_ifs with hle
  · exact iff_of_true rfl (hle.resolve_left hpos.ne')
  · rw [not_or] at hle
    exact iff_of_false hne hle.2

/-- The status tells whether the object is ready unless the API server has left out that none of its
replicas is. -/
theorem tellsReady_iff (o : Object) :
    TellsReady o ↔ (∃ c ∈ statusConditions o, IsReady c) ∨
      (∀ desired, desiredReplicas o = some desired → desired ≤ 0) ∨
      (nestedField o ["status", "readyReplicas"]).isSome := by
  by_cases hready : ∃ c ∈ statusConditions o, IsReady c
  · refine iff_of_true ⟨fun before cm after hconds hbefore hcm => ?_, fun hnone => ?_⟩ (.inl hready)
    · rw [unstructuredStatus_of_ready hconds hbefore hcm]
      split_ifs with htrue
      · exact iff_of_true rfl htrue
      · exact iff_of_false (by decide) htrue
    · obtain ⟨c, hc, hcr⟩ := hready
      exact absurd hcr (hnone c hc)
  have hnone : ∀ c ∈ statusConditions o, ¬ IsReady c := fun c hc hcr => hready ⟨c, hc, hcr⟩
  have hstatus := unstructuredStatus_of_not_ready hnone
  rw [or_iff_right hready]
  constructor
  · intro htells
    by_contra hbad
    rw [not_or, Option.not_isSome_iff_eq_none] at hbad
    obtain ⟨hdesired, habsent⟩ := hbad
    simp only [not_forall, not_le] at hdesired
    obtain ⟨desired, hdesired, hpos⟩ := hdesired
    -- the field is not there, so that nothing is ready
    have hcount : readyReplicas o = some 0 := by rw [readyReplicas, habsent]
    have hint : nestedInt64 o ["status", "readyReplicas"] = none := by rw [nestedInt64, habsent]
    have hle := (htells.replicas hnone desired 0 hdesired hpos hcount).mp (by rw [hstatus, hint])
    omega
  · intro h
    refine ⟨fun before cm after hconds _ hcm => ?_, fun _ desired ready hdesired hpos hcount => ?_⟩
    · exact absurd hcm (hnone _ (hconds ▸ List.mem_append_right _ List.mem_cons_self))
    · have hsome : (nestedField o ["status", "readyReplicas"]).isSome :=
        h.resolve_left fun hle => absurd (hle desired hdesired) (not_le.mpr hpos)
      have hint : nestedInt64 o ["status", "readyReplicas"] = some ready := by
        rw [readyReplicas] at hcount
        split at hcount <;> rename_i hfield
        · rw [hfield] at hsome
          cases hsome
        · rw [nestedInt64, hfield]
          exact hcount
        · cases hcount
      rw [hstatus, hint]
      exact replicaStatus_eq_ready_iff hdesired hpos ready

/-- A Deployment of which no pod is up, as the API server has it. -/
def downDeployment : Object :=
  [("spec", .obj [("replicas", .int64 3)]), ("status", .obj [("replicas", .int64 3)])]

/-- Without `readyReplicas` the code calls the Deployment ready. -/
theorem not_tellsReady_downDeployment :
    (unstructuredStatus downDeployment).1 = "ready" ∧ desiredReplicas downDeployment = some 3 ∧
      readyReplicas downDeployment = some 0 ∧ ¬ TellsReady downDeployment := by
  have hstatus : (unstructuredStatus downDeployment).1 = "ready" := rfl
  have hdesired : desiredReplicas downDeployment = some 3 := rfl
  have hcount : readyReplicas downDeployment = some 0 := rfl
  refine ⟨hstatus, hdesired, hcount, fun h => ?_⟩
  have hconds : statusConditions downDeployment = [] := rfl
  have hle := (h.replicas (by rw [hconds]; exact fun c hc => absurd hc List.not_mem_nil) 3 0 hdesired
    (by decide) hcount).mp hstatus
  omega

/-! ## The tree -/

/-- `fetchOneResource`. -/
def fetchOneResource (c : Clients) (ref : InventoryRef) : Types.TreeNode :=
  let (status, message) : GoString × GoString :=
    match c.getUnstructured ref.key with
    | .notFound _ => ("notfound", "resource not present on cluster")
    | .failed err => ("unknown", err)
    | .found o => unstructuredStatus o
  { group := ref.group, version := ref.version, kind := ref.kind, ns := ref.ns, name := ref.name
    status, message }

/-- `fetchInventory`. The goroutines write to a slot each, so their order is of no matter. -/
def fetchInventory (e : Entry) (refs : List InventoryRef) : List Types.TreeNode :=
  refs.map (fetchOneResource e.clients)

/-- The order of the nodes: by namespace, kind and name. -/
def nodeLess : Types.TreeNode → Types.TreeNode → Bool :=
  lexLess [(·.ns), (·.kind), (·.name)]

/-- `tree` behind the checks. -/
def treeOf (rt : Runtime) (sort : SortSlice nodeLess) (p : AppPath) (e : Entry) (fuel : ℕ) :
    Option Response :=
  match getApp rt e.clients p.ns p.kind p.name with
  | .error err => some (getAppFailed err)
  | .ok obj =>
    (inventoryEntriesOf rt fuel e.clients.kube obj).map fun (entries, note) =>
      { body := .tree { appId := p.id, nodes := sort.sort (fetchInventory e entries), note } }

/-- `applicationsHandler.tree`. -/
def tree (rt : Runtime) (policy : Policy) (registry : Option (Registry Clients)) (r : Request)
    (sort : SortSlice nodeLess) (p : AppPath) : Set Response :=
  withEntry rt policy registry r jsonHeaders p.cluster fun e => eventually (treeOf rt sort p e)

end Yafu.Api
