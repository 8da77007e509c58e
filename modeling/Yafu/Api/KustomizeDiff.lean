import Yafu.Api.Inventory
import Yafu.Render.Applied

/-!
# The diff of a Kustomization right after an apply

Reference: `renderKustomization` in `internal/api/render.go`, `RenderKustomization` and
`isClusterScoped` in `internal/render/kustomize.go`.

The rendered side puts `spec.targetNamespace` on every object whose kind is not on a list of
cluster-scoped kinds; the inventory says where kustomize-controller put the object.
`clean_iff_aligned` says when the two agree for every object.
-/

namespace Yafu.Api

open Yafu.Render

/-- What `renderKustomization` answers once the artifact was built: the rows of the diff. -/
def kustomizationRows (sort : SortSlice rowLess) (env : Env)
    (unmarshal : GoString → Except GoString Object) (targetNamespace yml : GoString)
    (inventory : Option (List ResourceRef)) : Except GoString (List RenderResource) :=
  match renderKustomization unmarshal targetNamespace yml with
  | .error err => .error (("kustomize build: " : GoString) ++ err)
  | .ok rendered =>
    .ok (diffResources sort env ⟨rendered, inventoryKeysFromKustomization inventory⟩)

/-- A cluster and an inventory as kustomize-controller leaves them after it applied `objs`. -/
structure AppliedByFlux (env : Env) (namespaced : GroupVersionKind → Bool) (target : GoString)
    (objs : List Object) (entries : List ResourceRef) : Prop
    extends AppliedTo env namespaced target objs where
  admissible : ∀ o ∈ objs, Admissible (appliedKey namespaced target o)
  /-- No cluster serves a kind with an underscore, and the error for that is not `NotFound`. -/
  unserved : ∀ k, '_'.toUInt8 ∈ k.gvk.kind → ∃ err, env.getLive k = .failed err
  recorded : ∀ ref, ref ∈ entries ↔ ∃ o ∈ objs, ref = .ofKey (appliedKey namespaced target o)

/-- Both sides of the diff name every object alike: its name has neither `:` nor `_`, and it (or
another object of the same kind and name) is stamped with the namespace it was applied in. An object
that is looked up without its namespace is not answered `NotFound`. -/
structure Aligned (env : Env) (namespaced : GroupVersionKind → Bool) (target : GoString)
    (objs : List Object) : Prop where
  names : ∀ o ∈ objs, PlainName o.getName
  namespaces : ∀ o ∈ objs, ∃ o' ∈ objs, o'.groupVersionKind = o.groupVersionKind ∧
    o'.getName = o.getName ∧ stampedNs target o' = appliedNs namespaced target o
  unstamped : ∀ o ∈ objs, Unstamped namespaced target o →
    env.gone ⟨o.groupVersionKind, [], o.getName⟩ = false

/-- The two sides of the diff. -/
def diffOptions (target : GoString) (objs : List Object) (entries : List ResourceRef) : DiffOptions where
  rendered := objs.map (stampNamespace target)
  inventory := inventoryKeysFromKustomization (some entries)

theorem kustomizationRows_of_build {sort : SortSlice rowLess} {env : Env}
    {unmarshal : GoString → Except GoString Object} {target yml : GoString} {objs : List Object}
    {entries : List ResourceRef} (hbuild : splitYAMLDocuments unmarshal yml = .ok objs) :
    kustomizationRows sort env unmarshal target yml (some entries) =
      .ok (diffResources sort env (diffOptions target objs entries)) := by
  have hrender : renderKustomization unmarshal target yml =
      .ok (objs.map (stampNamespace target)) := by
    rw [renderKustomization, hbuild]
  rw [kustomizationRows, hrender]
  rfl

section Apply

variable {sort : SortSlice rowLess} {env : Env} {namespaced : GroupVersionKind → Bool}
  {target : GoString} {objs : List Object} {entries : List ResourceRef}

theorem AppliedByFlux.mem_rendered (h : AppliedByFlux env namespaced target objs entries)
    {k : ResourceKey} :
    k ∈ (diffOptions target objs entries).rendered.map keyOf ↔
      ∃ o ∈ objs, stampedKey target o = k := by
  simp only [diffOptions, List.map_map, List.mem_map, Function.comp_apply]
  refine exists_congr fun o => and_congr_right fun ho => ?_
  rw [keyOf_stampNamespace target (h.named o ho)]

theorem AppliedByFlux.mem_unrendered (h : AppliedByFlux env namespaced target objs entries)
    {k : ResourceKey} :
    k ∈ (diffOptions target objs entries).unrendered ↔
      (∃ o ∈ objs, inventoryKey (.ofKey (appliedKey namespaced target o)) = some k) ∧
        ¬∃ o ∈ objs, stampedKey target o = k := by
  rw [DiffOptions.unrendered, List.mem_filter, decide_eq_true_eq, h.mem_rendered]
  refine and_congr_left fun _ => ?_
  simp only [diffOptions, inventoryKeysFromKustomization, List.mem_filterMap, h.recorded]
  constructor
  · rintro ⟨ref, ⟨o, ho, rfl⟩, hk⟩
    exact ⟨o, ho, hk⟩
  · rintro ⟨o, ho, hk⟩
    exact ⟨_, ⟨o, ho, rfl⟩, hk⟩

/-- No rendered object has a kind with an underscore. -/
theorem AppliedByFlux.not_stamped (h : AppliedByFlux env namespaced target objs entries)
    {k : ResourceKey} (hk : '_'.toUInt8 ∈ k.gvk.kind) : ¬∃ o ∈ objs, stampedKey target o = k := by
  rintro ⟨o, ho, rfl⟩
  exact (h.admissible o ho).kind hk

theorem AppliedByFlux.aligned (h : AppliedByFlux env namespaced target objs entries)
    (hclean : Clean (diffResources sort env (diffOptions target objs entries))) :
    Aligned env namespaced target objs := by
  obtain ⟨hwants, hextra⟩ := (clean_diffResources_iff sort env _).mp hclean
  have hnames : ∀ o ∈ objs, PlainName o.getName := by
    intro o ho
    by_contra hname
    obtain ⟨k, hk, hkind⟩ := inventoryKey_ofKey_of_not_plain (h.admissible o ho) hname
    have hgone := hextra k (h.mem_unrendered.mpr ⟨⟨o, ho, hk⟩, h.not_stamped hkind⟩)
    obtain ⟨err, hfailed⟩ := h.unserved k hkind
    simp [Env.gone, hfailed] at hgone
  refine ⟨hnames, fun o ho => ?_, fun o ho hun => ?_⟩
  · have hkey := inventoryKey_ofKey (h.admissible o ho) (hnames o ho)
    by_contra hno
    -- the applied object is on the cluster, so its key must be a rendered one
    have hun : ¬∃ o' ∈ objs, stampedKey target o' = appliedKey namespaced target o := by
      rintro ⟨o', ho', heq⟩
      simp only [stampedKey, appliedKey, ResourceKey.mk.injEq] at heq
      exact hno ⟨o', ho', heq.1, heq.2.2, heq.2.1⟩
    have hgone := hextra _ (h.mem_unrendered.mpr ⟨⟨o, ho, hkey⟩, hun⟩)
    rw [appliedKey, h.not_gone ho fun _ => rfl] at hgone
    cases hgone
  · have hwant := hwants _ (List.mem_map_of_mem ho)
    rwa [keyOf_stampNamespace target (h.named o ho), stampedKey_of_unstamped hun] at hwant

theorem AppliedByFlux.clean (h : AppliedByFlux env namespaced target objs entries)
    (hal : Aligned env namespaced target objs) :
    Clean (diffResources sort env (diffOptions target objs entries)) := by
  refine (clean_diffResources_iff sort env _).mpr ⟨fun want hwant => ?_, fun k hk => ?_⟩
  · obtain ⟨o, ho, rfl⟩ := List.mem_map.mp hwant
    rw [keyOf_stampNamespace target (h.named o ho)]
    by_cases hun : Unstamped namespaced target o
    · rw [stampedKey_of_unstamped hun]
      exact hal.unstamped o ho hun
    · exact h.stamped_not_gone ho hun
  · obtain ⟨⟨o, ho, hkey⟩, hno⟩ := h.mem_unrendered.mp hk
    rw [inventoryKey_ofKey (h.admissible o ho) (hal.names o ho), Option.some.injEq] at hkey
    obtain ⟨o', ho', hgvk, hname, hns⟩ := hal.namespaces o ho
    refine absurd ⟨o', ho', ?_⟩ hno
    rw [← hkey, stampedKey, appliedKey, hgvk, hname, hns]

end Apply

/-- **Clean after an apply.** For everything `kustomize build` may produce and every target namespace,
the diff right after the apply is clean if and only if the two sides are aligned. -/
theorem clean_iff_aligned (sort : SortSlice rowLess) (env : Env)
    (unmarshal : GoString → Except GoString Object) (namespaced : GroupVersionKind → Bool)
    (target yml : GoString) (objs : List Object) (entries : List ResourceRef)
    (hbuild : splitYAMLDocuments unmarshal yml = .ok objs)
    (h : AppliedByFlux env namespaced target objs entries) :
    ∃ rows, kustomizationRows sort env unmarshal target yml (some entries) = .ok rows ∧
      (Clean rows ↔ Aligned env namespaced target objs) := by
  exact ⟨_, kustomizationRows_of_build hbuild, h.aligned, h.clean⟩

/-! ### A name with a colon, a cluster-scoped kind that is not on the list -/

/-- A cluster that has every object of every kind it serves. -/
def fullCluster : Env where
  getLive k := if '_'.toUInt8 ∈ k.gvk.kind then .failed "no matches for kind" else .found []
  marshal _ := .ok []
  getOpCodes _ _ := []

/-- The scope of the kinds below. -/
def isNamespaced (gvk : GroupVersionKind) : Bool := gvk.kind = "Deployment"

/-- The inventory of an apply to a cluster with these scopes. -/
def recordedEntries (target : GoString) (objs : List Object) : List ResourceRef :=
  objs.map fun o => .ofKey (appliedKey isNamespaced target o)

/-- On `fullCluster` every list of named objects with plain keys is applied. -/
theorem appliedByFlux_fullCluster {target : GoString} {objs : List Object}
    (hnamed : ∀ o ∈ objs, o.getName ≠ [])
    (hadm : ∀ o ∈ objs, Admissible (appliedKey isNamespaced target o)) :
    AppliedByFlux fullCluster isNamespaced target objs (recordedEntries target objs) where
  named := hnamed
  present o ho := ⟨[], if_neg (hadm o ho).kind⟩
  ignoresNs _ _ := rfl
  admissible := hadm
  unserved k hk := ⟨_, if_pos hk⟩
  recorded ref := by simp only [recordedEntries, List.mem_map, eq_comm]

/-- A decoder that knows one document. -/
def oneDocument (yml : GoString) (o : Object) (b : GoString) : Except GoString Object :=
  if b = yml then .ok o else .error "unexpected document"

/-- A `Deployment` without a namespace. -/
def deployment : Object := bareObject "apps/v1" "Deployment" "web"

@[inherit_doc deployment]
def deploymentYAML : GoString := bareYAML "apps/v1" "Deployment" "web"

/-- A `ClusterRole` whose name has a colon. -/
def clusterRole : Object := bareObject "rbac.authorization.k8s.io/v1" "ClusterRole" "system:web"

@[inherit_doc clusterRole]
def clusterRoleYAML : GoString :=
  bareYAML "rbac.authorization.k8s.io/v1" "ClusterRole" "'system:web'"

/-- A custom resource that is not namespaced. -/
def tenant : Object := bareObject "example.com/v1" "Tenant" "acme"

@[inherit_doc tenant]
def tenantYAML : GoString := bareYAML "example.com/v1" "Tenant" "acme"

theorem splitYAMLDocuments_oneDocument {yml : GoString} {o : Object}
    (hstream : splitYAMLStream yml = [yml])
    (htrim : ¬(GoString.trimSpace yml = [] ∨ GoString.trimSpace yml = "---")) (ho : o ≠ []) :
    splitYAMLDocuments (oneDocument yml o) yml = .ok [o] :=
  splitYAMLDocuments_single hstream htrim (if_pos rfl) ho

theorem appliedByFlux_one {target : GoString} {o : Object} (hnamed : o.getName ≠ [])
    (hadm : Admissible (appliedKey isNamespaced target o)) :
    AppliedByFlux fullCluster isNamespaced target [o] (recordedEntries target [o]) :=
  appliedByFlux_fullCluster (by simpa using hnamed) (by simpa using hadm)

/-- Right after an apply the diff says that the `ClusterRole`, or the `Tenant`, would be deleted. -/
theorem not_clean_afterApply :
    (AppliedByFlux fullCluster isNamespaced [] [clusterRole] (recordedEntries [] [clusterRole]) ∧
      ∃ rows, kustomizationRows rowSort fullCluster (oneDocument clusterRoleYAML clusterRole) []
        clusterRoleYAML (some (recordedEntries [] [clusterRole])) = .ok rows ∧ ¬Clean rows) ∧
    (AppliedByFlux fullCluster isNamespaced "shop" [tenant] (recordedEntries "shop" [tenant]) ∧
      ∃ rows, kustomizationRows rowSort fullCluster (oneDocument tenantYAML tenant) "shop"
        tenantYAML (some (recordedEntries "shop" [tenant])) = .ok rows ∧ ¬Clean rows) := by
  have hrole : AppliedByFlux fullCluster isNamespaced [] [clusterRole] _ :=
    appliedByFlux_one (by decide) ⟨by decide, by decide, by decide⟩
  have htenant : AppliedByFlux fullCluster isNamespaced "shop" [tenant] _ :=
    appliedByFlux_one (by decide) ⟨by decide, by decide, by decide⟩
  have hroleBuild : splitYAMLDocuments (oneDocument clusterRoleYAML clusterRole) _ = _ :=
    splitYAMLDocuments_oneDocument (by decide +kernel) (by decide +kernel) (List.cons_ne_nil _ _)
  have htenantBuild : splitYAMLDocuments (oneDocument tenantYAML tenant) _ = _ :=
    splitYAMLDocuments_oneDocument (by decide +kernel) (by decide +kernel) (List.cons_ne_nil _ _)
  refine ⟨⟨hrole, _, kustomizationRows_of_build hroleBuild, fun hclean => ?_⟩,
    htenant, _, kustomizationRows_of_build htenantBuild, fun hclean => ?_⟩
  · exact absurd ((hrole.aligned hclean).names _ (.head _)) (by decide)
  · obtain ⟨o, ho, -, -, hns⟩ := (htenant.aligned hclean).namespaces _ (.head _)
    rw [List.mem_singleton.mp ho] at hns
    exact absurd hns (by decide)

/-- A `Deployment` that is stamped with the namespace it was applied in. -/
theorem clean_iff_aligned_deployment :
    ∃ rows, kustomizationRows rowSort fullCluster (oneDocument deploymentYAML deployment) "shop"
        deploymentYAML (some (recordedEntries "shop" [deployment])) = .ok rows ∧
      (Clean rows ↔ Aligned fullCluster isNamespaced "shop" [deployment]) :=
  clean_iff_aligned _ _ _ _ _ _ _ _
    (splitYAMLDocuments_oneDocument (by decide +kernel) (by decide +kernel) (List.cons_ne_nil _ _))
    (appliedByFlux_one (by decide) ⟨by decide, by decide, by decide⟩)

end Yafu.Api
