import Yafu.Api.Logs
import Mathlib.Data.List.Dedup

/-!
# Which pods belong to an application

Reference: `listPodsForApp`, `podMatchesInventory` and `uniqueInventoryNamespaces` in
`internal/api/logs.go`.

A pod that a workload created has the name of the workload, a dash, and what Kubernetes puts behind
it. `podMatchesInventory` asks no more than that the name begins with that of an inventory entry and a
dash, so it finds every pod of the application, and those of a workload whose own name goes on
behind the dash as well.
-/

namespace Yafu.Api

open Yafu.Cluster (Time)

/-! ## Pods and what created them -/

/-- A workload, by its kind and its name. -/
structure Workload where
  kind : GoString
  name : GoString
deriving DecidableEq, Repr

/-- A part of a name between dashes. -/
def IsSegment (s : GoString) : Prop := '-'.toUInt8 ∉ s

instance (s : GoString) : Decidable (IsSegment s) := inferInstanceAs (Decidable (_ ∉ _))

/-- Two names with a dash between them. -/
def dashed (name rest : GoString) : GoString := name ++ '-'.toUInt8 :: rest

/-- The kinds that put one part behind the name of a workload. -/
def singleSuffixKinds : List GoString := ["StatefulSet", "DaemonSet", "ReplicaSet", "Job"]

/-- The kinds that put two parts behind the name of a workload. -/
def doubleSuffixKinds : List GoString := ["Deployment", "CronJob"]

/-- The names of the pods that a workload creates, where they are not cut off. -/
inductive CreatesName : Workload → GoString → Prop
  | single {kind name suffix : GoString} (hkind : kind ∈ singleSuffixKinds)
      (hsuffix : IsSegment suffix) : CreatesName ⟨kind, name⟩ (dashed name suffix)
  | double {kind name hash suffix : GoString} (hkind : kind ∈ doubleSuffixKinds)
      (hhash : IsSegment hash) (hsuffix : IsSegment suffix) :
      CreatesName ⟨kind, name⟩ (dashed name (dashed hash suffix))

/-- A pod with the workload that created it, if one did. -/
structure CreatedPod where
  pod : Pod
  creator : Option Workload := none

/-- The cluster has these pods, whose names are as Kubernetes makes them. -/
structure PodsOf (kube : Kube) (pods : List CreatedPod) : Prop where
  listed : ∀ ns, ns ≠ [] → kube.listPods ns =
    .ok ((pods.filter fun p => p.pod.namespace = ns).map CreatedPod.pod)
  namespaced : ∀ p ∈ pods, p.pod.namespace ≠ []
  named : ∀ p ∈ pods, ∀ w, p.creator = some w → CreatesName w p.pod.name

/-- The pod is one of the application: it is in the inventory, or a workload of the inventory created
it. -/
def Belongs (entries : List InventoryRef) (p : CreatedPod) : Prop :=
  ∃ ref ∈ entries, ref.ns = p.pod.namespace ∧
    (ref.kind = "Pod" ∧ ref.name = p.pod.name ∨ p.creator = some ⟨ref.kind, ref.name⟩)

/-- The name of the pod is that of a workload or pod of the inventory in its namespace, or goes on
behind it with a dash. -/
def Extends (entries : List InventoryRef) (p : Pod) : Prop :=
  ∃ ref ∈ entries, ref.ns = p.namespace ∧ ref.kind ∈ workloadKinds ∧
    (p.name = ref.name ∨ dashed ref.name [] <+: p.name)

/-! ## Names -/

theorem dashed_nil_prefix (name rest : GoString) : dashed name [] <+: dashed name rest :=
  ⟨rest, by simp [dashed]⟩

theorem CreatesName.dashed_isPrefix {w : Workload} {name : GoString} (h : CreatesName w name) :
    dashed w.name [] <+: name := by
  cases h with
  | single => exact dashed_nil_prefix _ _
  | double => exact dashed_nil_prefix _ _

theorem CreatesName.kind {w : Workload} {name : GoString} (h : CreatesName w name) :
    w.kind ∈ workloadKinds := by
  have hsingle : ∀ kind ∈ singleSuffixKinds, kind ∈ workloadKinds := by decide
  have hdouble : ∀ kind ∈ doubleSuffixKinds, kind ∈ workloadKinds := by decide
  cases h with
  | single hkind => exact hsingle _ hkind
  | double hkind => exact hdouble _ hkind

/-- What belongs to the application has such a name. -/
theorem extends_of_belongs {entries : List InventoryRef} {p : CreatedPod}
    (hnamed : ∀ w, p.creator = some w → CreatesName w p.pod.name) (h : Belongs entries p) :
    Extends entries p.pod := by
  obtain ⟨ref, href, hns, ⟨hkind, hname⟩ | hcreator⟩ := h
  · have hpod : ("Pod" : GoString) ∈ workloadKinds := by decide
    exact ⟨ref, href, hns, hkind ▸ hpod, .inl hname.symm⟩
  · have hcreates := hnamed _ hcreator
    exact ⟨ref, href, hns, hcreates.kind, .inr hcreates.dashed_isPrefix⟩

theorem podMatchesInventory_iff {entries : List InventoryRef} (hne : entries ≠ []) (p : Pod) :
    podMatchesInventory p p.namespace entries ↔ Extends entries p := by
  simp only [podMatchesInventory, if_neg hne, List.any_eq_true, Bool.and_eq_true, Bool.or_eq_true,
    decide_eq_true_eq, List.contains_iff_mem, Extends, and_assoc]
  rfl

/-! ## The list -/

/-- The namespaces that `logs` looks in. -/
def podNamespaces (entries : List InventoryRef) (appNs : GoString) : List GoString :=
  if uniqueInventoryNamespaces entries = [] then [appNs] else uniqueInventoryNamespaces entries

section List

variable {kube : Kube} {pods : List CreatedPod} {entries : List InventoryRef} {appNs : GoString}
  {now : Time}

theorem mem_uniqueInventoryNamespaces {ns : GoString} :
    ns ∈ uniqueInventoryNamespaces entries ↔ ns ≠ [] ∧ ∃ ref ∈ entries, ref.ns = ns := by
  rw [uniqueInventoryNamespaces, (List.mergeSort_perm _ _).mem_iff, List.mem_dedup, List.mem_filter,
    decide_eq_true_eq, List.mem_map, and_comm]

theorem ne_nil_of_mem_podNamespaces (happ : appNs ≠ []) {ns : GoString}
    (h : ns ∈ podNamespaces entries appNs) : ns ≠ [] := by
  rw [podNamespaces] at h
  split at h
  · rwa [List.mem_singleton.mp h]
  · exact (mem_uniqueInventoryNamespaces.mp h).1

/-- A pod with such a name is in one of these namespaces. -/
theorem Extends.mem_podNamespaces {p : Pod} (h : Extends entries p) (hns : p.namespace ≠ []) :
    p.namespace ∈ podNamespaces entries appNs := by
  obtain ⟨ref, href, hsame, -⟩ := h
  have hmem := mem_uniqueInventoryNamespaces.mpr ⟨hns, ref, href, hsame⟩
  rw [podNamespaces, if_neg (List.ne_nil_of_mem hmem)]
  exact hmem

/-- A row is that of a pod with such a name. -/
theorem PodsOf.mem_listPodsForApp (h : PodsOf kube pods) (happ : appNs ≠ []) (hne : entries ≠ [])
    (now : Time) (sort : SortSlice podLess) :
    ∃ rows, listPodsForApp now sort kube (podNamespaces entries appNs) entries = .ok rows ∧
      ∀ row, row ∈ rows ↔ ∃ p ∈ pods, podToInfo p.pod now = row ∧ Extends entries p.pod := by
  have hlisted := fun ns (hns : ns ∈ podNamespaces entries appNs) =>
    h.listed ns (ne_nil_of_mem_podNamespaces happ hns)
  have hread : ∃ rows, listPodsForApp now sort kube (podNamespaces entries appNs) entries = .ok rows :=
    exists_listPodsForApp_iff.mpr fun ns hns => ⟨_, hlisted ns hns⟩
  obtain ⟨rows, hrows⟩ := hread
  refine ⟨rows, hrows, fun row => ?_⟩
  rw [Api.mem_listPodsForApp hrows]
  constructor
  · rintro ⟨ns, hns, items, hitems, q, hq, hmatches, rfl⟩
    rw [hlisted ns hns] at hitems
    cases hitems
    obtain ⟨p, hp, rfl⟩ := List.mem_map.mp hq
    obtain ⟨hp, hsame⟩ := List.mem_filter.mp hp
    rw [← of_decide_eq_true hsame] at hmatches
    exact ⟨p, hp, rfl, (podMatchesInventory_iff hne p.pod).mp hmatches⟩
  · rintro ⟨p, hp, rfl, hextends⟩
    have hns := h.namespaced p hp
    refine ⟨p.pod.namespace, hextends.mem_podNamespaces hns, _, h.listed _ hns, p.pod, ?_,
      (podMatchesInventory_iff hne p.pod).mpr hextends, rfl⟩
    exact List.mem_map_of_mem (List.mem_filter.mpr ⟨hp, decide_eq_true rfl⟩)

/-- The names decide, and they are in the row. -/
theorem extends_congr {p q : Pod} (h : podToInfo p now = podToInfo q now) :
    Extends entries p ↔ Extends entries q := by
  have hns : p.namespace = q.namespace := congrArg Types.PodInfo.ns h
  have hname : p.name = q.name := congrArg Types.PodInfo.name h
  rw [Extends, Extends, hns, hname]

/-- The pods with such names are listed. -/
theorem PodsOf.listed_iff_extends (h : PodsOf kube pods) (happ : appNs ≠ []) (hne : entries ≠ [])
    (now : Time) (sort : SortSlice podLess) :
    ∃ rows, listPodsForApp now sort kube (podNamespaces entries appNs) entries = .ok rows ∧
      (∀ row ∈ rows, ∃ p ∈ pods, podToInfo p.pod now = row) ∧
      ∀ p ∈ pods, podToInfo p.pod now ∈ rows ↔ Extends entries p.pod := by
  obtain ⟨rows, hrows, hmem⟩ := h.mem_listPodsForApp happ hne now sort
  refine ⟨rows, hrows, fun row hrow => ?_, fun p hp => ?_⟩
  · obtain ⟨p, hp, hrow, -⟩ := (hmem row).mp hrow
    exact ⟨p, hp, hrow⟩
  · rw [hmem]
    constructor
    · rintro ⟨q, -, hrow, hq⟩
      exact (extends_congr hrow).mp hq
    · exact fun hextends => ⟨p, hp, rfl, hextends⟩

/-- Exactly the pods of the application are listed, and those whose name goes on behind that of a
workload or pod of the inventory. -/
theorem listPodsForApp_lists (h : PodsOf kube pods) (happ : appNs ≠ []) (hne : entries ≠ [])
    (now : Time) (sort : SortSlice podLess) :
    ∃ rows, listPodsForApp now sort kube (podNamespaces entries appNs) entries = .ok rows ∧
      (∀ row ∈ rows, ∃ p ∈ pods, podToInfo p.pod now = row) ∧
      ∀ p ∈ pods, podToInfo p.pod now ∈ rows ↔ Belongs entries p ∨ Extends entries p.pod := by
  obtain ⟨rows, hrows, hpods, hlists⟩ := h.listed_iff_extends happ hne now sort
  refine ⟨rows, hrows, hpods, fun p hp => ?_⟩
  rw [hlists p hp, or_iff_right_of_imp (extends_of_belongs (h.named p hp))]

/-- Nothing else is listed exactly if no other pod has such a name. -/
theorem listsOnlyOwn_iff (h : PodsOf kube pods) (happ : appNs ≠ []) (hne : entries ≠ [])
    (now : Time) (sort : SortSlice podLess) :
    (∃ rows, listPodsForApp now sort kube (podNamespaces entries appNs) entries = .ok rows ∧
      ∀ p ∈ pods, podToInfo p.pod now ∈ rows ↔ Belongs entries p) ↔
      ∀ p ∈ pods, Extends entries p.pod → Belongs entries p := by
  obtain ⟨rows, hrows, -, hlists⟩ := h.listed_iff_extends happ hne now sort
  simp only [hrows, Except.ok.injEq, exists_eq_left']
  refine forall₂_congr fun p hp => ?_
  rw [hlists p hp]
  exact ⟨Iff.mp, fun hown => ⟨hown, extends_of_belongs (h.named p hp)⟩⟩

/-- The pods of a workload whose name goes on behind that of a workload of the inventory have such
names, whatever created them. -/
theorem extends_of_longerName {ref : InventoryRef} (href : ref ∈ entries)
    (hkind : ref.kind ∈ workloadKinds) {p : CreatedPod} (hns : ref.ns = p.pod.namespace)
    {w : Workload} (hw : CreatesName w p.pod.name) {rest : GoString}
    (hlonger : w.name = dashed ref.name rest) : Extends entries p.pod := by
  refine ⟨ref, href, hns, hkind, .inr ?_⟩
  have hprefix := hw.dashed_isPrefix
  rw [hlonger] at hprefix
  refine List.IsPrefix.trans ⟨rest ++ ['-'.toUInt8], ?_⟩ hprefix
  simp [dashed]

end List

/-! ### Two workloads of one namespace -/

/-- Sorting by namespace and name. -/
def podSort : SortSlice podLess := .lex _

/-- The inventory of an application with one Deployment. -/
def webInventory : List InventoryRef := [⟨"shop", "web", "apps", "Deployment", "v1"⟩]

/-- A pod of the Deployment `web`. -/
def webPod : CreatedPod where
  pod := { «namespace» := "shop", name := "web-5d4f9c-x2x9k" }
  creator := some ⟨"Deployment", "web"⟩

/-- A pod of the Deployment `web-admin` of another application. -/
def adminPod : CreatedPod where
  pod := { «namespace» := "shop", name := "web-admin-7c9d8b-p4q7z" }
  creator := some ⟨"Deployment", "web-admin"⟩

/-- A cluster with these two pods. -/
def twoPods : Kube where
  getSecret _ _ := .notFound
  listPods ns := .ok (([webPod, adminPod].filter fun p => p.pod.namespace = ns).map CreatedPod.pod)
  getLogs _ _ _ _ := .error "not found"
  followLogs _ _ _ _ := .error "not found"

theorem createsName_web : CreatesName ⟨"Deployment", "web"⟩ webPod.pod.name :=
  have hname : webPod.pod.name = dashed "web" (dashed "5d4f9c" "x2x9k") := by decide
  hname ▸ .double (by decide) (by decide) (by decide)

theorem createsName_admin : CreatesName ⟨"Deployment", "web-admin"⟩ adminPod.pod.name :=
  have hname : adminPod.pod.name = dashed "web-admin" (dashed "7c9d8b" "p4q7z") := by decide
  hname ▸ .double (by decide) (by decide) (by decide)

theorem podsOf_twoPods : PodsOf twoPods [webPod, adminPod] where
  listed _ _ := rfl
  namespaced := by decide
  named p hp w hw := by
    rcases List.mem_pair.mp hp with rfl | rfl
    · cases hw
      exact createsName_web
    · cases hw
      exact createsName_admin

theorem listPodsForApp_lists_twoPods :
    ∃ rows, listPodsForApp 0 podSort twoPods (podNamespaces webInventory "shop")
        webInventory = .ok rows ∧
      (∀ row ∈ rows, ∃ p ∈ [webPod, adminPod], podToInfo p.pod 0 = row) ∧
      ∀ p ∈ [webPod, adminPod],
        podToInfo p.pod 0 ∈ rows ↔ Belongs webInventory p ∨ Extends webInventory p.pod :=
  listPodsForApp_lists podsOf_twoPods (by decide) (by decide) 0 podSort

theorem extends_adminPod : Extends webInventory adminPod.pod :=
  have hlonger : ("web-admin" : GoString) = dashed "web" "admin" := by decide
  extends_of_longerName (.head _) (by decide) rfl createsName_admin hlonger

theorem not_belongs_adminPod : ¬Belongs webInventory adminPod := by
  rintro ⟨ref, href, -, hbelongs⟩
  obtain rfl := List.mem_singleton.mp href
  revert hbelongs
  decide

/-- The pod of `web-admin` is among those of the application that has only `web`. -/
theorem not_listsOnlyOwn_twoPods :
    PodsOf twoPods [webPod, adminPod] ∧ adminPod.creator = some ⟨"Deployment", "web-admin"⟩ ∧
      ¬∃ rows, listPodsForApp 0 podSort twoPods
          (podNamespaces webInventory "shop") webInventory = .ok rows ∧
        ∀ p ∈ [webPod, adminPod], podToInfo p.pod 0 ∈ rows ↔ Belongs webInventory p := by
  refine ⟨podsOf_twoPods, rfl, fun hown => not_belongs_adminPod ?_⟩
  have hnone := (listsOnlyOwn_iff podsOf_twoPods (by decide) (by decide) 0 _).mp hown
  exact hnone adminPod (List.mem_pair.mpr (.inr rfl)) extends_adminPod

end Yafu.Api
