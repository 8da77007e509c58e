import Yafu.Api.History
import Yafu.Api.Mutations

/-!
# Rolling back from the history

Reference: `HistoryTab` in `web/src/pages/AppDetail.tsx`, `useRollbackApp` in
`web/src/lib/queries.ts`; `helmReleaseHistory` in `internal/api/history.go` and
`internal/api/rollback.go`.

The history shows a snapshot as its chart version and its number in one text, `HistoryTab` sends
that text as the revision, and `rollback` takes the revision for a chart version.
-/

namespace Yafu.Web

open MergePatch (merge)
open MergePatch.Fields (get_set_self get_set_ne get_erase_ne)
open Yafu.Api
open Yafu.Auth (Policy)
open Yafu.Cluster (Registry)

/-! ## The client -/

/-- `selectableEntries`. -/
def selectableEntries (entries : List Types.AppHistoryEntry) : List Types.AppHistoryEntry :=
  entries.filter fun e => !e.current

/-- The body that `useRollbackApp` sends. -/
def rollbackBody (revision : GoString) : Json.Value := .object [("revision", .string revision)]

/-- `onRollback`, once it is confirmed: the request for the revision that is selected, if one is. -/
def onRollback (r : MutationRequest) (selectedRev : Option GoString) : Option MutationRequest :=
  match selectedRev with
  | none => none
  | some revision => if revision = [] then none else some { r with body := .ok (rollbackBody revision) }

/-! ## What a rollback patches -/

/-- Where a release has the version of its chart. -/
def chartVersionPath : List GoString := specKey :: versionPath

variable {rt : MutationRuntime} {policy : Policy} {registry : Option (Registry Client)}
  {r : MutationRequest} {p : AppPath}

/-- A request calls a cluster through its action only. -/
theorem mem_calls_ending {verb : GoString} {action : Action} {call : Call}
    (h : call ∈ (ending rt policy registry r p verb action).calls) :
    ∃ reg e, registry = some reg ∧ reg.get p.cluster = some e ∧
      call ∈ (action e.clients p.ns p.kind p.name).calls := by
  unfold ending at h
  split_ifs at h
  · cases h
  · cases h
  · cases registry with
    | none => cases h
    | some reg =>
      simp only at h
      cases hentry : reg.get p.cluster with
      | none => rw [hentry] at h; cases h
      | some e =>
        rw [hentry] at h
        simp only at h
        refine ⟨reg, e, rfl, hentry, ?_⟩
        split_ifs at h
        · cases h
        · split at h
          · exact h
          · exact h

/-- The patch of a rollback is that of a release with a chart version, to the revision. -/
theorem patch_of_rollbackAction {c : Client} {revision ns kind name k n m : GoString} {data : Tree}
    (h : .patch k n m data ∈ (rollbackAction rt revision c ns kind name).calls) :
    ∃ hr, c.get "HelmRelease" ns name = .ok hr ∧ hr.chartVersion ≠ [] ∧
      data = hr.mergeFrom (rollbackChange rt revision hr) := by
  unfold rollbackAction at h
  split_ifs at h
  -- only the action for a HelmRelease calls the cluster
  · unfold rollbackHelmRelease at h
    split at h
    · simp only [List.mem_singleton, reduceCtorEq] at h
    · rename_i hr hget
      split_ifs at h with hversion
      · simp only [List.mem_singleton, reduceCtorEq] at h
      · simp only [List.mem_cons, reduceCtorEq, Call.patch.injEq, List.not_mem_nil, or_false,
          false_or] at h
        exact ⟨hr, hget, hversion, h.2.2.2⟩
  · cases h
  · cases h

/-- The version of the chart is where it is in `spec`. -/
theorem get_marshal_version (o : FluxObject) :
    o.marshal.get chartVersionPath = (MergePatch.Tree.node o.spec).get versionPath := by
  have hchart : ("chart" : GoString) ≠ suspendKey := by decide
  have hspec : MergePatch.Fields.get o.marshalSpec "chart" = MergePatch.Fields.get o.spec "chart" := by
    rw [FluxObject.marshalSpec]
    split_ifs
    · exact get_set_ne _ hchart _
    · exact get_erase_ne _ hchart
  rw [FluxObject.marshal, chartVersionPath, MergePatch.Tree.get, MergePatch.Tree.fields,
    get_set_ne _ specKey_ne_metadataKey, get_set_self, Option.bind_some, versionPath,
    MergePatch.Tree.get, MergePatch.Tree.get, MergePatch.Tree.fields, MergePatch.Tree.fields, hspec]

theorem get_marshal_of_chartVersion {o : FluxObject} (h : o.chartVersion ≠ []) :
    o.marshal.get chartVersionPath = some (strLeaf o.chartVersion) := by
  rw [get_marshal_version]
  unfold FluxObject.chartVersion at h ⊢
  split at h
  · rename_i version hversion
    rw [hversion]
  · exact absurd rfl h

/-- The change of a rollback puts the revision where the version of the chart is. -/
theorem get_marshal_rollbackChange (revision : GoString) (o : FluxObject) :
    (rollbackChange rt revision o).marshal.get chartVersionPath = some (strLeaf revision) := by
  rw [get_marshal_version]
  exact MergePatch.get_merge_along_leaf (.str revision) versionPath (.node o.spec)

/-- What is stored has the chart version of the release as it is fetched, if that has one. -/
def Stored (registry : Option (Registry Client)) (p : AppPath) (stored : Tree) : Prop :=
  ∀ reg e hr, registry = some reg → reg.get p.cluster = some e →
    e.clients.get "HelmRelease" p.ns p.name = .ok hr → hr.chartVersion ≠ [] →
      stored.get chartVersionPath = some (strLeaf hr.chartVersion)

/-- The request patches the release, and the chart version is this one then. -/
def SetsVersion (version : GoString) (stored : Tree) (served : Served) : Prop :=
  ∃ kind ns name data, .patch kind ns name data ∈ served.calls ∧
    (merge stored data).get chartVersionPath = some (strLeaf version)

/-- The revision of the body is the chart version after a patch. -/
theorem version_of_rollback {revision k n m : GoString} {data stored : Tree}
    (hbody : decodeRevision r.body = .ok revision) (hstored : Stored registry p stored)
    (h : .patch k n m data ∈ (rollback rt policy registry r p).calls) :
    (merge stored data).get chartVersionPath = some (strLeaf revision) := by
  unfold rollback at h
  rw [hbody] at h
  simp only at h
  split_ifs at h
  · cases h
  · obtain ⟨reg, e, hreg, he, hcall⟩ := mem_calls_ending h
    obtain ⟨hr, hget, hversion, rfl⟩ := patch_of_rollbackAction hcall
    exact MergePatch.get_merge_create (get_marshal_of_chartVersion hversion)
      (get_marshal_rollbackChange revision hr) (hstored reg e hr hreg he hget hversion)

theorem decodeRevision_rollbackBody (revision : GoString) :
    decodeRevision (.ok (rollbackBody revision)) = .ok revision := by
  have hname : isRevision "revision" = true := by decide +kernel
  simp only [decodeRevision, rollbackBody, decodeMembers, hname, if_true]

/-! ## The round trip -/

theorem revision_ne_chartVersion (i : ℕ) (snap : Snapshot) :
    (helmHistoryEntry i snap).revision ≠ snap.chartVersion := by
  intro h
  have hlen := congrArg List.length h
  simp only [helmHistoryEntry, List.length_append] at hlen
  have hv : 0 < (" · v" : GoString).length := by decide
  omega

/-- The text of an entry is sent as it is. -/
theorem onRollback_helmHistoryEntry (r : MutationRequest) (i : ℕ) (snap : Snapshot) :
    onRollback r (some (helmHistoryEntry i snap).revision) =
      some { r with body := .ok (rollbackBody (helmHistoryEntry i snap).revision) } := by
  have hne : (helmHistoryEntry i snap).revision ≠ [] := by
    intro h
    have hlen := congrArg List.length h
    simp only [helmHistoryEntry, List.length_append, List.length_nil] at hlen
    have hv : 0 < (" · v" : GoString).length := by decide
    omega
  rw [onRollback]
  exact if_neg hne

/-- **From the history to a rollback.** For no entry that can be selected does the request that is made of it
set the chart version to the one of its snapshot: if it patches the release, the chart version is the text
of the entry. -/
theorem rollback_not_roundTrip {stored : Tree} (hstored : Stored registry p stored) (hr : HelmRelease) :
    ∀ e ∈ selectableEntries (helmReleaseHistory hr), ∀ snap i, (some snap, i) ∈ hr.history.zipIdx →
      e = helmHistoryEntry i snap → ∃ r', onRollback r (some e.revision) = some r' ∧
        ¬ SetsVersion snap.chartVersion stored (rollback rt policy registry r' p) ∧
        ∀ kind ns name data, .patch kind ns name data ∈ (rollback rt policy registry r' p).calls →
          (merge stored data).get chartVersionPath = some (strLeaf e.revision) := by
  rintro _ - snap i - rfl
  have hall : ∀ {kind ns name data}, .patch kind ns name data ∈ (rollback rt policy registry
      { r with body := .ok (rollbackBody (helmHistoryEntry i snap).revision) } p).calls →
        (merge stored data).get chartVersionPath =
          some (strLeaf (helmHistoryEntry i snap).revision) :=
    version_of_rollback (decodeRevision_rollbackBody _) hstored
  refine ⟨_, onRollback_helmHistoryEntry r i snap, ?_, fun kind ns name data => hall⟩
  rintro ⟨kind, ns, name, data, hcall, hversion⟩
  rw [hall hcall, Option.some.injEq, MergePatch.Tree.leaf.injEq, Scalar.str.injEq] at hversion
  exact revision_ne_chartVersion i snap hversion

/-- The snapshot of a release that has run chart 1.0.0. -/
def supersededSnapshot : Snapshot where
  name := "podinfo"
  version := 1
  «namespace» := "apps"
  chartVersion := "1.0.0"
  status := "superseded"

/-- The release, at chart 1.1.0 now. -/
def podinfo : HelmRelease where
  «namespace» := "apps"
  name := "podinfo"
  history :=
    [some { supersededSnapshot with version := 2, chartVersion := "1.1.0", status := "deployed" },
      some supersededSnapshot]
  unstructured := .ok []

/-- The release as it is fetched for a mutation. -/
def pinned : FluxObject :=
  { spec := [("chart", .node [("spec", .node [("version", strLeaf "1.1.0")])])] }

/-- A registry of one cluster that has the release. -/
def podinfoRegistry : Registry Client :=
  let e : Cluster.Entry Client :=
    { name := "dev", displayName := "", region := "", environment := "", fluxNamespace := "flux-system"
      clients := { get := fun _ _ _ => .ok pinned, patch := fun _ _ _ _ => .ok () }
      status := { reachable := true } }
  { list := [e], get := fun _ => some e }

/-- The release in the paths of the API. -/
def podinfoPath : AppPath := ⟨"dev", "apps", "HelmRelease", "podinfo"⟩

/-- Go's standard library on the texts at hand, and a clock that stands still. -/
def podinfoRuntime : MutationRuntime where
  toLower := GoString.asciiLower
  quote s := s
  clock _ := 0

/-- The entry of the older snapshot. -/
def superseded : Types.AppHistoryEntry := helmHistoryEntry 1 supersededSnapshot

/-- A request of a user who may do everything. -/
def adaRequest : MutationRequest := { identity := { subject := "ada" } }

theorem stored_pinned : Stored (some podinfoRegistry) podinfoPath pinned.marshal := by
  rintro reg e hr hreg he hget hversion
  rw [Option.some.injEq] at hreg
  subst hreg
  rw [podinfoRegistry, Option.some.injEq] at he
  subst he
  rw [Except.ok.injEq] at hget
  subst hget
  exact get_marshal_of_chartVersion hversion

theorem superseded_selectable : superseded ∈ selectableEntries (helmReleaseHistory podinfo) := by
  decide +kernel

/-- A rollback to the older snapshot is accepted and does not set its chart version. -/
theorem version_not_set :
    ¬ ∀ (rt : MutationRuntime) (policy : Policy) (registry : Option (Registry Client))
      (r r' : MutationRequest) (p : AppPath) (stored : Tree) (hr : HelmRelease)
      (e : Types.AppHistoryEntry) (snap : Snapshot) (i : ℕ),
      Stored registry p stored → e ∈ selectableEntries (helmReleaseHistory hr) →
        (some snap, i) ∈ hr.history.zipIdx → e = helmHistoryEntry i snap →
        onRollback r (some e.revision) = some r' →
        (rollback rt policy registry r' p).response.status = statusAccepted →
          SetsVersion snap.chartVersion stored (rollback rt policy registry r' p) := by
  intro h
  obtain ⟨kind, ns, name, data, hcall, hversion⟩ := h podinfoRuntime Auth.defaultAllowAllPolicy
    (some podinfoRegistry) adaRequest _ podinfoPath pinned.marshal podinfo superseded _ 1 stored_pinned
    superseded_selectable (List.mem_cons_of_mem _ List.mem_cons_self) rfl
    (onRollback_helmHistoryEntry adaRequest 1 _) (by decide +kernel)
  rw [version_of_rollback (decodeRevision_rollbackBody _) stored_pinned hcall, Option.some.injEq,
    MergePatch.Tree.leaf.injEq, Scalar.str.injEq] at hversion
  exact revision_ne_chartVersion 1 _ hversion

/-- What it sets is the text of the entry. -/
theorem rollback_not_roundTrip_podinfo :
    ∃ r', onRollback adaRequest (some superseded.revision) = some r' ∧
      ¬ SetsVersion "1.0.0" pinned.marshal
        (rollback podinfoRuntime Auth.defaultAllowAllPolicy (some podinfoRegistry) r' podinfoPath) := by
  obtain ⟨r', hr', hnot, -⟩ := @rollback_not_roundTrip podinfoRuntime Auth.defaultAllowAllPolicy _
    adaRequest _ _ stored_pinned podinfo superseded superseded_selectable _ 1
    (List.mem_cons_of_mem _ List.mem_cons_self) rfl
  exact ⟨r', hr', hnot⟩

end Yafu.Web
