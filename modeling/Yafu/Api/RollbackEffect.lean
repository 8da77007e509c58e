import Yafu.Api.AuditTrail

/-!
# What a rollback does

Reference: `rollback` and `rollbackHelmRelease` in `internal/api/rollback.go`, and how `runMutation`
in `internal/api/mutations.go` answers an error.

The patch of a rollback touches the version of the chart and two annotations, nothing else
(`get_patched_rollback`). The annotations should carry one token, but each gets a reading of the
clock of its own; and the refusals of a rollback are plain errors, which `runMutation` answers with
a 500.
-/

namespace Yafu.Api

open FluxObject
open MergePatch (Shaped)
open MergePatch.Fields
open Yafu.Auth (Policy)
open Yafu.Cluster (Registry)

/-! ## What is asked of a rollback -/

/-- What a rollback may change. -/
def rollbackPaths : List (List GoString) :=
  [specKey :: versionPath, annotationPath helmReconcileRequestAnnotation,
    annotationPath forceRequestAnnotation]

/-- The object has been rolled back to a revision and is otherwise as it was fetched. -/
structure RolledBack (fetched patched : Tree) (revision token : GoString) : Prop where
  version : patched.get (specKey :: versionPath) = some (strLeaf revision)
  requestedAt : patched.get (annotationPath helmReconcileRequestAnnotation) = some (strLeaf token)
  forceAt : patched.get (annotationPath forceRequestAnnotation) = some (strLeaf token)
  frame : ∀ q, (∀ p ∈ rollbackPaths, ¬ p <+: q ∧ ¬ q <+: p) → patched.get q = fetched.get q

/-- What the cluster answers about an object, or about one that is missing. -/
structure Holds (c : Client) (kind ns name : GoString) (target : Option FluxObject) : Prop where
  missing : target = none → ∃ text, c.get kind ns name = .error { text, kind := .notFound }
  get : ∀ o, target = some o → c.get kind ns name = .ok o
  patch : ∀ o, target = some o → ∀ data, c.patch kind ns name data = .ok ()

/-- A request that `runMutation` lets through to a cluster that holds the object, or not. -/
structure Reaches (rt : MutationRuntime) (policy : Policy) (registry : Option (Registry Client))
    (r : MutationRequest) (p : AppPath) (target : Option FluxObject) : Prop where
  complete : p.Complete
  authorized : policy.authorize rt.toLower r.identity "rollback" p.cluster = true
  cluster : ∃ reg e, registry = some reg ∧ reg.get p.cluster = some e ∧
    e.status.reachable = true ∧ Holds e.clients p.kind p.ns p.name target

/-- The revision of a body, if there is one and it is not empty. -/
def revisionOf (body : Except GoString Json.Value) : Option GoString :=
  match decodeRevision body with
  | .error _ => none
  | .ok revision => if revision = [] then none else some revision

/-- A rollback that is accepted patches the pinned HelmRelease to the revision of the body; any other
sends no patch and is answered with a 4xx, with a 422 for a Kustomization. -/
structure RollsBack (body : Except GoString Json.Value) (p : AppPath) (target : Option FluxObject)
    (s : Served) : Prop where
  accepted : s.response.status = statusAccepted →
    ∃ hr revision data token, p.kind = "HelmRelease" ∧ target = some hr ∧ hr.chartVersion ≠ [] ∧
      revisionOf body = some revision ∧
      s.calls = [.get "HelmRelease" p.ns p.name, .patch "HelmRelease" p.ns p.name data] ∧
      RolledBack hr.marshal (MergePatch.merge hr.marshal data) revision token
  refused : s.response.status ≠ statusAccepted →
    (∀ kind ns name data, Call.patch kind ns name data ∉ s.calls) ∧
      400 ≤ s.response.status ∧ s.response.status < 500
  kustomization : p.kind = "Kustomization" → s.response.status = 422

/-! ## The patch -/

section Patch

variable (rt : MutationRuntime) (revision : GoString) {hr : FluxObject}

/-- A pinned release has a version. -/
theorem get_version_of_pinned (h : hr.chartVersion ≠ []) :
    ∃ version, hr.marshal.get (specKey :: versionPath) = some (strLeaf version) := by
  have hpath : hr.marshal.get (specKey :: versionPath) =
      (MergePatch.Tree.node hr.spec).get versionPath :=
    hr.get_marshal_spec_ne (by decide) _
  rw [FluxObject.chartVersion] at h
  split at h
  · rename_i version hversion
    exact ⟨version, hpath.trans hversion⟩
  · exact absurd rfl h

theorem marshalAnnotations_rollbackChange :
    (rollbackChange rt revision hr).marshalAnnotations =
      set (set hr.marshalAnnotations helmReconcileRequestAnnotation
        (strLeaf (Clock.rfc3339Nano (rt.clock 0))))
        forceRequestAnnotation (strLeaf (Clock.rfc3339Nano (rt.clock 1))) := by
  rw [rollbackChange, marshalAnnotations_annotate, marshalAnnotations_annotate]
  rfl

theorem get_spec_rollbackChange {k : GoString} (hk : k ≠ suspendKey) (q : List GoString) :
    (rollbackChange rt revision hr).marshal.get (specKey :: k :: q) =
      (MergePatch.merge (.node hr.spec) (MergePatch.along versionPath (strLeaf revision))).get
        (k :: q) :=
  get_marshal_spec_ne _ hk q

theorem get_version_rollbackChange :
    (rollbackChange rt revision hr).marshal.get (specKey :: versionPath) = some (strLeaf revision) :=
  (get_spec_rollbackChange rt revision (by decide) _).trans
    (MergePatch.get_merge_along_leaf _ versionPath _)

theorem get_requestedAt_rollbackChange :
    (rollbackChange rt revision hr).marshal.get (annotationPath helmReconcileRequestAnnotation) =
      some (strLeaf (Clock.rfc3339Nano (rt.clock 0))) := by
  have hne : helmReconcileRequestAnnotation ≠ forceRequestAnnotation := by decide
  rw [annotationPath, get_marshal_annotationPath, marshalAnnotations_rollbackChange, get_set_ne _ hne,
    get_set_self]
  rfl

theorem get_forceAt_rollbackChange :
    (rollbackChange rt revision hr).marshal.get (annotationPath forceRequestAnnotation) =
      some (strLeaf (Clock.rfc3339Nano (rt.clock 1))) := by
  rw [annotationPath, get_marshal_annotationPath, marshalAnnotations_rollbackChange, get_set_self]
  rfl

/-- The change leaves everything else as it is. -/
theorem get_rollbackChange {q : List GoString}
    (hq : ∀ p ∈ rollbackPaths, ¬ p <+: q ∧ ¬ q <+: p) :
    (rollbackChange rt revision hr).marshal.get q = hr.marshal.get q := by
  have hversion := hq (specKey :: versionPath) (by simp [rollbackPaths])
  have hrequestedAt := hq (annotationPath helmReconcileRequestAnnotation) (by simp [rollbackPaths])
  have hforceAt := hq (annotationPath forceRequestAnnotation) (by simp [rollbackPaths])
  rcases q with _ | ⟨k, q⟩
  · exact absurd List.nil_prefix hversion.2
  by_cases hspec : k = specKey
  · subst hspec
    rw [List.prefix_cons_inj, List.prefix_cons_inj] at hversion
    rcases q with _ | ⟨j, q⟩
    · exact absurd List.nil_prefix hversion.2
    by_cases hj : j = suspendKey
    · rw [hj, get_marshal_spec_suspend, get_marshal_spec_suspend]
      rfl
    · rw [get_spec_rollbackChange _ _ hj, get_marshal_spec_ne _ hj,
        MergePatch.get_merge_along _ _ hversion.1 hversion.2]
  by_cases hmetadata : k = metadataKey
  · subst hmetadata
    rw [annotationPath, List.prefix_cons_inj, List.prefix_cons_inj] at hrequestedAt hforceAt
    rcases q with _ | ⟨j, q⟩
    · exact absurd List.nil_prefix hforceAt.2
    by_cases hj : j = annotationsKey
    · subst hj
      rw [List.prefix_cons_inj, List.prefix_cons_inj] at hrequestedAt hforceAt
      rcases q with _ | ⟨key, q⟩
      · exact absurd List.nil_prefix hforceAt.2
      have hkey : key ≠ helmReconcileRequestAnnotation ∧ key ≠ forceRequestAnnotation := by
        constructor
        · rintro rfl
          exact hrequestedAt.1 ((List.prefix_cons_inj _).mpr List.nil_prefix)
        · rintro rfl
          exact hforceAt.1 ((List.prefix_cons_inj _).mpr List.nil_prefix)
      rw [get_marshal_annotationPath, get_marshal_annotationPath, marshalAnnotations_rollbackChange,
        get_set_ne _ hkey.2, get_set_ne _ hkey.1]
    · rw [get_marshal_metadata_ne _ hj, get_marshal_metadata_ne _ hj]
      rfl
  · rw [get_marshal_rest _ hspec hmetadata, get_marshal_rest _ hspec hmetadata]
    rfl

/-- Above an annotation, the change makes the annotations at most. -/
theorem shaped_above_annotation {key : GoString} {r s : List GoString} {bs : Fields}
    (hs : r ++ s = annotationPath key) (hs' : s ≠ [])
    (hbs : (rollbackChange rt revision hr).marshal.get r = some (.node bs)) :
    (∃ as, hr.marshal.get r = some (.node as)) ∨ hr.marshal.get r = none ∧ MergePatch.Flat bs := by
  rw [annotationPath] at hs
  rcases r with _ | ⟨a, _ | ⟨b, _ | ⟨c, r⟩⟩⟩
  · exact .inl ⟨_, rfl⟩
  · obtain ⟨rfl, -⟩ := List.cons.inj hs
    exact .inl ⟨_, hr.get_marshal_metadata []⟩
  · obtain ⟨rfl, htail⟩ := List.cons.inj hs
    obtain ⟨rfl, -⟩ := List.cons.inj htail
    have hget (o : FluxObject) : o.marshal.get [metadataKey, annotationsKey] =
        if o.annotations = [] then none else some (.node o.marshalAnnotations) := by
      rw [get_marshal_metadata, MergePatch.Tree.get, MergePatch.Tree.fields,
        get_marshalMetadata_annotations]
      split_ifs <;> rfl
    rw [hget] at hbs ⊢
    by_cases hnil : hr.annotations = []
    · rw [if_pos hnil]
      refine .inr ⟨rfl, ?_⟩
      split_ifs at hbs
      rw [Option.some.injEq, MergePatch.Tree.node.injEq, marshalAnnotations_rollbackChange,
        marshalAnnotations, hnil] at hbs
      rw [← hbs]
      exact (MergePatch.flat_nil.set _ _).set _ _
    · rw [if_neg hnil]
      exact .inl ⟨_, rfl⟩
  · -- the path is no longer than that
    have hlength := congrArg List.length hs
    have hpos := List.length_pos_of_ne_nil hs'
    simp only [List.length_append, List.length_cons, List.length_nil] at hlength
    omega

/-- The change makes no object where another value was, and of the new ones the annotations only. -/
theorem shaped_rollbackChange (hpinned : hr.chartVersion ≠ []) :
    Shaped hr.marshal (rollbackChange rt revision hr).marshal := by
  intro r bs hbs
  by_cases hr' : ∀ p ∈ rollbackPaths, ¬ p <+: r ∧ ¬ r <+: p
  · rw [get_rollbackChange _ _ hr'] at hbs
    exact .inl ⟨bs, hbs⟩
  simp only [not_forall] at hr'
  obtain ⟨p, hp, hrelated⟩ := hr'
  -- below one of the paths there is a leaf
  have hleaf : ∃ v, (rollbackChange rt revision hr).marshal.get p = some (.leaf v) := by
    simp only [rollbackPaths, List.mem_cons, List.not_mem_nil, or_false] at hp
    rcases hp with rfl | rfl | rfl
    · exact ⟨_, get_version_rollbackChange rt revision⟩
    · exact ⟨_, get_requestedAt_rollbackChange rt revision⟩
    · exact ⟨_, get_forceAt_rollbackChange rt revision⟩
  obtain ⟨v, hv⟩ := hleaf
  have hbelow : ¬ p <+: r := by
    rintro ⟨s, rfl⟩
    rw [MergePatch.Tree.get_append, hv, Option.bind_some] at hbs
    exact MergePatch.Tree.get_leaf_ne_node _ _ _ hbs
  obtain ⟨s, hs⟩ : r <+: p := by
    by_contra hnot
    exact hrelated ⟨hbelow, hnot⟩
  have hs' : s ≠ [] := by
    rintro rfl
    rw [List.append_nil] at hs
    exact hbelow ⟨[], by rw [hs, List.append_nil]⟩
  simp only [rollbackPaths, List.mem_cons, List.not_mem_nil, or_false] at hp
  rcases hp with rfl | rfl | rfl
  · obtain ⟨version, hversion⟩ := get_version_of_pinned hpinned
    obtain ⟨k, q, rfl⟩ := List.exists_cons_of_ne_nil hs'
    rw [← hs] at hversion
    exact .inl (MergePatch.Tree.exists_node_of_get_append hversion)
  · exact shaped_above_annotation rt revision hs hs' hbs
  · exact shaped_above_annotation rt revision hs hs' hbs

/-- What the patch of a rollback leaves of the release that was fetched. -/
theorem get_patched_rollback (hpinned : hr.chartVersion ≠ []) {q : List GoString}
    (hq : (rollbackChange rt revision hr).marshal.get q = hr.marshal.get q ∨
      ∃ v, (rollbackChange rt revision hr).marshal.get q = some (.leaf v)) :
    (MergePatch.merge hr.marshal (hr.mergeFrom (rollbackChange rt revision hr))).get q =
      (rollbackChange rt revision hr).marshal.get q := by
  rw [FluxObject.mergeFrom]
  have hmerge := MergePatch.merge_create
    (set (set hr.rest specKey (.node hr.marshalSpec)) metadataKey (.node hr.marshalMetadata))
    (rollbackChange rt revision hr).marshal
  rw [← marshal] at hmerge
  rw [hmerge]
  exact MergePatch.get_patched (shaped_rollbackChange rt revision hpinned) (hq.imp_left Eq.symm)

/-- The patch rolls the release back exactly if the two readings of the clock give one token. -/
theorem exists_rolledBack_iff (hpinned : hr.chartVersion ≠ []) :
    (∃ token, RolledBack hr.marshal
        (MergePatch.merge hr.marshal (hr.mergeFrom (rollbackChange rt revision hr))) revision token) ↔
      Clock.rfc3339Nano (rt.clock 0) = Clock.rfc3339Nano (rt.clock 1) := by
  have hversion := get_patched_rollback rt revision hpinned
    (.inr ⟨_, get_version_rollbackChange rt revision⟩)
  have hrequestedAt := get_patched_rollback rt revision hpinned
    (.inr ⟨_, get_requestedAt_rollbackChange rt revision⟩)
  have hforceAt := get_patched_rollback rt revision hpinned
    (.inr ⟨_, get_forceAt_rollbackChange rt revision⟩)
  rw [get_version_rollbackChange] at hversion
  rw [get_requestedAt_rollbackChange] at hrequestedAt
  rw [get_forceAt_rollbackChange] at hforceAt
  constructor
  · rintro ⟨token, h⟩
    have hfirst := hrequestedAt.symm.trans h.requestedAt
    have hsecond := hforceAt.symm.trans h.forceAt
    simp only [Option.some.injEq, MergePatch.Tree.leaf.injEq, Scalar.str.injEq] at hfirst hsecond
    exact hfirst.trans hsecond.symm
  · intro htoken
    rw [htoken] at hrequestedAt
    refine ⟨Clock.rfc3339Nano (rt.clock 1), hversion, hrequestedAt, hforceAt, fun q hq => ?_⟩
    have hsame : (rollbackChange rt revision hr).marshal.get q = hr.marshal.get q :=
      get_rollbackChange rt revision hq
    exact (get_patched_rollback rt revision hpinned (.inl hsame)).trans hsame

end Patch

/-! ## The handler -/

section Handler

variable {rt : MutationRuntime} {policy : Policy} {registry : Option (Registry Client)}
  {r : MutationRequest} {p : AppPath} {target : Option FluxObject}

/-- A request that reaches the action is answered by what the action returns. -/
theorem runMutation_of_reaches (h : Reaches rt policy registry r p target) :
    ∃ c, Holds c p.kind p.ns p.name target ∧ ∀ action : Action,
      let s := runMutation rt policy registry r p "rollback" action
      let attempt := action c p.ns p.kind p.name
      s.calls = attempt.calls ∧ s.response.status =
        match attempt.result with
        | .error err => (actionFailed err).status
        | .ok () => statusAccepted := by
  obtain ⟨reg, e, rfl, hget, hreachable, hholds⟩ := h.cluster
  refine ⟨e.clients, hholds, fun action => ?_⟩
  have hpath : ¬ (p.cluster = [] ∨ p.ns = [] ∨ p.kind = [] ∨ p.name = []) := by
    have := h.complete
    simpa [AppPath.Complete] using this
  have hauth : ¬ policy.authorize rt.toLower r.identity "rollback" p.cluster = false := by
    rw [h.authorized]
    decide
  simp only [runMutation]
  unfold ending
  rw [if_neg hpath, if_neg hauth]
  simp only [hget]
  rw [if_neg (by rw [hreachable]; decide)]
  cases (action e.clients p.ns p.kind p.name).result with
  | error err => exact ⟨rfl, rfl⟩
  | ok u => exact ⟨rfl, rfl⟩

/-- A body without a revision gets no further than the handler. -/
theorem rollback_of_no_revision (h : revisionOf r.body = none) :
    (rollback rt policy registry r p).calls = [] ∧
      (rollback rt policy registry r p).response.status = 400 := by
  rw [revisionOf] at h
  rw [rollback]
  cases hd : decodeRevision r.body with
  | error err => exact ⟨rfl, rfl⟩
  | ok revision =>
    rw [hd] at h
    simp only at h
    by_cases hrevision : revision = []
    · subst hrevision
      exact ⟨rfl, rfl⟩
    · rw [if_neg hrevision] at h
      cases h

theorem rollback_of_revision {revision : GoString} (h : revisionOf r.body = some revision) :
    rollback rt policy registry r p =
      runMutation rt policy registry r p "rollback" (rollbackAction rt revision) := by
  rw [revisionOf] at h
  rw [rollback]
  cases hd : decodeRevision r.body with
  | error err =>
    rw [hd] at h
    cases h
  | ok decoded =>
    rw [hd] at h
    simp only at h ⊢
    split_ifs at h with hempty
    rw [Option.some.injEq] at h
    rw [if_neg hempty, h]

/-- An object that is no HelmRelease is refused with a 500. -/
theorem rollback_of_kind {revision : GoString} (h : Reaches rt policy registry r p target)
    (hrevision : revisionOf r.body = some revision) (hkind : p.kind ≠ "HelmRelease") :
    (rollback rt policy registry r p).calls = [] ∧
      (rollback rt policy registry r p).response.status = 500 := by
  obtain ⟨c, -, hrun⟩ := runMutation_of_reaches h
  rw [rollback_of_revision hrevision]
  obtain ⟨hcalls, hstatus⟩ := hrun (rollbackAction rt revision)
  rw [hcalls, hstatus, rollbackAction, if_neg hkind]
  split_ifs <;> exact ⟨rfl, rfl⟩

/-- A rollback of a HelmRelease is answered by what `rollbackHelmRelease` returns. -/
theorem rollback_of_helmRelease {revision : GoString} (h : Reaches rt policy registry r p target)
    (hrevision : revisionOf r.body = some revision) (hkind : p.kind = "HelmRelease") :
    ∃ c, Holds c "HelmRelease" p.ns p.name target ∧
      let s := rollback rt policy registry r p
      let attempt := rollbackHelmRelease rt c p.ns p.name revision
      s.calls = attempt.calls ∧ s.response.status =
        match attempt.result with
        | .error err => (actionFailed err).status
        | .ok () => statusAccepted := by
  obtain ⟨c, hholds, hrun⟩ := runMutation_of_reaches h
  rw [hkind] at hholds
  refine ⟨c, hholds, ?_⟩
  have haction := hrun (rollbackAction rt revision)
  rw [hkind, rollbackAction, if_pos rfl] at haction
  rw [rollback_of_revision hrevision]
  exact haction

theorem rollback_of_missing {revision : GoString} (h : Reaches rt policy registry r p none)
    (hrevision : revisionOf r.body = some revision) (hkind : p.kind = "HelmRelease") :
    (rollback rt policy registry r p).calls = [.get "HelmRelease" p.ns p.name] ∧
      (rollback rt policy registry r p).response.status = 404 := by
  obtain ⟨c, hholds, hserved⟩ := rollback_of_helmRelease h hrevision hkind
  obtain ⟨text, hget⟩ := hholds.missing rfl
  simp only [rollbackHelmRelease, hget] at hserved
  exact hserved

theorem rollback_of_unpinned {revision : GoString} {hr : FluxObject}
    (h : Reaches rt policy registry r p (some hr)) (hrevision : revisionOf r.body = some revision)
    (hkind : p.kind = "HelmRelease") (hpinned : hr.chartVersion = []) :
    (rollback rt policy registry r p).response.status = 500 := by
  obtain ⟨c, hholds, hserved⟩ := rollback_of_helmRelease h hrevision hkind
  simp only [rollbackHelmRelease, hholds.get hr rfl, if_pos hpinned] at hserved
  exact hserved.2

theorem rollback_of_pinned {revision : GoString} {hr : FluxObject}
    (h : Reaches rt policy registry r p (some hr)) (hrevision : revisionOf r.body = some revision)
    (hkind : p.kind = "HelmRelease") (hpinned : hr.chartVersion ≠ []) :
    (rollback rt policy registry r p).calls =
        [.get "HelmRelease" p.ns p.name,
          .patch "HelmRelease" p.ns p.name (hr.mergeFrom (rollbackChange rt revision hr))] ∧
      (rollback rt policy registry r p).response.status = statusAccepted := by
  obtain ⟨c, hholds, hserved⟩ := rollback_of_helmRelease h hrevision hkind
  simp only [rollbackHelmRelease, hholds.get hr rfl, if_neg hpinned, hholds.patch hr rfl] at hserved
  exact hserved

/-- A rollback does what is asked of it in these cases. -/
structure Rollbackable (rt : MutationRuntime) (body : Except GoString Json.Value) (p : AppPath)
    (target : Option FluxObject) : Prop where
  kind : p.kind ≠ "Kustomization"
  served : revisionOf body = none ∨
    p.kind = "HelmRelease" ∧ ∀ hr, target = some hr → hr.chartVersion ≠ [] ∧
      Clock.rfc3339Nano (rt.clock 0) = Clock.rfc3339Nano (rt.clock 1)

/-- A refusal as it should be. -/
theorem rollsBack_of_refused {body : Except GoString Json.Value} {s : Served}
    (hkind : p.kind ≠ "Kustomization")
    (hcalls : ∀ kind ns name data, Call.patch kind ns name data ∉ s.calls)
    (hstatus : 400 ≤ s.response.status ∧ s.response.status < 500) : RollsBack body p target s where
  accepted haccepted := by
    rw [haccepted] at hstatus
    exact absurd hstatus.1 (by decide)
  refused _ := ⟨hcalls, hstatus⟩
  kustomization h := absurd h hkind

/-- What is answered with a 500 is refused as it should not be. -/
theorem not_rollsBack_of_500 {body : Except GoString Json.Value} {s : Served}
    (hstatus : s.response.status = 500) : ¬ RollsBack body p target s := by
  intro h
  have hrefused := h.refused (by rw [hstatus]; decide)
  rw [hstatus] at hrefused
  exact absurd hrefused.2.2 (by decide)

/-- A pinned release is rolled back as it should be if the annotations get one token. -/
theorem rollsBack_iff_token {revision : GoString} {hr : FluxObject}
    (h : Reaches rt policy registry r p (some hr)) (hrevision : revisionOf r.body = some revision)
    (hkind : p.kind = "HelmRelease") (hpinned : hr.chartVersion ≠ []) :
    RollsBack r.body p (some hr) (rollback rt policy registry r p) ↔
      Clock.rfc3339Nano (rt.clock 0) = Clock.rfc3339Nano (rt.clock 1) := by
  have hne : ("HelmRelease" : GoString) ≠ "Kustomization" := by decide
  obtain ⟨hcalls, hstatus⟩ := rollback_of_pinned h hrevision hkind hpinned
  rw [← exists_rolledBack_iff rt revision hpinned]
  constructor
  · intro hrolls
    obtain ⟨hr', revision', data, token, -, hhr, -, hrev, hcalls', hrolled⟩ :=
      hrolls.accepted hstatus
    -- the patch that is spoken of is the one that was sent
    obtain rfl := Option.some.inj hhr
    obtain rfl := Option.some.inj (hrevision.symm.trans hrev)
    have hdata := hcalls.symm.trans hcalls'
    simp only [List.cons.injEq, Call.patch.injEq, true_and, and_true] at hdata
    rw [← hdata] at hrolled
    exact ⟨token, hrolled⟩
  · rintro ⟨token, hrolled⟩
    refine ⟨fun _ => ?_, fun hnot => absurd hstatus hnot, fun hk => absurd (hkind ▸ hk) hne⟩
    exact ⟨hr, revision, _, token, hkind, rfl, hpinned, hrevision, hcalls, hrolled⟩

/-- **Effect and refusal of a rollback.** A rollback has the effect that is asked of it, and refuses as
it is asked to, if and only if the object is no Kustomization and, where the body has a revision, a
HelmRelease that is missing, or pinned while both readings of the clock give one token. -/
theorem rollsBack_iff (h : Reaches rt policy registry r p target) :
    RollsBack r.body p target (rollback rt policy registry r p) ↔
      Rollbackable rt r.body p target := by
  have hne : ("HelmRelease" : GoString) ≠ "Kustomization" := by decide
  cases hrevision : revisionOf r.body with
  | none =>
    obtain ⟨hcalls, hstatus⟩ : (rollback rt policy registry r p).calls = [] ∧
      (rollback rt policy registry r p).response.status = 400 := rollback_of_no_revision hrevision
    constructor
    · intro hrolls
      refine ⟨fun hkind => ?_, .inl hrevision⟩
      have h422 := hrolls.kustomization hkind
      rw [hstatus] at h422
      exact absurd h422 (by decide)
    · intro hcond
      refine rollsBack_of_refused hcond.kind ?_ ?_
      · rw [hcalls]
        exact fun _ _ _ _ => List.not_mem_nil
      · rw [hstatus]
        decide
  | some revision =>
    by_cases hkind : p.kind = "HelmRelease"
    · rcases target with _ | hr
      · obtain ⟨hcalls, hstatus⟩ := rollback_of_missing h hrevision hkind
        refine ⟨fun _ => ⟨hkind ▸ hne, .inr ⟨hkind, fun hr hhr => by cases hhr⟩⟩, fun _ => ?_⟩
        refine rollsBack_of_refused (hkind ▸ hne) ?_ ?_
        · rw [hcalls]
          intro kind ns name data hmem
          cases List.mem_singleton.mp hmem
        · rw [hstatus]
          decide
      by_cases hpinned : hr.chartVersion = []
      · have hstatus := rollback_of_unpinned h hrevision hkind hpinned
        refine ⟨fun hrolls => absurd hrolls (not_rollsBack_of_500 hstatus), fun hcond => ?_⟩
        rcases hcond.served with hnone | ⟨-, hcond⟩
        · rw [hrevision] at hnone
          cases hnone
        · exact absurd hpinned (hcond hr rfl).1
      rw [rollsBack_iff_token h hrevision hkind hpinned]
      constructor
      · intro htoken
        refine ⟨hkind ▸ hne, .inr ⟨hkind, fun hr' hhr' => ?_⟩⟩
        rw [← Option.some.inj hhr']
        exact ⟨hpinned, htoken⟩
      · intro hcond
        rcases hcond.served with hnone | ⟨-, hcond⟩
        · rw [hrevision] at hnone
          cases hnone
        · exact (hcond hr rfl).2
    · obtain ⟨-, hstatus⟩ := rollback_of_kind h hrevision hkind
      refine ⟨fun hrolls => absurd hrolls (not_rollsBack_of_500 hstatus), fun hcond => ?_⟩
      rcases hcond.served with hnone | ⟨hhelm, -⟩
      · rw [hrevision] at hnone
        cases hnone
      · exact absurd hhelm hkind

end Handler

/-! ## A release on a cluster -/

/-- A release that pins its chart. -/
def pinnedRelease : FluxObject where
  spec := [("chart", .node [("spec", .node [("chart", strLeaf "shop"), ("version", strLeaf "1.2.3")])])]

/-- A reachable cluster with this object wherever one looks, or with none. -/
def clusterWith (target : Option FluxObject) : Cluster.Entry Client where
  name := "dev"
  displayName := "dev"
  region := ""
  environment := ""
  fluxNamespace := "flux-system"
  clients :=
    { get := fun _ _ _ =>
        match target with
        | some o => .ok o
        | none => .error { text := "not found", kind := .notFound }
      patch := fun _ _ _ _ => .ok () }
  status := { reachable := true, fluxInstalled := true }

/-- The registry of that cluster. -/
def registryWith (target : Option FluxObject) : Registry Client :=
  (Cluster.Store.new.set "dev" (clusterWith target)).toRegistry

/-- A request to go back to a version. -/
def downgrade : MutationRequest where
  identity := { subject := "ada" }
  body := .ok (.object [("revision", .string "1.2.2")])

theorem reaches_downgrade (rt : MutationRuntime) (target : Option FluxObject) :
    Reaches rt Auth.defaultAllowAllPolicy (some (registryWith target)) downgrade
      ⟨"dev", "web", "HelmRelease", "shop"⟩ target where
  complete := ⟨by decide, by decide, by decide, by decide⟩
  authorized := rfl
  cluster := by
    refine ⟨_, clusterWith target, rfl, rfl, rfl, ?_, ?_, ?_⟩
    · rintro rfl
      exact ⟨_, rfl⟩
    · rintro o rfl
      rfl
    · rintro o rfl data
      rfl

/-- At a standing clock the release is rolled back. -/
theorem rollsBack_pinnedRelease :
    RollsBack downgrade.body ⟨"dev", "web", "HelmRelease", "shop"⟩ (some pinnedRelease)
      (rollback idleMutationRuntime Auth.defaultAllowAllPolicy
        (some (registryWith (some pinnedRelease))) downgrade ⟨"dev", "web", "HelmRelease", "shop"⟩) :=
  (rollsBack_iff (reaches_downgrade _ _)).mpr
    ⟨by decide, .inr ⟨rfl, fun hr h => by
      rw [← Option.some.inj h]
      exact ⟨by decide, rfl⟩⟩⟩

/-- A clock that goes on by a nanosecond between two readings. -/
def tickingRuntime : MutationRuntime := { idleMutationRuntime with clock := fun n => n }

/-- The two annotations differ if the clock has gone on between them. -/
theorem not_rollsBack_ticking :
    ¬ ∀ (rt : MutationRuntime) (policy : Policy) (registry : Option (Registry Client))
      (r : MutationRequest) (p : AppPath) (target : Option FluxObject), Monotone rt.clock →
        Reaches rt policy registry r p target →
          RollsBack r.body p target (rollback rt policy registry r p) := by
  intro h
  have hreaches := reaches_downgrade tickingRuntime (some pinnedRelease)
  have hrolls := h _ _ _ _ _ _ (fun _ _ hle => hle) hreaches
  have htoken := (rollsBack_iff_token hreaches rfl rfl (by decide)).mp hrolls
  have hne : Clock.rfc3339Nano 0 ≠ Clock.rfc3339Nano 1 := by decide
  exact hne htoken

end Yafu.Api
