import Yafu.Api.HelmInventory
import Yafu.Render.Applied

/-!
# The diff of a Helm release that is deployed unchanged

Reference: `renderHelmRelease` in `internal/api/render.go`, `parseRenderedFiles` in
`internal/render/helm.go`, `parseManifestRefs` in `internal/api/helm_release_storage.go`.

The rendered side keeps hooks and puts the release namespace on every object whose kind is not on a
list of cluster-scoped kinds; the inventory leaves out hooks and puts it on every kind.
`clean_iff_agrees` says when this makes no difference.
-/

namespace Yafu.Api

open Yafu.Render

/-- The rows of `renderHelmRelease`, from what it rendered and what `helmReleaseInventory` answered,
whose note and error it drops. -/
def helmRows (sort : SortSlice rowLess) (env : Env) (rendered : List Object)
    (inventory : InventoryAnswer) : List RenderResource :=
  diffResources sort env ⟨rendered, inventory.refs.map InventoryRef.key⟩

/-- A document that an API server can take: it has an API version of at most two parts, and a
kind. -/
structure ValidType (d : Object) : Prop where
  kind : d.getKind ≠ []
  apiVersion : d.getAPIVersion ≠ []
  parts : ∀ group version, GoString.cut '/'.toUInt8 d.getAPIVersion = some (group, version) →
    '/'.toUInt8 ∉ version

/-- The output `files` of a chart, the stored release of it, and a cluster on which everything in it
but the hooks was applied. The decoder comes to the end of the manifest after `n` answers. -/
structure DeployedUnchanged (env : Env) (namespaced : GroupVersionKind → Bool)
    (newDecoder : GoString → ℕ → Decoded) (releaseNs : GoString) (docs : List Object)
    (manifest : GoString) (n : ℕ) : Prop where
  reads : Reads (newDecoder manifest) n
  same : ∀ d, isHook d = false → (d ∈ docs ↔ d ∈ documents (newDecoder manifest) 0 n)
  valid : ∀ d ∈ docs, isHook d = false → ValidType d
  applied : AppliedTo env namespaced releaseNs (docs.filter fun d => !isHook d)

/-- The key the inventory gives a document. -/
def releaseKey (releaseNs : GoString) (d : Object) : ResourceKey :=
  ⟨d.groupVersionKind, if d.getNamespace = [] then releaseNs else d.getNamespace, d.getName⟩

/-- No rendered hook is gone from the cluster; a document without a namespace whose kind is on the
list of cluster-scoped ones is also rendered under the release namespace; and if its kind is
namespaced after all, the lookup without a namespace is not answered `NotFound`. -/
structure Agrees (env : Env) (namespaced : GroupVersionKind → Bool) (releaseNs : GoString)
    (docs : List Object) : Prop where
  hooks : ∀ d ∈ docs, isHook d → env.gone (keyOf (stampNamespace releaseNs d)) = false
  listed : ∀ d ∈ docs, isHook d = false → isClusterScoped d.getKind → d.getNamespace = [] →
    releaseNs ≠ [] → ∃ d' ∈ docs, d'.groupVersionKind = d.groupVersionKind ∧
      d'.getName = d.getName ∧ stampedNs releaseNs d' = releaseNs
  unstamped : ∀ d ∈ docs, isHook d = false → Unstamped namespaced releaseNs d →
    env.gone ⟨d.groupVersionKind, [], d.getName⟩ = false

/-! ## The references of a manifest -/

/-- A reference splits an API version at its first slash, as the object's own type does. -/
theorem ValidType.groupVersionKind {d : Object} (h : ValidType d) :
    d.groupVersionKind =
      match GoString.cut '/'.toUInt8 d.getAPIVersion with
      | some (group, version) => ⟨group, version, d.getKind⟩
      | none => ⟨[], d.getAPIVersion, d.getKind⟩ := by
  rw [Object.groupVersionKind]
  by_cases hslash : '/'.toUInt8 ∈ d.getAPIVersion
  · obtain ⟨group, version, heq, hgroup⟩ := List.eq_append_cons_of_mem hslash
    have hcut := GoString.cut_append hgroup version
    have hversion : '/'.toUInt8 ∉ version := h.parts group version (by rw [heq, hcut])
    rw [heq, hcut, GoString.split_append hgroup, GoString.split_of_notMem hversion]
    split
    · rename_i hempty
      -- the API version is `/`
      have hboth : group = [] ∧ version = [] := by
        rcases hempty with hempty | hempty
        · simp at hempty
        · cases group with
          | nil => exact ⟨rfl, by simpa using (List.cons.inj hempty).2⟩
          | cons b group =>
            have htail := (List.cons.inj hempty).2
            simp at htail
      rw [hboth.1, hboth.2]
    · rfl
  · have hne : ¬(d.getAPIVersion = [] ∨ d.getAPIVersion = "/") := by
      rintro (hempty | hempty)
      · exact h.apiVersion hempty
      · exact hslash (hempty ▸ by decide)
    rw [if_neg hne, GoString.split_of_notMem hslash, GoString.cut_eq_none hslash]

/-- The reference of a document that is no hook has its release key. -/
theorem key_of_manifestDocToRef {d : Object} (hvalid : ValidType d) (hname : d.getName ≠ [])
    (hhook : isHook d = false) (releaseNs : GoString) :
    ∃ ref, manifestDocToRef d releaseNs = some ref ∧ ref.key = releaseKey releaseNs d := by
  have htype : ¬(d.getAPIVersion = [] ∨ d.getKind = []) := not_or_intro hvalid.apiVersion hvalid.kind
  have hkept : ¬(d.getName = [] ∨ isHook d = true) := by simp [hname, hhook]
  rw [manifestDocToRef, if_neg htype, Object.get_metadata hname]
  simp only [if_neg hkept, releaseKey, hvalid.groupVersionKind]
  cases GoString.cut '/'.toUInt8 d.getAPIVersion <;> exact ⟨_, rfl, rfl⟩

theorem not_isHook_of_manifestDocToRef {d : Object} {ns : GoString} {ref : InventoryRef}
    (h : manifestDocToRef d ns = some ref) : isHook d = false := by
  rw [manifestDocToRef] at h
  split at h
  · cases h
  · split at h
    · split at h
      · cases h
      · rename_i hkept
        simpa using (not_or.mp hkept).2
    · cases h

/-! ## The two sides of the diff -/

/-- The two sides of the diff. -/
def releaseOptions (newDecoder : GoString → ℕ → Decoded) (releaseNs : GoString) (docs : List Object)
    (manifest : GoString) (n : ℕ) : DiffOptions where
  rendered := docs.map (stampNamespace releaseNs)
  inventory := ((documents (newDecoder manifest) 0 n).filterMap
    (manifestDocToRef · releaseNs)).map InventoryRef.key

section Release

variable {sort : SortSlice rowLess} {env : Env} {namespaced : GroupVersionKind → Bool}
  {newDecoder : GoString → ℕ → Decoded} {releaseNs : GoString} {docs : List Object}
  {manifest : GoString} {n : ℕ}

/-- The documents in the chart's output that are no hooks are objects on the cluster. -/
theorem DeployedUnchanged.mem_applied {d : Object} (hd : d ∈ docs) (hhook : isHook d = false) :
    d ∈ docs.filter fun d => !isHook d :=
  List.mem_filter.mpr ⟨hd, by simp [hhook]⟩

theorem DeployedUnchanged.mem_inventory
    (h : DeployedUnchanged env namespaced newDecoder releaseNs docs manifest n) {k : ResourceKey} :
    k ∈ (releaseOptions newDecoder releaseNs docs manifest n).inventory ↔
      ∃ d ∈ docs, isHook d = false ∧ releaseKey releaseNs d = k := by
  simp only [releaseOptions, List.mem_map, List.mem_filterMap]
  constructor
  · rintro ⟨ref, ⟨d, hd, href⟩, rfl⟩
    have hhook := not_isHook_of_manifestDocToRef href
    have hdocs := (h.same d hhook).mpr hd
    obtain ⟨ref', href', hkey⟩ := key_of_manifestDocToRef (h.valid d hdocs hhook)
      (h.applied.named d (mem_applied hdocs hhook)) hhook releaseNs
    rw [href, Option.some.injEq] at href'
    exact ⟨d, hdocs, hhook, by rw [href', hkey]⟩
  · rintro ⟨d, hd, hhook, rfl⟩
    obtain ⟨ref, href, hkey⟩ := key_of_manifestDocToRef (h.valid d hd hhook)
      (h.applied.named d (mem_applied hd hhook)) hhook releaseNs
    exact ⟨ref, ⟨d, (h.same d hhook).mp hd, href⟩, hkey⟩

/-- What the inventory refers to is on the cluster. -/
theorem DeployedUnchanged.releaseKey_not_gone
    (h : DeployedUnchanged env namespaced newDecoder releaseNs docs manifest n) {d : Object}
    (hd : d ∈ docs) (hhook : isHook d = false) : env.gone (releaseKey releaseNs d) = false := by
  refine h.applied.not_gone (mem_applied hd hhook) fun hscope => ?_
  rw [appliedNs, if_pos hscope]

/-- The release key and the stamped key differ only for a document without a namespace whose kind is
on the list. -/
theorem stampedKey_eq_releaseKey {d : Object}
    (h : ¬(isClusterScoped d.getKind ∧ d.getNamespace = [] ∧ releaseNs ≠ [])) :
    stampedKey releaseNs d = releaseKey releaseNs d := by
  rw [stampedKey, releaseKey, stampedNs]
  by_cases hns : d.getNamespace = []
  · rw [if_pos hns]
    split
    · rename_i hlisted
      have hrelease : releaseNs = [] := by
        by_contra hne
        exact h ⟨hlisted.resolve_right (not_not_intro hns), hns, hne⟩
      rw [hns, hrelease]
    · rfl
  · rw [if_neg hns, if_pos (Or.inr hns)]

theorem DeployedUnchanged.agrees
    (h : DeployedUnchanged env namespaced newDecoder releaseNs docs manifest n)
    (hclean : Clean (diffResources sort env (releaseOptions newDecoder releaseNs docs manifest n))) :
    Agrees env namespaced releaseNs docs := by
  obtain ⟨hwants, hextra⟩ := (clean_diffResources_iff sort env _).mp hclean
  refine ⟨fun d hd _ => hwants _ (List.mem_map_of_mem hd), fun d hd hhook hlisted hns hrelease => ?_,
    fun d hd hhook hun => ?_⟩
  · have hname := h.applied.named d (mem_applied hd hhook)
    -- the object is on the cluster, so its reference must be rendered
    have hrendered : releaseKey releaseNs d ∈
        (releaseOptions newDecoder releaseNs docs manifest n).rendered.map keyOf := by
      by_contra hno
      have hgone := hextra _ (List.mem_filter.mpr
        ⟨h.mem_inventory.mpr ⟨d, hd, hhook, rfl⟩, decide_eq_true hno⟩)
      rw [h.releaseKey_not_gone hd hhook] at hgone
      cases hgone
    simp only [releaseOptions, List.map_map, List.mem_map, Function.comp_apply] at hrendered
    obtain ⟨d', hd', hkey⟩ := hrendered
    have hname' : d'.getName = d.getName := by
      rw [← getName_stampNamespace releaseNs d']
      exact congrArg ResourceKey.nm hkey
    rw [keyOf_stampNamespace releaseNs (hname'.symm ▸ hname)] at hkey
    simp only [stampedKey, releaseKey, if_pos hns, ResourceKey.mk.injEq] at hkey
    exact ⟨d', hd', hkey.1, hname', hkey.2.1⟩
  · have hwant := hwants _ (List.mem_map_of_mem hd)
    rwa [keyOf_stampNamespace releaseNs (h.applied.named d (mem_applied hd hhook)),
      stampedKey_of_unstamped hun] at hwant

theorem DeployedUnchanged.clean
    (h : DeployedUnchanged env namespaced newDecoder releaseNs docs manifest n)
    (hag : Agrees env namespaced releaseNs docs) :
    Clean (diffResources sort env (releaseOptions newDecoder releaseNs docs manifest n)) := by
  refine (clean_diffResources_iff sort env _).mpr ⟨fun want hwant => ?_, fun k hk => ?_⟩
  · obtain ⟨d, hd, rfl⟩ := List.mem_map.mp hwant
    cases hhook : isHook d with
    | true => exact hag.hooks d hd hhook
    | false =>
      rw [keyOf_stampNamespace releaseNs (h.applied.named d (mem_applied hd hhook))]
      by_cases hun : Unstamped namespaced releaseNs d
      · rw [stampedKey_of_unstamped hun]
        exact hag.unstamped d hd hhook hun
      · exact h.applied.stamped_not_gone (mem_applied hd hhook) hun
  · rw [DiffOptions.unrendered, List.mem_filter, decide_eq_true_eq] at hk
    obtain ⟨d, hd, hhook, rfl⟩ := h.mem_inventory.mp hk.1
    have hname := h.applied.named d (mem_applied hd hhook)
    refine absurd ?_ hk.2
    simp only [releaseOptions, List.map_map, List.mem_map, Function.comp_apply]
    by_cases hlisted : isClusterScoped d.getKind ∧ d.getNamespace = [] ∧ releaseNs ≠ []
    · obtain ⟨d', hd', hgvk, hname', hns⟩ := hag.listed d hd hhook hlisted.1 hlisted.2.1 hlisted.2.2
      refine ⟨d', hd', ?_⟩
      rw [keyOf_stampNamespace releaseNs (hname'.symm ▸ hname), stampedKey, releaseKey, hgvk, hname',
        hns, if_pos hlisted.2.1]
    · exact ⟨d, hd, by rw [keyOf_stampNamespace releaseNs hname, stampedKey_eq_releaseKey hlisted]⟩

/-- What the two paths produce. -/
theorem DeployedUnchanged.paths {unmarshal : GoString → Except GoString Object}
    {files : List (GoString × GoString)}
    (h : DeployedUnchanged env namespaced newDecoder releaseNs docs manifest n)
    (hfiles : renderedDocuments unmarshal files = .ok docs) :
    ∃ rendered refs, parseRenderedFiles unmarshal files releaseNs = .ok rendered ∧
      (∀ fuel > n, parseManifestRefs newDecoder fuel manifest releaseNs = some refs) ∧
      (Clean (helmRows sort env rendered { refs }) ↔ Agrees env namespaced releaseNs docs) := by
  refine ⟨_, _, ?_, fun fuel hfuel => parseManifestRefs_of_reads h.reads releaseNs hfuel, h.agrees,
    h.clean⟩
  rw [parseRenderedFiles, hfiles]
  rfl

end Release

/-- **The two paths agree.** For every output of a chart and every stored release with the same
documents but for the hooks, the diff of the release deployed unchanged is clean if and only if the
condition holds. -/
theorem clean_iff_agrees (sort : SortSlice rowLess) (env : Env)
    (unmarshal : GoString → Except GoString Object) (namespaced : GroupVersionKind → Bool)
    (newDecoder : GoString → ℕ → Decoded) (getSecret : GoString → GoString → SecretAnswer)
    (decoders : StorageDecoders) (files : List (GoString × GoString)) (docs : List Object)
    (snap : Snapshot) (history : List (Option Snapshot)) (storageNamespace : GoString)
    (data : List (GoString × GoString)) (rel : HelmReleaseStorage) (n : ℕ)
    (hfiles : renderedDocuments unmarshal files = .ok docs)
    (hsecret : getSecret (if storageNamespace = [] then snap.namespace else storageNamespace)
      (releaseSecretName snap) = .found data)
    (hdecode : decodeHelmReleaseSecret decoders data = .ok rel)
    (h : DeployedUnchanged env namespaced newDecoder snap.namespace docs rel.manifest n) :
    ∃ rendered inventory, parseRenderedFiles unmarshal files snap.namespace = .ok rendered ∧
      (∀ fuel > n, helmReleaseInventory getSecret decoders newDecoder fuel (some snap :: history)
        storageNamespace = some inventory) ∧
      (Clean (helmRows sort env rendered inventory) ↔
        Agrees env namespaced snap.namespace docs) := by
  obtain ⟨rendered, refs, hrendered, hrefs, hiff⟩ := h.paths hfiles
  refine ⟨rendered, { refs }, hrendered, fun fuel hfuel => ?_, hiff⟩
  rw [helmReleaseInventory_of_found hsecret hdecode, hrefs fuel hfuel]
  rfl

/-! ### A cluster role, and a hook -/

/-- A cluster with all objects but the Jobs. -/
def withoutJobs : Env where
  getLive k := if k.gvk.kind = "Job" then .notFound "not found" else .found []
  marshal _ := .ok []
  getOpCodes _ _ := []

/-- The scopes of the kinds below. -/
def inNamespace (gvk : GroupVersionKind) : Bool := gvk.kind ≠ "ClusterRole"

/-- A decoder that reads the text `manifest` as these documents. -/
def decoderOf (manifest : GoString) (docs : List Object) (text : GoString) (i : ℕ) : Decoded :=
  if text = manifest then
    match docs[i]? with
    | some u => .doc u
    | none => .eof
  else .malformed "unexpected text"

def webDeployment : Object := bareObject "apps/v1" "Deployment" "web"

def webYAML : GoString := bareYAML "apps/v1" "Deployment" "web"

def readerRole : Object := bareObject "rbac.authorization.k8s.io/v1" "ClusterRole" "reader"

def readerYAML : GoString := bareYAML "rbac.authorization.k8s.io/v1" "ClusterRole" "reader"

/-- A Job that runs before an upgrade and is deleted when it succeeded. -/
def migrateHook : Object :=
  [("apiVersion", .str "batch/v1"), ("kind", .str "Job"),
    ("metadata", .obj [("name", .str "migrate"),
      ("annotations", .obj [("helm.sh/hook", .str "pre-upgrade")])])]

@[inherit_doc migrateHook]
def migrateYAML : GoString :=
  bareYAML "batch/v1" "Job" "migrate" ++ ("  annotations:\n    helm.sh/hook: pre-upgrade\n" : GoString)

/-- A chart with one document in each file. -/
def chartFiles (bodies : List GoString) : List (GoString × GoString) :=
  bodies.map fun body => ("templates/object.yaml", body)

/-- The decoder for the bodies of the files. -/
def decodeBody (body : GoString) : Except GoString Object :=
  if body = webYAML then .ok webDeployment
  else if body = readerYAML then .ok readerRole
  else if body = migrateYAML then .ok migrateHook
  else .error "unexpected document"

theorem renderedDocuments_chartFiles {body : GoString} {bodies : List GoString} {d : Object}
    {docs : List Object} (hbody : splitYAMLDocuments decodeBody body = .ok [d])
    (hrest : renderedDocuments decodeBody (chartFiles bodies) = .ok docs) :
    renderedDocuments decodeBody (chartFiles (body :: bodies)) = .ok (d :: docs) := by
  have hyaml : isManifest "templates/object.yaml" = true := by decide
  simp only [chartFiles] at hrest
  simp only [chartFiles, List.map_cons, renderedDocuments, hyaml, if_true, hbody, hrest]
  rfl

theorem renderedDocuments_role :
    renderedDocuments decodeBody (chartFiles [readerYAML]) = .ok [readerRole] :=
  renderedDocuments_chartFiles (splitYAMLDocuments_single (by decide +kernel) (by decide +kernel) rfl
    (List.cons_ne_nil _ _)) rfl

theorem renderedDocuments_hook :
    renderedDocuments decodeBody (chartFiles [webYAML, migrateYAML]) =
      .ok [webDeployment, migrateHook] :=
  renderedDocuments_chartFiles (splitYAMLDocuments_single (by decide +kernel) (by decide +kernel) rfl
    (List.cons_ne_nil _ _)) (renderedDocuments_chartFiles (splitYAMLDocuments_single
      (by decide +kernel) (by decide +kernel) rfl (List.cons_ne_nil _ _)) rfl)

theorem appliedTo_withoutJobs {docs : List Object} (hnamed : ∀ d ∈ docs, d.getName ≠ [])
    (hkind : ∀ d ∈ docs, d.groupVersionKind.kind ≠ "Job") :
    AppliedTo withoutJobs inNamespace "shop" docs where
  named := hnamed
  present d hd := ⟨[], if_neg (hkind d hd)⟩
  ignoresNs _ _ := rfl

theorem deployed_role : DeployedUnchanged withoutJobs inNamespace
    (decoderOf readerYAML [readerRole]) "shop" [readerRole] readerYAML 1 where
  reads := ⟨rfl, by simp [decoderOf]⟩
  same _ _ := Iff.rfl
  valid := by
    rintro d hd -
    rw [List.mem_singleton.mp hd]
    exact ⟨by decide, by decide, by rintro group version ⟨⟩; decide⟩
  applied := by
    have hfilter : [readerRole].filter (fun d => !isHook d) = [readerRole] := rfl
    rw [hfilter]
    exact appliedTo_withoutJobs (by simp; decide) (by simp; decide)

theorem deployed_hook : DeployedUnchanged withoutJobs inNamespace
    (decoderOf webYAML [webDeployment]) "shop" [webDeployment, migrateHook] webYAML 1 where
  reads := ⟨rfl, by simp [decoderOf]⟩
  same d hhook := by
    have hne : d ≠ migrateHook := by
      rintro rfl
      exact absurd hhook (by decide)
    simp only [List.mem_cons, hne, List.not_mem_nil, or_false]
    exact List.mem_singleton.symm
  valid := by
    rintro d hd hhook
    rcases List.mem_cons.mp hd with rfl | hd
    · exact ⟨by decide, by decide, by rintro group version ⟨⟩; decide⟩
    · rw [List.mem_singleton.mp hd] at hhook
      exact absurd hhook (by decide)
  applied := by
    have hfilter : [webDeployment, migrateHook].filter (fun d => !isHook d) = [webDeployment] := rfl
    rw [hfilter]
    exact appliedTo_withoutJobs (by simp; decide) (by simp; decide)

/-- A deployed release with a `ClusterRole` is said to lose it, one with a hook to lack that. -/
theorem not_clean_deployedUnchanged :
    (∃ rendered refs,
      parseRenderedFiles decodeBody (chartFiles [readerYAML]) "shop" = .ok rendered ∧
      (∀ fuel > 1, parseManifestRefs (decoderOf readerYAML [readerRole]) fuel readerYAML "shop" =
        some refs) ∧
      ¬Clean (helmRows rowSort withoutJobs rendered { refs })) ∧
    (∃ rendered refs,
      parseRenderedFiles decodeBody (chartFiles [webYAML, migrateYAML]) "shop" = .ok rendered ∧
      (∀ fuel > 1, parseManifestRefs (decoderOf webYAML [webDeployment]) fuel webYAML "shop" =
        some refs) ∧
      ¬Clean (helmRows rowSort withoutJobs rendered { refs })) := by
  obtain ⟨rendered, refs, hrendered, hrefs, hrole⟩ := deployed_role.paths renderedDocuments_role
  obtain ⟨rendered', refs', hrendered', hrefs', hhook⟩ := deployed_hook.paths renderedDocuments_hook
  refine ⟨⟨rendered, refs, hrendered, hrefs, fun hclean => ?_⟩,
    rendered', refs', hrendered', hrefs', fun hclean => ?_⟩
  · obtain ⟨d, hd, -, -, hns⟩ := (hrole.mp hclean).listed _ (.head _) (by decide) (by decide)
      (by decide) (by decide)
    rw [List.mem_singleton.mp hd] at hns
    exact absurd hns (by decide)
  · have hgone := (hhook.mp hclean).hooks migrateHook (by simp) (by decide)
    exact absurd hgone (by decide)

/-- The release that has the `Deployment` in its manifest, as JSON. -/
def webJSON : GoString :=
  "\x7b\"manifest\":\"apiVersion: apps/v1\\nkind: Deployment\\nmetadata:\\n  name: web\\n\"\x7d"

/-- The Secret of that release, as Helm wrote it before it compressed releases. -/
def webSecret : GoString :=
  "eyJtYW5pZmVzdCI6ImFwaVZlcnNpb246IGFwcHMvdjFcbmtpbmQ6IERlcGxveW1lbnRcbm1ldGFkYXRhOlxuICBuYW1lOiB3ZWJcbiJ9"

/-- Decoders that know this Secret. -/
def webDecoders : StorageDecoders where
  base64 b := if b = webSecret then .ok webJSON else .error "illegal base64 data"
  gzip _ := .error "gzip: invalid header"
  json b := if b = webJSON then .ok ⟨webYAML⟩ else .error "unexpected end of JSON input"

/-- The release in the history. -/
def webSnapshot : Snapshot := { name := "web", version := 1, «namespace» := "shop" }

/-- The chart with a hook, deployed from a stored release. -/
theorem clean_iff_agrees_hook :
    ∃ rendered inventory,
      parseRenderedFiles decodeBody (chartFiles [webYAML, migrateYAML]) "shop" = .ok rendered ∧
      (∀ fuel > 1, helmReleaseInventory (fun _ _ => .found [("release", webSecret)]) webDecoders
        (decoderOf webYAML [webDeployment]) fuel [some webSnapshot] [] = some inventory) ∧
      (Clean (helmRows rowSort withoutJobs rendered inventory) ↔
        Agrees withoutJobs inNamespace "shop" [webDeployment, migrateHook]) :=
  clean_iff_agrees rowSort withoutJobs decodeBody inNamespace (decoderOf webYAML [webDeployment]) _ _
    _ _ webSnapshot [] [] [("release", webSecret)] ⟨webYAML⟩ 1 renderedDocuments_hook rfl rfl
    deployed_hook

end Yafu.Api
