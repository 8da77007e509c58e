import Yafu.Render.Classification
import Yafu.Render.Manifest

/-!
# What Flux adds to an object

Reference: `RenderKustomization` in `internal/render/kustomize.go`, `parseRenderedFiles` in
`internal/render/helm.go`, `classifyOne` and `stripServerSideNoise` in `internal/render/diff.go`.

The Flux controllers put labels or annotations with their owner on whatever they apply. The diff keeps
these on both sides, since the rendered side is said to have them too; but the renderers add nothing to
an object but a namespace. So an object that is otherwise as it was rendered is in sync exactly if its
document came with these labels and annotations itself.
-/

namespace Yafu.Render

/-! ## Paths -/

theorem Json.atPath_append (p q : List Step) (j : Json) :
    j.atPath (p ++ q) = (j.atPath p).bind (·.atPath q) := by
  induction p generalizing j with
  | nil => rfl
  | cons s p ih =>
    rw [List.cons_append, Json.atPath, Json.atPath, Option.bind_assoc]
    exact congrArg _ (funext ih)

/-- Nothing stands behind the end of a path. -/
theorem Object.kindAt_append {o : Object} {p : List Step} (h : o.kindAt p = none) (q : List Step) :
    o.kindAt (p ++ q) = none := by
  rw [Object.kindAt, Option.map_eq_none_iff] at h
  rw [Object.kindAt, Json.atPath_append, h]
  rfl

/-- A path into a field of `metadata`. -/
theorem kindAt_metadata (o : Object) (f : GoString) (p : List Step) :
    o.kindAt (.key "metadata" :: .key f :: p) =
      (o.metadata.get f).bind fun j => (j.atPath p).map Json.kind := by
  rw [kindAt_cons, Object.metadata]
  cases o.get "metadata" with
  | none => rfl
  | some j =>
    cases j with
    | obj md => exact kindAt_cons md f p
    | null | bool | int64 | float64 | str | arr => rfl

/-- A renderer leaves every field of `metadata` as it is in the document, but for the namespace. -/
theorem kindAt_stampNamespace (ns : GoString) (doc : Object) {f : GoString} (hf : f ≠ "namespace")
    (p : List Step) :
    (stampNamespace ns doc).kindAt (.key "metadata" :: .key f :: p) =
      doc.kindAt (.key "metadata" :: .key f :: p) := by
  rw [stampNamespace]
  split
  · rename_i hns
    rw [kindAt_metadata, kindAt_metadata, Object.get_metadata_setNamespace_ne doc hf hns.1]
  · rfl

/-! ## The labels and annotations of the owner -/

/-- The fields of `metadata` that hold them. -/
def ownerMaps : List GoString := ["labels", "annotations"]

/-- The keys under which a controller of Flux writes the name and the namespace of the owner. -/
def OwnerKey (k : GoString) : Prop :=
  (".toolkit.fluxcd.io/name" : GoString) <:+ k ∨ (".toolkit.fluxcd.io/namespace" : GoString) <:+ k

instance (k : GoString) : Decidable (OwnerKey k) := inferInstanceAs (Decidable (_ ∨ _))

/-- The path to the labels or the annotations. -/
def mapPath (m : GoString) : List Step := [.key "metadata", .key m]

/-- The paths to such a label or annotation. -/
inductive OwnerPath : List Step → Prop
  | owner {m k : GoString} (hm : m ∈ ownerMaps) (hk : OwnerKey k) (p : List Step) :
      OwnerPath (mapPath m ++ .key k :: p)

/-- The two objects have the same labels and annotations of an owner. -/
def SameOwners (a b : Object) : Prop := ∀ p, OwnerPath p → a.kindAt p = b.kindAt p

/-- The first object has no labels, or no annotations, and those of the second are there for an owner.
-/
structure OnlyOwners (m : GoString) (a b : Object) : Prop where
  absent : a.kindAt (mapPath m) = none
  present : b.kindAt (mapPath m) = some .obj
  owner : ∃ k, OwnerKey k ∧ b.kindAt (mapPath m ++ [.key k]) ≠ none

/-- The two objects are the same JSON apart from the server's fields and the labels and annotations of
an owner. -/
structure UpToOwners (a b : Object) : Prop where
  rest : ∀ p, ¬Noise p → ¬OwnerPath p → (∀ m ∈ ownerMaps, p ≠ mapPath m) → a.kindAt p = b.kindAt p
  maps : ∀ m ∈ ownerMaps, a.kindAt (mapPath m) = b.kindAt (mapPath m) ∨ OnlyOwners m a b ∨
    OnlyOwners m b a

theorem not_noise_mapPath {m : GoString} (hm : m ∈ ownerMaps) (p : List Step) :
    ¬Noise (mapPath m ++ p) := by
  have hkept : ∀ m ∈ ownerMaps, m ∉ serverSideFields := by decide
  have hne : ("metadata" : GoString) ≠ "status" := by decide
  rintro (⟨_⟩ | ⟨f, hf, _⟩)
  exact hkept m hm hf

theorem OwnerPath.not_noise {p : List Step} (h : OwnerPath p) : ¬Noise p := by
  cases h with
  | owner hm hk p => exact not_noise_mapPath hm _

theorem SameOwners.symm {a b : Object} (h : SameOwners a b) : SameOwners b a :=
  fun p hp => (h p hp).symm

/-- Where the owners are the same, labels are not there for an owner on one side only. -/
theorem OnlyOwners.not_sameOwners {m : GoString} (hm : m ∈ ownerMaps) {a b : Object}
    (h : OnlyOwners m a b) : ¬SameOwners a b := by
  obtain ⟨habsent, -, k, hk, hpresent⟩ := h
  intro hsame
  exact hpresent ((hsame _ (.owner hm hk [])).symm.trans (Object.kindAt_append habsent _))

/-- Such objects are the same apart from the server's fields exactly if the owners are. -/
theorem UpToOwners.equalApart_iff {a b : Object} (h : UpToOwners a b) :
    EqualApart a b ↔ SameOwners a b := by
  constructor
  · intro hequal p hp
    exact hequal p hp.not_noise
  · intro hsame p hp
    by_cases howner : OwnerPath p
    · exact hsame p howner
    · by_cases hmap : ∃ m ∈ ownerMaps, p = mapPath m
      · obtain ⟨m, hm, rfl⟩ := hmap
        obtain heq | honly | honly := h.maps m hm
        · exact heq
        · exact absurd hsame (honly.not_sameOwners hm)
        · exact absurd hsame.symm (honly.not_sameOwners hm)
      · exact h.rest p hp howner fun m hm hpm => hmap ⟨m, hm, hpm⟩

theorem EqualApart.upToOwners {a b : Object} (h : EqualApart a b) : UpToOwners a b where
  rest p hp _ _ := h p hp
  maps m hm := .inl (h _ (List.append_nil (mapPath m) ▸ not_noise_mapPath hm []))

/-- Removing or adding server's fields changes nothing about it. -/
theorem EqualApart.trans_upToOwners {a b c : Object} (hab : EqualApart a b) (h : UpToOwners b c) :
    UpToOwners a c where
  rest p hp howner hmap := (hab p hp).trans (h.rest p hp howner hmap)
  maps m hm := by
    have hmap : ∀ q, a.kindAt (mapPath m ++ q) = b.kindAt (mapPath m ++ q) := fun q =>
      hab _ (not_noise_mapPath hm q)
    have hhere : a.kindAt (mapPath m) = b.kindAt (mapPath m) := hmap []
    rw [hhere]
    refine (h.maps m hm).imp_right (Or.imp ?_ ?_)
    · rintro ⟨habsent, hpresent, howner⟩
      exact ⟨hhere.trans habsent, hpresent, howner⟩
    · rintro ⟨habsent, hpresent, k, hk, howner⟩
      exact ⟨habsent, hhere.trans hpresent, k, hk, by rwa [hmap]⟩

/-! ## Putting an owner on an object -/

/-- The labels or annotations, empty if there are none. -/
def Object.mapOf (o : Object) (m : GoString) : Object :=
  match o.metadata.get m with
  | some (.obj l) => l
  | _ => []

/-- An object with these labels or annotations added, as a controller puts its owner on it. -/
def addOwner (m : GoString) (owner : List (GoString × Json)) (o : Object) : Object :=
  o.set "metadata" (.obj (o.metadata.set m (.obj (owner ++ o.mapOf m))))

section AddOwner

variable {m : GoString} {owner : List (GoString × Json)} {o : Object}

theorem metadata_addOwner :
    (addOwner m owner o).metadata = o.metadata.set m (.obj (owner ++ o.mapOf m)) := by
  rw [addOwner, Object.metadata, Object.get_set_self]

theorem kindAt_of_map {l : Object} (h : o.metadata.get m = some (.obj l)) (p : List Step) :
    o.kindAt (mapPath m ++ p) = l.kindAt p := by
  rw [mapPath, List.cons_append, List.cons_append, List.nil_append, kindAt_metadata, h]
  rfl

theorem kindAt_of_noMap (h : o.metadata.get m = none) (p : List Step) :
    o.kindAt (mapPath m ++ p) = none := by
  rw [mapPath, List.cons_append, List.cons_append, List.nil_append, kindAt_metadata, h]
  rfl

theorem kindAt_addOwner (p : List Step) :
    (addOwner m owner o).kindAt (mapPath m ++ p) = Object.kindAt (owner ++ o.mapOf m) p :=
  kindAt_of_map (by rw [metadata_addOwner, Object.get_set_self]) p

theorem kindAt_addOwner_ne {f : GoString} (hf : f ≠ m) (p : List Step) :
    o.kindAt (.key "metadata" :: .key f :: p) =
      (addOwner m owner o).kindAt (.key "metadata" :: .key f :: p) := by
  rw [kindAt_metadata, kindAt_metadata, metadata_addOwner, Object.get_set_ne _ hf]

/-- Only the keys of an owner are other than they were. -/
theorem kindAt_addOwner_of_not_owner (howner : ∀ e ∈ owner, OwnerKey e.1)
    (hmap : o.metadata.get m = none ∨ ∃ l, o.metadata.get m = some (.obj l)) {s : Step}
    (hs : ∀ k, s = .key k → ¬OwnerKey k) (p : List Step) :
    o.kindAt (mapPath m ++ s :: p) = (addOwner m owner o).kindAt (mapPath m ++ s :: p) := by
  have hmapOf : o.kindAt (mapPath m ++ s :: p) = Object.kindAt (o.mapOf m) (s :: p) := by
    obtain hnone | ⟨l, hl⟩ := hmap
    · rw [kindAt_of_noMap hnone, Object.mapOf, hnone]
      cases s <;> rfl
    · rw [kindAt_of_map hl, Object.mapOf, hl]
  rw [hmapOf, kindAt_addOwner]
  cases s with
  | index i => rfl
  | key k =>
    have hnot : List.lookup k owner = none := by
      rw [List.lookup_eq_none_iff]
      intro e he
      rw [bne_iff_ne]
      rintro rfl
      exact hs _ rfl (howner e he)
    rw [kindAt_cons, kindAt_cons, Object.get, Object.get, List.lookup_append, hnot, Option.none_or]

/-- An object on which a controller has put its owner is the same apart from that. -/
theorem upToOwners_addOwner (hm : m ∈ ownerMaps) (hne : owner ≠ [])
    (howner : ∀ e ∈ owner, OwnerKey e.1) {md : Object} (hmd : o.get "metadata" = some (.obj md))
    (hmap : o.metadata.get m = none ∨ ∃ l, o.metadata.get m = some (.obj l)) :
    UpToOwners o (addOwner m owner o) where
  rest p _ hp hpm := by
    rcases p with _ | ⟨⟨k⟩ | ⟨i⟩, p⟩
    · rfl
    · by_cases hk : k = "metadata"
      · subst hk
        rcases p with _ | ⟨⟨f⟩ | ⟨i⟩, p⟩
        · rw [kindAt_cons, kindAt_cons, hmd, addOwner, Object.get_set_self]
          rfl
        · by_cases hf : f = m
          · subst hf
            rcases p with _ | ⟨s, p⟩
            · exact absurd rfl (hpm f hm)
            · refine kindAt_addOwner_of_not_owner howner hmap ?_ p
              rintro k rfl hk
              exact hp (.owner hm hk p)
          · exact kindAt_addOwner_ne hf p
        · rw [kindAt_cons, kindAt_cons, hmd, addOwner, Object.get_set_self]
          rfl
      · rw [kindAt_cons, kindAt_cons, addOwner, Object.get_set_ne _ hk]
    · rfl
  maps f hf := by
    by_cases hfm : f = m
    · subst hfm
      have hpresent : (addOwner f owner o).kindAt (mapPath f) = some .obj := kindAt_addOwner []
      obtain hnone | ⟨l, hl⟩ := hmap
      · obtain ⟨⟨k, v⟩, owner, rfl⟩ := List.exists_cons_of_ne_nil hne
        refine .inr (.inl ⟨kindAt_of_noMap hnone [], hpresent, k, howner _ (.head _), ?_⟩)
        rw [kindAt_addOwner, List.cons_append, kindAt_cons, Object.get_cons_self]
        exact Option.some_ne_none _
      · exact .inl ((kindAt_of_map hl []).trans hpresent.symm)
    · exact .inl (kindAt_addOwner_ne hfm [])

end AddOwner

/-! ## Rendering -/

/-- A renderer leaves the owners as they are in the document. -/
theorem kindAt_stampNamespace_owner (ns : GoString) (doc : Object) {p : List Step}
    (hp : OwnerPath p) : (stampNamespace ns doc).kindAt p = doc.kindAt p := by
  have hne : ∀ m ∈ ownerMaps, m ≠ "namespace" := by decide
  cases hp with
  | owner hm hk p => exact kindAt_stampNamespace ns doc (hne _ hm) _

/-! ## The diff -/

section Diff

/-- What a renderer makes of the documents that it decodes, one object of each. -/
inductive Renders (unmarshal : GoString → Except GoString Object) : List Object → List Object → Prop
  | kustomization {targetNamespace yml : GoString} {docs objs : List Object}
      (hdocs : splitYAMLDocuments unmarshal yml = .ok docs)
      (hobjs : renderKustomization unmarshal targetNamespace yml = .ok objs) :
      Renders unmarshal docs objs
  | helm {rendered : List (GoString × GoString)} {defaultNs : GoString} {docs objs : List Object}
      (hdocs : renderedDocuments unmarshal rendered = .ok docs)
      (hobjs : parseRenderedFiles unmarshal rendered defaultNs = .ok objs) :
      Renders unmarshal docs objs

variable {unmarshal : GoString → Except GoString Object} {docs objs : List Object}

/-- All that is rendered is of such documents. -/
theorem exists_renders {targetNamespace yml : GoString}
    (h : renderKustomization unmarshal targetNamespace yml = .ok objs) :
    ∃ docs, Renders unmarshal docs objs := by
  cases hdocs : splitYAMLDocuments unmarshal yml with
  | error err =>
    simp only [renderKustomization, hdocs] at h
    cases h
  | ok docs => exact ⟨docs, .kustomization hdocs h⟩

@[inherit_doc exists_renders]
theorem exists_renders_files {rendered : List (GoString × GoString)} {defaultNs : GoString}
    (h : parseRenderedFiles unmarshal rendered defaultNs = .ok objs) :
    ∃ docs, Renders unmarshal docs objs := by
  cases hdocs : renderedDocuments unmarshal rendered with
  | error err =>
    rw [parseRenderedFiles, hdocs] at h
    cases h
  | ok docs => exact ⟨docs, .helm hdocs h⟩

theorem Renders.eq_map (h : Renders unmarshal docs objs) :
    ∃ ns, objs = docs.map (stampNamespace ns) := by
  cases h with
  | @kustomization ns _ _ _ hdocs hobjs =>
    simp only [renderKustomization, hdocs, Except.ok.injEq] at hobjs
    exact ⟨ns, hobjs.symm⟩
  | @helm _ ns _ _ hdocs hobjs =>
    rw [parseRenderedFiles, hdocs] at hobjs
    exact ⟨ns, (Except.ok.inj hobjs).symm⟩

theorem Renders.eq_stampNamespace (h : Renders unmarshal docs objs) {doc want : Object}
    (hpair : (doc, want) ∈ docs.zip objs) : ∃ ns, want = stampNamespace ns doc := by
  obtain ⟨ns, rfl⟩ := h.eq_map
  rw [← List.map_prod_left_eq_zip, List.mem_map] at hpair
  obtain ⟨doc', -, hsame⟩ := hpair
  obtain ⟨rfl, rfl⟩ := Prod.mk.inj hsame
  exact ⟨ns, rfl⟩

variable {env : Env} {trees : Set Object} {doc want live : Object}

theorem sameOwners_rendered (h : Renders unmarshal docs objs) (hpair : (doc, want) ∈ docs.zip objs) :
    SameOwners want live ↔ SameOwners doc live := by
  obtain ⟨ns, rfl⟩ := h.eq_stampNamespace hpair
  refine forall₂_congr fun p hp => ?_
  rw [kindAt_stampNamespace_owner ns doc hp]

/-- An object that is on the cluster as it was rendered, with what Flux adds to it, is in sync exactly
if its document has these labels and annotations already. -/
theorem inSync_iff_sameOwners (hrenders : Renders unmarshal docs objs)
    (hpair : (doc, want) ∈ docs.zip objs) (hcanonical : Canonical env.marshal trees)
    (hlive : env.getLive (keyOf want) = .found live) (hwant : stripServerSideNoise want ∈ trees)
    (hstripped : stripServerSideNoise live ∈ trees) (h : UpToOwners want live) :
    (classifyOne env want (keyOf want)).status = "in-sync" ↔ SameOwners doc live := by
  rw [status_inSync_iff hcanonical hlive hwant hstripped, h.equalApart_iff,
    sameOwners_rendered hrenders hpair]

/-- One label of an owner that the document has not is enough for a drift. -/
theorem drifted_of_owner (hrenders : Renders unmarshal docs objs)
    (hpair : (doc, want) ∈ docs.zip objs) (hcanonical : Canonical env.marshal trees)
    (hlive : env.getLive (keyOf want) = .found live) (hwant : stripServerSideNoise want ∈ trees)
    (hstripped : stripServerSideNoise live ∈ trees) (h : UpToOwners want live) {p : List Step}
    (hp : OwnerPath p) (hdoc : doc.kindAt p = none) (hadded : live.kindAt p ≠ none) :
    (classifyOne env want (keyOf want)).status = "drifted" := by
  refine status_drifted hcanonical hlive hwant hstripped ?_
  rw [h.equalApart_iff, sameOwners_rendered hrenders hpair]
  intro hsame
  exact hadded ((hsame p hp).symm.trans hdoc)

end Diff

/-! ### A ConfigMap that Flux applied -/

/-- The text that a build has for it. -/
def settingsYAML : GoString := bareYAML "v1" "ConfigMap" "settings"

/-- Decoding of the text. -/
def decodeSettings (_ : GoString) : Except GoString Object := .ok (settings "settings")

theorem renders_settings : Renders decodeSettings [settings "settings"] [settings "settings"] := by
  have hdocs : splitYAMLDocuments decodeSettings settingsYAML = .ok [settings "settings"] :=
    splitYAMLDocuments_single (by decide +kernel) (by decide +kernel) rfl (List.cons_ne_nil _ _)
  have hobjs : renderKustomization decodeSettings [] settingsYAML = .ok [settings "settings"] := by
    rw [renderKustomization, hdocs]
    rfl
  exact .kustomization hdocs hobjs

theorem equalApart_settings : EqualApart (settings "settings") liveSettings :=
  (sameJson_strip_iff _ _).mp fun _ => rfl

/-- The labels that kustomize-controller puts on it. -/
def settingsOwner : List (GoString × Json) :=
  [("kustomize.toolkit.fluxcd.io/name", .str "apps"),
    ("kustomize.toolkit.fluxcd.io/namespace", .str "flux-system")]

/-- The ConfigMap on the cluster. -/
def appliedSettings : Object := addOwner "labels" settingsOwner liveSettings

/-- The text of the ConfigMap, with or without these labels. -/
def labelledYAML (o : Object) : GoString :=
  let labels : GoString :=
    if (o.metadata.get "labels").isSome then
      ("  labels:\n    kustomize.toolkit.fluxcd.io/name: apps\n" : GoString) ++
        ("    kustomize.toolkit.fluxcd.io/namespace: flux-system\n" : GoString)
    else []
  ("apiVersion: v1\nkind: ConfigMap\nmetadata:\n" : GoString) ++ labels ++
    ("  name: settings\n" : GoString)

/-- The cluster with it. -/
def appliedEnv : Env where
  getLive _ := .found appliedSettings
  marshal o := .ok (labelledYAML o)
  getOpCodes _ _ := []

theorem upToOwners_settings : UpToOwners (settings "settings") appliedSettings := by
  refine equalApart_settings.trans_upToOwners ?_
  exact upToOwners_addOwner (by decide) (List.cons_ne_nil _ _) (by decide) rfl (.inl rfl)

theorem canonical_applied : Canonical appliedEnv.marshal
    {stripServerSideNoise (settings "settings"), stripServerSideNoise appliedSettings} where
  ok o _ := ⟨_, rfl⟩
  eq_iff := by
    have htext : appliedEnv.marshal (stripServerSideNoise (settings "settings")) ≠
        appliedEnv.marshal (stripServerSideNoise appliedSettings) := by decide +kernel
    have hjson : ¬SameJson (stripServerSideNoise (settings "settings"))
        (stripServerSideNoise appliedSettings) := by
      intro h
      have hlabels : (none : Option Kind) = some .obj := h (mapPath "labels")
      cases hlabels
    rintro _ (rfl | rfl) _ (rfl | rfl)
    · exact iff_of_true rfl fun _ => rfl
    · exact iff_of_false htext hjson
    · exact iff_of_false htext.symm fun h => hjson fun p => (h p).symm
    · exact iff_of_true rfl fun _ => rfl

/-- The ConfigMap of a repository that writes the labels itself. -/
def ownedSettings : Object := addOwner "labels" settingsOwner (settings "settings")

/-- Decoding of its text. -/
def decodeOwned (_ : GoString) : Except GoString Object := .ok ownedSettings

theorem renders_owned : Renders decodeOwned [ownedSettings] [ownedSettings] := by
  have hdocs : splitYAMLDocuments decodeOwned (labelledYAML ownedSettings) = .ok [ownedSettings] :=
    splitYAMLDocuments_single (by decide +kernel) (by decide +kernel) rfl (List.cons_ne_nil _ _)
  have hobjs : renderKustomization decodeOwned [] (labelledYAML ownedSettings) = .ok [ownedSettings] := by
    rw [renderKustomization, hdocs]
    rfl
  exact .kustomization hdocs hobjs

/-- With them in the document there is no drift. -/
theorem inSync_iff_sameOwners_settings :
    SameOwners ownedSettings appliedSettings ∧
      ((classifyOne appliedEnv ownedSettings (keyOf ownedSettings)).status = "in-sync" ↔
        SameOwners ownedSettings appliedSettings) := by
  have hequal : EqualApart ownedSettings appliedSettings :=
    (sameJson_strip_iff _ _).mp fun _ => rfl
  exact ⟨fun p hp => hequal p hp.not_noise, inSync_iff_sameOwners renders_owned (.head _)
    canonical_applied rfl (.inr rfl) (.inr rfl) hequal.upToOwners⟩

/-- Right after Kustomization `apps` was applied its ConfigMap is a drift. -/
theorem not_inSync_settings :
    Renders decodeSettings [settings "settings"] [settings "settings"] ∧
      UpToOwners (settings "settings") appliedSettings ∧
      appliedEnv.getLive (keyOf (settings "settings")) = .found appliedSettings ∧
      (classifyOne appliedEnv (settings "settings") (keyOf (settings "settings"))).status = "drifted" :=
  have howner : OwnerPath (mapPath "labels" ++ [.key "kustomize.toolkit.fluxcd.io/name"]) :=
    .owner (by decide) (by decide) []
  have hadded : appliedSettings.kindAt
      (mapPath "labels" ++ [.key "kustomize.toolkit.fluxcd.io/name"]) = some (.str "apps") := rfl
  ⟨renders_settings, upToOwners_settings, rfl,
    drifted_of_owner renders_settings (.head _) canonical_applied rfl (.inl rfl) (.inr rfl)
      upToOwners_settings howner rfl (hadded ▸ Option.some_ne_none _)⟩

end Yafu.Render
