import Yafu.Cluster.Registry
import Yafu.Render.Diff

/-!
# The inventory of a Helm release

Reference: `internal/api/helm_release_storage.go`, `inventoryRef` from `internal/api/tree.go`.

A release is stored in a Secret; the inventory is read off its manifest, one reference for each
document that is no hook. The YAML decoder is the sequence of its answers, which need not end; so
the loop of `parseManifestRefs` takes fuel, and `parseManifestRefs_of_reads` says how much is
enough.
-/

namespace Yafu.Api

open Yafu.Cluster (Time)
open Yafu.Render

/-- `inventoryRef`. -/
structure InventoryRef where
  ns : GoString
  name : GoString
  group : GoString
  kind : GoString
  version : GoString
deriving DecidableEq, Repr

/-- The key that `renderHelmRelease` makes of a reference. -/
def InventoryRef.key (r : InventoryRef) : ResourceKey := ⟨⟨r.group, r.version, r.kind⟩, r.ns, r.name⟩

/-- Whether an object has the annotation `helm.sh/hook`. -/
def isHook (o : Object) : Bool :=
  match o.metadata.get "annotations" with
  | some (.obj anns) => (Object.get anns "helm.sh/hook").isSome
  | _ => false

/-- `manifestDocToRef`. -/
def manifestDocToRef (u : Object) (defaultNS : GoString) : Option InventoryRef :=
  if u.getAPIVersion = [] ∨ u.getKind = [] then none
  else
    match u.get "metadata" with
    | some (.obj _) =>
      if u.getName = [] ∨ isHook u then none
      else
        let ns := if u.getNamespace = [] then defaultNS else u.getNamespace
        match GoString.cut '/'.toUInt8 u.getAPIVersion with
        | some (group, version) => some ⟨ns, u.getName, group, u.getKind, version⟩
        | none => some ⟨ns, u.getName, [], u.getKind, u.getAPIVersion⟩
    | _ => none

/-! ## Walking a manifest -/

/-- What one `Decode` answers. -/
inductive Decoded
  | doc (u : Object)
  | malformed (err : GoString)
  | eof

/-- The loop of `parseManifestRefs` from the `i`-th call of `Decode` on. -/
def walkManifest (decode : ℕ → Decoded) (defaultNS : GoString) :
    ℕ → ℕ → Option (List InventoryRef)
  | 0, _ => none
  | fuel + 1, i =>
    match decode i with
    | .eof => some []
    | .malformed _ => walkManifest decode defaultNS fuel (i + 1)
    | .doc u =>
      match manifestDocToRef u defaultNS with
      | none => walkManifest decode defaultNS fuel (i + 1)
      | some ref => (walkManifest decode defaultNS fuel (i + 1)).map (ref :: ·)

/-- `parseManifestRefs`, given what `NewYAMLOrJSONDecoder` makes of a text. -/
def parseManifestRefs (newDecoder : GoString → ℕ → Decoded) (fuel : ℕ)
    (manifest defaultNS : GoString) : Option (List InventoryRef) :=
  walkManifest (newDecoder manifest) defaultNS fuel 0

/-- The decoder comes to the end of the text after `n` answers. -/
structure Reads (decode : ℕ → Decoded) (n : ℕ) : Prop where
  ends : decode n = .eof
  goes : ∀ i < n, decode i ≠ .eof

/-- The documents among the `n` answers from the `i`-th one on. -/
def documents (decode : ℕ → Decoded) (i n : ℕ) : List Object :=
  (List.range' i n).filterMap fun j =>
    match decode j with
    | .doc u => some u
    | _ => none

theorem walkManifest_eq {decode : ℕ → Decoded} (defaultNS : GoString) (n : ℕ) :
    ∀ i fuel : ℕ, decode (i + n) = .eof → (∀ j, i ≤ j → j < i + n → decode j ≠ .eof) → n < fuel →
      walkManifest decode defaultNS fuel i =
        some ((documents decode i n).filterMap (manifestDocToRef · defaultNS)) := by
  induction n with
  | zero =>
    intro i fuel heof _ hfuel
    obtain ⟨fuel, rfl⟩ : ∃ f, fuel = f + 1 := ⟨fuel - 1, by omega⟩
    rw [Nat.add_zero] at heof
    simp [walkManifest, heof, documents]
  | succ n ih =>
    intro i fuel heof hgoes hfuel
    obtain ⟨fuel, rfl⟩ : ∃ f, fuel = f + 1 := ⟨fuel - 1, by omega⟩
    have hnext : decode (i + 1 + n) = .eof := by
      rwa [show i + 1 + n = i + (n + 1) by omega]
    have hrest := ih (i + 1) fuel hnext (fun j hj hlt => hgoes j (by omega) (by omega)) (by omega)
    rw [documents] at hrest
    rw [documents, List.range'_succ, walkManifest]
    cases hhead : decode i with
    | eof => exact absurd hhead (hgoes i (Nat.le_refl i) (by omega))
    | malformed err => simp only [List.filterMap_cons, hhead, hrest]
    | doc u =>
      simp only [List.filterMap_cons, hhead, hrest]
      cases manifestDocToRef u defaultNS <;> rfl

/-- A decoder that comes to an end gives the walk an end, and the references of its documents. -/
theorem parseManifestRefs_of_reads {newDecoder : GoString → ℕ → Decoded} {manifest : GoString}
    {n : ℕ} (h : Reads (newDecoder manifest) n) (defaultNS : GoString) {fuel : ℕ} (hfuel : n < fuel) :
    parseManifestRefs newDecoder fuel manifest defaultNS =
      some ((documents (newDecoder manifest) 0 n).filterMap (manifestDocToRef · defaultNS)) := by
  refine walkManifest_eq defaultNS n 0 fuel ?_ (fun j _ hj => h.goes j ?_) hfuel
  · rw [Nat.zero_add]
    exact h.ends
  · omega

/-! ## The release Secret -/

/-- `helmReleaseStorage`, without the name, namespace and version that nothing reads. -/
structure HelmReleaseStorage where
  manifest : GoString

/-- The decoders that `decodeHelmReleaseSecret` uses: `base64.StdEncoding.DecodeString`,
`gzip.NewReader` and `io.ReadAll` of it, `json.Unmarshal`. -/
structure StorageDecoders where
  base64 : GoString → Except GoString GoString
  gzip : GoString → Except GoString (Except GoString GoString)
  json : GoString → Except GoString HelmReleaseStorage

/-- `gzip` if the data has the magic bytes of it. -/
def gunzip (d : StorageDecoders) (decoded : GoString) : Except GoString GoString :=
  if decoded.take 2 = [0x1f, 0x8b] then
    match d.gzip decoded with
    | .error err => .error (("gzip reader: " : GoString) ++ err)
    | .ok (.error err) => .error (("gunzip: " : GoString) ++ err)
    | .ok (.ok data) => .ok data
  else .ok decoded

/-- `decodeHelmReleaseSecret`; `data` is the `Data` of the Secret. -/
def decodeHelmReleaseSecret (d : StorageDecoders) (data : List (GoString × GoString)) :
    Except GoString HelmReleaseStorage :=
  match data.lookup ("release" : GoString) with
  | none | some [] => .error "secret missing 'release' data key"
  | some raw =>
    match d.base64 raw with
    | .error err => .error (("base64 decode: " : GoString) ++ err)
    | .ok decoded =>
      match gunzip d decoded with
      | .error err => .error err
      | .ok decoded =>
        match d.json decoded with
        | .error err => .error (("json unmarshal: " : GoString) ++ err)
        | .ok rel => .ok rel

/-- What the lookup of a Secret answers. -/
inductive SecretAnswer
  | found (data : List (GoString × GoString))
  | notFound
  | failed (err : GoString)

/-- `Snapshot` of `status.history`; the times are zero where there is none. -/
structure Snapshot where
  name : GoString
  version : Int
  «namespace» : GoString
  chartVersion : GoString := []
  appVersion : GoString := []
  status : GoString := []
  action : GoString := []
  firstDeployed : Time := 0
  lastDeployed : Time := 0
deriving DecidableEq, Repr

/-- The references, the note and the error that `helmReleaseInventory` returns. -/
structure InventoryAnswer where
  refs : List InventoryRef := []
  note : GoString := []
  err : Option GoString := none
deriving DecidableEq, Repr

/-- `secretName` of a release. -/
def releaseSecretName (snap : Snapshot) : GoString :=
  ("sh.helm.release.v1." : GoString) ++ snap.name ++ (".v" : GoString) ++
    (toString snap.version : GoString)

/-- `helmReleaseInventory` of a release with this `status.history` and `status.storageNamespace`;
`none` if the manifest does not end within the fuel. -/
def helmReleaseInventory (getSecret : GoString → GoString → SecretAnswer) (d : StorageDecoders)
    (newDecoder : GoString → ℕ → Decoded) (fuel : ℕ) (history : List (Option Snapshot))
    (storageNamespace : GoString) : Option InventoryAnswer :=
  match history with
  | some snap :: _ =>
    let storageNS := if storageNamespace = [] then snap.namespace else storageNamespace
    let secret := storageNS ++ ("/" : GoString) ++ releaseSecretName snap
    match getSecret storageNS (releaseSecretName snap) with
    | .notFound =>
      some { note := ("Helm release Secret " : GoString) ++ secret ++ (" not found" : GoString) }
    | .failed err =>
      some { err := some (("read Helm release secret " : GoString) ++ secret ++ (": " : GoString) ++ err) }
    | .found data =>
      match decodeHelmReleaseSecret d data with
      | .error err => some { err := some (("decode Helm release: " : GoString) ++ err) }
      | .ok rel =>
        (parseManifestRefs newDecoder fuel rel.manifest snap.namespace).map fun refs => { refs }
  | _ =>
    some { note := "no Helm release recorded yet — HelmRelease may not have installed successfully" }

/-- Where the Secret of the newest release is there and decodes, the inventory is read off its
manifest. -/
theorem helmReleaseInventory_of_found {getSecret : GoString → GoString → SecretAnswer}
    {d : StorageDecoders} {newDecoder : GoString → ℕ → Decoded} {fuel : ℕ} {snap : Snapshot}
    {history : List (Option Snapshot)} {storageNamespace : GoString}
    {data : List (GoString × GoString)} {rel : HelmReleaseStorage}
    (hsecret : getSecret (if storageNamespace = [] then snap.namespace else storageNamespace)
      (releaseSecretName snap) = .found data)
    (hdecode : decodeHelmReleaseSecret d data = .ok rel) :
    helmReleaseInventory getSecret d newDecoder fuel (some snap :: history) storageNamespace =
      (parseManifestRefs newDecoder fuel rel.manifest snap.namespace).map fun refs => { refs } := by
  simp only [helmReleaseInventory, hsecret, hdecode]

end Yafu.Api
