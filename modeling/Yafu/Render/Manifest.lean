import Yafu.Render.Object

/-!
# From rendered YAML to objects

Reference: `internal/render/kustomize.go`, `internal/render/helm.go`.

Both renderers split a text into documents, decode each one and put a default namespace on the
objects whose kind is not on a fixed list. `yaml.Unmarshal` into a `map[string]interface{}` is the
parameter `unmarshal`; the empty object stands for the nil map.
-/

namespace Yafu.Render

/-- The kinds that `isClusterScoped` lists. -/
def clusterScopedKinds : List GoString :=
  ["Namespace", "PersistentVolume", "ClusterRole", "ClusterRoleBinding", "CustomResourceDefinition",
    "StorageClass", "PriorityClass", "Node", "APIService", "MutatingWebhookConfiguration",
    "ValidatingWebhookConfiguration", "ValidatingAdmissionPolicy",
    "ValidatingAdmissionPolicyBinding", "IngressClass"]

/-- `isClusterScoped`. -/
def isClusterScoped (kind : GoString) : Bool := kind ∈ clusterScopedKinds

/-! ## Documents -/

/-- `splitYAMLStream`. -/
def splitYAMLStream (b : GoString) : List GoString :=
  match GoString.splitStr '\n'.toUInt8 "---" ('\n'.toUInt8 :: b) with
  | [] => []
  | p :: ps => (p.cutPrefix "\n").getD p :: ps

section Decoder

variable (unmarshal : GoString → Except GoString Object)

/-- The loop of `splitYAMLDocuments`. -/
def decodeDocuments : List GoString → Except GoString (List Object)
  | [] => .ok []
  | d :: ds =>
    if GoString.trimSpace d = [] ∨ GoString.trimSpace d = "---" then decodeDocuments ds
    else
      match unmarshal d with
      | .error err => .error (("parse YAML doc: " : GoString) ++ err)
      | .ok m => if m = [] then decodeDocuments ds else (decodeDocuments ds).map (m :: ·)

/-- `splitYAMLDocuments`. -/
def splitYAMLDocuments (b : GoString) : Except GoString (List Object) :=
  decodeDocuments unmarshal (splitYAMLStream b)

/-- A text that is one document that is not blank. -/
theorem splitYAMLDocuments_single {unmarshal : GoString → Except GoString Object} {b : GoString}
    {m : Object} (hstream : splitYAMLStream b = [b])
    (htrim : ¬(GoString.trimSpace b = [] ∨ GoString.trimSpace b = "---")) (hm : unmarshal b = .ok m)
    (hne : m ≠ []) : splitYAMLDocuments unmarshal b = .ok [m] := by
  rw [splitYAMLDocuments, hstream]
  simp only [decodeDocuments, if_neg htrim, hm, if_neg hne]
  rfl

/-- The default namespace for one object, as `RenderKustomization` and `parseRenderedFiles` set it.
-/
def stampNamespace (defaultNs : GoString) (o : Object) : Object :=
  if defaultNs ≠ [] ∧ !isClusterScoped o.getKind ∧ o.getNamespace = [] then
    o.setNamespace defaultNs
  else o

/-- `RenderKustomization` from the text that `kustomize build` produced on. -/
def renderKustomization (targetNamespace yml : GoString) : Except GoString (List Object) :=
  match splitYAMLDocuments unmarshal yml with
  | .error err => .error (("split rendered YAML: " : GoString) ++ err)
  | .ok objs => .ok (objs.map (stampNamespace targetNamespace))

/-! ## The files of a chart -/

/-- `filepath.Ext`. -/
def ext (path : GoString) : GoString :=
  let base := path.reverse.takeWhile (· ≠ '/'.toUInt8)
  if '.'.toUInt8 ∈ base then '.'.toUInt8 :: (base.takeWhile (· ≠ '.'.toUInt8)).reverse else []

/-- Whether a rendered file is a manifest. No letter outside ASCII has one of the letters of these
extensions as its lower case. -/
def isManifest (path : GoString) : Bool :=
  GoString.asciiLower (ext path) ∈ ([".yaml", ".yml"] : List GoString)

/-- The objects of the files before a namespace is put on them, in the order in which the map of
files is ranged over. -/
def renderedDocuments : List (GoString × GoString) → Except GoString (List Object)
  | [] => .ok []
  | (path, body) :: files =>
    if isManifest path then
      match splitYAMLDocuments unmarshal body with
      | .error err => .error (("parse " : GoString) ++ path ++ (": " : GoString) ++ err)
      | .ok objs => (renderedDocuments files).map (objs ++ ·)
    else renderedDocuments files

/-- `parseRenderedFiles`. -/
def parseRenderedFiles (rendered : List (GoString × GoString)) (defaultNs : GoString) :
    Except GoString (List Object) :=
  (renderedDocuments unmarshal rendered).map (List.map (stampNamespace defaultNs))

end Decoder

/-! ## What stamping changes -/

namespace Object

/-- `SetNamespace` writes nothing outside `metadata`. -/
theorem get_setNamespace_ne (o : Object) {k : GoString} (h : k ≠ "metadata") (ns : GoString) :
    (o.setNamespace ns).get k = o.get k := by
  rw [setNamespace]
  split
  · split
    · rfl
    · exact get_set_ne o h _
  · exact get_set_ne o h _
  · rfl

/-- In an object with a `metadata` map, `SetNamespace` of a nonempty namespace sets that one field.
-/
theorem metadata_setNamespace {o : Object} {md : Object} (h : o.get "metadata" = some (.obj md))
    {ns : GoString} (hns : ns ≠ []) :
    (o.setNamespace ns).metadata = set md "namespace" (.str ns) := by
  simp only [metadata, setNamespace, h, if_neg hns, get_set_self]

/-- `SetNamespace` writes nothing but the namespace into `metadata`. -/
theorem get_metadata_setNamespace_ne (o : Object) {k : GoString} (h : k ≠ "namespace")
    {ns : GoString} (hns : ns ≠ []) : (o.setNamespace ns).metadata.get k = o.metadata.get k := by
  cases hmd : o.get "metadata" with
  | none =>
    simp only [metadata, setNamespace, hmd, if_neg hns, get_set_self]
    exact get_cons_ne h _ []
  | some md =>
    cases md with
    | obj md =>
      rw [metadata_setNamespace hmd hns, get_set_ne md h, metadata, hmd]
    | _ => simp only [metadata, setNamespace, hmd]

theorem getString_congr {o o' : Object} {k : GoString} (h : o.get k = o'.get k) :
    o.getString k = o'.getString k := by
  rw [getString, getString, h]

/-- An object with a name has a `metadata` map. -/
theorem get_metadata {o : Object} (h : o.getName ≠ []) :
    o.get "metadata" = some (.obj o.metadata) := by
  rw [getName, metadata] at h
  rw [metadata]
  split
  · assumption
  · rename_i hno
    split at h
    · rename_i md hmd
      exact absurd hmd (hno md)
    · exact absurd rfl h

end Object

variable (ns : GoString) {o : Object}

theorem getKind_stampNamespace (o : Object) : (stampNamespace ns o).getKind = o.getKind := by
  have hkind : ("kind" : GoString) ≠ "metadata" := by decide
  rw [stampNamespace]
  split
  · exact Object.getString_congr (o.get_setNamespace_ne hkind ns)
  · rfl

theorem getAPIVersion_stampNamespace (o : Object) :
    (stampNamespace ns o).getAPIVersion = o.getAPIVersion := by
  have hversion : ("apiVersion" : GoString) ≠ "metadata" := by decide
  rw [stampNamespace]
  split
  · exact Object.getString_congr (o.get_setNamespace_ne hversion ns)
  · rfl

theorem getName_stampNamespace (o : Object) : (stampNamespace ns o).getName = o.getName := by
  have hname : ("name" : GoString) ≠ "namespace" := by decide
  rw [stampNamespace]
  split
  · rename_i hns
    exact Object.getString_congr (o.get_metadata_setNamespace_ne hname hns.1)
  · rfl

/-- The namespace under which a stamped object is compared. -/
def stampedNs (ns : GoString) (o : Object) : GoString :=
  if isClusterScoped o.getKind ∨ o.getNamespace ≠ [] then o.getNamespace else ns

theorem getNamespace_stampNamespace (h : o.getName ≠ []) :
    (stampNamespace ns o).getNamespace = stampedNs ns o := by
  rw [stampNamespace, stampedNs]
  split
  · rename_i hns
    rw [Object.getNamespace, Object.metadata_setNamespace (Object.get_metadata h) hns.1]
    have hlisted : isClusterScoped o.getKind = false := by simpa using hns.2.1
    simp [Object.getString, hlisted, hns.2.2]
  · rename_i hns
    split
    · rfl
    · rename_i hkept
      simp only [not_or, not_not, Bool.not_eq_true] at hkept
      simp only [hkept, not_and_or, not_not] at hns
      simp_all

end Yafu.Render
