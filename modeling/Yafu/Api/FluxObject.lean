import Yafu.Lib.GoString
import Yafu.Lib.MergePatch

/-!
# Flux objects as they are fetched and patched

Reference: `annotate` and the uses of `client.MergeFrom` in `internal/api/mutations.go`.

An object of one of the Flux kinds is what its mutations touch, the annotations and `spec.suspend`,
and the other fields that its Go type has, as they are marshalled. Both are marshalled with
`omitempty`.
-/

namespace Yafu.Api

open MergePatch (along)
open MergePatch.Fields hiding Distinct

/-- A JSON value that is no object and not `null`; `raw` is the text of a number or of an array. -/
inductive Scalar
  | str (s : GoString)
  | bool (b : Bool)
  | raw (text : GoString)
deriving DecidableEq, Repr

/-- An object as the API server stores it. -/
abbrev Tree := MergePatch.Tree GoString Scalar

/-- The fields of an object. -/
abbrev Fields := MergePatch.Fields GoString Scalar

/-- The leaf of a string. -/
abbrev strLeaf (s : GoString) : Tree := .leaf (.str s)

/-- A `client.Object` of Flux; of the annotations the first under a key counts. The other fields of
`metadata` and `spec`, and the rest, are as `Marshal` writes them. -/
structure FluxObject where
  annotations : List (GoString × GoString) := []
  suspend : Bool := false
  metadata : Fields := []
  spec : Fields := []
  rest : Fields := []

def metadataKey : GoString := "metadata"
def annotationsKey : GoString := "annotations"
def specKey : GoString := "spec"
def suspendKey : GoString := "suspend"

theorem specKey_ne_metadataKey : specKey ≠ metadataKey := by decide

namespace FluxObject

variable (o : FluxObject)

/-! ## Marshalling -/

/-- The annotations in `metadata`. -/
def marshalAnnotations : Fields := o.annotations.map fun a => (a.1, strLeaf a.2)

/-- `metadata`. -/
def marshalMetadata : Fields :=
  if o.annotations = [] then erase o.metadata annotationsKey
  else set o.metadata annotationsKey (.node o.marshalAnnotations)

/-- `spec`. -/
def marshalSpec : Fields :=
  if o.suspend then set o.spec suspendKey (.leaf (.bool true)) else erase o.spec suspendKey

/-- `Marshal`. -/
def marshal : Tree :=
  .node (set (set o.rest specKey (.node o.marshalSpec)) metadataKey (.node o.marshalMetadata))

/-- `annotate`. -/
def annotate (key value : GoString) : FluxObject :=
  { o with annotations := (key, value) :: o.annotations.filter fun a => a.1 ≠ key }

/-- The patch of `client.MergeFrom(o)` for the object as it is now. -/
def mergeFrom (o now : FluxObject) : Tree := MergePatch.create o.marshal now.marshal

/-! ## Decoding -/

/-- Where the suspension is. -/
def suspendPath : List GoString := [specKey, suspendKey]

/-- Where an annotation is. -/
def annotationPath (key : GoString) : List GoString := [metadataKey, annotationsKey, key]

/-- A value that decodes into a string; `null` leaves it empty. -/
def stringOf : Tree → Option GoString
  | .leaf (.str s) => some s
  | .null => some []
  | _ => none

/-- The fields of `metadata.annotations` as a `map[string]string`. -/
def decodeAnnotations : Fields → Option (List (GoString × GoString))
  | [] => some []
  | (k, u) :: fs =>
    match stringOf u, decodeAnnotations fs with
    | some v, some as => some ((k, v) :: as)
    | _, _ => none

/-- The annotations of a tree. -/
def annotationsOf (t : Tree) : Option (List (GoString × GoString)) :=
  match t.get [metadataKey, annotationsKey] with
  | none => some []
  | some .null => some []
  | some (.node fs) => decodeAnnotations fs
  | some (.leaf _) => none

/-- `spec.suspend` of a tree. -/
def suspendOf (t : Tree) : Option Bool :=
  match t.get suspendPath with
  | none => some false
  | some .null => some false
  | some (.leaf (.bool b)) => some b
  | some _ => none

/-- What a Go type keeps of the other fields. -/
structure Kept where
  metadata : Fields := []
  spec : Fields := []
  rest : Fields := []

/-- What `Get` makes of an object, for the Go type that keeps of the other fields what `keep` says.
-/
def decode (keep : Tree → Option Kept) (t : Tree) : Option FluxObject :=
  match keep t, annotationsOf t, suspendOf t with
  | some kept, some annotations, some suspend =>
    some { annotations, suspend, metadata := kept.metadata, spec := kept.spec, rest := kept.rest }
  | _, _, _ => none

theorem lookup_of_decodeAnnotations (key : GoString) {fs : Fields} {as : List (GoString × GoString)}
    (h : decodeAnnotations fs = some as) : as.lookup key = (get fs key).bind stringOf := by
  induction fs generalizing as with
  | nil =>
    rw [decodeAnnotations, Option.some.injEq] at h
    rw [← h]
    rfl
  | cons f fs ih =>
    obtain ⟨k, u⟩ := f
    rw [decodeAnnotations] at h
    split at h
    · rename_i v as' hv has
      rw [Option.some.injEq] at h
      rw [← h]
      by_cases hk : key = k
      · rw [hk, List.lookup_cons_self, get_cons_self, Option.bind_some, hv]
      · rw [lookup_cons_ne hk, get_cons_ne _ hk]
        exact ih has
    · cases h

/-- An annotation of a decoded object is what the tree has at its path. -/
theorem lookup_of_annotationsOf (key : GoString) {t : Tree} {as : List (GoString × GoString)}
    (h : annotationsOf t = some as) : as.lookup key = (t.get (annotationPath key)).bind stringOf := by
  have hpath : annotationPath key = [metadataKey, annotationsKey] ++ [key] := rfl
  rw [hpath, MergePatch.Tree.get_append]
  rw [annotationsOf] at h
  split at h <;> rename_i hget <;> rw [hget]
  · rw [Option.some.injEq] at h
    rw [← h]
    rfl
  · rw [Option.some.injEq] at h
    rw [← h]
    rfl
  · rename_i fs
    rw [lookup_of_decodeAnnotations key h, Option.bind_some]
    show _ = ((get fs key).bind fun u => some u).bind stringOf
    cases get fs key <;> rfl
  · cases h

/-! ## Paths of a marshalled object -/

theorem get_marshal_metadata (q : List GoString) :
    o.marshal.get (metadataKey :: q) = (MergePatch.Tree.node o.marshalMetadata).get q := by
  rw [marshal, MergePatch.Tree.get, MergePatch.Tree.fields, get_set_self, Option.bind_some]

theorem get_marshal_spec (q : List GoString) :
    o.marshal.get (specKey :: q) = (MergePatch.Tree.node o.marshalSpec).get q := by
  rw [marshal, MergePatch.Tree.get, MergePatch.Tree.fields, get_set_ne _ specKey_ne_metadataKey,
    get_set_self, Option.bind_some]

theorem get_marshal_rest {k : GoString} (hspec : k ≠ specKey) (hmetadata : k ≠ metadataKey)
    (q : List GoString) :
    o.marshal.get (k :: q) = (MergePatch.Tree.node o.rest).get (k :: q) := by
  rw [marshal, MergePatch.Tree.get, MergePatch.Tree.fields, get_set_ne _ hmetadata,
    get_set_ne _ hspec]
  rfl

theorem get_marshal_spec_ne {k : GoString} (hk : k ≠ suspendKey) (q : List GoString) :
    o.marshal.get (specKey :: k :: q) = (MergePatch.Tree.node o.spec).get (k :: q) := by
  rw [get_marshal_spec, MergePatch.Tree.get, MergePatch.Tree.get, MergePatch.Tree.fields, marshalSpec]
  split_ifs
  · rw [get_set_ne _ hk]
    rfl
  · rw [get_erase_ne _ hk]
    rfl

theorem get_marshal_spec_suspend (q : List GoString) :
    o.marshal.get (specKey :: suspendKey :: q) =
      if o.suspend then (MergePatch.Tree.leaf (.bool true)).get q else none := by
  rw [get_marshal_spec, MergePatch.Tree.get, MergePatch.Tree.fields, marshalSpec]
  split_ifs
  · rw [get_set_self, Option.bind_some]
  · rw [get_erase_self, Option.bind_none]

theorem get_marshal_metadata_ne {k : GoString} (hk : k ≠ annotationsKey) (q : List GoString) :
    o.marshal.get (metadataKey :: k :: q) = (MergePatch.Tree.node o.metadata).get (k :: q) := by
  rw [get_marshal_metadata, MergePatch.Tree.get, MergePatch.Tree.get, MergePatch.Tree.fields,
    marshalMetadata]
  split_ifs
  · rw [get_erase_ne _ hk]
    rfl
  · rw [get_set_ne _ hk]
    rfl

theorem get_marshalMetadata_annotations :
    get o.marshalMetadata annotationsKey =
      if o.annotations = [] then none else some (.node o.marshalAnnotations) := by
  rw [marshalMetadata]
  split_ifs
  · exact get_erase_self _ _
  · exact get_set_self _ _ _

/-! ## What the patches say -/

theorem get_marshalAnnotations (key : GoString) :
    get o.marshalAnnotations key = (o.annotations.lookup key).map strLeaf := by
  rw [marshalAnnotations]
  induction o.annotations with
  | nil => rfl
  | cons a as ih =>
    obtain ⟨k, v⟩ := a
    rw [List.map_cons]
    by_cases hk : key = k
    · rw [hk, get_cons_self, List.lookup_cons_self, Option.map_some]
    · rw [get_cons_ne _ hk, lookup_cons_ne hk, ih]

/-- What is at or below the path of an annotation. -/
theorem get_marshal_annotationPath (key : GoString) (q : List GoString) :
    o.marshal.get (metadataKey :: annotationsKey :: key :: q) =
      (get o.marshalAnnotations key).bind fun t => t.get q := by
  rw [get_marshal_metadata, MergePatch.Tree.get, MergePatch.Tree.fields,
    get_marshalMetadata_annotations]
  split_ifs with hnil
  · rw [marshalAnnotations, hnil]
    rfl
  · rfl

theorem marshalAnnotations_annotate (key value : GoString) :
    (o.annotate key value).marshalAnnotations = set o.marshalAnnotations key (strLeaf value) := by
  simp only [marshalAnnotations, annotate, MergePatch.Fields.set, MergePatch.Fields.erase,
    List.map_cons, List.filter_map]
  rfl

theorem diff_spec {o now : FluxObject} (hmetadata : now.marshalMetadata = o.marshalMetadata)
    (hrest : now.rest = o.rest) :
    MergePatch.diff o.marshal now.marshal =
      (MergePatch.diff (.node o.marshalSpec) (.node now.marshalSpec)).map
        fun d => .node [(specKey, d)] := by
  rw [marshal, marshal, hmetadata, hrest, MergePatch.diff_node_of_get_eq (k := specKey) fun j hj => ?_]
  · simp only [get_set_ne _ specKey_ne_metadataKey, get_set_self, MergePatch.entry]
  · by_cases hm : j = metadataKey
    · rw [hm, get_set_self, get_set_self]
    · simp only [get_set_ne _ hm, get_set_ne _ hj]

theorem diff_metadata {o now : FluxObject} (hspec : now.marshalSpec = o.marshalSpec)
    (hrest : now.rest = o.rest) :
    MergePatch.diff o.marshal now.marshal =
      (MergePatch.diff (.node o.marshalMetadata) (.node now.marshalMetadata)).map
        fun d => .node [(metadataKey, d)] := by
  rw [marshal, marshal, hspec, hrest,
    MergePatch.diff_node_of_get_eq (k := metadataKey) fun j hj => ?_]
  · simp only [get_set_self, MergePatch.entry]
  · simp only [get_set_ne _ hj]

/-- Setting `spec.suspend` patches that field alone, and only if it changes. -/
theorem mergeFrom_suspend (b : Bool) :
    o.mergeFrom { o with suspend := b } =
      if o.suspend = b then .node []
      else along suspendPath (if b then .leaf (.bool true) else .null) := by
  have hdiff := @diff_spec o { o with suspend := b } rfl rfl
  rw [mergeFrom, MergePatch.create, hdiff, marshalSpec, marshalSpec]
  have hother : ∀ (fs : Fields) (b b' : Bool), ∀ j ≠ suspendKey,
      get (if b then set fs suspendKey (.leaf (.bool true)) else erase fs suspendKey) j =
        get (if b' then set fs suspendKey (.leaf (.bool true)) else erase fs suspendKey) j := by
    intro fs b b' j hj
    cases b <;> cases b' <;> simp [get_set_ne fs hj, get_erase_ne fs hj]
  rw [MergePatch.diff_node_of_get_eq (hother o.spec b o.suspend)]
  cases o.suspend <;> cases b <;>
    simp [MergePatch.entry, MergePatch.diff, suspendPath, along]

/-- Annotating patches that annotation alone, and only if it changes. -/
theorem mergeFrom_annotate (key value : GoString) :
    o.mergeFrom (o.annotate key value) =
      if o.annotations.lookup key = some value then .node []
      else along (annotationPath key) (strLeaf value) := by
  have hdiff := @diff_metadata o (o.annotate key value) rfl rfl
  have hother : ∀ j ≠ annotationsKey,
      get (o.annotate key value).marshalMetadata j = get o.marshalMetadata j := by
    intro j hj
    rw [marshalMetadata, marshalMetadata]
    split_ifs <;> simp [get_set_ne _ hj, get_erase_ne _ hj, annotate]
  have hnow : get (o.annotate key value).marshalMetadata annotationsKey =
      some (.node (set o.marshalAnnotations key (strLeaf value))) := by
    rw [marshalMetadata, if_neg (by simp [annotate]), get_set_self, marshalAnnotations_annotate]
  rw [mergeFrom, MergePatch.create, hdiff, MergePatch.diff_node_of_get_eq hother, hnow, marshalMetadata]
  by_cases hnil : o.annotations = []
  · rw [if_pos hnil, get_erase_self, marshalAnnotations, hnil]
    rfl
  · -- the map is there, so that only the value under the key is compared
    rw [if_neg hnil, get_set_self, MergePatch.entry,
      MergePatch.diff_node_of_get_eq fun j hj => get_set_ne _ hj _, get_set_self,
      get_marshalAnnotations]
    cases o.annotations.lookup key with
    | none => rfl
    | some old =>
      by_cases hold : old = value
      · simp [MergePatch.entry, MergePatch.diff, hold]
      · simp [MergePatch.entry, MergePatch.diff, hold, annotationPath, along]

end FluxObject

end Yafu.Api
