import Yafu.Lib.GoString
import Yafu.Lib.Lookup

/-!
# Kubernetes objects as JSON trees

`unstructured.Unstructured` and the accessors of `k8s.io/apimachinery` that the renderer uses. A
`map[string]interface{}` is a list of fields of which the first under a key counts.
-/

namespace Yafu.Render

/-- What a decoder puts into an `interface{}`. -/
inductive Json
  | null
  | bool (b : Bool)
  | int64 (n : Int)
  | float64 (q : Rat)
  | str (s : GoString)
  | arr (elems : List Json)
  | obj (fields : List (GoString × Json))

/-- A `map[string]interface{}`, also an `unstructured.Unstructured`. -/
abbrev Object := List (GoString × Json)

namespace Object

/-- `m[k]`. -/
def get (o : Object) (k : GoString) : Option Json := o.lookup k

/-- `m[k] = v`. -/
def set (o : Object) (k : GoString) (v : Json) : Object := (k, v) :: o.filter (·.1 ≠ k)

/-- `delete(m, k)`. -/
def delete (o : Object) (k : GoString) : Object := o.filter (·.1 ≠ k)

theorem get_cons_self (k : GoString) (v : Json) (o : Object) : get ((k, v) :: o) k = some v :=
  List.lookup_cons_self

theorem get_cons_ne {j k : GoString} (h : j ≠ k) (v : Json) (o : Object) :
    get ((k, v) :: o) j = o.get j := lookup_cons_ne h v o

@[simp] theorem get_set_self (o : Object) (k : GoString) (v : Json) : (o.set k v).get k = some v :=
  get_cons_self k v _

theorem get_delete_self (o : Object) (k : GoString) : (o.delete k).get k = none :=
  lookup_filter_ne_self o k

theorem get_delete_ne (o : Object) {j k : GoString} (h : j ≠ k) : (o.delete k).get j = o.get j :=
  lookup_filter_ne o h

theorem get_set_ne (o : Object) {j k : GoString} (h : j ≠ k) (v : Json) :
    (o.set k v).get j = o.get j := by
  rw [set, get_cons_ne h]
  exact get_delete_ne o h

/-! ## Accessors of `unstructured.Unstructured` -/

/-- `NestedString` of one field, empty if that is no string. -/
def getString (o : Object) (k : GoString) : GoString :=
  match o.get k with
  | some (.str s) => s
  | _ => []

/-- The `metadata` map, empty if there is none. -/
def metadata (o : Object) : Object :=
  match o.get "metadata" with
  | some (.obj md) => md
  | _ => []

/-- `GetKind`. -/
def getKind (o : Object) : GoString := o.getString "kind"

/-- `GetAPIVersion`. -/
def getAPIVersion (o : Object) : GoString := o.getString "apiVersion"

/-- `GetNamespace`. -/
def getNamespace (o : Object) : GoString := o.metadata.getString "namespace"

/-- `GetName`. -/
def getName (o : Object) : GoString := o.metadata.getString "name"

/-- `SetNamespace`; a `metadata` that is no map stays as it is. -/
def setNamespace (o : Object) (ns : GoString) : Object :=
  match o.get "metadata" with
  | none => if ns = [] then o else o.set "metadata" (.obj [("namespace", .str ns)])
  | some (.obj md) =>
    o.set "metadata" (.obj (if ns = [] then delete md "namespace" else set md "namespace" (.str ns)))
  | some _ => o

end Object

/-- An object with a type and a name only. -/
def bareObject (apiVersion kind name : GoString) : Object :=
  [("apiVersion", .str apiVersion), ("kind", .str kind),
    ("metadata", .obj [("name", .str name)])]

/-- The YAML of a `bareObject`. -/
def bareYAML (apiVersion kind name : GoString) : GoString :=
  ("apiVersion: " : GoString) ++ apiVersion ++ ("\nkind: " : GoString) ++ kind ++
    ("\nmetadata:\n  name: " : GoString) ++ name ++ ("\n" : GoString)

end Yafu.Render
