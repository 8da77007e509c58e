import Yafu.Lib.SortSlice
import Yafu.Render.Object
import Mathlib.Data.Prod.Lex

/-!
# The Git-versus-cluster diff

Reference: `internal/render/diff.go`, `RenderResource` from `internal/api/types/types.go`, and
`schema.ParseGroupVersion` of `k8s.io/apimachinery`.

`Env` holds what the diff asks from elsewhere: the cluster, the YAML encoder and the matcher of
`go-difflib`. The diff itself is the two passes of `diffResources`, first over the rendered objects
and then over the inventory entries whose key none of them has.
-/

namespace Yafu.Render

/-! ## Keys -/

/-- `schema.GroupVersionKind`. -/
structure GroupVersionKind where
  group : GoString := []
  version : GoString := []
  kind : GoString := []
deriving DecidableEq, Repr

/-- `ResourceKey`. -/
structure ResourceKey where
  gvk : GroupVersionKind
  ns : GoString
  nm : GoString
deriving DecidableEq, Repr

/-- `Unstructured.GroupVersionKind`: `schema.ParseGroupVersion` accepts one slash at most, and the
zero value stands for what it does not accept. -/
def Object.groupVersionKind (o : Object) : GroupVersionKind :=
  if o.getAPIVersion = [] ∨ o.getAPIVersion = "/" then ⟨[], [], o.getKind⟩
  else
    match GoString.split '/'.toUInt8 o.getAPIVersion with
    | [version] => ⟨[], version, o.getKind⟩
    | [group, version] => ⟨group, version, o.getKind⟩
    | _ => {}

/-- `keyOf`. -/
def keyOf (o : Object) : ResourceKey := ⟨o.groupVersionKind, o.getNamespace, o.getName⟩

/-! ## Rows -/

/-- `RenderLine`. -/
structure RenderLine where
  kind : GoString
  desiredLn : Option ℕ := none
  liveLn : Option ℕ := none
  text : GoString
deriving DecidableEq, Repr

/-- `RenderHunk`. -/
structure RenderHunk where
  label : GoString
  lines : List RenderLine
deriving DecidableEq, Repr

/-- `RenderResource`. -/
structure RenderResource where
  group : GoString
  version : GoString
  kind : GoString
  ns : GoString
  name : GoString
  status : GoString := []
  hunks : List RenderHunk := []
  renderError : GoString := []
  reconcileWould : GoString := []
deriving DecidableEq, Repr

/-- A row under a key, with nothing but the key in it. -/
def ResourceKey.row (k : ResourceKey) : RenderResource where
  group := k.gvk.group
  version := k.gvk.version
  kind := k.gvk.kind
  ns := k.ns
  name := k.nm

/-! ## Hunks -/

/-- `difflib.OpCode`. -/
structure OpCode where
  tag : UInt8
  i1 : ℕ
  i2 : ℕ
  j1 : ℕ
  j2 : ℕ
deriving DecidableEq, Repr

/-- The lines that one side has and the other has not, from the line with index `i` to before `j`.
-/
def delLines (dlines : List GoString) (i j : ℕ) : List RenderLine :=
  (List.range' i (j - i)).map fun k =>
    { kind := "del", desiredLn := some (k + 1), text := dlines.getD k [] }

@[inherit_doc delLines]
def addLines (llines : List GoString) (i j : ℕ) : List RenderLine :=
  (List.range' i (j - i)).map fun k =>
    { kind := "add", liveLn := some (k + 1), text := llines.getD k [] }

/-- The lines of one op code. -/
def OpCode.lines (op : OpCode) (dlines llines : List GoString) : List RenderLine :=
  if op.tag = 'e'.toUInt8 then
    (List.range' op.i1 (op.i2 - op.i1)).map fun k =>
      { kind := "context", desiredLn := some (k + 1), liveLn := some (op.j1 + (k - op.i1) + 1),
        text := dlines.getD k [] }
  else if op.tag = 'd'.toUInt8 then delLines dlines op.i1 op.i2
  else if op.tag = 'i'.toUInt8 then addLines llines op.j1 op.j2
  else if op.tag = 'r'.toUInt8 then delLines dlines op.i1 op.i2 ++ addLines llines op.j1 op.j2
  else []

/-- `computeHunks`, given `GetOpCodes` of a `difflib` matcher. -/
def computeHunks (getOpCodes : List GoString → List GoString → List OpCode)
    (desired live : GoString) : List RenderHunk :=
  let dlines := GoString.split '\n'.toUInt8 (GoString.trimRight '\n'.toUInt8 desired)
  let llines := GoString.split '\n'.toUInt8 (GoString.trimRight '\n'.toUInt8 live)
  [{ label := "object", lines := (getOpCodes dlines llines).flatMap (OpCode.lines · dlines llines) }]

/-! ## Classification -/

/-- What `client.Get` answers: an object, an error that `IsNotFound` recognises, another error. -/
inductive Live
  | found (o : Object)
  | notFound (err : GoString)
  | failed (err : GoString)

/-- What the diff asks from elsewhere: `getLive`, `yaml.Marshal`, `GetOpCodes`. -/
structure Env where
  getLive : ResourceKey → Live
  marshal : Object → Except GoString GoString
  getOpCodes : List GoString → List GoString → List OpCode

/-- `IsNotFound` of what the lookup answers. -/
def Env.gone (env : Env) (k : ResourceKey) : Bool :=
  match env.getLive k with
  | .notFound _ => true
  | _ => false

/-- The metadata fields that `stripServerSideNoise` removes. -/
def serverSideFields : List GoString :=
  ["managedFields", "uid", "resourceVersion", "generation", "creationTimestamp", "selfLink",
    "finalizers"]

/-- `stripServerSideNoise`. -/
def stripServerSideNoise (o : Object) : Object :=
  let cp :=
    match o.get "metadata" with
    | some (.obj md) => o.set "metadata" (.obj (serverSideFields.foldl Object.delete md))
    | _ => o
  cp.delete "status"

/-- `%v` of an error that may be nil. -/
def errText : Except GoString GoString → GoString
  | .error err => err
  | .ok _ => "<nil>"

/-- `classifyOne`. -/
def classifyOne (env : Env) (want : Object) (key : ResourceKey) : RenderResource :=
  let out := key.row
  match env.getLive key with
  | .notFound _ => { out with status := "missing-on-cluster", reconcileWould := "create" }
  | .failed err => { out with status := "render-error", renderError := err }
  | .found live =>
    match env.marshal (stripServerSideNoise want), env.marshal (stripServerSideNoise live) with
    | .ok wantYAML, .ok liveYAML =>
      if wantYAML = liveYAML then { out with status := "in-sync" }
      else
        { out with
          status := "drifted", reconcileWould := "update"
          hunks := computeHunks env.getOpCodes wantYAML liveYAML }
    | errA, errB =>
      { out with
        status := "render-error"
        renderError := ("serialise yaml: " : GoString) ++ errText errA ++ (" / " : GoString) ++
          errText errB }

/-- The row of an inventory entry that was not rendered, none if the object is gone. -/
def extraRow (env : Env) (inv : ResourceKey) : Option RenderResource :=
  let extra := { inv.row with status := "extra-on-cluster", reconcileWould := "delete" }
  match env.getLive inv with
  | .notFound _ => none
  | .failed err => some { extra with renderError := err }
  | .found _ => some extra

/-- The order of the rows: by kind, namespace and name. -/
def rowLess (a b : RenderResource) : Bool :=
  if a.kind ≠ b.kind then a.kind < b.kind
  else if a.ns ≠ b.ns then a.ns < b.ns
  else a.name < b.name

/-- Sorting by kind, namespace and name. -/
def rowSort : SortSlice rowLess :=
  .byKey (fun r => toLex (r.kind, toLex (r.ns, r.name))) fun a b => by
    simp only [rowLess, Prod.Lex.toLex_lt_toLex, ne_eq]
    split_ifs <;> simp_all

/-- `DiffOptions`. -/
structure DiffOptions where
  rendered : List Object
  inventory : List ResourceKey

/-- The inventory entries whose key no rendered object has. -/
def DiffOptions.unrendered (opts : DiffOptions) : List ResourceKey :=
  opts.inventory.filter fun inv => inv ∉ opts.rendered.map keyOf

/-- `DiffResources`. -/
def diffResources (sort : SortSlice rowLess) (env : Env) (opts : DiffOptions) :
    List RenderResource :=
  sort.sort (opts.rendered.map (fun want => classifyOne env want (keyOf want)) ++
    opts.unrendered.filterMap (extraRow env))

/-! ## What the two passes say -/

theorem verdict_of_gone {env : Env} {k : ResourceKey} (h : env.gone k) (want : Object) :
    (classifyOne env want k).status = "missing-on-cluster" ∧
      (classifyOne env want k).reconcileWould = "create" := by
  simp only [Env.gone] at h
  split at h
  · rename_i err hlive
    rw [classifyOne, hlive]
    exact ⟨rfl, rfl⟩
  · cases h

/-- The status of an object that is not gone, and what a reconcile would do. -/
def verdicts : List (GoString × GoString) :=
  [("render-error", ""), ("in-sync", ""), ("drifted", "update")]

theorem verdict_classifyOne {env : Env} {k : ResourceKey} (h : env.gone k = false) (want : Object) :
    ((classifyOne env want k).status, (classifyOne env want k).reconcileWould) ∈ verdicts := by
  simp only [Env.gone] at h
  simp only [classifyOne]
  split
  · rename_i hlive
    rw [hlive] at h
    cases h
  · exact .head _
  · split
    · split
      · exact .tail _ (.head _)
      · exact .tail _ (.tail _ (.head _))
    · exact .head _

/-- The second pass leaves out exactly what is gone. -/
theorem extraRow_eq_none_iff (env : Env) (k : ResourceKey) : extraRow env k = none ↔ env.gone k := by
  simp only [extraRow, Env.gone]
  cases env.getLive k <;> simp

theorem status_of_extraRow {env : Env} {k : ResourceKey} {r : RenderResource}
    (h : extraRow env k = some r) :
    r.status = "extra-on-cluster" ∧ r.reconcileWould = "delete" := by
  simp only [extraRow] at h
  split at h <;> cases h <;> exact ⟨rfl, rfl⟩

theorem perm_diffResources (sort : SortSlice rowLess) (env : Env) (opts : DiffOptions) :
    (diffResources sort env opts).Perm
      (opts.rendered.map (fun want => classifyOne env want (keyOf want)) ++
        opts.unrendered.filterMap (extraRow env)) := sort.perm _

end Yafu.Render
