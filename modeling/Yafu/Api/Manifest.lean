import Yafu.Api.Handler

/-!
# The manifest of an application

Reference: `internal/api/manifest.go`.
-/

namespace Yafu.Api

open Yafu.Auth (Policy)
open Yafu.Cluster (Registry)
open Yafu.Render

/-- `noiseFields`. -/
def noiseFields : List (List GoString) :=
  [["metadata", "managedFields"], ["metadata", "resourceVersion"], ["metadata", "uid"],
    ["metadata", "selfLink"], ["metadata", "creationTimestamp"], ["metadata", "generation"]]

/-- `RemoveNestedField`. -/
def removeNestedField (o : Object) : List GoString → Object
  | [] => o
  | [k] => o.delete k
  | k :: ks =>
    match o.get k with
    | some (.obj m) => o.set k (.obj (removeNestedField m ks))
    | _ => o

/-- `apiVersionForKind`. -/
def apiVersionForKind (kind : GoString) : GoString :=
  if kind = "Kustomization" then "kustomize.toolkit.fluxcd.io/v1"
  else if kind = "HelmRelease" then "helm.toolkit.fluxcd.io/v2"
  else []

/-- `App` as `ToUnstructured` makes it. -/
def App.unstructured : App → Except GoString Object
  | .kustomization k => k.unstructured
  | .helmRelease hr => hr.unstructured

/-- `manifestYAML`. -/
def manifestYAML (rt : Runtime) (obj : App) (expectedKind : GoString) : Except GoString GoString :=
  match obj.unstructured with
  | .error err => .error (("convert to unstructured: " : GoString) ++ err)
  | .ok u =>
    let u := if u.getAPIVersion = [] then u.set "apiVersion" (.str (apiVersionForKind expectedKind)) else u
    let u := if u.getKind = [] then u.set "kind" (.str expectedKind) else u
    match rt.marshalYAML (noiseFields.foldl removeNestedField u) with
    | .error err => .error (("marshal yaml: " : GoString) ++ err)
    | .ok yaml => .ok yaml

/-- `manifest` behind the checks. -/
def manifestOf (rt : Runtime) (p : AppPath) (e : Entry) : Response :=
  match getApp rt e.clients p.ns p.kind p.name with
  | .error err => getAppFailed err
  | .ok obj =>
    match manifestYAML rt obj p.kind with
    | .error err => writeError jsonHeaders Http.statusInternalServerError err
    | .ok yaml => { body := .manifest { appId := p.id, kind := p.kind, yaml } }

/-- `applicationsHandler.manifest`. -/
def manifest (rt : Runtime) (policy : Policy) (registry : Option (Registry Clients)) (r : Request)
    (p : AppPath) : Set Response :=
  withEntry rt policy registry r jsonHeaders p.cluster fun e => {manifestOf rt p e}

end Yafu.Api
