import Yafu.Api.Clusters
import Yafu.Api.Drift
import Yafu.Api.Events
import Yafu.Api.History
import Yafu.Api.Images
import Yafu.Api.LogStream
import Yafu.Api.Logs
import Yafu.Api.Manifest
import Yafu.Api.Render

/-!
# The read API shows nothing of a cluster that the caller may not get

Reference: `RegisterAPI` in `internal/api/api.go`, for the GET endpoints that ask the registry.

Each endpoint answers as it would if the clusters that the caller may not get were not registered
(`serve_visible`). So registries that agree on the other clusters give the same set of responses.
-/

namespace Yafu.Api

open Yafu.Auth (Policy)
open Yafu.Cluster (Registry)
open Yafu.Render

/-- `sort.Slice` for each order that the handlers sort by. -/
structure Sorts where
  applications : SortSlice applicationLess
  sources : SortSlice sourceLess
  alerts : SortSlice alertLess
  updates : SortSlice imageUpdateLess
  events : SortSlice eventLess
  nodes : SortSlice nodeLess
  drift : SortSliceWeak driftLess
  rows : SortSlice rowLess
  pods : SortSlice podLess

/-- The endpoints of one application. -/
inductive AppEndpoint
  | history
  | tree
  | manifest
  | diff
  | render
  | logs
  | logsStream
deriving DecidableEq, Repr

/-- The endpoints. -/
inductive Endpoint
  | clusters
  | applications
  | sources
  | alerts
  | events
  | imageUpdates
  | app (a : AppEndpoint) (p : AppPath)
deriving DecidableEq, Repr

/-- The headers that a handler of one application sets before anything else. -/
def AppEndpoint.headers : AppEndpoint → Headers
  | .logsStream => []
  | _ => jsonHeaders

section Serve

variable (rt : Runtime) (sorts : Sorts) (policy : Policy) (registry : Option (Registry Clients))
  (r : Request)

/-- The response with a list. -/
def listed {ρ : Type} (body : ρ → Body) (answers : Set ρ) : Set Response :=
  (fun l => { body := body l }) '' answers

/-- What an endpoint of one application may answer. -/
def serveApp (p : AppPath) : AppEndpoint → Set Response
  | .history => history rt policy registry r p
  | .tree => tree rt policy registry r sorts.nodes p
  | .manifest => manifest rt policy registry r p
  | .diff => diff rt policy registry r sorts.drift p
  | .render => render rt policy registry r sorts.rows p
  | .logs => logs rt policy registry r sorts.pods p
  | .logsStream => logsStream rt policy registry r p

/-- What an endpoint may answer. -/
def serve : Endpoint → Set Response
  | .clusters => listed .clusters {listClusters rt policy registry r}
  | .applications => listed .applications (listApplications rt policy registry r sorts.applications)
  | .sources => listed .sources (listSources rt policy registry r sorts.sources)
  | .alerts => listed .alerts (listAlerts rt policy registry r sorts.alerts)
  | .events => listed .events (listEvents rt policy registry r sorts.events)
  | .imageUpdates => listed .updates (listImageUpdates rt policy registry r sorts.updates)
  | .app a p => serveApp rt sorts policy registry r p a

/-- The refusal for a cluster that the caller may not get. -/
def refused (a : AppEndpoint) (cluster : GoString) : Response :=
  writeError a.headers statusForbidden
    (("identity is not allowed to get cluster " : GoString) ++ rt.quote cluster)

/-! ## Non-interference -/

theorem serveApp_visible (p : AppPath) (a : AppEndpoint) :
    serveApp rt sorts policy (visible rt policy registry r) r p a =
      serveApp rt sorts policy registry r p a := by
  cases a <;> exact withEntry_visible rt policy registry r _ p.cluster _

/-- No endpoint makes a difference between the registry and what the caller may get of it. -/
theorem serve_visible (endpoint : Endpoint) :
    serve rt sorts policy (visible rt policy registry r) r endpoint =
      serve rt sorts policy registry r endpoint := by
  cases endpoint with
  | clusters => rw [serve, serve, listClusters_visible]
  | app a p => exact serveApp_visible rt sorts policy registry r p a
  | _ =>
    simp only [serve, listApplications, listSources, listAlerts, listEvents, listImageUpdates,
      listing_visible]

theorem serveApp_denied {p : AppPath} (h : mayGet rt policy r p.cluster = false) (a : AppEndpoint) :
    serveApp rt sorts policy registry r p a = {refused rt a p.cluster} := by
  cases a <;> exact withEntry_denied rt policy registry r _ _ h

/-- **Non-interference.** Registries that agree on every cluster the caller may get have the same
possible responses at every endpoint, and an endpoint of one application refuses a cluster that the
caller may not get in the same way whatever is registered. -/
theorem serve_nonInterference {reg₁ reg₂ : Registry Clients}
    (h : Registry.AgreeOn (mayGet rt policy r) reg₁ reg₂) :
    (∀ endpoint, serve rt sorts policy (some reg₁) r endpoint =
      serve rt sorts policy (some reg₂) r endpoint) ∧
    ∀ a p, mayGet rt policy r p.cluster = false → ∀ registry,
      serve rt sorts policy registry r (.app a p) = {refused rt a p.cluster} := by
  refine ⟨fun endpoint => ?_, fun a p hdenied registry => ?_⟩
  · have hvisible : visible rt policy (some reg₁) r = visible rt policy (some reg₂) r :=
      congrArg some h.restrict_eq
    rw [← serve_visible, hvisible, serve_visible]
  · exact serveApp_denied rt sorts policy registry r hdenied a

end Serve

/-! ## A cluster more or less -/

/-- A cluster with these Kustomizations and nothing else. -/
def clusterOf (ks : List Kustomization) : Clients where
  kustomizations := .ok ks
  helmReleases := .ok []
  gitRepositories := .ok []
  helmRepositories := .ok []
  ociRepositories := .ok []
  buckets := .ok []
  alerts := .ok []
  providers := .ok []
  imagePolicies := .ok []
  imageRepositories := .ok []
  events _ _ := .ok []
  getKustomization ns name :=
    match ks.find? fun k => k.namespace = ns && k.name = name with
    | some k => .ok k
    | none => .error { text := "not found", kind := .notFound }
  getHelmRelease _ _ := .error { text := "not found", kind := .notFound }
  getGitRepository _ _ := .error { text := "not found", kind := .notFound }
  getOCIRepository _ _ := .error { text := "not found", kind := .notFound }
  getBucket _ _ := .error { text := "not found", kind := .notFound }
  getHelmChart _ _ := .error { text := "not found", kind := .notFound }
  getUnstructured _ := .notFound "not found"
  kube := none

/-- A Kustomization that has not been reconciled. -/
def appsKustomization : Kustomization where
  «namespace» := "flux-system"
  name := "apps"
  sourceRef := { kind := "GitRepository", name := "flux-system" }
  unstructured := .ok []

/-- A reachable cluster with this Kustomization. -/
def reachableEntry (name : String) : Entry where
  name := name
  displayName := name
  region := ""
  environment := ""
  fluxNamespace := "flux-system"
  clients := clusterOf [appsKustomization]
  status := { reachable := true, fluxInstalled := true }

/-- The store with the cluster `dev` only. -/
def devStore : Cluster.Store Clients := Cluster.Store.new.set "dev" (reachableEntry "dev")

/-- The store with `prod` besides. -/
def prodStore : Cluster.Store Clients := devStore.set "prod" (reachableEntry "prod")

/-- The policy that lets one user get `dev`. -/
def devPolicy : Policy where
  defaultAction := Auth.actionDeny
  rules := [⟨["user:ada"], ["get"], ["dev"], Auth.actionAllow⟩]

/-- A request of that user. -/
def devRequest : Request := { identity := { subject := "ada" }, http := {} }

/-- The path of the Kustomization on `prod`. -/
def prodPath : AppPath := ⟨"prod", "flux-system", "Kustomization", "apps"⟩

/-- Libraries that know nothing, at the time zero. -/
def idleRuntime : Runtime where
  fetchAndExtract _ _ := .error "no artifact server"
  krusty _ _ := .error "no kustomization"
  loadChart _ _ := .error "no chart"
  toRenderValues _ _ _ _ := .error "no values"
  renderChart _ _ := .error "no templates"
  marshalYAML _ := .ok []
  unmarshalYAML _ := .ok []
  unmarshalJSON _ := .ok []
  quote s := '"'.toUInt8 :: (s ++ ['"'.toUInt8])
  getOpCodes _ _ := []
  now := 0
  toLower := GoString.asciiLower
  getManagedFields _ := []
  storage :=
    { base64 := fun _ => .error "no data"
      gzip := fun _ => .error "no data"
      json := fun _ => .error "no data" }
  newDecoder _ _ := .eof

/-- Sorting key by key. -/
def keySorts : Sorts where
  applications := .lex _
  sources := .lex _
  alerts := .lex _
  updates := .lex _
  events := eventSort
  nodes := .lex _
  drift := driftSort
  rows := rowSort
  pods := .lex _

theorem devStore_agreeOn : Registry.AgreeOn (mayGet idleRuntime devPolicy devRequest)
    prodStore.toRegistry devStore.toRegistry := by
  have hdev : devStore.Keyed := Cluster.Store.keyed_new.set (reachableEntry "dev")
  have hprod : prodStore.Keyed := hdev.set (reachableEntry "prod")
  refine hprod.agreeOn hdev ?_
  have hdenied : mayGet idleRuntime devPolicy devRequest "prod" = false := by decide +kernel
  have hlist : prodStore.toRegistry.list = devStore.toRegistry.list ++ [reachableEntry "prod"] := rfl
  have hprodName : (reachableEntry "prod").name = "prod" := rfl
  rw [hlist, List.filter_append, List.filter_cons_of_neg (by rw [hprodName, hdenied]; simp),
    List.filter_nil, List.append_nil]

/-- Whether `prod` is registered or not makes no difference to a user who may only get `dev`. -/
theorem serve_nonInterference_prod :
    serve idleRuntime keySorts devPolicy (some prodStore.toRegistry) devRequest .applications =
        serve idleRuntime keySorts devPolicy (some devStore.toRegistry) devRequest .applications ∧
      serve idleRuntime keySorts devPolicy (some prodStore.toRegistry) devRequest
          (.app .tree prodPath) = {refused idleRuntime .tree "prod"} ∧
      serve idleRuntime keySorts devPolicy (some devStore.toRegistry) devRequest
          (.app .tree prodPath) = {refused idleRuntime .tree "prod"} := by
  obtain ⟨hsame, hrefused⟩ := serve_nonInterference idleRuntime keySorts devPolicy devRequest
    devStore_agreeOn
  have hdenied : mayGet idleRuntime devPolicy devRequest prodPath.cluster = false := by
    decide +kernel
  exact ⟨hsame .applications, hrefused .tree prodPath hdenied _, hrefused .tree prodPath hdenied _⟩

end Yafu.Api
