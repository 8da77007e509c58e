import Yafu.Api.Handler

/-!
# The list of clusters

Reference: `internal/api/clusters.go`.
-/

namespace Yafu.Api

open Yafu.Auth (Policy)
open Yafu.Cluster (Registry)

/-- `clusterHealthStatus`. -/
def clusterHealthStatus (s : Cluster.Status) : GoString :=
  if !s.reachable then "unreachable"
  else if !s.fluxInstalled then "degraded"
  else if 0 < s.summary.failing then "failing"
  else if 0 < s.summary.suspended ∧ s.summary.failing = 0 then "healthy"
  else "healthy"

/-- `toClusterDTO`. -/
def toClusterDTO (e : Entry) : Types.Cluster where
  id := e.name
  name := e.displayName
  region := e.region
  env := e.environment
  status := clusterHealthStatus e.status
  apps := e.status.summary.apps
  ready := e.status.summary.ready
  failing := e.status.summary.failing
  suspended := e.status.summary.suspended
  sources := e.status.summary.sources
  version := e.status.fluxVersion
  reachable := e.status.reachable
  fluxInstalled := e.status.fluxInstalled
  lastError := e.status.lastError

section List

variable (rt : Runtime) (policy : Policy) (registry : Option (Registry Clients)) (r : Request)

/-- `clustersHandler.list`. -/
def listClusters : List Types.Cluster :=
  match registry with
  | none => []
  | some reg => (reg.list.filter fun e => mayGet rt policy r e.name).map toClusterDTO

theorem listClusters_visible :
    listClusters rt policy (visible rt policy registry r) r = listClusters rt policy registry r := by
  cases registry with
  | none => rfl
  | some reg =>
    simp only [listClusters, Option.map_some, Registry.restrict, List.filter_filter, Bool.and_self]

end List

end Yafu.Api
