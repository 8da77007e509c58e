import Yafu.Render.Diff

/-!
# What the API serves

Reference: `internal/api/types/types.go`, `writeError` from `internal/api/mutations.go`, and
`withRecover` from `internal/server/middleware.go`.

A response holds the value that the handler encodes, not its JSON text. Fields that no handler sets
are left out.
-/

namespace Yafu.Api

namespace Types

/-- `Cluster`. -/
structure Cluster where
  id : GoString
  name : GoString
  region : GoString
  env : GoString
  status : GoString
  apps : ℕ
  ready : ℕ
  failing : ℕ
  suspended : ℕ
  sources : ℕ
  version : GoString
  reachable : Bool
  fluxInstalled : Bool
  lastError : GoString
deriving DecidableEq, Repr

/-- `Application`. -/
structure Application where
  id : GoString
  name : GoString
  kind : GoString
  ns : GoString
  cluster : GoString
  clusterId : GoString
  status : GoString
  sync : GoString
  source : GoString
  revision : GoString
  age : GoString
  message : GoString
  suspended : Bool
deriving DecidableEq, Repr

/-- `ClusterError`. -/
structure ClusterError where
  cluster : GoString
  error : GoString
deriving DecidableEq, Repr

/-- `Source`. -/
structure Source where
  id : GoString
  name : GoString
  kind : GoString
  ns : GoString
  cluster : GoString
  clusterId : GoString
  url : GoString
  ref : GoString
  revision : GoString
  status : GoString
  interval : GoString
  age : GoString
  message : GoString
  suspended : Bool
deriving DecidableEq, Repr

/-- `Alert`. -/
structure Alert where
  id : GoString
  name : GoString
  cluster : GoString
  clusterId : GoString
  ns : GoString
  provider : GoString
  severity : GoString
  target : GoString
  status : GoString
  suspended : Bool
  age : GoString
deriving DecidableEq, Repr

/-- `Event`. -/
structure Event where
  id : GoString
  t : GoString
  cluster : GoString
  clusterId : GoString
  ns : GoString
  kind : GoString
  type : GoString
  reason : GoString
  message : GoString
  object : GoString
  source : GoString
deriving DecidableEq, Repr

/-- `ImageUpdate`. -/
structure ImageUpdate where
  id : GoString
  name : GoString
  cluster : GoString
  clusterId : GoString
  ns : GoString
  image : GoString
  latestTag : GoString
  policy : GoString
  status : GoString
  age : GoString
  message : GoString
  suspended : Bool
deriving DecidableEq, Repr

/-- The responses to a list request have their items and, but for the clusters, the errors of the
clusters that could not be listed. -/
structure Listing (ρ : Type*) where
  items : List ρ
  errors : List ClusterError
deriving DecidableEq, Repr

/-- `AppHistoryEntry`. -/
structure AppHistoryEntry where
  revision : GoString
  status : GoString := []
  action : GoString := []
  appVersion : GoString := []
  timestamp : GoString := []
  current : Bool
deriving DecidableEq, Repr

/-- `AppHistoryResponse`. -/
structure AppHistoryResponse where
  appId : GoString
  entries : List AppHistoryEntry
  note : GoString := []
deriving DecidableEq, Repr

/-- `TreeNode`. -/
structure TreeNode where
  group : GoString
  version : GoString
  kind : GoString
  ns : GoString
  name : GoString
  status : GoString
  message : GoString := []
deriving DecidableEq, Repr

/-- `TreeResponse`. -/
structure TreeResponse where
  appId : GoString
  nodes : List TreeNode
  note : GoString
deriving DecidableEq, Repr

/-- `ManifestResponse`. -/
structure ManifestResponse where
  appId : GoString
  kind : GoString
  yaml : GoString
deriving DecidableEq, Repr

/-- `ManagedField`. -/
structure ManagedField where
  manager : GoString
  operation : GoString
  time : GoString := []
  foreign : Bool
deriving DecidableEq, Repr

/-- `DriftedResource`. -/
structure DriftedResource where
  group : GoString
  version : GoString
  kind : GoString
  ns : GoString
  name : GoString
  status : GoString
  managers : List ManagedField := []
deriving DecidableEq, Repr

/-- `DiffResponse`. -/
structure DiffResponse where
  appId : GoString
  resources : List DriftedResource
  note : GoString
deriving DecidableEq, Repr

/-- `RenderSource`. -/
structure RenderSource where
  name : GoString := []
  «namespace» : GoString := []
  kind : GoString := []
  ref : GoString := []
  revision : GoString := []
  method : GoString := []
deriving DecidableEq, Repr

/-- `RenderResponse`. -/
structure RenderResponse where
  appId : GoString
  source : RenderSource := {}
  renderedAt : GoString
  resources : List Render.RenderResource := []
  error : GoString := []
deriving DecidableEq, Repr

/-- `PodInfo`. -/
structure PodInfo where
  ns : GoString
  name : GoString
  phase : GoString
  containers : List GoString
  restarts : Int32
  age : GoString
deriving DecidableEq, Repr

/-- `LogsResponse`. -/
structure LogsResponse where
  appId : GoString
  pods : List PodInfo := []
  selected : GoString := []
  container : GoString := []
  logs : GoString := []
  truncated : Bool := false
  note : GoString := []
deriving DecidableEq, Repr

/-- What `runMutation` answers in the end. -/
structure Accepted where
  status : GoString := "accepted"
  verb : GoString
  cluster : GoString
  id : GoString
deriving DecidableEq, Repr

end Types

/-- What a handler writes. -/
inductive Body
  | error (msg : GoString)
  | text (msg : GoString)
  | clusters (r : List Types.Cluster)
  | applications (r : Types.Listing Types.Application)
  | sources (r : Types.Listing Types.Source)
  | alerts (r : Types.Listing Types.Alert)
  | events (r : Types.Listing Types.Event)
  | updates (r : Types.Listing Types.ImageUpdate)
  | history (r : Types.AppHistoryResponse)
  | tree (r : Types.TreeResponse)
  | manifest (r : Types.ManifestResponse)
  | diff (r : Types.DiffResponse)
  | render (r : Types.RenderResponse)
  | logs (r : Types.LogsResponse)
  | stream (written : GoString)
  | accepted (r : Types.Accepted)

/-- The headers that a handler sets. -/
abbrev Headers := List (GoString × GoString)

/-- The header of every handler but `logsStream`. -/
def jsonHeaders : Headers := [("Content-Type", "application/json")]

/-- What a handler answers. -/
structure Response where
  status : ℕ := 200
  headers : Headers := jsonHeaders
  body : Body

/-- `writeError`, after these headers. -/
def writeError (headers : Headers) (code : ℕ) (msg : GoString) : Response :=
  ⟨code, headers, .error msg⟩

theorem le_status_writeError {headers : Headers} {code : ℕ} {msg : GoString} (h : 400 ≤ code) :
    400 ≤ (writeError headers code msg).status := h

/-- What `withRecover` answers for a handler that panics. -/
def panicked : Response where
  status := 500
  headers := [("Content-Type", "text/plain; charset=utf-8"), ("X-Content-Type-Options", "nosniff")]
  body := .text "internal server error\n"

def statusAccepted : ℕ := 202
def statusForbidden : ℕ := 403
def statusNotFound : ℕ := 404
def statusConflict : ℕ := 409
def statusServiceUnavailable : ℕ := 503

end Yafu.Api
