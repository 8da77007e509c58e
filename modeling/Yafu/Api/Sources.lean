import Yafu.Api.Applications

/-!
# The list of sources

Reference: `internal/api/sources.go`.
-/

namespace Yafu.Api

open Yafu.Auth (Policy)
open Yafu.Cluster (Time Registry)

/-- `sourceID`. -/
def sourceID (cluster ns kind name : GoString) : GoString :=
  cluster ++ ("/" : GoString) ++ ns ++ ("/" : GoString) ++ kind ++ ("/" : GoString) ++ name

/-- `sourceStatus`. -/
def sourceStatus (conds : List Condition) : GoString :=
  match findCondition conds "Ready" with
  | none => "progressing"
  | some ready => if ready.status = conditionTrue then "healthy" else "failing"

/-- `sourceMessage`. -/
def sourceMessage (conds : List Condition) : GoString :=
  match findCondition conds "Ready" with
  | none => []
  | some c => c.message

/-- `gitRepoRef`. -/
def gitRepoRef : Option GitRepositoryRef → GoString
  | none => []
  | some ref =>
    if ref.commit ≠ [] then ("commit:" : GoString) ++ shortRevision ref.commit
    else if ref.semVer ≠ [] then ("semver:" : GoString) ++ ref.semVer
    else if ref.tag ≠ [] then ("tag:" : GoString) ++ ref.tag
    else if ref.name ≠ [] then ref.name
    else if ref.branch ≠ [] then ("branch:" : GoString) ++ ref.branch
    else []

/-- `ociRepoRef`. -/
def ociRepoRef : Option OCIRepositoryRef → GoString
  | none => []
  | some ref =>
    if ref.digest ≠ [] then ("digest:" : GoString) ++ shortRevision ref.digest
    else if ref.semVer ≠ [] then ("semver:" : GoString) ++ ref.semVer
    else if ref.tag ≠ [] then ("tag:" : GoString) ++ ref.tag
    else []

/-! ## Rows -/

/-- The row of a source, from what the four builders do alike and the kind, the URL and the
reference in which they differ. -/
def sourceRow (now : Time) (e : Entry) (s : SourceObject) (kind url ref : GoString) :
    Types.Source where
  id := sourceID e.name s.namespace kind s.name
  name := s.name
  kind
  ns := s.namespace
  cluster := e.displayName
  clusterId := e.name
  url
  ref
  revision := match s.artifact with
    | none => []
    | some artifact => shortRevision artifact.revision
  status := if s.suspend then "paused" else sourceStatus s.conditions
  interval := s.interval.text
  age := humanizeAge now (lastReconcileTime s.conditions)
  message := sourceMessage s.conditions
  suspended := s.suspend

/-- `gitRepoToSource`. -/
def gitRepoToSource (now : Time) (e : Entry) (g : GitRepository) : Types.Source :=
  sourceRow now e g.toSourceObject "GitRepository" g.url (gitRepoRef g.reference)

/-- `helmRepoToSource`. -/
def helmRepoToSource (now : Time) (e : Entry) (h : HelmRepository) : Types.Source :=
  sourceRow now e h.toSourceObject "HelmRepository" h.url "—"

/-- `ociRepoToSource`. -/
def ociRepoToSource (now : Time) (e : Entry) (o : OCIRepository) : Types.Source :=
  sourceRow now e o.toSourceObject "OCIRepository" o.url (ociRepoRef o.reference)

/-- `bucketToSource`. -/
def bucketToSource (now : Time) (e : Entry) (b : Bucket) : Types.Source :=
  sourceRow now e b.toSourceObject "Bucket" (b.endpoint ++ ("/" : GoString) ++ b.bucketName) "—"

/-! ## The list -/

/-- `listSourcesForCluster`. -/
def listSourcesForCluster (now : Time) (e : Entry) : Except GoString (List Types.Source) :=
  checkFlux e <| .ok <|
    (bestEffort e.clients.gitRepositories).map (gitRepoToSource now e) ++
      (bestEffort e.clients.helmRepositories).map (helmRepoToSource now e) ++
      (bestEffort e.clients.ociRepositories).map (ociRepoToSource now e) ++
      (bestEffort e.clients.buckets).map (bucketToSource now e)

/-- The order of the rows: by display name of the cluster, namespace, kind and name. -/
def sourceLess : Types.Source → Types.Source → Bool :=
  lexLess [(·.cluster), (·.ns), (·.kind), (·.name)]

/-- `sourcesHandler.list`. -/
def listSources (rt : Runtime) (policy : Policy) (registry : Option (Registry Clients))
    (r : Request) (sort : SortSlice sourceLess) : Set (Types.Listing Types.Source) :=
  listing rt policy registry r (listSourcesForCluster rt.now) sort.sort (r.http.query "cluster")

end Yafu.Api
