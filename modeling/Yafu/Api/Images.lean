import Yafu.Api.Alerts

/-!
# The list of image updates

Reference: `internal/api/images.go`.

A row is an image policy with the repository it names. A cluster without the types of the image
automation has no rows, and that is no error.
-/

namespace Yafu.Api

open Yafu.Auth (Policy)
open Yafu.Cluster (Time Registry)

/-- `policyChoiceLabel`. -/
def policyChoiceLabel (c : ImagePolicyChoice) : GoString :=
  match c.semVer with
  | some range => ("semver:" : GoString) ++ range
  | none => if c.alphabetical then "alphabetical" else if c.numerical then "numerical" else []

/-- `imagePolicyToUpdate`, with the repositories that the index was made of. -/
def imagePolicyToUpdate (now : Time) (e : Entry) (p : ImagePolicy) (repos : List ImageRepository) :
    Types.ImageUpdate where
  id := sourceID e.name p.namespace "ImagePolicy" p.name
  name := p.name
  cluster := e.displayName
  clusterId := e.name
  ns := p.namespace
  image :=
    let repoNS :=
      if p.imageRepositoryRef.namespace = [] then p.namespace else p.imageRepositoryRef.namespace
    match indexed ImageRepository.toObjectMeta repos
      (repoNS ++ ("/" : GoString) ++ p.imageRepositoryRef.name) with
    | none => []
    | some repo => repo.image
  latestTag := p.latestRef.getD []
  policy := policyChoiceLabel p.policy
  status := if p.suspend then "paused" else sourceStatus p.conditions
  age := humanizeAge now (lastReconcileTime p.conditions)
  message := sourceMessage p.conditions
  suspended := p.suspend

/-- `isImageCRDsMissing`. -/
def isImageCRDsMissing (err : ApiError) : Bool :=
  err.kind = .noMatch || err.kind = .notFound || err.kind = .notRegistered

/-- `listImageUpdatesForCluster`. -/
def listImageUpdatesForCluster (now : Time) (e : Entry) : Except GoString (List Types.ImageUpdate) :=
  checkFlux e <|
    match e.clients.imagePolicies with
    | .error err =>
      if isImageCRDsMissing err then .ok []
      else .error (("list ImagePolicies: " : GoString) ++ err.text)
    | .ok policies =>
      .ok <| policies.map fun p =>
        imagePolicyToUpdate now e p (bestEffort e.clients.imageRepositories)

/-- The order of the rows: by display name of the cluster, namespace and name. -/
def imageUpdateLess : Types.ImageUpdate → Types.ImageUpdate → Bool :=
  lexLess [(·.cluster), (·.ns), (·.name)]

/-- `imageUpdatesHandler.list`. -/
def listImageUpdates (rt : Runtime) (policy : Policy) (registry : Option (Registry Clients))
    (r : Request) (sort : SortSlice imageUpdateLess) : Set (Types.Listing Types.ImageUpdate) :=
  listing rt policy registry r (listImageUpdatesForCluster rt.now) sort.sort (r.http.query "cluster")

end Yafu.Api
