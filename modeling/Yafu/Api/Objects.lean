import Yafu.Api.HelmInventory
import Yafu.Api.Inventory
import Yafu.Cluster.View
import Yafu.Lib.Clock

/-!
# What a cluster answers

The objects of Flux and Kubernetes with the fields that the handlers read, and the calls that they
make on an entry's clients. A cluster is its answers while one request is served; an error that
comes from a timeout is one of them.
-/

namespace Yafu.Api

open Clock (Duration)
open Yafu.Cluster (Time)
open Yafu.Render

/-! ## Errors -/

/-- What the predicates of `apierrors`, `meta` and `runtime` recognise in an error. -/
inductive ErrorKind
  | notFound
  | forbidden
  | conflict
  | noMatch
  | notRegistered
  | other
deriving DecidableEq, Repr

/-- An error of a client. -/
structure ApiError where
  text : GoString
  kind : ErrorKind := .other
deriving DecidableEq, Repr

/-! ## Objects -/

/-- `ObjectMeta`; a time is zero where there is none. -/
structure ObjectMeta where
  «namespace» : GoString
  name : GoString
  creationTimestamp : Time := 0
deriving DecidableEq, Repr

/-- `metav1.Condition`. -/
structure Condition where
  type : GoString
  status : GoString
  message : GoString := []
  lastTransitionTime : Time := 0
deriving DecidableEq, Repr

/-- A reference to another object. -/
structure ObjectRef where
  kind : GoString := []
  «namespace» : GoString := []
  name : GoString
deriving DecidableEq, Repr

/-- `Kustomization`. The field `unstructured` is what `ToUnstructured` makes of the whole object. -/
structure Kustomization extends ObjectMeta where
  suspend : Bool := false
  sourceRef : ObjectRef
  path : GoString := []
  targetNamespace : GoString := []
  conditions : List Condition := []
  lastAppliedRevision : GoString := []
  inventory : Option (List ResourceRef) := none
  unstructured : Except GoString Object

/-- `HelmRelease`; `chart` is the reference to the source of the chart in `spec.chart`, and `values`
the text of `spec.values`. The field `unstructured` is as in a `Kustomization`. -/
structure HelmRelease extends ObjectMeta where
  suspend : Bool := false
  chartRef : Option ObjectRef := none
  chart : Option ObjectRef := none
  releaseName : GoString := []
  targetNamespace : GoString := []
  storageNamespace : GoString := []
  values : Option GoString := none
  conditions : List Condition := []
  lastAttemptedRevision : GoString := []
  helmChart : GoString := []
  history : List (Option Snapshot) := []
  unstructured : Except GoString Object

/-- `HelmRelease.GetReleaseName`. -/
def HelmRelease.getReleaseName (hr : HelmRelease) : GoString :=
  if hr.releaseName ≠ [] then hr.releaseName
  else if hr.targetNamespace ≠ [] then hr.targetNamespace ++ ("-" : GoString) ++ hr.name
  else hr.name

/-- `HelmRelease.GetReleaseNamespace`. -/
def HelmRelease.getReleaseNamespace (hr : HelmRelease) : GoString :=
  if hr.targetNamespace ≠ [] then hr.targetNamespace else hr.namespace

/-- What `getApp` returns. -/
inductive App
  | kustomization (k : Kustomization)
  | helmRelease (hr : HelmRelease)

/-- `Artifact` of a source. -/
structure Artifact where
  url : GoString
  digest : GoString
  revision : GoString
deriving DecidableEq, Repr

/-- What the sources have in common. -/
structure SourceObject extends ObjectMeta where
  suspend : Bool := false
  interval : Duration := 0
  conditions : List Condition := []
  artifact : Option Artifact := none
deriving DecidableEq, Repr

/-- `GitRepositoryRef`. -/
structure GitRepositoryRef where
  branch : GoString := []
  tag : GoString := []
  semVer : GoString := []
  name : GoString := []
  commit : GoString := []
deriving DecidableEq, Repr

/-- `GitRepository`. -/
structure GitRepository extends SourceObject where
  url : GoString
  reference : Option GitRepositoryRef := none
deriving DecidableEq, Repr

/-- `HelmRepository`. -/
structure HelmRepository extends SourceObject where
  url : GoString
deriving DecidableEq, Repr

/-- `OCIRepositoryRef`. -/
structure OCIRepositoryRef where
  digest : GoString := []
  semVer : GoString := []
  tag : GoString := []
deriving DecidableEq, Repr

/-- `OCIRepository`. -/
structure OCIRepository extends SourceObject where
  url : GoString
  reference : Option OCIRepositoryRef := none
deriving DecidableEq, Repr

/-- `Bucket`. -/
structure Bucket extends SourceObject where
  endpoint : GoString
  bucketName : GoString
deriving DecidableEq, Repr

/-- `HelmChart`. -/
structure HelmChart extends ObjectMeta where
  sourceRef : ObjectRef
  version : GoString := []
  artifact : Option Artifact := none
deriving DecidableEq, Repr

/-- `Alert`. -/
structure Alert extends ObjectMeta where
  suspend : Bool := false
  providerRef : GoString
  eventSeverity : GoString := []
deriving DecidableEq, Repr

/-- `Provider`. -/
structure Provider extends ObjectMeta where
  type : GoString
  channel : GoString := []
  address : GoString := []
deriving DecidableEq, Repr

/-- `ImagePolicyChoice`: the range of `semver`, and whether the other two are there. -/
structure ImagePolicyChoice where
  semVer : Option GoString := none
  alphabetical : Bool := false
  numerical : Bool := false
deriving DecidableEq, Repr

/-- `ImagePolicy`; `latestRef` is the tag of it. -/
structure ImagePolicy extends ObjectMeta where
  suspend : Bool := false
  imageRepositoryRef : ObjectRef
  policy : ImagePolicyChoice
  conditions : List Condition := []
  latestRef : Option GoString := none
deriving DecidableEq, Repr

/-- `ImageRepository`. -/
structure ImageRepository extends ObjectMeta where
  image : GoString
deriving DecidableEq, Repr

/-- `ObjectReference` of an event. -/
structure InvolvedObject where
  apiVersion : GoString := []
  kind : GoString := []
  «namespace» : GoString := []
  name : GoString := []
deriving DecidableEq, Repr

/-- `corev1.Event`. -/
structure Event extends ObjectMeta where
  involvedObject : InvolvedObject
  type : GoString := []
  reason : GoString := []
  message : GoString := []
  component : GoString := []
  lastTimestamp : Time := 0
  eventTime : Time := 0
deriving DecidableEq, Repr

/-- `corev1.Pod`, with the names of its containers and the restarts of each. -/
structure Pod extends ObjectMeta where
  containers : List GoString := []
  restartCounts : List Int32 := []
  phase : GoString := []
deriving DecidableEq, Repr

/-! ## Clients -/

/-- What a log stream that is not followed holds, and the error after it if it does not end well. -/
structure LogRead where
  data : GoString
  err : Option GoString := none
deriving DecidableEq, Repr

/-- How a followed log stream goes on after the lines that were scanned: not at all while the client
is connected, with its end, or with an error of the scanner. -/
inductive ScanEnd
  | open
  | eof
  | failed (err : GoString)
deriving DecidableEq, Repr

/-- What the scanner makes of a followed log stream. -/
structure LogFollow where
  lines : List GoString
  fin : ScanEnd
deriving DecidableEq, Repr

/-- `kubernetes.Interface`, as far as it is used. -/
structure Kube where
  getSecret : GoString → GoString → SecretAnswer
  listPods : GoString → Except GoString (List Pod)
  /-- The logs of a pod, by namespace, name, container and tail. -/
  getLogs : GoString → GoString → GoString → ℤ → Except GoString LogRead
  followLogs : GoString → GoString → GoString → ℤ → Except GoString LogFollow

/-- The clients of an entry: `List` and `Get` of `client.Client` for each type, and the clientset.
-/
structure Clients where
  kustomizations : Except ApiError (List Kustomization)
  helmReleases : Except ApiError (List HelmRelease)
  gitRepositories : Except ApiError (List GitRepository)
  helmRepositories : Except ApiError (List HelmRepository)
  ociRepositories : Except ApiError (List OCIRepository)
  buckets : Except ApiError (List Bucket)
  alerts : Except ApiError (List Alert)
  providers : Except ApiError (List Provider)
  imagePolicies : Except ApiError (List ImagePolicy)
  imageRepositories : Except ApiError (List ImageRepository)
  /-- The events, by limit and by namespace, which is empty for all. -/
  events : ℕ → GoString → Except ApiError (List Event)
  getKustomization : GoString → GoString → Except ApiError Kustomization
  getHelmRelease : GoString → GoString → Except ApiError HelmRelease
  getGitRepository : GoString → GoString → Except ApiError GitRepository
  getOCIRepository : GoString → GoString → Except ApiError OCIRepository
  getBucket : GoString → GoString → Except ApiError Bucket
  getHelmChart : GoString → GoString → Except ApiError HelmChart
  getUnstructured : ResourceKey → Live
  kube : Option Kube

/-- A registered cluster. -/
abbrev Entry := Cluster.Entry Clients

end Yafu.Api
