import Yafu.Api.Handler

/-!
# The list of applications

Reference: `internal/api/applications.go`.

A row is made of a Kustomization or a HelmRelease. The helpers that the other lists use too
(conditions, revisions, ages) are here, as in the source.
-/

namespace Yafu.Api

open Yafu.Auth (Policy)
open Yafu.Cluster (Time Registry)

/-! ## Conditions -/

/-- `metav1.ConditionTrue`. -/
def conditionTrue : GoString := "True"

/-- `metav1.ConditionFalse`. -/
def conditionFalse : GoString := "False"

/-- `findCondition`. -/
def findCondition (conds : List Condition) (t : GoString) : Option Condition :=
  conds.find? fun c => c.type = t

/-- `lastReconcileTime`. -/
def lastReconcileTime (conds : List Condition) : Time :=
  conds.foldl (fun latest c => max latest c.lastTransitionTime) 0

/-- `deriveAppStatus`: the status, the sync state and the message. -/
def deriveAppStatus (suspended : Bool) (conds : List Condition) : GoString × GoString × GoString :=
  if suspended then ("paused", "Suspended", "Reconciliation suspended")
  else
    match (findCondition conds "Reconciling").filter fun c => c.status = conditionTrue with
    | some reconciling => ("progressing", "Progressing", reconciling.message)
    | none =>
      match findCondition conds "Ready" with
      | none => ("progressing", "Progressing", "no Ready condition reported yet")
      | some ready =>
        if ready.status = conditionTrue then ("healthy", "Synced", ready.message)
        else if ready.status = conditionFalse then ("failing", "OutOfSync", ready.message)
        else ("degraded", "Progressing", ready.message)

/-! ## Revisions and ages -/

/-- What is behind the last `@`, everything if nothing is. -/
def afterLastAt (r : GoString) : GoString :=
  let tail := (r.reverse.takeWhile (· ≠ '@'.toUInt8)).reverse
  if tail = [] then r else tail

/-- `shortRevision`. -/
def shortRevision (r : GoString) : GoString :=
  let r := afterLastAt r
  if 12 < r.length ∧ '.'.toUInt8 ∉ r then r.take 7 else r

/-- `humanizeAge` at the time `now`. A count of seconds, minutes or hours is rounded towards zero;
that it is a `float64` in between is left out. -/
def humanizeAge (now t : Time) : GoString :=
  if t = 0 then "—"
  else
    let d := Clock.sub now t
    if d < Clock.minute then Clock.signed (d.tdiv Clock.second) ++ ("s ago" : GoString)
    else if d < Clock.hour then Clock.signed (d.tdiv Clock.minute) ++ ("m ago" : GoString)
    else if d < 24 * Clock.hour then Clock.signed (d.tdiv Clock.hour) ++ ("h ago" : GoString)
    else Clock.signed ((d.tdiv Clock.hour).tdiv 24) ++ ("d ago" : GoString)

/-! ## Rows -/

/-- `kustomizationToApp`. -/
def kustomizationToApp (now : Time) (e : Entry) (k : Kustomization) : Types.Application :=
  let (status, sync, message) := deriveAppStatus k.suspend k.conditions
  { id := appID e.name k.namespace "Kustomization" k.name
    name := k.name
    kind := "Kustomization"
    ns := k.namespace
    cluster := e.displayName
    clusterId := e.name
    status
    sync
    source :=
      if k.sourceRef.kind = [] then k.sourceRef.name
      else k.sourceRef.kind ++ ("/" : GoString) ++ k.sourceRef.name
    revision := shortRevision k.lastAppliedRevision
    age := humanizeAge now (lastReconcileTime k.conditions)
    message
    suspended := k.suspend }

/-- `helmSource`. -/
def helmSource (h : HelmRelease) : GoString :=
  match h.chartRef, h.chart with
  | some ref, _ => ref.kind ++ ("/" : GoString) ++ ref.name
  | none, some ref => if ref.name = [] then [] else ref.kind ++ ("/" : GoString) ++ ref.name
  | none, none => []

/-- `helmReleaseToApp`. -/
def helmReleaseToApp (now : Time) (e : Entry) (h : HelmRelease) : Types.Application :=
  let (status, sync, message) := deriveAppStatus h.suspend h.conditions
  { id := appID e.name h.namespace "HelmRelease" h.name
    name := h.name
    kind := "HelmRelease"
    ns := h.namespace
    cluster := e.displayName
    clusterId := e.name
    status
    sync
    source := helmSource h
    revision := h.lastAttemptedRevision
    age := humanizeAge now (lastReconcileTime h.conditions)
    message
    suspended := h.suspend }

/-! ## The list -/

/-- The items of a list whose error is dropped. -/
def bestEffort {α : Type} (answer : Except ApiError (List α)) : List α :=
  match answer with
  | .error _ => []
  | .ok items => items

/-- The checks of the status that every list but that of the events starts with. -/
def checkFlux {ρ : Type} (e : Entry) (rows : Except GoString (List ρ)) : Except GoString (List ρ) :=
  if !e.status.reachable then .error "cluster unreachable"
  else if !e.status.fluxInstalled then .error "flux not installed"
  else rows

/-- `listApplicationsForCluster`. -/
def listApplicationsForCluster (now : Time) (e : Entry) : Except GoString (List Types.Application) :=
  checkFlux e <|
    match e.clients.kustomizations with
    | .error err => .error (("list Kustomizations: " : GoString) ++ err.text)
    | .ok ks =>
      .ok (ks.map (kustomizationToApp now e) ++
        (bestEffort e.clients.helmReleases).map (helmReleaseToApp now e))

/-- The order of the rows: by display name of the cluster, namespace and name. -/
def applicationLess : Types.Application → Types.Application → Bool :=
  lexLess [(·.cluster), (·.ns), (·.name)]

/-- `applicationsHandler.list`. -/
def listApplications (rt : Runtime) (policy : Policy) (registry : Option (Registry Clients))
    (r : Request) (sort : SortSlice applicationLess) : Set (Types.Listing Types.Application) :=
  listing rt policy registry r (listApplicationsForCluster rt.now) sort.sort (r.http.query "cluster")

end Yafu.Api
