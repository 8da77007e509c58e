import Yafu.Api.Sources

/-!
# The list of alerts

Reference: `internal/api/alerts.go`.

An alert is shown with the provider it names, if the providers can be listed and it is among them.
-/

namespace Yafu.Api

open Yafu.Auth (Policy)
open Yafu.Cluster (Time Registry)

/-- A lookup in an index that a handler makes of a list by namespace and name: the last object under
a key counts. -/
def indexed {α : Type} (objectMeta : α → ObjectMeta) (items : List α) (key : GoString) : Option α :=
  items.reverse.find? fun a =>
    (objectMeta a).namespace ++ ("/" : GoString) ++ (objectMeta a).name = key

/-- `alertToDTO`. -/
def alertToDTO (now : Time) (e : Entry) (a : Alert) (p : Option Provider) : Types.Alert where
  id := sourceID e.name a.namespace "Alert" a.name
  name := a.name
  cluster := e.displayName
  clusterId := e.name
  ns := a.namespace
  provider := match p with
    | none => "missing"
    | some p => p.type
  severity := if a.eventSeverity = [] then "info" else a.eventSeverity
  target := match p with
    | none => []
    | some p => if p.channel ≠ [] then p.channel else p.address
  status := if a.suspend then "paused" else "healthy"
  suspended := a.suspend
  age := humanizeAge now a.creationTimestamp

/-- `listAlertsForCluster`. -/
def listAlertsForCluster (now : Time) (e : Entry) : Except GoString (List Types.Alert) :=
  checkFlux e <|
    match e.clients.alerts with
    | .error err => .error (("list Alerts: " : GoString) ++ err.text)
    | .ok alerts =>
      .ok <| alerts.map fun a =>
        alertToDTO now e a
          (indexed Provider.toObjectMeta (bestEffort e.clients.providers)
            (a.namespace ++ ("/" : GoString) ++ a.providerRef))

/-- The order of the rows: by display name of the cluster, namespace and name. -/
def alertLess : Types.Alert → Types.Alert → Bool :=
  lexLess [(·.cluster), (·.ns), (·.name)]

/-- `alertsHandler.list`. -/
def listAlerts (rt : Runtime) (policy : Policy) (registry : Option (Registry Clients))
    (r : Request) (sort : SortSlice alertLess) : Set (Types.Listing Types.Alert) :=
  listing rt policy registry r (listAlertsForCluster rt.now) sort.sort (r.http.query "cluster")

end Yafu.Api
