import Yafu.Api.Applications
import Mathlib.Data.List.Infix

/-!
# The list of events

Reference: `internal/api/events.go`.

Each cluster contributes its newest events of Flux objects, up to a limit; the newest of all of
these are served, up to four times that limit.
-/

namespace Yafu.Api

open Yafu.Auth (Policy)
open Yafu.Cluster (Time Registry)

/-- `maxEventsPerCluster`. -/
def maxEventsPerCluster : ℕ := 200

/-- `eventFilter`. -/
structure EventFilter where
  cluster : GoString
  ns : GoString
  kind : GoString
  name : GoString
deriving DecidableEq, Repr

/-- `eventFilter.matchesObject`. -/
def EventFilter.matchesObject (f : EventFilter) (ev : Event) : Bool :=
  (f.ns = [] || ev.involvedObject.namespace = f.ns) &&
    (f.kind = [] || ev.involvedObject.kind = f.kind) &&
    (f.name = [] || ev.involvedObject.name = f.name)

/-- `isFluxEvent`. -/
def isFluxEvent (ev : Event) : Bool :=
  ("fluxcd.io" : GoString) <:+: ev.involvedObject.apiVersion

/-- `eventTimestamp`. -/
def eventTimestamp (ev : Event) : Time :=
  if ev.lastTimestamp ≠ 0 then ev.lastTimestamp
  else if ev.eventTime ≠ 0 then ev.eventTime
  else ev.creationTimestamp

/-- `eventToDTO`. -/
def eventToDTO (e : Entry) (ev : Event) : Types.Event where
  id := ev.namespace ++ ("/" : GoString) ++ ev.name
  t := Clock.rfc3339 (eventTimestamp ev)
  cluster := e.displayName
  clusterId := e.name
  ns := ev.namespace
  kind := if ev.type = "Warning" then "err" else "ok"
  type := ev.type
  reason := ev.reason
  message := ev.message
  object := ev.involvedObject.kind ++ ("/" : GoString) ++ ev.involvedObject.name
  source := ev.component

/-- The order of the events: newest first. -/
def eventLess (a b : Types.Event) : Bool := b.t < a.t

/-- Sorting by the time, backwards. -/
def eventSort : SortSlice eventLess :=
  .byKey (fun e => OrderDual.toDual e.t) fun a b => by
    simp only [eventLess, OrderDual.toDual_lt_toDual]

/-- `listEventsForCluster`. -/
def listEventsForCluster (sort : SortSlice eventLess) (filter : EventFilter) (e : Entry) :
    Except GoString (List Types.Event) :=
  if !e.status.reachable then .error "cluster unreachable"
  else
    match e.clients.events (maxEventsPerCluster * 5) filter.ns with
    | .error err => .error (("list events: " : GoString) ++ err.text)
    | .ok items =>
      let out := (items.filter fun ev => isFluxEvent ev && filter.matchesObject ev).map (eventToDTO e)
      .ok ((sort.sort out).take maxEventsPerCluster)

/-- `eventsHandler.list`. -/
def listEvents (rt : Runtime) (policy : Policy) (registry : Option (Registry Clients))
    (r : Request) (sort : SortSlice eventLess) : Set (Types.Listing Types.Event) :=
  let filter : EventFilter :=
    ⟨r.http.query "cluster", r.http.query "ns", r.http.query "kind", r.http.query "name"⟩
  listing rt policy registry r (listEventsForCluster sort filter)
    (fun events => (sort.sort events).take (maxEventsPerCluster * 4)) filter.cluster

end Yafu.Api
