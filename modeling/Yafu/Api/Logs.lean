import Yafu.Api.Tree
import Mathlib.Data.List.Infix

/-!
# The logs of an application

Reference: `logs` and its helpers in `internal/api/logs.go`.

The pods of an application are found by the names of the workloads in its inventory; the logs are
those of one of them.
-/

namespace Yafu.Api

open Yafu.Auth (Policy)
open Yafu.Cluster (Time Registry)

/-- `defaultLogTail`. -/
def defaultLogTail : ℤ := 200

/-- `maxLogTail`. -/
def maxLogTail : ℤ := 1000

/-- `maxLogBytes`. -/
def maxLogBytes : ℕ := 256 * 1024

/-! ## Pods -/

/-- `uniqueInventoryNamespaces`, with `sort.Strings`. -/
def uniqueInventoryNamespaces (refs : List InventoryRef) : List GoString :=
  ((refs.map (·.ns)).filter (· ≠ [])).dedup.mergeSort

/-- The kinds whose pods are looked for. -/
def workloadKinds : List GoString :=
  ["Deployment", "StatefulSet", "DaemonSet", "ReplicaSet", "Job", "CronJob", "Pod"]

/-- `podMatchesInventory`. -/
def podMatchesInventory (p : Pod) (ns : GoString) (entries : List InventoryRef) : Bool :=
  if entries = [] then true
  else
    entries.any fun ref =>
      ref.ns = ns && workloadKinds.contains ref.kind &&
        (p.name = ref.name || ref.name ++ ("-" : GoString) <+: p.name)

/-- `humanizeAgeFrom`; see `humanizeAge`. -/
def humanizeAgeFrom (start now : Time) : GoString :=
  let d := Clock.sub now start
  if d < Clock.minute then Clock.signed (d.tdiv Clock.second) ++ ("s" : GoString)
  else if d < Clock.hour then Clock.signed (d.tdiv Clock.minute) ++ ("m" : GoString)
  else if d < 24 * Clock.hour then Clock.signed (d.tdiv Clock.hour) ++ ("h" : GoString)
  else Clock.signed ((d.tdiv Clock.hour).tdiv 24) ++ ("d" : GoString)

/-- `podToInfo`. -/
def podToInfo (p : Pod) (now : Time) : Types.PodInfo where
  ns := p.namespace
  name := p.name
  phase := p.phase
  containers := p.containers
  restarts := p.restartCounts.foldl (· + ·) 0
  age := if p.creationTimestamp = 0 then [] else humanizeAgeFrom p.creationTimestamp now

/-- The order of the pods: by namespace and name. -/
def podLess : Types.PodInfo → Types.PodInfo → Bool :=
  lexLess [(·.ns), (·.name)]

/-- The loop of `listPodsForApp`. -/
def podsIn (now : Time) (kube : Kube) (entries : List InventoryRef) :
    List GoString → Except GoString (List Types.PodInfo)
  | [] => .ok []
  | ns :: namespaces =>
    match kube.listPods ns with
    | .error err => .error (("list pods in " : GoString) ++ ns ++ (": " : GoString) ++ err)
    | .ok items =>
      (podsIn now kube entries namespaces).map fun out =>
        (items.filter fun p => podMatchesInventory p ns entries).map (podToInfo · now) ++ out

/-- `listPodsForApp`. -/
def listPodsForApp (now : Time) (sort : SortSlice podLess) (kube : Kube)
    (namespaces : List GoString) (entries : List InventoryRef) :
    Except GoString (List Types.PodInfo) :=
  (podsIn now kube entries namespaces).map sort.sort

section List

variable {now : Time} {kube : Kube} {entries : List InventoryRef}

/-- The loop comes to its end exactly if the pods of every namespace can be listed. -/
theorem exists_podsIn_iff {namespaces : List GoString} :
    (∃ out, podsIn now kube entries namespaces = .ok out) ↔
      ∀ ns ∈ namespaces, ∃ items, kube.listPods ns = .ok items := by
  induction namespaces with
  | nil => simp [podsIn]
  | cons ns namespaces ih =>
    rw [List.forall_mem_cons, ← ih, podsIn]
    cases kube.listPods ns with
    | error err => simp
    | ok items => cases podsIn now kube entries namespaces <;> simp [Except.map]

/-- The pods that match, of one namespace after the other. -/
theorem mem_podsIn {namespaces : List GoString} {out : List Types.PodInfo} {row : Types.PodInfo}
    (h : podsIn now kube entries namespaces = .ok out) :
    row ∈ out ↔ ∃ ns ∈ namespaces, ∃ items, kube.listPods ns = .ok items ∧
      ∃ p ∈ items, podMatchesInventory p ns entries ∧ podToInfo p now = row := by
  induction namespaces generalizing out with
  | nil =>
    cases h
    simp
  | cons ns namespaces ih =>
    rw [podsIn] at h
    cases hlist : kube.listPods ns with
    | error err => simp [hlist] at h
    | ok items =>
      cases hrest : podsIn now kube entries namespaces with
      | error err => simp [hlist, hrest, Except.map] at h
      | ok rest =>
        rw [hlist, hrest] at h
        cases h
        simp only [List.mem_append, ih hrest, List.exists_mem_cons_iff, hlist, Except.ok.injEq,
          exists_eq_left', List.mem_map, List.mem_filter, and_assoc]

theorem exists_listPodsForApp_iff {sort : SortSlice podLess} {namespaces : List GoString} :
    (∃ rows, listPodsForApp now sort kube namespaces entries = .ok rows) ↔
      ∀ ns ∈ namespaces, ∃ items, kube.listPods ns = .ok items := by
  have hloop : (∃ out, podsIn now kube entries namespaces = .ok out) ↔
      ∀ ns ∈ namespaces, ∃ items, kube.listPods ns = .ok items := exists_podsIn_iff
  rw [← hloop, listPodsForApp]
  cases podsIn now kube entries namespaces <;> simp [Except.map]

theorem mem_listPodsForApp {sort : SortSlice podLess} {namespaces : List GoString}
    {rows : List Types.PodInfo} {row : Types.PodInfo}
    (h : listPodsForApp now sort kube namespaces entries = .ok rows) :
    row ∈ rows ↔ ∃ ns ∈ namespaces, ∃ items, kube.listPods ns = .ok items ∧
      ∃ p ∈ items, podMatchesInventory p ns entries ∧ podToInfo p now = row := by
  rw [listPodsForApp] at h
  cases hout : podsIn now kube entries namespaces with
  | error err => simp [hout, Except.map] at h
  | ok out =>
    rw [hout] at h
    cases h
    rw [sort.mem_sort, mem_podsIn hout]

end List

/-- `pickPod`. -/
def pickPod (pods : List Types.PodInfo) (want : GoString) : Option Types.PodInfo :=
  if want ≠ [] then
    pods.find? fun p => want = p.ns ++ ("/" : GoString) ++ p.name || want = p.name
  else
    match pods.find? fun p => p.phase = ("Running" : GoString) with
    | some p => some p
    | none => pods.head?

/-! ## Logs -/

/-- `parseTail`. -/
def parseTail (s : GoString) : ℤ :=
  match GoString.atoi s with
  | none => defaultLogTail
  | some n => if n ≤ 0 then defaultLogTail else if maxLogTail < n then maxLogTail else n

/-- `fetchPodLogs`: the logs, and whether they were cut. A stream is read up to one byte more than
is kept, so an error behind that is not seen. -/
def fetchPodLogs (kube : Kube) (ns name container : GoString) (tail : ℤ) :
    Except GoString (GoString × Bool) :=
  match kube.getLogs ns name container tail with
  | .error err => .error err
  | .ok stream =>
    if maxLogBytes < stream.data.length then .ok (stream.data.take maxLogBytes, true)
    else
      match stream.err with
      | some err => .error err
      | none => .ok (stream.data, false)

/-- `logs` from the list of pods on. -/
def logsOfPods (kube : Kube) (r : Request) (resp : Types.LogsResponse) : Types.LogsResponse :=
  match pickPod resp.pods (r.http.query "pod") with
  | none => resp
  | some selected =>
    let container :=
      if r.http.query "container" = [] then selected.containers.headD [] else r.http.query "container"
    let resp :=
      { resp with selected := selected.ns ++ ("/" : GoString) ++ selected.name, container }
    match fetchPodLogs kube selected.ns selected.name container (parseTail (r.http.query "tail")) with
    | .error err =>
      { resp with
        logs := ("# could not stream logs: " : GoString) ++ err ++ ("\n" : GoString) }
    | .ok (logs, truncated) => { resp with logs, truncated }

/-- `logs` from the inventory on. -/
def logsOfInventory (rt : Runtime) (sort : SortSlice podLess) (r : Request) (p : AppPath) (kube : Kube)
    (entries : List InventoryRef) : Response :=
  let namespaces := uniqueInventoryNamespaces entries
  let note : GoString :=
    if namespaces = [] then
      "Inventory unavailable; listing pods in the application's own namespace as a fallback."
    else []
  match listPodsForApp rt.now sort kube (if namespaces = [] then [p.ns] else namespaces) entries with
  | .error err => writeError jsonHeaders Http.statusInternalServerError err
  | .ok pods => { body := .logs (logsOfPods kube r { appId := p.id, pods, note }) }

/-- `logs` behind the checks. -/
def logsOf (rt : Runtime) (sort : SortSlice podLess) (r : Request) (p : AppPath) (e : Entry)
    (fuel : ℕ) : Option Response :=
  match e.clients.kube with
  | none =>
    some (writeError jsonHeaders statusServiceUnavailable
      "kubernetes clientset unavailable on this cluster")
  | some kube =>
    match getApp rt e.clients p.ns p.kind p.name with
    | .error err => some (getAppFailed err)
    | .ok obj =>
      (inventoryEntriesOf rt fuel (some kube) obj).map fun (entries, _) =>
        logsOfInventory rt sort r p kube entries

/-- `applicationsHandler.logs`. -/
def logs (rt : Runtime) (policy : Policy) (registry : Option (Registry Clients)) (r : Request)
    (sort : SortSlice podLess) (p : AppPath) : Set Response :=
  withEntry rt policy registry r jsonHeaders p.cluster fun e => eventually (logsOf rt sort r p e)

end Yafu.Api
