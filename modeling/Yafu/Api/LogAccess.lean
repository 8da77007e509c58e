import Yafu.Api.NonInterference
import Yafu.Api.PodAttribution

/-!
# Whose logs are streamed

Reference: `logs` and `logsStream` in `internal/api/logs.go`.

Both are asked under the path of an application. `logs` looks the application up and lists the pods of
its inventory, from which the user picks one; `logsStream` takes the pod from the query as it is, and
of the path it reads the cluster only.
-/

namespace Yafu.Api

open Yafu.Auth (Policy)
open Yafu.Cluster (Registry)

/-- The pod is in one of the namespaces that are looked in, and matches. -/
structure Candidate (kube : Kube) (entries : List InventoryRef) (appNs ns name : GoString) : Prop where
  listed : ∀ n ∈ podNamespaces entries appNs, ∃ pods, kube.listPods n = .ok pods
  found : ∃ n ∈ podNamespaces entries appNs, ∃ pods, kube.listPods n = .ok pods ∧
    ∃ pod ∈ pods, podMatchesInventory pod n entries ∧ pod.namespace = ns ∧ pod.name = name

/-- The application exists, its inventory can be read, and the pod is found by it. -/
def OfApplication (rt : Runtime) (e : Entry) (kube : Kube) (p : AppPath) (ns name : GoString) : Prop :=
  ∃ app, getApp rt e.clients p.ns p.kind p.name = .ok app ∧
    ∃ read ∈ eventually fun fuel => inventoryEntriesOf rt fuel (some kube) app,
      Candidate kube read.1 p.ns ns name

section Access

variable (rt : Runtime) (policy : Policy) (registry : Option (Registry Clients)) (r : Request)
  (sort : SortSlice podLess) (p : AppPath)

/-- `logsStream` opens a stream for the pod. -/
def Opens (ns name : GoString) : Prop :=
  podSpec (r.http.query "pod") = some (ns, name) ∧
    ∃ resp ∈ logsStream rt policy registry r p, ∃ text, resp.body = .stream text

/-- `logs` lists the pod. -/
def ListsPod (ns name : GoString) : Prop :=
  ∃ resp ∈ logs rt policy registry r sort p, ∃ answer, resp.body = .logs answer ∧
    ∃ info ∈ answer.pods, info.ns = ns ∧ info.name = name

/-- A stream is opened only for a pod that is listed. -/
def ServesOwnPods : Prop :=
  ∀ ns name, Opens rt policy registry r p ns name → ListsPod rt policy registry r sort p ns name

/-- The request is for a pod of the cluster whose log can be followed, on a connection that can be
flushed. -/
structure Follows (e : Entry) (kube : Kube) (ns name : GoString) : Prop where
  admitted : Admitted rt policy registry r p.cluster e
  clientset : e.clients.kube = some kube
  spec : podSpec (r.http.query "pod") = some (ns, name)
  flusher : r.flusher = true
  follow : ∃ stream, kube.followLogs ns name (r.http.query "container") 100 = .ok stream

variable {rt policy registry r sort p}

/-! ## The stream -/

/-- The application of the path makes no difference. -/
theorem logsStream_congr {q : AppPath} (h : q.cluster = p.cluster) :
    logsStream rt policy registry r q = logsStream rt policy registry r p := by
  rw [logsStream, logsStream, h]

theorem written_nonempty (opened : GoString) (stream : LogFollow) :
    (LogStream.written opened stream).Nonempty := ⟨opened, [], _, rfl, rfl⟩

/-- Behind the checks a stream is opened exactly if the log can be followed. -/
theorem exists_stream_iff {e : Entry} {ns name : GoString}
    (hspec : podSpec (r.http.query "pod") = some (ns, name)) :
    (∃ resp ∈ logsStreamOf r e, ∃ text, resp.body = .stream text) ↔
      ∃ kube, e.clients.kube = some kube ∧ r.flusher = true ∧
        ∃ stream, kube.followLogs ns name (r.http.query "container") 100 = .ok stream := by
  constructor
  · rintro ⟨resp, hresp, text, htext⟩
    unfold logsStreamOf at hresp
    cases hkube : e.clients.kube with
    | none =>
      rw [hkube] at hresp
      cases hresp
      cases htext
    | some kube =>
      simp only [hkube, hspec] at hresp
      cases hflusher : r.flusher with
      | false =>
        simp only [hflusher, Bool.not_false, if_true] at hresp
        cases hresp
        cases htext
      | true =>
        simp only [hflusher, Bool.not_true, Bool.false_eq_true, if_false] at hresp
        cases hfollow : kube.followLogs ns name (r.http.query "container") 100 with
        | error err =>
          rw [hfollow] at hresp
          cases hresp
          cases htext
        | ok stream => exact ⟨kube, rfl, rfl, stream, hfollow⟩
  · rintro ⟨kube, hkube, hflusher, stream, hfollow⟩
    obtain ⟨text, htext⟩ := written_nonempty (writeSSE "open"
      (("streaming " : GoString) ++ ns ++ ("/" : GoString) ++ name ++
        containerSuffix (r.http.query "container"))) stream
    refine ⟨{ headers := streamHeaders, body := .stream text }, ?_, text, rfl⟩
    simp only [logsStreamOf, hkube, hspec, hflusher, hfollow, Bool.not_true, Bool.false_eq_true,
      if_false]
    exact ⟨text, htext, rfl⟩

theorem opens_iff {ns name : GoString} :
    Opens rt policy registry r p ns name ↔ ∃ e kube, Follows rt policy registry r p e kube ns name := by
  constructor
  · rintro ⟨hspec, resp, hresp, text, htext⟩
    obtain ⟨e, hadmitted, hbody⟩ := (mem_withEntry fun msg => by rw [htext]; nofun).mp hresp
    obtain ⟨kube, hkube, hflusher, hfollow⟩ :=
      (exists_stream_iff hspec).mp ⟨resp, hbody, text, htext⟩
    exact ⟨e, kube, hadmitted, hkube, hspec, hflusher, hfollow⟩
  · rintro ⟨e, kube, hadmitted, hkube, hspec, hflusher, hfollow⟩
    obtain ⟨resp, hbody, text, htext⟩ :=
      (exists_stream_iff hspec).mpr ⟨kube, hkube, hflusher, hfollow⟩
    have hresp : resp ∈ logsStream rt policy registry r p :=
      (mem_withEntry fun msg => by rw [htext]; nofun).mpr ⟨e, hadmitted, hbody⟩
    exact ⟨hspec, resp, hresp, text, htext⟩

/-! ## The list -/

theorem pods_logsOfPods (kube : Kube) (resp : Types.LogsResponse) :
    (logsOfPods kube r resp).pods = resp.pods := by
  unfold logsOfPods
  split
  · rfl
  · simp only
    split <;> rfl

/-- The pods of an inventory that are listed. -/
theorem listed_iff_candidate {kube : Kube} {entries : List InventoryRef} {ns name : GoString} :
    (∃ answer, (logsOfInventory rt sort r p kube entries).body = .logs answer ∧
      ∃ info ∈ answer.pods, info.ns = ns ∧ info.name = name) ↔
      Candidate kube entries p.ns ns name := by
  have hbody : ∀ rows, listPodsForApp rt.now sort kube (podNamespaces entries p.ns) entries = .ok rows →
      ∃ answer, (logsOfInventory rt sort r p kube entries).body = .logs answer ∧
        answer.pods = rows := by
    intro rows hrows
    unfold podNamespaces at hrows
    simp only [logsOfInventory, hrows]
    exact ⟨_, rfl, pods_logsOfPods _ _⟩
  constructor
  · rintro ⟨answer, hanswer, info, hinfo, rfl, rfl⟩
    cases hrows : listPodsForApp rt.now sort kube (podNamespaces entries p.ns) entries with
    | error err =>
      unfold podNamespaces at hrows
      simp only [logsOfInventory, hrows] at hanswer
      cases hanswer
    | ok rows =>
      obtain ⟨answer', hanswer', hpods⟩ := hbody rows hrows
      obtain rfl := Body.logs.inj (hanswer.symm.trans hanswer')
      rw [hpods, mem_listPodsForApp hrows] at hinfo
      obtain ⟨n, hn, pods, hlist, pod, hpod, hmatches, rfl⟩ := hinfo
      exact ⟨exists_listPodsForApp_iff.mp ⟨rows, hrows⟩,
        n, hn, pods, hlist, pod, hpod, hmatches, rfl, rfl⟩
  · rintro ⟨hlisted, n, hn, pods, hlist, pod, hpod, hmatches, rfl, rfl⟩
    obtain ⟨rows, hrows⟩ := exists_listPodsForApp_iff.mpr hlisted
    obtain ⟨answer, hanswer, hpods⟩ := hbody rows hrows
    refine ⟨answer, hanswer, podToInfo pod rt.now, ?_, rfl, rfl⟩
    rw [hpods, mem_listPodsForApp hrows]
    exact ⟨n, hn, pods, hlist, pod, hpod, hmatches, rfl⟩

theorem Admitted.unique {cluster : GoString} {e e' : Entry}
    (h : Admitted rt policy registry r cluster e) (h' : Admitted rt policy registry r cluster e') :
    e' = e := Option.some.inj (h'.registered.symm.trans h.registered)

theorem listsPod_iff {e : Entry} {kube : Kube} {ns name : GoString}
    (hadmitted : Admitted rt policy registry r p.cluster e) (hkube : e.clients.kube = some kube) :
    ListsPod rt policy registry r sort p ns name ↔ OfApplication rt e kube p ns name := by
  constructor
  · rintro ⟨resp, hresp, answer, hanswer, hinfo⟩
    obtain ⟨e', hadmitted', fuel, hfuel⟩ := (mem_withEntry fun msg => by rw [hanswer]; nofun).mp hresp
    obtain rfl := hadmitted.unique hadmitted'
    simp only [logsOf, hkube] at hfuel
    cases happ : getApp rt e'.clients p.ns p.kind p.name with
    | error err =>
      simp only [happ, Option.some.injEq] at hfuel
      rw [← hfuel] at hanswer
      cases hanswer
    | ok app =>
      simp only [happ] at hfuel
      obtain ⟨read, hread, rfl⟩ := Option.map_eq_some_iff.mp hfuel
      exact ⟨app, happ, read, ⟨fuel, hread⟩, listed_iff_candidate.mp ⟨answer, hanswer, hinfo⟩⟩
  · rintro ⟨app, happ, read, ⟨fuel, hread⟩, hcandidate⟩
    have hlisted : ∃ answer, (logsOfInventory rt sort r p kube read.1).body = .logs answer ∧
        ∃ info ∈ answer.pods, info.ns = ns ∧ info.name = name := listed_iff_candidate.mpr hcandidate
    obtain ⟨answer, hanswer, hinfo⟩ := hlisted
    refine ⟨_, (mem_withEntry fun msg => ?_).mpr ⟨e, hadmitted, fuel, ?_⟩, answer, hanswer, hinfo⟩
    · rw [hanswer]
      nofun
    · simp only [logsOf, hkube, happ, hread, Option.map_some]

/-! ## Both -/

/-- A stream is opened only for a pod that is listed exactly if every pod of the cluster whose log can
be followed with this query is one of the application. -/
theorem servesOwnPods_iff :
    ServesOwnPods rt policy registry r sort p ↔
      ∀ e kube ns name, Follows rt policy registry r p e kube ns name →
        OfApplication rt e kube p ns name := by
  constructor
  · intro h e kube ns name hfollows
    have hlists := h ns name (opens_iff.mpr ⟨e, kube, hfollows⟩)
    exact (listsPod_iff hfollows.admitted hfollows.clientset).mp hlists
  · intro h ns name hopens
    obtain ⟨e, kube, hfollows⟩ := opens_iff.mp hopens
    exact (listsPod_iff hfollows.admitted hfollows.clientset).mpr (h e kube ns name hfollows)

/-- Under the path of an application that does not exist every pod of the cluster is served. -/
theorem not_servesOwnPods_of_missing {e : Entry} {kube : Kube} {ns name : GoString} {err : ApiError}
    (hfollows : Follows rt policy registry r p e kube ns name)
    (hmissing : getApp rt e.clients p.ns p.kind p.name = .error err) :
    ¬ServesOwnPods rt policy registry r sort p := by
  intro h
  have hlists := h ns name (opens_iff.mpr ⟨e, kube, hfollows⟩)
  obtain ⟨app, happ, -⟩ := (listsPod_iff hfollows.admitted hfollows.clientset).mp hlists
  rw [hmissing] at happ
  cases happ

end Access

/-! ### A pod of the control plane -/

/-- A cluster with this pod, whose log can be followed. -/
def controlPlane : Kube where
  getSecret _ _ := .notFound
  listPods ns := .ok (if ns = "kube-system" then [{ «namespace» := ns, name := "etcd-0" }] else [])
  getLogs _ _ _ _ := .error "not found"
  followLogs ns name _ _ :=
    if ns = "kube-system" ∧ name = "etcd-0" then .ok ⟨["elected leader"], .open⟩
    else .error "not found"

/-- The cluster `dev` with it. -/
def controlPlaneEntry : Entry :=
  let e := reachableEntry "dev"
  { e with clients := { e.clients with kube := some controlPlane } }

/-- A request for its log. -/
def etcdRequest : Request where
  identity := { subject := "ada" }
  http := { rawQuery := "pod=kube-system%2Fetcd-0" }

theorem follows_etcd (p : AppPath) :
    Follows idleRuntime Auth.defaultAllowAllPolicy
      (some ⟨[controlPlaneEntry], fun _ => some controlPlaneEntry⟩) etcdRequest p controlPlaneEntry
      controlPlane "kube-system" "etcd-0" where
  admitted := ⟨rfl, rfl, rfl⟩
  clientset := rfl
  spec := by decide +kernel
  flusher := rfl
  follow := ⟨_, rfl⟩

/-- Under the path of an application that does not exist. -/
theorem not_servesOwnPods_etcd :
    ¬ServesOwnPods idleRuntime Auth.defaultAllowAllPolicy
      (some ⟨[controlPlaneEntry], fun _ => some controlPlaneEntry⟩) etcdRequest podSort
      ⟨"dev", "default", "Kustomization", "missing"⟩ :=
  not_servesOwnPods_of_missing (follows_etcd _) rfl

end Yafu.Api
