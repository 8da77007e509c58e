import Yafu.Api.Objects
import Yafu.Api.Types
import Yafu.Auth.Policy
import Yafu.Lib.Fanout
import Yafu.Lib.Http
import Yafu.Render.Build
import Mathlib.Data.Set.Basic

/-!
# What the handlers share

Reference: `internal/api/applications.go` and its siblings for the lists, and the first lines of the
handlers of one application in `internal/api`.

A handler is the set of what it may answer: a list depends on the order in which the clusters are
done. `Runtime` is everything that a handler asks neither the registry nor a cluster, the clock
included, so that equal runtimes mean equal clock readings.
-/

namespace Yafu.Api

open Yafu.Auth
open Yafu.Cluster (Time Registry)
open Yafu.Render

/-- What a computation with fuel comes to, nothing if it never ends. -/
def eventually {α : Type} (f : ℕ → Option α) : Set α := {a | ∃ fuel, f fuel = some a}

/-! ## Requests -/

/-- `metav1.ManagedFieldsEntry`. -/
structure ManagedFieldsEntry where
  manager : GoString
  operation : GoString
  time : Option Time := none
deriving DecidableEq, Repr

/-- What the handlers take from the libraries they call, from the artifact server and from the
clock. -/
structure Runtime extends Tools where
  now : Time
  toLower : GoString → GoString
  getManagedFields : Object → List ManagedFieldsEntry
  storage : StorageDecoders
  newDecoder : GoString → ℕ → Decoded

/-- A request behind the authentication, on a connection that can be flushed or not. -/
structure Request where
  identity : Auth.Identity
  http : Http.Request
  flusher : Bool := true

/-- The path values of a request for one application. -/
structure AppPath where
  cluster : GoString
  ns : GoString
  kind : GoString
  name : GoString
deriving DecidableEq, Repr

/-- `appID`. -/
def appID (cluster ns kind name : GoString) : GoString :=
  cluster ++ ("/" : GoString) ++ ns ++ ("/" : GoString) ++ kind ++ ("/" : GoString) ++ name

/-- `appID` of a path. -/
def AppPath.id (p : AppPath) : GoString := appID p.cluster p.ns p.kind p.name

/-- `getApp`. -/
def getApp (rt : Runtime) (c : Clients) (ns kind name : GoString) : Except ApiError App :=
  if kind = "Kustomization" then (c.getKustomization ns name).map .kustomization
  else if kind = "HelmRelease" then (c.getHelmRelease ns name).map .helmRelease
  else
    .error
      { text := ("unsupported kind " : GoString) ++ rt.quote kind ++
          (" (expected Kustomization or HelmRelease)" : GoString) }

/-- What most handlers answer when `getApp` fails. -/
def getAppFailed (err : ApiError) : Response :=
  writeError jsonHeaders
    (if err.kind = .notFound then statusNotFound else Http.statusInternalServerError) err.text

section Handlers

variable (rt : Runtime) (policy : Policy) (registry : Option (Registry Clients)) (r : Request)

/-- `h.policy.Authorize(id, "get", cluster)`. -/
def mayGet (cluster : GoString) : Bool := policy.authorize rt.toLower r.identity "get" cluster

/-! ## Lists -/

/-- The entries that a list is made of. -/
def selectEntries (clusterFilter : GoString) (all : List Entry) : List Entry :=
  all.filter fun e =>
    (clusterFilter = [] || (e.name : GoString) = clusterFilter) && mayGet rt policy r e.name

section List

variable {ρ : Type} (fetch : Entry → Except GoString (List ρ)) (finish : List ρ → List ρ)

/-- What the goroutine of an entry sends. -/
def clusterResult (e : Entry) : Except Types.ClusterError (List ρ) :=
  match fetch e with
  | .error err => .error ⟨e.name, err⟩
  | .ok rows => .ok rows

/-- The loop over the results. -/
def collect : List (Except Types.ClusterError (List ρ)) → Types.Listing ρ
  | [] => ⟨[], []⟩
  | .error err :: results => ⟨(collect results).items, err :: (collect results).errors⟩
  | .ok rows :: results => ⟨rows ++ (collect results).items, (collect results).errors⟩

/-- The handler of a list that fans out over the clusters, with what it does to the rows of all of
them in the end. -/
def listing (clusterFilter : GoString) : Set (Types.Listing ρ) :=
  match registry with
  | none => {⟨[], []⟩}
  | some reg =>
    {l | ∃ results,
      Fanout.Received (clusterResult fetch) (selectEntries rt policy r clusterFilter reg.list) results ∧
        l = ⟨finish (collect results).items, (collect results).errors⟩}

variable {fetch finish}

theorem errors_collect (results : List (Except Types.ClusterError (List ρ))) :
    (collect results).errors = results.filterMap fun
      | .error err => some err
      | .ok _ => none := by
  induction results with
  | nil => rfl
  | cons result results ih =>
    cases result with
    | error err => rw [collect, ih, List.filterMap_cons]
    | ok rows => rw [collect, ih, List.filterMap_cons]

variable {rt policy registry r}

/-- Some order of the goroutines gives an answer. -/
theorem listing_nonempty (clusterFilter : GoString) :
    (listing rt policy registry r fetch finish clusterFilter).Nonempty := by
  cases registry with
  | none => exact ⟨_, rfl⟩
  | some reg => exact ⟨_, _, Fanout.received_iff.mpr ⟨_, .refl _, rfl⟩, rfl⟩

/-- Whatever the order, the errors are those of the selected clusters, each once. -/
theorem errors_listing {clusterFilter : GoString} {reg : Registry Clients} {l : Types.Listing ρ}
    (h : l ∈ listing rt policy (some reg) r fetch finish clusterFilter) :
    l.errors.Perm ((selectEntries rt policy r clusterFilter reg.list).filterMap fun e =>
      match fetch e with
      | .error err => some ⟨e.name, err⟩
      | .ok _ => none) := by
  obtain ⟨results, hreceived, rfl⟩ := h
  rw [errors_collect]
  refine (hreceived.perm.filterMap _).trans (.of_eq ?_)
  rw [List.filterMap_map]
  refine List.filterMap_congr fun e _ => ?_
  rw [Function.comp_apply, clusterResult]
  cases fetch e <;> rfl

end List

/-! ## One application -/

/-- What the handlers of one application do before they turn to its cluster. -/
def withEntry (headers : Headers) (cluster : GoString) (body : Entry → Set Response) :
    Set Response :=
  if mayGet rt policy r cluster then
    match registry with
    | none => {writeError headers statusServiceUnavailable "registry not initialised"}
    | some reg =>
      match reg.get cluster with
      | none =>
        {writeError headers statusNotFound
          (("cluster " : GoString) ++ rt.quote cluster ++ (" not registered" : GoString))}
      | some e =>
        if e.status.reachable then body e
        else {writeError headers statusServiceUnavailable "cluster unreachable"}
  else
    {writeError headers statusForbidden
      (("identity is not allowed to get cluster " : GoString) ++ rt.quote cluster)}

/-- The caller may get the cluster, and it is registered and reachable. -/
structure Admitted (cluster : GoString) (e : Entry) : Prop where
  allowed : mayGet rt policy r cluster = true
  registered : registry.bind (·.get cluster) = some e
  reachable : e.status.reachable = true

variable {rt policy registry r} in
theorem Admitted.withEntry_eq {cluster : GoString} {e : Entry}
    (h : Admitted rt policy registry r cluster e) (headers : Headers) (body : Entry → Set Response) :
    withEntry rt policy registry r headers cluster body = body e := by
  obtain ⟨hget, hregistered, hreach⟩ := h
  obtain ⟨reg, rfl, hentry⟩ := Option.bind_eq_some_iff.mp hregistered
  simp only [withEntry, hget, hentry, hreach, if_true]

/-- A request is refused, or answered by the body. -/
theorem withEntry_cases (headers : Headers) (cluster : GoString) (body : Entry → Set Response) :
    (∃ code msg, 400 ≤ code ∧
      withEntry rt policy registry r headers cluster body = {writeError headers code msg}) ∨
      ∃ e, Admitted rt policy registry r cluster e ∧
        withEntry rt policy registry r headers cluster body = body e := by
  by_cases hget : mayGet rt policy r cluster = true
  · rcases registry with _ | reg
    · exact .inl ⟨_, _, by decide, if_pos hget⟩
    cases hentry : reg.get cluster with
    | none =>
      refine .inl ⟨_, _, ?_, by simp only [withEntry, hget, hentry, if_true]; rfl⟩
      decide
    | some e =>
      by_cases hreach : e.status.reachable = true
      · have hadmitted : Admitted rt policy (some reg) r cluster e := ⟨hget, hentry, hreach⟩
        exact .inr ⟨e, hadmitted, hadmitted.withEntry_eq headers body⟩
      · refine .inl ⟨_, _, ?_, by simp only [withEntry, hget, hentry, hreach, if_true]; rfl⟩
        decide
  · exact .inl ⟨_, _, by decide, if_neg hget⟩

variable {rt policy registry r} in
/-- What is no error is the answer of the body. -/
theorem mem_withEntry {headers : Headers} {cluster : GoString} {body : Entry → Set Response}
    {resp : Response} (hbody : ∀ msg, resp.body ≠ .error msg) :
    resp ∈ withEntry rt policy registry r headers cluster body ↔
      ∃ e, Admitted rt policy registry r cluster e ∧ resp ∈ body e := by
  constructor
  · intro h
    obtain ⟨code, msg, -, heq⟩ | ⟨e, hadmitted, heq⟩ :=
      withEntry_cases rt policy registry r headers cluster body
    · rw [heq] at h
      cases h
      exact absurd rfl (hbody msg)
    · exact ⟨e, hadmitted, heq ▸ h⟩
  · rintro ⟨e, hadmitted, h⟩
    rwa [hadmitted.withEntry_eq]

/-! ## Nothing but what the caller may get -/

/-- The registry as far as the caller may get its clusters. -/
abbrev visible : Option (Registry Clients) := registry.map (.restrict (mayGet rt policy r))

theorem selectEntries_restrict (clusterFilter : GoString) (reg : Registry Clients) :
    selectEntries rt policy r clusterFilter (reg.restrict (mayGet rt policy r)).list =
      selectEntries rt policy r clusterFilter reg.list := by
  simp only [selectEntries, Registry.restrict, List.filter_filter]
  refine List.filter_congr fun e _ => ?_
  rw [Bool.and_assoc, Bool.and_self]

theorem listing_visible {ρ : Type} (fetch : Entry → Except GoString (List ρ))
    (finish : List ρ → List ρ) (clusterFilter : GoString) :
    listing rt policy (visible rt policy registry r) r fetch finish clusterFilter =
      listing rt policy registry r fetch finish clusterFilter := by
  cases registry with
  | none => rfl
  | some reg => simp only [listing, Option.map_some, selectEntries_restrict]

theorem withEntry_visible (headers : Headers) (cluster : GoString) (body : Entry → Set Response) :
    withEntry rt policy (visible rt policy registry r) r headers cluster body =
      withEntry rt policy registry r headers cluster body := by
  unfold withEntry
  split
  · rename_i hget
    cases registry with
    | none => rfl
    | some reg => simp only [Option.map_some, Registry.get_restrict reg hget]
  · rfl

/-- A cluster that the caller may not get is refused, registered or not. -/
theorem withEntry_denied (headers : Headers) {cluster : GoString} (body : Entry → Set Response)
    (h : mayGet rt policy r cluster = false) :
    withEntry rt policy registry r headers cluster body =
      {writeError headers statusForbidden
        (("identity is not allowed to get cluster " : GoString) ++ rt.quote cluster)} := by
  unfold withEntry
  rw [if_neg (by simp [h])]

end Handlers

end Yafu.Api
