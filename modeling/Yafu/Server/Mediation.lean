import Yafu.Api.MutationCalls
import Yafu.Api.Stream
import Yafu.Auth.Middleware
import Yafu.Server.Routing

/-!
# The policy stands between a request and the clusters

Reference: `New` in `internal/server/server.go`, `writeUnauthorized` in
`internal/auth/middleware.go`, and `handleWhoami` in `internal/api/whoami.go`.

A request is bytes until the mux has taken it apart: its method, its target, its headers, cookies and
body. `System.handle` is what becomes of it, from the target to the calls to a cluster. `Mediated` says
what the gate and the policy leave of the clusters for whoever sends it.
-/

namespace Yafu.Server.Mediation

open Yafu.Api
open Yafu.Auth (Gate Identity Policy)
open Yafu.Cluster (Registry)
open Yafu.Server.Routing
open ServeMux

/-! ## The server -/

/-- A request as it is sent; the body is what the JSON scanner makes of it. -/
structure RawRequest where
  method : GoString
  target : GoString
  headers : Headers := []
  cookies : List (GoString × GoString) := []
  body : Except GoString Json.Value := .error "EOF"
  requestId : GoString := []
  remoteAddr : GoString := []
  flusher : Bool := true

/-- `r.Header.Get`. -/
def RawRequest.header (req : RawRequest) (name : GoString) : GoString :=
  (req.headers.lookup name).getD []

/-- What the server is made of. A cluster has its clients for reading and for changing objects. -/
structure System where
  gate : Gate
  runtime : Runtime
  mutations : MutationRuntime
  sorts : Sorts
  policy : Policy
  registry : Option (Registry (Clients × Client))

/-- What a handler of the API writes: the response of those that are modelled further, the identity in
the answer of `handleWhoami`, or the answer of `handleVersion`. -/
inductive Answer
  | response (resp : Response)
  | whoami (id : Identity)
  | version

/-- What a handler comes to: its answer, the audit records and, with their clusters, the calls of a
mutation. -/
structure Exchange where
  answer : Answer
  audit : List Audit.Record := []
  calls : List (GoString × Call) := []

/-- What becomes of a request. -/
inductive Handled
  | malformed
  | outside (found : Found Target)
  | refused (resp : Response)
  | unrouted (found : Found ApiRoute)
  | served (exchanges : Set Exchange)

/-- `writeUnauthorized`. -/
def writeUnauthorized (msg : GoString) : Response := writeError jsonHeaders 401 msg

/-- `r.PathValue`. -/
def pathValue (values : List (GoString × GoString)) (name : GoString) : GoString :=
  (values.lookup name).getD []

/-- The path values of an object. -/
def appPath (values : List (GoString × GoString)) : AppPath where
  cluster := pathValue values "cluster"
  ns := pathValue values "ns"
  kind := pathValue values "kind"
  name := pathValue values "name"

namespace System

variable (sys : System)

/-- The request as `net/http` hands it to the handlers. -/
def http (req : RawRequest) (u : RequestURL) : Http.Request where
  path := u.path
  rawQuery := u.rawQuery
  cookies := req.cookies

/-- The identity of a request, or the message of its refusal. -/
def identify (req : RawRequest) : Except GoString Identity :=
  sys.gate.identify { cookies := req.cookies } req.header

/-- The answers of a handler that only reads. -/
def reads (answers : Set Response) : Set Exchange := (fun resp => { answer := .response resp }) '' answers

/-- The handlers of the API. -/
def serveRoute (req : RawRequest) (u : RequestURL) (id : Identity)
    (values : List (GoString × GoString)) : ApiRoute → Set Exchange :=
  let r : Request := { identity := id, http := http req u, flusher := req.flusher }
  let registry := sys.registry.map (Registry.map Prod.fst)
  let read (endpoint : Endpoint) : Set Exchange :=
    reads (serve sys.runtime sys.sorts sys.policy registry r endpoint)
  fun
  | .version => {{ answer := .version }}
  | .whoami => {{ answer := .whoami id }}
  | .stream => reads (Stream.serve sys.runtime.toLower sys.policy r)
  | .clusters => read .clusters
  | .applications => read .applications
  | .sources => read .sources
  | .alerts => read .alerts
  | .events => read .events
  | .imageUpdates => read .imageUpdates
  | .app a => read (.app a (appPath values))
  | .mutation e =>
    let p := appPath values
    let served := serveMutation sys.mutations sys.policy (sys.registry.map (Registry.map Prod.snd))
      { identity := id, requestId := req.requestId, remoteAddr := req.remoteAddr, body := req.body } p e
    {{ answer := .response served.response
       audit := served.audit
       calls := served.calls.map fun call => (p.cluster, call) }}

/-- The handler of the server, from the target of a request on. -/
def handle (req : RawRequest) : Handled :=
  match Url.parseRequestURI req.target with
  | none => .malformed
  | some u =>
    match (rootMux (sys.gate.mode = .oidc)).serve req.method u with
    | .handler .api _ =>
      match sys.identify req with
      | .error msg => .refused (writeUnauthorized msg)
      | .ok id =>
        match innerMux.serve req.method u with
        | .handler route values => .served (sys.serveRoute req u id values route)
        | found => .unrouted found
    | found => .outside found

/-! ### What the caller may do -/

/-- The caller may get the cluster. -/
def mayGet (req : RawRequest) (cluster : GoString) : Bool :=
  match sys.identify req with
  | .error _ => false
  | .ok id => sys.policy.authorize sys.runtime.toLower id "get" cluster

/-- The caller may change something on the cluster. -/
def mayChange (req : RawRequest) (cluster : GoString) : Bool :=
  match sys.identify req with
  | .error _ => false
  | .ok id => changes.any fun verb => sys.policy.authorize sys.mutations.toLower id verb cluster

end System

/-! ## Mediation -/

/-- Nothing is served without an identity; whatever a cluster is called for has been allowed to the
identity, and is what the audit record says; and what becomes of a request depends on no cluster but
those where the caller may do what the request is for. -/
structure Mediated (sys : System) (req : RawRequest) : Prop where
  identified : ∀ exchanges, sys.handle req = .served exchanges → ∃ id, sys.identify req = .ok id
  called : ∀ exchanges, sys.handle req = .served exchanges → ∀ x ∈ exchanges, ∀ c call,
    (c, call) ∈ x.calls → ∃ id rec, sys.identify req = .ok id ∧ x.audit = [rec] ∧
      rec.identity = ⟨id.subject, id.email, id.groups⟩ ∧ rec.resource.cluster = c ∧
      calledFor call = (rec.resource.kind, rec.resource.ns, rec.resource.name) ∧ rec.verb ∈ changes ∧
      sys.policy.authorize sys.mutations.toLower id rec.verb c = true
  blind : ∀ reg reg' : Registry (Clients × Client), sys.registry = some reg →
    (reg.map Prod.fst).AgreeOn (sys.mayGet req) (reg'.map Prod.fst) →
    (reg.map Prod.snd).AgreeOn (sys.mayChange req) (reg'.map Prod.snd) →
    ({ sys with registry := some reg' } : System).handle req = sys.handle req

/-! ### Reads -/

/-- What the read handlers answer depends on what the caller may get. -/
theorem serve_congr {rt : Runtime} {sorts : Sorts} {policy : Policy} {r : Request}
    {reg reg' : Registry Clients} (h : Registry.AgreeOn (Api.mayGet rt policy r) reg reg')
    (endpoint : Endpoint) :
    serve rt sorts policy (some reg) r endpoint = serve rt sorts policy (some reg') r endpoint := by
  have hvisible : visible rt policy (some reg) r = visible rt policy (some reg') r :=
    congrArg some h.restrict_eq
  rw [← serve_visible, hvisible, serve_visible]

/-! ### Requests -/

namespace System

variable {sys : System} {req : RawRequest}

/-- What is served has come through the gate and both muxes. -/
theorem handle_eq_served_iff {exchanges : Set Exchange} :
    sys.handle req = .served exchanges ↔
      ∃ u id route values, Url.parseRequestURI req.target = some u ∧ sys.identify req = .ok id ∧
        apiHandler (sys.gate.mode = .oidc) req.method u = some (route, values) ∧
        exchanges = sys.serveRoute req u id values route := by
  constructor
  · intro h
    unfold handle at h
    split at h
    · cases h
    rename_i u hparse
    split at h
    · rename_i rest hroot
      split at h
      · cases h
      rename_i id hid
      split at h
      · rename_i route values hinner
        exact ⟨u, id, route, values, hparse, hid, apiHandler_eq_some_iff_serve.mpr ⟨rest, hroot, hinner⟩,
          (Handled.served.inj h).symm⟩
      · cases h
    · cases h
  · rintro ⟨u, id, route, values, hparse, hid, happly, rfl⟩
    obtain ⟨rest, hroot, hinner⟩ := apiHandler_eq_some_iff_serve.mp happly
    simp only [handle, hparse, hroot, hid, hinner]

/-- What is refused has no identity. -/
theorem identify_of_refused {resp : Response} (h : sys.handle req = .refused resp) :
    ∃ msg, sys.identify req = .error msg ∧ resp = writeUnauthorized msg := by
  unfold handle at h
  split at h
  · cases h
  split at h
  · split at h
    · rename_i msg hid
      exact ⟨msg, hid, (Handled.refused.inj h).symm⟩
    · split at h <;> cases h
  · cases h

theorem serveRoute_congr {reg reg' : Registry (Clients × Client)} {u : RequestURL} {id : Identity}
    {values : List (GoString × GoString)} (hid : sys.identify req = .ok id)
    (hreg : sys.registry = some reg)
    (hget : (reg.map Prod.fst).AgreeOn (sys.mayGet req) (reg'.map Prod.fst))
    (hchange : (reg.map Prod.snd).AgreeOn (sys.mayChange req) (reg'.map Prod.snd)) (route : ApiRoute) :
    ({ sys with registry := some reg' } : System).serveRoute req u id values route =
      sys.serveRoute req u id values route := by
  have hseen : ∀ http flusher, sys.mayGet req =
      Api.mayGet sys.runtime sys.policy { identity := id, http, flusher } := by
    intro http flusher
    funext c
    simp only [mayGet, hid, Api.mayGet]
  have hread : ∀ endpoint, serve sys.runtime sys.sorts sys.policy
      (some (reg'.map Prod.fst)) { identity := id, http := http req u, flusher := req.flusher } endpoint =
        serve sys.runtime sys.sorts sys.policy (some (reg.map Prod.fst))
          { identity := id, http := http req u, flusher := req.flusher } endpoint := by
    intro endpoint
    rw [hseen (http req u) req.flusher] at hget
    exact (serve_congr hget endpoint).symm
  have hverb : ∀ (e : MutationEndpoint) (c : GoString),
      sys.policy.authorize sys.mutations.toLower id e.verb c = true → sys.mayChange req c = true := by
    intro e c hauth
    simp only [mayChange, hid]
    exact List.any_eq_true.mpr ⟨e.verb, verb_mem_changes e, hauth⟩
  unfold serveRoute
  rw [hreg, Option.map_some, Option.map_some, Option.map_some, Option.map_some]
  cases route with
  | mutation e =>
    have hserved :
        serveMutation sys.mutations sys.policy (some (reg.map Prod.snd))
            { identity := id, requestId := req.requestId, remoteAddr := req.remoteAddr, body := req.body }
            (appPath values) e =
          serveMutation sys.mutations sys.policy (some (reg'.map Prod.snd))
            { identity := id, requestId := req.requestId, remoteAddr := req.remoteAddr, body := req.body }
            (appPath values) e :=
      serveMutation_congr e fun hauth => hchange.get _ (hverb e _ hauth)
    simp only [hserved]
  | app a => exact congrArg reads (hread (.app a (appPath values)))
  | clusters => exact congrArg reads (hread .clusters)
  | applications => exact congrArg reads (hread .applications)
  | sources => exact congrArg reads (hread .sources)
  | alerts => exact congrArg reads (hread .alerts)
  | events => exact congrArg reads (hread .events)
  | imageUpdates => exact congrArg reads (hread .imageUpdates)
  | version => rfl
  | whoami => rfl
  | stream => rfl

/-- The calls that are served are those of a mutation. -/
theorem recorded_of_calls {u : RequestURL} {id : Identity} {values : List (GoString × GoString)}
    {route : ApiRoute} {x : Exchange} (hx : x ∈ sys.serveRoute req u id values route) {c : GoString}
    {call : Call} (hcall : (c, call) ∈ x.calls) :
    ∃ rec p r, ∃ e : MutationEndpoint, x.audit = [rec] ∧ r.identity = id ∧ p.cluster = c ∧
      calledFor call = (p.kind, p.ns, p.name) ∧
      Recorded sys.mutations sys.policy r p e.verb rec := by
  have hreads : ∀ answers, x ∉ reads answers := by
    rintro answers ⟨resp, -, rfl⟩
    exact absurd hcall List.not_mem_nil
  cases route with
  | mutation e =>
    obtain rfl : x = _ := hx
    obtain ⟨call', hmem, heq⟩ := List.mem_map.mp hcall
    obtain ⟨rfl, rfl⟩ := Prod.mk.inj heq
    obtain ⟨rec, haudit, hrec⟩ := recorded_serveMutation e (List.ne_nil_of_mem hmem)
    exact ⟨rec, appPath values, _, e, haudit, rfl, rfl, calledFor_serveMutation hmem, hrec⟩
  | version =>
    obtain rfl : x = _ := hx
    exact absurd hcall List.not_mem_nil
  | whoami =>
    obtain rfl : x = _ := hx
    exact absurd hcall List.not_mem_nil
  | _ => exact absurd hx (hreads _)

end System

/-- **The policy mediates every access.** -/
theorem mediated (sys : System) (req : RawRequest) : Mediated sys req where
  identified := by
    intro exchanges h
    obtain ⟨-, id, -, -, -, hid, -⟩ := System.handle_eq_served_iff.mp h
    exact ⟨id, hid⟩
  called := by
    intro exchanges h x hx c call hcall
    obtain ⟨u, id, route, values, -, hid, -, rfl⟩ := System.handle_eq_served_iff.mp h
    obtain ⟨rec, p, r, e, haudit, rfl, rfl, hobject, hrec⟩ := System.recorded_of_calls hx hcall
    refine ⟨r.identity, rec, hid, haudit, hrec.who, ?_, ?_, ?_, ?_⟩
    · rw [hrec.place]
    · rw [hrec.place]
      exact hobject
    · rw [hrec.what]
      exact verb_mem_changes e
    · rw [hrec.what]
      exact hrec.authorized
  blind := by
    intro reg reg' hreg hget hchange
    have hid : ({ sys with registry := some reg' } : System).identify req = sys.identify req := rfl
    unfold System.handle
    rw [hid]
    rcases hident : sys.identify req with msg | id
    · rfl
    · simp only [System.serveRoute_congr hident hreg hget hchange]

/-! ## A server -/

/-- A server without authentication for two clusters with the Kustomization `apps`. -/
def appsSystem : System where
  gate := .anonymous
  runtime := idleRuntime
  mutations := idleMutationRuntime
  sorts := keySorts
  policy := Auth.defaultAllowAllPolicy
  registry := some (prodStore.toRegistry.map fun clients =>
    (clients, { get := fun _ _ _ => .ok {}, patch := fun _ _ _ _ => .ok () }))

/-- The request of a browser that suspends the one on `prod`. -/
def suspendApps : RawRequest where
  method := "POST"
  target := "/api/v1/applications/prod/flux-system/Kustomization/apps/suspend"

end Yafu.Server.Mediation
