import Yafu.Api.NonInterference
import Yafu.Api.Stream
import Mathlib.Data.Set.Image

/-!
# The handler of the server

Reference: `New` in `internal/server/server.go`, `internal/server/middleware.go`, and the checks for
`http.Flusher` in `internal/api/stream.go` and `internal/api/logs.go`.

A middleware hands a writer on to the next handler, its own or the one it was given. What a handler
finds in a type assertion on its writer are the methods of that writer and not those of the one it
wraps: a struct that embeds an `http.ResponseWriter` has the three methods of that interface and its
own.
-/

namespace Yafu.Server

open Yafu.Api
open Yafu.Auth (Policy)
open Yafu.Cluster (Registry)

/-! ## Writers -/

/-- A method of a writer. -/
inductive Method
  | header
  | write
  | writeHeader
  | flush
  | hijack
deriving DecidableEq, Repr

/-- A value in an `http.ResponseWriter`, by the methods of its type. -/
structure Writer where
  methods : List Method
deriving DecidableEq, Repr

/-- The methods of `http.ResponseWriter`. -/
def responseWriter : List Method := [.header, .write, .writeHeader]

/-- Whether `w.(http.Flusher)` succeeds. -/
def Writer.isFlusher (w : Writer) : Bool := w.methods.contains .flush

/-- A `statusRecorder` around a writer: it embeds the interface, and has its own `WriteHeader`. -/
def statusRecorder (_ : Writer) : Writer := ⟨responseWriter⟩

/-! ## Requests and handlers -/

/-- What a pattern of the mux under `/api/` matches. -/
inductive Route
  | stream
  | read (endpoint : Endpoint)
deriving DecidableEq, Repr

/-- A request as it comes to the server, with its route. -/
structure Incoming where
  http : Http.Request
  headers : Headers := []
  route : Route
  requestId : GoString := []
deriving DecidableEq, Repr

/-- `r.Header.Get`. -/
def Incoming.header (r : Incoming) (name : GoString) : GoString := (r.headers.lookup name).getD []

/-- `http.Handler`: what it may answer through a writer. -/
abbrev Handler := Writer → Incoming → Set Response

/-- `middleware`. -/
abbrev Middleware := Handler → Handler

/-- `chain`. -/
def chain (h : Handler) (mws : List Middleware) : Handler := mws.foldr (fun mw h => mw h) h

/-- `withRequestID`; `uuid` is what `uuid.NewString` returns. -/
def withRequestID (uuid : GoString) : Middleware := fun next w r =>
  let id := if r.header "X-Request-ID" = [] then uuid else r.header "X-Request-ID"
  (fun resp => { resp with headers := ("X-Request-ID", id) :: resp.headers }) ''
    next w { r with requestId := id }

/-- `withRecover`; the answer to a panic is that of the handler which panics. -/
def withRecover : Middleware := fun next w r => next w r

/-- `withObservability`, as far as its writer goes. -/
def withObservability : Middleware := fun next w r => next (statusRecorder w) r

/-- `otelhttp.NewHandler`, by the writer that it puts around another. -/
def otelhttp (wrap : Writer → Writer) : Middleware := fun next w r => next (wrap w) r

/-! ## The server -/

/-- What the server is made of; `authenticate` is the middleware of an `AuthSet`, which answers by
itself or finds an identity, and hands on its writer. -/
structure Config where
  runtime : Runtime
  sorts : Sorts
  policy : Policy
  registry : Option (Registry Clients)
  authenticate : Http.Request → Headers → Except Response Auth.Identity
  wrap : Writer → Writer
  uuid : GoString

variable (cfg : Config)

/-- The mux with the routes of `RegisterAPI`. -/
def apiMux (id : Auth.Identity) : Handler := fun w r =>
  let req : Request := { identity := id, http := r.http, flusher := w.isFlusher }
  match r.route with
  | .stream => Stream.serve cfg.runtime.toLower cfg.policy req
  | .read endpoint => serve cfg.runtime cfg.sorts cfg.policy cfg.registry req endpoint

/-- The mux of the server, for requests under `/api/`. -/
def mux : Handler := fun w r =>
  match cfg.authenticate r.http r.headers with
  | .error resp => {resp}
  | .ok id => apiMux cfg id w r

/-- The handler that `New` composes. -/
def handler : Handler :=
  chain (otelhttp cfg.wrap (mux cfg)) [withRequestID cfg.uuid, withRecover, withObservability]

/-! ## No writer can be flushed -/

/-- The response with the header that `withRequestID` sets. -/
def tagged (r : Incoming) (resp : Response) : Response :=
  let id := if r.header "X-Request-ID" = [] then cfg.uuid else r.header "X-Request-ID"
  { resp with headers := ("X-Request-ID", id) :: resp.headers }

/-- What `logsStream` answers on a connection that cannot be flushed. -/
def logsUnsupported : Response :=
  writeError [] Http.statusInternalServerError "streaming unsupported on this connection"

/-- The response is an event stream. -/
def EventStream (resp : Response) : Prop :=
  resp.status = 200 ∧
    (("Content-Type" : GoString), ("text/event-stream" : GoString)) ∈ resp.headers

/-- Whatever the handler answers is an event stream. -/
def StreamsThrough (w : Writer) (r : Incoming) : Prop := ∀ resp ∈ handler cfg w r, EventStream resp

variable {cfg}

theorem statusRecorder_isFlusher (w : Writer) : (statusRecorder w).isFlusher = false := rfl

/-- The mux gets the writer that `otelhttp` puts around a `statusRecorder`. -/
theorem handler_eq (w : Writer) (r : Incoming) :
    ∃ requestId, handler cfg w r =
      tagged cfg r '' mux cfg (cfg.wrap (statusRecorder w)) { r with requestId } := ⟨_, rfl⟩

/-- Without a flusher the log stream answers with an error. -/
theorem logsStreamOf_of_not_flusher {r : Request} (h : r.flusher = false) (e : Entry) :
    ∃ resp, logsStreamOf r e = {resp} ∧ 400 ≤ resp.status := by
  unfold logsStreamOf
  cases e.clients.kube with
  | none => exact ⟨_, rfl, le_status_writeError (by decide)⟩
  | some kube =>
    simp only
    cases podSpec (r.http.query "pod") with
    | none => exact ⟨_, rfl, le_status_writeError (by decide)⟩
    | some pod =>
      simp only [h, Bool.not_false, if_true]
      exact ⟨_, rfl, le_status_writeError (by decide)⟩

theorem logsStream_of_not_flusher {rt : Runtime} {policy : Policy}
    {registry : Option (Registry Clients)} {r : Request} {p : AppPath} (h : r.flusher = false) :
    ∃ resp, logsStream rt policy registry r p = {resp} ∧ 400 ≤ resp.status := by
  obtain ⟨code, msg, hcode, heq⟩ | ⟨e, -, heq⟩ :=
    withEntry_cases rt policy registry r [] p.cluster fun e => logsStreamOf r e
  · exact ⟨_, heq, le_status_writeError hcode⟩
  · rw [logsStream, heq]
    exact logsStreamOf_of_not_flusher h e

/-- **The streaming endpoints do not stream.** Behind the middleware chain no request that is
authenticated gets an event stream, whatever the connection can do: the event stream is refused, and the
log stream is as soon as there is a pod to stream from. -/
theorem not_streamsThrough {w : Writer} {r : Incoming} {id : Auth.Identity}
    (hwrap : ∀ w, (cfg.wrap w).isFlusher = w.isFlusher)
    (hauth : cfg.authenticate r.http r.headers = .ok id) :
    (r.route = .stream → ¬ StreamsThrough cfg w r ∧
        handler cfg w r = {tagged cfg r Stream.unsupported}) ∧
      ∀ p, r.route = .read (.app .logsStream p) → ¬ StreamsThrough cfg w r ∧
        ∀ reg e kube pod,
          mayGet cfg.runtime cfg.policy { identity := id, http := r.http } p.cluster = true →
          cfg.registry = some reg → reg.get p.cluster = some e → e.status.reachable = true →
          e.clients.kube = some kube → podSpec (r.http.query "pod") = some pod →
          handler cfg w r = {tagged cfg r logsUnsupported} := by
  obtain ⟨requestId, heq⟩ := @handler_eq cfg w r
  -- the type assertion is made on the writer around a `statusRecorder`
  have hflusher : (cfg.wrap (statusRecorder w)).isFlusher = false := by
    rw [hwrap, statusRecorder_isFlusher]
  have hmux : mux cfg (cfg.wrap (statusRecorder w)) { r with requestId } =
      apiMux cfg id (cfg.wrap (statusRecorder w)) { r with requestId } := by
    simp only [mux, hauth]
  have hnot : ∀ resp, handler cfg w r = {tagged cfg r resp} → 400 ≤ resp.status →
      ¬ StreamsThrough cfg w r := by
    intro resp hresp hstatus hstreams
    obtain ⟨hok, -⟩ := hstreams (tagged cfg r resp) (by rw [hresp]; exact Set.mem_singleton _)
    have hsame : (tagged cfg r resp).status = resp.status := rfl
    omega
  refine ⟨fun hroute => ?_, fun p hroute => ?_⟩
  · have hall : handler cfg w r = {tagged cfg r Stream.unsupported} := by
      rw [heq, hmux]
      simp only [apiMux, hroute, Stream.serve, hflusher, Bool.false_eq_true, if_false,
        Set.image_singleton]
    refine ⟨hnot _ hall ?_, hall⟩
    show 400 ≤ Http.statusInternalServerError
    decide
  · have hlogs : handler cfg w r = tagged cfg r '' logsStream cfg.runtime cfg.policy cfg.registry
        { identity := id, http := r.http, flusher := false } p := by
      rw [heq, hmux]
      simp only [apiMux, hroute, hflusher]
      rfl
    refine ⟨?_, fun reg e kube pod hget hreg hentry hreach hkube hpod => ?_⟩
    · obtain ⟨resp, hresp, hstatus⟩ := @logsStream_of_not_flusher cfg.runtime cfg.policy cfg.registry
        { identity := id, http := r.http, flusher := false } p rfl
      rw [hresp, Set.image_singleton] at hlogs
      exact hnot resp hlogs hstatus
    · have hadmitted : Admitted cfg.runtime cfg.policy cfg.registry
          { identity := id, http := r.http, flusher := false } p.cluster e := by
        refine ⟨hget, ?_, hreach⟩
        rw [hreg]
        exact hentry
      rw [hlogs, logsStream, hadmitted.withEntry_eq]
      simp only [logsStreamOf, hkube, hpod, Bool.not_false, if_true, Set.image_singleton,
        logsUnsupported]

/-! ## A connection that can be flushed -/

/-- The writer of a connection that can be flushed. -/
def flushable : Writer := ⟨responseWriter ++ [.flush]⟩

/-- A server without clusters that takes everyone for one user, and a tracer that adds nothing. -/
def openServer : Config where
  runtime := idleRuntime
  sorts := keySorts
  policy := Auth.defaultAllowAllPolicy
  registry := none
  authenticate _ _ := .ok { subject := "ada" }
  wrap w := w
  uuid := "0"

/-- A request for the event stream. -/
def streamRequest : Incoming := { http := { path := "/api/v1/stream" }, route := .stream }

/-- A request for the event stream on a connection that can be flushed is refused. -/
theorem stream_refused :
    ¬ ∀ (cfg : Config) (w : Writer) (r : Incoming) (id : Auth.Identity),
      (∀ w, (cfg.wrap w).isFlusher = w.isFlusher) → cfg.authenticate r.http r.headers = .ok id →
        w.isFlusher = true → r.route = .stream → StreamsThrough cfg w r := by
  intro h
  have hstreams := h openServer flushable streamRequest { subject := "ada" } (fun _ => rfl) rfl rfl rfl
  have hmem : tagged openServer streamRequest Stream.unsupported ∈
      handler openServer flushable streamRequest := ⟨Stream.unsupported, Set.mem_singleton _, rfl⟩
  exact absurd (hstreams _ hmem).1 (by decide)

/-- The answer to it. -/
theorem not_streamsThrough_openServer :
    handler openServer flushable streamRequest =
      {tagged openServer streamRequest Stream.unsupported} :=
  ((@not_streamsThrough openServer flushable streamRequest { subject := "ada" } (fun _ => rfl) rfl).1
    rfl).2

end Yafu.Server
