import Yafu.Lib.JsonMarshal
import Yafu.Server.Mediation

/-!
# What the client makes of a response

Reference: `web/src/lib/api.ts`; `writeError` in `internal/api/mutations.go` and `writeUnauthorized` in
`internal/auth/middleware.go`.

A response with the status 401 sends the browser to sign in, and any other error is shown with its
message. The gate alone answers 401: no handler behind it does, whatever a cluster has answered to it
(`orderly_serveRoute`).
-/

namespace Yafu.Web.Fetch

open Yafu.Api
open Yafu.Auth (Policy)
open Yafu.Cluster (Registry)
open Yafu.Server.Mediation
open PercentEncoding (encodeURIComponent)

/-! ## The client -/

/-- `window.location`. -/
structure Location where
  pathname : GoString
  search : GoString
deriving DecidableEq, Repr

/-- The path and the query that a sign-in is to return to. -/
def Location.page (loc : Location) : GoString := loc.pathname ++ loc.search

/-- `handleUnauthorized`: where it sends the browser. -/
def handleUnauthorized (loc : Location) : Option GoString :=
  if ("/auth/" : GoString) <+: loc.pathname then none
  else some (("/auth/login?return=" : GoString) ++ encodeURIComponent loc.page)

/-- What comes of `fetchJSON`: a promise that stays pending while the browser goes elsewhere, an
`APIError`, the value, or the error of `res.json()`. -/
inductive Fetched
  | pending (goes : Option GoString)
  | failed (status : ℕ) (message : GoString)
  | value (v : Json.Value)
  | unreadable

/-- Whether a value counts as true. -/
def truthy (isZero : GoString → Bool) : Json.Value → Bool
  | .null => false
  | .bool b => b
  | .number literal => !isZero literal
  | .string s => s ≠ []
  | .array _ => true
  | .object _ => true

/-- What the language makes of values that are no strings. -/
structure Texts where
  isZero : GoString → Bool
  text : Json.Value → GoString

/-- The part of the message behind the status: `error` of the body, if it has one that is true. -/
def detail (texts : Texts) (body : GoString) : GoString :=
  match Json.parse body with
  | some (.object ms) =>
    -- of two members of one name the last one counts
    match ms.reverse.lookup ("error" : GoString) with
    | none => []
    | some v =>
      if truthy texts.isZero v = false then []
      else
        match v with
        | .string s => (": " : GoString) ++ s
        | v => (": " : GoString) ++ texts.text v
  | _ => []

/-- `fetchJSON`, from the response on. -/
def fetchJSON (texts : Texts) (loc : Location) (status : ℕ) (body : GoString) : Fetched :=
  if status = 401 then .pending (handleUnauthorized loc)
  else if status < 200 ∨ 299 < status then
    .failed status (("HTTP " : GoString) ++ Clock.decimal status ++ detail texts body)
  else
    match Json.parse body with
    | none => .unreadable
    | some v => .value v

/-- The body of `writeError` and `writeUnauthorized`. -/
def errorBody (msg : GoString) : GoString := Json.marshalObject [("error", msg)] ++ ("\n" : GoString)

/-- The message of an error, as it is shown. -/
def shown (status : ℕ) (msg : GoString) : GoString :=
  ("HTTP " : GoString) ++ Clock.decimal status ++
    if msg = [] then [] else (": " : GoString) ++ Utf8.coerce msg

variable {texts : Texts} {loc : Location}

theorem detail_errorBody (msg : GoString) :
    detail texts (errorBody msg) = if msg = [] then [] else (": " : GoString) ++ Utf8.coerce msg := by
  have hparse : Json.parse (errorBody msg) = some (.object [("error", .string (Utf8.coerce msg))]) := by
    have hfits : Json.Fits Json.maxNestingDepth (.object [("error", .string msg)]) := ⟨_, rfl, trivial, trivial⟩
    have herror : Utf8.coerce ("error" : GoString) = "error" :=
      Utf8.coerce_of_ascii (GoString.forall_mem_of_all (by decide))
    refine (Json.parse_marshal_line hfits).trans ?_
    rw [Json.coerced, Json.coercedFields, Json.coerced, Json.coercedFields, herror]
  have htruthy : truthy texts.isZero (.string (Utf8.coerce msg)) = decide (msg ≠ []) := by
    rw [truthy, decide_eq_decide, ne_eq, ne_eq, Utf8.coerce_eq_nil_iff]
  unfold detail
  simp only [hparse]
  rw [show ([("error", Json.Value.string (Utf8.coerce msg))] : List (GoString × Json.Value)).reverse.lookup
    ("error" : GoString) = some (.string (Utf8.coerce msg)) from rfl]
  simp only [htruthy]
  by_cases hmsg : msg = []
  · simp [hmsg]
  · simp [hmsg]

/-- An error that is no 401 is shown with its message. -/
theorem fetchJSON_errorBody {status : ℕ} (hle : 400 ≤ status) (hne : status ≠ 401) (msg : GoString) :
    fetchJSON texts loc status (errorBody msg) = .failed status (shown status msg) := by
  have hfail : status < 200 ∨ 299 < status := by omega
  rw [fetchJSON, if_neg hne, if_pos hfail, detail_errorBody]
  rfl

/-! ## The handlers behind the gate -/

/-- The status that a client expects with a body: errors have one of their own, which is not the one of
the gate. -/
def Orderly (resp : Response) : Prop :=
  match resp.body with
  | .error _ => 400 ≤ resp.status ∧ resp.status ≠ 401
  | .text _ => resp.status = 500
  | _ => resp.status = 200 ∨ resp.status = 202

theorem orderly_writeError {headers : Headers} {code : ℕ} {msg : GoString} (hle : 400 ≤ code)
    (hne : code ≠ 401) : Orderly (writeError headers code msg) := ⟨hle, hne⟩

theorem orderly_getAppFailed (err : ApiError) : Orderly (getAppFailed err) := by
  unfold getAppFailed
  split_ifs
  · exact orderly_writeError (by decide) (by decide)
  · exact orderly_writeError (by decide) (by decide)

section Reads

variable {rt : Runtime} {sorts : Sorts} {policy : Policy} {registry : Option (Registry Clients)}
  {r : Request}

theorem orderly_withEntry {headers : Headers} {cluster : GoString} {body : Entry → Set Response}
    (hbody : ∀ e, ∀ resp ∈ body e, Orderly resp) :
    ∀ resp ∈ withEntry rt policy registry r headers cluster body, Orderly resp := by
  intro resp h
  unfold withEntry at h
  split_ifs at h
  · rcases registry with _ | reg
    · obtain rfl : resp = _ := h
      exact orderly_writeError (by decide) (by decide)
    · simp only at h
      cases hentry : reg.get cluster with
      | none =>
        rw [hentry] at h
        obtain rfl : resp = _ := h
        exact orderly_writeError (by decide) (by decide)
      | some e =>
        simp only [hentry] at h
        split_ifs at h
        · exact hbody e resp h
        · obtain rfl : resp = _ := h
          exact orderly_writeError (by decide) (by decide)
  · obtain rfl : resp = _ := h
    exact orderly_writeError (by decide) (by decide)

theorem orderly_historyOf (p : AppPath) (e : Entry) : Orderly (historyOf rt p e) := by
  unfold historyOf
  split_ifs
  · cases getApp rt e.clients p.ns p.kind p.name with
    | error err => exact orderly_writeError (by decide) (by decide)
    | ok app =>
      cases app with
      | kustomization k => exact .inl rfl
      | helmRelease hr => exact .inl rfl
  · exact orderly_writeError (by decide) (by decide)

/-- What begins with `getApp`. -/
theorem orderly_getApp {app : Except ApiError App} {k : App → Option Response} {resp : Response}
    (hk : ∀ obj, k obj = some resp → Orderly resp)
    (h : (match app with
      | .error err => some (getAppFailed err)
      | .ok obj => k obj) = some resp) : Orderly resp := by
  cases app with
  | error err => exact Option.some.inj h ▸ orderly_getAppFailed err
  | ok obj => exact hk obj h

theorem orderly_treeOf {sort : SortSlice nodeLess} {p : AppPath} {e : Entry} {fuel : ℕ} {resp : Response}
    (h : treeOf rt sort p e fuel = some resp) : Orderly resp := by
  refine orderly_getApp (fun obj hobj => ?_) h
  obtain ⟨_, -, rfl⟩ := Option.map_eq_some_iff.mp hobj
  exact .inl rfl

theorem orderly_diffOf {sort : SortSliceWeak driftLess} {p : AppPath} {e : Entry} {fuel : ℕ}
    {resp : Response} (h : diffOf rt sort p e fuel = some resp) : Orderly resp := by
  refine orderly_getApp (fun obj hobj => ?_) h
  obtain ⟨_, -, rfl⟩ := Option.map_eq_some_iff.mp hobj
  exact .inl rfl

theorem orderly_manifestOf (p : AppPath) (e : Entry) : Orderly (manifestOf rt p e) := by
  unfold manifestOf
  cases getApp rt e.clients p.ns p.kind p.name with
  | error err => exact orderly_getAppFailed err
  | ok obj =>
    simp only
    cases manifestYAML rt obj p.kind with
    | error err => exact orderly_writeError (by decide) (by decide)
    | ok yaml => exact .inl rfl

theorem statusFromErr_ne (err : ApiError) : 400 ≤ statusFromErr err ∧ statusFromErr err ≠ 401 := by
  unfold statusFromErr
  cases err.kind <;> decide

theorem orderly_renderOf {sort : SortSlice Render.rowLess} {p : AppPath} {e : Entry} {fuel : ℕ}
    {resp : Response} (h : renderOf rt sort e p fuel = some resp) : Orderly resp := by
  unfold renderOf at h
  split_ifs at h
  · cases hk : e.clients.getKustomization p.ns p.name with
    | error err =>
      simp only [hk, Option.some.injEq] at h
      exact h ▸ statusFromErr_ne err
    | ok k =>
      simp only [hk, Option.some.injEq] at h
      exact h ▸ .inl rfl
  · cases hhr : e.clients.getHelmRelease p.ns p.name with
    | error err =>
      simp only [hhr, Option.some.injEq] at h
      exact h ▸ statusFromErr_ne err
    | ok hr =>
      simp only [hhr] at h
      obtain ⟨rendered, -, rfl⟩ := Option.map_eq_some_iff.mp h
      cases rendered with
      | none => exact rfl
      | some rendered => exact .inl rfl
  · exact Option.some.inj h ▸ orderly_writeError (by decide) (by decide)

theorem orderly_logsOf {sort : SortSlice podLess} {p : AppPath} {e : Entry} {fuel : ℕ} {resp : Response}
    (h : logsOf rt sort r p e fuel = some resp) : Orderly resp := by
  unfold logsOf at h
  cases hkube : e.clients.kube with
  | none =>
    simp only [hkube, Option.some.injEq] at h
    exact h ▸ orderly_writeError (by decide) (by decide)
  | some kube =>
    simp only [hkube] at h
    refine orderly_getApp (fun obj hobj => ?_) h
    obtain ⟨entries, -, rfl⟩ := Option.map_eq_some_iff.mp hobj
    unfold logsOfInventory
    simp only
    split
    · exact orderly_writeError (by decide) (by decide)
    · exact .inl rfl

theorem orderly_logsStreamOf {e : Entry} : ∀ resp ∈ logsStreamOf r e, Orderly resp := by
  intro resp h
  unfold logsStreamOf at h
  cases hkube : e.clients.kube with
  | none =>
    simp only [hkube] at h
    obtain rfl : resp = _ := h
    exact orderly_writeError (by decide) (by decide)
  | some kube =>
    simp only [hkube] at h
    cases hpod : podSpec (r.http.query "pod") with
    | none =>
      simp only [hpod] at h
      obtain rfl : resp = _ := h
      exact orderly_writeError (by decide) (by decide)
    | some pod =>
      simp only [hpod] at h
      split_ifs at h
      · obtain rfl : resp = _ := h
        exact orderly_writeError (by decide) (by decide)
      · split at h
        · obtain rfl : resp = _ := h
          exact orderly_writeError (by decide) (by decide)
        · obtain ⟨w, -, rfl⟩ := h
          exact .inl rfl

theorem orderly_serveApp (p : AppPath) (a : AppEndpoint) :
    ∀ resp ∈ serveApp rt sorts policy registry r p a, Orderly resp := by
  cases a with
  | history => exact orderly_withEntry fun e resp h => h ▸ orderly_historyOf p e
  | tree => exact orderly_withEntry fun e resp ⟨_, h⟩ => orderly_treeOf h
  | manifest => exact orderly_withEntry fun e resp h => h ▸ orderly_manifestOf p e
  | diff => exact orderly_withEntry fun e resp ⟨_, h⟩ => orderly_diffOf h
  | render => exact orderly_withEntry fun e resp ⟨_, h⟩ => orderly_renderOf h
  | logs => exact orderly_withEntry fun e resp ⟨_, h⟩ => orderly_logsOf h
  | logsStream => exact orderly_withEntry fun e => orderly_logsStreamOf

theorem orderly_serve (endpoint : Endpoint) :
    ∀ resp ∈ serve rt sorts policy registry r endpoint, Orderly resp := by
  cases endpoint with
  | app a p => exact orderly_serveApp p a
  | _ =>
    rintro resp ⟨l, -, rfl⟩
    exact .inl rfl

end Reads

section Mutations

variable {rt : MutationRuntime} {policy : Policy} {registry : Option (Registry Client)}
  {r : MutationRequest} {p : AppPath}

theorem orderly_actionFailed (err : ApiError) : Orderly (actionFailed err) := by
  unfold actionFailed
  cases err.kind <;> exact orderly_writeError (by decide) (by decide)

theorem orderly_ending (verb : GoString) (action : Action) :
    Orderly (ending rt policy registry r p verb action).response := by
  unfold ending
  split_ifs
  · exact orderly_writeError (by decide) (by decide)
  · exact orderly_writeError (by decide) (by decide)
  rcases registry with _ | reg
  · exact orderly_writeError (by decide) (by decide)
  simp only
  cases reg.get p.cluster with
  | none => exact orderly_writeError (by decide) (by decide)
  | some e =>
    simp only
    split_ifs
    · exact orderly_writeError (by decide) (by decide)
    · split
      · exact orderly_actionFailed _
      · exact .inr rfl

theorem orderly_serveMutation (e : MutationEndpoint) :
    Orderly (serveMutation rt policy registry r p e).response := by
  cases e with
  | mutate f v => exact orderly_ending v.text _
  | rollback =>
    show Orderly (rollback rt policy registry r p).response
    unfold rollback
    split
    · exact orderly_writeError (by decide) (by decide)
    · split_ifs
      · exact orderly_writeError (by decide) (by decide)
      · exact orderly_ending "rollback" _

end Mutations

theorem orderly_stream {toLower : GoString → GoString} {policy : Policy} {r : Request} :
    ∀ resp ∈ Stream.serve toLower policy r, Orderly resp := by
  intro resp h
  unfold Stream.serve at h
  split_ifs at h
  · obtain ⟨_, _, -, rfl⟩ := h
    exact .inl rfl
  · obtain rfl : resp = _ := h
    exact rfl

/-- No handler behind the gate answers 401. -/
theorem orderly_serveRoute {sys : System} {req : RawRequest} {u : RequestURL} {id : Auth.Identity}
    {values : List (GoString × GoString)} {route : Server.Routing.ApiRoute} {x : Exchange} {resp : Response}
    (hx : x ∈ sys.serveRoute req u id values route) (hresp : x.answer = .response resp) :
    Orderly resp := by
  have hreads : ∀ {answers : Set Response}, (∀ resp ∈ answers, Orderly resp) →
      x ∈ System.reads answers → Orderly resp := by
    rintro answers hall ⟨resp', hmem, rfl⟩
    obtain rfl := Answer.response.inj hresp
    exact hall _ hmem
  cases route with
  | version =>
    obtain rfl : x = _ := hx
    cases hresp
  | whoami =>
    obtain rfl : x = _ := hx
    cases hresp
  | stream => exact hreads orderly_stream hx
  | mutation e =>
    obtain rfl : x = _ := hx
    obtain rfl := Answer.response.inj hresp
    exact orderly_serveMutation e
  | app a => exact hreads (orderly_serve _) hx
  | clusters => exact hreads (orderly_serve _) hx
  | applications => exact hreads (orderly_serve _) hx
  | sources => exact hreads (orderly_serve _) hx
  | alerts => exact hreads (orderly_serve _) hx
  | events => exact hreads (orderly_serve _) hx
  | imageUpdates => exact hreads (orderly_serve _) hx

/-! ## What a page is told -/

/-- **Errors arrive.** A page sends the browser to sign in when the gate has refused its request, and
then alone; every other error it shows with the status and the message of the handler. -/
theorem told {sys : System} {req : RawRequest} :
    (∀ resp, sys.handle req = .refused resp → ∃ msg, sys.identify req = .error msg ∧
      resp.body = .error msg ∧
        fetchJSON texts loc resp.status (errorBody msg) = .pending (handleUnauthorized loc)) ∧
    ∀ exchanges, sys.handle req = .served exchanges → ∀ x ∈ exchanges, ∀ resp,
      x.answer = .response resp →
        (∀ msg, resp.body = .error msg →
          fetchJSON texts loc resp.status (errorBody msg) = .failed resp.status (shown resp.status msg)) ∧
        ∀ body goes, fetchJSON texts loc resp.status body ≠ .pending goes := by
  constructor
  · intro resp h
    obtain ⟨msg, hid, rfl⟩ := System.identify_of_refused h
    exact ⟨msg, hid, rfl, if_pos rfl⟩
  · intro exchanges h x hx resp hresp
    obtain ⟨u, id, route, values, -, -, -, rfl⟩ := System.handle_eq_served_iff.mp h
    have horderly := orderly_serveRoute hx hresp
    have hne : resp.status ≠ 401 := by
      unfold Orderly at horderly
      split at horderly
      · exact horderly.2
      · omega
      · omega
    refine ⟨fun msg hbody => ?_, fun body goes hpending => ?_⟩
    · have hle : 400 ≤ resp.status := by
        rw [Orderly, hbody] at horderly
        exact horderly.1
      exact fetchJSON_errorBody hle hne msg
    · rw [fetchJSON, if_neg hne] at hpending
      split_ifs at hpending
      split at hpending <;> cases hpending

end Yafu.Web.Fetch
