import Yafu.Api.FluxObject
import Yafu.Api.Handler
import Yafu.Lib.Json

/-!
# Mutations

Reference: `internal/audit/audit.go`; `runMutation`, the actions and the handlers in
`internal/api/mutations.go`, `source_mutations.go`, `alert_mutations.go` and `image_mutations.go`;
and `internal/api/rollback.go`.

A handler comes to a response, the audit records it has written and the calls it has made to the
cluster. What a cluster answers is a `Client`.
-/

namespace Yafu.Audit

open Yafu.Cluster (Time)

/-- `Outcome`. -/
inductive Outcome
  | ok
  | denied
  | error
deriving DecidableEq, Repr

/-- `Identity` of a record. -/
structure Identity where
  subject : GoString
  email : GoString := []
  groups : List GoString := []
deriving DecidableEq, Repr

/-- `Resource`. -/
structure Resource where
  cluster : GoString
  ns : GoString := []
  kind : GoString := []
  name : GoString := []
deriving DecidableEq, Repr

/-- `Record`. -/
structure Record where
  timestamp : Time := 0
  requestId : GoString := []
  identity : Identity
  verb : GoString
  resource : Resource
  outcome : Outcome
  error : GoString := []
  remoteAddr : GoString := []
deriving DecidableEq, Repr

/-- `Logger.Record`, on the records written so far. -/
def record (now : Time) (log : List Record) (r : Record) : List Record :=
  log ++ [if r.timestamp = 0 then { r with timestamp := now } else r]

end Yafu.Audit

namespace Yafu.Api

open Yafu.Auth (Policy)
open Yafu.Cluster (Time Registry)

/-! ## Calls to a cluster -/

/-- A call, a patch with its data. -/
inductive Call
  | get (kind ns name : GoString)
  | patch (kind ns name : GoString) (data : Tree)

/-- `Get` and `Patch` of `client.Client` for the Flux kinds, as they are answered while one request
is served. -/
structure Client where
  get : GoString → GoString → GoString → Except ApiError FluxObject
  patch : GoString → GoString → GoString → Tree → Except ApiError Unit

/-- What an action has called, and what it returns. -/
structure Attempt (α : Type) where
  calls : List Call := []
  result : Except ApiError α

/-- An action on the object of this namespace, kind and name. -/
abbrev Action := Client → GoString → GoString → GoString → Attempt Unit

/-- What the mutation handlers take from the standard library and from the clock, which is read
several times in a request. -/
structure MutationRuntime where
  toLower : GoString → GoString
  quote : GoString → GoString
  clock : ℕ → Time

/-- `reconcileAnnotation`. -/
def reconcileAnnotation : GoString := "reconcile.fluxcd.io/requestedAt"

/-! ## Actions -/

section Actions

variable (rt : MutationRuntime)

/-- What the functions that get an object of some kinds have in common. -/
def getObj (kinds : List GoString) (expected : GoString) (c : Client) (ns kind name : GoString) :
    Attempt FluxObject :=
  if kinds.contains kind then ⟨[.get kind ns name], c.get kind ns name⟩
  else
    { result := .error
        { text := ("unsupported kind " : GoString) ++ rt.quote kind ++ (" (expected " : GoString) ++
            expected ++ (")" : GoString) } }

/-- `getApp`, for a mutation. -/
def getAppObj : Client → GoString → GoString → GoString → Attempt FluxObject :=
  getObj rt ["Kustomization", "HelmRelease"] "Kustomization or HelmRelease"

/-- `getSourceObj`. -/
def getSourceObj : Client → GoString → GoString → GoString → Attempt FluxObject :=
  getObj rt ["GitRepository", "HelmRepository", "OCIRepository", "Bucket"]
    "GitRepository, HelmRepository, OCIRepository, or Bucket"

/-- `getAlertObj`. -/
def getAlertObj : Client → GoString → GoString → GoString → Attempt FluxObject :=
  getObj rt ["Alert", "Provider", "Receiver"] "Alert, Provider, or Receiver"

/-- `getImageObj`. -/
def getImageObj : Client → GoString → GoString → GoString → Attempt FluxObject :=
  getObj rt ["ImagePolicy", "ImageRepository", "ImageUpdateAutomation"]
    "ImagePolicy, ImageRepository, or ImageUpdateAutomation"

/-- Gets an object, changes it and sends the merge patch from what it was. -/
def patchObj (get : Client → GoString → GoString → GoString → Attempt FluxObject)
    (change : FluxObject → FluxObject) : Action := fun c ns kind name =>
  match (get c ns kind name).result with
  | .error err => ⟨(get c ns kind name).calls, .error err⟩
  | .ok obj =>
    let data := obj.mergeFrom (change obj)
    ⟨(get c ns kind name).calls ++ [.patch kind ns name data], c.patch kind ns name data⟩

/-- What the three verbs do to an object; `now` is the clock reading of a reconcile request. -/
inductive Verb
  | reconcile
  | suspend
  | resume
deriving DecidableEq, Repr

/-- The verb as it is authorised and recorded. -/
def Verb.text : Verb → GoString
  | .reconcile => "reconcile"
  | .suspend => "suspend"
  | .resume => "resume"

/-- The change to the object. -/
def Verb.change (now : Time) : Verb → FluxObject → FluxObject
  | .reconcile, obj => obj.annotate reconcileAnnotation (Clock.rfc3339Nano now)
  | .suspend, obj => { obj with suspend := true }
  | .resume, obj => { obj with suspend := false }

/-- The handlers of each verb. -/
inductive Family
  | applications
  | sources
  | alerts
  | images
deriving DecidableEq, Repr

/-- How a handler gets its objects. -/
def Family.getObj : Family → Client → GoString → GoString → GoString → Attempt FluxObject
  | .applications => getAppObj rt
  | .sources => getSourceObj rt
  | .alerts => getAlertObj rt
  | .images => getImageObj rt

/-- The action of a verb. -/
def Verb.action (f : Family) (v : Verb) : Action := patchObj (f.getObj rt) (v.change (rt.clock 0))

/-! ### Rollback -/

/-- `helmReconcileRequestAnnotation`. -/
def helmReconcileRequestAnnotation : GoString := "reconcile.fluxcd.io/requestedAt"

/-- `ForceRequestAnnotation` of `helm-controller`. -/
def forceRequestAnnotation : GoString := "reconcile.fluxcd.io/forceAt"

/-- Where a release has the version of its chart, in `spec`. -/
def versionPath : List GoString := ["chart", "spec", "version"]

/-- `Spec.Chart.Spec.Version`, empty if there is no chart. -/
def FluxObject.chartVersion (hr : FluxObject) : GoString :=
  match (MergePatch.Tree.node hr.spec).get versionPath with
  | some (.leaf (.str version)) => version
  | _ => []

/-- Assigns to `Spec.Chart.Spec.Version`. -/
def FluxObject.setChartVersion (hr : FluxObject) (version : GoString) : FluxObject :=
  { hr with
    spec := (MergePatch.merge (.node hr.spec) (MergePatch.along versionPath (strLeaf version))).fields }

/-- The change that `rollbackHelmRelease` makes. -/
def rollbackChange (revision : GoString) (hr : FluxObject) : FluxObject :=
  ((hr.setChartVersion revision).annotate helmReconcileRequestAnnotation
    (Clock.rfc3339Nano (rt.clock 0))).annotate forceRequestAnnotation (Clock.rfc3339Nano (rt.clock 1))

/-- `rollbackHelmRelease`. -/
def rollbackHelmRelease (c : Client) (ns name revision : GoString) : Attempt Unit :=
  let get : Call := .get "HelmRelease" ns name
  match c.get "HelmRelease" ns name with
  | .error err => ⟨[get], .error err⟩
  | .ok hr =>
    if hr.chartVersion = [] then
      -- nothing is pinned where the release has a `chartRef`
      ⟨[get], .error
        { text := "HelmRelease has no spec.chart.spec.version pinned — rollback only works for HelmReleases that pin a chart version. ChartRef-based releases must be rolled back by reverting the source revision in Git" }⟩
    else
      let data := hr.mergeFrom (rollbackChange rt revision hr)
      ⟨[get, .patch "HelmRelease" ns name data], c.patch "HelmRelease" ns name data⟩

/-- The action of `rollback`. -/
def rollbackAction (revision : GoString) : Action := fun c ns kind name =>
  if kind = "HelmRelease" then rollbackHelmRelease rt c ns name revision
  else if kind = "Kustomization" then
    { result := .error
        { text := "kustomizations always reconcile from source HEAD; revert the change in Git instead of rolling back here" } }
  else { result := .error { text := ("unsupported kind " : GoString) ++ rt.quote kind } }

end Actions

/-! ## The pipeline -/

/-- A request for a mutation. The body is what the JSON scanner makes of its first value, or its
error. -/
structure MutationRequest where
  identity : Auth.Identity
  requestId : GoString := []
  remoteAddr : GoString := []
  body : Except GoString Json.Value := .error "EOF"

/-- What a handler comes to. -/
structure Served where
  response : Response
  audit : List Audit.Record := []
  calls : List Call := []

section Pipeline

variable (rt : MutationRuntime) (policy : Policy) (registry : Option (Registry Client))
  (r : MutationRequest) (p : AppPath)

/-- Outcome and error of the record, the response and the calls, when `runMutation` returns. -/
structure Ending where
  outcome : Audit.Outcome
  error : GoString := []
  response : Response
  calls : List Call := []

/-- A response to the error of an action. -/
def actionFailed (err : ApiError) : Response :=
  writeError jsonHeaders
    (match err.kind with
      | .notFound => statusNotFound
      | .forbidden => statusForbidden
      | .conflict => statusConflict
      | _ => Http.statusInternalServerError) err.text

/-- The body of `runMutation`. -/
def ending (verb : GoString) (action : Action) : Ending :=
  if p.cluster = [] ∨ p.ns = [] ∨ p.kind = [] ∨ p.name = [] then
    { outcome := .error
      error := "missing path params"
      response := writeError jsonHeaders Http.statusBadRequest "missing path params" }
  else if policy.authorize rt.toLower r.identity verb p.cluster = false then
    { outcome := .denied
      error := "policy denied"
      response := writeError jsonHeaders statusForbidden
        (("identity is not allowed to " : GoString) ++ rt.quote verb ++ (" on cluster " : GoString) ++
          rt.quote p.cluster) }
  else
    match registry with
    | none =>
      { outcome := .error
        error := "registry not initialised"
        response := writeError jsonHeaders statusServiceUnavailable "registry not initialised" }
    | some reg =>
      match reg.get p.cluster with
      | none =>
        { outcome := .error
          error := "unknown cluster"
          response := writeError jsonHeaders statusNotFound
            (("cluster " : GoString) ++ rt.quote p.cluster ++ (" not registered" : GoString)) }
      | some e =>
        if e.status.reachable = false then
          { outcome := .error
            error := "cluster unreachable"
            response := writeError jsonHeaders statusServiceUnavailable "cluster unreachable" }
        else
          let attempt := action e.clients p.ns p.kind p.name
          match attempt.result with
          | .error err =>
            { outcome := .error
              error := err.text
              response := actionFailed err
              calls := attempt.calls }
          | .ok () =>
            { outcome := .ok
              response :=
                { status := statusAccepted
                  body := .accepted { verb, cluster := p.cluster, id := p.id } }
              calls := attempt.calls }

/-- `runMutation`; the record is written when it returns. -/
def runMutation (verb : GoString) (action : Action) : Served :=
  let e := ending rt policy registry r p verb action
  { response := e.response
    audit := Audit.record (rt.clock 2) []
      { requestId := r.requestId
        identity := ⟨r.identity.subject, r.identity.email, r.identity.groups⟩
        verb
        resource := ⟨p.cluster, p.ns, p.kind, p.name⟩
        outcome := e.outcome
        error := e.error
        remoteAddr := r.remoteAddr }
    calls := e.calls }

/-! ## The endpoints -/

/-- The name of a value in the errors of `encoding/json`. -/
def valueName : Json.Value → GoString
  | .null => "null"
  | .bool _ => "bool"
  | .number _ => "number"
  | .string _ => "string"
  | .array _ => "array"
  | .object _ => "object"

/-- A name with `s` for the letter `ſ`, the one beyond ASCII that folds to a letter of `revision`.
-/
def foldLongS : GoString → GoString
  | 0xC5 :: 0xBF :: s => 's'.toUInt8 :: foldLongS s
  | b :: s => b :: foldLongS s
  | [] => []

/-- Whether `Decode` takes a member for the field `revision`. -/
def isRevision (name : GoString) : Bool := GoString.asciiLower (foldLongS name) = "revision"

/-- What `Decode` makes of the members of the body. -/
def decodeMembers (revision : GoString) : List (GoString × Json.Value) → Except GoString GoString
  | [] => .ok revision
  | (name, v) :: ms =>
    if isRevision name then
      match v with
      | .string s => decodeMembers s ms
      | .null => decodeMembers revision ms
      | v =>
        .error (("json: cannot unmarshal " : GoString) ++ valueName v ++
          (" into Go struct field .revision of type string" : GoString))
    else decodeMembers revision ms

/-- The field `Revision` of the body that `rollback` decodes. -/
def decodeRevision (body : Except GoString Json.Value) : Except GoString GoString :=
  match body with
  | .error err => .error err
  | .ok .null => .ok []
  | .ok (.object ms) => decodeMembers [] ms
  | .ok v =>
    .error (("json: cannot unmarshal " : GoString) ++ valueName v ++
      (" into Go value of type struct \x7b Revision string \"json:\\\"revision\\\"\" \x7d" : GoString))

/-- `applicationsHandler.rollback`. -/
def rollback : Served :=
  match decodeRevision r.body with
  -- both answers to the body come before `runMutation`, which writes the record
  | .error err =>
    { response := writeError [] Http.statusBadRequest (("decode body: " : GoString) ++ err) }
  | .ok revision =>
    if revision = [] then
      { response := writeError [] Http.statusBadRequest "missing required field: revision" }
    else runMutation rt policy registry r p "rollback" (rollbackAction rt revision)

/-- The mutation endpoints. -/
inductive MutationEndpoint
  | mutate (f : Family) (v : Verb)
  | rollback
deriving DecidableEq, Repr

/-- What is authorised and recorded. -/
def MutationEndpoint.verb : MutationEndpoint → GoString
  | .mutate _ v => v.text
  | .rollback => "rollback"

/-- What an endpoint comes to. -/
def serveMutation : MutationEndpoint → Served
  | .mutate f v => runMutation rt policy registry r p v.text (v.action rt f)
  | .rollback => rollback rt policy registry r p

end Pipeline

end Yafu.Api
