import Yafu.Server.Routing
import Yafu.Web.Queries

/-!
# The URLs of the client

Reference: `web/src/lib/queries.ts`, `useInvalidationStream` in `web/src/lib/stream.ts`, and
`buildStreamURL` in `web/src/pages/AppDetail.tsx`.

The client writes the four parts of an object into the path of its endpoint, each escaped by
`encodeURIComponent`, and what narrows a list into the query. `arrives` says where the request ends up:
at the handler that the client means, with the parts that it wrote, or nowhere.
-/

namespace Yafu.Web.Urls

open Yafu.Api (Verb)
open Yafu.Api.Types (Application Source Alert ImageUpdate)
open Yafu.Server.Routing (ApiRoute)
open Yafu.Web.Queries (Query)
open Browser PercentEncoding

/-! ## URLs -/

/-- The parts of an application. -/
def appParts (app : Application) : List GoString := [app.clusterId, app.ns, app.kind, app.name]

/-- A verb of an object: `${base}/${parts.join('/')}/${verb}`. -/
def objectURL (base : GoString) (parts : List GoString) (verb : GoString) : GoString :=
  base ++ Path.slash :: (Path.join (parts.map encodeURIComponent) ++ Path.slash :: verb)

/-- What is there and not empty. -/
def truthy (s : Option GoString) : Option GoString := s.filter (· ≠ [])

/-- The list of one cluster or of all. -/
def listURL (base : GoString) (clusterId : Option GoString) : GoString :=
  match truthy clusterId with
  | some c => base ++ ("?cluster=" : GoString) ++ encodeURIComponent c
  | none => base

/-- A parameter that is set if there is something to set it to. -/
def param (key : GoString) (value : Option GoString) : List (GoString × GoString) :=
  ((truthy value).map fun v => (key, v)).toList

/-- The parameters of `useAppLogs`. -/
def logParams (pod container : Option GoString) (tail : Option ℕ) : List (GoString × GoString) :=
  param "pod" pod ++ param "container" container ++
    param "tail" ((tail.filter (· ≠ 0)).map Clock.decimal)

/-- A URL with parameters. -/
def withParams (base : GoString) (params : List (GoString × GoString)) : GoString :=
  base ++ '?'.toUInt8 :: serialize params

/-- The parameters of `useAppEvents`. -/
def eventParams (app : Application) : List (GoString × GoString) :=
  [("cluster", app.clusterId), ("ns", app.ns), ("kind", app.kind), ("name", app.name)]

/-- The `path` of each hook. -/
def queryURL : Query → GoString
  | .whoami => "/api/v1/whoami"
  | .version => "/api/v1/version"
  | .clusters => "/api/v1/clusters"
  | .applications clusterId => listURL "/api/v1/applications" clusterId
  | .sources clusterId => listURL "/api/v1/sources" clusterId
  | .alerts clusterId => listURL "/api/v1/alerts" clusterId
  | .imageUpdates clusterId => listURL "/api/v1/image-updates" clusterId
  | .events clusterId => listURL "/api/v1/events" clusterId
  | .appLogs app pod container tail =>
    let base := objectURL "/api/v1/applications" (appParts app) "logs"
    let params := logParams pod container tail
    if serialize params ≠ [] then withParams base params else base
  | .appDiff app => objectURL "/api/v1/applications" (appParts app) "diff"
  | .appRender app => objectURL "/api/v1/applications" (appParts app) "render"
  | .appManifest app => objectURL "/api/v1/applications" (appParts app) "manifest"
  | .appTree app => objectURL "/api/v1/applications" (appParts app) "tree"
  | .appHistory app => objectURL "/api/v1/applications" (appParts app) "history"
  | .appEvents app => withParams "/api/v1/events" (eventParams app)

/-- `appActionURL`. -/
def appActionURL (app : Application) (verb : Verb) : GoString :=
  objectURL "/api/v1/applications" (appParts app) verb.text

/-- The URL of `useRollbackApp`. -/
def rollbackURL (app : Application) : GoString :=
  objectURL "/api/v1/applications" (appParts app) "rollback"

/-- `imageActionURL`. -/
def imageActionURL (u : ImageUpdate) (verb : Verb) (kind : GoString) : GoString :=
  objectURL "/api/v1/image-updates" [u.clusterId, u.ns, kind, u.name] verb.text

/-- `sourceActionURL`. -/
def sourceActionURL (s : Source) (verb : Verb) : GoString :=
  objectURL "/api/v1/sources" [s.clusterId, s.ns, s.kind, s.name] verb.text

/-- `alertActionURL`. -/
def alertActionURL (a : Alert) (verb : Verb) (kind : GoString) : GoString :=
  objectURL "/api/v1/alerts" [a.clusterId, a.ns, kind, a.name] verb.text

/-- `buildStreamURL`. -/
def buildStreamURL (app : Application) (pod container : Option GoString) : Option GoString :=
  (truthy pod).map fun pod =>
    withParams (objectURL "/api/v1/applications" (appParts app) "logs/stream")
      (("pod", pod) :: param "container" container)

/-! ## Calls -/

/-- A request that the client makes. -/
inductive Call where
  | query (q : Query)
  | stream
  | logsStream (app : Application) (pod container : Option GoString)
  | appVerb (verb : Verb) (app : Application)
  | rollback (app : Application)
  | imageVerb (verb : Verb) (u : ImageUpdate)
  | sourceVerb (verb : Verb) (s : Source)
  | alertVerb (verb : Verb) (a : Alert)

/-- The URL of a request, none if there is no request to make. -/
def Call.url : Call → Option GoString
  | query q => some (queryURL q)
  | stream => some "/api/v1/stream"
  | logsStream app pod container => buildStreamURL app pod container
  | appVerb verb app => some (appActionURL app verb)
  | rollback app => some (rollbackURL app)
  | imageVerb verb u => some (imageActionURL u verb "ImagePolicy")
  | sourceVerb verb s => some (sourceActionURL s verb)
  | alertVerb verb a => some (alertActionURL a verb "Alert")

/-- The method of a request. -/
def Call.method : Call → GoString
  | query _ => "GET"
  | stream => "GET"
  | logsStream _ _ _ => "GET"
  | _ => "POST"

/-! ## What a call means -/

/-- The handler that a query is for. -/
def queryRoute : Query → ApiRoute
  | .whoami => .whoami
  | .version => .version
  | .clusters => .clusters
  | .applications _ => .applications
  | .sources _ => .sources
  | .alerts _ => .alerts
  | .imageUpdates _ => .imageUpdates
  | .events _ => .events
  | .appLogs _ _ _ _ => .app .logs
  | .appDiff _ => .app .diff
  | .appRender _ => .app .render
  | .appManifest _ => .app .manifest
  | .appTree _ => .app .tree
  | .appHistory _ => .app .history
  | .appEvents _ => .events

/-- The handler that a call is for. -/
def Call.route : Call → ApiRoute
  | query q => queryRoute q
  | stream => .stream
  | logsStream _ _ _ => .app .logsStream
  | appVerb verb _ => .mutation (.mutate .applications verb)
  | rollback _ => .mutation .rollback
  | imageVerb verb _ => .mutation (.mutate .images verb)
  | sourceVerb verb _ => .mutation (.mutate .sources verb)
  | alertVerb verb _ => .mutation (.mutate .alerts verb)

/-- The parts of the object that a query is about. -/
def queryParts : Query → List GoString
  | .appLogs app _ _ _ => appParts app
  | .appDiff app => appParts app
  | .appRender app => appParts app
  | .appManifest app => appParts app
  | .appTree app => appParts app
  | .appHistory app => appParts app
  | _ => []

/-- The parts of the object that a call is about: cluster, namespace, kind and name. -/
def Call.parts : Call → List GoString
  | query q => queryParts q
  | stream => []
  | logsStream app _ _ => appParts app
  | appVerb _ app => appParts app
  | rollback app => appParts app
  | imageVerb _ u => [u.clusterId, u.ns, "ImagePolicy", u.name]
  | sourceVerb _ s => [s.clusterId, s.ns, s.kind, s.name]
  | alertVerb _ a => [a.clusterId, a.ns, "Alert", a.name]

/-- The parameters of a query. -/
def queryParams : Query → List (GoString × GoString)
  | .applications clusterId => param "cluster" clusterId
  | .sources clusterId => param "cluster" clusterId
  | .alerts clusterId => param "cluster" clusterId
  | .imageUpdates clusterId => param "cluster" clusterId
  | .events clusterId => param "cluster" clusterId
  | .appLogs _ pod container tail => logParams pod container tail
  | .appEvents app => eventParams app
  | _ => []

/-- The parameters of a call. -/
def Call.params : Call → List (GoString × GoString)
  | query q => queryParams q
  | logsStream _ pod container => param "pod" pod ++ param "container" container
  | _ => []

/-! ## What a call writes -/

/-- A path and a query as they are written, and what they mean. -/
structure Written (ref : GoString) (r : ApiRoute) (parts : List GoString)
    (params : List (GoString × GoString)) : Prop where
  arity : parts.length = r.shape.names.length
  reference : ∃ query, ref = reference (r.writtenPath parts) query ∧
    Url.parseQuery ((query.map (encode queryKeeps)).getD []) = params

/-- A form is written in bytes that a browser keeps. -/
theorem encode_serialize (params : List (GoString × GoString)) :
    encode queryKeeps (serialize params) = serialize params := by
  have hdigit : ∀ n < 16, queryKeeps (upperHexDigit n) = true := by decide +kernel
  have hsafe : ∀ {b : UInt8}, formSafe b = true → queryKeeps b = true := by
    intro b
    refine GoString.forall_byte (p := fun b => formSafe b = true → queryKeeps b = true) ?_ b
    decide +kernel
  have hform : ∀ {s : GoString} {b : UInt8}, b ∈ formEncode s → queryKeeps b = true := by
    intro s b hb
    obtain ⟨c, -, hb⟩ := List.mem_flatMap.mp hb
    have hlt := c.toNat_lt
    unfold formByte at hb
    split_ifs at hb with hspace hkept
    · rw [List.mem_singleton.mp hb]
      decide
    · exact hsafe (List.mem_singleton.mp hb ▸ hkept)
    · simp only [escapeByte, List.mem_cons, List.not_mem_nil, or_false] at hb
      rcases hb with rfl | rfl | rfl
      · decide
      · exact hdigit _ (by omega)
      · exact hdigit _ (by omega)
  refine encode_eq_self fun b hb => ?_
  rcases GoString.of_mem_joinLines hb with rfl | ⟨text, htext, hb⟩
  · decide
  · obtain ⟨p, -, rfl⟩ := List.mem_map.mp htext
    rcases List.mem_append.mp hb with hb | hb
    · exact hform hb
    · rcases List.mem_cons.mp hb with rfl | hb
      · decide
      · exact hform hb

theorem parseQuery_cluster (c : GoString) :
    Url.parseQuery (encode queryKeeps (("cluster=" : GoString) ++ encodeURIComponent c)) =
      [(("cluster" : GoString), c)] := by
  have hname : ("cluster=" : GoString) = encodeURIComponent "cluster" ++ ['='.toUInt8] := by decide +kernel
  rw [hname, List.append_assoc]
  exact parseQuery_parameter "cluster" c

theorem objectURL_eq {r : ApiRoute} {base verb : GoString} {parts : List GoString}
    (hlen : parts.length = r.shape.names.length) (hnames : r.shape.names ≠ [])
    (hbase : base = Path.slash :: Path.join r.shape.front) (hverb : verb = Path.join r.shape.back) :
    objectURL base parts verb = reference (r.writtenPath parts) none := by
  have hback := (r.wellFormed.object hnames).2
  have hparts : parts.map encodeURIComponent ≠ [] := by
    intro h
    rw [List.map_eq_nil_iff] at h
    rw [h] at hlen
    exact hnames (List.length_eq_zero_iff.mp hlen.symm)
  have hfront : r.shape.front ≠ [] := List.cons_ne_nil _ _
  rw [objectURL, hbase, hverb, ← Path.join_append hparts hback, List.cons_append,
    ← Path.join_append hfront (List.append_ne_nil_of_right_ne_nil _ hback)]
  exact (List.append_nil _).symm

variable {r : ApiRoute} {base ref : GoString} {parts : List GoString}
  {params : List (GoString × GoString)}

theorem written_plain (hlen : parts.length = r.shape.names.length)
    (href : ref = reference (r.writtenPath parts) none) : Written ref r parts [] :=
  ⟨hlen, none, href, rfl⟩

theorem written_withParams (hlen : parts.length = r.shape.names.length)
    (hbase : base = reference (r.writtenPath parts) none) :
    Written (withParams base params) r parts params := by
  refine ⟨hlen, some (serialize params), ?_, ?_⟩
  · rw [withParams, hbase]
    exact congrArg (· ++ '?'.toUInt8 :: serialize params) (List.append_nil _)
  · rw [Option.map_some, Option.getD_some, encode_serialize, parseQuery_serialize]

theorem written_list (hnames : r.shape.names = []) (hbase : base = reference (r.writtenPath []) none)
    (clusterId : Option GoString) :
    Written (listURL base clusterId) r [] (param "cluster" clusterId) := by
  have hlen : ([] : List GoString).length = r.shape.names.length := by rw [hnames]
  unfold listURL param
  rcases truthy clusterId with _ | c
  · exact written_plain hlen hbase
  · refine ⟨hlen, some (("cluster=" : GoString) ++ encodeURIComponent c), ?_, parseQuery_cluster c⟩
    have hmark : ("?cluster=" : GoString) = '?'.toUInt8 :: ("cluster=" : GoString) := by decide
    show base ++ ("?cluster=" : GoString) ++ encodeURIComponent c = _
    rw [hbase, List.append_assoc, hmark]
    exact congrArg (· ++ '?'.toUInt8 :: (("cluster=" : GoString) ++ encodeURIComponent c))
      (List.append_nil _)

/-- The path in front of the parts. -/
theorem base_eq : ∀ family ∈ (["applications", "sources", "alerts", "image-updates"] : List GoString),
    ("/api/v1/" : GoString) ++ family = Path.slash :: Path.join ("api" :: "v1" :: [family]) := by
  decide +kernel

theorem queryURL_written (q : Query) :
    Written (queryURL q) (queryRoute q) (queryParts q) (queryParams q) := by
  have hbase : ("/api/v1/applications" : GoString) =
      Path.slash :: Path.join ("api" :: "v1" :: [("applications" : GoString)]) := by decide +kernel
  have hnames : ∀ a, (ApiRoute.app a).shape.names ≠ [] := fun _ => List.cons_ne_nil _ _
  have hobject : ∀ (a : Api.AppEndpoint) (app : Application) (verb : GoString),
      verb = Path.join (ApiRoute.app a).shape.back →
        Written (objectURL "/api/v1/applications" (appParts app) verb) (.app a) (appParts app) [] :=
    fun a app verb hverb => written_plain rfl (objectURL_eq rfl (hnames a) hbase hverb)
  have hevents : ("/api/v1/events" : GoString) = reference (ApiRoute.events.writtenPath []) none := by
    decide +kernel
  cases q with
  | whoami => exact written_plain rfl (by decide +kernel)
  | version => exact written_plain rfl (by decide +kernel)
  | clusters => exact written_plain rfl (by decide +kernel)
  | applications c => exact written_list (r := .applications) rfl (by decide +kernel) c
  | sources c => exact written_list (r := .sources) rfl (by decide +kernel) c
  | alerts c => exact written_list (r := .alerts) rfl (by decide +kernel) c
  | imageUpdates c => exact written_list (r := .imageUpdates) rfl (by decide +kernel) c
  | events c => exact written_list rfl hevents c
  | appDiff app => exact hobject .diff app _ rfl
  | appRender app => exact hobject .render app _ rfl
  | appManifest app => exact hobject .manifest app _ rfl
  | appTree app => exact hobject .tree app _ rfl
  | appHistory app => exact hobject .history app _ rfl
  | appEvents app => exact written_withParams rfl hevents
  | appLogs app pod container tail =>
    have hlogs : objectURL "/api/v1/applications" (appParts app) "logs" =
        reference ((ApiRoute.app .logs).writtenPath (appParts app)) none :=
      objectURL_eq rfl (hnames _) hbase rfl
    show Written (if _ then _ else _) _ _ (logParams pod container tail)
    split_ifs with hparams
    · exact written_withParams rfl hlogs
    · -- nothing is serialized, so there is no parameter
      have hnil : logParams pod container tail = [] := by
        rw [← parseQuery_serialize (logParams pod container tail), not_not.mp hparams]
        rfl
      rw [hnil]
      exact written_plain rfl hlogs

/-- Every call is written as it is meant. -/
theorem Call.written {call : Call} (h : call.url = some ref) :
    Written ref call.route call.parts call.params := by
  have hnames : ∀ f verb, (ApiRoute.mutation (.mutate f verb)).shape.names ≠ [] :=
    fun _ _ => List.cons_ne_nil _ _
  have hverb : ∀ (f : Api.Family) (verb : Verb) (parts : List GoString), parts.length = 4 →
      Written (objectURL (("/api/v1/" : GoString) ++ Server.Routing.familyText f) parts verb.text)
        (.mutation (.mutate f verb)) parts [] := by
    intro f verb parts hlen
    refine written_plain hlen (objectURL_eq hlen (hnames f verb) (base_eq _ ?_) rfl)
    cases f <;> decide
  cases call with
  | query q =>
    obtain rfl := Option.some.inj h
    exact queryURL_written q
  | stream =>
    obtain rfl := Option.some.inj h
    exact written_plain rfl (by decide +kernel)
  | logsStream app pod container =>
    obtain ⟨p, hp, rfl⟩ := Option.map_eq_some_iff.mp h
    have hparam : param "pod" pod = [(("pod" : GoString), p)] := by
      rw [param, hp]
      rfl
    have hlogs : objectURL "/api/v1/applications" (appParts app) "logs/stream" =
        reference ((ApiRoute.app .logsStream).writtenPath (appParts app)) none :=
      objectURL_eq rfl (List.cons_ne_nil _ _) (base_eq "applications" (by decide)) (by decide +kernel)
    show Written _ _ _ (param "pod" pod ++ param "container" container)
    rw [hparam]
    exact written_withParams rfl hlogs
  | appVerb verb app =>
    obtain rfl := Option.some.inj h
    exact hverb .applications verb (appParts app) rfl
  | rollback app =>
    obtain rfl := Option.some.inj h
    have hrollback : (ApiRoute.mutation .rollback).shape.names ≠ [] := List.cons_ne_nil _ _
    exact written_plain rfl
      (objectURL_eq rfl hrollback (base_eq "applications" (by decide)) rfl)
  | imageVerb verb u =>
    obtain rfl := Option.some.inj h
    exact hverb .images verb _ rfl
  | sourceVerb verb s =>
    obtain rfl := Option.some.inj h
    exact hverb .sources verb _ rfl
  | alertVerb verb a =>
    obtain rfl := Option.some.inj h
    exact hverb .alerts verb _ rfl

theorem Call.method_eq (call : Call) : call.method = call.route.shape.method := by
  cases call with
  | query q => cases q <;> rfl
  | _ => rfl

/-- **A call arrives where it is meant to, or nowhere.** Whatever is in the parts of the object and in
the parameters, the server reads the parameters that the client wrote, and the request comes to the
handler that the client means with the parts of its object. If one of the parts is empty, dots or a
slash, it comes to no handler of the API. -/
theorem arrives (oidc : Bool) {call : Call} {ref : GoString} (h : call.url = some ref) :
    ∃ u, Url.parseRequestURI (requestTarget ref) = some u ∧
      Url.parseQuery u.rawQuery = call.params ∧
      Server.Routing.apiHandler oidc call.method u =
        if ∀ part ∈ call.parts, part ∉ Server.Routing.unroutable then
          some (call.route, call.route.shape.names.zip call.parts)
        else none := by
  obtain ⟨hlen, query, rfl, hparams⟩ := call.written h
  obtain ⟨u, hparse, hquery, hhandler⟩ :=
    Server.Routing.apiHandler_reference oidc call.route hlen query
  refine ⟨u, hparse, ?_, ?_⟩
  · rw [hquery, hparams]
  · rw [call.method_eq, hhandler]

/-- An application whose parts have a slash, a space, a question mark and more. -/
def awkwardApp : Application where
  id := ""
  name := "50%?"
  kind := "Kustomization"
  ns := "team a"
  cluster := "EU"
  clusterId := "prod/eu"
  status := ""
  sync := ""
  source := ""
  revision := ""
  age := ""
  message := ""
  suspended := false

/-- Its request to suspend. -/
theorem arrives_awkwardApp :
    ∃ u, Url.parseRequestURI (requestTarget (appActionURL awkwardApp .suspend)) = some u ∧
      Url.parseQuery u.rawQuery = [] ∧
      Server.Routing.apiHandler true "POST" u =
        some (ApiRoute.mutation (.mutate .applications .suspend),
          Server.Routing.objectNames.zip (appParts awkwardApp)) := by
  obtain ⟨u, hparse, hquery, hhandler⟩ := @arrives true (.appVerb .suspend awkwardApp) _ rfl
  exact ⟨u, hparse, hquery, hhandler.trans (if_pos (by decide))⟩

end Yafu.Web.Urls
