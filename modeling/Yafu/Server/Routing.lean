import Yafu.Api.Mutations
import Yafu.Api.NonInterference
import Yafu.Lib.ServeMux
import Mathlib.Tactic.MkIffOfInductiveProp

/-!
# The routes of the server

Reference: `New` in `internal/server/server.go`, `RegisterPublic` and `RegisterAPI` in
`internal/api/api.go`, `Register` in `internal/web/web.go`.

Two muxes: the outer one has the public routes and hands everything below `/api/` to the inner one,
behind the authentication.
-/

namespace Yafu.Server.Routing

open Yafu.Api
open ServeMux

/-- The handlers that `RegisterAPI` registers. -/
inductive ApiRoute where
  | version
  | whoami
  | stream
  | clusters
  | applications
  | sources
  | alerts
  | events
  | imageUpdates
  | app (a : AppEndpoint)
  | mutation (e : MutationEndpoint)
deriving DecidableEq, Repr

/-- What `RegisterAPI` registers, in its order. -/
def apiPatterns : List (GoString × ApiRoute) := [
  ("GET /api/v1/version", .version),
  ("GET /api/v1/whoami", .whoami),
  ("GET /api/v1/stream", .stream),
  ("GET /api/v1/clusters", .clusters),
  ("GET /api/v1/applications", .applications),
  ("POST /api/v1/applications/\x7bcluster\x7d/\x7bns\x7d/\x7bkind\x7d/\x7bname\x7d/reconcile",
    .mutation (.mutate .applications .reconcile)),
  ("POST /api/v1/applications/\x7bcluster\x7d/\x7bns\x7d/\x7bkind\x7d/\x7bname\x7d/suspend",
    .mutation (.mutate .applications .suspend)),
  ("POST /api/v1/applications/\x7bcluster\x7d/\x7bns\x7d/\x7bkind\x7d/\x7bname\x7d/resume",
    .mutation (.mutate .applications .resume)),
  ("POST /api/v1/applications/\x7bcluster\x7d/\x7bns\x7d/\x7bkind\x7d/\x7bname\x7d/rollback",
    .mutation .rollback),
  ("GET /api/v1/applications/\x7bcluster\x7d/\x7bns\x7d/\x7bkind\x7d/\x7bname\x7d/history",
    .app .history),
  ("GET /api/v1/applications/\x7bcluster\x7d/\x7bns\x7d/\x7bkind\x7d/\x7bname\x7d/tree",
    .app .tree),
  ("GET /api/v1/applications/\x7bcluster\x7d/\x7bns\x7d/\x7bkind\x7d/\x7bname\x7d/manifest",
    .app .manifest),
  ("GET /api/v1/applications/\x7bcluster\x7d/\x7bns\x7d/\x7bkind\x7d/\x7bname\x7d/diff",
    .app .diff),
  ("GET /api/v1/applications/\x7bcluster\x7d/\x7bns\x7d/\x7bkind\x7d/\x7bname\x7d/render",
    .app .render),
  ("GET /api/v1/applications/\x7bcluster\x7d/\x7bns\x7d/\x7bkind\x7d/\x7bname\x7d/logs",
    .app .logs),
  ("GET /api/v1/applications/\x7bcluster\x7d/\x7bns\x7d/\x7bkind\x7d/\x7bname\x7d/logs/stream",
    .app .logsStream),
  ("GET /api/v1/sources", .sources),
  ("POST /api/v1/sources/\x7bcluster\x7d/\x7bns\x7d/\x7bkind\x7d/\x7bname\x7d/reconcile",
    .mutation (.mutate .sources .reconcile)),
  ("POST /api/v1/sources/\x7bcluster\x7d/\x7bns\x7d/\x7bkind\x7d/\x7bname\x7d/suspend",
    .mutation (.mutate .sources .suspend)),
  ("POST /api/v1/sources/\x7bcluster\x7d/\x7bns\x7d/\x7bkind\x7d/\x7bname\x7d/resume",
    .mutation (.mutate .sources .resume)),
  ("GET /api/v1/alerts", .alerts),
  ("POST /api/v1/alerts/\x7bcluster\x7d/\x7bns\x7d/\x7bkind\x7d/\x7bname\x7d/reconcile",
    .mutation (.mutate .alerts .reconcile)),
  ("POST /api/v1/alerts/\x7bcluster\x7d/\x7bns\x7d/\x7bkind\x7d/\x7bname\x7d/suspend",
    .mutation (.mutate .alerts .suspend)),
  ("POST /api/v1/alerts/\x7bcluster\x7d/\x7bns\x7d/\x7bkind\x7d/\x7bname\x7d/resume",
    .mutation (.mutate .alerts .resume)),
  ("GET /api/v1/events", .events),
  ("GET /api/v1/image-updates", .imageUpdates),
  ("POST /api/v1/image-updates/\x7bcluster\x7d/\x7bns\x7d/\x7bkind\x7d/\x7bname\x7d/reconcile",
    .mutation (.mutate .images .reconcile)),
  ("POST /api/v1/image-updates/\x7bcluster\x7d/\x7bns\x7d/\x7bkind\x7d/\x7bname\x7d/suspend",
    .mutation (.mutate .images .suspend)),
  ("POST /api/v1/image-updates/\x7bcluster\x7d/\x7bns\x7d/\x7bkind\x7d/\x7bname\x7d/resume",
    .mutation (.mutate .images .resume))]

/-- The inner mux. -/
def innerMux : Routes ApiRoute := apiPatterns.map fun p => (parsePattern p.1, p.2)

/-- What the outer mux leads to. -/
inductive Target where
  | metrics
  | healthz
  | readyz
  | ui
  | login
  | callback
  | logout
  | api
deriving DecidableEq, Repr

/-- The handlers of `/auth/`, which are there for OIDC alone. -/
def authPatterns : List (GoString × Target) := [
  ("GET /auth/login", .login),
  ("GET /auth/callback", .callback),
  ("GET /auth/logout", .logout)]

/-- The routes that are always there. -/
def publicPatterns : List (GoString × Target) := [
  ("GET /metrics", .metrics),
  ("GET /healthz", .healthz),
  ("GET /readyz", .readyz),
  ("/", .ui),
  ("/api/", .api)]

/-- What `New` registers. -/
def rootPatterns (oidc : Bool) : List (GoString × Target) :=
  publicPatterns ++ if oidc then authPatterns else []

/-- The outer mux. -/
def rootMux (oidc : Bool) : Routes Target :=
  (rootPatterns oidc).map fun p => (parsePattern p.1, p.2)

/-! ## The patterns -/

/-- Which list, or which object, a handler is for: its method, the word behind `/api/v1/`, and what
stands behind the four wildcards of an object. -/
@[ext] structure Shape where
  method : GoString
  family : GoString
  suffix : Option (List GoString)
deriving DecidableEq, Repr

/-- The word of a family. -/
def familyText : Family → GoString
  | .applications => "applications"
  | .sources => "sources"
  | .alerts => "alerts"
  | .images => "image-updates"

/-- The word of an endpoint of one application, or the two words. -/
def appSuffix : AppEndpoint → List GoString
  | .history => ["history"]
  | .tree => ["tree"]
  | .manifest => ["manifest"]
  | .diff => ["diff"]
  | .render => ["render"]
  | .logs => ["logs"]
  | .logsStream => ["logs", "stream"]

/-- The shape of each handler's pattern. -/
def ApiRoute.shape : ApiRoute → Shape
  | .version => ⟨"GET", "version", none⟩
  | .whoami => ⟨"GET", "whoami", none⟩
  | .stream => ⟨"GET", "stream", none⟩
  | .clusters => ⟨"GET", "clusters", none⟩
  | .applications => ⟨"GET", "applications", none⟩
  | .sources => ⟨"GET", "sources", none⟩
  | .alerts => ⟨"GET", "alerts", none⟩
  | .events => ⟨"GET", "events", none⟩
  | .imageUpdates => ⟨"GET", "image-updates", none⟩
  | .app a => ⟨"GET", "applications", some (appSuffix a)⟩
  | .mutation (.mutate f v) => ⟨"POST", familyText f, some [v.text]⟩
  | .mutation .rollback => ⟨"POST", "applications", some ["rollback"]⟩

/-- The segments of an object. -/
def objectNames : List GoString := ["cluster", "ns", "kind", "name"]

/-- The words in front of the wildcards. -/
def Shape.front (s : Shape) : List GoString := "api" :: "v1" :: [s.family]

/-- The words behind the wildcards. -/
def Shape.back (s : Shape) : List GoString := s.suffix.getD []

/-- The names of the wildcards. -/
def Shape.names (s : Shape) : List GoString := if s.suffix = none then [] else objectNames

/-- The pattern of a shape. -/
def Shape.pattern (s : Shape) : Pattern where
  method := s.method
  segments := s.front.map .literal ++ (s.names.map .wild ++ s.back.map .literal)

/-- Every handler, for what is checked handler by handler. -/
def routes : List ApiRoute := apiPatterns.map Prod.snd

theorem mem_routes (r : ApiRoute) : r ∈ routes := by
  rcases r with _ | _ | _ | _ | _ | _ | _ | _ | _ | a | e
  all_goals try decide
  · cases a <;> decide
  · rcases e with ⟨f, v⟩ | _
    · cases f <;> cases v <;> decide
    · decide

/-- The patterns of the inner mux are those of the shapes. -/
theorem innerMux_eq : innerMux = routes.map fun r => (r.shape.pattern, r) := by decide +kernel

theorem mem_innerMux {p : Pattern} {r : ApiRoute} : (p, r) ∈ innerMux ↔ p = r.shape.pattern := by
  rw [innerMux_eq, List.mem_map]
  constructor
  · rintro ⟨r', -, h⟩
    obtain ⟨rfl, rfl⟩ := Prod.mk.inj h
    rfl
  · rintro rfl
    exact ⟨r, mem_routes r, rfl⟩

/-- What is checked of every shape of the table. -/
@[mk_iff]
structure Shape.WellFormed (s : Shape) : Prop where
  words : ∀ w ∈ s.front ++ s.back,
    w ≠ [] ∧ w.all PercentEncoding.unreserved = true ∧ Browser.Undotted w
  method : s.method = "GET" ∨ s.method = "POST"
  names_pattern : s.pattern.names = s.names
  object : s.names ≠ [] → s.names.length = 4 ∧ s.back ≠ []
  last : s.pattern.segments.getLast? ≠ some .multi

instance (s : Shape) : Decidable s.WellFormed := decidable_of_iff' _ s.wellFormed_iff

theorem ApiRoute.wellFormed (r : ApiRoute) : r.shape.WellFormed := by
  have hall : ∀ r ∈ routes, r.shape.WellFormed := by decide +kernel
  exact hall r (mem_routes r)

/-- No word of a pattern is empty. -/
theorem ApiRoute.words_ne_nil (r : ApiRoute) : ∀ w ∈ r.shape.front ++ r.shape.back, w ≠ [] :=
  fun w hw => (r.wellFormed.words w hw).1

theorem ApiRoute.method_ne_nil (r : ApiRoute) : r.shape.method ≠ [] := by
  rcases r.wellFormed.method with h | h <;> rw [h] <;> decide

/-! ## The paths of a handler -/

/-- The segments of the path of a handler, with the values of its wildcards. -/
def Shape.path (s : Shape) (vals : List GoString) : List GoString := s.front ++ (vals ++ s.back)

/-- The values that a handler's wildcards may have. -/
def Shape.Fits (s : Shape) (vals : List GoString) : Prop :=
  vals.length = s.names.length ∧ ∀ v ∈ vals, v ≠ "/"

theorem matches_pattern (r : ApiRoute) {segs vals : List GoString} :
    Matches r.shape.pattern.segments segs vals ↔ r.shape.Fits vals ∧ segs = r.shape.path vals := by
  have hfront : ∀ w ∈ r.shape.front, w ≠ [] := fun w hw =>
    r.words_ne_nil w (List.mem_append_left _ hw)
  have hback : ∀ w ∈ r.shape.back, w ≠ [] := fun w hw =>
    r.words_ne_nil w (List.mem_append_right _ hw)
  have hnil : ∀ {segs vals}, Matches (r.shape.back.map .literal) segs vals ↔
      segs = r.shape.back ∧ vals = [] := by
    intro segs vals
    rw [← List.append_nil (r.shape.back.map _), matches_literals hback]
    constructor
    · rintro ⟨segs', rfl, h⟩
      cases h
      exact ⟨List.append_nil _, rfl⟩
    · rintro ⟨rfl, rfl⟩
      exact ⟨[], (List.append_nil _).symm, .nil⟩
  unfold Shape.Fits Shape.path
  rw [Shape.pattern, matches_literals hfront]
  constructor
  · rintro ⟨segs', rfl, h⟩
    obtain ⟨new, rest, vals', rfl, rfl, hlen, hslash, hwords⟩ := matches_wilds.mp h
    obtain ⟨rfl, rfl⟩ := hnil.mp hwords
    rw [List.append_nil]
    exact ⟨⟨hlen, hslash⟩, rfl⟩
  · rintro ⟨⟨hlen, hslash⟩, rfl⟩
    exact ⟨_, rfl, matches_wilds.mpr
      ⟨vals, r.shape.back, [], rfl, (List.append_nil _).symm, hlen, hslash, hnil.mpr ⟨rfl, rfl⟩⟩⟩

/-- A path and a method have one handler at most. -/
theorem path_unique {r r' : ApiRoute} {vals vals' : List GoString}
    (hlen : vals.length = r.shape.names.length) (hlen' : vals'.length = r'.shape.names.length)
    (hmethod : r.shape.method = r'.shape.method) (hpath : r.shape.path vals = r'.shape.path vals') :
    r = r' ∧ vals = vals' := by
  obtain ⟨hfront, hrest⟩ := List.append_inj hpath rfl
  have hall : ∀ r ∈ routes, ∀ r' ∈ routes,
      r.shape.names.length + r.shape.back.length = r'.shape.names.length + r'.shape.back.length →
        r.shape.names = r'.shape.names ∧
          (r.shape.front = r'.shape.front → r.shape.back = r'.shape.back →
            r.shape.method = r'.shape.method → r = r') := by
    decide +kernel
  have hcount := congrArg List.length hrest
  rw [List.length_append, List.length_append, hlen, hlen'] at hcount
  obtain ⟨hnames, hroute⟩ := hall r (mem_routes r) r' (mem_routes r') hcount
  obtain ⟨rfl, hback⟩ := List.append_inj hrest (by rw [hlen, hlen', hnames])
  exact ⟨hroute hfront hback hmethod, rfl⟩

/-! ## Dispatch -/

/-- The handler of the API that a request comes to, with the values of its wildcards. -/
def apiHandler (oidc : Bool) (method : GoString) (u : RequestURL) :
    Option (ApiRoute × List (GoString × GoString)) :=
  match (rootMux oidc).serve method u with
  | .handler .api _ =>
    match innerMux.serve method u with
    | .handler r values => some (r, values)
    | _ => none
  | _ => none

section Dispatch

variable {oidc : Bool} {method path : GoString}

/-- The outer mux hands the request over, and the inner one has a handler for it. -/
theorem apiHandler_eq_some_iff_serve {u : RequestURL} {route : ApiRoute}
    {values : List (GoString × GoString)} : apiHandler oidc method u = some (route, values) ↔
      ∃ rest, (rootMux oidc).serve method u = .handler .api rest ∧
        innerMux.serve method u = .handler route values := by
  unfold apiHandler
  constructor
  · intro h
    split at h
    · rename_i rest hroot
      split at h
      · rename_i hinner
        obtain ⟨rfl, rfl⟩ := Prod.mk.inj (Option.some.inj h)
        exact ⟨rest, hroot, hinner⟩
      · cases h
    · cases h
  · rintro ⟨rest, hroot, hinner⟩
    simp only [hroot, hinner]

/-- The outer mux hands over what is below `/api/`. -/
theorem rootMux_find (hmethod : method = "GET" ∨ method = "POST") {second : GoString}
    {rest : List GoString} (hsegs : segments path = ("api" : GoString) :: second :: rest) :
    (rootMux oidc).find method path = some ((parsePattern "/api/", .api), []) := by
  have hchild : ∀ oidc, ((rootMux oidc).node []).findChild "api" =
      [([.multi], (parsePattern "/api/", Target.api))] := by decide +kernel
  have hempty : ∀ oidc, ∀ m ∈ (["GET", "POST"] : List GoString),
      ((rootMux oidc).node m).findChild "api" = [] ∧ ((rootMux oidc).node m).emptyChild = [] ∧
        ((rootMux oidc).node m).multiChild = none := by decide +kernel
  have hmem : method ∈ (["GET", "POST"] : List GoString) := by
    rcases hmethod with rfl | rfl <;> decide
  have hhead : method ≠ "HEAD" := by
    rcases hmethod with rfl | rfl <;> decide
  obtain ⟨hfind, hwild, hmulti⟩ := hempty oidc method hmem
  have hown : ((rootMux oidc).node method).matchPath (segments path) [] = none := by
    rw [hsegs, Node.matchPath, hfind, hwild, hmulti, Node.matchPath_nil, Node.matchPath_nil,
      ite_self]
    rfl
  rw [Routes.find, hown, if_neg hhead, Option.none_or, Option.none_or, hsegs, Node.matchPath,
    hchild oidc, Node.matchPath_subtree, Option.some_or]

/-- The words in front of what a handler is for. -/
theorem rootMux_serve (hmethod : method = "GET" ∨ method = "POST") {u : RequestURL}
    {first second third : GoString} {rest : List GoString}
    (hpath : u.escapedPath = Path.slash :: Path.join (first :: second :: third :: rest))
    (hslash : ∀ e ∈ first :: second :: third :: rest, Path.slash ∉ e)
    (hfirst : pathUnescape first = "api") (hclean : cleanPath u.escapedPath = u.escapedPath) :
    (rootMux oidc).serve method u = .handler .api [] := by
  have hsegs : segments u.escapedPath =
      ("api" : GoString) :: pathUnescape second :: pathSegments (third :: rest) := by
    unfold segments
    rw [hpath, split_path (List.cons_ne_nil _ _) hslash, ← hfirst]
    rfl
  have hsegs' : segments (u.escapedPath ++ [Path.slash]) =
      ("api" : GoString) :: pathUnescape second :: pathSegments (third :: (rest ++ [[]])) := by
    have hjoin : u.escapedPath ++ [Path.slash] =
        Path.slash :: Path.join (first :: second :: third :: (rest ++ [[]])) := by
      have hjoin := Path.join_append (List.cons_ne_nil first (second :: third :: rest))
        (List.cons_ne_nil ([] : GoString) [])
      rw [hpath, List.cons_append]
      exact congrArg (Path.slash :: ·) hjoin.symm
    have hslash' : ∀ e ∈ first :: second :: third :: (rest ++ [[]]), Path.slash ∉ e := by
      intro e he
      rcases List.mem_append.mp (show e ∈ (first :: second :: third :: rest) ++ [[]] from he) with he | he
      · exact hslash e he
      · rw [List.mem_singleton.mp he]
        exact List.not_mem_nil
    unfold segments
    rw [hjoin, split_path (List.cons_ne_nil _ _) hslash', ← hfirst]
    rfl
  have hfind : (rootMux oidc).find method u.escapedPath = some ((parsePattern "/api/", .api), []) :=
    rootMux_find hmethod hsegs
  have hsub : (parsePattern "/api/").segments = [.literal "api", .multi] := by decide +kernel
  have hmulti : (parsePattern "/api/").segments.getLast? = some .multi := by rw [hsub]; rfl
  have hlen : (parsePattern "/api/").segments.length ≤ u.escapedPath.countP (· = Path.slash) := by
    have hcount := length_le_countP_join (first :: second :: third :: rest)
    rw [← hpath, List.length_cons, List.length_cons] at hcount
    rw [hsub, List.length_cons, List.length_singleton]
    omega
  exact Routes.serve_of_find (path_ne_star (by rw [hpath]; rfl)) hclean
    (Routes.addsSlash_of_subtree (rootMux_find hmethod hsegs') hmulti hlen) hfind

variable {u : RequestURL} {es : List GoString} {r : ApiRoute} {values : List (GoString × GoString)}

/-- **What reaches a handler.** A request for a path that is written segment by segment comes to a
handler of the API if and only if no segment is empty or dots and the segments are those of the
handler's path, with values that its wildcards may have. -/
theorem apiHandler_eq_some_iff (hmethod : method = "GET" ∨ method = "POST") (hne : es ≠ [])
    (hslash : ∀ e ∈ es, Path.slash ∉ e) (hlast : es.getLast hne ≠ [])
    (hpath : u.escapedPath = Path.slash :: Path.join es) :
    apiHandler oidc method u = some (r, values) ↔
      (∀ e ∈ es, Path.Ordinary e) ∧ r.shape.method = method ∧
        ∃ vals, r.shape.Fits vals ∧ es.map pathUnescape = r.shape.path vals ∧
          values = r.shape.names.zip vals := by
  have hclean := cleanPath_eq_self_iff hne hslash hlast
  have hsegs : (∀ e ∈ es, Path.Ordinary e) → segments u.escapedPath = es.map pathUnescape := by
    intro hord
    rw [hpath, segments_join hne hslash fun e he => (hord e he).ne_nil]
  constructor
  · intro h
    obtain ⟨rest, -, hserve⟩ := apiHandler_eq_some_iff_serve.mp h
    obtain ⟨hcanon, p, vals, hfind, rfl⟩ := Routes.exists_of_serve hserve
    have hconnect : method ≠ "CONNECT" := by
      rcases hmethod with rfl | rfl <;> decide
    have hord : ∀ e ∈ es, Path.Ordinary e := hclean.mp (hpath ▸ hcanon hconnect)
    have hnil : [] ∉ segments u.escapedPath := by
      rw [hsegs hord]
      intro hmem
      obtain ⟨e, he, heq⟩ := List.mem_map.mp hmem
      exact (hord e he).ne_nil ((pathUnescape_eq_nil_iff e).mp heq)
    obtain ⟨hmem, hm, hmatch⟩ := Routes.find_sound hnil hfind
    obtain rfl := mem_innerMux.mp hmem
    obtain ⟨hfits, hpath'⟩ := (matches_pattern r).mp hmatch
    refine ⟨hord, ?_, vals, hfits, (hsegs hord).symm.trans hpath', by rw [r.wellFormed.names_pattern]⟩
    rcases hm with hm | ⟨hhead, -⟩ | hm
    · exact hm
    · rcases hmethod with rfl | rfl <;> exact absurd hhead (by decide)
    · exact absurd hm (ApiRoute.method_ne_nil r)
  · rintro ⟨hord, rfl, vals, hfits, hpath', rfl⟩
    have hcanon : cleanPath u.escapedPath = u.escapedPath := hpath ▸ hclean.mpr hord
    have hmatch := (matches_pattern r).mpr ⟨hfits, (hsegs hord).trans hpath'⟩
    have hnil : [] ∉ segments u.escapedPath := by
      rw [hsegs hord]
      intro hmem
      obtain ⟨e, he, heq⟩ := List.mem_map.mp hmem
      exact (hord e he).ne_nil ((pathUnescape_eq_nil_iff e).mp heq)
    have hfind : innerMux.find r.shape.method u.escapedPath = some ((r.shape.pattern, r), vals) := by
      refine Routes.find_of_unique hnil (mem_innerMux.mpr rfl) rfl hmatch fun q s hmem hm hmatch' => ?_
      obtain rfl := mem_innerMux.mp hmem
      obtain ⟨vals', hmatch'⟩ := hmatch'
      obtain ⟨hfits', hpath''⟩ := (matches_pattern s).mp hmatch'
      obtain ⟨rfl, -⟩ := path_unique hfits'.1 hfits.1 hm
        (hpath''.symm.trans ((hsegs hord).trans hpath'))
      rfl
    have hserve := Routes.serve_of_find (path_ne_star (hpath ▸ rfl)) hcanon
      (Routes.addsSlash_of_find hfind r.wellFormed.last) hfind
    obtain ⟨first, second, third, rest, rfl⟩ : ∃ first second third rest,
        es = first :: second :: third :: rest := by
      have hfront : r.shape.front.length = 3 := rfl
      have hcount := congrArg List.length hpath'
      rw [Shape.path, List.length_append, hfront, List.length_map] at hcount
      rcases es with _ | ⟨first, _ | ⟨second, _ | ⟨third, rest⟩⟩⟩
      · exact absurd rfl hne
      · exact absurd hcount (by rw [List.length_singleton]; omega)
      · exact absurd hcount (by rw [List.length_cons, List.length_singleton]; omega)
      · exact ⟨first, second, third, rest, rfl⟩
    have hfirst : pathUnescape first = "api" := (List.cons.inj hpath').1
    have hroot : (rootMux oidc).serve r.shape.method u = .handler .api [] :=
      rootMux_serve hmethod hpath hslash hfirst hcanon
    refine apiHandler_eq_some_iff_serve.mpr ⟨_, hroot, ?_⟩
    rw [hserve, r.wellFormed.names_pattern]

end Dispatch

/-! ## Requests of a browser -/

section Browser

open Browser PercentEncoding

/-- Values that the path of a handler cannot have. -/
def unroutable : List GoString := ["", ".", "..", "/"]

/-- The words of a pattern are written as they are. -/
theorem ApiRoute.writes_words (r : ApiRoute) :
    ∀ w ∈ r.shape.front ++ r.shape.back, Writes w w ∧ Undotted w := by
  intro w hw
  obtain ⟨-, hkept, hdots⟩ := r.wellFormed.words w hw
  exact ⟨writes_literal (List.all_eq_true.mp hkept), hdots⟩

/-- The path of a handler with its values escaped. -/
def ApiRoute.writtenPath (r : ApiRoute) (vals : List GoString) : List GoString :=
  r.shape.path (vals.map encodeURIComponent)

theorem ApiRoute.mem_writtenPath {r : ApiRoute} {vals : List GoString} {seg : GoString}
    (h : seg ∈ r.writtenPath vals) :
    seg ∈ r.shape.front ++ r.shape.back ∨ ∃ v ∈ vals, seg = encodeURIComponent v := by
  rw [writtenPath, Shape.path, List.mem_append, List.mem_append] at h
  rcases h with h | h | h
  · exact .inl (List.mem_append_left _ h)
  · obtain ⟨v, hv, rfl⟩ := List.mem_map.mp h
    exact .inr ⟨v, hv, rfl⟩
  · exact .inl (List.mem_append_right _ h)

theorem ApiRoute.value_mem_writtenPath (r : ApiRoute) {vals : List GoString} {v : GoString} (h : v ∈ vals) :
    encodeURIComponent v ∈ r.writtenPath vals :=
  List.mem_append_right _ (List.mem_append_left _ (List.mem_map_of_mem h))

theorem ApiRoute.writes_path {r : ApiRoute} {vals : List GoString} :
    ∀ seg ∈ r.writtenPath vals, ∃ v, Writes seg v := by
  intro seg hseg
  rcases r.mem_writtenPath hseg with h | ⟨v, -, rfl⟩
  · exact ⟨seg, (r.writes_words seg h).1⟩
  · exact ⟨v, writes_encodeURIComponent v⟩

theorem ApiRoute.map_words {r : ApiRoute} {l : List GoString}
    (h : ∀ w ∈ l, w ∈ r.shape.front ++ r.shape.back) : l.map pathUnescape = l := by
  conv_rhs => rw [← List.map_id l]
  exact List.map_congr_left fun w hw => pathUnescape_of_writes (r.writes_words w (h w hw)).1

theorem ApiRoute.map_writtenPath (r : ApiRoute) (vals : List GoString) :
    (r.writtenPath vals).map pathUnescape = r.shape.path vals := by
  have hvals : (vals.map encodeURIComponent).map pathUnescape = vals := by
    rw [List.map_map]
    conv_rhs => rw [← List.map_id vals]
    exact List.map_congr_left fun v _ => pathUnescape_of_writes (writes_encodeURIComponent v)
  rw [writtenPath, Shape.path, List.map_append, List.map_append, hvals,
    map_words fun w hw => List.mem_append_left _ hw, map_words fun w hw => List.mem_append_right _ hw]
  rfl

/-- What is left where dots take segments away is no path of a handler. -/
theorem no_shorter_path {r r' : ApiRoute} {left vals' : List GoString} (hnames : r.shape.names ≠ [])
    (hlen' : vals'.length = r'.shape.names.length) (hleft : left.length < 7) :
    left ++ r.shape.back ≠ r'.shape.path vals' := by
  have hall : ∀ r ∈ routes, ∀ r' ∈ routes, r.shape.names ≠ [] →
      (r'.shape.names = [] → ¬ r.shape.back <:+ r'.shape.front ++ r'.shape.back) ∧
        (r'.shape.names ≠ [] → r'.shape.names.length = 4 ∧
          (r'.shape.back.length < r.shape.back.length → ¬ r'.shape.back <:+ r.shape.back)) := by
    decide +kernel
  obtain ⟨hnone, hsome⟩ := hall r (mem_routes r) r' (mem_routes r') hnames
  intro heq
  by_cases h : r'.shape.names = []
  · rw [h] at hlen'
    obtain rfl := List.length_eq_zero_iff.mp hlen'
    exact hnone h ⟨left, heq⟩
  · obtain ⟨hfour, hnot⟩ := hsome h
    have hfront : r'.shape.front.length = 3 := rfl
    have hcount := congrArg List.length heq
    rw [Shape.path, List.length_append, List.length_append, List.length_append, hlen', hfour,
      hfront] at hcount
    have hlt : r'.shape.back.length < r.shape.back.length := by omega
    refine hnot hlt (List.suffix_of_suffix_length_le ?_ ⟨left, heq⟩ hlt.le)
    exact ⟨r'.shape.front ++ vals', List.append_assoc _ _ _⟩

section Written

variable {r : ApiRoute} {vals : List GoString} (hlen : vals.length = r.shape.names.length)

include hlen

/-- The last segment is a word. -/
theorem getLast_writtenPath (hne : r.writtenPath vals ≠ []) :
    (r.writtenPath vals).getLast hne ∈ r.shape.front ++ r.shape.back := by
  by_cases hback : r.shape.back = []
  · have hnames : r.shape.names = [] := by
      by_contra hnames
      exact (r.wellFormed.object hnames).2 hback
    rw [hnames] at hlen
    obtain rfl := List.length_eq_zero_iff.mp hlen
    exact List.getLast_mem hne
  · have hlast : (r.writtenPath vals).getLast hne = r.shape.back.getLast hback := by
      have hrest : vals.map encodeURIComponent ++ r.shape.back ≠ [] :=
        List.append_ne_nil_of_right_ne_nil _ hback
      exact (List.getLast_append_of_ne_nil hne hrest).trans
        (List.getLast_append_of_ne_nil hrest hback)
    rw [hlast]
    exact List.mem_append_right _ (List.getLast_mem hback)

omit hlen in
theorem undotted_writtenPath (h : ∀ v ∈ vals, v ≠ "." ∧ v ≠ "..") :
    ∀ seg ∈ r.writtenPath vals, Undotted seg := by
  intro seg hseg
  rcases r.mem_writtenPath hseg with hw | ⟨v, hv, rfl⟩
  · exact (r.writes_words seg hw).2
  · obtain ⟨hdot, hdots⟩ := h v hv
    have hwrites := writes_encodeURIComponent v
    exact ⟨fun hmem => hdot (hwrites.single.mp hmem), fun hmem => hdots (hwrites.double.mp hmem)⟩

/-- With dots it asks for a path that has lost segments in front of the words at its end. -/
theorem resolve_dotted (h : ∃ v ∈ vals, v = "." ∨ v = "..") :
    r.shape.names ≠ [] ∧ r.shape.back ≠ [] ∧ ∃ left : List GoString, left.length < 7 ∧
      (∀ e ∈ left, e ∈ r.writtenPath vals) ∧
        resolve [] (r.writtenPath vals) = left ++ r.shape.back := by
  obtain ⟨v, hv, hdot⟩ := h
  have hnames : r.shape.names ≠ [] := by
    intro hnil
    rw [hnil] at hlen
    exact absurd hv (List.length_eq_zero_iff.mp hlen ▸ List.not_mem_nil)
  obtain ⟨hfour, hback⟩ := r.wellFormed.object hnames
  have hundotted : ∀ w ∈ r.shape.back, Undotted w := fun w hw =>
    (r.writes_words w (List.mem_append_right _ hw)).2
  have hseg : ∃ seg ∈ r.shape.front ++ vals.map encodeURIComponent, ¬ Undotted seg := by
    have hwrites := writes_encodeURIComponent v
    refine ⟨encodeURIComponent v, List.mem_append_right _ (List.mem_map_of_mem hv), fun hnot => ?_⟩
    rcases hdot with hdot | hdot
    · exact hnot.1 (hwrites.single.mpr hdot)
    · exact hnot.2 (hwrites.double.mpr hdot)
  have hlt := length_foldl_collapse_lt [] hseg
  have hfront : r.shape.front.length = 3 := rfl
  rw [List.length_nil, List.length_append, List.length_map, hlen, hfour, hfront] at hlt
  refine ⟨hnames, hback, ((r.shape.front ++ vals.map encodeURIComponent).foldl collapse []).reverse,
    ?_, fun e he => ?_, ?_⟩
  · rw [List.length_reverse]
    omega
  · rcases mem_foldl_collapse (List.mem_reverse.mp he) with hmem | hmem
    · exact absurd hmem List.not_mem_nil
    · rw [ApiRoute.writtenPath, Shape.path, ← List.append_assoc]
      exact List.mem_append_left _ hmem
  · rw [ApiRoute.writtenPath, Shape.path, ← List.append_assoc]
    exact resolve_append hback hundotted [] _

end Written

/-- **A path that a browser asks for.** It comes to the handler for which it was written, with the
values that were written, if none of the values is empty, a slash or dots; and to no handler at all
otherwise. -/
theorem apiHandler_reference (oidc : Bool) (r : ApiRoute) {vals : List GoString}
    (hlen : vals.length = r.shape.names.length) (query : Option GoString) :
    ∃ u, Url.parseRequestURI (requestTarget (reference (r.writtenPath vals) query)) = some u ∧
      u.rawQuery = (query.map (encode queryKeeps)).getD [] ∧
      apiHandler oidc r.shape.method u =
        if ∀ v ∈ vals, v ∉ unroutable then some (r, r.shape.names.zip vals) else none := by
  have hne : r.writtenPath vals ≠ [] := List.cons_ne_nil _ _
  obtain ⟨u, hparse, hpath, hquery⟩ := parse_requestTarget hne r.writes_path query
  refine ⟨u, hparse, hquery, ?_⟩
  have hslash : ∀ e ∈ r.writtenPath vals, Path.slash ∉ e := fun e he =>
    (r.writes_path e he).choose_spec.slash_notMem
  by_cases hdots : ∀ v ∈ vals, v ≠ "." ∧ v ≠ ".."
  · rw [resolve_undotted [] (undotted_writtenPath hdots), List.reverse_nil, List.nil_append] at hpath
    have hlast := r.words_ne_nil _ (getLast_writtenPath hlen hne)
    have hiff := fun s values =>
      @apiHandler_eq_some_iff oidc _ u _ s values r.wellFormed.method hne hslash hlast hpath
    by_cases hall : ∀ v ∈ vals, v ∉ unroutable
    · rw [if_pos hall]
      refine (hiff r _).mpr ⟨fun e he => ?_, rfl, vals, ⟨hlen, fun v hv h => ?_⟩,
        r.map_writtenPath vals, rfl⟩
      · refine ordinary_of_undotted (undotted_writtenPath hdots e he) ?_
        rcases r.mem_writtenPath he with hw | ⟨v, hv, rfl⟩
        · exact r.words_ne_nil e hw
        · intro hnil
          rw [(writes_encodeURIComponent v).eq_nil_iff.mp hnil] at hv
          exact hall [] hv (by decide)
      · exact hall v hv (h ▸ by decide)
    · rw [if_neg hall]
      refine Option.eq_none_iff_forall_ne_some.mpr fun ⟨s, values⟩ h => hall fun v hv => ?_
      obtain ⟨hord, hmethod, vals', hfits, hmap, -⟩ := (hiff s values).mp h
      rw [r.map_writtenPath] at hmap
      obtain ⟨rfl, rfl⟩ := path_unique hlen hfits.1 hmethod.symm hmap
      have hnil : v ≠ "" := by
        rintro rfl
        refine (hord _ (r.value_mem_writtenPath hv)).ne_nil ?_
        exact (writes_encodeURIComponent _).eq_nil_iff.mpr rfl
      obtain ⟨hdot, hdots⟩ := hdots v hv
      simp only [unroutable, List.mem_cons, List.not_mem_nil, or_false, not_or]
      exact ⟨hnil, hdot, hdots, hfits.2 v hv⟩
  · have hdotted : ∃ v ∈ vals, v = "." ∨ v = ".." := by
      by_contra hnot
      refine hdots fun v hv => ⟨fun h => hnot ⟨v, hv, .inl h⟩, fun h => hnot ⟨v, hv, .inr h⟩⟩
    obtain ⟨hnames, hback, left, hleft, hmem, hresolve⟩ := resolve_dotted hlen hdotted
    rw [hresolve] at hpath
    have hne' : left ++ r.shape.back ≠ [] := List.append_ne_nil_of_right_ne_nil _ hback
    have hmem' : ∀ e ∈ left ++ r.shape.back, e ∈ r.writtenPath vals := by
      intro e he
      rcases List.mem_append.mp he with he | he
      · exact hmem e he
      · exact List.mem_append_right _ (List.mem_append_right _ he)
    have hlast : (left ++ r.shape.back).getLast hne' ≠ [] := by
      rw [List.getLast_append_of_ne_nil _ hback]
      exact r.words_ne_nil _ (List.mem_append_right _ (List.getLast_mem hback))
    rw [if_neg]
    · refine Option.eq_none_iff_forall_ne_some.mpr fun ⟨s, values⟩ h => ?_
      obtain ⟨-, -, vals', hfits, hmap, -⟩ := (apiHandler_eq_some_iff r.wellFormed.method hne'
        (fun e he => hslash e (hmem' e he)) hlast hpath).mp h
      rw [List.map_append, r.map_words fun w hw => List.mem_append_right _ hw] at hmap
      refine no_shorter_path hnames hfits.1 ?_ hmap
      rwa [List.length_map]
    · intro hall
      obtain ⟨v, hv, rfl | rfl⟩ := hdotted
      · exact hall _ hv (by decide)
      · exact hall _ hv (by decide)

end Browser

end Yafu.Server.Routing
