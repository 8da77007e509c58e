import Yafu.Api.RowIds
import Yafu.Server.Mediation
import Yafu.Web.Urls

/-!
# A row acts on its own object

Reference: `useAppMutation`, `useRollbackApp`, `useImageMutation`, `useSourceMutation` and
`useAlertMutation` in `web/src/lib/queries.ts`, with the list and mutation handlers in
`internal/api`.

A row is served as text: what identifies its object are four of its fields. They come back in the path
of a request, escaped by the client, taken apart by the mux and handed on to the client of a cluster.
`acts_on_own_object` follows them all the way around.
-/

namespace Yafu.Web.RowActions

open Yafu.Api
open Yafu.Auth (Policy)
open Yafu.Cluster (Registry)
open Yafu.Server.Mediation
open Yafu.Server.Routing (ApiRoute apiHandler objectNames unroutable)
open Browser PercentEncoding

/-! ## Rows and what they are made of -/

/-- The objects that the lists are made of, by kind, namespace and name. -/
inductive Lists (e : Entry) : GoString → GoString → GoString → Prop
  | kustomization {k} (hk : k ∈ bestEffort e.clients.kustomizations) :
    Lists e "Kustomization" k.namespace k.name
  | helmRelease {h} (hh : h ∈ bestEffort e.clients.helmReleases) :
    Lists e "HelmRelease" h.namespace h.name
  | gitRepository {g} (hg : g ∈ bestEffort e.clients.gitRepositories) :
    Lists e "GitRepository" g.namespace g.name
  | helmRepository {h} (hh : h ∈ bestEffort e.clients.helmRepositories) :
    Lists e "HelmRepository" h.namespace h.name
  | ociRepository {o} (ho : o ∈ bestEffort e.clients.ociRepositories) :
    Lists e "OCIRepository" o.namespace o.name
  | bucket {b} (hb : b ∈ bestEffort e.clients.buckets) : Lists e "Bucket" b.namespace b.name
  | alert {a} (ha : a ∈ bestEffort e.clients.alerts) : Lists e "Alert" a.namespace a.name
  | imagePolicy {p} (hp : p ∈ bestEffort e.clients.imagePolicies) :
    Lists e "ImagePolicy" p.namespace p.name

/-- What the row of an alert describes. -/
def alertKey (a : Types.Alert) : AppPath := ⟨a.clusterId, a.ns, "Alert", a.name⟩

section Rows

variable (rt : Runtime) (sorts : Sorts) (policy : Policy) (registry : Option (Registry Clients))
  (r : Request)

/-- The actions of the rows that a request is served, with the endpoint that is meant and what the row
describes. -/
inductive Shown : Urls.Call → MutationEndpoint → AppPath → Prop
  | application {l a} (hl : l ∈ listApplications rt policy registry r sorts.applications)
    (ha : a ∈ l.items) (v : Verb) : Shown (.appVerb v a) (.mutate .applications v) (applicationKey a)
  | rollback {l a} (hl : l ∈ listApplications rt policy registry r sorts.applications)
    (ha : a ∈ l.items) : Shown (.rollback a) .rollback (applicationKey a)
  | source {l s} (hl : l ∈ listSources rt policy registry r sorts.sources) (hs : s ∈ l.items)
    (v : Verb) : Shown (.sourceVerb v s) (.mutate .sources v) (sourceKey s)
  | alert {l a} (hl : l ∈ listAlerts rt policy registry r sorts.alerts) (ha : a ∈ l.items)
    (v : Verb) : Shown (.alertVerb v a) (.mutate .alerts v) (alertKey a)
  | update {l u} (hl : l ∈ listImageUpdates rt policy registry r sorts.updates) (hu : u ∈ l.items)
    (v : Verb) : Shown (.imageVerb v u) (.mutate .images v) (updateKey u)

variable {rt sorts policy registry r}

/-- A row that is served is a row of a cluster that was asked. -/
theorem mem_rowsOf_listing {ρ : Type} {less : ρ → ρ → Bool} {sort : SortSlice less}
    {fetch : Entry → Except GoString (List ρ)} {l : Types.Listing ρ} {row : ρ}
    (hl : l ∈ listing rt policy registry r fetch sort.sort (r.http.query "cluster"))
    (hrow : row ∈ l.items) :
    ∃ e ∈ askedClusters rt policy registry r, row ∈ rowsOf fetch e :=
  List.mem_flatMap.mp ((accounted_listing sort.perm hl).items.mem_iff.mp hrow)

end Rows

section Objects

variable {now : Cluster.Time} {e : Entry}

theorem lists_application {a : Types.Application}
    (ha : a ∈ rowsOf (listApplicationsForCluster now) e) :
    (e.name : GoString) = a.clusterId ∧ Lists e a.kind a.ns a.name ∧ Supports .applications a.kind := by
  rcases exists_of_application ha with ⟨k, hk, rfl⟩ | ⟨h, hh, rfl⟩
  · exact ⟨rfl, .kustomization hk, fun _ _ _ _ => rfl⟩
  · exact ⟨rfl, .helmRelease hh, fun _ _ _ _ => rfl⟩

theorem lists_source {s : Types.Source} (hs : s ∈ rowsOf (listSourcesForCluster now) e) :
    (e.name : GoString) = s.clusterId ∧ Lists e s.kind s.ns s.name ∧ Supports .sources s.kind := by
  rcases exists_of_source hs with ((⟨o, ho, rfl⟩ | ⟨o, ho, rfl⟩) | ⟨o, ho, rfl⟩) | ⟨o, ho, rfl⟩
  · exact ⟨rfl, .gitRepository ho, fun _ _ _ _ => rfl⟩
  · exact ⟨rfl, .helmRepository ho, fun _ _ _ _ => rfl⟩
  · exact ⟨rfl, .ociRepository ho, fun _ _ _ _ => rfl⟩
  · exact ⟨rfl, .bucket ho, fun _ _ _ _ => rfl⟩

theorem lists_alert {a : Types.Alert} (ha : a ∈ rowsOf (listAlertsForCluster now) e) :
    (e.name : GoString) = a.clusterId ∧ Lists e "Alert" a.ns a.name := by
  obtain ⟨rows, hrows, ha⟩ := mem_rowsOf.mp ha
  have hok := ok_of_checkFlux hrows
  rcases halerts : e.clients.alerts with err | alerts
  · rw [halerts] at hok
    cases hok
  · rw [halerts] at hok
    obtain rfl := Except.ok.inj hok
    obtain ⟨o, ho, rfl⟩ := List.mem_map.mp ha
    exact ⟨rfl, .alert (halerts ▸ ho)⟩

theorem lists_update {u : Types.ImageUpdate} (hu : u ∈ rowsOf (listImageUpdatesForCluster now) e) :
    (e.name : GoString) = u.clusterId ∧ Lists e "ImagePolicy" u.ns u.name := by
  obtain ⟨p, hp, repos, rfl⟩ := exists_of_update hu
  exact ⟨rfl, .imagePolicy hp⟩

end Objects

/-! ## All the way around -/

/-- A browser sends the request of a call. -/
def Sends (req : RawRequest) (call : Urls.Call) : Prop :=
  req.method = call.method ∧ ∃ ref, call.url = some ref ∧ req.target = requestTarget ref

/-- No part of a path is one that gets lost on the way. -/
def Routable (p : AppPath) : Prop := ∀ part ∈ [p.cluster, p.ns, p.kind, p.name], part ∉ unroutable

instance (p : AppPath) : Decidable (Routable p) :=
  inferInstanceAs (Decidable (∀ part ∈ [p.cluster, p.ns, p.kind, p.name], part ∉ unroutable))

/-- A request calls for one object and no other, and is lost if its path is not routable. If it is, the
endpoint serves it with this path for whoever has an identity, and it does what its verb says unless
the caller or the cluster is refused. -/
structure OwnObject (sys : System) (req : RawRequest) (endpoint : MutationEndpoint) (p : AppPath) :
    Prop where
  only : ∀ exchanges, sys.handle req = .served exchanges → ∀ x ∈ exchanges, ∀ c call,
    (c, call) ∈ x.calls → c = p.cluster ∧ calledFor call = (p.kind, p.ns, p.name)
  lost : ¬ Routable p → ∀ exchanges, sys.handle req ≠ .served exchanges
  reaches : Routable p → ∀ id, sys.identify req = .ok id → ∃ u,
    Url.parseRequestURI req.target = some u ∧ sys.handle req = .served
      (sys.serveRoute req u id (objectNames.zip [p.cluster, p.ns, p.kind, p.name])
        (.mutation endpoint))
  acts : Routable p → ∀ f v, endpoint = .mutate f v → ∀ id reg entry, sys.identify req = .ok id →
    sys.policy.authorize sys.mutations.toLower id v.text p.cluster = true → sys.registry = some reg →
    reg.get p.cluster = some entry → entry.status.reachable = true →
    ∃ x, sys.handle req = .served {x} ∧
      x.calls = (getThenPatch entry.clients.2 p.kind p.ns p.name
        (v.change (sys.mutations.clock 0))).map fun call => (p.cluster, call)

/-- What an action of a row is: its endpoint, and the parts that the client writes. -/
theorem call_of_shown {rt : Runtime} {sorts : Sorts} {policy : Policy}
    {registry : Option (Registry Clients)} {r : Request} {call : Urls.Call}
    {endpoint : MutationEndpoint} {p : AppPath} (h : Shown rt sorts policy registry r call endpoint p) :
    call.route = .mutation endpoint ∧ call.parts = [p.cluster, p.ns, p.kind, p.name] := by
  cases h <;> exact ⟨rfl, rfl⟩

/-- The object of a row is on a cluster that was asked, and is of a kind that the endpoint is for. -/
theorem object_of_shown {rt : Runtime} {sorts : Sorts} {policy : Policy}
    {registry : Option (Registry Clients)} {r : Request} {call : Urls.Call}
    {endpoint : MutationEndpoint} {p : AppPath} (h : Shown rt sorts policy registry r call endpoint p) :
    (∃ e ∈ askedClusters rt policy registry r,
      (e.name : GoString) = p.cluster ∧ Lists e p.kind p.ns p.name) ∧
      ∀ f v, endpoint = .mutate f v → Supports f p.kind := by
  cases h with
  | application hl ha v =>
    obtain ⟨e, he, hrow⟩ := mem_rowsOf_listing hl ha
    obtain ⟨hname, hlists, hsupports⟩ := lists_application hrow
    refine ⟨⟨e, he, hname, hlists⟩, ?_⟩
    rintro f v ⟨⟩
    exact hsupports
  | rollback hl ha =>
    obtain ⟨e, he, hrow⟩ := mem_rowsOf_listing hl ha
    obtain ⟨hname, hlists, -⟩ := lists_application hrow
    exact ⟨⟨e, he, hname, hlists⟩, nofun⟩
  | source hl hs v =>
    obtain ⟨e, he, hrow⟩ := mem_rowsOf_listing hl hs
    obtain ⟨hname, hlists, hsupports⟩ := lists_source hrow
    refine ⟨⟨e, he, hname, hlists⟩, ?_⟩
    rintro f v ⟨⟩
    exact hsupports
  | alert hl ha v =>
    obtain ⟨e, he, hrow⟩ := mem_rowsOf_listing hl ha
    obtain ⟨hname, hlists⟩ := lists_alert hrow
    refine ⟨⟨e, he, hname, hlists⟩, ?_⟩
    rintro f v ⟨⟩
    exact fun _ _ _ _ => rfl
  | update hl hu v =>
    obtain ⟨e, he, hrow⟩ := mem_rowsOf_listing hl hu
    obtain ⟨hname, hlists⟩ := lists_update hrow
    refine ⟨⟨e, he, hname, hlists⟩, ?_⟩
    rintro f v ⟨⟩
    exact fun _ _ _ _ => rfl

/-- The server is asked for the endpoint of a call with the parts of its path, if none of them is lost
on the way. -/
theorem apiHandler_of_sends (oidc : Bool) {req : RawRequest} {call : Urls.Call}
    {endpoint : MutationEndpoint} {p : AppPath} (hroute : call.route = .mutation endpoint)
    (hparts : call.parts = [p.cluster, p.ns, p.kind, p.name]) (hsends : Sends req call) :
    ∃ u, Url.parseRequestURI req.target = some u ∧ apiHandler oidc req.method u =
      if Routable p then
        some (.mutation endpoint, objectNames.zip [p.cluster, p.ns, p.kind, p.name])
      else none := by
  obtain ⟨hmethod, ref, hurl, htarget⟩ := hsends
  obtain ⟨hlen, query, rfl, -⟩ := call.written hurl
  obtain ⟨u, hparse, -, hhandler⟩ := Server.Routing.apiHandler_reference oidc call.route hlen query
  have hnames : (ApiRoute.mutation endpoint).shape.names = objectNames := by cases endpoint <;> rfl
  rw [← call.method_eq, ← hmethod, hroute, hparts, hnames] at hhandler
  exact ⟨u, htarget ▸ hparse, hhandler⟩

/-- An empty part would be lost. -/
theorem Routable.complete {p : AppPath} (h : Routable p) :
    ¬ (p.cluster = [] ∨ p.ns = [] ∨ p.kind = [] ∨ p.name = []) := by
  have hpart : ∀ part ∈ [p.cluster, p.ns, p.kind, p.name], part ≠ [] := by
    rintro part hmem rfl
    exact h [] hmem (by decide)
  simp only [List.forall_mem_cons] at hpart
  obtain ⟨hc, hns, hkind, hname, -⟩ := hpart
  simp only [hc, hns, hkind, hname, or_self, not_false_eq_true]

/-- **A row acts on its own object.** Whatever the server is by the time that the action is sent, the
request calls for the object that the row was made of, on the cluster that it was served from. -/
theorem acts_on_own_object {rt : Runtime} {sorts : Sorts} {policy : Policy}
    {registry : Option (Registry Clients)} {r : Request} {call : Urls.Call}
    {endpoint : MutationEndpoint} {p : AppPath} (h : Shown rt sorts policy registry r call endpoint p) :
    (∃ e ∈ askedClusters rt policy registry r,
      (e.name : GoString) = p.cluster ∧ Lists e p.kind p.ns p.name) ∧
      ∀ sys req, Sends req call → OwnObject sys req endpoint p := by
  obtain ⟨hroute, hparts⟩ := call_of_shown h
  obtain ⟨hobject, hsupports⟩ := object_of_shown h
  refine ⟨hobject, fun sys req hsends => ?_⟩
  obtain ⟨u, hparse, hhandler⟩ := apiHandler_of_sends (sys.gate.mode = .oidc) hroute hparts hsends
  have hserved : ∀ {exchanges}, sys.handle req = .served exchanges → Routable p ∧ ∃ id,
      sys.identify req = .ok id ∧ exchanges = sys.serveRoute req u id
        (objectNames.zip [p.cluster, p.ns, p.kind, p.name]) (.mutation endpoint) := by
    intro exchanges hhandle
    obtain ⟨u', id, route, values, hparse', hid, happly, rfl⟩ :=
      System.handle_eq_served_iff.mp hhandle
    obtain rfl := Option.some.inj (hparse.symm.trans hparse')
    rw [hhandler] at happly
    split_ifs at happly with hroutable
    obtain ⟨rfl, rfl⟩ := Prod.mk.inj (Option.some.inj happly)
    exact ⟨hroutable, id, hid, rfl⟩
  have hreaches : Routable p → ∀ id, sys.identify req = .ok id → sys.handle req = .served
      (sys.serveRoute req u id (objectNames.zip [p.cluster, p.ns, p.kind, p.name])
        (.mutation endpoint)) := fun hroutable id hid =>
    System.handle_eq_served_iff.mpr ⟨u, id, _, _, hparse, hid, hhandler.trans (if_pos hroutable), rfl⟩
  refine ⟨?_, ?_, fun hroutable id hid => ⟨u, hparse, hreaches hroutable id hid⟩, ?_⟩
  · intro exchanges hhandle x hx c call' hcall
    obtain ⟨-, id, -, rfl⟩ := hserved hhandle
    obtain rfl : x = _ := hx
    obtain ⟨call'', hmem, heq⟩ := List.mem_map.mp hcall
    obtain ⟨rfl, rfl⟩ := Prod.mk.inj heq
    exact ⟨rfl, calledFor_serveMutation hmem⟩
  · intro hlost exchanges hhandle
    exact hlost (hserved hhandle).1
  · rintro hroutable f v rfl id reg entry hid hauth hreg hentry hreach
    let entry' : Cluster.Entry Client := { entry with clients := entry.clients.2 }
    have hentry' : (reg.map Prod.snd).get p.cluster = some entry' :=
      congrArg (Option.map _) hentry
    have hcalls : ∀ r : MutationRequest, r.identity = id →
        (serveMutation sys.mutations sys.policy (some (reg.map Prod.snd)) r p (.mutate f v)).calls =
          getThenPatch entry.clients.2 p.kind p.ns p.name (v.change (sys.mutations.clock 0)) := by
      rintro r rfl
      exact calls_mutate (hsupports f v rfl) hroutable.complete hauth hentry' hreach
    refine ⟨_, hreaches hroutable id hid, ?_⟩
    rw [hreg]
    exact congrArg (List.map _) (hcalls _ rfl)

/-- The row of the Kustomization `apps` suspends it. -/
theorem suspendApps_acts :
    ∃ a, Shown idleRuntime keySorts Auth.defaultAllowAllPolicy (some (mirrorRegistry ["prod"]))
        devRequest (.appVerb .suspend a) (.mutate .applications .suspend) prodPath ∧
      Lists (mirrorEntry "prod") "Kustomization" "flux-system" "apps" ∧
      ∃ x, appsSystem.handle suspendApps = .served {x} ∧
        x.calls.length = 2 ∧ ∀ call ∈ x.calls, call.1 = prodPath.cluster ∧
          calledFor call.2 = (prodPath.kind, prodPath.ns, prodPath.name) := by
  obtain ⟨l, hl⟩ : (listApplications idleRuntime Auth.defaultAllowAllPolicy
      (some (mirrorRegistry ["prod"])) devRequest keySorts.applications).Nonempty := by
    rw [listApplications]
    exact listing_nonempty _
  have hrow : kustomizationToApp idleRuntime.now (mirrorEntry "prod") appsKustomization ∈ l.items := by
    refine (accounted_listing (SortSlice.perm _) hl).items.mem_iff.mpr ?_
    exact List.mem_flatMap.mpr ⟨mirrorEntry "prod", List.mem_singleton_self _, List.mem_singleton_self _⟩
  have hshown : Shown idleRuntime keySorts Auth.defaultAllowAllPolicy
      (some (mirrorRegistry ["prod"])) devRequest _ _ prodPath := .application hl hrow .suspend
  obtain ⟨⟨e, he, -, hlists⟩, hacts⟩ := acts_on_own_object hshown
  obtain rfl : e = mirrorEntry "prod" := List.mem_singleton.mp he
  have hown := hacts appsSystem suspendApps ⟨rfl, _, rfl, by decide +kernel⟩
  have hroutable : ∀ part ∈ [prodPath.cluster, prodPath.ns, prodPath.kind, prodPath.name],
      part ∉ unroutable := by decide
  obtain ⟨x, hx, hcalls⟩ := hown.acts hroutable _ _ rfl Auth.anonymousIdentity _ _ rfl
    (by decide +kernel) rfl rfl rfl
  refine ⟨_, hshown, hlists, x, hx, by rw [hcalls]; rfl, fun call hcall => ?_⟩
  exact hown.only _ hx x rfl call.1 call.2 hcall

end Yafu.Web.RowActions
