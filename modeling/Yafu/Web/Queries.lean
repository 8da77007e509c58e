import Yafu.Api.Types
import Yafu.Web.Invalidation

/-!
# Queries and the stream

Reference: `web/src/lib/queries.ts`, `web/src/lib/stream.ts`.

`queryKey` is the key that each hook of `queries.ts` gives its query. The keys of the queries about
one application begin with `tree`, `events`, `history`, `manifest`, `diff`, `render` and `logs`; those
that the stream invalidates for its kind begin with `app-tree`, `app-events` and so on.
-/

namespace Yafu.Web.Queries

open Transition
open Yafu.Api.Types (Application)
open Yafu.Web.Invalidation

/-- A part of a query key. -/
inductive KeyPart where
  | text (s : GoString)
  | number (n : ℕ)
deriving DecidableEq

/-- The queries of `queries.ts`, by the arguments of their hooks. A query about an application is
enabled once there is one. -/
inductive Query where
  | whoami
  | version
  | clusters
  | applications (clusterId : Option GoString)
  | sources (clusterId : Option GoString)
  | alerts (clusterId : Option GoString)
  | imageUpdates (clusterId : Option GoString)
  | events (clusterId : Option GoString)
  | appLogs (app : Application) (pod container : Option GoString) (tail : Option ℕ)
  | appDiff (app : Application)
  | appRender (app : Application)
  | appManifest (app : Application)
  | appTree (app : Application)
  | appHistory (app : Application)
  | appEvents (app : Application)

/-- The key of a list: `clusterId ?? 'all'`. -/
def listKey (name : GoString) (clusterId : Option GoString) : List KeyPart :=
  [.text name, .text (clusterId.getD "all")]

/-- `queryKey`. -/
def queryKey : Query → List KeyPart
  | .whoami => [.text "whoami"]
  | .version => [.text "version"]
  | .clusters => [.text "clusters"]
  | .applications clusterId => listKey "applications" clusterId
  | .sources clusterId => listKey "sources" clusterId
  | .alerts clusterId => listKey "alerts" clusterId
  | .imageUpdates clusterId => listKey "image-updates" clusterId
  | .events clusterId => listKey "events" clusterId
  | .appLogs app pod container tail =>
    [.text "logs", .text app.id, .text (pod.getD ""), .text (container.getD ""),
      .number (tail.getD 0)]
  | .appDiff app => [.text "diff", .text app.id]
  | .appRender app => [.text "render", .text app.id]
  | .appManifest app => [.text "manifest", .text app.id]
  | .appTree app => [.text "tree", .text app.id]
  | .appHistory app => [.text "history", .text app.id]
  | .appEvents app => [.text "events", .text "app", .text app.id]

/-- The partial matching of TanStack Query: a filter's key matches the queries whose keys begin
with it. -/
structure QueryClient where
  partialMatch : (filter key : List KeyPart) → Bool
  partialMatch_iff : ∀ filter key, partialMatch filter key = true ↔ filter <+: key

/-- `WatchEvent`. -/
structure WatchEvent where
  cluster : GoString
  kind : GoString
  verb : GoString
  «namespace» : GoString
  name : GoString

/-- The event is about the application. -/
structure WatchEvent.About (ev : WatchEvent) (app : Application) : Prop where
  cluster : app.clusterId = ev.cluster
  kind : app.kind = ev.kind
  «namespace» : app.ns = ev.namespace
  name : app.name = ev.name

/-- A list covers the cluster of the event: it is of that cluster, or of all. -/
def WatchEvent.In (ev : WatchEvent) (clusterId : Option GoString) : Prop :=
  clusterId = none ∨ clusterId = some ev.cluster

def applicationKinds : List GoString := ["Kustomization", "HelmRelease"]

def sourceKinds : List GoString := ["GitRepository", "HelmRepository", "OCIRepository", "Bucket"]

def alertKinds : List GoString := ["Alert", "Provider", "Receiver"]

def imageKinds : List GoString := ["ImagePolicy", "ImageRepository", "ImageUpdateAutomation"]

/-- The data of the query depends on the object of the event. -/
inductive Depends (ev : WatchEvent) : Query → Prop
  | clusters : ev.kind ∈ applicationKinds → Depends ev .clusters
  | applications {c} : ev.kind ∈ applicationKinds → ev.In c → Depends ev (.applications c)
  | events {c} : ev.kind ∈ applicationKinds → ev.In c → Depends ev (.events c)
  | appLogs {app} (pod container tail) : ev.kind ∈ applicationKinds → ev.About app →
      Depends ev (.appLogs app pod container tail)
  | appDiff {app} : ev.kind ∈ applicationKinds → ev.About app → Depends ev (.appDiff app)
  | appRender {app} : ev.kind ∈ applicationKinds → ev.About app → Depends ev (.appRender app)
  | appManifest {app} : ev.kind ∈ applicationKinds → ev.About app → Depends ev (.appManifest app)
  | appTree {app} : ev.kind ∈ applicationKinds → ev.About app → Depends ev (.appTree app)
  | appHistory {app} : ev.kind ∈ applicationKinds → ev.About app → Depends ev (.appHistory app)
  | appEvents {app} : ev.kind ∈ applicationKinds → ev.About app → Depends ev (.appEvents app)
  | sources {c} : ev.kind ∈ sourceKinds → ev.In c → Depends ev (.sources c)
  | alerts {c} : ev.kind ∈ alertKinds → ev.In c → Depends ev (.alerts c)
  | imageUpdates {c} : ev.kind ∈ imageKinds → ev.In c → Depends ev (.imageUpdates c)

/-- The query is a list of clusters, applications, sources, alerts or image updates. -/
def Query.IsList : Query → Prop
  | .clusters => True
  | .applications _ => True
  | .sources _ => True
  | .alerts _ => True
  | .imageUpdates _ => True
  | _ => False

/-- One of the keys invalidates the query. -/
def Covered (client : QueryClient) (keys : List Key) (q : Query) : Prop :=
  ∃ key ∈ keys, client.partialMatch (key.map KeyPart.text) (queryKey q) = true

/-! ## The two tables -/

/-- What the keys of the table begin with. -/
def tableHeads : List GoString := ["applications", "app-tree", "app-events", "app-history",
  "app-manifest", "app-diff", "app-logs", "clusters", "sources", "alerts", "image-updates"]

theorem tableKeys_heads {key : Key} (h : key ∈ tableKeys) : ∃ name ∈ tableHeads, key = [name] := by
  have hall : ∀ key ∈ tableKeys, key ∈ tableHeads.map fun name => [name] := by decide
  obtain ⟨name, hname, rfl⟩ := List.mem_map.mp (hall key h)
  exact ⟨name, hname, rfl⟩

variable {client : QueryClient} {ev : WatchEvent} {q : Query}

/-- The queries that are no list begin with a name that the table does not have. -/
theorem queryKey_of_not_isList (hdep : Depends ev q) (hq : ¬ q.IsList) :
    ∃ name ∉ tableHeads, ∃ parts, queryKey q = .text name :: parts := by
  cases hdep with
  | clusters _ => exact absurd trivial hq
  | applications _ _ => exact absurd trivial hq
  | sources _ _ => exact absurd trivial hq
  | alerts _ _ => exact absurd trivial hq
  | imageUpdates _ _ => exact absurd trivial hq
  | events _ _ => exact ⟨"events", by decide, _, rfl⟩
  | appLogs _ _ _ _ _ => exact ⟨"logs", by decide, _, rfl⟩
  | appDiff _ _ => exact ⟨"diff", by decide, _, rfl⟩
  | appRender _ _ => exact ⟨"render", by decide, _, rfl⟩
  | appManifest _ _ => exact ⟨"manifest", by decide, _, rfl⟩
  | appTree _ _ => exact ⟨"tree", by decide, _, rfl⟩
  | appHistory _ _ => exact ⟨"history", by decide, _, rfl⟩
  | appEvents _ _ => exact ⟨"events", by decide, _, rfl⟩

/-- No key of the table covers a query that is no list. -/
theorem not_covered (hdep : Depends ev q) (hq : ¬ q.IsList) {keys : List Key}
    (hkeys : ∀ key ∈ keys, key ∈ tableKeys) : ¬ Covered client keys q := by
  rintro ⟨key, hkey, hmatch⟩
  obtain ⟨name, hname, rfl⟩ := tableKeys_heads (hkeys key hkey)
  obtain ⟨other, hother, parts, hparts⟩ := queryKey_of_not_isList hdep hq
  rw [client.partialMatch_iff, hparts] at hmatch
  have hsame : name = other := KeyPart.text.inj (List.cons_prefix_cons.mp hmatch).1
  exact hother (hsame ▸ hname)

/-- A list that depends on the object of an event is covered by one key of the event's kind. -/
theorem exists_key_of_isList (hdep : Depends ev q) (hq : q.IsList) :
    ∃ key ∈ keysOf ev.kind, key.map KeyPart.text <+: queryKey q := by
  have happ : ∀ kind ∈ applicationKinds,
      (["applications"] : Key) ∈ keysOf kind ∧ (["clusters"] : Key) ∈ keysOf kind := by decide
  have hsource : ∀ kind ∈ sourceKinds, (["sources"] : Key) ∈ keysOf kind := by decide
  have halert : ∀ kind ∈ alertKinds, (["alerts"] : Key) ∈ keysOf kind := by decide
  have himage : ∀ kind ∈ imageKinds, (["image-updates"] : Key) ∈ keysOf kind := by decide
  cases hdep with
  | clusters hkind => exact ⟨_, (happ _ hkind).2, List.prefix_rfl⟩
  | applications hkind _ => exact ⟨_, (happ _ hkind).1, _, rfl⟩
  | sources hkind _ => exact ⟨_, hsource _ hkind, _, rfl⟩
  | alerts hkind _ => exact ⟨_, halert _ hkind, _, rfl⟩
  | imageUpdates hkind _ => exact ⟨_, himage _ hkind, _, rfl⟩
  | events _ _ => exact absurd hq id
  | appLogs _ _ _ _ _ => exact absurd hq id
  | appDiff _ _ => exact absurd hq id
  | appRender _ _ => exact absurd hq id
  | appManifest _ _ => exact absurd hq id
  | appTree _ _ => exact absurd hq id
  | appHistory _ _ => exact absurd hq id
  | appEvents _ _ => exact absurd hq id

/-- An event covers a query that depends on its object, and has invalidated it once its timers are
gone, exactly when the query is a list of clusters, applications, sources, alerts or images. -/
theorem covered_iff_isList (client : QueryClient) {ev : WatchEvent} {q : Query}
    (hdep : Depends ev q) {ls post : List Label} {m w : Page} (hm : run step {} ls = some m)
    (hw : run step m (.event (some ev.kind) :: post) = some w) (hmounted : .unmount ∉ post)
    (hgone : ∀ key ∈ keysOf ev.kind, timersOf key w = []) :
    (Covered client (keysOf ev.kind) q ↔ q.IsList) ∧
      (Covered client (emitted step invalidated m (.event (some ev.kind) :: post)) q ↔ q.IsList) := by
  have hinv : Inv m := run_invariant (fun _ _ _ => inv_step) inv_init hm
  by_cases hq : q.IsList
  · obtain ⟨key, hkey, hpre⟩ := exists_key_of_isList hdep hq
    have hmatch := (client.partialMatch_iff _ _).mpr hpre
    refine ⟨⟨fun _ => hq, fun _ => ⟨key, hkey, hmatch⟩⟩, fun _ => hq, fun _ => ⟨key, ?_, hmatch⟩⟩
    -- the timer of the key was set by the event and is gone
    obtain ⟨k, hk, hrest⟩ := run_cons_eq_some.mp hw
    obtain ⟨-, id, htimer⟩ := hinv.event_step hkey hk
    have hlive : (timersOf key k).length = 1 := by
      rw [htimer]
      rfl
    rw [emitted_cons hk, List.mem_append]
    exact .inr ((inv_step hinv hk).mem_emitted_of_gone hlive hmounted hrest (hgone key hkey))
  · exact ⟨⟨fun h => absurd h (not_covered hdep hq (keysOf_subset ev.kind)), fun h => absurd h hq⟩,
      fun h => absurd h (not_covered hdep hq (hinv.emitted_known hw)), fun h => absurd h hq⟩

/-! ### One application -/

/-- A client that compares the keys part by part. -/
def prefixClient : QueryClient where
  partialMatch filter key := filter.isPrefixOf key
  partialMatch_iff _ _ := List.isPrefixOf_iff_prefix

/-- The application `web` of the cluster `prod`. -/
def web : Application :=
  ⟨"prod/default/Kustomization/web", "web", "Kustomization", "default", "prod", "prod", "healthy",
    "Synced", "GitRepository/main", "", "1m", "", false⟩

/-- It was changed. -/
def webChanged : WatchEvent := ⟨"prod", "Kustomization", "MODIFIED", "default", "web"⟩

/-- After a second change the eight timers that it has set fire. -/
def webBurst : List Label :=
  .event (some webChanged.kind) :: .advance 300 :: (List.range' 9 8).map .fire

theorem covered_iff_isList_web :
    ∃ m, run step {} [.event (some webChanged.kind), .advance 100] = some m ∧
      Covered prefixClient (emitted step invalidated m webBurst) (.applications (some "prod")) ∧
      ¬ Covered prefixClient (emitted step invalidated m webBurst) (.appDiff web) := by
  have hlist : Depends webChanged (.applications (some "prod")) := .applications (by decide) (.inr rfl)
  have hdiff : Depends webChanged (.appDiff web) := .appDiff (by decide) ⟨rfl, rfl, rfl, rfl⟩
  have htimers : (run step {} ([.event (some webChanged.kind), .advance 100] ++ webBurst)).map
      (·.timers) = some [] := by decide +kernel
  obtain ⟨w, hw, hnone⟩ := Option.map_eq_some_iff.mp htimers
  obtain ⟨m, hm, hw⟩ := run_append.mp hw
  have hunmount : Label.unmount ∉ Label.advance 300 :: (List.range' 9 8).map .fire := by
    simp [List.range'_succ]
  have hgone : ∀ key ∈ keysOf webChanged.kind, timersOf key w = [] := by
    intro key _
    rw [timersOf, hnone]
    rfl
  exact ⟨m, hm, (covered_iff_isList prefixClient hlist hm hw hunmount hgone).2.mpr trivial,
    fun hcovered => (covered_iff_isList prefixClient hdiff hm hw hunmount hgone).2.mp hcovered⟩

/-- The tree of a changed application is covered by no key of its kind. -/
theorem not_covered_appTree :
    Depends webChanged (.appTree web) ∧
      ¬ Covered prefixClient (keysOf webChanged.kind) (.appTree web) := by
  have hdep : Depends webChanged (.appTree web) :=
    .appTree (by decide) ⟨rfl, rfl, rfl, rfl⟩
  exact ⟨hdep, not_covered hdep id (keysOf_subset _)⟩

end Yafu.Web.Queries
