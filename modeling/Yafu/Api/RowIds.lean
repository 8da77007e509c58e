import Yafu.Api.EventFeed

/-!
# Do row ids identify?

Reference: `appID` in `internal/api/applications.go`, `sourceID` in `sources.go` and `eventToDTO` in
`events.go`; the web client keys rows, selections and its de-duplication by these ids.

An id joins the cluster, the namespace, the kind and the name by slashes. The last three have none,
so that the id can be taken apart from its end whatever the cluster is called. The id of an event has
the namespace and the name only: clusters that mirror each other share it.
-/

namespace Yafu.Api

open Yafu.Auth (Policy)
open Yafu.Cluster (Registry)

/-! ## What an id says -/

/-- The namespace, the kind and the name of an object have no slash; the cluster is arbitrary. -/
structure AppPath.SlashFree (p : AppPath) : Prop where
  ns : '/'.toUInt8 ∉ p.ns
  kind : '/'.toUInt8 ∉ p.kind
  name : '/'.toUInt8 ∉ p.name

/-- Taking a string apart at the last separator. -/
theorem eq_of_append_sep {sep : UInt8} {x x' y y' : GoString} (hy : sep ∉ y) (hy' : sep ∉ y')
    (h : x ++ sep :: y = x' ++ sep :: y') : x = x' ∧ y = y' := by
  have hrev : y.reverse ++ sep :: x.reverse = y'.reverse ++ sep :: x'.reverse := by
    simpa using congrArg List.reverse h
  have hcut : some (y.reverse, x.reverse) = some (y'.reverse, x'.reverse) := by
    rw [← GoString.cut_append (by simpa using hy), ← GoString.cut_append (by simpa using hy'), hrev]
  rw [Option.some.injEq, Prod.mk.injEq, List.reverse_inj, List.reverse_inj] at hcut
  exact ⟨hcut.2, hcut.1⟩

theorem AppPath.id_injective {p p' : AppPath} (hp : p.SlashFree) (hp' : p'.SlashFree)
    (h : p.id = p'.id) : p = p' := by
  have hslash : ("/" : GoString) = ['/'.toUInt8] := rfl
  have split (q : AppPath) : q.id =
      ((q.cluster ++ '/'.toUInt8 :: q.ns) ++ '/'.toUInt8 :: q.kind) ++ '/'.toUInt8 :: q.name := by
    simp only [AppPath.id, appID, hslash, List.append_assoc, List.cons_append,
      List.nil_append]
  rw [split p, split p'] at h
  obtain ⟨hkind, hname⟩ := eq_of_append_sep hp.name hp'.name h
  obtain ⟨hns, hkind⟩ := eq_of_append_sep hp.kind hp'.kind hkind
  obtain ⟨hcluster, hns⟩ := eq_of_append_sep hp.ns hp'.ns hns
  rcases p with ⟨c, n, k, m⟩
  rcases p' with ⟨c', n', k', m'⟩
  simp only at hcluster hns hkind hname
  rw [hcluster, hns, hkind, hname]

/-! ## What a row describes -/

def applicationKey (a : Types.Application) : AppPath := ⟨a.clusterId, a.ns, a.kind, a.name⟩

def sourceKey (s : Types.Source) : AppPath := ⟨s.clusterId, s.ns, s.kind, s.name⟩

def updateKey (u : Types.ImageUpdate) : AppPath := ⟨u.clusterId, u.ns, "ImagePolicy", u.name⟩

/-- The name of an event is in the id of its row. -/
def eventKey (e : Types.Event) : AppPath :=
  ⟨e.clusterId, e.ns, "Event", ((GoString.cut '/'.toUInt8 e.id).getD ([], [])).2⟩

/-- Every row describes one of these objects, and rows with the same id describe the same object of
the same cluster. -/
structure Identify {ρ : Type} (id : ρ → GoString) (key : ρ → AppPath) (objects : List AppPath)
    (rows : List ρ) : Prop where
  described : ∀ a ∈ rows, key a ∈ objects
  same : ∀ a ∈ rows, ∀ b ∈ rows, id a = id b → key a = key b

/-- A row with the id of what it describes, which is one of these objects. -/
structure Labelled {ρ : Type} (id : ρ → GoString) (key : ρ → AppPath) (objects : List AppPath)
    (row : ρ) : Prop where
  label : id row = (key row).id
  slashFree : (key row).SlashFree
  described : key row ∈ objects

theorem identify_of_labelled {ρ : Type} {id : ρ → GoString} {key : ρ → AppPath}
    {objects : List AppPath} {rows : List ρ} (h : ∀ row ∈ rows, Labelled id key objects row) :
    Identify id key objects rows where
  described row hrow := (h row hrow).described
  same a ha b hb hid := by
    have hsame : (key a).id = (key b).id :=
      (h a ha).label.symm.trans (hid.trans (h b hb).label)
    exact AppPath.id_injective (h a ha).slashFree (h b hb).slashFree hsame

/-! ## The objects behind the rows -/

/-- An object of a cluster. -/
def objectPath (e : Entry) (kind : GoString) (m : ObjectMeta) : AppPath :=
  ⟨e.name, m.namespace, kind, m.name⟩

/-- The Kustomizations and HelmReleases that a cluster answers with. -/
def applicationsOf (e : Entry) : List AppPath :=
  (bestEffort e.clients.kustomizations).map (fun k => objectPath e "Kustomization" k.toObjectMeta) ++
    (bestEffort e.clients.helmReleases).map fun hr => objectPath e "HelmRelease" hr.toObjectMeta

def sourcesOf (e : Entry) : List AppPath :=
  (bestEffort e.clients.gitRepositories).map (fun o => objectPath e "GitRepository" o.toObjectMeta) ++
    (bestEffort e.clients.helmRepositories).map
      (fun o => objectPath e "HelmRepository" o.toObjectMeta) ++
    (bestEffort e.clients.ociRepositories).map (fun o => objectPath e "OCIRepository" o.toObjectMeta) ++
    (bestEffort e.clients.buckets).map fun o => objectPath e "Bucket" o.toObjectMeta

def updatesOf (e : Entry) : List AppPath :=
  (bestEffort e.clients.imagePolicies).map fun p => objectPath e "ImagePolicy" p.toObjectMeta

/-- The events of a cluster that are asked for. -/
def answeredEvents (filter : EventFilter) (e : Entry) : List Event :=
  if e.status.reachable then
    matching filter (bestEffort (e.clients.events (maxEventsPerCluster * 5) filter.ns))
  else []

def eventsOf (filter : EventFilter) (e : Entry) : List AppPath :=
  (answeredEvents filter e).map fun ev => objectPath e "Event" ev.toObjectMeta

/-! ## Clusters whose objects have no slash in their names -/

def ObjectMeta.SlashFree (m : ObjectMeta) : Prop :=
  '/'.toUInt8 ∉ m.namespace ∧ '/'.toUInt8 ∉ m.name

/-- The objects of an answer, if it is no error. -/
def SlashFreeAnswer {α : Type} (metadata : α → ObjectMeta) (answer : Except ApiError (List α)) : Prop :=
  ∀ items, answer = .ok items → ∀ o ∈ items, (metadata o).SlashFree

structure SlashFreeContents (e : Entry) : Prop where
  kustomizations : SlashFreeAnswer Kustomization.toObjectMeta e.clients.kustomizations
  helmReleases : SlashFreeAnswer HelmRelease.toObjectMeta e.clients.helmReleases
  gitRepositories : SlashFreeAnswer (·.toObjectMeta) e.clients.gitRepositories
  helmRepositories : SlashFreeAnswer (·.toObjectMeta) e.clients.helmRepositories
  ociRepositories : SlashFreeAnswer (·.toObjectMeta) e.clients.ociRepositories
  buckets : SlashFreeAnswer (·.toObjectMeta) e.clients.buckets
  imagePolicies : SlashFreeAnswer ImagePolicy.toObjectMeta e.clients.imagePolicies
  events : ∀ limit ns, SlashFreeAnswer Event.toObjectMeta (e.clients.events limit ns)

theorem SlashFreeAnswer.of_mem_bestEffort {α : Type} {metadata : α → ObjectMeta}
    {answer : Except ApiError (List α)} (h : SlashFreeAnswer metadata answer) {o : α}
    (ho : o ∈ bestEffort answer) : (metadata o).SlashFree := by
  cases answer with
  | error err => cases ho
  | ok items => exact h items rfl o ho

theorem mem_rowsOf {ρ : Type} {account : Entry → Except GoString (List ρ)} {e : Entry} {row : ρ} :
    row ∈ rowsOf account e ↔ ∃ rows, account e = .ok rows ∧ row ∈ rows := by
  rw [rowsOf]
  cases account e with
  | error err => simp [Except.toOption]
  | ok rows => simp [Except.toOption]

theorem ok_of_checkFlux {ρ : Type} {e : Entry} {rows : Except GoString (List ρ)} {out : List ρ}
    (h : checkFlux e rows = .ok out) : rows = .ok out := by
  unfold checkFlux at h
  split_ifs at h
  exact h

section Rows

variable {now : Cluster.Time} {e : Entry}

/-- A row is made of an object that the cluster has answered with. -/
theorem exists_of_application {a : Types.Application}
    (ha : a ∈ rowsOf (listApplicationsForCluster now) e) :
    (∃ k ∈ bestEffort e.clients.kustomizations, a = kustomizationToApp now e k) ∨
      ∃ hr ∈ bestEffort e.clients.helmReleases, a = helmReleaseToApp now e hr := by
  obtain ⟨rows, hrows, ha⟩ := mem_rowsOf.mp ha
  have hok := ok_of_checkFlux hrows
  rcases hks : e.clients.kustomizations with err | ks
  · rw [hks] at hok
    cases hok
  · rw [hks] at hok
    obtain rfl := Except.ok.inj hok
    refine (List.mem_append.mp ha).imp (fun hmem => ?_) fun hmem => ?_
    · obtain ⟨k, hk, rfl⟩ := List.mem_map.mp hmem
      exact ⟨k, hk, rfl⟩
    · obtain ⟨hr, hhr, rfl⟩ := List.mem_map.mp hmem
      exact ⟨hr, hhr, rfl⟩

theorem exists_of_source {s : Types.Source} (hs : s ∈ rowsOf (listSourcesForCluster now) e) :
    (((∃ o ∈ bestEffort e.clients.gitRepositories, gitRepoToSource now e o = s) ∨
      ∃ o ∈ bestEffort e.clients.helmRepositories, helmRepoToSource now e o = s) ∨
      ∃ o ∈ bestEffort e.clients.ociRepositories, ociRepoToSource now e o = s) ∨
      ∃ o ∈ bestEffort e.clients.buckets, bucketToSource now e o = s := by
  obtain ⟨rows, hrows, hs⟩ := mem_rowsOf.mp hs
  obtain rfl := Except.ok.inj (ok_of_checkFlux hrows)
  simpa only [List.mem_append, List.mem_map] using hs

theorem exists_of_update {u : Types.ImageUpdate} (hu : u ∈ rowsOf (listImageUpdatesForCluster now) e) :
    ∃ p ∈ bestEffort e.clients.imagePolicies, ∃ repos, u = imagePolicyToUpdate now e p repos := by
  obtain ⟨rows, hrows, hu⟩ := mem_rowsOf.mp hu
  have hok := ok_of_checkFlux hrows
  rcases hps : e.clients.imagePolicies with err | ps
  · rw [hps] at hok
    simp only at hok
    split_ifs at hok
    obtain rfl := Except.ok.inj hok
    cases hu
  · rw [hps] at hok
    obtain rfl := Except.ok.inj hok
    obtain ⟨p, hp, rfl⟩ := List.mem_map.mp hu
    exact ⟨p, hp, _, rfl⟩

theorem labelled_application (h : SlashFreeContents e) {a : Types.Application}
    (ha : a ∈ rowsOf (listApplicationsForCluster now) e) :
    Labelled Types.Application.id applicationKey (applicationsOf e) a := by
  rcases exists_of_application ha with ⟨k, hk, rfl⟩ | ⟨hr, hhr, rfl⟩
  · obtain ⟨hns, hname⟩ := h.kustomizations.of_mem_bestEffort hk
    exact ⟨rfl, ⟨hns, (by decide : '/'.toUInt8 ∉ ("Kustomization" : GoString)), hname⟩,
      List.mem_append_left _ (List.mem_map_of_mem hk)⟩
  · obtain ⟨hns, hname⟩ := h.helmReleases.of_mem_bestEffort hhr
    exact ⟨rfl, ⟨hns, (by decide : '/'.toUInt8 ∉ ("HelmRelease" : GoString)), hname⟩,
      List.mem_append_right _ (List.mem_map_of_mem hhr)⟩

theorem labelled_source (h : SlashFreeContents e) {s : Types.Source}
    (hs : s ∈ rowsOf (listSourcesForCluster now) e) :
    Labelled Types.Source.id sourceKey (sourcesOf e) s := by
  rcases exists_of_source hs with ((⟨o, ho, rfl⟩ | ⟨o, ho, rfl⟩) | ⟨o, ho, rfl⟩) | ⟨o, ho, rfl⟩
  · obtain ⟨hns, hname⟩ := h.gitRepositories.of_mem_bestEffort ho
    exact ⟨rfl, ⟨hns, (by decide : '/'.toUInt8 ∉ ("GitRepository" : GoString)), hname⟩,
      List.mem_append_left _ (List.mem_append_left _ (List.mem_append_left _
        (List.mem_map_of_mem ho)))⟩
  · obtain ⟨hns, hname⟩ := h.helmRepositories.of_mem_bestEffort ho
    exact ⟨rfl, ⟨hns, (by decide : '/'.toUInt8 ∉ ("HelmRepository" : GoString)), hname⟩,
      List.mem_append_left _ (List.mem_append_left _ (List.mem_append_right _
        (List.mem_map_of_mem ho)))⟩
  · obtain ⟨hns, hname⟩ := h.ociRepositories.of_mem_bestEffort ho
    exact ⟨rfl, ⟨hns, (by decide : '/'.toUInt8 ∉ ("OCIRepository" : GoString)), hname⟩,
      List.mem_append_left _ (List.mem_append_right _ (List.mem_map_of_mem ho))⟩
  · obtain ⟨hns, hname⟩ := h.buckets.of_mem_bestEffort ho
    exact ⟨rfl, ⟨hns, (by decide : '/'.toUInt8 ∉ ("Bucket" : GoString)), hname⟩,
      List.mem_append_right _ (List.mem_map_of_mem ho)⟩

theorem labelled_update (h : SlashFreeContents e) {u : Types.ImageUpdate}
    (hu : u ∈ rowsOf (listImageUpdatesForCluster now) e) :
    Labelled Types.ImageUpdate.id updateKey (updatesOf e) u := by
  obtain ⟨p, hp, repos, rfl⟩ := exists_of_update hu
  obtain ⟨hns, hname⟩ := h.imagePolicies.of_mem_bestEffort hp
  exact ⟨rfl, ⟨hns, (by decide : '/'.toUInt8 ∉ ("ImagePolicy" : GoString)), hname⟩,
    List.mem_map_of_mem hp⟩

end Rows

/-! ## Events -/

/-- No two of these clusters have an event of the same namespace and name. -/
def EventsApart (filter : EventFilter) (clusters : List Entry) : Prop :=
  ∀ e ∈ clusters, ∀ e' ∈ clusters, ∀ ev ∈ answeredEvents filter e, ∀ ev' ∈ answeredEvents filter e',
    ev.namespace = ev'.namespace → ev.name = ev'.name → e.name = e'.name

/-- Nothing is cut off. -/
structure EventsFit (filter : EventFilter) (clusters : List Entry) : Prop where
  share : ∀ e ∈ clusters, (answeredEvents filter e).length ≤ maxEventsPerCluster
  all : (clusters.flatMap (answeredEvents filter)).length ≤ maxEventsPerCluster * 4

theorem rowsOf_listEvents (sort : SortSlice eventLess) (filter : EventFilter) (e : Entry) :
    rowsOf (listEventsForCluster sort filter) e =
      (sort.sort ((answeredEvents filter e).map (eventToDTO e))).take maxEventsPerCluster := by
  have hnil : sort.sort [] = [] := List.perm_nil.mp (sort.perm [])
  rw [rowsOf, listEventsForCluster, answeredEvents]
  by_cases hreach : e.status.reachable = true
  · rw [if_neg (by simp [hreach]), if_pos hreach]
    rcases e.clients.events (maxEventsPerCluster * 5) filter.ns with err | items
    · simp [bestEffort, matching, hnil, Except.toOption]
    · rfl
  · rw [if_pos (by simpa using hreach), if_neg hreach, List.map_nil, hnil, List.take_nil]
    rfl

theorem id_eventToDTO (e : Entry) (ev : Event) :
    (eventToDTO e ev).id = ev.namespace ++ '/'.toUInt8 :: ev.name := List.append_assoc _ _ _

theorem eventKey_eventToDTO {e : Entry} {ev : Event} (h : ev.toObjectMeta.SlashFree) :
    eventKey (eventToDTO e ev) = ⟨e.name, ev.namespace, "Event", ev.name⟩ := by
  rw [eventKey, id_eventToDTO, GoString.cut_append h.1]
  rfl

section Events

variable {rt : Runtime} {policy : Policy} {registry : Option (Registry Clients)} {r : Request}
  {sort : SortSlice eventLess} {l : Types.Listing Types.Event}

theorem slashFree_answered {filter : EventFilter} {e : Entry} (h : SlashFreeContents e) {ev : Event}
    (hev : ev ∈ answeredEvents filter e) : ev.toObjectMeta.SlashFree := by
  rw [answeredEvents] at hev
  split_ifs at hev
  · exact (h.events _ _).of_mem_bestEffort (List.mem_of_mem_filter hev)
  · cases hev

/-- A row that is served is that of an event of a cluster. -/
theorem exists_event_of_mem (h : l ∈ listEvents rt policy registry r sort) {row : Types.Event}
    (hrow : row ∈ l.items) : ∃ e ∈ askedClusters rt policy registry r,
      ∃ ev ∈ answeredEvents (eventFilterOf r) e, row = eventToDTO e ev := by
  obtain ⟨merged, hmerged, hitems⟩ := items_listEvents h
  rw [hitems] at hrow
  have hmem := hmerged.mem_iff.mp (sort.mem_sort.mp (List.mem_of_mem_take hrow))
  obtain ⟨e, he, hrow⟩ := List.mem_flatMap.mp hmem
  rw [rowsOf_listEvents] at hrow
  obtain ⟨ev, hev, rfl⟩ := List.mem_map.mp (sort.mem_sort.mp (List.mem_of_mem_take hrow))
  exact ⟨e, he, ev, hev, rfl⟩

/-- Where nothing is cut off, each event of each cluster is served. -/
theorem mem_of_fit (hfit : EventsFit (eventFilterOf r) (askedClusters rt policy registry r))
    (h : l ∈ listEvents rt policy registry r sort) {e : Entry}
    (he : e ∈ askedClusters rt policy registry r) {ev : Event}
    (hev : ev ∈ answeredEvents (eventFilterOf r) e) : eventToDTO e ev ∈ l.items := by
  have hshare : ∀ e ∈ askedClusters rt policy registry r,
      (rowsOf (listEventsForCluster sort (eventFilterOf r)) e).Perm
        ((answeredEvents (eventFilterOf r) e).map (eventToDTO e)) := by
    intro e he
    rw [rowsOf_listEvents, List.take_of_length_le]
    · exact sort.perm _
    · rw [(sort.perm _).length_eq, List.length_map]
      exact hfit.share e he
  obtain ⟨merged, hmerged, hitems⟩ := items_listEvents h
  have hall : merged.Perm ((askedClusters rt policy registry r).flatMap fun e =>
      (answeredEvents (eventFilterOf r) e).map (eventToDTO e)) :=
    hmerged.trans (List.Perm.flatMap_left _ hshare)
  have hlength : (sort.sort merged).length ≤ 800 := by
    rw [(sort.perm merged).length_eq, hall.length_eq, List.length_flatMap]
    simp only [List.length_map]
    have hfew := hfit.all
    rwa [List.length_flatMap] at hfew
  rw [hitems, List.take_of_length_le hlength, sort.mem_sort, hall.mem_iff]
  exact List.mem_flatMap.mpr ⟨e, he, List.mem_map_of_mem hev⟩

variable (hfree : ∀ e ∈ askedClusters rt policy registry r, SlashFreeContents e)

include hfree

theorem identify_events (hapart : EventsApart (eventFilterOf r) (askedClusters rt policy registry r))
    (h : l ∈ listEvents rt policy registry r sort) :
    Identify Types.Event.id eventKey
      ((askedClusters rt policy registry r).flatMap (eventsOf (eventFilterOf r))) l.items := by
  refine ⟨fun a ha => ?_, fun a ha b hb hid => ?_⟩
  · obtain ⟨e, he, ev, hev, rfl⟩ := exists_event_of_mem h ha
    rw [eventKey_eventToDTO (slashFree_answered (hfree e he) hev)]
    exact List.mem_flatMap.mpr ⟨e, he, List.mem_map_of_mem hev⟩
  obtain ⟨e, he, ev, hev, rfl⟩ := exists_event_of_mem h ha
  obtain ⟨e', he', ev', hev', rfl⟩ := exists_event_of_mem h hb
  have hev1 := slashFree_answered (hfree e he) hev
  have hev2 := slashFree_answered (hfree e' he') hev'
  rw [id_eventToDTO, id_eventToDTO] at hid
  obtain ⟨hns, hname⟩ := eq_of_append_sep hev1.2 hev2.2 hid
  rw [eventKey_eventToDTO hev1, eventKey_eventToDTO hev2,
    hapart e he e' he' ev hev ev' hev' hns hname, hns, hname]

theorem eventsApart_of_identify
    (hfit : EventsFit (eventFilterOf r) (askedClusters rt policy registry r))
    (h : l ∈ listEvents rt policy registry r sort) {objects : List AppPath}
    (hid : Identify Types.Event.id eventKey objects l.items) :
    EventsApart (eventFilterOf r) (askedClusters rt policy registry r) := by
  intro e he e' he' ev hev ev' hev' hns hname
  have hsame : (eventToDTO e ev).id = (eventToDTO e' ev').id := by
    simp only [eventToDTO, hns, hname]
  have hkey := hid.same _ (mem_of_fit hfit h he hev) _ (mem_of_fit hfit h he' hev') hsame
  rw [eventKey_eventToDTO (slashFree_answered (hfree e he) hev),
    eventKey_eventToDTO (slashFree_answered (hfree e' he') hev')] at hkey
  exact Cluster.Store.utf8_injective (congrArg AppPath.cluster hkey)

end Events

/-! ## The four lists -/

/-- In every answer of the four lists the rows describe objects of the clusters that are asked, and the
ids identify. -/
structure RowIdsIdentify (rt : Runtime) (policy : Policy) (registry : Option (Registry Clients))
    (r : Request) (sorts : Sorts) : Prop where
  applications : ∀ l ∈ listApplications rt policy registry r sorts.applications,
    Identify Types.Application.id applicationKey
      ((askedClusters rt policy registry r).flatMap applicationsOf) l.items
  sources : ∀ l ∈ listSources rt policy registry r sorts.sources,
    Identify Types.Source.id sourceKey
      ((askedClusters rt policy registry r).flatMap sourcesOf) l.items
  updates : ∀ l ∈ listImageUpdates rt policy registry r sorts.updates,
    Identify Types.ImageUpdate.id updateKey
      ((askedClusters rt policy registry r).flatMap updatesOf) l.items
  events : ∀ l ∈ listEvents rt policy registry r sorts.events,
    Identify Types.Event.id eventKey
      ((askedClusters rt policy registry r).flatMap (eventsOf (eventFilterOf r))) l.items

section Lists

variable {rt : Runtime} {policy : Policy} {registry : Option (Registry Clients)} {r : Request}

theorem identify_listing {ρ : Type} {fetch : Entry → Except GoString (List ρ)}
    {finish : List ρ → List ρ} (hfinish : ∀ rows, (finish rows).Perm rows) {id : ρ → GoString}
    {key : ρ → AppPath} {objects : Entry → List AppPath}
    (hrow : ∀ e ∈ askedClusters rt policy registry r, ∀ row ∈ rowsOf fetch e,
      Labelled id key (objects e) row)
    {l : Types.Listing ρ}
    (h : l ∈ listing rt policy registry r fetch finish (r.http.query "cluster")) :
    Identify id key ((askedClusters rt policy registry r).flatMap objects) l.items := by
  refine identify_of_labelled fun row hmem => ?_
  obtain ⟨e, he, hmem⟩ := List.mem_flatMap.mp ((accounted_listing hfinish h).items.mem_iff.mp hmem)
  obtain ⟨hlabel, hfree, hobject⟩ := hrow e he row hmem
  exact ⟨hlabel, hfree, List.mem_flatMap.mpr ⟨e, he, hobject⟩⟩

/-- The ids of applications, sources and image updates identify whatever the clusters are called, and
those of events as long as no two clusters have an event of the same namespace and name; where no
limit cuts events off, as long only. -/
theorem rowIds_identify (sorts : Sorts)
    (hfree : ∀ e ∈ askedClusters rt policy registry r, SlashFreeContents e) :
    (EventsApart (eventFilterOf r) (askedClusters rt policy registry r) →
        RowIdsIdentify rt policy registry r sorts) ∧
      (EventsFit (eventFilterOf r) (askedClusters rt policy registry r) →
        RowIdsIdentify rt policy registry r sorts →
          EventsApart (eventFilterOf r) (askedClusters rt policy registry r)) := by
  constructor
  · intro hapart
    exact {
      applications := fun l hl => identify_listing sorts.applications.perm
        (fun e he _ hrow => labelled_application (hfree e he) hrow) hl
      sources := fun l hl => identify_listing sorts.sources.perm
        (fun e he _ hrow => labelled_source (hfree e he) hrow) hl
      updates := fun l hl => identify_listing sorts.updates.perm
        (fun e he _ hrow => labelled_update (hfree e he) hrow) hl
      events := fun l hl => identify_events hfree hapart hl }
  · intro hfit hids
    obtain ⟨l, hl⟩ : (listEvents rt policy registry r sorts.events).Nonempty := by
      rw [listEvents]
      exact listing_nonempty _
    exact eventsApart_of_identify hfree hfit hl (hids.events l hl)

end Lists

/-! ## Two clusters -/

/-- A cluster with the Kustomization `apps` and this event. -/
def eventEntry (name : String) (ev : Event) : Entry :=
  { reachableEntry name with
    clients := { clusterOf [appsKustomization] with
      events := fun limit ns => .ok ((eventsIn ns [ev]).take limit) } }

def registryOf (entries : List Entry) : Registry Clients :=
  ⟨entries, fun name => entries.find? fun e => e.name = name⟩

theorem slashFree_eventEntry (name : String) {ev : Event} (hev : ev.toObjectMeta.SlashFree) :
    SlashFreeContents (eventEntry name ev) := by
  have hempty {α : Type} (metadata : α → ObjectMeta) : SlashFreeAnswer metadata (.ok []) := by
    intro items hitems o ho
    obtain rfl := Except.ok.inj hitems
    cases ho
  refine ⟨?_, hempty _, hempty _, hempty _, hempty _, hempty _, hempty _, ?_⟩
  · intro items hitems o ho
    obtain rfl := Except.ok.inj hitems
    obtain rfl := List.mem_singleton.mp ho
    exact ⟨by decide, by decide⟩
  · intro limit ns items hitems o ho
    obtain rfl := Except.ok.inj hitems
    obtain rfl := List.mem_singleton.mp (List.mem_of_mem_filter (List.mem_of_mem_take ho))
    exact hev

/-- A later event about the Kustomization. -/
def nextEvent : Event := { appsEvent 2 with name := "apps.2" }

/-- Two clusters, of which one has a context name with a slash, with an event each. -/
def eventClusters : List Entry := [eventEntry "ctx/east" (appsEvent 1), eventEntry "west" nextEvent]

theorem asked_eventClusters : askedClusters idleRuntime Auth.defaultAllowAllPolicy
    (some (registryOf eventClusters)) devRequest = eventClusters := rfl

theorem rowIds_identify_eventClusters : RowIdsIdentify idleRuntime Auth.defaultAllowAllPolicy
    (some (registryOf eventClusters)) devRequest keySorts := by
  have heast : answeredEvents (eventFilterOf devRequest) (eventEntry "ctx/east" (appsEvent 1)) =
      [appsEvent 1] := by decide +kernel
  have hwest : answeredEvents (eventFilterOf devRequest) (eventEntry "west" nextEvent) =
      [nextEvent] := by decide +kernel
  refine (rowIds_identify keySorts ?_).1 ?_
  · rw [asked_eventClusters, eventClusters, List.forall_mem_cons, List.forall_mem_singleton]
    exact ⟨slashFree_eventEntry _ ⟨by decide, by decide⟩, slashFree_eventEntry _ ⟨by decide, by decide⟩⟩
  · have hnamed : ∀ e ∈ eventClusters, ∀ ev ∈ answeredEvents (eventFilterOf devRequest) e,
        e.name = "ctx/east" ∧ ev.name = "apps.1" ∨ e.name = "west" ∧ ev.name = "apps.2" := by
      rw [eventClusters, List.forall_mem_cons, List.forall_mem_singleton, heast, hwest,
        List.forall_mem_singleton, List.forall_mem_singleton]
      exact ⟨.inl ⟨rfl, rfl⟩, .inr ⟨rfl, rfl⟩⟩
    have hne : ("apps.1" : GoString) ≠ "apps.2" := by decide
    rw [asked_eventClusters]
    intro e he e' he' ev hev ev' hev' _ hsame
    rcases hnamed e he ev hev with ⟨hcluster, hname⟩ | ⟨hcluster, hname⟩ <;>
      rcases hnamed e' he' ev' hev' with ⟨hcluster', hname'⟩ | ⟨hcluster', hname'⟩
    · exact hcluster.trans hcluster'.symm
    · exact absurd (hname.symm.trans (hsame.trans hname')) hne
    · exact absurd (hname'.symm.trans (hsame.symm.trans hname)) hne
    · exact hcluster.trans hcluster'.symm

/-- A cluster with the event that all of its mirrors have. -/
def mirrorEntry (name : String) : Entry := eventEntry name (appsEvent 1)

def mirrorRegistry (names : List String) : Registry Clients := registryOf (names.map mirrorEntry)

theorem slashFree_mirrorEntry (name : String) : SlashFreeContents (mirrorEntry name) :=
  slashFree_eventEntry name ⟨by decide, by decide⟩

theorem asked_mirrors : askedClusters idleRuntime Auth.defaultAllowAllPolicy
    (some (mirrorRegistry ["east", "west"])) devRequest = [mirrorEntry "east", mirrorEntry "west"] := rfl

/-- The events about the Kustomization `apps` of two clusters have one id. -/
theorem not_rowIds_identify_mirrors :
    (∀ e ∈ askedClusters idleRuntime Auth.defaultAllowAllPolicy
      (some (mirrorRegistry ["east", "west"])) devRequest, SlashFreeContents e) ∧
      (eventToDTO (mirrorEntry "east") (appsEvent 1)).id = "flux-system/apps.1" ∧
      (eventToDTO (mirrorEntry "west") (appsEvent 1)).id = "flux-system/apps.1" ∧
      ¬ RowIdsIdentify idleRuntime Auth.defaultAllowAllPolicy
        (some (mirrorRegistry ["east", "west"])) devRequest keySorts := by
  have hanswered (name : String) :
      answeredEvents (eventFilterOf devRequest) (mirrorEntry name) = [appsEvent 1] := by
    have hmatch : matching (eventFilterOf devRequest) ((eventsIn [] [appsEvent 1]).take 1000) =
        [appsEvent 1] := by decide +kernel
    exact hmatch
  have hfree : ∀ e ∈ askedClusters idleRuntime Auth.defaultAllowAllPolicy
      (some (mirrorRegistry ["east", "west"])) devRequest, SlashFreeContents e := by
    rw [asked_mirrors, List.forall_mem_cons, List.forall_mem_singleton]
    exact ⟨slashFree_mirrorEntry "east", slashFree_mirrorEntry "west"⟩
  have hfit : EventsFit (eventFilterOf devRequest) [mirrorEntry "east", mirrorEntry "west"] := by
    constructor
    · rw [List.forall_mem_cons, List.forall_mem_singleton, hanswered, hanswered]
      decide
    · rw [List.flatMap_cons, List.flatMap_cons, List.flatMap_nil, hanswered, hanswered]
      decide
  refine ⟨hfree, by decide +kernel, by decide +kernel, fun hids => ?_⟩
  obtain ⟨l, hl⟩ : (listEvents idleRuntime Auth.defaultAllowAllPolicy
      (some (mirrorRegistry ["east", "west"])) devRequest keySorts.events).Nonempty := by
    rw [listEvents]
    exact listing_nonempty _
  have hapart := eventsApart_of_identify hfree (asked_mirrors ▸ hfit) hl (hids.events l hl)
  rw [asked_mirrors] at hapart
  have hname : (mirrorEntry "east").name = (mirrorEntry "west").name := by
    refine hapart (mirrorEntry "east") (by simp) (mirrorEntry "west") (by simp) (appsEvent 1) ?_
      (appsEvent 1) ?_ rfl rfl
    · rw [hanswered]
      exact List.mem_singleton_self _
    · rw [hanswered]
      exact List.mem_singleton_self _
  exact absurd hname (by decide)

end Yafu.Api
