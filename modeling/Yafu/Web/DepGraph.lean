import Yafu.Api.Types
import Yafu.Lib.Index
import Yafu.Lib.Path
import Mathlib.Data.List.Perm.Basic

/-!
# The dependency graph

Reference: `web/src/lib/depGraph.ts`.

`buildClusterGraphs` groups applications and sources by cluster and joins each application with the
source it names. An application that names one which is not found goes to `orphanApps`; one that
names none is left out of its graph.

A JavaScript `Map` keeps its keys in the order they were first set, as an `OrderedMap` does, and
`Array.prototype.sort` is a stable sort. `localeCompare` is the collation of the browser.
-/

namespace Yafu.Web.DepGraph

open Yafu.Api.Types (Application Source)
open GoString (cut)

/-- `EdgeTone`. -/
inductive EdgeTone where
  | ok
  | warn
  | err
  | muted
deriving DecidableEq, Repr

/-- `DepEdge`. -/
structure DepEdge where
  sourceId : GoString
  appId : GoString
  tone : EdgeTone
deriving DecidableEq, Repr

/-- `ClusterDepGraph`. -/
structure ClusterDepGraph where
  clusterId : GoString
  clusterName : GoString
  sources : List Source
  apps : List Application
  edges : List DepEdge
  orphanApps : List Application
  unusedSources : List Source
deriving DecidableEq, Repr

/-- What `parseSourceRef` finds. -/
structure SourceRef where
  kind : Option GoString
  name : GoString

/-- The kind of a reference, where it is not the empty string. -/
def SourceRef.truthyKind (ref : SourceRef) : Option GoString := ref.kind.filter (· ≠ [])

/-- `parseSourceRef`; a missing `source` is read as an empty one. -/
def parseSourceRef (s : GoString) : Option SourceRef :=
  if s = [] then none
  else match cut Path.slash s with
    | none => some ⟨none, s⟩
    | some (kind, name) => some ⟨some kind, name⟩

/-- A value of `buckets`. -/
structure Bucket where
  name : GoString
  apps : List Application := []
  sources : List Source := []

/-- `seed`, and then the change of the bucket that is there. -/
def pushInto (m : OrderedMap GoString Bucket) (clusterId displayName : GoString)
    (push : Bucket → Bucket) : OrderedMap GoString Bucket :=
  m.set clusterId (push ((m.lookup clusterId).getD { name := displayName }))

/-- An application goes into the bucket of its cluster. -/
def pushApp (m : OrderedMap GoString Bucket) (a : Application) : OrderedMap GoString Bucket :=
  pushInto m a.clusterId a.cluster fun b => { b with apps := b.apps ++ [a] }

/-- A source goes into the bucket of its cluster. -/
def pushSource (m : OrderedMap GoString Bucket) (s : Source) : OrderedMap GoString Bucket :=
  pushInto m s.clusterId s.cluster fun b => { b with sources := b.sources ++ [s] }

/-- The grouping by `clusterId`. -/
def buckets (apps : List Application) (sources : List Source) : OrderedMap GoString Bucket :=
  sources.foldl pushSource (apps.foldl pushApp OrderedMap.empty)

/-! ## The join of one cluster -/

/-- A template string with a slash between the parts. -/
def slashed (ns name : GoString) : GoString := ns ++ Path.slash :: name

/-- `byNsKindName`: of several sources the last one. -/
def byNsKindName (sources : List Source) : OrderedMap GoString Source :=
  sources.foldl (fun m s => m.set (slashed s.ns (slashed s.kind s.name)) s) OrderedMap.empty

/-- `byNsName`. -/
def byNsName (sources : List Source) : OrderedMap GoString (List Source) :=
  sources.foldl (fun m s =>
    m.set (slashed s.ns s.name) ((m.lookup (slashed s.ns s.name)).getD [] ++ [s])) OrderedMap.empty

/-- The source that an application refers to. -/
def findSource (sources : List Source) (a : Application) (ref : SourceRef) : Option Source :=
  let kinded := ref.truthyKind.bind fun kind =>
    (byNsKindName sources).lookup (slashed a.ns (slashed kind ref.name))
  match kinded with
  | some src => some src
  | none =>
    match (byNsName sources).lookup (slashed a.ns ref.name) with
    | none => none
    | some [] => none
    | some [src] => some src
    | some candidates => ref.truthyKind.bind fun kind => candidates.find? fun c => c.kind = kind

/-- `edgeTone`. -/
def edgeTone (s : Source) (a : Application) : EdgeTone :=
  if s.status = "failing" ∨ a.status = "failing" then .err
  else if s.status = "degraded" ∨ a.status = "degraded" then .warn
  else if a.suspended then .muted
  else .ok

/-- What the loop over the applications of a cluster has gathered. -/
structure Joined where
  edges : List DepEdge := []
  orphanApps : List Application := []
  usedSources : List GoString := []
  matchedApps : List Application := []

/-- The loop body: an application without a reference is passed over. -/
def joinApp (sources : List Source) (j : Joined) (a : Application) : Joined :=
  match parseSourceRef a.source with
  | none => j
  | some ref =>
    match findSource sources a ref with
    | none => { j with orphanApps := j.orphanApps ++ [a] }
    | some src =>
      { j with
        matchedApps := j.matchedApps ++ [a]
        usedSources := j.usedSources.insert src.id
        edges := j.edges ++ [⟨src.id, a.id, edgeTone src a⟩] }

/-- `rank` of `severityNameSort`. -/
def rank (status : GoString) : ℤ :=
  if status = "failing" then 0
  else if status = "degraded" then 1
  else if status = "progressing" then 2
  else 3

variable (localeCompare : GoString → GoString → ℤ)

/-- `severityNameSort`, on the status and the name of an item. -/
def severityNameSort (a b : GoString × GoString) : ℤ :=
  let r := rank a.1 - rank b.1
  if r ≠ 0 then r else localeCompare a.2 b.2

/-- `Array.prototype.sort`. -/
def jsSort {α : Type*} (compare : α → α → ℤ) (l : List α) : List α :=
  l.mergeSort fun a b => compare a b ≤ 0

/-- Applications by severity and name. -/
def sortApps (apps : List Application) : List Application :=
  jsSort (fun a b => severityNameSort localeCompare (a.status, a.name) (b.status, b.name)) apps

/-- Sources by severity and name. -/
def sortSources (sources : List Source) : List Source :=
  jsSort (fun a b => severityNameSort localeCompare (a.status, a.name) (b.status, b.name)) sources

/-- The graph of one bucket. -/
def clusterGraph (clusterId : GoString) (b : Bucket) : ClusterDepGraph :=
  let j := b.apps.foldl (joinApp b.sources) {}
  { clusterId
    clusterName := b.name
    sources := sortSources localeCompare (b.sources.filter fun s => j.usedSources.contains s.id)
    apps := sortApps localeCompare j.matchedApps
    edges := j.edges
    orphanApps := sortApps localeCompare j.orphanApps
    unusedSources := sortSources localeCompare (b.sources.filter fun s => !j.usedSources.contains s.id) }

/-- `buildClusterGraphs`. -/
def buildClusterGraphs (apps : List Application) (sources : List Source) : List ClusterDepGraph :=
  jsSort (fun g h => localeCompare g.clusterName h.clusterName)
    ((buckets apps sources).entries.map fun p => clusterGraph localeCompare p.1 p.2)

/-! ## What the buckets hold -/

section Buckets

variable {apps : List Application} {sources : List Source} {m : OrderedMap GoString Bucket}

/-- The buckets are those of the clusters that occur, each with what is on its cluster. -/
structure Grouped (apps : List Application) (sources : List Source)
    (m : OrderedMap GoString Bucket) : Prop where
  keys : ∀ id, id ∈ m.keys ↔
    (∃ a ∈ apps, a.clusterId = id) ∨ ∃ s ∈ sources, s.clusterId = id
  apps : ∀ id b, m.lookup id = some b → b.apps = apps.filter fun a => a.clusterId = id
  sources : ∀ id b, m.lookup id = some b → b.sources = sources.filter fun s => s.clusterId = id

theorem grouped_empty : Grouped [] [] (OrderedMap.empty : OrderedMap GoString Bucket) where
  keys := by simp
  apps := by simp
  sources := by simp

/-- The bucket that is pushed into, also where it was just seeded. -/
theorem Grouped.bucket (h : Grouped apps sources m) (id name : GoString) :
    ((m.lookup id).getD { name }).apps = apps.filter (fun a => a.clusterId = id) ∧
      ((m.lookup id).getD { name }).sources = sources.filter fun s => s.clusterId = id := by
  cases hb : m.lookup id with
  | some b => exact ⟨h.apps id b hb, h.sources id b hb⟩
  | none =>
    have habsent : id ∉ m.keys := OrderedMap.notMem_keys_iff.mpr hb
    rw [h.keys, not_or] at habsent
    refine ⟨(List.filter_eq_nil_iff.mpr fun a ha => ?_).symm,
      (List.filter_eq_nil_iff.mpr fun s hs => ?_).symm⟩
    · rw [decide_eq_true_eq]
      exact fun hid => habsent.1 ⟨a, ha, hid⟩
    · rw [decide_eq_true_eq]
      exact fun hid => habsent.2 ⟨s, hs, hid⟩

/-- Pushing into the bucket of a cluster, where one thing more is on that cluster and the others have
what they had. -/
theorem Grouped.pushInto {apps' : List Application} {sources' : List Source} {id : GoString}
    (name : GoString) {push : Bucket → Bucket} (h : Grouped apps sources m)
    (hkeys : ∀ c, ((∃ a ∈ apps', a.clusterId = c) ∨ ∃ s ∈ sources', s.clusterId = c) ↔
      ((∃ a ∈ apps, a.clusterId = c) ∨ ∃ s ∈ sources, s.clusterId = c) ∨ c = id)
    (hself : ∀ b : Bucket, b.apps = (apps.filter fun a => a.clusterId = id) →
      b.sources = (sources.filter fun s => s.clusterId = id) →
      (push b).apps = (apps'.filter fun a => a.clusterId = id) ∧
        (push b).sources = sources'.filter fun s => s.clusterId = id)
    (hother : ∀ c, c ≠ id →
      (apps'.filter fun a => a.clusterId = c) = (apps.filter fun a => a.clusterId = c) ∧
        (sources'.filter fun s => s.clusterId = c) = sources.filter fun s => s.clusterId = c) :
    Grouped apps' sources' (pushInto m id name push) := by
  have hbucket : ∀ c b, (DepGraph.pushInto m id name push).lookup c = some b →
      b.apps = (apps'.filter fun a => a.clusterId = c) ∧
        b.sources = sources'.filter fun s => s.clusterId = c := by
    intro c b hb
    rw [DepGraph.pushInto] at hb
    by_cases hc : c = id
    · subst hc
      rw [OrderedMap.lookup_set_self, Option.some.injEq] at hb
      obtain ⟨happs, hsources⟩ := h.bucket c name
      exact hb ▸ hself _ happs hsources
    · rw [OrderedMap.lookup_set_ne hc] at hb
      rw [(hother c hc).1, (hother c hc).2]
      exact ⟨h.apps c b hb, h.sources c b hb⟩
  constructor
  · intro c
    rw [DepGraph.pushInto, OrderedMap.mem_keys_set, h.keys, hkeys]
  · exact fun c b hb => (hbucket c b hb).1
  · exact fun c b hb => (hbucket c b hb).2

theorem Grouped.pushApp (h : Grouped apps sources m) (a : Application) :
    Grouped (apps ++ [a]) sources (pushApp m a) := by
  refine h.pushInto a.cluster (fun c => ?_) (fun b happs hsources => ?_) fun c hc => ?_
  · simp only [List.mem_append, List.mem_singleton, or_and_right, exists_or, exists_eq_left]
    rw [or_right_comm, eq_comm (a := c) (b := a.clusterId)]
  · rw [List.filter_append, ← happs]
    simp [hsources]
  · rw [List.filter_append]
    simp [Ne.symm hc]

theorem Grouped.pushSource (h : Grouped apps sources m) (s : Source) :
    Grouped apps (sources ++ [s]) (pushSource m s) := by
  refine h.pushInto s.cluster (fun c => ?_) (fun b happs hsources => ?_) fun c hc => ?_
  · simp only [List.mem_append, List.mem_singleton, or_and_right, exists_or, exists_eq_left]
    rw [or_assoc, eq_comm (a := c) (b := s.clusterId)]
  · rw [List.filter_append, ← hsources]
    simp [happs]
  · rw [List.filter_append]
    simp [Ne.symm hc]

theorem grouped_buckets (apps : List Application) (sources : List Source) :
    Grouped apps sources (buckets apps sources) := by
  rw [buckets]
  induction sources using List.reverseRecOn with
  | nil =>
    rw [List.foldl_nil]
    induction apps using List.reverseRecOn with
    | nil => exact grouped_empty
    | append_singleton apps a ih =>
      rw [List.foldl_concat]
      exact ih.pushApp a
  | append_singleton sources s ih =>
    rw [List.foldl_concat]
    exact ih.pushSource s

end Buckets

/-! ## What the join finds -/

section Join

variable {sources : List Source}

theorem byNsKindName_eq (sources : List Source) : byNsKindName sources =
    .indexLast (fun s => slashed s.ns (slashed s.kind s.name)) sources := rfl

theorem byNsName_eq (sources : List Source) :
    byNsName sources = .indexAll (fun s => slashed s.ns s.name) sources := rfl

theorem lookup_byNsKindName {k : GoString} {s : Source}
    (h : (byNsKindName sources).lookup k = some s) : s ∈ sources := by
  rw [byNsKindName_eq, OrderedMap.lookup_indexLast] at h
  exact List.mem_of_mem_filter (List.mem_of_getLast? h)

theorem lookup_byNsName {k : GoString} {candidates : List Source}
    (h : (byNsName sources).lookup k = some candidates) : ∀ s ∈ candidates, s ∈ sources := by
  rw [byNsName_eq, OrderedMap.lookup_indexAll] at h
  split at h
  · cases h
  · rw [← Option.some.inj h]
    exact fun s hs => List.mem_of_mem_filter hs

/-- An application is joined with a source of its own cluster. -/
theorem findSource_mem {a : Application} {ref : SourceRef} {src : Source}
    (h : findSource sources a ref = some src) : src ∈ sources := by
  rw [findSource] at h
  cases hkinded : ref.truthyKind.bind fun kind =>
      (byNsKindName sources).lookup (slashed a.ns (slashed kind ref.name)) with
  | some s =>
    rw [hkinded, Option.some.injEq] at h
    obtain ⟨kind, -, hlookup⟩ := Option.bind_eq_some_iff.mp hkinded
    exact h ▸ lookup_byNsKindName hlookup
  | none =>
    rw [hkinded] at h
    cases hname : (byNsName sources).lookup (slashed a.ns ref.name) with
    | none =>
      rw [hname] at h
      exact absurd h nofun
    | some candidates =>
      rw [hname] at h
      refine lookup_byNsName hname src ?_
      match candidates, h with
      | [s], h => exact Option.some.inj h ▸ List.mem_singleton_self s
      | s :: t :: rest, h =>
        obtain ⟨kind, -, hfind⟩ := Option.bind_eq_some_iff.mp h
        exact List.mem_of_find?_eq_some hfind

end Join

/-! ## The loop over the applications of a cluster -/

section Loop

variable {sources : List Source}

/-- What the loop has gathered of the applications it has seen: every one with a reference is
matched or an orphan, and each matched one has its edge to a used source. -/
structure Gathered (sources : List Source) (seen : List Application) (j : Joined) : Prop where
  apps : (j.matchedApps ++ j.orphanApps).Perm (seen.filter fun a => a.source ≠ [])
  edges : j.edges.map DepEdge.appId = j.matchedApps.map Application.id
  used : ∀ id, id ∈ j.usedSources ↔ ∃ e ∈ j.edges, e.sourceId = id
  known : ∀ e ∈ j.edges, ∃ s ∈ sources, s.id = e.sourceId

theorem parseSourceRef_eq_none {s : GoString} : parseSourceRef s = none ↔ s = [] := by
  rw [parseSourceRef]
  by_cases h : s = []
  · simp [h]
  · rw [if_neg h]
    cases cut Path.slash s with
    | none => simp [h]
    | some p => simp [h]

theorem Gathered.joinApp {seen : List Application} {j : Joined} (h : Gathered sources seen j)
    (a : Application) : Gathered sources (seen ++ [a]) (joinApp sources j a) := by
  rw [DepGraph.joinApp]
  cases href : parseSourceRef a.source with
  | none =>
    have hempty : a.source = [] := parseSourceRef_eq_none.mp href
    refine ⟨?_, h.edges, h.used, h.known⟩
    rw [List.filter_append, List.filter_cons_of_neg (by simp [hempty]), List.filter_nil,
      List.append_nil]
    exact h.apps
  | some ref =>
    have hsource : a.source ≠ [] := fun hempty =>
      absurd (href.symm.trans (parseSourceRef_eq_none.mpr hempty)) nofun
    have hseen : (seen ++ [a]).filter (fun a => a.source ≠ []) =
        seen.filter (fun a => a.source ≠ []) ++ [a] := by
      rw [List.filter_append, List.filter_cons_of_pos (by simp [hsource]), List.filter_nil]
    dsimp only
    cases hfind : findSource sources a ref with
    | none =>
      refine ⟨?_, h.edges, h.used, h.known⟩
      rw [hseen, ← List.append_assoc]
      exact h.apps.append_right [a]
    | some src =>
      refine ⟨?_, ?_, ?_, ?_⟩
      · -- the new match stands before the orphans
        rw [hseen, List.append_assoc]
        exact (List.perm_append_comm.append_left j.matchedApps).trans
          (by rw [← List.append_assoc]; exact h.apps.append_right [a])
      · rw [List.map_append, List.map_append, h.edges]
        rfl
      · intro id
        rw [List.mem_insert_iff, h.used]
        simp only [List.mem_append, List.mem_singleton, or_and_right, exists_or, exists_eq_left]
        rw [or_comm, eq_comm (a := id)]
      · intro e he
        rcases List.mem_append.mp he with hold | hnew
        · exact h.known e hold
        · rw [List.mem_singleton.mp hnew]
          exact ⟨src, findSource_mem hfind, rfl⟩

theorem gathered_foldl (sources : List Source) (apps : List Application) :
    Gathered sources apps (apps.foldl (joinApp sources) {}) := by
  induction apps using List.reverseRecOn with
  | nil => exact ⟨.nil, rfl, by simp, by simp⟩
  | append_singleton apps a ih =>
    rw [List.foldl_concat]
    exact ih.joinApp a

end Loop

/-! ## The graphs -/

/-- What the graphs should be of the applications and the sources. -/
structure Partition (apps : List Application) (sources : List Source)
    (graphs : List ClusterDepGraph) : Prop where
  clusters_nodup : (graphs.map ClusterDepGraph.clusterId).Nodup
  clusters : ∀ id, id ∈ graphs.map ClusterDepGraph.clusterId ↔
    (∃ a ∈ apps, a.clusterId = id) ∨ ∃ s ∈ sources, s.clusterId = id
  appsOnce : (graphs.flatMap fun g => g.apps ++ g.orphanApps).Perm apps
  appsOwn : ∀ g ∈ graphs, ∀ a ∈ g.apps ++ g.orphanApps, a.clusterId = g.clusterId
  sourcesOnce : (graphs.flatMap fun g => g.sources ++ g.unusedSources).Perm sources
  sourcesOwn : ∀ g ∈ graphs, ∀ s ∈ g.sources ++ g.unusedSources, s.clusterId = g.clusterId
  edges : ∀ g ∈ graphs, (g.edges.map DepEdge.appId).Perm (g.apps.map Application.id)
  used : ∀ g ∈ graphs, ∀ s ∈ g.sources ++ g.unusedSources,
    (s ∈ g.sources ↔ ∃ h ∈ graphs, ∃ e ∈ h.edges, e.sourceId = s.id)

theorem perm_jsSort {α : Type*} (compare : α → α → ℤ) (l : List α) : (jsSort compare l).Perm l :=
  List.mergeSort_perm l _

/-- Grouping by a key puts each element in one group. -/
theorem perm_flatMap_filter {α κ : Type*} [DecidableEq κ] (key : α → κ) {keys : List κ}
    (hnodup : keys.Nodup) :
    ∀ {l : List α}, (∀ a ∈ l, key a ∈ keys) →
      (keys.flatMap fun k => l.filter fun a => key a = k).Perm l := by
  induction keys with
  | nil =>
    intro l h
    have hnil : l = [] := List.eq_nil_iff_forall_not_mem.mpr fun a ha =>
      absurd (h a ha) List.not_mem_nil
    rw [hnil, List.flatMap_nil]
  | cons k keys ih =>
    intro l h
    obtain ⟨hk, hkeys⟩ := List.nodup_cons.mp hnodup
    have hrest : ∀ a ∈ l.filter (fun a => !decide (key a = k)), key a ∈ keys := by
      intro a ha
      rw [List.mem_filter, Bool.not_eq_true', decide_eq_false_iff_not] at ha
      exact (List.mem_cons.mp (h a ha.1)).resolve_left ha.2
    -- the other groups are those of the elements outside this one
    have hothers : (keys.flatMap fun k' => l.filter fun a => key a = k') =
        keys.flatMap fun k' => (l.filter fun a => !decide (key a = k)).filter fun a => key a = k' := by
      refine List.flatMap_congr fun k' hk' => ?_
      have hne : k' ≠ k := fun heq => hk (heq ▸ hk')
      rw [List.filter_filter]
      refine List.filter_congr fun a _ => ?_
      by_cases ha : key a = k'
      · simp [ha, hne]
      · simp [ha]
    rw [List.flatMap_cons, hothers]
    exact ((ih hkeys hrest).append_left _).trans (List.filter_append_perm _ l)

section Graphs

variable {localeCompare : GoString → GoString → ℤ} {apps : List Application}
  {sources : List Source}

theorem mem_graphs {g : ClusterDepGraph} :
    g ∈ buildClusterGraphs localeCompare apps sources ↔
      ∃ id b, (buckets apps sources).lookup id = some b ∧ clusterGraph localeCompare id b = g := by
  rw [buildClusterGraphs, (perm_jsSort _ _).mem_iff, List.mem_map]
  constructor
  · rintro ⟨⟨id, b⟩, hmem, rfl⟩
    exact ⟨id, b, OrderedMap.mem_entries_iff.mp hmem, rfl⟩
  · rintro ⟨id, b, hb, rfl⟩
    exact ⟨(id, b), OrderedMap.mem_entries_iff.mpr hb, rfl⟩

theorem perm_clusterIds :
    ((buildClusterGraphs localeCompare apps sources).map ClusterDepGraph.clusterId).Perm
      (buckets apps sources).keys := by
  have h := (perm_jsSort (fun g h => localeCompare g.clusterName h.clusterName)
    ((buckets apps sources).entries.map fun p => clusterGraph localeCompare p.1 p.2)).map
    ClusterDepGraph.clusterId
  rw [List.map_map] at h
  exact h

/-- The applications that name a source are the matched ones and the orphans of a cluster. -/
theorem perm_apps_clusterGraph (id : GoString) (b : Bucket) :
    ((clusterGraph localeCompare id b).apps ++ (clusterGraph localeCompare id b).orphanApps).Perm
      (b.apps.filter fun a => a.source ≠ []) :=
  ((perm_jsSort _ _).append (perm_jsSort _ _)).trans (gathered_foldl b.sources b.apps).apps

theorem perm_sources_clusterGraph (id : GoString) (b : Bucket) :
    ((clusterGraph localeCompare id b).sources ++
      (clusterGraph localeCompare id b).unusedSources).Perm b.sources := by
  refine ((perm_jsSort _ _).append (perm_jsSort _ _)).trans ?_
  exact List.filter_append_perm
    (fun s => (b.apps.foldl (joinApp b.sources) {}).usedSources.contains s.id) b.sources

theorem mem_sources_clusterGraph {id : GoString} {b : Bucket} {s : Source} :
    s ∈ (clusterGraph localeCompare id b).sources ↔
      s ∈ b.sources ∧ ∃ e ∈ (clusterGraph localeCompare id b).edges, e.sourceId = s.id := by
  have hsorted : s ∈ (clusterGraph localeCompare id b).sources ↔ s ∈ b.sources.filter fun s =>
      (b.apps.foldl (joinApp b.sources) {}).usedSources.contains s.id := (perm_jsSort _ _).mem_iff
  rw [hsorted, List.mem_filter, List.contains_iff_mem, (gathered_foldl b.sources b.apps).used]
  rfl

/-- A list that is split among the buckets by its elements' clusters. -/
theorem perm_flatMap_buckets {α : Type*} (key : α → GoString) (l : List α)
    (hkeys : ∀ a ∈ l, key a ∈ (buckets apps sources).keys) (f : ClusterDepGraph → List α)
    (hf : ∀ id b, (buckets apps sources).lookup id = some b →
      (f (clusterGraph localeCompare id b)).Perm (l.filter fun a => key a = id)) :
    ((buildClusterGraphs localeCompare apps sources).flatMap f).Perm l := by
  have hgroups := perm_flatMap_filter key (buckets apps sources).nodup hkeys
  refine ((perm_jsSort _ _).flatMap_right f).trans (List.Perm.trans ?_ hgroups)
  rw [List.flatMap_map, OrderedMap.keys, List.flatMap_map]
  exact List.Perm.flatMap_left _ fun p hp => hf p.1 p.2 (OrderedMap.mem_entries_iff.mp hp)

/-- Over all graphs there is each application that names a source. -/
theorem perm_apps :
    ((buildClusterGraphs localeCompare apps sources).flatMap fun g => g.apps ++ g.orphanApps).Perm
      (apps.filter fun a => a.source ≠ []) := by
  have hgrouped := grouped_buckets apps sources
  refine perm_flatMap_buckets Application.clusterId _ (fun a ha => ?_) _ fun id b hb => ?_
  · exact (hgrouped.keys _).mpr (.inl ⟨a, List.mem_of_mem_filter ha, rfl⟩)
  · rw [List.filter_comm, ← hgrouped.apps id b hb]
    exact perm_apps_clusterGraph id b

theorem perm_sources :
    ((buildClusterGraphs localeCompare apps sources).flatMap fun g =>
      g.sources ++ g.unusedSources).Perm sources := by
  have hgrouped := grouped_buckets apps sources
  refine perm_flatMap_buckets Source.clusterId _ (fun s hs => ?_) _ fun id b hb => ?_
  · exact (hgrouped.keys _).mpr (.inr ⟨s, hs, rfl⟩)
  · rw [← hgrouped.sources id b hb]
    exact perm_sources_clusterGraph id b

/-- With distinct source ids an edge names a source of its own graph only. -/
theorem used_iff (hids : (sources.map Source.id).Nodup) {g : ClusterDepGraph}
    (hg : g ∈ buildClusterGraphs localeCompare apps sources) {s : Source}
    (hs : s ∈ g.sources ++ g.unusedSources) :
    s ∈ g.sources ↔ ∃ h ∈ buildClusterGraphs localeCompare apps sources,
      ∃ e ∈ h.edges, e.sourceId = s.id := by
  have hgrouped := grouped_buckets apps sources
  obtain ⟨id, b, hb, rfl⟩ := mem_graphs.mp hg
  have hsb : s ∈ b.sources := (perm_sources_clusterGraph id b).mem_iff.mp hs
  rw [hgrouped.sources id b hb, List.mem_filter, decide_eq_true_eq] at hsb
  rw [mem_sources_clusterGraph]
  constructor
  · rintro ⟨-, e, he, hid⟩
    exact ⟨_, hg, e, he, hid⟩
  · rintro ⟨h, hh, e, he, hid⟩
    obtain ⟨id', b', hb', rfl⟩ := mem_graphs.mp hh
    obtain ⟨t, ht, htid⟩ := (gathered_foldl b'.sources b'.apps).known e he
    rw [hgrouped.sources id' b' hb', List.mem_filter, decide_eq_true_eq] at ht
    -- the edge's source has the id of `s`, so it is `s` and the graph is this one
    have hst : t = s := List.inj_on_of_nodup_map hids ht.1 hsb.1 (htid.trans hid)
    have hsame : id' = id := by rw [← ht.2, hst, hsb.2]
    subst hsame
    obtain rfl : b' = b := Option.some.inj (hb'.symm.trans hb)
    refine ⟨?_, e, he, hid⟩
    rw [hgrouped.sources id' b' hb', List.mem_filter, decide_eq_true_eq]
    exact hsb

/-- The graphs are a partition exactly when every application names a source. -/
theorem partition_iff (localeCompare : GoString → GoString → ℤ) (apps : List Application)
    (sources : List Source) (hids : (sources.map Source.id).Nodup) :
    Partition apps sources (buildClusterGraphs localeCompare apps sources) ↔
      ∀ a ∈ apps, a.source ≠ [] := by
  have hgrouped := grouped_buckets apps sources
  constructor
  · intro hpart a ha
    have hfiltered := hpart.appsOnce.symm.trans perm_apps
    have hmem := hfiltered.mem_iff.mp ha
    exact of_decide_eq_true (List.mem_filter.mp hmem).2
  · intro hnamed
    have hall : apps.filter (fun a => a.source ≠ []) = apps :=
      List.filter_eq_self.mpr fun a ha => decide_eq_true (hnamed a ha)
    refine ⟨perm_clusterIds.nodup_iff.mpr (buckets apps sources).nodup, fun id => ?_, ?_, ?_,
      perm_sources, ?_, ?_, fun g hg s hs => used_iff hids hg hs⟩
    · rw [perm_clusterIds.mem_iff, hgrouped.keys]
    · exact perm_apps.trans (.of_eq hall)
    · intro g hg a ha
      obtain ⟨id, b, hb, rfl⟩ := mem_graphs.mp hg
      have hmem := List.mem_of_mem_filter ((perm_apps_clusterGraph id b).mem_iff.mp ha)
      rw [hgrouped.apps id b hb, List.mem_filter, decide_eq_true_eq] at hmem
      exact hmem.2
    · intro g hg s hs
      obtain ⟨id, b, hb, rfl⟩ := mem_graphs.mp hg
      have hmem := (perm_sources_clusterGraph id b).mem_iff.mp hs
      rw [hgrouped.sources id b hb, List.mem_filter, decide_eq_true_eq] at hmem
      exact hmem.2
    · intro g hg
      obtain ⟨id, b, hb, rfl⟩ := mem_graphs.mp hg
      have hedges := (gathered_foldl b.sources b.apps).edges
      exact hedges ▸ ((perm_jsSort _ _).map Application.id).symm

end Graphs

/-! ### Two clusters -/

/-- The comparison of strings byte by byte. -/
def compareBytes (a b : GoString) : ℤ := if a < b then -1 else if b < a then 1 else 0

/-- An application of the cluster `prod` with this source. -/
def webApp (source : GoString) : Application where
  id := "prod/default/Kustomization/web"
  name := "web"
  kind := "Kustomization"
  ns := "default"
  cluster := "prod"
  clusterId := "prod"
  status := "healthy"
  sync := "Synced"
  source := source
  revision := ""
  age := "1m"
  message := ""
  suspended := false

/-- A repository of the cluster `prod`. -/
def mainRepository : Source where
  id := "prod/default/GitRepository/main"
  name := "main"
  kind := "GitRepository"
  ns := "default"
  cluster := "prod"
  clusterId := "prod"
  url := ""
  ref := ""
  revision := ""
  status := "healthy"
  interval := "1m"
  age := "1m"
  message := ""
  suspended := false

/-- An application of a cluster. -/
def appOf (cluster name source : GoString) : Application :=
  { webApp source with
    id := cluster ++ ("/default/Kustomization/" : GoString) ++ name
    name := name
    cluster := cluster
    clusterId := cluster }

/-- A source of a cluster. -/
def sourceOf (cluster kind name : GoString) : Source :=
  { mainRepository with
    id := cluster ++ ("/default/" : GoString) ++ kind ++ ("/" : GoString) ++ name
    name := name
    kind := kind
    cluster := cluster
    clusterId := cluster }

/-- Two clusters: one application whose source is not there, one source that no application has, and
two sources of one name. -/
def fleetApps : List Application :=
  [webApp "GitRepository/main", appOf "prod" "api" "HelmRepository/main", appOf "edge" "web" "main",
    appOf "edge" "db" "Bucket/backup"]

@[inherit_doc fleetApps]
def fleetSources : List Source :=
  [mainRepository, sourceOf "prod" "HelmRepository" "main", sourceOf "prod" "Bucket" "spare",
    sourceOf "edge" "GitRepository" "main"]

theorem partition_iff_fleet :
    Partition fleetApps fleetSources (buildClusterGraphs compareBytes fleetApps fleetSources) :=
  (partition_iff compareBytes _ _ (by decide +kernel)).mpr (by decide +kernel)

/-- An application without a source is in no list of its cluster's graph. -/
theorem not_partition_detached :
    (∀ g ∈ buildClusterGraphs compareBytes [webApp ""] [mainRepository],
      g.apps = [] ∧ g.orphanApps = []) ∧
      ¬ Partition [webApp ""] [mainRepository]
        (buildClusterGraphs compareBytes [webApp ""] [mainRepository]) := by
  have hnone : ((buildClusterGraphs compareBytes [webApp ""] [mainRepository]).flatMap fun g =>
      g.apps ++ g.orphanApps) = [] := List.Perm.eq_nil perm_apps
  constructor
  · intro g hg
    have hempty := List.flatMap_eq_nil_iff.mp hnone g hg
    exact List.append_eq_nil_iff.mp hempty
  · intro hpart
    have hmem := hpart.appsOnce.mem_iff.mpr (List.mem_singleton_self (webApp ""))
    rw [hnone] at hmem
    exact absurd hmem List.not_mem_nil

end Yafu.Web.DepGraph
