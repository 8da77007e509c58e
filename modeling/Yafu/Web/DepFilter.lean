import Yafu.Web.DepJoin
import Mathlib.Data.List.Infix

/-!
# Filtering a dependency graph

Reference: `filterGraph` in `web/src/pages/Dependencies.tsx`.

The edges are filtered first, and the columns show what still has an edge. `toLowerCase` is the
parameter `toLower`.
-/

namespace Yafu.Web.DepGraph

open Yafu.Api.Types (Application Source)

/-! ## The filter -/

/-- `StatusFilter`. -/
inductive StatusFilter
  | all
  | failing
  | degraded
deriving DecidableEq, Repr

/-- The encodings of the code points that `String.prototype.trim` removes. -/
def jsSpaces : List GoString :=
  ["\t", "\n", "\x0b", "\x0c", "\r", " ", "\u00a0", "\u1680", "\u2000", "\u2001", "\u2002", "\u2003",
    "\u2004", "\u2005", "\u2006", "\u2007", "\u2008", "\u2009", "\u200a", "\u2028", "\u2029", "\u202f",
    "\u205f", "\u3000", "\ufeff"]

/-- `String.prototype.trim`. -/
def jsTrim (s : GoString) : GoString :=
  (GoString.trimPrefixes (jsSpaces.map List.reverse)
    (GoString.trimPrefixes jsSpaces s).reverse).reverse

/-- `wantStatus`. -/
def wantStatus (filter : StatusFilter) (status : GoString) (suspended : Bool) : Bool :=
  match filter with
  | .all => true
  | .failing => !suspended && status = "failing"
  | .degraded => !suspended && (status = "failing" || status = "degraded")

/-- `wantSearch`; `q` is the search string in lower case. -/
def wantSearch (toLower : GoString → GoString) (q : GoString) (fields : List GoString) : Bool :=
  q = [] || fields.any fun f => q <:+: toLower f

section Filter

variable (toLower : GoString → GoString) (filter : StatusFilter) (search : GoString)

/-- `q`. -/
def searchKey : GoString := toLower (jsTrim search)

/-- Whether an edge of a graph stays: both its ends are there, and both are wanted. -/
def survives (g : ClusterDepGraph) (e : DepEdge) : Bool :=
  match (OrderedMap.indexLast Source.id g.sources).lookup e.sourceId,
    (OrderedMap.indexLast Application.id g.apps).lookup e.appId with
  | some s, some a =>
    wantStatus filter s.status s.suspended && wantStatus filter a.status a.suspended &&
      wantSearch toLower (searchKey toLower search) [s.name, s.ns, a.name, a.ns]
  | _, _ => false

/-- `filterGraph`. -/
def filterGraph (g : ClusterDepGraph) : ClusterDepGraph :=
  let survivingEdges := g.edges.filter (survives toLower filter search g)
  let keptSrcIds := survivingEdges.map DepEdge.sourceId
  let keptAppIds := survivingEdges.map DepEdge.appId
  { g with
    sources := g.sources.filter fun s => keptSrcIds.contains s.id
    apps := g.apps.filter fun a => keptAppIds.contains a.id
    edges := survivingEdges
    orphanApps := g.orphanApps.filter fun a =>
      wantStatus filter a.status a.suspended &&
        wantSearch toLower (searchKey toLower search) [a.name, a.ns, a.source]
    unusedSources := g.unusedSources.filter fun s =>
      wantStatus filter s.status s.suspended &&
        wantSearch toLower (searchKey toLower search) [s.name, s.ns] }

end Filter

/-- What is left is a part of the graph, and closed: an edge has both its ends, and whatever is in
the two columns has an edge. -/
structure ClosedPart (g part : ClusterDepGraph) : Prop where
  sourceEnds : ∀ e ∈ part.edges, ∃ s ∈ part.sources, s.id = e.sourceId
  appEnds : ∀ e ∈ part.edges, ∃ a ∈ part.apps, a.id = e.appId
  sourceUsed : ∀ s ∈ part.sources, ∃ e ∈ part.edges, e.sourceId = s.id
  appUsed : ∀ a ∈ part.apps, ∃ e ∈ part.edges, e.appId = a.id
  sources : part.sources.Sublist g.sources
  apps : part.apps.Sublist g.apps
  edges : part.edges.Sublist g.edges
  orphanApps : part.orphanApps.Sublist g.orphanApps
  unusedSources : part.unusedSources.Sublist g.unusedSources
  cluster : part.clusterId = g.clusterId ∧ part.clusterName = g.clusterName

/-- A string of white space. -/
def Blank (s : GoString) : Prop := ∃ parts : List GoString, (∀ p ∈ parts, p ∈ jsSpaces) ∧ parts.flatten = s

theorem jsTrim_of_blank {s : GoString} (h : Blank s) : jsTrim s = [] := by
  obtain ⟨parts, hparts, rfl⟩ := h
  have hfree : ∀ p ∈ jsSpaces, ∀ p' ∈ jsSpaces, p <+: p' → p = p' := by decide +kernel
  have hne : [] ∉ jsSpaces := by decide +kernel
  rw [jsTrim, GoString.trimPrefixes_flatten hfree hne hparts, List.reverse_nil,
    GoString.trimPrefixes_nil]
  rfl

/-! ## What filtering keeps -/

section Keeps

variable {toLower : GoString → GoString} {filter : StatusFilter} {search : GoString}
  {g : ClusterDepGraph}

/-- An edge that stays has both its ends in the graph. -/
theorem exists_ends {e : DepEdge} (h : survives toLower filter search g e) :
    (∃ s ∈ g.sources, s.id = e.sourceId) ∧ ∃ a ∈ g.apps, a.id = e.appId := by
  rw [survives, OrderedMap.lookup_indexLast, OrderedMap.lookup_indexLast] at h
  split at h
  · rename_i s a hs ha
    have hsmem := List.mem_of_getLast? hs
    have hamem := List.mem_of_getLast? ha
    rw [List.mem_filter, decide_eq_true_eq] at hsmem hamem
    exact ⟨⟨s, hsmem⟩, a, hamem⟩
  · cases h

theorem closedPart_filterGraph (g : ClusterDepGraph) :
    ClosedPart g (filterGraph toLower filter search g) where
  sourceEnds := by
    intro e he
    obtain ⟨⟨s, hs, hid⟩, -⟩ := exists_ends (List.mem_filter.mp he).2
    refine ⟨s, List.mem_filter.mpr ⟨hs, ?_⟩, hid⟩
    rw [List.contains_iff_mem, hid]
    exact List.mem_map_of_mem he
  appEnds := by
    intro e he
    obtain ⟨-, a, ha, hid⟩ := exists_ends (List.mem_filter.mp he).2
    refine ⟨a, List.mem_filter.mpr ⟨ha, ?_⟩, hid⟩
    rw [List.contains_iff_mem, hid]
    exact List.mem_map_of_mem he
  sourceUsed := fun s hs => List.mem_map.mp (List.contains_iff_mem.mp (List.mem_filter.mp hs).2)
  appUsed := fun a ha => List.mem_map.mp (List.contains_iff_mem.mp (List.mem_filter.mp ha).2)
  sources := List.filter_sublist
  apps := List.filter_sublist
  edges := List.filter_sublist
  orphanApps := List.filter_sublist
  unusedSources := List.filter_sublist
  cluster := ⟨rfl, rfl⟩

/-- Where the elements of a key are kept together, an index finds under it what it found. -/
theorem lookup_indexLast_filter {α κ : Type*} [DecidableEq κ] (key : α → κ) (l : List α)
    {keep : κ → Bool} {k : κ} (hk : keep k) :
    (OrderedMap.indexLast key (l.filter fun a => keep (key a))).lookup k =
      (OrderedMap.indexLast key l).lookup k := by
  rw [OrderedMap.lookup_indexLast, OrderedMap.lookup_indexLast, List.filter_filter]
  refine congrArg List.getLast? (List.filter_congr fun a _ => ?_)
  by_cases ha : key a = k
  · rw [ha, hk, Bool.and_true]
  · rw [decide_eq_false ha, Bool.false_and]

/-- An edge that stays has the ends that it had. -/
theorem survives_filterGraph {e : DepEdge} (he : e ∈ (filterGraph toLower filter search g).edges) :
    survives toLower filter search (filterGraph toLower filter search g) e =
      survives toLower filter search g e := by
  have hsource : ((filterGraph toLower filter search g).edges.map DepEdge.sourceId).contains
      e.sourceId := List.contains_iff_mem.mpr (List.mem_map_of_mem he)
  have happ : ((filterGraph toLower filter search g).edges.map DepEdge.appId).contains
      e.appId := List.contains_iff_mem.mpr (List.mem_map_of_mem he)
  have hs := lookup_indexLast_filter Source.id g.sources hsource
  have ha := lookup_indexLast_filter Application.id g.apps happ
  rw [survives, survives, ← hs, ← ha]
  rfl

theorem filterGraph_filterGraph (g : ClusterDepGraph) :
    filterGraph toLower filter search (filterGraph toLower filter search g) =
      filterGraph toLower filter search g := by
  have hedges : (filterGraph toLower filter search g).edges.filter
      (survives toLower filter search (filterGraph toLower filter search g)) =
        (filterGraph toLower filter search g).edges := by
    refine List.filter_eq_self.mpr fun e he => ?_
    rw [survives_filterGraph he]
    exact (List.mem_filter.mp he).2
  rw [filterGraph, hedges]
  simp only [filterGraph, List.filter_filter, Bool.and_self]

end Keeps

/-! ## Graphs that are built -/

/-- In a graph that is built every edge has its ends in the columns, and both columns hold only what
has an edge. -/
theorem closedPart_clusterGraph (localeCompare : GoString → GoString → ℤ) (id : GoString)
    (b : Bucket) :
    ClosedPart (clusterGraph localeCompare id b) (clusterGraph localeCompare id b) := by
  have hgathered := gathered_foldl b.sources b.apps
  have happs : ((clusterGraph localeCompare id b).apps.map Application.id).Perm
      ((clusterGraph localeCompare id b).edges.map DepEdge.appId) := by
    have hmap : (clusterGraph localeCompare id b).edges.map DepEdge.appId = _ := hgathered.edges
    rw [hmap]
    exact (perm_jsSort _ _).map Application.id
  refine ⟨fun e he => ?_, fun e he => ?_, fun s hs => (mem_sources_clusterGraph.mp hs).2,
    fun a ha => ?_, .refl _, .refl _, .refl _, .refl _, .refl _, rfl, rfl⟩
  · obtain ⟨s, hs, hid⟩ := hgathered.known e he
    exact ⟨s, mem_sources_clusterGraph.mpr ⟨hs, e, he, hid.symm⟩, hid⟩
  · obtain ⟨a, ha, hid⟩ := List.mem_map.mp (happs.mem_iff.mpr (List.mem_map_of_mem he))
    exact ⟨a, ha, hid⟩
  · obtain ⟨e, he, hid⟩ := List.mem_map.mp (happs.mem_iff.mp (List.mem_map_of_mem ha))
    exact ⟨e, he, hid⟩

theorem isSome_lookup_indexLast {α κ : Type*} [DecidableEq κ] {key : α → κ} {l : List α} {k : κ}
    (h : ∃ a ∈ l, key a = k) : ∃ b, (OrderedMap.indexLast key l).lookup k = some b := by
  obtain ⟨a, ha, hk⟩ := h
  have hne : (l.filter fun a => key a = k) ≠ [] :=
    List.ne_nil_of_mem (List.mem_filter.mpr ⟨ha, decide_eq_true hk⟩)
  exact ⟨_, (OrderedMap.lookup_indexLast key l k).trans (List.getLast?_eq_some_getLast hne)⟩

/-- The filter that wants everything leaves a closed graph as it is. -/
theorem filterGraph_all {toLower : GoString → GoString} (hlower : toLower [] = [])
    {search : GoString} (hblank : Blank search) {g : ClusterDepGraph} (hclosed : ClosedPart g g) :
    filterGraph toLower .all search g = g := by
  have hkey : searchKey toLower search = [] := by rw [searchKey, jsTrim_of_blank hblank, hlower]
  have hsearch : ∀ fields, wantSearch toLower (searchKey toLower search) fields := fun fields => by
    rw [hkey]
    rfl
  have hedges : g.edges.filter (survives toLower .all search g) = g.edges := by
    refine List.filter_eq_self.mpr fun e he => ?_
    obtain ⟨s, hs⟩ := isSome_lookup_indexLast (hclosed.sourceEnds e he)
    obtain ⟨a, ha⟩ := isSome_lookup_indexLast (hclosed.appEnds e he)
    rw [survives, hs, ha]
    exact hsearch _
  have hsources : (g.sources.filter fun s => (g.edges.map DepEdge.sourceId).contains s.id) =
      g.sources :=
    List.filter_eq_self.mpr fun s hs =>
      List.contains_iff_mem.mpr (List.mem_map.mpr (hclosed.sourceUsed s hs))
  have happs : (g.apps.filter fun a => (g.edges.map DepEdge.appId).contains a.id) = g.apps :=
    List.filter_eq_self.mpr fun a ha =>
      List.contains_iff_mem.mpr (List.mem_map.mpr (hclosed.appUsed a ha))
  have horphans : (g.orphanApps.filter fun a => wantStatus .all a.status a.suspended &&
      wantSearch toLower (searchKey toLower search) [a.name, a.ns, a.source]) = g.orphanApps :=
    List.filter_eq_self.mpr fun a _ => hsearch _
  have hunused : (g.unusedSources.filter fun s => wantStatus .all s.status s.suspended &&
      wantSearch toLower (searchKey toLower search) [s.name, s.ns]) = g.unusedSources :=
    List.filter_eq_self.mpr fun s _ => hsearch _
  rw [filterGraph, hedges]
  simp only [hsources, happs, horphans, hunused]

/-- Filtering a graph that was built keeps a closed part of it; filtering again changes nothing, and
neither does the filter that wants everything. -/
theorem filterGraph_closed (toLower : GoString → GoString) (hlower : toLower [] = [])
    (localeCompare : GoString → GoString → ℤ) (apps : List Application) (sources : List Source)
    (g : ClusterDepGraph) (hg : g ∈ buildClusterGraphs localeCompare apps sources) :
    (∀ filter search, ClosedPart g (filterGraph toLower filter search g) ∧
      filterGraph toLower filter search (filterGraph toLower filter search g) =
        filterGraph toLower filter search g) ∧
      ∀ search, Blank search → filterGraph toLower .all search g = g := by
  refine ⟨fun filter search => ⟨closedPart_filterGraph g, filterGraph_filterGraph g⟩,
    fun search hblank => filterGraph_all hlower hblank ?_⟩
  obtain ⟨id, b, -, rfl⟩ := mem_graphs.mp hg
  exact closedPart_clusterGraph localeCompare id b

/-- The graph of one application and its source. -/
theorem filterGraph_closed_main :
    ∃ g ∈ buildClusterGraphs compareBytes [webApp "GitRepository/main"] [mainRepository],
      (∀ filter search, ClosedPart g (filterGraph GoString.asciiLower filter search g) ∧
        filterGraph GoString.asciiLower filter search (filterGraph GoString.asciiLower filter search g) =
          filterGraph GoString.asciiLower filter search g) ∧
        ∀ search, Blank search → filterGraph GoString.asciiLower .all search g = g := by
  obtain ⟨b, hb, -⟩ := exists_bucket [mainRepository]
    (List.mem_singleton_self (webApp "GitRepository/main"))
  have hg : clusterGraph compareBytes (webApp "GitRepository/main").clusterId b ∈
      buildClusterGraphs compareBytes [webApp "GitRepository/main"] [mainRepository] :=
    mem_graphs.mpr ⟨_, b, hb, rfl⟩
  exact ⟨_, hg, filterGraph_closed GoString.asciiLower rfl compareBytes _ _ _ hg⟩

end Yafu.Web.DepGraph
