import Yafu.Web.DepGraph

/-!
# The join of the dependency graph

Reference: `buildClusterGraphs` and `parseSourceRef` in `web/src/lib/depGraph.ts`.

An application and a source belong together if they are in one cluster and namespace, the source has
the name of the reference and, where the reference has a kind, that kind. The code looks under the
kind first (`byNsKindName`) and then under the name alone, and so joins an application with a source
of another kind if that is the only one of its name.
-/

namespace Yafu.Web.DepGraph

open Yafu.Api.Types (Application Source)
open GoString (cut)

/-! ## The relation -/

/-- Rows as the API serves them: an id belongs to one of them, and neither a namespace nor a kind has
a slash. -/
structure WellFormed (apps : List Application) (sources : List Source) : Prop where
  appIds : (apps.map Application.id).Nodup
  sourceIds : (sources.map Source.id).Nodup
  appNs : ∀ a ∈ apps, Path.slash ∉ a.ns
  sourceNs : ∀ s ∈ sources, Path.slash ∉ s.ns
  sourceKind : ∀ s ∈ sources, Path.slash ∉ s.kind

/-- The source has the name of the reference and is where the application is. -/
structure Namesake (a : Application) (ref : SourceRef) (s : Source) : Prop where
  cluster : s.clusterId = a.clusterId
  ns : s.ns = a.ns
  name : s.name = ref.name

/-- The source is the one of the reference: if that has a kind, it is of the kind. -/
structure Joins (a : Application) (ref : SourceRef) (s : Source) : Prop
    extends Namesake a ref s where
  kind : ∀ kind, ref.truthyKind = some kind → s.kind = kind

instance (a : Application) (ref : SourceRef) (s : Source) : Decidable (Namesake a ref s) :=
  decidable_of_iff (s.clusterId = a.clusterId ∧ s.ns = a.ns ∧ s.name = ref.name)
    ⟨fun h => ⟨h.1, h.2.1, h.2.2⟩, fun h => ⟨h.cluster, h.ns, h.name⟩⟩

/-- What the edges and the orphans should be. -/
structure ExactJoin (apps : List Application) (sources : List Source)
    (graphs : List ClusterDepGraph) : Prop where
  edges : ∀ a ∈ apps, ∀ s ∈ sources,
    (∃ g ∈ graphs, ∃ e ∈ g.edges, e.appId = a.id ∧ e.sourceId = s.id) ↔
      ∃ ref, parseSourceRef a.source = some ref ∧ Joins a ref s
  ends : ∀ g ∈ graphs, ∀ e ∈ g.edges,
    (∃ a ∈ apps, a.id = e.appId) ∧ ∃ s ∈ sources, s.id = e.sourceId
  orphans : ∀ a ∈ apps, ∀ ref, parseSourceRef a.source = some ref →
    (∀ s ∈ sources, ¬Joins a ref s) → ∃ g ∈ graphs, a ∈ g.orphanApps

/-- At most one source is the one of the reference, and where none is, there is not exactly one with
its name. -/
structure Unambiguous (sources : List Source) (a : Application) (ref : SourceRef) : Prop where
  unique : ∀ s ∈ sources, ∀ t ∈ sources, Joins a ref s → Joins a ref t → s = t
  noNamesake : (∀ s ∈ sources, ¬Joins a ref s) →
    (sources.filter fun s => Namesake a ref s).length ≠ 1

/-! ## Keys -/

theorem slashed_inj {ns ns' name name' : GoString} (h : Path.slash ∉ ns) (h' : Path.slash ∉ ns') :
    slashed ns name = slashed ns' name' ↔ ns = ns' ∧ name = name' := by
  constructor
  · intro heq
    have hcut := GoString.cut_append h name
    rw [show ns ++ Path.slash :: name = ns' ++ Path.slash :: name' from heq,
      GoString.cut_append h', Option.some.injEq, Prod.mk.injEq] at hcut
    exact ⟨hcut.1.symm, hcut.2.symm⟩
  · rintro ⟨rfl, rfl⟩
    rfl

/-- The kind of a reference is in front of the first slash. -/
theorem slash_notMem_kind {source kind : GoString} {ref : SourceRef}
    (h : parseSourceRef source = some ref) (hkind : ref.truthyKind = some kind) :
    Path.slash ∉ kind := by
  have hsome : ref.kind = some kind := Option.eq_some_of_filter_eq_some hkind
  rw [parseSourceRef] at h
  split at h
  · cases h
  · split at h
    · cases h
      cases hsome
    · rename_i hcut
      cases h
      cases hsome
      exact GoString.notMem_of_cut hcut

/-! ## What is found under a reference -/

/-- The only element of a list. -/
def sole {α : Type*} : List α → Option α
  | [a] => some a
  | _ => none

theorem sole_cons_cons {α : Type*} (a b : α) (l : List α) : sole (a :: b :: l) = none := rfl

section Sole

variable {α : Type*} {l all : List α}

theorem sole_eq_some_iff {a : α} : sole l = some a ↔ l = [a] := by
  rcases l with _ | ⟨b, _ | ⟨c, l⟩⟩ <;> simp [sole]

/-- One element stands for a list exactly if there is no other in it. -/
theorem chosen_iff {a : α} (ha : a ∈ l) (hall : l ⊆ all) :
    (∀ b ∈ all, some a = some b ↔ b ∈ l) ↔ ∀ b ∈ l, ∀ c ∈ l, b = c := by
  constructor
  · intro h
    have heq : ∀ b ∈ l, a = b := fun b hb => Option.some.inj ((h b (hall hb)).mpr hb)
    exact fun b hb c hc => (heq b hb).symm.trans (heq c hc)
  · intro hunique b _
    rw [Option.some.injEq]
    exact ⟨fun heq => heq ▸ ha, fun hb => hunique a ha b hb⟩

theorem sole_iff (hnodup : l.Nodup) (hall : l ⊆ all) :
    (∀ b ∈ all, sole l = some b ↔ b ∈ l) ↔ ∀ b ∈ l, ∀ c ∈ l, b = c := by
  rcases l with _ | ⟨a, _ | ⟨b, l⟩⟩
  · simp [sole]
  · exact chosen_iff (.head _) hall
  · have hne : a ≠ b := fun heq => (List.nodup_cons.mp hnodup).1 (heq ▸ .head _)
    refine iff_of_false (fun h => ?_) fun h => hne (h a (.head _) b (.tail _ (.head _)))
    have hsole := (h a (hall (.head _))).mpr (.head _)
    rw [sole_cons_cons] at hsole
    cases hsole

theorem sole_none_iff (hall : l ⊆ all) : (∀ b ∈ all, sole l ≠ some b) ↔ l.length ≠ 1 := by
  constructor
  · intro h hlength
    obtain ⟨a, rfl⟩ := List.length_eq_one_iff.mp hlength
    exact h a (hall (.head _)) rfl
  · rintro h b - hsole
    rw [sole_eq_some_iff.mp hsole] at h
    exact h rfl

end Sole

section Find

variable {sources : List Source} {a : Application} {ref : SourceRef}

/-- The sources with the name of a reference. -/
def named (sources : List Source) (a : Application) (ref : SourceRef) : List Source :=
  sources.filter fun s => s.ns = a.ns ∧ s.name = ref.name

/-- Those of them that have the kind of the reference. -/
def kinded (sources : List Source) (a : Application) (ref : SourceRef) : List Source :=
  (named sources a ref).filter fun s => ref.truthyKind.all fun kind => s.kind = kind

/-- Under a kind the last source that has it is found, under the name alone the only one. -/
theorem findSource_eq (hns : Path.slash ∉ a.ns) (hsources : ∀ s ∈ sources, Path.slash ∉ s.ns)
    (hkinds : ∀ s ∈ sources, Path.slash ∉ s.kind)
    (href : ∀ kind, ref.truthyKind = some kind → Path.slash ∉ kind) :
    findSource sources a ref =
      (ref.truthyKind.bind fun _ => (kinded sources a ref).getLast?).or
        (sole (named sources a ref)) := by
  have hname : (sources.filter fun s => slashed s.ns s.name = slashed a.ns ref.name) =
      named sources a ref :=
    List.filter_congr fun s hs => by
      rw [decide_eq_decide, slashed_inj (hsources s hs) hns]
  have hkinded : ∀ kind, ref.truthyKind = some kind →
      (sources.filter fun s => slashed s.ns (slashed s.kind s.name) =
        slashed a.ns (slashed kind ref.name)) = kinded sources a ref := by
    intro kind hkind
    rw [kinded, named, List.filter_filter]
    refine List.filter_congr fun s hs => ?_
    rw [Bool.eq_iff_iff, Bool.and_eq_true, decide_eq_true_eq, decide_eq_true_eq, hkind,
      Option.all_some, decide_eq_true_eq, slashed_inj (hsources s hs) hns,
      slashed_inj (hkinds s hs) (href kind hkind)]
    exact and_left_comm
  have hfirst : (ref.truthyKind.bind fun kind =>
      (byNsKindName sources).lookup (slashed a.ns (slashed kind ref.name))) =
        ref.truthyKind.bind fun _ => (kinded sources a ref).getLast? := by
    cases hkind : ref.truthyKind with
    | none => rfl
    | some kind =>
      rw [Option.bind_some, Option.bind_some, byNsKindName_eq, OrderedMap.lookup_indexLast,
        hkinded kind hkind]
  rw [findSource, hfirst]
  cases hlast : ref.truthyKind.bind fun _ => (kinded sources a ref).getLast? with
  | some s => rfl
  | none =>
    -- the name alone decides; that there is none of the kind is known by now
    rw [Option.none_or, byNsName_eq, OrderedMap.lookup_indexAll, hname]
    rcases hnamed : named sources a ref with _ | ⟨s, _ | ⟨t, rest⟩⟩
    · rfl
    · rfl
    · rw [if_neg (List.cons_ne_nil s _), sole_cons_cons, Option.bind_eq_none_iff]
      intro kind hkind
      rw [hkind, Option.bind_some, List.getLast?_eq_none_iff, kinded, hnamed, hkind,
        List.filter_eq_nil_iff] at hlast
      exact List.find?_eq_none.mpr hlast

/-- What an application is joined with is what it should be exactly if its reference is unambiguous.
-/
theorem findSource_iff (hnodup : sources.Nodup)
    (hfind : findSource sources a ref =
      (ref.truthyKind.bind fun _ => (kinded sources a ref).getLast?).or
        (sole (named sources a ref))) :
    (∀ s ∈ sources, findSource sources a ref = some s ↔ s ∈ kinded sources a ref) ↔
      (∀ s ∈ kinded sources a ref, ∀ t ∈ kinded sources a ref, s = t) ∧
        (kinded sources a ref = [] → (named sources a ref).length ≠ 1) := by
  have hnamed : named sources a ref ⊆ sources := fun s hs => List.mem_of_mem_filter hs
  have hkinded : kinded sources a ref ⊆ sources := fun s hs => hnamed (List.mem_of_mem_filter hs)
  rw [hfind]
  cases hkind : ref.truthyKind with
  | none =>
    have heq : kinded sources a ref = named sources a ref := by
      rw [kinded, hkind]
      exact List.filter_eq_self.mpr fun _ _ => rfl
    have hnd : (named sources a ref).Nodup := hnodup.filter _
    rw [heq, Option.bind_none, Option.none_or, sole_iff hnd hnamed, and_iff_left]
    intro hnil
    rw [hnil]
    exact Nat.zero_ne_one
  | some kind =>
    rw [Option.bind_some]
    cases hlast : (kinded sources a ref).getLast? with
    | none =>
      rw [List.getLast?_eq_none_iff] at hlast
      have hnone := sole_none_iff hnamed
      rw [hlast, Option.none_or]
      simpa only [List.not_mem_nil, iff_false, false_implies, implies_true, forall_const, true_and]
        using hnone
    | some t =>
      have ht : t ∈ kinded sources a ref := List.mem_of_getLast? hlast
      rw [Option.some_or, chosen_iff ht hkinded, and_iff_left]
      exact fun hnil => absurd hnil (List.ne_nil_of_mem ht)

end Find

/-! ## The loop over the applications -/

/-- The edge of an application. -/
def edgeOf (sources : List Source) (a : Application) : Option DepEdge :=
  (parseSourceRef a.source).bind fun ref =>
    (findSource sources a ref).map fun src => ⟨src.id, a.id, edgeTone src a⟩

/-- Whether an application refers to a source that is not found. -/
def isOrphan (sources : List Source) (a : Application) : Bool :=
  (parseSourceRef a.source).any fun ref => (findSource sources a ref).isNone

theorem joined_eq (sources : List Source) (apps : List Application) :
    (apps.foldl (joinApp sources) {}).edges = apps.filterMap (edgeOf sources) ∧
      (apps.foldl (joinApp sources) {}).orphanApps = apps.filter (isOrphan sources) := by
  induction apps using List.reverseRecOn with
  | nil => exact ⟨rfl, rfl⟩
  | append_singleton apps a ih =>
    rw [List.foldl_concat, List.filterMap_append, List.filter_append, ← ih.1, ← ih.2, joinApp]
    cases href : parseSourceRef a.source with
    | none => simp [edgeOf, isOrphan, href]
    | some ref =>
      cases hfind : findSource sources a ref with
      | none => simp [edgeOf, isOrphan, href, hfind]
      | some src => simp [edgeOf, isOrphan, href, hfind]

/-! ## The graphs -/

section Graphs

variable {localeCompare : GoString → GoString → ℤ} {apps : List Application}
  {sources : List Source} {a : Application} {ref : SourceRef}

/-- The sources of the cluster of an application. -/
def clusterSources (sources : List Source) (a : Application) : List Source :=
  sources.filter fun s => s.clusterId = a.clusterId

theorem named_clusterSources (sources : List Source) (a : Application) (ref : SourceRef) :
    named (clusterSources sources a) a ref = sources.filter fun s => Namesake a ref s := by
  rw [named, clusterSources, List.filter_filter]
  refine List.filter_congr fun s _ => ?_
  rw [Bool.eq_iff_iff, Bool.and_eq_true, decide_eq_true_eq, decide_eq_true_eq, decide_eq_true_eq]
  exact ⟨fun h => ⟨h.2, h.1.1, h.1.2⟩, fun h => ⟨⟨h.ns, h.name⟩, h.cluster⟩⟩

theorem mem_kinded_iff {s : Source} : s ∈ kinded (clusterSources sources a) a ref ↔
    s ∈ sources ∧ Joins a ref s := by
  have hkind : (ref.truthyKind.all fun kind => s.kind = kind) ↔
      ∀ kind, ref.truthyKind = some kind → s.kind = kind := by
    simp only [Option.all_eq_true, decide_eq_true_eq]
  rw [kinded, named_clusterSources, List.mem_filter, List.mem_filter, decide_eq_true_eq, hkind]
  exact ⟨fun h => ⟨h.1.1, h.1.2, h.2⟩, fun h => ⟨⟨h.1, h.2.toNamesake⟩, h.2.kind⟩⟩

/-- The graph of a cluster on which there is an application. -/
theorem exists_bucket (sources : List Source) (ha : a ∈ apps) :
    ∃ b, (buckets apps sources).lookup a.clusterId = some b ∧
      b.apps = apps.filter (fun a' => a'.clusterId = a.clusterId) ∧
      b.sources = clusterSources sources a := by
  have hgrouped := grouped_buckets apps sources
  have hkey : a.clusterId ∈ (buckets apps sources).keys := (hgrouped.keys _).mpr (.inl ⟨a, ha, rfl⟩)
  obtain ⟨b, hb⟩ := Option.isSome_iff_exists.mp (OrderedMap.mem_keys_iff.mp hkey)
  exact ⟨b, hb, hgrouped.apps _ b hb, hgrouped.sources _ b hb⟩

/-- The edges are those of the applications, each in the graph of its cluster. -/
theorem mem_edges_iff {e : DepEdge} :
    (∃ g ∈ buildClusterGraphs localeCompare apps sources, e ∈ g.edges) ↔
      ∃ a ∈ apps, edgeOf (clusterSources sources a) a = some e := by
  have hgrouped := grouped_buckets apps sources
  constructor
  · rintro ⟨g, hg, he⟩
    obtain ⟨id, b, hb, rfl⟩ := mem_graphs.mp hg
    have hedges : e ∈ b.apps.filterMap (edgeOf b.sources) := (joined_eq b.sources b.apps).1 ▸ he
    obtain ⟨a, ha, hedge⟩ := List.mem_filterMap.mp hedges
    rw [hgrouped.apps id b hb, List.mem_filter, decide_eq_true_eq] at ha
    rw [hgrouped.sources id b hb, ← ha.2] at hedge
    exact ⟨a, ha.1, hedge⟩
  · rintro ⟨a, ha, hedge⟩
    obtain ⟨b, hb, happs, hsources⟩ := exists_bucket sources ha
    refine ⟨_, mem_graphs.mpr ⟨_, b, hb, rfl⟩, ?_⟩
    have hmem : e ∈ b.apps.filterMap (edgeOf b.sources) := by
      rw [hsources, happs]
      exact List.mem_filterMap.mpr ⟨a, List.mem_filter.mpr ⟨ha, decide_eq_true rfl⟩, hedge⟩
    rw [← (joined_eq b.sources b.apps).1] at hmem
    exact hmem

/-- An application whose source is not found is an orphan of its cluster. -/
theorem exists_orphan (ha : a ∈ apps) (h : isOrphan (clusterSources sources a) a) :
    ∃ g ∈ buildClusterGraphs localeCompare apps sources, a ∈ g.orphanApps := by
  obtain ⟨b, hb, happs, hsources⟩ := exists_bucket sources ha
  refine ⟨_, mem_graphs.mpr ⟨_, b, hb, rfl⟩, (perm_jsSort _ _).mem_iff.mpr ?_⟩
  rw [(joined_eq b.sources b.apps).2, hsources, happs]
  exact List.mem_filter.mpr ⟨List.mem_filter.mpr ⟨ha, decide_eq_true rfl⟩, h⟩

/-- An edge joins an application with the source that is found for it. -/
theorem edge_iff (hwf : WellFormed apps sources) (ha : a ∈ apps) {s : Source} (hs : s ∈ sources) :
    (∃ g ∈ buildClusterGraphs localeCompare apps sources,
      ∃ e ∈ g.edges, e.appId = a.id ∧ e.sourceId = s.id) ↔
      ∃ ref, parseSourceRef a.source = some ref ∧
        findSource (clusterSources sources a) a ref = some s := by
  constructor
  · rintro ⟨g, hg, e, he, happ, hsource⟩
    obtain ⟨a', ha', hedge⟩ := mem_edges_iff.mp ⟨g, hg, he⟩
    obtain ⟨ref, href, hfound⟩ := Option.bind_eq_some_iff.mp hedge
    obtain ⟨src, hsrc, rfl⟩ := Option.map_eq_some_iff.mp hfound
    have happEq : a' = a := List.inj_on_of_nodup_map hwf.appIds ha' ha happ
    have hmem : src ∈ sources := List.mem_of_mem_filter (findSource_mem hsrc)
    have hsourceEq : src = s := List.inj_on_of_nodup_map hwf.sourceIds hmem hs hsource
    subst happEq hsourceEq
    exact ⟨ref, href, hsrc⟩
  · rintro ⟨ref, href, hfound⟩
    have hedge : edgeOf (clusterSources sources a) a = some ⟨s.id, a.id, edgeTone s a⟩ := by
      rw [edgeOf, href, Option.bind_some, hfound]
      rfl
    obtain ⟨g, hg, he⟩ := mem_edges_iff.mpr ⟨a, ha, hedge⟩
    exact ⟨g, hg, _, he, rfl, rfl⟩

/-- For one reference: what is found is what joins it exactly if it is unambiguous. -/
theorem found_iff_unambiguous (hwf : WellFormed apps sources) (ha : a ∈ apps)
    (href : parseSourceRef a.source = some ref) :
    (∀ s ∈ sources, findSource (clusterSources sources a) a ref = some s ↔ Joins a ref s) ↔
      Unambiguous sources a ref := by
  have hsub : ∀ s ∈ clusterSources sources a, s ∈ sources := fun s hs => List.mem_of_mem_filter hs
  have hfind := findSource_eq (hwf.appNs a ha) (fun s hs => hwf.sourceNs s (hsub s hs))
    (fun s hs => hwf.sourceKind s (hsub s hs)) (fun kind hkind => slash_notMem_kind href hkind)
  have hnodup : (clusterSources sources a).Nodup := (List.Nodup.of_map _ hwf.sourceIds).filter _
  have hiff := findSource_iff hnodup hfind
  -- outside the cluster nothing is found and nothing joins
  have hcluster : (∀ s ∈ sources, findSource (clusterSources sources a) a ref = some s ↔
      Joins a ref s) ↔ ∀ s ∈ clusterSources sources a,
        findSource (clusterSources sources a) a ref = some s ↔
          s ∈ kinded (clusterSources sources a) a ref := by
    constructor
    · intro h s hs
      rw [h s (hsub s hs), mem_kinded_iff, and_iff_right (hsub s hs)]
    · intro h s hs
      by_cases hc : s ∈ clusterSources sources a
      · rw [h s hc, mem_kinded_iff, and_iff_right hs]
      · refine iff_of_false (fun hfound => hc (findSource_mem hfound)) fun hjoins => hc ?_
        exact List.mem_filter.mpr ⟨hs, decide_eq_true hjoins.cluster⟩
  have hnil : kinded (clusterSources sources a) a ref = [] ↔ ∀ s ∈ sources, ¬Joins a ref s := by
    rw [List.eq_nil_iff_forall_not_mem]
    simp only [mem_kinded_iff, not_and]
  rw [hcluster, hiff, hnil, named_clusterSources]
  constructor
  · rintro ⟨hunique, hnone⟩
    exact ⟨fun s hs t ht hjs hjt => hunique s (mem_kinded_iff.mpr ⟨hs, hjs⟩) t
      (mem_kinded_iff.mpr ⟨ht, hjt⟩), hnone⟩
  · rintro ⟨hunique, hnone⟩
    refine ⟨fun s hs t ht => ?_, hnone⟩
    rw [mem_kinded_iff] at hs ht
    exact hunique s hs.1 t ht.1 hs.2 ht.2

/-- The edges are those of the relation exactly if every reference is unambiguous. -/
theorem exactJoin_iff (localeCompare : GoString → GoString → ℤ) (apps : List Application)
    (sources : List Source) (hwf : WellFormed apps sources) :
    ExactJoin apps sources (buildClusterGraphs localeCompare apps sources) ↔
      ∀ a ∈ apps, ∀ ref, parseSourceRef a.source = some ref → Unambiguous sources a ref := by
  have hedges : ∀ a ∈ apps, (∀ s ∈ sources,
      (∃ g ∈ buildClusterGraphs localeCompare apps sources,
        ∃ e ∈ g.edges, e.appId = a.id ∧ e.sourceId = s.id) ↔
          ∃ ref, parseSourceRef a.source = some ref ∧ Joins a ref s) ↔
      ∀ ref, parseSourceRef a.source = some ref → Unambiguous sources a ref := by
    intro a ha
    cases href : parseSourceRef a.source with
    | none =>
      refine iff_of_true (fun s hs => ?_) fun ref h => by cases h
      rw [edge_iff hwf ha hs, href]
      simp only [reduceCtorEq, false_and, exists_false]
    | some ref =>
      simp only [Option.some.injEq, forall_eq', exists_eq_left', ← found_iff_unambiguous hwf ha href]
      refine forall₂_congr fun s hs => ?_
      rw [edge_iff hwf ha hs, href]
      simp only [Option.some.injEq, exists_eq_left']
  constructor
  · exact fun h a ha => (hedges a ha).mp (h.edges a ha)
  · intro h
    refine ⟨fun a ha => (hedges a ha).mpr (h a ha), fun g hg e he => ?_, fun a ha ref href hnone => ?_⟩
    · obtain ⟨a, ha, hedge⟩ := mem_edges_iff.mp ⟨g, hg, he⟩
      obtain ⟨ref, -, hfound⟩ := Option.bind_eq_some_iff.mp hedge
      obtain ⟨src, hsrc, rfl⟩ := Option.map_eq_some_iff.mp hfound
      exact ⟨⟨a, ha, rfl⟩, src, List.mem_of_mem_filter (findSource_mem hsrc), rfl⟩
    · refine exists_orphan ha ?_
      rw [isOrphan, href, Option.any_some, Option.isNone_iff_eq_none]
      by_contra hfound
      obtain ⟨s, hs⟩ := Option.ne_none_iff_exists'.mp hfound
      have hmem : s ∈ sources := List.mem_of_mem_filter (findSource_mem hs)
      exact hnone s hmem (((found_iff_unambiguous hwf ha href).mpr (h a ha ref href) s hmem).mp hs)

end Graphs

/-! ### A reference to a source of another kind -/

theorem wellFormed_main (source : GoString) : WellFormed [webApp source] [mainRepository] where
  appIds := List.nodup_singleton _
  sourceIds := List.nodup_singleton _
  appNs := by
    intro a ha
    rw [List.mem_singleton.mp ha]
    exact (by decide : Path.slash ∉ ("default" : GoString))
  sourceNs := by decide
  sourceKind := by decide

theorem wellFormed_fleet : WellFormed fleetApps fleetSources where
  appIds := by decide +kernel
  sourceIds := by decide +kernel
  appNs := by decide +kernel
  sourceNs := by decide +kernel
  sourceKind := by decide +kernel

theorem exactJoin_iff_fleet :
    ExactJoin fleetApps fleetSources (buildClusterGraphs compareBytes fleetApps fleetSources) := by
  refine (exactJoin_iff compareBytes _ _ wellFormed_fleet).mpr fun a ha ref href => ?_
  -- no two of the sources of one name are of one kind, and only `main` of `edge` is named alone
  have hkinds : ∀ s ∈ fleetSources, ∀ t ∈ fleetSources, s.clusterId = t.clusterId → s.name = t.name →
      s = t ∨ s.kind ≠ t.kind ∧ s.clusterId = "prod" := by decide +kernel
  have hkinded : ∀ a ∈ fleetApps, ∀ ref ∈ parseSourceRef a.source, a.clusterId = "prod" →
      ref.truthyKind.isSome := by decide +kernel
  have hnamed : ∀ a ∈ fleetApps, ∀ ref ∈ parseSourceRef a.source,
      (∃ s ∈ fleetSources, Namesake a ref s ∧ ref.truthyKind.all (s.kind = ·)) ∨
        fleetSources.filter (fun s => Namesake a ref s) = [] := by decide +kernel
  constructor
  · intro s hs t ht hjs hjt
    have hcluster := hjs.cluster.trans hjt.cluster.symm
    refine (hkinds s hs t ht hcluster (hjs.name.trans hjt.name.symm)).resolve_right ?_
    rintro ⟨hne, hprod⟩
    obtain ⟨kind, hkind⟩ :=
      Option.isSome_iff_exists.mp (hkinded a ha ref href (hjs.cluster.symm.trans hprod))
    exact hne ((hjs.kind kind hkind).trans (hjt.kind kind hkind).symm)
  · intro hnone
    rcases hnamed a ha ref href with ⟨s, hs, hsake, hkind⟩ | hnil
    · refine absurd ⟨hsake, fun kind hk => ?_⟩ (hnone s hs)
      rw [hk, Option.all_some, decide_eq_true_eq] at hkind
      exact hkind
    · rw [hnil]
      decide

/-- A reference to a missing `HelmRepository` is joined with the `GitRepository` of that name. -/
theorem not_exactJoin_otherKind :
    (∃ g ∈ buildClusterGraphs compareBytes [webApp "HelmRepository/main"] [mainRepository],
      ∃ e ∈ g.edges, e.appId = (webApp "HelmRepository/main").id ∧
        e.sourceId = mainRepository.id) ∧
      ¬ExactJoin [webApp "HelmRepository/main"] [mainRepository]
        (buildClusterGraphs compareBytes [webApp "HelmRepository/main"] [mainRepository]) := by
  have hparse : parseSourceRef (webApp "HelmRepository/main").source =
      some ⟨some "HelmRepository", "main"⟩ := rfl
  have hfound : findSource (clusterSources [mainRepository] (webApp "HelmRepository/main"))
      (webApp "HelmRepository/main") ⟨some "HelmRepository", "main"⟩ = some mainRepository := by
    decide +kernel
  have hedge : ∃ g ∈ buildClusterGraphs compareBytes [webApp "HelmRepository/main"] [mainRepository],
      ∃ e ∈ g.edges, e.appId = (webApp "HelmRepository/main").id ∧
        e.sourceId = mainRepository.id :=
    (edge_iff (wellFormed_main _) (.head _) (.head _)).mpr ⟨_, hparse, hfound⟩
  refine ⟨hedge, fun hexact => ?_⟩
  obtain ⟨ref, href, hjoins⟩ := (hexact.edges _ (.head _) _ (.head _)).mp hedge
  obtain rfl := Option.some.inj (hparse.symm.trans href)
  have hkind : mainRepository.kind = "HelmRepository" := hjoins.kind _ rfl
  exact absurd hkind (by decide)

end Yafu.Web.DepGraph
