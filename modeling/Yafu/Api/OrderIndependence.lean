import Yafu.Api.PartialSuccess

/-!
# The order of the lists

Reference: `list` in `internal/api/applications.go`, `sources.go`, `alerts.go` and `images.go`.

The goroutines of a list send their rows in any order, and the sort is what should make up for it.
It compares the display name of the cluster, the namespace and the name, for the sources the kind
too. Where two rows agree in all of these, their order is that in which the clusters answered, or
whatever the sort makes of it: a list depends on nothing else exactly when its keys tell its rows
apart.
-/

namespace Yafu.Api

open Yafu.Auth (Policy)
open Yafu.Cluster (Registry)

/-- Two answers to one request have the same items, whatever the order of the goroutines and of the
rows that compare equal. -/
def OrderIndependent {ρ : Type} {less : ρ → ρ → Bool}
    (list : SortSlice less → Set (Types.Listing ρ)) : Prop :=
  ∀ sort sort' : SortSlice less, ∀ l ∈ list sort, ∀ l' ∈ list sort', l.items = l'.items

/-- The keys tell the rows of the clusters that are asked apart. -/
def KeysSeparate {ρ : Type} (rt : Runtime) (policy : Policy) (registry : Option (Registry Clients))
    (r : Request) (fetch : Entry → Except GoString (List ρ)) (keys : List (ρ → GoString)) : Prop :=
  ∀ a ∈ (askedClusters rt policy registry r).flatMap (rowsOf fetch),
    ∀ b ∈ (askedClusters rt policy registry r).flatMap (rowsOf fetch),
      keys.map (· a) = keys.map (· b) → a = b

/-- A list that fans out and sorts by these keys. -/
theorem orderIndependent_iff {ρ : Type} (rt : Runtime) (policy : Policy)
    (registry : Option (Registry Clients)) (r : Request) (fetch : Entry → Except GoString (List ρ))
    (keys : List (ρ → GoString)) :
    OrderIndependent (fun sort : SortSlice (lexLess keys) =>
        listing rt policy registry r fetch sort.sort (r.http.query "cluster")) ↔
      KeysSeparate rt policy registry r fetch keys := by
  have hnil : ∀ sort : SortSlice (lexLess keys), sort.sort [] = [] := fun sort =>
    List.perm_nil.mp (sort.perm [])
  have answers (sort : SortSlice (lexLess keys)) :
      (listing rt policy registry r fetch sort.sort (r.http.query "cluster")).Nonempty :=
    listing_nonempty _
  constructor
  · intro h a ha b hb hkeys
    by_contra hne
    obtain ⟨sort, sort', hsorts⟩ := SortSlice.exists_sort_ne (lexLess_iff keys) hne hkeys
    obtain ⟨l, hl⟩ := answers sort
    obtain ⟨l', hl'⟩ := answers sort'
    obtain ⟨merged, hmerged, hitems⟩ := items_listing (hnil sort) hl
    obtain ⟨merged', hmerged', hitems'⟩ := items_listing (hnil sort') hl'
    refine hsorts merged merged' (hmerged.mem_iff.mpr ha) (hmerged.mem_iff.mpr hb) ?_
    rw [← hitems, ← hitems']
    exact h sort sort' l hl l' hl'
  · intro h sort sort' l hl l' hl'
    obtain ⟨merged, hmerged, hitems⟩ := items_listing (hnil sort) hl
    obtain ⟨merged', hmerged', hitems'⟩ := items_listing (hnil sort') hl'
    rw [hitems, hitems']
    refine SortSlice.sort_eq_sort (lexLess_iff keys) sort sort' (hmerged.trans hmerged'.symm) ?_
    intro a ha b hb hkeys
    exact h a (hmerged.mem_iff.mp ha) b (hmerged.mem_iff.mp hb) hkeys

/-- **Order independence of the lists.** The items of a list are the same in the same order for any
two orders in which the clusters answer if and only if no two rows of these clusters, equal ones
apart, agree in what the list is sorted by. -/
theorem lists_orderIndependent_iff (rt : Runtime) (policy : Policy)
    (registry : Option (Registry Clients)) (r : Request) :
    (OrderIndependent (listApplications rt policy registry r) ↔
        KeysSeparate rt policy registry r (listApplicationsForCluster rt.now)
          [(·.cluster), (·.ns), (·.name)]) ∧
      (OrderIndependent (listSources rt policy registry r) ↔
        KeysSeparate rt policy registry r (listSourcesForCluster rt.now)
          [(·.cluster), (·.ns), (·.kind), (·.name)]) ∧
      (OrderIndependent (listAlerts rt policy registry r) ↔
        KeysSeparate rt policy registry r (listAlertsForCluster rt.now)
          [(·.cluster), (·.ns), (·.name)]) ∧
      (OrderIndependent (listImageUpdates rt policy registry r) ↔
        KeysSeparate rt policy registry r (listImageUpdatesForCluster rt.now)
          [(·.cluster), (·.ns), (·.name)]) :=
  ⟨orderIndependent_iff .., orderIndependent_iff .., orderIndependent_iff ..,
    orderIndependent_iff ..⟩

/-! ## Two clusters of one display name -/

/-- A cluster that is called `prod` wherever it is shown. -/
def twinEntry (name : String) : Entry := { reachableEntry name with displayName := "prod" }

/-- The store with two of them. -/
def twinStore : Cluster.Store Clients :=
  (Cluster.Store.new.set "east" (twinEntry "east")).set "west" (twinEntry "west")

/-- The row of the Kustomization of a cluster. -/
def twinRow (name : String) : Types.Application :=
  kustomizationToApp 0 (twinEntry name) appsKustomization

/-- Rows that compare equal come out of a sort key by key as they went in. -/
theorem sort_twinRows (a b : String) :
    keySorts.applications.sort [twinRow a, twinRow b] = [twinRow a, twinRow b] := by
  refine List.mergeSort_of_pairwise (List.pairwise_pair.mpr ?_)
  exact decide_eq_true (le_refl [("prod" : GoString), "flux-system", "apps"])

/-- The answer if the two clusters answer in this order. -/
theorem mem_listApplications_twins {a b : String}
    (hperm : [twinEntry a, twinEntry b].Perm [twinEntry "east", twinEntry "west"]) :
    ⟨[twinRow a, twinRow b], []⟩ ∈ listApplications idleRuntime Auth.defaultAllowAllPolicy
      (some twinStore.toRegistry) devRequest keySorts.applications := by
  refine ⟨_, Fanout.received_iff.mpr ⟨[twinEntry a, twinEntry b], hperm, rfl⟩, ?_⟩
  show (⟨_, []⟩ : Types.Listing _) = ⟨keySorts.applications.sort [twinRow a, twinRow b], []⟩
  rw [sort_twinRows]

/-- Even with one sort, the cluster that answers first stands first. -/
theorem not_orderIndependent_twins :
    ¬ ∀ (rt : Runtime) (policy : Policy) (registry : Option (Registry Clients)) (r : Request)
      (sort : SortSlice applicationLess), ∀ l ∈ listApplications rt policy registry r sort,
        ∀ l' ∈ listApplications rt policy registry r sort, l.items = l'.items := by
  intro h
  have heast := mem_listApplications_twins (.refl [twinEntry "east", twinEntry "west"])
  have hwest := mem_listApplications_twins (.swap (twinEntry "east") (twinEntry "west") [])
  have heq := h _ _ _ _ _ _ heast _ hwest
  have hid : (twinRow "east").clusterId ≠ (twinRow "west").clusterId := by decide
  exact hid (congrArg Types.Application.clusterId (List.cons_eq_cons.mp heq).1)

end Yafu.Api
