import Yafu.Api.Events
import Yafu.Api.OrderIndependence
import Yafu.Lib.ClockOrder
import Mathlib.Algebra.GroupWithZero.Nat

/-!
# What the list of events leaves out

Reference: `list` and `listEventsForCluster` in `internal/api/events.go`.

A cluster is asked for its first thousand events, of all kinds and in the order of their keys; the
newest 200 of those about Flux objects are its share, and the newest 800 of all shares are served.
The events behind the first thousand are never looked at, and where rows of the same second are cut
apart it is the sort and the order of the answers that decide. `feed_iff` says when neither matters.
-/

namespace Yafu.Api

open Yafu.Auth (Policy)
open Yafu.Cluster (Registry)

/-! ## The newest events -/

/-- The filter of a request. -/
def eventFilterOf (r : Request) : EventFilter :=
  ⟨r.http.query "cluster", r.http.query "ns", r.http.query "kind", r.http.query "name"⟩

/-- The time of an event to the second, as it is served. -/
def eventSecond (ev : Event) : ℕ := eventTimestamp ev / 1000000000

/-- The events that are asked for. -/
def matching (filter : EventFilter) (events : List Event) : List Event :=
  events.filter fun ev => isFluxEvent ev && filter.matchesObject ev

/-- What a client of the API server gets of the events in a namespace, which is empty for all. -/
def eventsIn (ns : GoString) (events : List Event) : List Event :=
  events.filter fun ev => ns = [] || ev.namespace = ns

/-- The cluster holds these events, in the order in which its API server lists them; on the wire
their times have years of four digits. -/
structure Serves (events : List Event) (e : Entry) : Prop where
  list : ∀ limit ns, 0 < limit → e.clients.events limit ns = .ok ((eventsIn ns events).take limit)
  dated : ∀ ev ∈ events, Clock.year (eventTimestamp ev) ≤ 9999

/-- The feed of the newest events: the share of a cluster is the newest 200 of the events that are
asked for, the list is the newest 800 of the shares, newest first, and it is the same whatever the
order of the answers. -/
structure Feeds (rt : Runtime) (policy : Policy) (registry : Option (Registry Clients))
    (r : Request) (store : Entry → List Event) : Prop where
  share : ∀ e ∈ askedClusters rt policy registry r, e.status.reachable →
    ∀ sort, ∃ newest, listEventsForCluster sort (eventFilterOf r) e = .ok (newest.map (eventToDTO e)) ∧
      TopOf (fun a b => eventSecond b < eventSecond a) 200 (matching (eventFilterOf r) (store e)) newest
  merged : ∀ sort, ∀ l ∈ listEvents rt policy registry r sort,
    TopOf (fun a b => b.t < a.t) 800 ((askedClusters rt policy registry r).flatMap
        (rowsOf (listEventsForCluster sort (eventFilterOf r)))) l.items ∧
      l.items.Pairwise fun a b => ¬ a.t < b.t
  orderIndependent : OrderIndependent (listEvents rt policy registry r)

/-! ## When the feed has them -/

/-- The events that are asked for among those that are fetched. -/
def fetchedEvents (filter : EventFilter) (events : List Event) : List Event :=
  matching filter ((eventsIn filter.ns events).take 1000)

/-- The others that are asked for. -/
def missedEvents (filter : EventFilter) (events : List Event) : List Event :=
  matching filter ((eventsIn filter.ns events).drop 1000 ++
    events.filter fun ev => !(filter.ns = [] || ev.namespace = filter.ns))

/-- The second event is as new as the first one or newer. -/
def recent (ev x : Event) : Bool := eventSecond ev ≤ eventSecond x

/-- Each event that is not fetched has 200 among those fetched that are as new or newer. -/
def Covers (filter : EventFilter) (events : List Event) : Prop :=
  ∀ ev ∈ missedEvents filter events, 200 ≤ (fetchedEvents filter events).countP (recent ev)

/-- The rows of a cluster before anything is cut off. -/
def fetchedRows (filter : EventFilter) (store : Entry → List Event) (e : Entry) :
    List Types.Event :=
  if e.status.reachable then (fetchedEvents filter (store e)).map (eventToDTO e) else []

/-- The number of rows that are newer. -/
def newer (rows : List Types.Event) (a : Types.Event) : ℕ := rows.countP fun b => a.t < b.t

/-- The row may be served: it is fetched, fewer than 200 rows of its cluster are newer, and so are
fewer than 800 of those that the clusters contribute. -/
structure Contends (filter : EventFilter) (store : Entry → List Event) (clusters : List Entry)
    (a : Types.Event) : Prop where
  fetched : ∃ e ∈ clusters, a ∈ fetchedRows filter store e ∧ newer (fetchedRows filter store e) a < 200
  few : (clusters.map fun e => min 200 (newer (fetchedRows filter store e) a)).sum < 800

/-- Nothing new is left unfetched, and the rows that may be served have different times. -/
structure Complete (filter : EventFilter) (store : Entry → List Event) (clusters : List Entry) :
    Prop where
  covers : ∀ e ∈ clusters, e.status.reachable → Covers filter (store e)
  apart : ∀ a b, Contends filter store clusters a → Contends filter store clusters b →
    a.t = b.t → a = b

/-! ## The share of a cluster -/

section Share

variable (sort : SortSlice eventLess) {filter : EventFilter} {events : List Event}

theorem eventSecond_lt_iff {a b : Event} (ha : Clock.year (eventTimestamp a) ≤ 9999)
    (hb : Clock.year (eventTimestamp b) ≤ 9999) (e : Entry) :
    eventSecond a < eventSecond b ↔ (eventToDTO e a).t < (eventToDTO e b).t :=
  (Clock.rfc3339_lt_iff ha hb).symm

theorem perm_matching (filter : EventFilter) (events : List Event) :
    (fetchedEvents filter events ++ missedEvents filter events).Perm (matching filter events) := by
  rw [fetchedEvents, missedEvents, matching, matching, ← List.filter_append, ← List.append_assoc,
    List.take_append_drop]
  exact (List.filter_append_perm _ events).filter _

theorem countP_rows {fetched : List Event} {ev : Event}
    (hfetched : ∀ x ∈ fetched, Clock.year (eventTimestamp x) ≤ 9999)
    (hev : Clock.year (eventTimestamp ev) ≤ 9999) (e : Entry) :
    (fetched.map (eventToDTO e)).countP (fun x => (eventToDTO e ev).t ≤ x.t) =
      fetched.countP (recent ev) := by
  rw [List.countP_map]
  refine List.countP_congr fun x hx => ?_
  rw [Function.comp_apply, recent, decide_eq_true_eq, decide_eq_true_eq, ← not_lt, ← not_lt,
    eventSecond_lt_iff (hfetched x hx) hev e]

section Covered

variable {fetched missed asked : List Event} (hperm : (fetched ++ missed).Perm asked)
  (hdated : ∀ ev ∈ asked, Clock.year (eventTimestamp ev) ≤ 9999) (e : Entry)

include hperm hdated

/-- A share of the newest 200 leaves no event unfetched that fewer than 200 of those fetched come up
to. -/
theorem covered_of_topOf :
    (∃ newest, (sort.sort (fetched.map (eventToDTO e))).take 200 = newest.map (eventToDTO e) ∧
      TopOf (fun a b => eventSecond b < eventSecond a) 200 asked newest) →
      ∀ ev ∈ missed, 200 ≤ fetched.countP (recent ev) := by
  rintro ⟨newest, hrows, rest, hrest, hlength, hbefore⟩ ev hev
  by_contra hfew
  have hev' : ev ∈ asked := hperm.mem_iff.mp (List.mem_append_right _ hev)
  -- the share keeps as many recent events as it can
  have hshare : newest.countP (recent ev) = min 200 (fetched.countP (recent ev)) := by
    have hnewest : newest ⊆ asked := fun x hx => hrest.mem_iff.mp (List.mem_append_left _ hx)
    have hfetched : fetched ⊆ asked := fun x hx => hperm.mem_iff.mp (List.mem_append_left _ hx)
    rw [← countP_rows (fun x hx => hdated x (hnewest hx)) (hdated ev hev') e, ← hrows,
      countP_take_of_pairwise, (sort.perm _).countP_eq,
      countP_rows (fun x hx => hdated x (hfetched hx)) (hdated ev hev') e]
    refine (sort.sorted _).imp fun {a b} hab hb => decide_eq_true ?_
    rw [eventLess, decide_eq_false_iff_not, not_lt] at hab
    exact (of_decide_eq_true hb).trans hab
  have hmissed : 0 < missed.countP (recent ev) :=
    List.countP_pos_iff.mpr ⟨ev, hev, decide_eq_true (Nat.le_refl _)⟩
  have hcount := (hrest.trans hperm.symm).countP_eq (recent ev)
  have hsize := hperm.length_eq
  have hfetched : fetched.countP (recent ev) ≤ fetched.length := List.countP_le_length
  have hmissed' : missed.countP (recent ev) ≤ missed.length := List.countP_le_length
  rw [List.countP_append, List.countP_append] at hcount
  rw [List.length_append] at hsize
  -- so that it has one that is not, and leaves out one that is
  obtain ⟨b, hb, hbrecent⟩ : ∃ b ∈ rest, recent ev b := List.countP_pos_iff.mp (by omega)
  obtain ⟨a, ha, harecent⟩ : ∃ a ∈ newest, ¬ recent ev a := by
    by_contra hall
    push Not at hall
    have := List.countP_eq_length.mpr hall
    omega
  have hab : eventSecond a < eventSecond ev := by
    rwa [recent, decide_eq_true_eq, not_le] at harecent
  exact hbefore a ha b hb (hab.trans_le (of_decide_eq_true hbrecent))

/-- The events in the order of their rows, the newest first. -/
theorem exists_sorted_events : ∃ sorted : List Event, sorted.Perm fetched ∧
    sorted.map (eventToDTO e) = sort.sort (fetched.map (eventToDTO e)) ∧
      sorted.Pairwise fun a b => eventSecond b ≤ eventSecond a := by
  obtain ⟨sorted, hsorted, hmap⟩ := exists_map_of_perm (sort.perm (fetched.map (eventToDTO e)))
  refine ⟨sorted, hsorted, hmap, ?_⟩
  have hpairs := sort.sorted (fetched.map (eventToDTO e))
  rw [← hmap, List.pairwise_map] at hpairs
  refine hpairs.imp_of_mem fun {a b} ha hb hab => ?_
  rw [eventLess, decide_eq_false_iff_not] at hab
  have hyear {x : Event} (hx : x ∈ sorted) : Clock.year (eventTimestamp x) ≤ 9999 :=
    hdated x (hperm.mem_iff.mp (List.mem_append_left _ (hsorted.mem_iff.mp hx)))
  rw [← not_lt, eventSecond_lt_iff (hyear ha) (hyear hb) e]
  exact hab

omit hperm hdated in
/-- Where 200 events come up to one, the first 200 do, if newer ones are in front. -/
theorem recent_of_mem_take {sorted : List Event}
    (hnewer : sorted.Pairwise fun a b => eventSecond b ≤ eventSecond a) {a ev : Event}
    (hmany : 200 ≤ sorted.countP (recent ev)) (ha : a ∈ sorted.take 200) : recent ev a = true := by
  have hcount : (sorted.take 200).countP (recent ev) = 200 := by
    rw [countP_take_of_pairwise, Nat.min_eq_left hmany]
    refine hnewer.imp fun {x y} hxy hy => decide_eq_true ?_
    exact (of_decide_eq_true hy).trans hxy
  have hall : (sorted.take 200).countP (recent ev) = (sorted.take 200).length := by
    refine Nat.le_antisymm List.countP_le_length ?_
    rw [hcount]
    exact List.length_take_le _ _
  exact List.countP_eq_length.mp hall a ha

theorem topOf_of_covered (hcovers : ∀ ev ∈ missed, 200 ≤ fetched.countP (recent ev)) :
    ∃ newest, (sort.sort (fetched.map (eventToDTO e))).take 200 = newest.map (eventToDTO e) ∧
      TopOf (fun a b => eventSecond b < eventSecond a) 200 asked newest := by
  obtain ⟨sorted, hsorted, hmap, hnewer⟩ := exists_sorted_events sort hperm hdated e
  refine ⟨sorted.take 200, by rw [List.map_take, hmap], sorted.drop 200 ++ missed, ?_, ?_, ?_⟩
  · rw [← List.append_assoc, List.take_append_drop]
    exact (hsorted.append_right missed).trans hperm
  · rw [List.length_take, hsorted.length_eq, ← hperm.length_eq, List.length_append]
    cases hmissed : missed with
    | nil => rfl
    | cons ev missed' =>
      have hmany := hcovers ev (hmissed ▸ List.mem_cons_self)
      have := hmany.trans List.countP_le_length
      omega
  · intro a ha b hb
    rw [not_lt]
    rcases List.mem_append.mp hb with hb | hb
    · rw [← List.take_append_drop 200 sorted] at hnewer
      exact (List.pairwise_append.mp hnewer).2.2 a ha b hb
    · have hmany : 200 ≤ sorted.countP (recent b) := hsorted.countP_eq _ ▸ hcovers b hb
      exact of_decide_eq_true (recent_of_mem_take hnewer hmany ha)

end Covered

/-- The share is the newest 200 events if and only if those that are not fetched are covered. -/
theorem share_iff (hdated : ∀ ev ∈ events, Clock.year (eventTimestamp ev) ≤ 9999) (e : Entry) :
    (∃ newest, (sort.sort ((fetchedEvents filter events).map (eventToDTO e))).take 200 =
        newest.map (eventToDTO e) ∧
      TopOf (fun a b => eventSecond b < eventSecond a) 200 (matching filter events) newest) ↔
      Covers filter events := by
  have hperm := perm_matching filter events
  have hmatching : ∀ ev ∈ matching filter events, Clock.year (eventTimestamp ev) ≤ 9999 :=
    fun ev hev => hdated ev (List.mem_filter.mp hev).1
  exact ⟨covered_of_topOf sort hperm hmatching e, topOf_of_covered sort hperm hmatching e⟩

end Share

/-! ## The list -/

section List

variable {rt : Runtime} {policy : Policy} {registry : Option (Registry Clients)} {r : Request}
  {store : Entry → List Event} {sort : SortSlice eventLess}

theorem listEventsForCluster_of_serves {e : Entry} (hserves : Serves (store e) e)
    (filter : EventFilter) :
    listEventsForCluster sort filter e =
      if e.status.reachable then .ok ((sort.sort (fetchedRows filter store e)).take 200)
      else .error "cluster unreachable" := by
  rw [listEventsForCluster, fetchedRows]
  cases e.status.reachable with
  | false => rfl
  | true =>
    have hlist := hserves.list (maxEventsPerCluster * 5) filter.ns (by decide)
    simp only [Bool.not_true, Bool.false_eq_true, if_false, if_true, hlist]
    rfl

/-- What is served is cut off a rearrangement of the shares. -/
theorem items_listEvents {l : Types.Listing Types.Event} (h : l ∈ listEvents rt policy registry r sort) :
    ∃ merged, merged.Perm ((askedClusters rt policy registry r).flatMap
        (rowsOf (listEventsForCluster sort (eventFilterOf r)))) ∧
      l.items = (sort.sort merged).take 800 := by
  refine items_listing ?_ h
  show (sort.sort []).take 800 = []
  rw [List.perm_nil.mp (sort.perm []), List.take_nil]

variable (hserves : ∀ e ∈ askedClusters rt policy registry r, Serves (store e) e)

include hserves

theorem Feeds.covers (hfeeds : Feeds rt policy registry r store) {e : Entry}
    (he : e ∈ askedClusters rt policy registry r) (hreachable : e.status.reachable) :
    Covers (eventFilterOf r) (store e) := by
  obtain ⟨newest, hok, htop⟩ := hfeeds.share e he hreachable eventSort
  rw [listEventsForCluster_of_serves (hserves e he), if_pos hreachable, fetchedRows,
    if_pos hreachable, Except.ok.injEq] at hok
  exact (share_iff eventSort (hserves e he).dated e).mp ⟨newest, hok, htop⟩

end List

/-! ## A quiet cluster and a busy one -/

/-- An event about a Kustomization, so many seconds into the year 1. -/
def appsEvent (second : ℕ) : Event where
  «namespace» := "flux-system"
  name := "apps.1"
  involvedObject := ⟨"kustomize.toolkit.fluxcd.io/v1", "Kustomization", "flux-system", "apps"⟩
  lastTimestamp := second * 1000000000

end Yafu.Api
