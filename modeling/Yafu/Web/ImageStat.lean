import Yafu.Api.PartialSuccess

/-!
# The image statistics of the Fleet page

Reference: `web/src/pages/Fleet.tsx`, and `ImageUpdate` in `internal/api/types/types.go`.

The server fills in the status of an image update, the response type says which values it may have,
and the page counts rows by comparing it with one of them. The helper that makes the status is that
of the sources, whose word for a resource in order is another one.
-/

namespace Yafu.Web.ImageStat

open Yafu.Api
open Yafu.Auth (Policy)
open Yafu.Cluster (Time Registry)

/-- The values of `Status`. -/
inductive Documented : GoString → Prop
  | ready : Documented "ready"
  | failing : Documented "failing"
  | progressing : Documented "progressing"
  | paused : Documented "paused"

def imageReady (imageUpdates : List Types.ImageUpdate) : ℕ :=
  (imageUpdates.filter fun u => u.status == ("ready" : GoString) && u.latestTag != []).length

/-! ## The policies behind the rows -/

/-- The `Ready` condition is there and is `True`. -/
def readyTrue (p : ImagePolicy) : Bool :=
  (findCondition p.conditions "Ready").any (·.status == conditionTrue)

/-- The `Ready` condition is there and is not `True`. -/
def readyNotTrue (p : ImagePolicy) : Bool :=
  (findCondition p.conditions "Ready").any (·.status != conditionTrue)

/-- A policy that is in force and has resolved a tag. -/
def isReady (p : ImagePolicy) : Bool := !p.suspend && readyTrue p && p.latestRef.any (· != [])

/-- The image policies that a cluster answers with. -/
def policiesOf (e : Entry) : List ImagePolicy :=
  if e.status.reachable ∧ e.status.fluxInstalled then e.clients.imagePolicies.toOption.getD []
  else []

/-- The policies of all clusters that are asked, each with its cluster. -/
def listed (clusters : List Entry) : List (Entry × ImagePolicy) :=
  clusters.flatMap fun e => (policiesOf e).map (e, ·)

/-- The row of a policy. -/
def row (now : Time) (x : Entry × ImagePolicy) : Types.ImageUpdate :=
  imagePolicyToUpdate now x.1 x.2 (bestEffort x.1.clients.imageRepositories)

/-- The rows say of these policies what the type documents and the page counts. -/
structure StatusConsistent (policies : List (Entry × ImagePolicy))
    (updates : List Types.ImageUpdate) : Prop where
  documented : ∀ u ∈ updates, Documented u.status
  ready : imageReady updates = policies.countP fun x => isReady x.2

theorem rowsOf_listImageUpdates (now : Time) (e : Entry) :
    rowsOf (listImageUpdatesForCluster now) e = (policiesOf e).map fun p => row now (e, p) := by
  rw [rowsOf, policiesOf]
  by_cases hup : e.status.reachable ∧ e.status.fluxInstalled
  · rw [listImageUpdatesForCluster, checkFlux_of_up hup, if_pos hup]
    rcases e.clients.imagePolicies with err | policies
    · by_cases hmissing : isImageCRDsMissing err = true
      · simp only [if_pos hmissing]
        rfl
      · simp only [if_neg hmissing]
        rfl
    · rfl
  · have hdown : Down e := by
      rw [Down, ← Bool.not_eq_true, ← Bool.not_eq_true]
      exact not_and_or.mp hup
    obtain ⟨err, herr⟩ : ∃ err, listImageUpdatesForCluster now e = .error err :=
      listImageUpdates_error (.inl hdown)
    rw [herr, if_neg hup]
    rfl

section Response

variable {rt : Runtime} {policy : Policy} {registry : Option (Registry Clients)} {r : Request}
  {sort : SortSlice imageUpdateLess} {l : Types.Listing Types.ImageUpdate}

/-- A response has one row for each policy. -/
theorem items_perm (h : l ∈ listImageUpdates rt policy registry r sort) :
    l.items.Perm ((listed (askedClusters rt policy registry r)).map (row rt.now)) := by
  refine (accounted_listing sort.perm h).items.trans (.of_eq ?_)
  rw [listed, List.map_flatMap]
  refine List.flatMap_congr fun e _ => ?_
  rw [rowsOf_listImageUpdates, List.map_map]
  rfl

/-! ## The status of a row -/

theorem row_status (now : Time) (x : Entry × ImagePolicy) :
    (x.2.suspend = true ∧ (row now x).status = "paused") ∨
      (x.2.suspend = false ∧ readyTrue x.2 = true ∧ (row now x).status = "healthy") ∨
      (x.2.suspend = false ∧ readyNotTrue x.2 = true ∧ (row now x).status = "failing") ∨
      (x.2.suspend = false ∧ findCondition x.2.conditions "Ready" = none ∧
        (row now x).status = "progressing") := by
  have hstatus : (row now x).status =
      if x.2.suspend then ("paused" : GoString) else sourceStatus x.2.conditions := rfl
  rw [hstatus]
  by_cases hsuspend : x.2.suspend = true
  · exact .inl ⟨hsuspend, if_pos hsuspend⟩
  · have hsuspend' : x.2.suspend = false := by simpa using hsuspend
    rw [if_neg hsuspend, sourceStatus, readyTrue, readyNotTrue]
    rcases findCondition x.2.conditions "Ready" with _ | ready
    · exact .inr (.inr (.inr ⟨hsuspend', rfl, rfl⟩))
    · by_cases htrue : ready.status = conditionTrue
      · exact .inr (.inl ⟨hsuspend', by simp [htrue], if_pos htrue⟩)
      · exact .inr (.inr (.inl ⟨hsuspend', by simp [htrue], if_neg htrue⟩))

theorem row_status_ne_ready (now : Time) (x : Entry × ImagePolicy) :
    (row now x).status ≠ ("ready" : GoString) := by
  rcases row_status now x with ⟨-, h⟩ | ⟨-, -, h⟩ | ⟨-, -, h⟩ | ⟨-, -, h⟩ <;> rw [h] <;> decide

/-- `healthy` is the one word that is not documented. -/
theorem documented_row_iff (now : Time) (x : Entry × ImagePolicy) :
    Documented (row now x).status ↔ x.2.suspend = true ∨ readyTrue x.2 = false := by
  rcases row_status now x with ⟨hs, h⟩ | ⟨hs, ht, h⟩ | ⟨hs, hn, h⟩ | ⟨hs, hn, h⟩
  · rw [h]
    exact iff_of_true .paused (.inl hs)
  · rw [h, hs, ht]
    exact iff_of_false nofun (by decide)
  · have hfalse : readyTrue x.2 = false := by
      rw [readyNotTrue, Option.any_eq_true] at hn
      obtain ⟨c, hc, hne⟩ := hn
      rw [readyTrue, hc, Option.any_some]
      simpa using hne
    rw [h]
    exact iff_of_true .failing (.inr hfalse)
  · rw [h, readyTrue, hn]
    exact iff_of_true .progressing (.inr rfl)

/-! ## The counters -/

theorem imageReady_eq_zero (h : l ∈ listImageUpdates rt policy registry r sort) :
    imageReady l.items = 0 := by
  rw [imageReady, List.length_eq_zero_iff, List.filter_eq_nil_iff]
  intro u hu
  obtain ⟨x, -, rfl⟩ := List.mem_map.mp ((items_perm h).mem_iff.mp hu)
  have hne : ¬ (row rt.now x).status = ("ready" : GoString) := row_status_ne_ready rt.now x
  rw [Bool.and_eq_true, beq_iff_eq]
  exact fun hready => hne hready.1

/-- The rows are consistent as long as no policy in force is ready: such a policy has a status that
is not documented, and is not counted. -/
theorem statusConsistent_iff (h : l ∈ listImageUpdates rt policy registry r sort) :
    StatusConsistent (listed (askedClusters rt policy registry r)) l.items ↔
      ∀ x ∈ listed (askedClusters rt policy registry r),
        x.2.suspend = true ∨ readyTrue x.2 = false := by
  constructor
  · intro hconsistent x hx
    refine (documented_row_iff rt.now x).mp (hconsistent.documented _ ?_)
    exact (items_perm h).mem_iff.mpr (List.mem_map_of_mem hx)
  · intro hnone
    constructor
    · intro u hu
      obtain ⟨x, hx, rfl⟩ := List.mem_map.mp ((items_perm h).mem_iff.mp hu)
      exact (documented_row_iff rt.now x).mpr (hnone x hx)
    · rw [imageReady_eq_zero h, eq_comm, List.countP_eq_zero]
      intro x hx hready
      rw [isReady, Bool.and_eq_true, Bool.and_eq_true, Bool.not_eq_true'] at hready
      rcases hnone x hx with hs | hr
      · exact Bool.false_ne_true (hready.1.1.symm.trans hs)
      · exact Bool.false_ne_true (hr.symm.trans hready.1.2)

end Response

/-! ## One policy -/

/-- A cluster with one image policy, which is ready and has resolved a tag. -/
def podinfoEntry (suspend : Bool) : Entry :=
  { reachableEntry "dev" with
    clients := { clusterOf [] with
      imagePolicies := .ok [{
        «namespace» := "flux-system"
        name := "podinfo"
        suspend := suspend
        imageRepositoryRef := { name := "podinfo" }
        policy := { semVer := some ">=6.0.0" }
        conditions := [{ type := "Ready", status := conditionTrue }]
        latestRef := some "6.6.2" }] } }

def podinfoRegistry (suspend : Bool) : Registry Clients :=
  (Cluster.Store.new.set "dev" (podinfoEntry suspend)).toRegistry

theorem asked_podinfo (suspend : Bool) :
    askedClusters idleRuntime Auth.defaultAllowAllPolicy (some (podinfoRegistry suspend)) devRequest =
      [podinfoEntry suspend] := rfl

theorem statusConsistent_iff_suspended : ∃ l ∈ listImageUpdates idleRuntime
    Auth.defaultAllowAllPolicy (some (podinfoRegistry true)) devRequest keySorts.updates,
      l.items ≠ [] ∧ StatusConsistent (listed [podinfoEntry true]) l.items := by
  obtain ⟨l, hl⟩ : (listImageUpdates idleRuntime Auth.defaultAllowAllPolicy
      (some (podinfoRegistry true)) devRequest keySorts.updates).Nonempty := listing_nonempty _
  have hconsistent := statusConsistent_iff hl
  have hperm := items_perm hl
  rw [asked_podinfo] at hconsistent hperm
  refine ⟨l, hl, ?_, hconsistent.mpr fun x hx => .inl ?_⟩
  · intro hnil
    rw [hnil] at hperm
    exact absurd (List.nil_perm.mp hperm) (by decide)
  · obtain rfl := List.mem_singleton.mp hx
    rfl

/-- In force, it is `healthy` to the server and ready to nobody. -/
theorem not_statusConsistent_podinfo : ∃ l ∈ listImageUpdates idleRuntime
    Auth.defaultAllowAllPolicy (some (podinfoRegistry false)) devRequest keySorts.updates,
      (∃ u ∈ l.items, u.status = "healthy" ∧ ¬ Documented u.status) ∧ imageReady l.items = 0 ∧
        (listed [podinfoEntry false]).countP (fun x => isReady x.2) = 1 := by
  obtain ⟨l, hl⟩ : (listImageUpdates idleRuntime Auth.defaultAllowAllPolicy
      (some (podinfoRegistry false)) devRequest keySorts.updates).Nonempty := listing_nonempty _
  have hperm := items_perm hl
  rw [asked_podinfo] at hperm
  refine ⟨l, hl, ⟨row 0 (podinfoEntry false, _), hperm.mem_iff.mpr List.mem_cons_self, rfl, nofun⟩,
    imageReady_eq_zero hl, by decide +kernel⟩

end Yafu.Web.ImageStat
