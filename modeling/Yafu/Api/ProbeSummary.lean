import Yafu.Api.NonInterference
import Yafu.Cluster.Prober

/-!
# The summary of a cluster and its list of applications

Reference: `Probe` and `isReady` in `internal/cluster/prober.go`, `deriveAppStatus` in
`internal/api/applications.go`, `ClusterSummary` in `api/v1alpha1/cluster_types.go`.

Both classify the Kustomizations and HelmReleases of a cluster. `Probe` asks only whether the
condition `Ready` is true, and counts whatever else is not suspended as failing; a row also knows
objects that are reconciling and those whose condition says neither.
-/

namespace Yafu.Api

open Yafu.Cluster (Time FluxItem Summary Remote probe isReady)
open Yafu.Controllers (ConditionStatus)

/-! ## What `Probe` reads of an object -/

/-- A string of an object, empty if it is no text. -/
def toText (s : GoString) : String := (String.fromUTF8? ⟨s.toArray⟩).getD ""

/-- A status as its three values; what is none of them says nothing. -/
def conditionStatus (s : GoString) : ConditionStatus :=
  if s = conditionTrue then .conditionTrue
  else if s = conditionFalse then .conditionFalse
  else .conditionUnknown

/-- A condition for `Probe`, which reads its type and its status. -/
def Condition.probed (c : Condition) : Controllers.Condition where
  type := toText c.type
  status := conditionStatus c.status
  observedGeneration := 0
  lastTransitionTime := c.lastTransitionTime
  reason := ""
  message := toText c.message

/-- What both read of a Kustomization or a HelmRelease. -/
structure FluxState where
  suspend : Bool
  conditions : List Condition

/-- The item that `Probe` counts. -/
def FluxState.item (o : FluxState) : FluxItem := ⟨o.suspend, o.conditions.map Condition.probed⟩

def Kustomization.state (k : Kustomization) : FluxState := ⟨k.suspend, k.conditions⟩

def HelmRelease.state (hr : HelmRelease) : FluxState := ⟨hr.suspend, hr.conditions⟩

/-- The clients of the handlers and those of `Probe` are answered by one API server, which lists the
Kustomizations; of the HelmReleases both get the list, or both an error. -/
structure SameCluster (clients : Clients) (remote : Remote) (ks : List Kustomization)
    (hrs : List HelmRelease) : Prop where
  version : ∃ v, remote.serverVersion = .ok v
  kustomizations : clients.kustomizations = .ok ks
  probedKustomizations : remote.kustomizations = .ok (ks.map fun k => k.state.item)
  helmReleases : (clients.helmReleases = .ok hrs ∧
      remote.helmReleases = .ok (hrs.map fun hr => hr.state.item)) ∨
    hrs = [] ∧ (∃ err, clients.helmReleases = .error err) ∧ ∃ err, remote.helmReleases = .error err

/-! ## The two classifications -/

/-- Whether the condition `Ready` has this status. -/
def readyIs (status : GoString) (conds : List Condition) : Bool :=
  (findCondition conds "Ready").any fun c => c.status = status

/-- Whether the condition `Reconciling` is true. -/
def isReconciling (conds : List Condition) : Bool :=
  (findCondition conds "Reconciling").any fun c => c.status = conditionTrue

theorem toText_eq_iff (s : GoString) {t : String} (ht : t ≠ "") :
    toText s = t ↔ s = (t : GoString) := by
  rw [toText, String.fromUTF8?]
  constructor
  · intro h
    split at h
    · rw [Option.getD_some] at h
      rw [← h]
      rfl
    · exact absurd h.symm ht
  · rintro rfl
    have hvalid : ByteArray.IsValidUTF8 ⟨t.toUTF8.data.toList.toArray⟩ := t.isValidUTF8
    rw [dif_pos hvalid]
    rfl

theorem conditionStatus_eq_true {s : GoString} :
    conditionStatus s = .conditionTrue ↔ s = conditionTrue := by
  rw [conditionStatus]
  split_ifs with ht hf <;> simp [ht]

theorem isReady_probed (conds : List Condition) :
    isReady (conds.map Condition.probed) = readyIs conditionTrue conds := by
  have hready : ("Ready" : String) ≠ "" := by decide
  induction conds with
  | nil => rfl
  | cons c conds ih =>
    have htype : c.probed.type = "Ready" ↔ c.type = ("Ready" : GoString) := toText_eq_iff c.type hready
    rw [List.map_cons, isReady, readyIs, findCondition]
    by_cases hc : c.type = ("Ready" : GoString)
    · have hfind : List.find? (fun c => decide (c.type = ("Ready" : GoString))) (c :: conds) = some c :=
        List.find?_cons_of_pos (decide_eq_true hc)
      rw [if_pos (htype.mpr hc), hfind, Option.any_some, decide_eq_decide]
      exact conditionStatus_eq_true
    · have hfind : List.find? (fun c => decide (c.type = ("Ready" : GoString))) (c :: conds) =
          findCondition conds "Ready" :=
        List.find?_cons_of_neg (by simpa using hc)
      rw [if_neg (mt htype.mp hc), hfind, ih]
      rfl

theorem not_readyIs_true {conds : List Condition} (h : readyIs conditionFalse conds) :
    readyIs conditionTrue conds = false := by
  have hne : conditionFalse ≠ conditionTrue := by decide
  obtain ⟨c, hc, hstatus⟩ := (Option.any_eq_true ..).mp h
  rw [readyIs, hc, Option.any_some, of_decide_eq_true hstatus]
  exact decide_eq_false hne

/-- The statuses of `deriveAppStatus`. -/
inductive AppStatus
  | paused
  | progressing
  | healthy
  | failing
  | degraded
deriving DecidableEq, Repr

def AppStatus.text : AppStatus → GoString
  | .paused => "paused"
  | .progressing => "progressing"
  | .healthy => "healthy"
  | .failing => "failing"
  | .degraded => "degraded"

theorem AppStatus.text_injective : Function.Injective AppStatus.text := by
  intro a b h
  cases a <;> cases b <;> first | rfl | exact absurd h (by decide)

namespace FluxState

variable (o : FluxState)

/-- The status of an object, by what it says. -/
def appStatus : AppStatus :=
  if o.suspend then .paused
  else if isReconciling o.conditions then .progressing
  else if readyIs conditionTrue o.conditions then .healthy
  else if readyIs conditionFalse o.conditions then .failing
  else if (findCondition o.conditions "Ready").isSome then .degraded
  else .progressing

theorem status_deriveAppStatus :
    (deriveAppStatus o.suspend o.conditions).1 = o.appStatus.text := by
  obtain ⟨suspend, conds⟩ := o
  rw [deriveAppStatus, appStatus]
  cases suspend with
  | true => rfl
  | false =>
    rw [if_neg Bool.false_ne_true, if_neg Bool.false_ne_true]
    by_cases hrec : isReconciling conds
    · obtain ⟨c, hc, hstatus⟩ := (Option.any_eq_true ..).mp hrec
      rw [if_pos hrec, hc, Option.filter_some, if_pos hstatus]
      rfl
    · have hnone : ((findCondition conds "Reconciling").filter fun c =>
          c.status = conditionTrue) = none := by
        rw [Option.filter_eq_none_iff]
        exact fun c hc hstatus => hrec ((Option.any_eq_true ..).mpr ⟨c, hc, hstatus⟩)
      rw [if_neg hrec, hnone]
      cases hready : findCondition conds "Ready" with
      | none =>
        simp only [readyIs, hready, Option.any_none, Option.isSome_none, Bool.false_eq_true, if_false]
        rfl
      | some ready =>
        simp only [readyIs, hready, Option.any_some, decide_eq_true_eq, Option.isSome_some, if_true]
        split_ifs <;> rfl

theorem appStatus_eq_paused : o.appStatus = .paused ↔ o.suspend := by
  rw [appStatus]
  split_ifs <;> simp_all

theorem appStatus_eq_healthy : o.appStatus = .healthy ↔
    o.suspend = false ∧ isReconciling o.conditions = false ∧ readyIs conditionTrue o.conditions := by
  rw [appStatus]
  split_ifs <;> simp_all

theorem appStatus_eq_failing : o.appStatus = .failing ↔
    o.suspend = false ∧ isReconciling o.conditions = false ∧ readyIs conditionFalse o.conditions := by
  have hexclusive := @not_readyIs_true o.conditions
  rw [appStatus]
  split_ifs <;> simp_all

end FluxState

/-! ## Counting -/

/-- What a tally adds to a summary. -/
theorem foldl_tally (items : List FluxItem) (s : Summary) : items.foldl Summary.tally s =
    { s with
      apps := s.apps + items.length
      ready := s.ready + items.countP fun i => !i.suspend && isReady i.conditions
      failing := s.failing + items.countP fun i => !i.suspend && !isReady i.conditions
      suspended := s.suspended + items.countP fun i => i.suspend } := by
  induction items generalizing s with
  | nil => rfl
  | cons i items ih =>
    rw [List.foldl_cons, ih, Summary.tally]
    simp only [List.length_cons, List.countP_cons]
    cases i.suspend with
    | true =>
      simp only [Bool.not_true, Bool.false_and, Bool.false_eq_true, if_false, if_true, Nat.add_zero,
        Summary.mk.injEq, true_and, and_true]
      omega
    | false =>
      cases isReady i.conditions <;>
        simp only [Bool.not_true, Bool.not_false, Bool.true_and, Bool.false_eq_true, if_false, if_true,
          Nat.add_zero, Summary.mk.injEq, true_and, and_true] <;>
        omega

/-- A property that implies another one is counted alike only if they are the same on the list. -/
theorem countP_eq_iff {α : Type*} {p q : α → Bool} {l : List α} (h : ∀ a ∈ l, p a → q a) :
    l.countP q = l.countP p ↔ ∀ a ∈ l, q a → p a := by
  constructor
  · intro heq
    induction l with
    | nil => exact fun a ha => absurd ha List.not_mem_nil
    | cons a l ih =>
      obtain ⟨ha, hl⟩ := List.forall_mem_cons.mp h
      have hle := List.countP_mono_left hl
      rw [List.countP_cons, List.countP_cons] at heq
      refine List.forall_mem_cons.mpr ⟨fun hq => ?_, ih hl ?_⟩
      · by_contra hp
        rw [if_pos hq, if_neg hp] at heq
        omega
      · by_cases hp : p a
        · rw [if_pos hp, if_pos (ha hp)] at heq
          omega
        · rw [if_neg hp] at heq
          split at heq
          · omega
          · omega
  · exact fun hback => List.countP_congr fun a ha => ⟨hback a ha, h a ha⟩

/-! ## The two numbers side by side -/

/-- The four counts of a summary that are about applications. -/
def appCounts (s : Summary) : ℕ × ℕ × ℕ × ℕ := (s.apps, s.ready, s.failing, s.suspended)

@[simp] theorem appCounts_addSources (s : Summary) (answer : Except Cluster.ListError ℕ) :
    appCounts (s.addSources answer) = appCounts s := by
  cases answer <;> rfl

/-- The objects of both kinds. -/
def fluxStates (ks : List Kustomization) (hrs : List HelmRelease) : List FluxState :=
  ks.map Kustomization.state ++ hrs.map HelmRelease.state

section SameCluster

variable {clients : Clients} {remote : Remote} {ks : List Kustomization} {hrs : List HelmRelease}

/-- What `Probe` finds on a cluster that lists its Kustomizations. -/
theorem SameCluster.probe (h : SameCluster clients remote ks hrs) (now : Time) :
    (probe now remote).reachable ∧ (probe now remote).fluxInstalled ∧
      appCounts (probe now remote).summary =
        appCounts (((fluxStates ks hrs).map FluxState.item).foldl Summary.tally {}) := by
  obtain ⟨v, hv⟩ := h.version
  have htally : ∀ s : Summary, s.tallyListed remote.helmReleases =
      (hrs.map fun hr => hr.state.item).foldl Summary.tally s := by
    intro s
    rcases h.helmReleases with ⟨-, hlisted⟩ | ⟨rfl, -, err, hfailed⟩
    · rw [hlisted]
      rfl
    · rw [hfailed]
      rfl
  have hstates : (fluxStates ks hrs).map FluxState.item =
      (ks.map fun k => k.state.item) ++ hrs.map fun hr => hr.state.item := by
    rw [fluxStates, List.map_append, List.map_map, List.map_map]
    rfl
  simp only [Cluster.probe, hv, h.probedKustomizations, htally, hstates, List.foldl_append,
    appCounts_addSources, and_self]

/-- The rows of the same cluster. -/
theorem SameCluster.rows (h : SameCluster clients remote ks hrs) (now now' : Time) {e : Entry}
    (he : e.clients = clients) : ∃ rows,
      listApplicationsForCluster now' (e.setStatus (Cluster.probe now remote)) = .ok rows ∧
        rows.map (·.status) = (fluxStates ks hrs).map fun o => o.appStatus.text := by
  obtain ⟨hreachable, hflux, -⟩ := h.probe now
  have hhelm : bestEffort clients.helmReleases = hrs := by
    rcases h.helmReleases with ⟨hlisted, -⟩ | ⟨rfl, ⟨err, hfailed⟩, -⟩
    · rw [hlisted, bestEffort]
    · rw [hfailed, bestEffort]
  refine ⟨ks.map (kustomizationToApp now' (e.setStatus (Cluster.probe now remote))) ++
    hrs.map (helmReleaseToApp now' (e.setStatus (Cluster.probe now remote))), ?_, ?_⟩
  · simp only [listApplicationsForCluster, checkFlux, Cluster.Entry.setStatus, hreachable, hflux, he,
      h.kustomizations, hhelm, Bool.not_true, Bool.false_eq_true, if_false]
  · rw [fluxStates, List.map_append, List.map_append, List.map_map, List.map_map, List.map_map,
      List.map_map]
    congr 1
    · exact List.map_congr_left fun k _ => k.state.status_deriveAppStatus
    · exact List.map_congr_left fun hr _ => hr.state.status_deriveAppStatus

end SameCluster

/-- The summary, the rows and the documentation of the summary agree about these objects. -/
structure SummaryAgrees (s : Summary) (rows : List Types.Application) (objs : List FluxState) : Prop where
  apps : s.apps = rows.length
  ready : s.ready = rows.countP fun a => a.status = ("healthy" : GoString)
  failing : s.failing = rows.countP fun a => a.status = ("failing" : GoString)
  suspended : s.suspended = rows.countP fun a => a.status = ("paused" : GoString)
  documented : s.failing = objs.countP fun o => !o.suspend && readyIs conditionFalse o.conditions

/-- `Ready` is true or false, and nothing is still reconciling. -/
structure FluxState.Settled (o : FluxState) : Prop where
  conclusive : readyIs conditionTrue o.conditions ∨ readyIs conditionFalse o.conditions
  still : isReconciling o.conditions = false

/-- Rows of a status are counted as the objects are. -/
theorem countP_status {rows : List Types.Application} {objs : List FluxState}
    (h : rows.map (·.status) = objs.map fun o => o.appStatus.text) (status : AppStatus) :
    (rows.countP fun a => a.status = status.text) =
      objs.countP fun o => o.appStatus = status := by
  have hcount := congrArg (List.countP fun text => decide (text = status.text)) h
  rw [List.countP_map, List.countP_map] at hcount
  refine hcount.trans (List.countP_congr fun o _ => ?_)
  simp only [Function.comp_apply, decide_eq_true_eq]
  exact AppStatus.text_injective.eq_iff

/-- What the three comparisons of counts say about one object. -/
theorem FluxState.settled_iff (o : FluxState) : (o.suspend = false → o.Settled) ↔
    ((!o.suspend && readyIs conditionTrue o.conditions) → o.appStatus = .healthy) ∧
      ((!o.suspend && !readyIs conditionTrue o.conditions) → o.appStatus = .failing) ∧
      ((!o.suspend && !readyIs conditionTrue o.conditions) →
        (!o.suspend && readyIs conditionFalse o.conditions)) := by
  rw [appStatus_eq_healthy, appStatus_eq_failing]
  cases hsuspend : o.suspend with
  | true => simp
  | false =>
    cases hready : readyIs conditionTrue o.conditions with
    | true =>
      simp only [Bool.not_false, Bool.and_self, true_and, and_true, forall_const, Bool.not_true,
        Bool.and_false, Bool.false_eq_true, false_implies]
      exact ⟨fun h => h.still, fun h => ⟨.inl hready, h⟩⟩
    | false =>
      simp only [Bool.not_false, Bool.and_self, true_and, forall_const, Bool.true_and,
        Bool.false_eq_true, false_implies]
      constructor
      · intro h
        have hfalse := h.conclusive.resolve_left (by simp [hready])
        exact ⟨⟨h.still, hfalse⟩, hfalse⟩
      · exact fun h => ⟨.inr h.2, h.1.1⟩

/-- Agreement object by object. -/
theorem summaryAgrees_iff_settled {s : Summary} {rows : List Types.Application} {objs : List FluxState}
    (hcounts : appCounts s = appCounts ((objs.map FluxState.item).foldl Summary.tally {}))
    (hrows : rows.map (·.status) = objs.map fun o => o.appStatus.text) :
    SummaryAgrees s rows objs ↔ ∀ o ∈ objs, o.suspend = false → o.Settled := by
  have hisReady : ∀ o : FluxState, isReady o.item.conditions = readyIs conditionTrue o.conditions :=
    fun o => isReady_probed o.conditions
  have hitem : ∀ o : FluxState, o.item.suspend = o.suspend := fun _ => rfl
  rw [foldl_tally] at hcounts
  simp only [appCounts, Prod.mk.injEq, Nat.zero_add, List.length_map, List.countP_map,
    Function.comp_def, hisReady, hitem] at hcounts
  obtain ⟨happs, hready, hfailing, hsuspended⟩ := hcounts
  have hlength : rows.length = objs.length := by
    have := congrArg List.length hrows
    rwa [List.length_map, List.length_map] at this
  have hpaused : s.suspended = rows.countP fun a => a.status = AppStatus.paused.text := by
    rw [countP_status hrows, hsuspended]
    refine List.countP_congr fun o _ => ?_
    rw [decide_eq_true_eq, o.appStatus_eq_paused]
  -- each count of the summary is of a larger class than the one beside it
  have hhealthy : s.ready = (rows.countP fun a => a.status = AppStatus.healthy.text) ↔
      ∀ o ∈ objs, (!o.suspend && readyIs conditionTrue o.conditions) → o.appStatus = .healthy := by
    rw [countP_status hrows, hready]
    refine (countP_eq_iff fun o _ ho => ?_).trans (by simp only [decide_eq_true_eq])
    rw [decide_eq_true_eq, o.appStatus_eq_healthy] at ho
    rw [ho.1, ho.2.2]
    rfl
  have hfail : s.failing = (rows.countP fun a => a.status = AppStatus.failing.text) ↔
      ∀ o ∈ objs, (!o.suspend && !readyIs conditionTrue o.conditions) → o.appStatus = .failing := by
    rw [countP_status hrows, hfailing]
    refine (countP_eq_iff fun o _ ho => ?_).trans (by simp only [decide_eq_true_eq])
    rw [decide_eq_true_eq, o.appStatus_eq_failing] at ho
    rw [ho.1, not_readyIs_true ho.2.2]
    rfl
  have hdoc : s.failing =
      (objs.countP fun o => !o.suspend && readyIs conditionFalse o.conditions) ↔
      ∀ o ∈ objs, (!o.suspend && !readyIs conditionTrue o.conditions) →
        (!o.suspend && readyIs conditionFalse o.conditions) := by
    rw [hfailing]
    refine countP_eq_iff fun o _ ho => ?_
    rw [Bool.and_eq_true_iff] at ho ⊢
    exact ⟨ho.1, by rw [not_readyIs_true ho.2]; rfl⟩
  have hagrees : SummaryAgrees s rows objs ↔
      (s.ready = rows.countP fun a => a.status = AppStatus.healthy.text) ∧
        (s.failing = rows.countP fun a => a.status = AppStatus.failing.text) ∧
        s.failing = objs.countP fun o => !o.suspend && readyIs conditionFalse o.conditions :=
    ⟨fun h => ⟨h.ready, h.failing, h.documented⟩, fun h =>
      ⟨happs.trans hlength.symm, h.1, h.2.1, hpaused, h.2.2⟩⟩
  rw [hagrees, hhealthy, hfail, hdoc, ← forall₂_and, ← forall₂_and]
  exact forall₂_congr fun o _ => o.settled_iff.symm

/-- The summary of a probe agrees with the list of applications if and only if every object that is
not suspended is settled. -/
theorem summaryAgrees_iff {remote : Remote} {ks : List Kustomization} {hrs : List HelmRelease}
    (e : Entry) (h : SameCluster e.clients remote ks hrs) (now now' : Time) :
    ∃ rows, listApplicationsForCluster now' (e.setStatus (probe now remote)) = .ok rows ∧
      (SummaryAgrees (probe now remote).summary rows (fluxStates ks hrs) ↔
        ∀ o ∈ fluxStates ks hrs, o.suspend = false → o.Settled) := by
  obtain ⟨rows, hlist, hrows⟩ := h.rows now now' (e := e) rfl
  exact ⟨rows, hlist, summaryAgrees_iff_settled (h.probe now).2.2 hrows⟩

/-! ### Objects that are settled, suspended or new -/

/-- What `Probe` is answered by a cluster with these objects. -/
def remoteOf (ks : List Kustomization) (hrs : List HelmRelease) : Remote where
  serverVersion := .ok "v1.33.0"
  kustomizations := .ok (ks.map fun k => k.state.item)
  helmReleases := .ok (hrs.map fun hr => hr.state.item)
  gitRepositories := .ok 0
  helmRepositories := .ok 0
  ociRepositories := .ok 0
  buckets := .ok 0

/-- A Kustomization that is ready. -/
def infraKustomization : Kustomization :=
  { appsKustomization with
    name := "infra"
    conditions := [{ type := "Ready", status := conditionTrue }] }

/-- A HelmRelease whose last upgrade failed. -/
def webRelease : HelmRelease where
  «namespace» := "shop"
  name := "web"
  conditions := [{ type := "Ready", status := conditionFalse }]
  unstructured := .ok []

/-- A cluster with the two, and with a Kustomization that was suspended before it had a condition. -/
def mixedEntry : Entry :=
  { reachableEntry "dev" with
    clients :=
      { clusterOf [infraKustomization, { appsKustomization with suspend := true }] with
        helmReleases := .ok [webRelease] } }

/-- Of those that count, one is ready and one is failing, to the summary and to the list. -/
theorem summaryAgrees_iff_mixed :
    (let ks := [infraKustomization, { appsKustomization with suspend := true }]
     let remote := remoteOf ks [webRelease]
     ∃ rows, listApplicationsForCluster 0 (mixedEntry.setStatus (probe 0 remote)) = .ok rows ∧
       SummaryAgrees (probe 0 remote).summary rows (fluxStates ks [webRelease])) := by
  intro ks remote
  have hsame : SameCluster mixedEntry.clients remote ks [webRelease] :=
    ⟨⟨_, rfl⟩, rfl, rfl, .inl ⟨rfl, rfl⟩⟩
  have hready : infraKustomization.state.Settled := ⟨by decide, by decide⟩
  have hfailing : webRelease.state.Settled := ⟨by decide, by decide⟩
  obtain ⟨rows, hlist, hagrees⟩ := summaryAgrees_iff mixedEntry hsame 0 0
  refine ⟨rows, hlist, hagrees.mpr ?_⟩
  show ∀ o ∈ [infraKustomization.state, ({ appsKustomization with suspend := true }).state,
    webRelease.state], o.suspend = false → o.Settled
  simp only [List.forall_mem_cons]
  exact ⟨fun _ => hready, fun h => absurd h (by decide), fun _ => hfailing,
    fun o ho => absurd ho List.not_mem_nil⟩

/-- What `Probe` is answered by the cluster of `reachableEntry`. -/
def freshRemote : Remote := remoteOf [appsKustomization] []

theorem sameCluster_fresh :
    SameCluster (reachableEntry "dev").clients freshRemote [appsKustomization] [] where
  version := ⟨_, rfl⟩
  kustomizations := rfl
  probedKustomizations := rfl
  helmReleases := .inl ⟨rfl, rfl⟩

/-- What has not been reconciled yet is failing in the summary, and progressing in the list. -/
theorem not_summaryAgrees_fresh :
    (probe 0 freshRemote).summary = { apps := 1, failing := 1 } ∧
      ∃ rows, listApplicationsForCluster 0
          ((reachableEntry "dev").setStatus (probe 0 freshRemote)) = .ok rows ∧
        rows.map (·.status) = [("progressing" : GoString)] ∧
        ¬SummaryAgrees (probe 0 freshRemote).summary rows (fluxStates [appsKustomization] []) := by
  have hsummary : (probe 0 freshRemote).summary = { apps := 1, failing := 1 } := by decide
  obtain ⟨rows, hlist, hrows⟩ := sameCluster_fresh.rows 0 0 rfl
  refine ⟨hsummary, rows, hlist, hrows, fun hagrees => ?_⟩
  have hdocumented := hagrees.documented
  rw [hsummary] at hdocumented
  exact absurd hdocumented (by decide)

end Yafu.Api
