import Yafu.Api.Applications
import Mathlib.Data.List.ReduceOption

/-!
# The history of an application

Reference: `internal/api/history.go`.
-/

namespace Yafu.Api

open Yafu.Auth (Policy)
open Yafu.Cluster (Time Registry)

/-- One round of the loop of `helmReleaseHistory`. -/
def helmHistoryEntry (i : ℕ) (snap : Snapshot) : Types.AppHistoryEntry where
  revision := snap.chartVersion ++ (" · v" : GoString) ++ Clock.signed snap.version
  status := snap.status
  action := snap.action
  appVersion := snap.appVersion
  current := i = 0 && snap.status = "deployed"
  timestamp :=
    if snap.lastDeployed ≠ 0 then Clock.rfc3339 snap.lastDeployed
    else if snap.firstDeployed ≠ 0 then Clock.rfc3339 snap.firstDeployed
    else []

/-- `helmReleaseHistory`. -/
def helmReleaseHistory (hr : HelmRelease) : List Types.AppHistoryEntry :=
  hr.history.zipIdx.filterMap fun (snap, i) => snap.map (helmHistoryEntry i)

/-- `kustomizationHistory`. -/
def kustomizationHistory (k : Kustomization) : List Types.AppHistoryEntry :=
  if k.lastAppliedRevision = [] then []
  else
    [{ revision := shortRevision k.lastAppliedRevision
       status := "applied"
       current := true
       timestamp :=
        if lastReconcileTime k.conditions = 0 then []
        else Clock.rfc3339 (lastReconcileTime k.conditions) }]

/-- `history` behind the checks. -/
def historyOf (rt : Runtime) (p : AppPath) (e : Entry) : Response :=
  if p.kind = "HelmRelease" ∨ p.kind = "Kustomization" then
    match getApp rt e.clients p.ns p.kind p.name with
    | .error err => writeError jsonHeaders statusNotFound err.text
    | .ok (.helmRelease hr) => { body := .history { appId := p.id, entries := helmReleaseHistory hr } }
    | .ok (.kustomization k) =>
      { body := .history
          { appId := p.id
            entries := kustomizationHistory k
            note := "Kustomizations only retain their current revision; full history requires scrubbing Events (v0.3)." } }
  else
    writeError jsonHeaders Http.statusBadRequest
      (("unsupported kind " : GoString) ++ rt.quote p.kind)

/-- `applicationsHandler.history`. -/
def history (rt : Runtime) (policy : Policy) (registry : Option (Registry Clients)) (r : Request)
    (p : AppPath) : Set Response :=
  withEntry rt policy registry r jsonHeaders p.cluster fun e => {historyOf rt p e}

/-! ## The current marker -/

/-- The status of the snapshot that runs. -/
def isDeployed (snap : Snapshot) : Bool := snap.status = "deployed"

/-- What the entries should be of the snapshots, which are newest first: one for each, in their
order, and of those the one of the newest deployed snapshot is marked. -/
structure MarksNewest (snaps : List Snapshot) (entries : List Types.AppHistoryEntry) : Prop where
  made : List.Forall₂ (fun snap e => ∃ i, e = helmHistoryEntry i snap) snaps entries
  deployed : ∀ i, snaps.findIdx? isDeployed = some i →
    ∀ j e, entries[j]? = some e → (e.current ↔ j = i)
  undeployed : (∀ snap ∈ snaps, ¬isDeployed snap) → ∀ e ∈ entries, ¬e.current

/-- The entries of what is left of the history from the index `i` on. -/
def entriesFrom (i : ℕ) (history : List (Option Snapshot)) : List Types.AppHistoryEntry :=
  (history.zipIdx i).filterMap fun (snap, i) => snap.map (helmHistoryEntry i)

theorem entriesFrom_none (i : ℕ) (history : List (Option Snapshot)) :
    entriesFrom i (none :: history) = entriesFrom (i + 1) history := rfl

theorem entriesFrom_some (i : ℕ) (snap : Snapshot) (history : List (Option Snapshot)) :
    entriesFrom i (some snap :: history) =
      helmHistoryEntry i snap :: entriesFrom (i + 1) history := rfl

theorem forall₂_entriesFrom (i : ℕ) (history : List (Option Snapshot)) :
    List.Forall₂ (fun snap e => ∃ i, e = helmHistoryEntry i snap) history.reduceOption
      (entriesFrom i history) := by
  induction history generalizing i with
  | nil => exact .nil
  | cons snap history ih =>
    cases snap with
    | none =>
      rw [List.reduceOption_cons_of_none, entriesFrom_none]
      exact ih (i + 1)
    | some snap =>
      rw [List.reduceOption_cons_of_some, entriesFrom_some]
      exact .cons ⟨i, rfl⟩ (ih (i + 1))

/-- Only the first place of the history is ever marked. -/
theorem not_current_entriesFrom {i : ℕ} (hi : 0 < i) (history : List (Option Snapshot)) :
    ∀ e ∈ entriesFrom i history, ¬e.current := by
  intro e he
  obtain ⟨⟨snap, j⟩, hmem, he⟩ := List.mem_filterMap.mp he
  have hj : i ≤ j := (List.mem_zipIdx hmem).1
  obtain ⟨s, -, rfl⟩ := Option.map_eq_some_iff.mp he
  have hne : j ≠ 0 := by omega
  simp [helmHistoryEntry, hne]

/-- A history whose first place is a deployed snapshot is marked there. -/
theorem marksNewest_cons {snap : Snapshot} (hsnap : isDeployed snap)
    (history : List (Option Snapshot)) :
    MarksNewest (some snap :: history).reduceOption (entriesFrom 0 (some snap :: history)) := by
  refine ⟨forall₂_entriesFrom 0 _, fun i hi j e he => ?_, fun hnone => ?_⟩
  · rw [List.reduceOption_cons_of_some, List.findIdx?_cons, if_pos hsnap, Option.some.injEq] at hi
    subst hi
    rw [entriesFrom_some] at he
    cases j with
    | zero =>
      rw [List.getElem?_cons_zero, Option.some.injEq] at he
      subst he
      have hcurrent : (helmHistoryEntry 0 snap).current := hsnap
      exact iff_of_true hcurrent rfl
    | succ j =>
      rw [List.getElem?_cons_succ] at he
      exact iff_of_false (not_current_entriesFrom (by omega) history e (List.mem_of_getElem? he))
        (by omega)
  · rw [List.reduceOption_cons_of_some] at hnone
    exact absurd hsnap (hnone snap (List.mem_cons_self ..))

/-- The entry of the newest deployed snapshot is the one that is marked if and only if no snapshot is
deployed, or the first place of the history is a deployed one. -/
theorem marksNewest_iff (hr : HelmRelease) :
    MarksNewest hr.history.reduceOption (helmReleaseHistory hr) ↔
      (∀ snap, some snap ∈ hr.history → ¬isDeployed snap) ∨
        ∃ snap history, hr.history = some snap :: history ∧ isDeployed snap := by
  have hentries : helmReleaseHistory hr = entriesFrom 0 hr.history := rfl
  have hmem : ∀ snap, snap ∈ hr.history.reduceOption ↔ some snap ∈ hr.history := fun snap =>
    List.reduceOption_mem_iff
  rw [hentries]
  by_cases hhead : ∃ snap history, hr.history = some snap :: history ∧ isDeployed snap
  · obtain ⟨snap, history, heq, hsnap⟩ := hhead
    rw [heq]
    exact iff_of_true (marksNewest_cons hsnap history) (.inr ⟨snap, history, rfl, hsnap⟩)
  · -- no entry is marked
    have hunmarked : ∀ e ∈ entriesFrom 0 hr.history, ¬e.current := by
      cases hhist : hr.history with
      | nil => exact fun e he => absurd he List.not_mem_nil
      | cons first history =>
        cases first with
        | none => exact not_current_entriesFrom Nat.one_pos history
        | some snap =>
          have hsnap : ¬isDeployed snap := fun h => hhead ⟨snap, history, hhist, h⟩
          rw [entriesFrom_some]
          refine List.forall_mem_cons.mpr ⟨hsnap, not_current_entriesFrom Nat.one_pos history⟩
    constructor
    · intro hmarks
      refine .inl fun snap hsnap hdep => ?_
      obtain ⟨i, hi⟩ := Option.isSome_iff_exists.mp (show
        (hr.history.reduceOption.findIdx? isDeployed).isSome by
          rw [List.findIdx?_isSome]
          exact List.any_eq_true.mpr ⟨snap, (hmem snap).mpr hsnap, hdep⟩)
      have hlt : i < (entriesFrom 0 hr.history).length := by
        rw [← hmarks.made.length_eq]
        exact (List.findIdx?_eq_some_iff_findIdx_eq.mp hi).1
      exact hunmarked _ (List.getElem_mem hlt)
        ((hmarks.deployed i hi i _ (List.getElem?_eq_getElem hlt)).mpr rfl)
    · rintro (hnone | hdep)
      · refine ⟨forall₂_entriesFrom 0 _, fun i hi => ?_, fun _ => hunmarked⟩
        obtain ⟨snap, hsnap, hdep⟩ := List.any_eq_true.mp
          ((List.findIdx?_isSome (p := isDeployed)).symm.trans (Option.isSome_of_mem hi))
        exact absurd hdep (hnone snap ((hmem snap).mp hsnap))
      · exact absurd hdep hhead

/-- A release whose last upgrade failed. -/
def failedUpgrade : HelmRelease where
  «namespace» := "observability"
  name := "monitoring"
  history := [
    some { name := "monitoring", version := 3, «namespace» := "observability", status := "failed" },
    some { name := "monitoring", version := 2, «namespace» := "observability", status := "deployed" }]
  unstructured := .error []

/-- The snapshot that runs is not marked after a failed upgrade. -/
theorem not_marksNewest_failedUpgrade :
    (helmReleaseHistory failedUpgrade).map (·.current) = [false, false] ∧
      ¬MarksNewest failedUpgrade.history.reduceOption (helmReleaseHistory failedUpgrade) := by
  refine ⟨by decide +kernel, fun hmarks => ?_⟩
  have hfind : failedUpgrade.history.reduceOption.findIdx? isDeployed = some 1 := by decide +kernel
  have hcurrent := hmarks.deployed 1 hfind 1 _ rfl
  exact absurd (hcurrent.mpr rfl) (by decide +kernel)

end Yafu.Api
