import Yafu.Api.Types
import Yafu.Lib.Transition
import Mathlib.Data.Finset.SDiff
import Mathlib.Data.Finset.Union
import Mathlib.Data.List.Infix

/-!
# The selection of the applications page

Reference: `web/src/pages/Apps.tsx`, and `useReconcileAllApps` in `web/src/lib/queries.ts`.

The selection is a set of row ids that outlives the filter and the data, while the boxes and the
button are about the rows that pass the filter. A bulk reconcile is in flight until it has succeeded
or failed; the button is disabled meanwhile, everything else is not. `toLowerCase` is the parameter
`toLower`.
-/

namespace Yafu.Web.Selection

open Transition
open Yafu.Api.Types (Application)

structure FilterState where
  status : GoString := "all"
  kind : GoString := "all"
  cluster : GoString := "all"
deriving DecidableEq, Repr

/-- The state of `AppsPage`; `pending` has the rows of the bulk reconcile in flight. -/
structure AppsPage where
  apps : List Application := []
  filter : FilterState := {}
  q : GoString := []
  selected : Finset GoString := ∅
  pending : Option (List Application) := none
deriving DecidableEq

section Page

variable (toLower : GoString → GoString)

/-- Whether a row passes the filter. -/
def passes (filter : FilterState) (q : GoString) (a : Application) : Bool :=
  (filter.status = "all" || a.status = filter.status) &&
    (filter.kind = "all" || a.kind = filter.kind) &&
    (filter.cluster = "all" || a.clusterId = filter.cluster) &&
    (q = [] || toLower q <:+:
      toLower (a.name ++ (" " : GoString) ++ a.ns ++ (" " : GoString) ++ a.cluster))

def AppsPage.filtered (s : AppsPage) : List Application := s.apps.filter (passes toLower s.filter s.q)

def AppsPage.visibleSelected (s : AppsPage) : List Application :=
  (s.filtered toLower).filter (·.id ∈ s.selected)

def AppsPage.allVisibleSelected (s : AppsPage) : Bool :=
  0 < (s.filtered toLower).length &&
    (s.visibleSelected toLower).length = (s.filtered toLower).length

/-- The ids of the rows that pass the filter. -/
def AppsPage.visibleIds (s : AppsPage) : Finset GoString :=
  ((s.filtered toLower).map Application.id).toFinset

def AppsPage.toggleOne (s : AppsPage) (id : GoString) : AppsPage :=
  { s with selected := if id ∈ s.selected then s.selected.erase id else insert id s.selected }

def AppsPage.toggleAll (s : AppsPage) : AppsPage :=
  { s with selected :=
      if s.allVisibleSelected toLower then s.selected \ s.visibleIds toLower
      else s.selected ∪ s.visibleIds toLower }

inductive Move
  /-- The box of a row. -/
  | toggleOne (id : GoString)
  /-- The box of the header. -/
  | toggleAll
  | setFilter (filter : FilterState)
  | setQ (q : GoString)
  /-- The query has an answer. -/
  | refresh (apps : List Application)
  /-- The button. -/
  | reconcileSelected
  /-- Every request of the bulk reconcile has succeeded. -/
  | success
  /-- Every request has an answer and some have failed. -/
  | failure

/-- There is a box for each row that is shown and one in the header of a table with rows, and the
button needs a selected row and no request in flight. -/
def step (s : AppsPage) : Move → Option AppsPage
  | .toggleOne id => if id ∈ s.visibleIds toLower then some (s.toggleOne id) else none
  | .toggleAll => if 0 < (s.filtered toLower).length then some (s.toggleAll toLower) else none
  | .setFilter filter => some { s with filter }
  | .setQ q => some { s with q }
  | .refresh apps => some { s with apps }
  | .reconcileSelected =>
    if s.visibleSelected toLower = [] ∨ s.pending.isSome then none
    else some { s with pending := some (s.visibleSelected toLower) }
  | .success => s.pending.map fun _ => { s with selected := ∅, pending := none }
  | .failure => s.pending.map fun _ => { s with pending := none }

/-- The rows for which a step sends a request. -/
def requests (s : AppsPage) : Move → List Application
  | .reconcileSelected => s.visibleSelected toLower
  | _ => []

/-! ## What a step may change -/

/-- The rows that a step is about. -/
def touched (s : AppsPage) : Move → Finset GoString
  | .toggleOne id => {id}
  | .toggleAll => s.visibleIds toLower
  | .success | .failure => ((s.pending.getD []).map Application.id).toFinset
  | _ => ∅

/-- All rows that are shown are selected, or none. -/
def AppsPage.Uniform (s : AppsPage) : Prop :=
  s.visibleIds toLower ⊆ s.selected ∨ Disjoint (s.visibleIds toLower) s.selected

structure Faithful (s : AppsPage) (m : Move) : Prop where
  /-- The selection changes only for the rows that the step is about. -/
  frame : ∀ s', step toLower s m = some s' → ∀ id, id ∉ touched toLower s m →
    (id ∈ s'.selected ↔ id ∈ s.selected)
  /-- Toggling all twice restores a uniform selection. -/
  twice : s.Uniform toLower → ∀ s' s'', step toLower s .toggleAll = some s' →
    step toLower s' .toggleAll = some s'' → s''.selected = s.selected
  /-- A bulk reconcile goes to the rows that are selected and shown, once each. -/
  sent : ∀ s', step toLower s m = some s' → m = .reconcileSelected → ∀ a,
    (requests toLower s m).count a =
      if passes toLower s.filter s.q a ∧ a.id ∈ s.selected then s.apps.count a else 0

/-- When a bulk reconcile has succeeded, nothing is selected but its rows. -/
def Completes (s : AppsPage) : Move → Prop
  | .success => ∀ rows, s.pending = some rows → ∀ id ∈ s.selected, id ∈ rows.map Application.id
  | _ => True

variable {toLower}

theorem allVisibleSelected_iff (s : AppsPage) (h : 0 < (s.filtered toLower).length) :
    s.allVisibleSelected toLower = true ↔ s.visibleIds toLower ⊆ s.selected := by
  rw [AppsPage.allVisibleSelected, decide_eq_true h, Bool.true_and, decide_eq_true_iff,
    AppsPage.visibleSelected, List.length_filter_eq_length_iff]
  constructor
  · intro hall id hid
    obtain ⟨a, ha, rfl⟩ := List.mem_map.mp (List.mem_toFinset.mp hid)
    exact of_decide_eq_true (hall a ha)
  · intro hsub a ha
    exact decide_eq_true (hsub (List.mem_toFinset.mpr (List.mem_map_of_mem ha)))

/-- The rows that are shown do not depend on the selection. -/
theorem visibleIds_toggleAll (s : AppsPage) :
    (s.toggleAll toLower).visibleIds toLower = s.visibleIds toLower := rfl

theorem selected_toggleAll (s : AppsPage) (h : 0 < (s.filtered toLower).length) :
    (s.toggleAll toLower).selected =
      if s.visibleIds toLower ⊆ s.selected then s.selected \ s.visibleIds toLower
      else s.selected ∪ s.visibleIds toLower := by
  simp only [AppsPage.toggleAll, allVisibleSelected_iff s h]

theorem visibleIds_nonempty {s : AppsPage} (h : 0 < (s.filtered toLower).length) :
    (s.visibleIds toLower).Nonempty := by
  rw [AppsPage.visibleIds, List.toFinset_nonempty_iff, ne_eq, List.map_eq_nil_iff]
  exact List.ne_nil_of_length_pos h

theorem toggleAll_toggleAll {s : AppsPage} (h : 0 < (s.filtered toLower).length)
    (huniform : s.Uniform toLower) :
    ((s.toggleAll toLower).toggleAll toLower).selected = s.selected := by
  rw [selected_toggleAll (s.toggleAll toLower) h, visibleIds_toggleAll, selected_toggleAll s h]
  rcases huniform with hall | hnone
  · -- all shown rows are cleared, and then selected again
    have hcleared : ¬ s.visibleIds toLower ⊆ s.selected \ s.visibleIds toLower := by
      intro hsub
      obtain ⟨id, hid⟩ := visibleIds_nonempty h
      exact (Finset.mem_sdiff.mp (hsub hid)).2 hid
    rw [if_pos hall, if_neg hcleared, Finset.sdiff_union_of_subset hall]
  · have hsome : ¬ s.visibleIds toLower ⊆ s.selected := by
      intro hsub
      obtain ⟨id, hid⟩ := visibleIds_nonempty h
      exact Finset.disjoint_left.mp hnone hid (hsub hid)
    rw [if_neg hsome, if_pos Finset.subset_union_right, Finset.union_sdiff_cancel_right hnone.symm]

theorem mem_toggleOne {s : AppsPage} {id other : GoString} (h : other ≠ id) :
    other ∈ (s.toggleOne id).selected ↔ other ∈ s.selected := by
  rw [AppsPage.toggleOne]
  split_ifs
  · rw [Finset.mem_erase, and_iff_right h]
  · rw [Finset.mem_insert, or_iff_right h]

theorem mem_toggleAll {s : AppsPage} {id : GoString} (h : id ∉ s.visibleIds toLower) :
    id ∈ (s.toggleAll toLower).selected ↔ id ∈ s.selected := by
  rw [AppsPage.toggleAll]
  split_ifs
  · rw [Finset.mem_sdiff, and_iff_left h]
  · rw [Finset.mem_union, or_iff_left h]

theorem count_visibleSelected (s : AppsPage) (a : Application) :
    (s.visibleSelected toLower).count a =
      if passes toLower s.filter s.q a ∧ a.id ∈ s.selected then s.apps.count a else 0 := by
  rw [AppsPage.visibleSelected, AppsPage.filtered, List.filter_filter]
  by_cases ha : passes toLower s.filter s.q a = true ∧ a.id ∈ s.selected
  · rw [if_pos ha, List.count_filter]
    rw [Bool.and_eq_true, decide_eq_true_iff]
    exact ⟨ha.2, ha.1⟩
  · rw [if_neg ha, List.count_eq_zero, List.mem_filter, Bool.and_eq_true, decide_eq_true_iff]
    exact fun hmem => ha ⟨hmem.2.2, hmem.2.1⟩

/-! ## One step -/

/-- Only the success of a bulk reconcile can change more than it should. -/
theorem frame_of_ne_success {s s' : AppsPage} {m : Move} (hm : m ≠ .success)
    (h : step toLower s m = some s') {id : GoString} (hid : id ∉ touched toLower s m) :
    id ∈ s'.selected ↔ id ∈ s.selected := by
  cases m with
  | toggleOne other =>
    rw [step] at h
    split_ifs at h with hvisible
    obtain rfl := Option.some.inj h
    exact mem_toggleOne (by simpa [touched] using hid)
  | toggleAll =>
    rw [step] at h
    split_ifs at h with hrows
    obtain rfl := Option.some.inj h
    exact mem_toggleAll hid
  | setFilter filter => exact Option.some.inj h ▸ Iff.rfl
  | setQ q => exact Option.some.inj h ▸ Iff.rfl
  | refresh apps => exact Option.some.inj h ▸ Iff.rfl
  | reconcileSelected =>
    rw [step] at h
    split_ifs at h with hdisabled
    exact Option.some.inj h ▸ Iff.rfl
  | success => exact absurd rfl hm
  | failure =>
    obtain ⟨rows, -, rfl⟩ := Option.map_eq_some_iff.mp h
    exact Iff.rfl

/-- A success clears the whole selection. -/
theorem frame_success_iff (s : AppsPage) :
    (∀ s', step toLower s .success = some s' → ∀ id, id ∉ touched toLower s .success →
      (id ∈ s'.selected ↔ id ∈ s.selected)) ↔ Completes s .success := by
  constructor
  · intro hframe rows hrows id hid
    by_contra hnot
    have hstep : step toLower s .success = some { s with selected := ∅, pending := none } := by
      rw [step, hrows, Option.map_some]
    have htouched : id ∉ touched toLower s .success := by
      rw [touched, hrows, Option.getD_some, List.mem_toFinset]
      exact hnot
    exact absurd ((hframe _ hstep id htouched).mpr hid) (Finset.notMem_empty id)
  · intro hcompletes s' hs' id hid
    obtain ⟨rows, hrows, rfl⟩ := Option.map_eq_some_iff.mp hs'
    rw [touched, hrows, Option.getD_some, List.mem_toFinset] at hid
    exact iff_of_false (Finset.notMem_empty id) fun hmem => hid (hcompletes rows hrows id hmem)

theorem faithful_iff (s : AppsPage) (m : Move) : Faithful toLower s m ↔ Completes s m := by
  have htwice : s.Uniform toLower → ∀ s' s'', step toLower s .toggleAll = some s' →
      step toLower s' .toggleAll = some s'' → s''.selected = s.selected := by
    intro huniform s' s'' hs' hs''
    rw [step] at hs' hs''
    split_ifs at hs' with hrows
    obtain rfl := Option.some.inj hs'
    have hrows' : 0 < ((s.toggleAll toLower).filtered toLower).length := hrows
    rw [if_pos hrows'] at hs''
    obtain rfl := Option.some.inj hs''
    exact toggleAll_toggleAll hrows huniform
  have hsent : ∀ s', step toLower s m = some s' → m = .reconcileSelected → ∀ a,
      (requests toLower s m).count a =
        if passes toLower s.filter s.q a ∧ a.id ∈ s.selected then s.apps.count a else 0 := by
    rintro s' - rfl a
    exact count_visibleSelected s a
  have hframe : (∀ s', step toLower s m = some s' → ∀ id, id ∉ touched toLower s m →
      (id ∈ s'.selected ↔ id ∈ s.selected)) ↔ Completes s m := by
    by_cases hm : m = .success
    · subst hm
      exact frame_success_iff s
    · refine iff_of_true (fun s' hs' id hid => frame_of_ne_success hm hs' hid) ?_
      cases m <;> trivial
  constructor
  · intro h
    exact hframe.mp h.frame
  · intro h
    exact ⟨hframe.mpr h, htwice, hsent⟩

/-! ## Whole runs -/

/-- Every step of a run is faithful exactly if each bulk reconcile that succeeds in it finds nothing
selected but its rows. -/
theorem along_faithful_iff (moves : List Move) :
    Along (step toLower) (Faithful toLower) {} moves ↔ Along (step toLower) Completes {} moves :=
  along_congr (fun _ _ _ _ _ => trivial) (fun s m _ => faithful_iff s m) trivial

end Page

/-! ## A row that is hidden -/

/-- A Kustomization of this cluster. -/
def app (clusterId : GoString) : Application where
  id := clusterId ++ ("/flux-system/Kustomization/apps" : GoString)
  name := "apps"
  kind := "Kustomization"
  ns := "flux-system"
  cluster := clusterId
  clusterId := clusterId
  status := "healthy"
  sync := "Synced"
  source := []
  revision := []
  age := "1m"
  message := []
  suspended := false

def hiddenMoves : List Move :=
  [.refresh [app "dev", app "prod"], .toggleAll, .setFilter { cluster := "dev" }, .reconcileSelected]

/-- Both rows are selected, the filter hides one, and the reconcile of the other clears both. -/
theorem not_faithful_hidden :
    ∃ s s', run (step GoString.asciiLower) {} hiddenMoves = some s ∧ s.pending = some [app "dev"] ∧
      (app "prod").id ∈ s.selected ∧ step GoString.asciiLower s .success = some s' ∧
      (app "prod").id ∉ s'.selected ∧ ¬ Faithful GoString.asciiLower s .success := by
  let s : AppsPage := {
    apps := [app "dev", app "prod"]
    filter := { cluster := "dev" }
    selected := {(app "dev").id, (app "prod").id}
    pending := some [app "dev"] }
  have hselected : (app "prod").id ∈ s.selected := by decide +kernel
  refine ⟨s, { s with selected := ∅, pending := none }, by decide +kernel, rfl, hselected, rfl,
    Finset.notMem_empty _, fun h => ?_⟩
  have hrow := (h.frame _ rfl (app "prod").id (by decide +kernel)).mpr hselected
  exact absurd hrow (Finset.notMem_empty _)

end Yafu.Web.Selection
