import Yafu.Render.Diff
import Mathlib.Data.List.Perm.Basic

/-!
# What the rows of a diff cover

Reference: the comments on `keyOf` and `DiffResources` in `internal/render/diff.go`.

A resource is named by group, kind, namespace and name; the API version does not matter. The second
pass of `diffResources` compares whole keys, takes every inventory entry anew and reports an entry
whose lookup failed as one to be deleted. `sound_iff_settled` says for which inputs none of this
shows.
-/

namespace Yafu.Render

/-- A resource, whatever the API version. -/
structure Identity where
  group : GoString
  kind : GoString
  ns : GoString
  name : GoString
deriving DecidableEq, Repr

def ResourceKey.identity (k : ResourceKey) : Identity := ⟨k.gvk.group, k.gvk.kind, k.ns, k.nm⟩

def RenderResource.identity (r : RenderResource) : Identity := ⟨r.group, r.kind, r.ns, r.name⟩

/-- The key a row was made for. -/
def RenderResource.key (r : RenderResource) : ResourceKey := ⟨⟨r.group, r.version, r.kind⟩, r.ns, r.name⟩

/-- The row says that Flux would delete the resource. -/
def RenderResource.SaysDelete (r : RenderResource) : Prop :=
  r.status = "extra-on-cluster" ∨ r.reconcileWould = "delete"

/-- Whether the lookup finds an object. -/
def Env.found (env : Env) (k : ResourceKey) : Bool :=
  match env.getLive k with
  | .found _ => true
  | _ => false

/-- Some rendered object denotes the resource. -/
def DiffOptions.Denoted (opts : DiffOptions) (i : Identity) : Prop :=
  ∃ want ∈ opts.rendered, (keyOf want).identity = i

/-- Soundness and coverage of a list of rows: one row for each rendered object, under the group, kind,
namespace and name of the object, at most one for each resource of the inventory that no rendered
object denotes, none besides; and no row says that a resource would be deleted unless it was found and
is not denoted. -/
structure Sound (env : Env) (opts : DiffOptions) (rows : List RenderResource) : Prop where
  covers : ∃ wanted extras : List RenderResource,
    rows.Perm (wanted ++ extras) ∧
      wanted = opts.rendered.map (fun want => classifyOne env want (keyOf want)) ∧
      wanted.map RenderResource.key = opts.rendered.map keyOf ∧
      (extras.map RenderResource.identity).Nodup ∧
      ∀ r ∈ extras, r.identity ∈ opts.inventory.map ResourceKey.identity ∧
        ¬opts.Denoted r.identity
  deletes : ∀ r ∈ rows, r.SaysDelete → env.found r.key ∧ ¬opts.Denoted r.identity

/-- Of the inventory entries whose key was not rendered, the lookup of none failed, those found are
not rendered in another version, and no two of them are the same resource. -/
structure Settled (env : Env) (opts : DiffOptions) : Prop where
  answered : ∀ k ∈ opts.unrendered, ∀ err, env.getLive k ≠ .failed err
  undenoted : ∀ k ∈ opts.unrendered, env.found k → ¬opts.Denoted k.identity
  once : ((opts.unrendered.filter env.found).map ResourceKey.identity).Nodup

/-! ## The rows of the two passes -/

/-- A row is made under the key it was asked for. -/
@[simp]
theorem key_classifyOne (env : Env) (want : Object) (k : ResourceKey) :
    (classifyOne env want k).key = k := by
  simp only [classifyOne]
  split
  · rfl
  · rfl
  · split
    · split <;> rfl
    · rfl

theorem not_saysDelete_classifyOne (env : Env) (want : Object) (k : ResourceKey) :
    ¬(classifyOne env want k).SaysDelete := by
  have hverdicts : ∀ v ∈ verdicts, ¬(v.1 = "extra-on-cluster" ∨ v.2 = "delete") := by decide
  cases hgone : env.gone k with
  | true =>
    obtain ⟨hstatus, hwould⟩ := verdict_of_gone hgone want
    rw [RenderResource.SaysDelete, hstatus, hwould]
    decide
  | false => exact hverdicts _ (verdict_classifyOne hgone want)

theorem extraRow_eq_some {env : Env} {k : ResourceKey} {r : RenderResource}
    (h : extraRow env k = some r) : r.key = k ∧ r.identity = k.identity ∧ r.SaysDelete := by
  have htells : r.SaysDelete := Or.inl (status_of_extraRow h).1
  simp only [extraRow] at h
  split at h <;> cases h <;> exact ⟨rfl, rfl, htells⟩

theorem extraRow_of_found {env : Env} {k : ResourceKey} (h : env.found k) :
    ∃ r, extraRow env k = some r := by
  simp only [Env.found] at h
  split at h
  · rename_i o ho
    exact ⟨_, by rw [extraRow, ho]⟩
  · cases h

theorem extraRow_of_failed {env : Env} {k : ResourceKey} {err : GoString}
    (h : env.getLive k = .failed err) : ∃ r, extraRow env k = some r :=
  ⟨_, by rw [extraRow, h]⟩

/-- Where no lookup failed, the second pass reports exactly what was found. -/
theorem identity_extraRows {env : Env} {ks : List ResourceKey}
    (h : ∀ k ∈ ks, ∀ err, env.getLive k ≠ .failed err) :
    (ks.filterMap (extraRow env)).map RenderResource.identity =
      (ks.filter env.found).map ResourceKey.identity := by
  induction ks with
  | nil => rfl
  | cons k ks ih =>
    rw [List.forall_mem_cons] at h
    have hks := ih h.2
    cases hk : env.getLive k with
    | failed err => exact absurd hk (h.1 err)
    | notFound err =>
      have hrow : extraRow env k = none := by simp only [extraRow, hk]
      have hfound : env.found k = false := by simp only [Env.found, hk]
      rw [List.filterMap_cons_none hrow, List.filter_cons_of_neg (by simp [hfound]), hks]
    | found o =>
      have hfound : env.found k = true := by simp only [Env.found, hk]
      obtain ⟨r, hr⟩ := extraRow_of_found hfound
      rw [List.filterMap_cons_some hr, List.filter_cons_of_pos hfound, List.map_cons, List.map_cons,
        hks, (extraRow_eq_some hr).2.1]

/-! ## The condition is exact -/

section Exact

variable {sort : SortSlice rowLess} {env : Env} {opts : DiffOptions}

theorem mem_diffResources_of_extraRow {k : ResourceKey} {r : RenderResource}
    (hk : k ∈ opts.unrendered) (hr : extraRow env k = some r) : r ∈ diffResources sort env opts :=
  (perm_diffResources sort env opts).mem_iff.mpr (List.mem_append_right _ (List.mem_filterMap.mpr ⟨k, hk, hr⟩))

theorem Sound.settled (h : Sound env opts (diffResources sort env opts)) : Settled env opts := by
  have hanswered : ∀ k ∈ opts.unrendered, ∀ err, env.getLive k ≠ .failed err := by
    intro k hk err hfailed
    obtain ⟨r, hr⟩ := extraRow_of_failed hfailed
    obtain ⟨hkey, -, htells⟩ := extraRow_eq_some hr
    have hfound := (h.deletes r (mem_diffResources_of_extraRow hk hr) htells).1
    rw [hkey] at hfound
    simp [Env.found, hfailed] at hfound
  refine ⟨hanswered, fun k hk hfound => ?_, ?_⟩
  · obtain ⟨r, hr⟩ := extraRow_of_found hfound
    obtain ⟨-, hid, htells⟩ := extraRow_eq_some hr
    have hnot := (h.deletes r (mem_diffResources_of_extraRow hk hr) htells).2
    rwa [hid] at hnot
  · obtain ⟨_, extras, hperm, rfl, -, hnodup, -⟩ := h.covers
    have hsame : extras.Perm (opts.unrendered.filterMap (extraRow env)) :=
      (List.perm_append_left_iff _).mp (hperm.symm.trans (perm_diffResources sort env opts))
    rw [← identity_extraRows hanswered]
    exact (hsame.map _).nodup_iff.mp hnodup

theorem Settled.sound (h : Settled env opts) : Sound env opts (diffResources sort env opts) := by
  -- an inventory entry with a row was found, as no lookup failed
  have hextra : ∀ r ∈ opts.unrendered.filterMap (extraRow env),
      env.found r.key ∧ r.identity ∈ opts.inventory.map ResourceKey.identity ∧
        ¬opts.Denoted r.identity := by
    intro r hr
    obtain ⟨k, hk, hrow⟩ := List.mem_filterMap.mp hr
    obtain ⟨hkey, hid, -⟩ := extraRow_eq_some hrow
    have hfound : env.found k := by
      cases hlive : env.getLive k with
      | found o => simp only [Env.found, hlive]
      | failed err => exact absurd hlive (h.answered k hk err)
      | notFound err => simp [extraRow, hlive] at hrow
    rw [hkey, hid]
    exact ⟨hfound, List.mem_map_of_mem (List.mem_of_mem_filter hk), h.undenoted k hk hfound⟩
  constructor
  · refine ⟨_, _, perm_diffResources sort env opts, rfl, ?_, ?_, fun r hr => (hextra r hr).2⟩
    · simp only [List.map_map, Function.comp_def, key_classifyOne]
    · rw [identity_extraRows h.answered]
      exact h.once
  · intro r hr htells
    rcases List.mem_append.mp ((perm_diffResources sort env opts).mem_iff.mp hr) with hr | hr
    · obtain ⟨want, -, rfl⟩ := List.mem_map.mp hr
      exact absurd htells (not_saysDelete_classifyOne env want _)
    · exact ⟨(hextra r hr).1, (hextra r hr).2.2⟩

end Exact

/-- **Soundness and coverage of the diff.** For every list of rendered objects, every inventory and
every lookup, the rows are sound if and only if the inventory is settled. -/
theorem sound_iff_settled (sort : SortSlice rowLess) (env : Env) (opts : DiffOptions) :
    Sound env opts (diffResources sort env opts) ↔ Settled env opts :=
  ⟨Sound.settled, Settled.sound⟩

/-! ### Rows that should not be there -/

/-- A horizontal pod autoscaler under the API version `version`. -/
def autoscaler (version : GoString) : ResourceKey :=
  ⟨⟨"autoscaling", version, "HorizontalPodAutoscaler"⟩, [], "web"⟩

/-- A cluster that answers every lookup in the same way. -/
def answering (live : Live) : Env := ⟨fun _ => live, fun _ => .ok [], fun _ _ => []⟩

/-- A resource rendered in another version than the inventory has, a lookup that timed out, and an
entry that the inventory has twice. -/
theorem not_sound_diffResources :
    (let env := answering (.found [])
     let opts : DiffOptions :=
       ⟨[bareObject "autoscaling/v2" "HorizontalPodAutoscaler" "web"], [autoscaler "v1"]⟩
     ¬Sound env opts (diffResources rowSort env opts)) ∧
    (let env := answering (.failed "timeout")
     let opts : DiffOptions := ⟨[], [autoscaler "v1"]⟩
     ¬Sound env opts (diffResources rowSort env opts)) ∧
    (let env := answering (.found [])
     let opts : DiffOptions := ⟨[], [autoscaler "v1", autoscaler "v1"]⟩
     ¬Sound env opts (diffResources rowSort env opts)) := by
  refine ⟨fun h => ?_, fun h => ?_, fun h => ?_⟩
  · refine h.settled.undenoted (autoscaler "v1") (by decide) rfl ⟨_, .head _, ?_⟩
    decide
  · exact h.settled.answered (autoscaler "v1") (by decide) "timeout" rfl
  · exact absurd h.settled.once (by decide)

end Yafu.Render
