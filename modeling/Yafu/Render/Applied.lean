import Yafu.Render.Diff
import Yafu.Render.Manifest
import Mathlib.Data.List.Perm.Basic

/-!
# Diffing what was just applied

What the two pipelines that feed `diffResources` share: an object is looked up under its stamped
key, Flux applied it under `appliedKey`, and the inventory remembers it under a third one. A diff is
clean if the first two lookups find the same object and the third key is one of the rendered ones.
-/

namespace Yafu.Render

/-- No row says that something is extra on the cluster, or missing from it. -/
def Clean (rows : List RenderResource) : Prop :=
  ∀ r ∈ rows, r.status ≠ "extra-on-cluster" ∧ r.status ≠ "missing-on-cluster"

/-- A diff is clean if and only if no rendered object is gone from the cluster, and everything else
in the inventory is. -/
theorem clean_diffResources_iff (sort : SortSlice rowLess) (env : Env) (opts : DiffOptions) :
    Clean (diffResources sort env opts) ↔
      (∀ want ∈ opts.rendered, env.gone (keyOf want) = false) ∧
        ∀ k ∈ opts.unrendered, env.gone k := by
  have hmem := fun r => (perm_diffResources sort env opts).mem_iff (a := r)
  simp only [List.mem_append, List.mem_map, List.mem_filterMap] at hmem
  constructor
  · intro hclean
    refine ⟨fun want hwant => ?_, fun k hk => ?_⟩
    · by_contra hgone
      rw [Bool.not_eq_false] at hgone
      have hrow := hclean _ ((hmem _).mpr (Or.inl ⟨want, hwant, rfl⟩))
      exact hrow.2 (verdict_of_gone hgone want).1
    · rw [← extraRow_eq_none_iff]
      by_contra hrow
      obtain ⟨r, hr⟩ := Option.ne_none_iff_exists'.mp hrow
      exact (hclean r ((hmem r).mpr (Or.inr ⟨k, hk, hr⟩))).1 (status_of_extraRow hr).1
  · rintro ⟨hwants, hks⟩ r hr
    rcases (hmem r).mp hr with ⟨want, hwant, rfl⟩ | ⟨k, hk, hrow⟩
    · have hverdicts : ∀ v ∈ verdicts, v.1 ≠ "extra-on-cluster" ∧ v.1 ≠ "missing-on-cluster" := by
        decide
      exact hverdicts _ (verdict_classifyOne (hwants want hwant) want)
    · rw [(extraRow_eq_none_iff env k).mpr (hks k hk)] at hrow
      cases hrow

/-! ## Stamped and applied keys -/

/-- The key under which a stamped object is looked up. -/
def stampedKey (defaultNs : GoString) (o : Object) : ResourceKey :=
  ⟨o.groupVersionKind, stampedNs defaultNs o, o.getName⟩

theorem keyOf_stampNamespace (defaultNs : GoString) {o : Object} (h : o.getName ≠ []) :
    keyOf (stampNamespace defaultNs o) = stampedKey defaultNs o := by
  simp only [keyOf, stampedKey, Object.groupVersionKind, getKind_stampNamespace,
    getAPIVersion_stampNamespace, getName_stampNamespace,
    getNamespace_stampNamespace defaultNs h]

/-- The namespace an object is applied in: its own or the default one, none if its kind is not
namespaced. -/
def appliedNs (namespaced : GroupVersionKind → Bool) (defaultNs : GoString) (o : Object) : GoString :=
  if namespaced o.groupVersionKind then
    if o.getNamespace = [] then defaultNs else o.getNamespace
  else []

/-- The key under which Flux applies an object. -/
def appliedKey (namespaced : GroupVersionKind → Bool) (defaultNs : GoString) (o : Object) :
    ResourceKey :=
  ⟨o.groupVersionKind, appliedNs namespaced defaultNs o, o.getName⟩

/-- A cluster on which the objects were applied. -/
structure AppliedTo (env : Env) (namespaced : GroupVersionKind → Bool) (defaultNs : GoString)
    (objs : List Object) : Prop where
  named : ∀ o ∈ objs, o.getName ≠ []
  present : ∀ o ∈ objs, ∃ live, env.getLive (appliedKey namespaced defaultNs o) = .found live
  /-- A `GET` of a kind that is not namespaced ignores the namespace. -/
  ignoresNs : ∀ k, namespaced k.gvk = false → env.getLive k = env.getLive { k with ns := [] }

/-- A namespaced object that is not stamped, as its kind has the name of a cluster-scoped one. -/
def Unstamped (namespaced : GroupVersionKind → Bool) (defaultNs : GoString) (o : Object) : Prop :=
  namespaced o.groupVersionKind ∧ isClusterScoped o.getKind ∧ o.getNamespace = [] ∧ defaultNs ≠ []

section Keys

variable {env : Env} {namespaced : GroupVersionKind → Bool} {defaultNs : GoString}
  {objs : List Object} {o : Object}

theorem Env.gone_of_found {k : ResourceKey} {live : Object} (h : env.getLive k = .found live) :
    env.gone k = false := by
  rw [Env.gone, h]

/-- Whatever namespace a cluster-scoped kind is asked for in, the applied object is there; a
namespaced one is there in the namespace it was applied in. -/
theorem AppliedTo.not_gone (h : AppliedTo env namespaced defaultNs objs) (ho : o ∈ objs)
    {ns : GoString} (hns : namespaced o.groupVersionKind → ns = appliedNs namespaced defaultNs o) :
    env.gone ⟨o.groupVersionKind, ns, o.getName⟩ = false := by
  obtain ⟨live, hlive⟩ := h.present o ho
  cases hscope : namespaced o.groupVersionKind with
  | true =>
    rw [hns hscope]
    exact Env.gone_of_found hlive
  | false =>
    have hempty : appliedNs namespaced defaultNs o = [] := by simp [appliedNs, hscope]
    rw [appliedKey, hempty] at hlive
    exact Env.gone_of_found ((h.ignoresNs ⟨o.groupVersionKind, ns, o.getName⟩ hscope).trans hlive)

theorem stampedNs_eq_appliedNs (hscope : namespaced o.groupVersionKind)
    (h : ¬Unstamped namespaced defaultNs o) :
    stampedNs defaultNs o = appliedNs namespaced defaultNs o := by
  simp only [Unstamped, not_and] at h
  rw [stampedNs, appliedNs, if_pos hscope]
  by_cases hns : o.getNamespace = []
  · by_cases hlisted : isClusterScoped o.getKind
    · rw [if_pos (Or.inl hlisted), if_pos hns, hns]
      exact (not_ne_iff.mp (h hscope hlisted hns)).symm
    · rw [if_neg (by simp [hlisted, hns]), if_pos hns]
  · rw [if_pos (Or.inr hns), if_neg hns]

/-- Of what was applied, only an unstamped object can be gone under its stamped key. -/
theorem AppliedTo.stamped_not_gone (h : AppliedTo env namespaced defaultNs objs) (ho : o ∈ objs)
    (hun : ¬Unstamped namespaced defaultNs o) : env.gone (stampedKey defaultNs o) = false :=
  h.not_gone ho fun hscope => stampedNs_eq_appliedNs hscope hun

/-- An unstamped object is looked up without a namespace. -/
theorem stampedKey_of_unstamped (h : Unstamped namespaced defaultNs o) :
    stampedKey defaultNs o = ⟨o.groupVersionKind, [], o.getName⟩ := by
  rw [stampedKey, stampedNs, if_pos (Or.inl h.2.1), h.2.2.1]

end Keys

end Yafu.Render
