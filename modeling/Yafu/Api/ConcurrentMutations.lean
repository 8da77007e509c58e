import Yafu.Api.Mutations
import Yafu.Lib.Linearize
import Yafu.Lib.Transition

/-!
# Concurrent mutations of one object

Reference: the actions of `reconcile`, `suspend` and `resume` in `internal/api/mutations.go` and its
siblings.

An action gets an object, changes it and sends the merge patch between the two; neither step locks
the object. `step` interleaves the steps of any number of requests on one object with the writes of
others. The API server applies a patch to the object as it is then.

A patch says nothing about fields that its verb does not change, and it is empty if the change is
none (`patch_cases`). So a request that patches takes effect with its patch, and one with an empty
patch at its `Get`, where the object was already as it should be.
-/

namespace Yafu.Api

open FluxObject
open Linearize (Done Linearizes Seen)

namespace ConcurrentMutations

/-! ## The object -/

/-- A request, with its clock reading. -/
structure Op where
  verb : Verb
  now : Cluster.Time
deriving DecidableEq, Repr

/-- What the requests are about. -/
structure Observed where
  suspend : Bool
  requestedAt : Option GoString
deriving DecidableEq, Repr

/-- What the requests are about, in the stored object. -/
def observe (t : Tree) : Observed where
  suspend := match t.get suspendPath with
    | some (.leaf (.bool b)) => b
    | _ => false
  requestedAt := (t.get (annotationPath reconcileAnnotation)).bind stringOf

/-- What the requests are about, in a fetched object. -/
def observed (o : FluxObject) : Observed := ⟨o.suspend, o.annotations.lookup reconcileAnnotation⟩

/-- The data of the patch that a request sends for the object it has fetched. -/
def patchData (op : Op) (o : FluxObject) : Tree := o.mergeFrom (op.verb.change op.now o)

/-- What happens to the object: a request, or the write of another that leaves this behind. -/
inductive Change
  | request (op : Op)
  | external (left : Observed)
deriving DecidableEq, Repr

/-- What a change is meant to do. -/
def apply : Change → Observed → Observed
  | .request ⟨.reconcile, now⟩, s => { s with requestedAt := some (Clock.rfc3339Nano now) }
  | .request ⟨.suspend, _⟩, s => { s with suspend := true }
  | .request ⟨.resume, _⟩, s => { s with suspend := false }
  | .external left, _ => left

/-! ## The interleavings -/

/-- A request between its `Get` and its `Patch`. -/
structure Pending where
  op : Op
  fetched : FluxObject
  invoked : ℕ

/-- The stored object, the requests under way, and those that are done with the other writes, in the
order in which they reached the API server. -/
structure System where
  object : Tree
  pending : ℕ → Option Pending := fun _ => none
  clock : ℕ := 0
  history : List (Done Change) := []

/-- A step of a request, or the write of another. -/
inductive Label
  | get (i : ℕ) (op : Op)
  | patch (i : ℕ)
  | abort (i : ℕ)
  | write (object : Tree)

/-- One step; `keep` is what the Go type of the object keeps of its other fields. A request that
fails before the API server applies its patch is aborted. -/
def step (keep : Tree → Option Kept) (s : System) : Label → Option System
  | .get i op =>
    match s.pending i, decode keep s.object with
    | none, some o =>
      some { s with
        pending := Function.update s.pending i (some ⟨op, o, s.clock⟩)
        clock := s.clock + 1 }
    | _, _ => none
  | .patch i =>
    match s.pending i with
    | some q =>
      -- the patch is computed from what was fetched and applied to what is stored
      some
        { object := MergePatch.merge s.object (patchData q.op q.fetched)
          pending := Function.update s.pending i none
          clock := s.clock + 1
          history := s.history ++ [⟨.request q.op, q.invoked, s.clock⟩] }
    | none => none
  | .abort i =>
    match s.pending i with
    | some _ =>
      some { s with pending := Function.update s.pending i none, clock := s.clock + 1 }
    | none => none
  | .write object =>
    some { s with
      object
      clock := s.clock + 1
      history := s.history ++ [⟨.external (observe object), s.clock, s.clock⟩] }

/-- No request is under way, and none is done. -/
def System.Fresh (s : System) : Prop := (∀ i, s.pending i = none) ∧ s.history = []

/-- The action of a handler that has fetched an object goes on with the patch of `step`. -/
theorem action_calls (rt : MutationRuntime) (f : Family) (v : Verb) {c : Client}
    {ns kind name : GoString} {obj : FluxObject} (h : (f.getObj rt c ns kind name).result = .ok obj) :
    (v.action rt f c ns kind name).calls =
      (f.getObj rt c ns kind name).calls ++ [.patch kind ns name (patchData ⟨v, rt.clock 0⟩ obj)] := by
  rw [Verb.action, patchObj, h]
  rfl

/-! ## What a patch does -/

/-- What the requests write. -/
def touched : List (List GoString) := [suspendPath, annotationPath reconcileAnnotation]

/-- A path that has nothing to do with what the requests write. -/
def Beside (p : List GoString) : Prop := ∀ q ∈ touched, ¬ q <+: p ∧ ¬ p <+: q

theorem beside_annotated {key : GoString} (h : key ≠ reconcileAnnotation) :
    Beside (annotationPath key) := by
  have hne : metadataKey ≠ specKey := Ne.symm specKey_ne_metadataKey
  intro q hq
  rcases List.mem_cons.mp hq with rfl | hq
  · simp [suspendPath, annotationPath, List.cons_prefix_cons, hne, hne.symm]
  · rw [List.mem_singleton.mp hq]
    simp [annotationPath, List.cons_prefix_cons, h, h.symm]

theorem suspendPath_annotationPath (key : GoString) :
    ¬ suspendPath <+: annotationPath key ∧ ¬ annotationPath key <+: suspendPath := by
  have hne : metadataKey ≠ specKey := Ne.symm specKey_ne_metadataKey
  simp [suspendPath, annotationPath, List.cons_prefix_cons, hne, hne.symm]

theorem observe_congr {t u : Tree} (hs : t.get suspendPath = u.get suspendPath)
    (ha : t.get (annotationPath reconcileAnnotation) = u.get (annotationPath reconcileAnnotation)) :
    observe t = observe u := by
  rw [observe, observe, hs, ha]

/-- What is fetched is what is stored. -/
theorem observed_of_decode {keep : Tree → Option Kept} {t : Tree} {o : FluxObject}
    (h : decode keep t = some o) : observed o = observe t := by
  rw [decode] at h
  split at h
  · rename_i kept annotations suspend _ hannotations hsuspend
    rw [Option.some.injEq] at h
    rw [← h, observed, observe, lookup_of_annotationsOf _ hannotations]
    congr 1
    rw [suspendOf] at hsuspend
    split at hsuspend <;> simp_all
  · cases h

theorem observe_merge_suspend (t : Tree) (b : Bool) :
    observe (MergePatch.merge t (MergePatch.along suspendPath
      (if b then .leaf (.bool true) else .null))) = { observe t with suspend := b } := by
  obtain ⟨hsa, has⟩ := suspendPath_annotationPath reconcileAnnotation
  rw [observe, MergePatch.get_merge_along _ _ hsa has]
  cases b with
  | true =>
    rw [if_pos rfl, MergePatch.get_merge_along_leaf]
    rfl
  | false =>
    rw [if_neg Bool.false_ne_true, suspendPath, MergePatch.get_merge_along_null]
    rfl

theorem observe_merge_annotation (t : Tree) (value : GoString) :
    observe (MergePatch.merge t (MergePatch.along (annotationPath reconcileAnnotation)
      (strLeaf value))) = { observe t with requestedAt := some value } := by
  obtain ⟨hsa, has⟩ := suspendPath_annotationPath reconcileAnnotation
  rw [observe, MergePatch.get_merge_along _ _ has hsa, MergePatch.get_merge_along_leaf]
  rfl

/-- A patch is empty, because the object is as the request wants it, or it is about one of the two
fields, and does there what the request is meant to do. -/
theorem patch_cases (op : Op) (o : FluxObject) :
    (patchData op o = .node [] ∧ apply (.request op) (observed o) = observed o) ∨
      ∃ path v, path ∈ touched ∧ patchData op o = MergePatch.along path v ∧
        ∀ t, observe (MergePatch.merge t (patchData op o)) = apply (.request op) (observe t) := by
  obtain ⟨verb, now⟩ := op
  have hsuspend : ∀ b, (∀ s, apply (.request ⟨verb, now⟩) s = { s with suspend := b }) →
      verb.change now o = { o with suspend := b } →
      (patchData ⟨verb, now⟩ o = .node [] ∧
          apply (.request ⟨verb, now⟩) (observed o) = observed o) ∨
        ∃ path v, path ∈ touched ∧ patchData ⟨verb, now⟩ o = MergePatch.along path v ∧
          ∀ t, observe (MergePatch.merge t (patchData ⟨verb, now⟩ o)) =
            apply (.request ⟨verb, now⟩) (observe t) := by
    intro b happly hchange
    have hdata := o.mergeFrom_suspend b
    simp only [patchData, hchange, happly]
    by_cases hsame : o.suspend = b
    · -- `client.MergeFrom` says nothing about a field that is as it is to be
      rw [if_pos hsame] at hdata
      exact .inl ⟨hdata, by rw [observed, hsame]⟩
    · rw [if_neg hsame] at hdata
      refine .inr ⟨_, _, List.mem_cons_self, hdata, fun t => ?_⟩
      rw [hdata, observe_merge_suspend]
  cases verb with
  | suspend => exact hsuspend true (fun _ => rfl) rfl
  | resume => exact hsuspend false (fun _ => rfl) rfl
  | reconcile =>
    have hdata := o.mergeFrom_annotate reconcileAnnotation (Clock.rfc3339Nano now)
    simp only [patchData, Verb.change, apply]
    by_cases hsame : o.annotations.lookup reconcileAnnotation = some (Clock.rfc3339Nano now)
    · rw [if_pos hsame] at hdata
      exact .inl ⟨hdata, by rw [observed, hsame]⟩
    · rw [if_neg hsame] at hdata
      refine .inr ⟨_, _, List.mem_cons_of_mem _ (List.mem_singleton_self _), hdata, fun t => ?_⟩
      rw [hdata, observe_merge_annotation]

/-- A patch changes nothing beside what the requests are about. -/
theorem get_merge_patch {p : List GoString} (hp : Beside p) (op : Op) (o : FluxObject) (t : Tree) :
    (MergePatch.merge t (patchData op o)).get p = t.get p := by
  rcases patch_cases op o with ⟨hdata, -⟩ | ⟨path, v, hpath, hdata, -⟩
  · have hne : p ≠ [] := by
      rintro rfl
      exact (hp suspendPath List.mem_cons_self).2 List.nil_prefix
    rw [hdata, MergePatch.get_merge_empty t hne]
  · rw [hdata, MergePatch.get_merge_along v t (hp path hpath).1 (hp path hpath).2]

/-! ## The other fields -/

/-- The object that others have written last. -/
def lastWritten : Tree → List Label → Tree
  | t, [] => t
  | _, .write t :: ls => lastWritten t ls
  | t, _ :: ls => lastWritten t ls

theorem lastWritten_congr {p : List GoString} : ∀ {t u : Tree} (ls : List Label),
    t.get p = u.get p → (lastWritten t ls).get p = (lastWritten u ls).get p
  | _, _, [], h => h
  | _, _, .write _ :: _, _ => rfl
  | _, _, .get _ _ :: ls, h => lastWritten_congr ls h
  | _, _, .patch _ :: ls, h => lastWritten_congr ls h
  | _, _, .abort _ :: ls, h => lastWritten_congr ls h

theorem get_step {keep : Tree → Option Kept} {s s' : System} {l : Label} {p : List GoString}
    (hp : Beside p) (h : step keep s l = some s') : s'.object.get p = (lastWritten s.object [l]).get p := by
  cases l with
  | get i op =>
    simp only [step] at h
    split at h <;> cases h
    rfl
  | patch i =>
    simp only [step] at h
    split at h <;> cases h
    exact get_merge_patch hp _ _ _
  | abort i =>
    simp only [step] at h
    split at h <;> cases h
    rfl
  | write t =>
    cases h
    rfl

/-- In every run, every field that the requests are not about has the value that others have written
last. -/
theorem get_run {keep : Tree → Option Kept} {s' : System} {p : List GoString} (hp : Beside p) :
    ∀ {s : System} {ls : List Label}, Transition.run (step keep) s ls = some s' →
      s'.object.get p = (lastWritten s.object ls).get p
  | s, [], h => by
    rw [Transition.run_nil, Option.some.injEq] at h
    rw [← h]
    rfl
  | s, l :: ls, h => by
    obtain ⟨m, hm, hrest⟩ := Transition.run_cons_eq_some.mp h
    have hstep := get_step hp hm
    rw [get_run hp hrest, lastWritten_congr ls hstep]
    cases l <;> rfl

/-! ## The history of a run -/

/-- What a run asks for, in the order of the API server: each request that is patched, from its `Get`
to its `Patch`, and each write of another. `begun` are the requests under way with the moments of their
`Get`s. -/
def asked : ℕ → (ℕ → Option (Op × ℕ)) → List Label → List (Done Change)
  | _, _, [] => []
  | now, begun, .get i op :: ls => asked (now + 1) (Function.update begun i (some (op, now))) ls
  | now, begun, .patch i :: ls =>
    ((begun i).toList.map fun q => ⟨.request q.1, q.2, now⟩) ++
      asked (now + 1) (Function.update begun i none) ls
  | now, begun, .abort i :: ls => asked (now + 1) (Function.update begun i none) ls
  | now, begun, .write t :: ls => ⟨.external (observe t), now, now⟩ :: asked (now + 1) begun ls

/-- The requests under way. -/
def System.begun (s : System) : ℕ → Option (Op × ℕ) :=
  Option.map (fun q : Pending => (q.op, q.invoked)) ∘ s.pending

/-- A step moves what its label asks for to the history. -/
theorem asked_step {keep : Tree → Option Kept} {s s' : System} {l : Label}
    (h : step keep s l = some s') (ls : List Label) :
    s.history ++ asked s.clock s.begun (l :: ls) = s'.history ++ asked s'.clock s'.begun ls := by
  cases l with
  | get i op =>
    simp only [step] at h
    split at h <;> cases h
    rw [asked, System.begun, System.begun, Function.comp_update]
    rfl
  | patch i =>
    simp only [step] at h
    split at h <;> cases h
    rename_i q hq
    have hbegun : s.begun i = some (q.op, q.invoked) := by rw [System.begun, Function.comp_apply, hq]; rfl
    rw [asked, hbegun, System.begun, System.begun, Function.comp_update, List.append_assoc]
    rfl
  | abort i =>
    simp only [step] at h
    split at h <;> cases h
    rw [asked, System.begun, System.begun, Function.comp_update]
    rfl
  | write t =>
    cases h
    rw [asked, List.append_assoc]
    rfl

/-- The history is read off the labels. -/
theorem history_run {keep : Tree → Option Kept} {s' : System} :
    ∀ {s : System} {ls : List Label}, Transition.run (step keep) s ls = some s' →
      s'.history = s.history ++ asked s.clock s.begun ls
  | s, [], h => by
    rw [Transition.run_nil, Option.some.injEq] at h
    rw [← h, asked, List.append_nil]
  | s, l :: ls, h => by
    obtain ⟨m, hm, hrest⟩ := Transition.run_cons_eq_some.mp h
    rw [asked_step hm, history_run hrest]

/-! ## The fields that the requests write -/

/-- Some order explains the history so far, and every request under way has seen the object at its
`Get` in it. -/
structure Explained (start : Observed) (s : System) (order : List (Done Change)) : Prop where
  linearizes : Linearizes apply start s.history order (observe s.object)
  invoked : ∀ d ∈ order, d.invoked ≤ s.clock
  seen : ∀ i q, s.pending i = some q →
    q.invoked ≤ s.clock ∧ Seen apply start order q.invoked (observed q.fetched)

theorem explained_of_fresh {s : System} (h : s.Fresh) : Explained (observe s.object) s [] where
  linearizes := by
    rw [h.2]
    exact .nil _
  invoked := fun d hd => absurd hd List.not_mem_nil
  seen := fun i q hq => by
    rw [h.1 i] at hq
    cases hq

variable {keep : Tree → Option Kept} {start : Observed} {s s' : System} {order : List (Done Change)}

/-- What another writes, and a patch that says something, comes last. -/
theorem Explained.commit (h : Explained start s order) {d : Done Change} {object : Tree}
    {pending : ℕ → Option Pending} (hd : d.responded = s.clock) (hinvoked : d.invoked ≤ s.clock)
    (hobject : observe object = apply d.op (observe s.object))
    (hpending : ∀ i q, pending i = some q → s.pending i = some q) :
    Explained start ⟨object, pending, s.clock + 1, s.history ++ [d]⟩ (order ++ [d]) where
  linearizes := by
    rw [hobject]
    exact h.linearizes.commit fun e he => hd ▸ h.invoked e he
  invoked := fun e he => by
    rcases List.mem_append.mp he with he | he
    · exact Nat.le_succ_of_le (h.invoked e he)
    · rw [List.mem_singleton.mp he]
      exact Nat.le_succ_of_le hinvoked
  seen := fun i q hq => by
    obtain ⟨hle, hseen⟩ := h.seen i q (hpending i q hq)
    exact ⟨Nat.le_succ_of_le hle, hseen.append (hd ▸ hle)⟩

/-- Where the object stays as it is, and no request begins, the order stays too. -/
theorem Explained.pass (h : Explained start s order) {pending : ℕ → Option Pending}
    (hpending : ∀ i q, pending i = some q → s.pending i = some q ∨
      q.invoked = s.clock ∧ observed q.fetched = observe s.object) :
    Explained start { s with pending, clock := s.clock + 1 } order where
  linearizes := h.linearizes
  invoked := fun e he => Nat.le_succ_of_le (h.invoked e he)
  seen := fun i q hq => by
    rcases hpending i q hq with hq | ⟨hinvoked, hobserved⟩
    · obtain ⟨hle, hseen⟩ := h.seen i q hq
      exact ⟨Nat.le_succ_of_le hle, hseen⟩
    · refine ⟨hinvoked ▸ Nat.le_succ _, ?_⟩
      rw [hobserved]
      exact h.linearizes.seen

/-- An empty patch comes where its request has fetched the object. -/
theorem Explained.absorb (h : Explained start s order) {i : ℕ} {q : Pending}
    (hq : s.pending i = some q) {object : Tree} {pending : ℕ → Option Pending}
    (hnone : apply (.request q.op) (observed q.fetched) = observed q.fetched)
    (hobject : observe object = observe s.object)
    (hpending : ∀ j r, pending j = some r → s.pending j = some r) :
    ∃ order', Explained start
      ⟨object, pending, s.clock + 1, s.history ++ [⟨.request q.op, q.invoked, s.clock⟩]⟩ order' := by
  obtain ⟨hle, hseen⟩ := h.seen i q hq
  obtain ⟨order', hlin, hothers⟩ := h.linearizes.absorb (d := ⟨.request q.op, q.invoked, s.clock⟩)
    h.invoked hseen hnone
  refine ⟨order', by rw [hobject]; exact hlin, fun e he => ?_, fun j r hr => ?_⟩
  · rcases List.mem_append.mp (hlin.perm.subset he) with he | he
    · exact Nat.le_succ_of_le (h.invoked e (h.linearizes.perm.symm.subset he))
    · rw [List.mem_singleton.mp he]
      exact Nat.le_succ_of_le hle
  · obtain ⟨hler, hseenr⟩ := h.seen j r (hpending j r hr)
    exact ⟨Nat.le_succ_of_le hler, hothers _ _ hler hseenr⟩

theorem pending_of_update {pending : ℕ → Option Pending} {i j : ℕ} {q : Pending}
    (h : Function.update pending i none j = some q) : pending j = some q := by
  by_cases hj : j = i
  · rw [hj, Function.update_self] at h
    cases h
  · rwa [Function.update_of_ne hj] at h

/-- Every step keeps the history explained. -/
theorem explained_step {l : Label} (h : ∃ order, Explained start s order)
    (hstep : step keep s l = some s') : ∃ order, Explained start s' order := by
  obtain ⟨order, h⟩ := h
  cases l with
  | get i op =>
    simp only [step] at hstep
    split at hstep
    · rename_i o _ hdecode
      rw [Option.some.injEq] at hstep
      rw [← hstep]
      refine ⟨order, h.pass fun j q hq => ?_⟩
      by_cases hj : j = i
      · -- a request that begins now has fetched the object as it is
        rw [hj, Function.update_self, Option.some.injEq] at hq
        rw [← hq]
        exact .inr ⟨rfl, observed_of_decode hdecode⟩
      · rw [Function.update_of_ne hj] at hq
        exact .inl hq
    · cases hstep
  | patch i =>
    simp only [step] at hstep
    split at hstep
    · rename_i q hq
      rw [Option.some.injEq] at hstep
      rw [← hstep]
      -- an empty patch is ordered where its request has fetched, any other at the end
      rcases patch_cases q.op q.fetched with ⟨hdata, hnone⟩ | ⟨path, v, -, -, heffect⟩
      · refine h.absorb hq hnone ?_ fun j r => pending_of_update
        rw [hdata]
        exact observe_congr (MergePatch.get_merge_empty _ (List.cons_ne_nil _ _))
          (MergePatch.get_merge_empty _ (List.cons_ne_nil _ _))
      · exact ⟨_, h.commit rfl (h.seen i q hq).1 (heffect s.object) fun j r => pending_of_update⟩
    · cases hstep
  | abort i =>
    simp only [step] at hstep
    split at hstep
    · rw [Option.some.injEq] at hstep
      rw [← hstep]
      exact ⟨order, h.pass fun j r hr => .inl (pending_of_update hr)⟩
    · cases hstep
  | write t =>
    simp only [step, Option.some.injEq] at hstep
    rw [← hstep]
    exact ⟨_, h.commit rfl (Nat.le_refl _) rfl fun j r hr => hr⟩

/-- **No update is lost.** In every run, every field that the requests are not about, other annotations
included, has the value that others have written last, and `spec.suspend` and the annotation are what some
order of the requests and of the other writes, none before one that had ended when it began, makes of
them. The requests and the writes are those that the run asks for. -/
theorem no_lost_update (hfresh : s.Fresh) {ls : List Label}
    (hrun : Transition.run (step keep) s ls = some s') :
    (∀ p, Beside p → s'.object.get p = (lastWritten s.object ls).get p) ∧
      (∀ key ≠ reconcileAnnotation, s'.object.get (annotationPath key) =
        (lastWritten s.object ls).get (annotationPath key)) ∧
      s'.history = asked s.clock (fun _ => none) ls ∧
      ∃ order, Linearizes apply (observe s.object) s'.history order (observe s'.object) := by
  have hbegun : s.begun = fun _ => none := funext fun i => by
    rw [System.begun, Function.comp_apply, hfresh.1 i]
    rfl
  have hhistory : s'.history = asked s.clock (fun _ => none) ls := by
    rw [history_run hrun, hfresh.2, hbegun, List.nil_append]
  refine ⟨fun p hp => get_run hp hrun, fun key hkey => get_run (beside_annotated hkey) hrun, hhistory, ?_⟩
  have hexplained : ∃ order, Explained (observe s.object) s' order :=
    Transition.run_invariant (fun _ _ _ h hs => explained_step h hs)
      ⟨[], explained_of_fresh hfresh⟩ hrun
  obtain ⟨order, h⟩ := hexplained
  exact ⟨order, h.linearizes⟩

/-- A suspended object. -/
def suspendedObject : Tree := .node [(specKey, .node [(suspendKey, .leaf (.bool true))])]

/-- An object that others have annotated and resumed. -/
def resumedObject : Tree :=
  .node [(metadataKey, .node [(annotationsKey, .node [("team", strLeaf "web")])]), (specKey, .node [])]

/-- A request suspends an object that is suspended already when it is fetched, and resumed when the
empty patch arrives. -/
theorem no_lost_update_suspend :
    ∃ s' : System, Transition.run (step fun _ => some {}) { object := suspendedObject }
        [.get 0 ⟨.suspend, 0⟩, .write resumedObject, .patch 0] = some s' ∧
      (∀ p, Beside p → s'.object.get p = resumedObject.get p) ∧
      (∀ key ≠ reconcileAnnotation,
        s'.object.get (annotationPath key) = resumedObject.get (annotationPath key)) ∧
      s'.history = [⟨.external ⟨false, none⟩, 1, 1⟩, ⟨.request ⟨.suspend, 0⟩, 0, 2⟩] ∧
      ∃ order, Linearizes apply (observe suspendedObject) s'.history order (observe s'.object) := by
  refine ⟨_, rfl, ?_⟩
  have hrun : Transition.run (step fun _ => some {}) { object := suspendedObject }
    [.get 0 ⟨.suspend, 0⟩, .write resumedObject, .patch 0] = some _ := rfl
  exact no_lost_update ⟨fun _ => rfl, rfl⟩ hrun

end ConcurrentMutations

end Yafu.Api
