import Yafu.Api.AuditTrail

/-!
# The calls of a mutation

Reference: `runMutation` and the actions in `internal/api/mutations.go`, and
`internal/api/rollback.go`.

A mutation calls a cluster for the object of its path and for no other, once the policy has allowed
it there, and leaves a record that says so.
-/

namespace Yafu.Api

open Yafu.Auth (Policy)
open Yafu.Cluster (Registry)

/-! ## What stands in the way of a call -/

section Guards

variable {rt : MutationRuntime} {policy : Policy} {r : MutationRequest} {p : AppPath}
  {verb : GoString} {action : Action}

/-- What is called has a path, and the policy has allowed it. -/
theorem guards_of_calls {registry : Option (Registry Client)}
    (h : (ending rt policy registry r p verb action).calls ≠ []) :
    p.Complete ∧ policy.authorize rt.toLower r.identity verb p.cluster = true := by
  unfold ending at h
  split_ifs at h with hpath hauth
  · exact absurd rfl h
  · exact absurd rfl h
  · rw [Bool.not_eq_false] at hauth
    simp only [not_or] at hpath
    exact ⟨hpath, hauth⟩

/-- Nothing is asked of a cluster that the policy does not allow. -/
theorem ending_congr {reg reg' : Registry Client}
    (h : policy.authorize rt.toLower r.identity verb p.cluster = true →
      reg.get p.cluster = reg'.get p.cluster) :
    ending rt policy (some reg) r p verb action = ending rt policy (some reg') r p verb action := by
  unfold ending
  split
  · rfl
  · split
    · rfl
    · rename_i hauth
      simp only [h (by simpa using hauth)]

/-- The record of a mutation that has called a cluster. -/
structure Recorded (rt : MutationRuntime) (policy : Policy) (r : MutationRequest) (p : AppPath)
    (verb : GoString) (rec : Audit.Record) : Prop where
  who : rec.identity = ⟨r.identity.subject, r.identity.email, r.identity.groups⟩
  place : rec.resource = ⟨p.cluster, p.ns, p.kind, p.name⟩
  what : rec.verb = verb
  complete : p.Complete
  authorized : policy.authorize rt.toLower r.identity verb p.cluster = true

theorem recorded_runMutation {registry : Option (Registry Client)}
    (h : (runMutation rt policy registry r p verb action).calls ≠ []) :
    ∃ rec, (runMutation rt policy registry r p verb action).audit = [rec] ∧
      Recorded rt policy r p verb rec := by
  obtain ⟨hcomplete, hauth⟩ :=
    guards_of_calls (show (ending rt policy registry r p verb action).calls ≠ [] from h)
  refine ⟨_, rfl, ?_⟩
  split_ifs
  · exact ⟨rfl, rfl, rfl, hcomplete, hauth⟩
  · exact ⟨rfl, rfl, rfl, hcomplete, hauth⟩

/-- A mutation calls a cluster only if the policy allows its verb there, and records it. -/
theorem recorded_serveMutation {registry : Option (Registry Client)} (e : MutationEndpoint)
    (h : (serveMutation rt policy registry r p e).calls ≠ []) :
    ∃ rec, (serveMutation rt policy registry r p e).audit = [rec] ∧
      Recorded rt policy r p e.verb rec := by
  cases e with
  | mutate f v => exact recorded_runMutation h
  | rollback =>
    show ∃ rec, (rollback rt policy registry r p).audit = [rec] ∧ _
    have hcalls : (rollback rt policy registry r p).calls ≠ [] := h
    unfold rollback at hcalls ⊢
    rcases hbody : decodeRevision r.body with err | revision
    · simp only [hbody] at hcalls
      exact absurd rfl hcalls
    · simp only [hbody] at hcalls ⊢
      split_ifs at hcalls ⊢ with hrevision
      · exact absurd rfl hcalls
      · exact recorded_runMutation hcalls

theorem serveMutation_congr {reg reg' : Registry Client} (e : MutationEndpoint)
    (h : policy.authorize rt.toLower r.identity e.verb p.cluster = true →
      reg.get p.cluster = reg'.get p.cluster) :
    serveMutation rt policy (some reg) r p e = serveMutation rt policy (some reg') r p e := by
  have hrun : ∀ {verb action}, (policy.authorize rt.toLower r.identity verb p.cluster = true →
      reg.get p.cluster = reg'.get p.cluster) →
        runMutation rt policy (some reg) r p verb action =
          runMutation rt policy (some reg') r p verb action := by
    intro verb action h
    unfold runMutation
    rw [ending_congr h]
  cases e with
  | mutate f v => exact hrun h
  | rollback =>
    show rollback rt policy (some reg) r p = rollback rt policy (some reg') r p
    unfold rollback
    rcases decodeRevision r.body with err | revision
    · rfl
    · show (if _ then _ else _) = if _ then _ else _
      split_ifs
      · rfl
      · exact hrun h

/-- The verbs of the mutations. -/
def changes : List GoString := ["reconcile", "suspend", "resume", "rollback"]

theorem verb_mem_changes (e : MutationEndpoint) : e.verb ∈ changes := by
  rcases e with ⟨f, v⟩ | _
  · have hall : ∀ v ∈ ([.reconcile, .suspend, .resume] : List Verb), v.text ∈ changes := by
      decide
    exact hall v (by cases v <;> decide)
  · decide

end Guards

/-! ## What is called -/

/-- The handlers of a family call for objects of a kind. -/
def Supports (f : Family) (kind : GoString) : Prop :=
  ∀ rt (c : Client) ns name, f.getObj rt c ns kind name = ⟨[.get kind ns name], c.get kind ns name⟩

/-- Kind, namespace and name of what is called for. -/
def calledFor : Call → GoString × GoString × GoString
  | .get kind ns name => (kind, ns, name)
  | .patch kind ns name _ => (kind, ns, name)

/-- The object is got and, if it is there, patched. -/
def getThenPatch (c : Client) (kind ns name : GoString) (change : FluxObject → FluxObject) :
    List Call :=
  .get kind ns name ::
    match c.get kind ns name with
    | .error _ => []
    | .ok obj => [.patch kind ns name (obj.mergeFrom (change obj))]

section Calls

variable {rt : MutationRuntime} {policy : Policy} {r : MutationRequest} {p : AppPath}

theorem calledFor_getObj {kinds : List GoString} {expected : GoString} {c : Client}
    {ns kind name : GoString} {call : Call}
    (h : call ∈ (getObj rt kinds expected c ns kind name).calls) :
    calledFor call = (kind, ns, name) := by
  unfold getObj at h
  split_ifs at h
  · rw [List.mem_singleton.mp h]
    rfl
  · cases h

theorem calledFor_verb {f : Family} {v : Verb} {c : Client} {ns kind name : GoString} {call : Call}
    (h : call ∈ (v.action rt f c ns kind name).calls) : calledFor call = (kind, ns, name) := by
  have hget : ∀ call ∈ (f.getObj rt c ns kind name).calls, calledFor call = (kind, ns, name) := by
    cases f <;> exact fun _ => calledFor_getObj
  unfold Verb.action patchObj at h
  split at h
  · exact hget call h
  · rcases List.mem_append.mp h with h | h
    · exact hget call h
    · rw [List.mem_singleton.mp h]
      rfl

theorem calledFor_rollback {revision : GoString} {c : Client} {ns kind name : GoString}
    {call : Call} (h : call ∈ (rollbackAction rt revision c ns kind name).calls) :
    calledFor call = (kind, ns, name) := by
  unfold rollbackAction at h
  split_ifs at h with hkind
  · -- a release is got and patched under the kind that the path has
    subst hkind
    unfold rollbackHelmRelease at h
    split at h
    · rw [List.mem_singleton.mp h]
      rfl
    · split_ifs at h
      · rw [List.mem_singleton.mp h]
        rfl
      · simp only [List.mem_cons, List.not_mem_nil, or_false] at h
        rcases h with rfl | rfl <;> rfl
  · cases h
  · cases h

/-- The calls of a mutation are those of its action. -/
theorem calls_of_mem_ending {registry : Option (Registry Client)} {verb : GoString} {action : Action}
    {call : Call} (h : call ∈ (ending rt policy registry r p verb action).calls) :
    ∃ c : Client, call ∈ (action c p.ns p.kind p.name).calls := by
  unfold ending at h
  split_ifs at h
  · cases h
  · cases h
  · split at h
    · cases h
    · split at h
      · cases h
      · split_ifs at h
        · cases h
        · simp only at h
          split at h
          · exact ⟨_, h⟩
          · exact ⟨_, h⟩

/-- A mutation calls for nothing but the object of its path. -/
theorem calledFor_serveMutation {registry : Option (Registry Client)} {e : MutationEndpoint}
    {call : Call} (h : call ∈ (serveMutation rt policy registry r p e).calls) :
    calledFor call = (p.kind, p.ns, p.name) := by
  cases e with
  | mutate f v =>
    obtain ⟨c, hcall⟩ := calls_of_mem_ending h
    exact calledFor_verb hcall
  | rollback =>
    have hrollback : call ∈ (rollback rt policy registry r p).calls := h
    unfold rollback at hrollback
    split at hrollback
    · cases hrollback
    · split_ifs at hrollback
      · cases hrollback
      · obtain ⟨c, hcall⟩ := calls_of_mem_ending hrollback
        exact calledFor_rollback hcall

/-- A verb that nothing stands in the way of gets the object and patches it. -/
theorem calls_mutate {f : Family} {v : Verb} (hsupports : Supports f p.kind)
    (hpath : ¬ (p.cluster = [] ∨ p.ns = [] ∨ p.kind = [] ∨ p.name = []))
    (hauth : policy.authorize rt.toLower r.identity v.text p.cluster = true) {reg : Registry Client}
    {entry : Cluster.Entry Client} (hentry : reg.get p.cluster = some entry)
    (hreach : entry.status.reachable = true) :
    (serveMutation rt policy (some reg) r p (.mutate f v)).calls =
      getThenPatch entry.clients p.kind p.ns p.name (v.change (rt.clock 0)) := by
  have hcalls : (v.action rt f entry.clients p.ns p.kind p.name).calls =
      getThenPatch entry.clients p.kind p.ns p.name (v.change (rt.clock 0)) := by
    unfold Verb.action patchObj getThenPatch
    rw [hsupports]
    rcases entry.clients.get p.kind p.ns p.name with err | obj <;> rfl
  show (ending rt policy (some reg) r p v.text (v.action rt f)).calls = _
  unfold ending
  rw [if_neg hpath, if_neg (by rw [hauth]; decide)]
  simp only [hentry]
  rw [if_neg (by rw [hreach]; decide)]
  rcases hresult : (v.action rt f entry.clients p.ns p.kind p.name).result with err | u
  · exact hcalls
  · exact hcalls

end Calls

end Yafu.Api
