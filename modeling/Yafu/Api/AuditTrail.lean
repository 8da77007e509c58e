import Yafu.Api.Mutations

/-!
# The audit trail of the mutations

Reference: `runMutation` in `internal/api/mutations.go`, which is to "emit one audit record per
request regardless of outcome", and `rollback` in `internal/api/rollback.go`.

`runMutation` writes one record whose outcome tells what happened (`audited_runMutation`). A
rollback request is answered before it gets there if its body has no revision, and leaves no record
then (`audited_iff`).
-/

namespace Yafu.Api

open Yafu.Auth (Policy)
open Yafu.Cluster (Registry)

/-- The request names its object. -/
def AppPath.Complete (p : AppPath) : Prop := p.cluster ≠ [] ∧ p.ns ≠ [] ∧ p.kind ≠ [] ∧ p.name ≠ []

/-- The statuses that go with an outcome. -/
def OutcomeAgrees : Audit.Outcome → ℕ → Prop
  | .ok, status => status = statusAccepted
  | .denied, status => status = statusForbidden
  | .error, status => 400 ≤ status

section Audited

variable (rt : MutationRuntime) (policy : Policy) (registry : Option (Registry Client))
  (r : MutationRequest) (p : AppPath)

/-- The policy refuses the verb on the cluster. -/
def Refused (verb : GoString) : Prop :=
  p.Complete ∧ policy.authorize rt.toLower r.identity verb p.cluster = false

/-- There is an action, and it succeeds on the cluster, which is registered and reachable. -/
def Succeeds (action : Option Action) : Prop :=
  ∃ act reg e, action = some act ∧ registry = some reg ∧ reg.get p.cluster = some e ∧
    e.status.reachable = true ∧ (act e.clients p.ns p.kind p.name).result = .ok ()

/-- The record of a request tells who asked for what, and what has happened. -/
structure Tells (verb : GoString) (action : Option Action) (rec : Audit.Record) (served : Served) :
    Prop where
  who : rec.identity = ⟨r.identity.subject, r.identity.email, r.identity.groups⟩
  what : rec.verb = verb ∧ rec.resource = ⟨p.cluster, p.ns, p.kind, p.name⟩
  ok : rec.outcome = .ok ↔ served.response.status = statusAccepted ∧ Succeeds registry p action
  denied : rec.outcome = .denied ↔ Refused rt policy r p verb
  error : rec.outcome = .error ↔
    ¬ (served.response.status = statusAccepted ∧ Succeeds registry p action) ∧
      ¬ Refused rt policy r p verb
  silent : Refused rt policy r p verb → served.calls = []
  agrees : OutcomeAgrees rec.outcome served.response.status

/-- What a request asks for, if its body says so. -/
def MutationEndpoint.action : MutationEndpoint → Option Action
  | .mutate f v => some (v.action rt f)
  | .rollback =>
    match decodeRevision r.body with
    | .error _ => none
    | .ok revision => if revision = [] then none else some (rollbackAction rt revision)

/-- One record is written, and it tells what has happened. -/
def Audited (endpoint : MutationEndpoint) (served : Served) : Prop :=
  ∃ rec, served.audit = [rec] ∧
    Tells rt policy registry r p endpoint.verb (endpoint.action rt r) rec served

variable {rt policy registry r p} {verb : GoString} {action : Action}

theorem actionFailed_status (err : ApiError) : 400 ≤ (actionFailed err).status := by
  simp only [actionFailed, writeError]
  cases err.kind <;> decide

/-- `runMutation` ends with a refusal, with an error, or with the success of the action. -/
theorem ending_cases {e : Ending} (he : ending rt policy registry r p verb action = e) :
    (Refused rt policy r p verb ∧ e.outcome = .denied ∧ e.response.status = statusForbidden ∧
        e.calls = []) ∨
      (¬ Refused rt policy r p verb ∧ e.outcome = .error ∧ 400 ≤ e.response.status) ∨
      ¬ Refused rt policy r p verb ∧ e.outcome = .ok ∧ e.response.status = statusAccepted ∧
        Succeeds registry p (some action) := by
  by_cases hcomplete : p.Complete
  · have hpath : ¬ (p.cluster = [] ∨ p.ns = [] ∨ p.kind = [] ∨ p.name = []) := by
      simpa [AppPath.Complete] using hcomplete
    by_cases hauth : policy.authorize rt.toLower r.identity verb p.cluster = false
    · unfold ending at he
      rw [if_neg hpath, if_pos hauth] at he
      rw [← he]
      exact .inl ⟨⟨hcomplete, hauth⟩, rfl, rfl, rfl⟩
    · have hnot : ¬ Refused rt policy r p verb := fun h => hauth h.2
      unfold ending at he
      rw [if_neg hpath, if_neg hauth] at he
      refine .inr ?_
      rcases registry with _ | reg
      · simp only at he
        rw [← he]
        exact .inl ⟨hnot, rfl, le_status_writeError (by decide)⟩
      rcases hget : reg.get p.cluster with _ | entry
      · simp only [hget] at he
        rw [← he]
        exact .inl ⟨hnot, rfl, le_status_writeError (by decide)⟩
      simp only [hget] at he
      by_cases hreach : entry.status.reachable = false
      · rw [if_pos hreach] at he
        rw [← he]
        exact .inl ⟨hnot, rfl, le_status_writeError (by decide)⟩
      rw [if_neg hreach] at he
      -- the action is run
      cases hresult : (action entry.clients p.ns p.kind p.name).result with
      | error err =>
        simp only [hresult] at he
        rw [← he]
        exact .inl ⟨hnot, rfl, actionFailed_status err⟩
      | ok u =>
        simp only [hresult] at he
        rw [← he]
        exact .inr
          ⟨hnot, rfl, rfl, action, reg, entry, rfl, rfl, hget, by simpa using hreach, hresult⟩
  · -- the policy is not asked about a path that is incomplete
    have hpath : p.cluster = [] ∨ p.ns = [] ∨ p.kind = [] ∨ p.name = [] := by
      by_contra h
      exact hcomplete (by simpa [AppPath.Complete] using h)
    unfold ending at he
    rw [if_pos hpath] at he
    rw [← he]
    exact .inr (.inl ⟨fun h => hcomplete h.1, rfl, le_status_writeError (by decide)⟩)

/-- `runMutation` writes one record, and it tells what has happened. -/
theorem audited_runMutation :
    ∃ rec, (runMutation rt policy registry r p verb action).audit = [rec] ∧
      Tells rt policy registry r p verb (some action) rec
        (runMutation rt policy registry r p verb action) := by
  refine ⟨_, rfl, ?_⟩
  simp only [runMutation]
  generalize he : ending rt policy registry r p verb action = e
  have hne : ∀ status, 400 ≤ status → status ≠ statusAccepted := by
    rintro _ h rfl
    exact absurd h (by decide)
  rcases ending_cases he with ⟨href, ho, hs, hcalls⟩ | ⟨hnot, ho, hs⟩ | ⟨hnot, ho, hs, hsucceeds⟩
  · have hst : e.response.status ≠ statusAccepted := by
      rw [hs]
      decide
    exact
      { who := rfl
        what := ⟨rfl, rfl⟩
        ok := by simp [ho, hst]
        denied := by simp [ho, href]
        error := by simp [ho, href]
        silent := fun _ => hcalls
        agrees := by simp [ho, OutcomeAgrees, hs] }
  · exact
      { who := rfl
        what := ⟨rfl, rfl⟩
        ok := by simp [ho, hne _ hs]
        denied := by simp [ho, hnot]
        error := by simp [ho, hnot, hne _ hs]
        silent := fun h => absurd h hnot
        agrees := by simp [ho, OutcomeAgrees, hs] }
  · exact
      { who := rfl
        what := ⟨rfl, rfl⟩
        ok := by simp [ho, hs, hsucceeds]
        denied := by simp [ho, hnot]
        error := by simp [ho, hs, hsucceeds]
        silent := fun h => absurd h hnot
        agrees := by simp [ho, OutcomeAgrees, hs] }

/-- **The audit trail.** A request to a mutation endpoint leaves exactly one record, which tells what has
happened, unless it is a rollback request whose body has no revision. -/
theorem audited_iff (endpoint : MutationEndpoint) :
    Audited rt policy registry r p endpoint (serveMutation rt policy registry r p endpoint) ↔
      (endpoint = .rollback → ∃ revision, decodeRevision r.body = .ok revision ∧ revision ≠ []) := by
  cases endpoint with
  | mutate f v =>
    exact iff_of_true audited_runMutation fun h => MutationEndpoint.noConfusion h
  | rollback =>
    simp only [serveMutation, rollback, forall_const]
    constructor
    · rintro ⟨rec, haudit, -⟩
      cases hbody : decodeRevision r.body with
      | error err => simp [hbody] at haudit
      | ok revision =>
        refine ⟨revision, rfl, fun hnil => ?_⟩
        simp [hbody, hnil] at haudit
    · rintro ⟨revision, hbody, hne⟩
      have haction : MutationEndpoint.rollback.action rt r = some (rollbackAction rt revision) := by
        simp only [MutationEndpoint.action, hbody, if_neg hne]
      simp only [Audited, haction, hbody, if_neg hne]
      exact audited_runMutation

end Audited

/-! ## A rollback without a body -/

/-- Libraries that fold and quote nothing, at the time zero. -/
def idleMutationRuntime : MutationRuntime where
  toLower := GoString.asciiLower
  quote s := '"'.toUInt8 :: (s ++ ['"'.toUInt8])
  clock _ := 0

/-- A rollback request with no body, from a user who may do everything, leaves no record. -/
theorem rollback_not_audited :
    ¬ ∀ (rt : MutationRuntime) (policy : Policy) (registry : Option (Registry Client))
      (r : MutationRequest) (p : AppPath) (endpoint : MutationEndpoint),
      Audited rt policy registry r p endpoint (serveMutation rt policy registry r p endpoint) := by
  intro h
  obtain ⟨rec, haudit, -⟩ := h idleMutationRuntime Auth.defaultAllowAllPolicy none
    { identity := { subject := "ada" }, body := .error "EOF" }
    ⟨"dev", "flux-system", "HelmRelease", "podinfo"⟩ .rollback
  exact absurd haudit (List.cons_ne_nil _ _).symm

end Yafu.Api
