import Yafu.Cluster.Prober
import Yafu.Controllers.Freshness

/-!
# Is the Cluster status coherent?

Reference: `internal/controllers/cluster_controller.go`.

A run is that of `Freshness` with the probe results taken from `probe`. Each outcome of `Reconcile`
sets its own conditions on top of the stored ones: a probe sets all three, a connection that could
not be set up sets `Reachable` and `Ready` only. Whatever `FluxInstalled` said before such a failure
is written again.
-/

namespace Yafu.Controllers

open Yafu.Cluster Transition

/-! ## `setCondition` and the list as a whole -/

section SetCondition

variable {t : String} {ok : Bool} {reason msg : String} {gen : ℕ} {now : Time}
  {conds : List Condition}

theorem types_setCondition_of_mem (h : t ∈ conds.map Condition.type) :
    (setCondition t ok reason msg gen now conds).map Condition.type =
      conds.map Condition.type := by
  induction conds with
  | nil => exact absurd h List.not_mem_nil
  | cons c cs ih =>
    rw [setCondition]
    by_cases hc : c.type = t
    · rw [if_pos hc, List.map_cons, List.map_cons]
    · have htail : t ∈ cs.map Condition.type := (List.mem_cons.mp h).resolve_left (Ne.symm hc)
      rw [if_neg hc, List.map_cons, List.map_cons, ih htail]

theorem types_setCondition_of_notMem (h : t ∉ conds.map Condition.type) :
    (setCondition t ok reason msg gen now conds).map Condition.type =
      conds.map Condition.type ++ [t] := by
  induction conds with
  | nil => rfl
  | cons c cs ih =>
    rw [List.map_cons, List.mem_cons, not_or] at h
    rw [setCondition, if_neg (Ne.symm h.1), List.map_cons, List.map_cons, ih h.2, List.cons_append]

theorem nodup_setCondition (h : (conds.map Condition.type).Nodup) :
    ((setCondition t ok reason msg gen now conds).map Condition.type).Nodup := by
  by_cases ht : t ∈ conds.map Condition.type
  · rwa [types_setCondition_of_mem ht]
  · rw [types_setCondition_of_notMem ht, List.nodup_append']
    exact ⟨h, List.nodup_singleton t, by simpa using ht⟩

/-- Conditions of another type are left alone. -/
theorem mem_setCondition_of_ne {c : Condition} (h : c.type ≠ t) :
    c ∈ setCondition t ok reason msg gen now conds ↔ c ∈ conds := by
  induction conds with
  | nil =>
    rw [setCondition, List.mem_singleton]
    constructor
    · rintro rfl
      exact absurd rfl h
    · intro hc
      exact absurd hc List.not_mem_nil
  | cons d cs ih =>
    rw [setCondition]
    by_cases hd : d.type = t
    · rw [if_pos hd, List.mem_cons, List.mem_cons]
      refine or_congr_left ⟨?_, ?_⟩
      · rintro rfl
        exact absurd hd h
      · rintro rfl
        exact absurd hd h
    · rw [if_neg hd, List.mem_cons, List.mem_cons, ih]

/-- The one condition of the type says what was set. -/
theorem of_mem_setCondition (hnodup : (conds.map Condition.type).Nodup) {c : Condition}
    (hc : c ∈ setCondition t ok reason msg gen now conds) (h : c.type = t) :
    c.status = .ofBool ok ∧ c.observedGeneration = gen := by
  induction conds with
  | nil =>
    rw [setCondition, List.mem_singleton] at hc
    rw [hc]
    exact ⟨rfl, rfl⟩
  | cons d cs ih =>
    obtain ⟨hnot, hcs⟩ := List.nodup_cons.mp hnodup
    rw [setCondition] at hc
    by_cases hd : d.type = t
    · rw [if_pos hd] at hc
      rcases List.mem_cons.mp hc with rfl | hmem
      · exact ⟨rfl, rfl⟩
      · exact absurd (List.mem_map.mpr ⟨c, hmem, h.trans hd.symm⟩) hnot
    · rw [if_neg hd] at hc
      rcases List.mem_cons.mp hc with rfl | hmem
      · exact absurd h hd
      · exact ih hcs hmem

/-- There is a condition of the type that was set. -/
theorem exists_mem_setCondition :
    ∃ c ∈ setCondition t ok reason msg gen now conds, c.type = t ∧ c.status = .ofBool ok := by
  have hset : HasCondition t ok reason msg gen (setCondition t ok reason msg gen now conds) :=
    hasCondition_setCondition_self
  obtain ⟨c, hc, hstatus, -⟩ := hset
  exact ⟨c, List.mem_of_find?_eq_some hc, by simpa using List.find?_some hc, hstatus⟩

end SetCondition

/-! ## Coherence of a written status -/

/-- A condition of the type with the status is present. -/
def Says (conds : List Condition) (t : String) (status : ConditionStatus) : Prop :=
  ∃ c ∈ conds, c.type = t ∧ c.status = status

/-- The status of an object agrees with itself and with the generation of its spec. -/
structure Coherent (cr : Cluster) : Prop where
  once : (cr.status.conditions.map Condition.type).Nodup
  ready : Says cr.status.conditions conditionReady .conditionTrue →
    Says cr.status.conditions conditionReachable .conditionTrue
  flux : ¬ (Says cr.status.conditions conditionFluxInstalled .conditionTrue ∧
    Says cr.status.conditions conditionReachable .conditionFalse)
  generation : ∀ c ∈ cr.status.conditions, c.observedGeneration = cr.generation

/-- The conditions that `Reconcile` leaves: at most one of each of the three types. -/
structure WellTyped (conds : List Condition) : Prop where
  once : (conds.map Condition.type).Nodup
  known : ∀ c ∈ conds, c.type = conditionReachable ∨ c.type = conditionFluxInstalled ∨
    c.type = conditionReady

theorem wellTyped_nil : WellTyped [] := ⟨List.nodup_nil, by simp⟩

theorem WellTyped.setCondition {conds : List Condition} (h : WellTyped conds) {t : String}
    (ht : t = conditionReachable ∨ t = conditionFluxInstalled ∨ t = conditionReady) (ok : Bool)
    (reason msg : String) (gen : ℕ) (now : Time) :
    WellTyped (setCondition t ok reason msg gen now conds) where
  once := nodup_setCondition h.once
  known := by
    intro c hc
    by_cases hct : c.type = t
    · exact hct ▸ ht
    · exact h.known c ((mem_setCondition_of_ne hct).mp hc)

theorem reachable_ne_ready : conditionReachable ≠ conditionReady := by decide

theorem reachable_ne_fluxInstalled : conditionReachable ≠ conditionFluxInstalled := by decide

theorem fluxInstalled_ne_ready : conditionFluxInstalled ≠ conditionReady := by decide

section Written

variable {cr : Cluster} {now : String → Time}

theorem wellTyped_reportFailure (h : WellTyped cr.status.conditions) (reason msg : String)
    (now : String → Time) : WellTyped (reportFailure cr reason msg now).status.conditions :=
  (h.setCondition (.inl rfl) false reason msg cr.generation _).setCondition (.inr (.inr rfl)) false
    reason msg cr.generation _

theorem wellTyped_reportProbe (h : WellTyped cr.status.conditions) (st : Status)
    (now : String → Time) : WellTyped (reportProbe cr st now).status.conditions :=
  ((h.setCondition (.inl rfl) _ _ _ cr.generation _).setCondition (.inr (.inl rfl)) _ _ _
    cr.generation _).setCondition (.inr (.inr rfl)) _ _ _ cr.generation _

/-- After a failed connection: the two conditions it sets, and `FluxInstalled` as it was stored. -/
theorem mem_reportFailure (h : WellTyped cr.status.conditions) {reason msg : String}
    {c : Condition} (hc : c ∈ (reportFailure cr reason msg now).status.conditions) :
    (c.type ≠ conditionFluxInstalled ∧ c.status = .conditionFalse ∧
        c.observedGeneration = cr.generation) ∨
      (c.type = conditionFluxInstalled ∧ c ∈ cr.status.conditions) := by
  have hreach := h.setCondition (.inl rfl) false reason msg cr.generation (now conditionReachable)
  rcases (wellTyped_reportFailure h reason msg now).known c hc with ht | ht | ht
  · have hready : c.type ≠ conditionReady := ht ▸ reachable_ne_ready
    have hset := of_mem_setCondition h.once ((mem_setCondition_of_ne hready).mp hc) ht
    exact .inl ⟨ht ▸ reachable_ne_fluxInstalled, hset⟩
  · have hready : c.type ≠ conditionReady := ht ▸ fluxInstalled_ne_ready
    have hreachable : c.type ≠ conditionReachable := ht ▸ reachable_ne_fluxInstalled.symm
    exact .inr ⟨ht, (mem_setCondition_of_ne hreachable).mp ((mem_setCondition_of_ne hready).mp hc)⟩
  · exact .inl ⟨ht ▸ fluxInstalled_ne_ready.symm, of_mem_setCondition hreach.once hc ht⟩

/-- A stored `FluxInstalled` is written again after a failed connection. -/
theorem mem_reportFailure_of_fluxInstalled {reason msg : String} {c : Condition}
    (hc : c ∈ cr.status.conditions) (ht : c.type = conditionFluxInstalled) :
    c ∈ (reportFailure cr reason msg now).status.conditions := by
  have hready : c.type ≠ conditionReady := ht ▸ fluxInstalled_ne_ready
  have hreachable : c.type ≠ conditionReachable := ht ▸ reachable_ne_fluxInstalled.symm
  exact (mem_setCondition_of_ne hready).mpr ((mem_setCondition_of_ne hreachable).mpr hc)

theorem says_reachable_reportFailure (reason msg : String) :
    Says (reportFailure cr reason msg now).status.conditions conditionReachable
      .conditionFalse := by
  have hset : ∃ c ∈ setCondition conditionReachable false reason msg cr.generation
      (now conditionReachable) cr.status.conditions, c.type = conditionReachable ∧
        c.status = .conditionFalse := exists_mem_setCondition
  obtain ⟨c, hc, ht, hs⟩ := hset
  exact ⟨c, (mem_setCondition_of_ne (ht ▸ reachable_ne_ready)).mpr hc, ht, hs⟩

/-- What is written after a failed connection is coherent exactly when the stored `FluxInstalled`
is absent, or not true and of this generation. -/
theorem coherent_reportFailure_iff (h : WellTyped cr.status.conditions) (reason msg : String) :
    Coherent (reportFailure cr reason msg now) ↔
      ∀ c ∈ cr.status.conditions, c.type = conditionFluxInstalled →
        c.status ≠ .conditionTrue ∧ c.observedGeneration = cr.generation := by
  constructor
  · intro hcoh c hc ht
    have hmem : c ∈ (reportFailure cr reason msg now).status.conditions :=
      mem_reportFailure_of_fluxInstalled hc ht
    exact ⟨fun hs => hcoh.flux ⟨⟨c, hmem, ht, hs⟩, says_reachable_reportFailure reason msg⟩,
      hcoh.generation c hmem⟩
  · intro hflux
    refine ⟨(wellTyped_reportFailure h reason msg now).once, ?_, ?_, ?_⟩
    · rintro ⟨c, hc, ht, hs⟩
      rcases mem_reportFailure h hc with ⟨-, hfalse, -⟩ | ⟨hf, -⟩
      · exact absurd (hs.symm.trans hfalse) (by decide)
      · exact absurd (hf.symm.trans ht) fluxInstalled_ne_ready
    · rintro ⟨⟨c, hc, ht, hs⟩, -⟩
      rcases mem_reportFailure h hc with ⟨hf, -⟩ | ⟨-, hold⟩
      · exact hf ht
      · exact (hflux c hold ht).1 hs
    · intro c hc
      rcases mem_reportFailure h hc with ⟨-, -, hgen⟩ | ⟨ht, hold⟩
      · exact hgen
      · exact (hflux c hold ht).2

/-- After a probe: the three conditions as the probe found them. -/
theorem mem_reportProbe (h : WellTyped cr.status.conditions) {st : Status} {c : Condition}
    (hc : c ∈ (reportProbe cr st now).status.conditions) :
    c.observedGeneration = cr.generation ∧
      (c.type = conditionReachable → c.status = .ofBool st.reachable) ∧
      (c.type = conditionFluxInstalled → c.status = .ofBool st.fluxInstalled) ∧
      (c.type = conditionReady → c.status = .ofBool (st.reachable && st.lastError = "")) := by
  have hreach := h.setCondition (.inl rfl) st.reachable (reachableReason st) (reachableMessage st)
    cr.generation (now conditionReachable)
  have hflux := hreach.setCondition (.inr (.inl rfl)) st.fluxInstalled (fluxReason st)
    (fluxMessage st) cr.generation (now conditionFluxInstalled)
  rcases (wellTyped_reportProbe h st now).known c hc with ht | ht | ht
  · have hready : c.type ≠ conditionReady := ht ▸ reachable_ne_ready
    have hfluxne : c.type ≠ conditionFluxInstalled := ht ▸ reachable_ne_fluxInstalled
    have hset := of_mem_setCondition h.once
      ((mem_setCondition_of_ne hfluxne).mp ((mem_setCondition_of_ne hready).mp hc)) ht
    exact ⟨hset.2, fun _ => hset.1, fun hf => absurd hf hfluxne, fun hr => absurd hr hready⟩
  · have hready : c.type ≠ conditionReady := ht ▸ fluxInstalled_ne_ready
    have hreachable : c.type ≠ conditionReachable := ht ▸ reachable_ne_fluxInstalled.symm
    have hset := of_mem_setCondition hreach.once ((mem_setCondition_of_ne hready).mp hc) ht
    exact ⟨hset.2, fun hr => absurd hr hreachable, fun _ => hset.1, fun hr => absurd hr hready⟩
  · have hreachable : c.type ≠ conditionReachable := ht ▸ reachable_ne_ready.symm
    have hfluxne : c.type ≠ conditionFluxInstalled := ht ▸ fluxInstalled_ne_ready.symm
    have hset := of_mem_setCondition hflux.once hc ht
    exact ⟨hset.2, fun hr => absurd hr hreachable, fun hf => absurd hf hfluxne, fun _ => hset.1⟩

theorem says_reachable_reportProbe (st : Status) :
    Says (reportProbe cr st now).status.conditions conditionReachable (.ofBool st.reachable) := by
  have hset : ∃ c ∈ setCondition conditionReachable st.reachable (reachableReason st)
      (reachableMessage st) cr.generation (now conditionReachable) cr.status.conditions,
      c.type = conditionReachable ∧ c.status = .ofBool st.reachable := exists_mem_setCondition
  obtain ⟨c, hc, ht, hs⟩ := hset
  have hready : c.type ≠ conditionReady := ht ▸ reachable_ne_ready
  have hflux : c.type ≠ conditionFluxInstalled := ht ▸ reachable_ne_fluxInstalled
  exact ⟨c, (mem_setCondition_of_ne hready).mpr ((mem_setCondition_of_ne hflux).mpr hc), ht, hs⟩

theorem ofBool_eq_true {ok : Bool} : ConditionStatus.ofBool ok = .conditionTrue ↔ ok = true := by
  cases ok with
  | false => decide
  | true => decide

/-- What is written after a probe is coherent. -/
theorem coherent_reportProbe (h : WellTyped cr.status.conditions) (t : Time) (remote : Remote) :
    Coherent (reportProbe cr (probe t remote) now) where
  once := (wellTyped_reportProbe h _ now).once
  ready := by
    rintro ⟨c, hc, ht, hs⟩
    have hok := (mem_reportProbe h hc).2.2.2 ht
    rw [hs, eq_comm, ofBool_eq_true, Bool.and_eq_true] at hok
    have htells : Says (reportProbe cr (probe t remote) now).status.conditions conditionReachable
        (.ofBool (probe t remote).reachable) := says_reachable_reportProbe _
    rwa [hok.1] at htells
  flux := by
    rintro ⟨⟨c, hc, ht, hs⟩, ⟨d, hd, hdt, hds⟩⟩
    have hinstalled := (mem_reportProbe h hc).2.2.1 ht
    have hreachable := (mem_reportProbe h hd).2.1 hdt
    rw [hs, eq_comm, ofBool_eq_true] at hinstalled
    rw [hds, reachable_of_fluxInstalled hinstalled] at hreachable
    exact absurd hreachable (by decide)
  generation := fun c hc => (mem_reportProbe h hc).1

end Written

/-! ## Runs -/

open Freshness

variable {ρ κ : Type*}

/-- What happens to the Cluster objects: as in `Freshness`, with what the remote API server answers
in place of the probe's result. -/
inductive Event (ρ κ : Type*) where
  | create (name : String) (spec : ClusterSpec)
  | update (name : String) (spec : ClusterSpec)
  | delete (name : String)
  | reconcile (req : String) (readErr : Option String) (a : Answers ρ κ) (probedAt : Time)
      (remote : Remote)

/-- The answers of a `Reconcile` whose probe is `Probe`'s. -/
def probeAnswers (a : Answers ρ κ) (probedAt : Time) (remote : Remote) : Answers ρ κ :=
  { a with probe := probe probedAt remote }

/-- The step of `Freshness` that an event is. -/
def Event.action : Event ρ κ → Action ρ κ
  | .create name spec => .create name spec
  | .update name spec => .update name spec
  | .delete name => .delete name
  | .reconcile req readErr a probedAt remote =>
    .reconcile req readErr (probeAnswers a probedAt remote)

/-- The world after an event. -/
def probedStep (r : ClusterReconciler ρ) (w : World ρ κ) (e : Event ρ κ) : Option (World ρ κ) :=
  step r w e.action

/-- The object that an event hands to `Status().Update`. -/
def writtenBy (r : ClusterReconciler ρ) (w : World ρ κ) : Event ρ κ → Option Cluster
  | .create _ _ => none
  | .update _ _ => none
  | .delete _ => none
  | .reconcile req readErr a probedAt remote =>
    (r.reconcile w.store req (w.fetch req readErr) (probeAnswers a probedAt remote)).written

/-- What a step of the run writes is coherent. -/
def WritesCoherent (r : ClusterReconciler ρ) (w : World ρ κ) (e : Event ρ κ) : Prop :=
  ∀ cr, writtenBy r w e = some cr → Coherent cr

/-- A `Reconcile` that cannot set the connection up finds no `FluxInstalled` condition, or one that
is not true and of the object's generation. -/
def Settled (r : ClusterReconciler ρ) (w : World ρ κ) : Event ρ κ → Prop
  | .reconcile req readErr a _ _ => ∀ cr err, w.fetch req readErr = .found cr →
      keep w.store cr a.now = none → r.connect a.toOutside cr.spec.connection = .error err →
      ∀ c ∈ cr.status.conditions, c.type = conditionFluxInstalled →
        c.status ≠ .conditionTrue ∧ c.observedGeneration = cr.generation
  | _ => True

/-- The conditions of every object are well typed. -/
def ObjectsWellTyped (w : World ρ κ) : Prop :=
  ∀ name cr, w.objects name = some cr → WellTyped cr.status.conditions

theorem objectsWellTyped_init : ObjectsWellTyped (World.init : World ρ κ) := by
  intro name cr h
  exact absurd h nofun

theorem wellTyped_of_fetch {w : World ρ κ} (h : ObjectsWellTyped w) {req : String}
    {readErr : Option String} {cr : Cluster} (hf : w.fetch req readErr = .found cr) :
    WellTyped cr.status.conditions := by
  unfold World.fetch at hf
  cases readErr with
  | some err => exact absurd hf nofun
  | none =>
    cases hobj : w.objects req with
    | none =>
      rw [hobj] at hf
      exact absurd hf nofun
    | some cr' =>
      rw [hobj, Fetched.found.injEq] at hf
      exact hf ▸ h req cr' hobj

/-- What any `Reconcile` writes is well typed. -/
theorem wellTyped_written {r : ClusterReconciler ρ} {w : World ρ κ} (h : ObjectsWellTyped w)
    {req : String} {readErr : Option String} {a : Answers ρ κ} {cr' : Cluster}
    (hw : (r.reconcile w.store req (w.fetch req readErr) a).written = some cr') :
    WellTyped cr'.status.conditions := by
  cases hf : w.fetch req readErr with
  | notFound =>
    rw [hf] at hw
    exact absurd hw nofun
  | failed err =>
    rw [hf] at hw
    exact absurd hw nofun
  | found cr =>
    have hcr := wellTyped_of_fetch h hf
    rw [hf] at hw
    rcases reconcile_found_cases r w.store req cr a with
      ⟨p, -, hout⟩ | ⟨-, reason, msg, -, hout⟩ | ⟨-, clients, -, hout⟩
    · rw [hout] at hw
      exact Option.some.inj hw ▸ wellTyped_reportProbe hcr _ _
    · rw [hout] at hw
      exact Option.some.inj hw ▸ wellTyped_reportFailure hcr _ _ _
    · rw [hout] at hw
      exact Option.some.inj hw ▸ wellTyped_reportProbe hcr _ _

theorem objectsWellTyped_writeStatus {w : World ρ κ} (h : ObjectsWellTyped w)
    {written : Option Cluster} (hw : ∀ cr, written = some cr → WellTyped cr.status.conditions)
    (update : Except String Unit) :
    ∀ name cr, w.writeStatus written update name = some cr → WellTyped cr.status.conditions := by
  intro name cr hcr
  cases written with
  | none => exact h name cr hcr
  | some out =>
    cases update with
    | error err => exact h name cr hcr
    | ok _ =>
      rcases update_some hcr with ⟨-, hnew⟩ | ⟨-, hold⟩
      · obtain ⟨cr₀, -, rfl⟩ := Option.map_eq_some_iff.mp hnew
        exact hw out rfl
      · exact h name cr hold

theorem objectsWellTyped_step {r : ClusterReconciler ρ} {w w' : World ρ κ} {e : Event ρ κ}
    (h : ObjectsWellTyped w) (hstep : probedStep r w e = some w') : ObjectsWellTyped w' := by
  cases e with
  | create name spec =>
    rw [probedStep, Event.action, step] at hstep
    cases hobj : w.objects name with
    | some cr =>
      rw [hobj] at hstep
      cases hstep
    | none =>
      rw [hobj, Option.some.injEq] at hstep
      intro n cr hcr
      rw [← hstep] at hcr
      rcases update_some hcr with ⟨-, hnew⟩ | ⟨-, hold⟩
      · exact Option.some.inj hnew ▸ wellTyped_nil
      · exact h n cr hold
  | update name spec =>
    rw [probedStep, Event.action, step] at hstep
    cases hobj : w.objects name with
    | none =>
      rw [hobj] at hstep
      cases hstep
    | some cr₀ =>
      rw [hobj, Option.some.injEq] at hstep
      intro n cr hcr
      rw [← hstep] at hcr
      rcases update_some hcr with ⟨-, hnew⟩ | ⟨-, hold⟩
      · rw [← Option.some.inj hnew]
        exact h name cr₀ hobj
      · exact h n cr hold
  | delete name =>
    rw [probedStep, Event.action, step, Option.some.injEq] at hstep
    intro n cr hcr
    rw [← hstep] at hcr
    rcases update_some hcr with ⟨-, hnone⟩ | ⟨-, hold⟩
    · cases hnone
    · exact h n cr hold
  | reconcile req readErr a probedAt remote =>
    rw [probedStep, Event.action, step, Option.some.injEq] at hstep
    rw [← hstep]
    exact objectsWellTyped_writeStatus h (fun cr hcr => wellTyped_written h hcr) _

/-- One step writes a coherent status exactly when it is settled. -/
theorem writesCoherent_iff_settled {r : ClusterReconciler ρ} {w : World ρ κ}
    (h : ObjectsWellTyped w) (e : Event ρ κ) : WritesCoherent r w e ↔ Settled r w e := by
  cases e with
  | create name spec => exact ⟨fun _ => trivial, fun _ cr hcr => absurd hcr nofun⟩
  | update name spec => exact ⟨fun _ => trivial, fun _ cr hcr => absurd hcr nofun⟩
  | delete name => exact ⟨fun _ => trivial, fun _ cr hcr => absurd hcr nofun⟩
  | reconcile req readErr a probedAt remote =>
    rw [WritesCoherent, Settled, writtenBy]
    cases hf : w.fetch req readErr with
    | notFound => exact ⟨fun _ cr err hfound => absurd hfound nofun, fun _ cr hcr => absurd hcr nofun⟩
    | failed err =>
      exact ⟨fun _ cr err hfound => absurd hfound nofun, fun _ cr hcr => absurd hcr nofun⟩
    | found cr =>
      have hcr := wellTyped_of_fetch h hf
      rcases reconcile_found_cases r w.store req cr (probeAnswers a probedAt remote) with
        ⟨p, hkeep, hout⟩ | ⟨hkeep, reason, msg, hconn, hout⟩ | ⟨hkeep, clients, hconn, hout⟩
      · rw [hout]
        constructor
        · rintro - cr' err ⟨⟩ hnone -
          exact absurd (hkeep.symm.trans hnone) nofun
        · rintro - cr' ⟨⟩
          exact coherent_reportProbe hcr _ _
      · rw [hout]
        constructor
        · rintro hcoh cr' err ⟨⟩ - -
          exact (coherent_reportFailure_iff hcr reason msg).mp (hcoh _ rfl)
        · rintro hset cr' ⟨⟩
          exact (coherent_reportFailure_iff hcr reason msg).mpr (hset cr _ rfl hkeep hconn)
      · rw [hout]
        constructor
        · rintro - cr' err ⟨⟩ - herr
          exact absurd (hconn.symm.trans herr) nofun
        · rintro - cr' ⟨⟩
          exact coherent_reportProbe hcr _ _

/-- Every status written in a run is coherent exactly when every failed connection of the run meets
a settled `FluxInstalled`. -/
theorem along_writesCoherent_iff (r : ClusterReconciler ρ) (es : List (Event ρ κ)) :
    Along (probedStep r) (WritesCoherent r) World.init es ↔
      Along (probedStep r) (Settled r) World.init es :=
  along_congr (fun _ _ _ => objectsWellTyped_step) (fun _ e h => writesCoherent_iff_settled h e)
    objectsWellTyped_init

/-- A cluster with Flux and nothing deployed. -/
def quietRemote : Remote := ⟨.ok "v1.31.0", .ok [], .ok [], .ok 0, .ok 0, .ok 0, .ok 0⟩

/-- Ten minutes later the Secret is gone. -/
def secretGone : Answers (List UInt8) (List UInt8) :=
  { quietAnswers with
    getSecret := fun _ _ => .error "not found"
    now := 600 * second }

/-- A first probe finds Flux; then the credentials are deleted. -/
def credentialsLostRun : List (Event (List UInt8) (List UInt8)) :=
  [.create "prod" (secretSpec "eu" "old"),
    .reconcile "prod" none quietAnswers second quietRemote,
    .reconcile "prod" none secretGone (600 * second) quietRemote]

/-- The second `Reconcile` of `credentialsLostRun` writes `Reachable=False` and leaves
`FluxInstalled=True` beside it. -/
theorem not_along_writesCoherent_credentialsLostRun :
    ¬ Along (probedStep reconciler) (WritesCoherent reconciler) World.init credentialsLostRun := by
  rintro ⟨-, hcreated⟩
  obtain ⟨-, hprobed⟩ := hcreated _ rfl
  obtain ⟨hlost, -⟩ := hprobed _ rfl
  have hcoh := hlost _ rfl
  exact hcoh.flux ⟨⟨_, List.mem_cons_of_mem _ List.mem_cons_self, rfl, rfl⟩,
    ⟨_, List.mem_cons_self, rfl, rfl⟩⟩

end Yafu.Controllers
