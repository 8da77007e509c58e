import Yafu.Controllers.Reconcile

/-!
# When the next `Reconcile` of an unchanged Cluster starts

The loop through the API server and the work queue: a `Reconcile` writes the status, the API server
stores it with whole seconds and announces a change, `For` enqueues the object on every
announcement, and `RequeueAfter` enqueues it after `ProbeEvery`. The queue holds one item per
object, which keeps the earliest time it was asked for.

A `Reconcile` that leaves the stored object as it is (`Quiet`) is followed by a pause of
`ProbeEvery`. Since `LastProbeTime` moves with the clock, a probe that starts in another second
than the stored one is never quiet (`quiet_iff`), and `slowProbeRun` runs back to back.
-/

namespace Yafu.Controllers

open Yafu.Cluster Transition

variable {ρ κ : Type*}

namespace Cadence

/-! ## What the API server stores -/

/-- `metav1.Time` on the wire: whole seconds. -/
def wholeSecond (t : Time) : Time := t / second * second

/-- The status as it is read back after a write. -/
def stamp (st : ClusterStatus) : ClusterStatus :=
  { st with
    conditions := st.conditions.map fun c =>
      { c with lastTransitionTime := wholeSecond c.lastTransitionTime }
    lastProbeTime := st.lastProbeTime.map wholeSecond }

theorem wholeSecond_wholeSecond (t : Time) : wholeSecond (wholeSecond t) = wholeSecond t := by
  have hpos : 0 < second := by decide
  rw [wholeSecond, wholeSecond, Nat.mul_div_cancel _ hpos]

theorem stamp_stamp (st : ClusterStatus) : stamp (stamp st) = stamp st := by
  simp [stamp, wholeSecond_wholeSecond, Function.comp_def]

theorem hasCondition_stamp {t : String} {ok : Bool} {reason msg : String} {gen : ℕ}
    {st : ClusterStatus} :
    HasCondition t ok reason msg gen (stamp st).conditions ↔
      HasCondition t ok reason msg gen st.conditions := by
  simp only [HasCondition, stamp, List.find?_map, Function.comp_def]
  constructor
  · rintro ⟨c, hc, hrest⟩
    obtain ⟨d, hd, rfl⟩ := Option.map_eq_some_iff.mp hc
    exact ⟨d, hd, hrest⟩
  · rintro ⟨c, hc, hrest⟩
    exact ⟨_, Option.map_eq_some_iff.mpr ⟨c, hc, rfl⟩, hrest⟩

/-! ## The loop -/

/-- `stored` is the Cluster object, `readyAt` the work-queue item, `running` tells whether a
`Reconcile` is under way, `starts` when each one started, the latest first. -/
structure World (κ : Type*) where
  clock : Time
  stored : Cluster
  store : Store κ
  readyAt : Option Time
  running : Bool
  starts : List Time

/-- yafu starts with the object enqueued, whatever status it finds. -/
def World.init (cr : Cluster) : World κ where
  clock := 0
  stored := { cr with status := stamp cr.status }
  store := .new
  readyAt := some 0
  running := false
  starts := []

/-- Time passes, a worker takes the item, or the running `Reconcile` returns; `backoff` is the
delay of the rate limiter for a call that fails. -/
inductive Action (ρ κ : Type*)
  | wait (d : Time)
  | start
  | finish (readErr : Option String) (a : Answers ρ κ) (backoff : Time)

/-- Add the item to the queue for time `t`. -/
def enqueue (readyAt : Option Time) (t : Time) : Option Time :=
  some (readyAt.elim t (min t))

/-- The object after `Status().Update`. -/
def written (stored : Cluster) (w : Option Cluster) (u : Except String Unit) : Cluster :=
  match w, u with
  | some cr, .ok () => { stored with status := stamp cr.status }
  | _, _ => stored

/-- The clock readings of the running call lie between its start and now, in source order. -/
def Timely (w : World κ) (a : Answers ρ κ) : Prop :=
  w.starts.headD 0 ≤ a.now ∧ a.now ≤ a.probe.lastProbe ∧ a.probe.lastProbe ≤ w.clock

instance (w : World κ) (a : Answers ρ κ) : Decidable (Timely w a) :=
  inferInstanceAs (Decidable (_ ∧ _))

/-- The world after the running `Reconcile` returned. -/
def World.finish (r : ClusterReconciler ρ) (w : World κ) (readErr : Option String)
    (a : Answers ρ κ) (backoff : Time) : World κ :=
  let f := readErr.elim (Fetched.found w.stored) Fetched.failed
  let out := r.reconcile w.store w.stored.name f a
  let stored := written w.stored out.written a.update
  let announced := if stored = w.stored then w.readyAt else enqueue w.readyAt w.clock
  { w with
    stored, store := out.store, running := false
    readyAt := match out.result with
      | .ok none => announced
      | .ok (some after) => enqueue announced (w.clock + after)
      | .error _ => enqueue announced (w.clock + backoff) }

def step (r : ClusterReconciler ρ) (w : World κ) : Action ρ κ → Option (World κ)
  | .wait d => some { w with clock := w.clock + d }
  | .start =>
    match w.readyAt with
    | none => none
    | some t =>
      if w.running = false ∧ t ≤ w.clock then
        some { w with readyAt := none, running := true, starts := w.clock :: w.starts }
      else none
  | .finish readErr a backoff =>
    if w.running = true ∧ Timely w a then some (w.finish r readErr a backoff) else none

/-- After the first `Reconcile`, consecutive starts are at least `ProbeEvery` apart. -/
def Spaced (r : ClusterReconciler ρ) (w : World κ) : Prop :=
  w.starts.dropLast.IsChain fun later earlier => earlier + r.probeEvery ≤ later

/-! ## Quiet calls -/

/-- The status already says that the connection cannot be set up for this reason. -/
def FailureStored (cr : Cluster) (reason msg : String) : Prop :=
  HasCondition conditionReachable false reason msg cr.generation cr.status.conditions ∧
    HasCondition conditionReady false reason msg cr.generation cr.status.conditions

/-- The status already carries this probe result, `LastProbe` in its second included. -/
structure ProbeStored (cr : Cluster) (st : Status) : Prop where
  observedGeneration : cr.status.observedGeneration = cr.generation
  kubernetesVersion : cr.status.kubernetesVersion = st.kubernetesVersion
  fluxVersion : cr.status.fluxVersion = st.fluxVersion
  lastProbeTime : cr.status.lastProbeTime = some (wholeSecond st.lastProbe)
  summary : cr.status.summary = some st.summary
  reachable : HasCondition conditionReachable st.reachable (reachableReason st)
    (reachableMessage st) cr.generation cr.status.conditions
  fluxInstalled : HasCondition conditionFluxInstalled st.fluxInstalled (fluxReason st)
    (fluxMessage st) cr.generation cr.status.conditions
  ready : HasCondition conditionReady (st.reachable && st.lastError = "") (readyReason st)
    (readyMessage st) cr.generation cr.status.conditions

/-- The call finds its outcome stored already. -/
def Quiet (r : ClusterReconciler ρ) (w : World κ) (a : Answers ρ κ) : Prop :=
  match keep w.store w.stored a.now, r.connect a.toOutside w.stored.spec.connection with
  | none, .error (reason, msg) => FailureStored w.stored reason msg
  | _, _ => ProbeStored w.stored a.probe

theorem stamp_reportFailure {cr : Cluster} (hcr : stamp cr.status = cr.status) (reason msg : String)
    (now : String → Time) :
    stamp (reportFailure cr reason msg now).status = cr.status ↔ FailureStored cr reason msg := by
  constructor
  · intro h
    have hready : HasCondition conditionReady false reason msg cr.generation
        (stamp (reportFailure cr reason msg now).status).conditions :=
      hasCondition_stamp.mpr hasCondition_setCondition_self
    have hreach : HasCondition conditionReachable false reason msg cr.generation
        (stamp (reportFailure cr reason msg now).status).conditions :=
      hasCondition_stamp.mpr ((hasCondition_setCondition_ne (by decide)).mpr
        hasCondition_setCondition_self)
    rw [h] at hready hreach
    exact ⟨hreach, hready⟩
  · rintro ⟨hreach, hready⟩
    have h1 : (cr.setReachable false reason msg (now conditionReachable)) = cr := by
      simp [Cluster.setReachable, Cluster.setCond, setCondition_eq_self hreach]
    have h2 : (cr.setReady false reason msg (now conditionReady)) = cr := by
      simp [Cluster.setReady, Cluster.setCond, setCondition_eq_self hready]
    rw [reportFailure, h1, h2, hcr]

theorem stamp_reportProbe {cr : Cluster} (hcr : stamp cr.status = cr.status) (st : Status)
    (now : String → Time) :
    stamp (reportProbe cr st now).status = cr.status ↔ ProbeStored cr st := by
  constructor
  · intro h
    have hready : HasCondition conditionReady (st.reachable && st.lastError = "") (readyReason st)
        (readyMessage st) cr.generation (stamp (reportProbe cr st now).status).conditions :=
      hasCondition_stamp.mpr hasCondition_setCondition_self
    have hflux : HasCondition conditionFluxInstalled st.fluxInstalled (fluxReason st)
        (fluxMessage st) cr.generation (stamp (reportProbe cr st now).status).conditions :=
      hasCondition_stamp.mpr ((hasCondition_setCondition_ne (by decide)).mpr
        hasCondition_setCondition_self)
    have hreach : HasCondition conditionReachable st.reachable (reachableReason st)
        (reachableMessage st) cr.generation (stamp (reportProbe cr st now).status).conditions :=
      hasCondition_stamp.mpr ((hasCondition_setCondition_ne (by decide)).mpr
        ((hasCondition_setCondition_ne (by decide)).mpr hasCondition_setCondition_self))
    rw [h] at hready hflux hreach
    exact ⟨congrArg ClusterStatus.observedGeneration h.symm,
      congrArg ClusterStatus.kubernetesVersion h.symm, congrArg ClusterStatus.fluxVersion h.symm,
      congrArg ClusterStatus.lastProbeTime h.symm, congrArg ClusterStatus.summary h.symm,
      hreach, hflux, hready⟩
  · rintro ⟨h1, h2, h3, h4, h5, hreach, hflux, hready⟩
    have hconds : (reportProbe cr st now).status.conditions = cr.status.conditions := by
      simp only [reportProbe, Cluster.setReady, Cluster.setFluxInstalled, Cluster.setReachable,
        Cluster.setCond, setCondition_eq_self hreach, setCondition_eq_self hflux,
        setCondition_eq_self hready]
    have hlist := congrArg ClusterStatus.conditions hcr
    simp only [stamp] at hlist ⊢
    rw [hconds, hlist]
    obtain ⟨name, uid, generation, spec, conds, og, kv, fv, sm, lp⟩ := cr
    simp only at h1 h2 h3 h4 h5
    subst h1 h2 h3 h4 h5
    rfl

/-- A call that neither fails to read nor to write leaves the stored object as it is exactly when
it is quiet. -/
theorem quiet_iff (r : ClusterReconciler ρ) {w : World κ} (hw : stamp w.stored.status = w.stored.status)
    (a : Answers ρ κ) (hu : a.update = .ok ()) (backoff : Time) :
    (w.finish r none a backoff).stored = w.stored ↔ Quiet r w a := by
  have hstatus : ∀ st, ({ w.stored with status := st } = w.stored ↔ st = w.stored.status) := by
    intro st
    obtain ⟨name, uid, generation, spec, status⟩ := w.stored
    simp
  rcases reconcile_found_cases r w.store w.stored.name w.stored a with
    ⟨p, hk, hout⟩ | ⟨hk, reason, msg, hc, hout⟩ | ⟨hk, c, hc, hout⟩
  · simp only [World.finish, Option.elim_none, hout, Quiet, hk, hu, written,
      ClusterReconciler.probeEntry, ClusterReconciler.requeueAfter, hstatus]
    exact stamp_reportProbe hw _ _
  · simp only [World.finish, Option.elim_none, hout, Quiet, hk, hc, hu, written,
      ClusterReconciler.requeueAfter, hstatus]
    exact stamp_reportFailure hw _ _ _
  · simp only [World.finish, Option.elim_none, hout, Quiet, hk, hc, hu, written,
      ClusterReconciler.probeEntry, ClusterReconciler.requeueAfter, hstatus]
    exact stamp_reportProbe hw _ _

/-- A call that reaches its status update and writes it asks to be called again after
`ProbeEvery`. -/
theorem reconcile_found_result (r : ClusterReconciler ρ) (s : Store κ) (req : String) (cr : Cluster)
    (a : Answers ρ κ) (hu : a.update = .ok ()) :
    (r.reconcile s req (.found cr) a).result = .ok (some r.probeEvery) := by
  rcases reconcile_found_cases r s req cr a with ⟨_, _, h⟩ | ⟨_, _, _, _, h⟩ | ⟨_, _, _, h⟩ <;>
    rw [h] <;> simp [ClusterReconciler.probeEntry, ClusterReconciler.requeueAfter, hu, Except.map]

/-! ## The invariant -/

/-- After the first call, a call reads and writes without an error, and is quiet. -/
def QuietAfterFirst (r : ClusterReconciler ρ) (w : World κ) : Action ρ κ → Prop
  | .finish readErr a _ =>
    2 ≤ w.starts.length → readErr = none ∧ a.update = .ok () ∧ Quiet r w a
  | _ => True

/-- Between calls the queue item waits out `ProbeEvery` since the last start; during a call the
queue is empty. -/
structure Inv (r : ClusterReconciler ρ) (w : World κ) : Prop where
  stamped : stamp w.stored.status = w.stored.status
  past : ∀ t ∈ w.starts, t ≤ w.clock
  spaced : Spaced r w
  idle : w.running = false → 2 ≤ w.starts.length →
    ∀ t ∈ w.readyAt, w.starts.headD 0 + r.probeEvery ≤ t
  running : w.running = true → w.starts ≠ [] ∧ w.readyAt = none

theorem inv_init (r : ClusterReconciler ρ) (cr : Cluster) : Inv r (World.init cr : World κ) where
  stamped := stamp_stamp _
  past := by simp [World.init]
  spaced := by simp [Spaced, World.init]
  idle := by simp [World.init]
  running := by simp [World.init]

section Preservation

variable {r : ClusterReconciler ρ} {w : World κ}

theorem Inv.start (h : Inv r w) {t : Time} (ht : w.readyAt = some t) (hidle : w.running = false)
    (hle : t ≤ w.clock) :
    Inv r { w with readyAt := none, running := true, starts := w.clock :: w.starts } where
  stamped := h.stamped
  past := by
    intro u hu
    rcases List.mem_cons.mp hu with rfl | hu
    · exact Nat.le_refl _
    · exact h.past u hu
  spaced := by
    have hspaced := h.spaced
    have hready := h.idle hidle
    simp only [Spaced] at hspaced ⊢
    cases hs : w.starts with
    | nil => simp
    | cons last rest =>
      cases rest with
      | nil => simp
      | cons prev rest =>
        rw [hs] at hspaced hready
        rw [List.dropLast_cons_cons, List.dropLast_cons_cons]
        rw [List.dropLast_cons_cons] at hspaced
        refine List.isChain_cons_cons.mpr ⟨?_, hspaced⟩
        exact Nat.le_trans (hready (by simp) t ht) hle
  idle := by simp
  running := by simp

theorem Inv.finish (h : Inv r w) (hrun : w.running = true) {readErr : Option String}
    {a : Answers ρ κ} {backoff : Time} (hok : QuietAfterFirst r w (.finish readErr a backoff)) :
    Inv r (w.finish r readErr a backoff) where
  stamped := by
    simp only [World.finish, written]
    split
    · exact stamp_stamp _
    · exact h.stamped
  past := h.past
  spaced := h.spaced
  idle := by
    rintro - htwo t ht
    obtain ⟨rfl, hu, hq⟩ := hok htwo
    have hkeep : written w.stored
        (r.reconcile w.store w.stored.name (.found w.stored) a).written a.update = w.stored :=
      (quiet_iff r h.stamped a hu backoff).mpr hq
    obtain ⟨hne, hready⟩ := h.running hrun
    -- nothing was announced, so the only request is the call's own
    have hat : (w.finish r none a backoff).readyAt = some (w.clock + r.probeEvery) := by
      simp [World.finish, hkeep, reconcile_found_result r _ _ _ a hu, enqueue, hready]
    rw [hat, Option.mem_some_iff] at ht
    obtain ⟨last, rest, hs⟩ := List.exists_cons_of_ne_nil hne
    have hlast := h.past last (by simp [hs])
    simp only [World.finish, hs, List.headD_cons]
    rw [← ht]
    exact Nat.add_le_add_right hlast _
  running := by simp [World.finish]

theorem inv_step {a : Action ρ κ} {w' : World κ} (h : Inv r w) (hok : QuietAfterFirst r w a)
    (hstep : step r w a = some w') : Inv r w' := by
  cases a with
  | wait d =>
    simp only [step, Option.some.injEq] at hstep
    subst hstep
    exact { h with past := fun t ht => Nat.le_add_right_of_le (h.past t ht) }
  | start =>
    simp only [step] at hstep
    split at hstep
    · simp at hstep
    rename_i t ht
    split at hstep <;> simp only [Option.some.injEq, reduceCtorEq] at hstep
    rename_i hguard
    exact hstep ▸ h.start ht hguard.1 hguard.2
  | finish readErr a backoff =>
    simp only [step] at hstep
    split at hstep <;> simp only [Option.some.injEq, reduceCtorEq] at hstep
    rename_i hguard
    exact hstep ▸ h.finish hguard.1 hok

end Preservation

/-! ## Over whole runs -/

/-- **Cadence of quiet calls.** If every call after the first finds its outcome stored already, the
starts after the first are at least `ProbeEvery` apart. -/
theorem spaced_of_quiet (r : ClusterReconciler ρ) (cr : Cluster) (as : List (Action ρ κ))
    (hok : Along (step r) (QuietAfterFirst r) (World.init cr) as) (w : World κ)
    (hrun : run (step r) (World.init cr) as = some w) : Spaced r w :=
  (run_induct (fun _ _ _ h ho hs => inv_step h ho hs) (inv_init r cr) hok hrun).spaced

/-! ### A probe that takes two seconds -/

/-- A successful probe started at `t`. -/
def answersAt (t : Time) : Answers Unit Unit where
  toOutside := homeOutside
  now := t
  builtAt := t
  probe := { reachable := true, fluxInstalled := true, lastProbe := t }
  conditionNow := fun _ => t
  update := .ok ()

/-- Every call moves `LastProbeTime`, so every write starts the next call. -/
def slowProbeRun : List (Action Unit Unit) :=
  [.start, .wait (2 * second), .finish none (answersAt 0) 0,
    .start, .wait (2 * second), .finish none (answersAt (2 * second)) 0, .start]

/-- The second and the third call of `slowProbeRun` start two seconds apart. -/
theorem not_spaced_slowProbeRun :
    ∃ w, run (step homeReconciler) (World.init homeCluster) slowProbeRun = some w ∧
      ¬ Spaced homeReconciler w := by
  obtain ⟨w, hrun, hstarts⟩ : ∃ w, run (step homeReconciler) (World.init homeCluster) slowProbeRun =
      some w ∧ w.starts = [4 * second, 2 * second, 0] := ⟨_, rfl, rfl⟩
  refine ⟨w, hrun, ?_⟩
  rw [Spaced, hstarts]
  decide

/-- yafu outside a cluster: the connection of `homeCluster` fails with the same text each time. -/
def awayReconciler : ClusterReconciler Unit := ⟨none, "yafu-system", 30 * second⟩

/-- The write of the first call starts the second, which stores nothing new. -/
theorem spaced_failingRun : ∃ w, run (step awayReconciler) (World.init homeCluster)
    [.start, .finish none (answersAt 0) 0, .start, .finish none (answersAt 0) 0,
      .wait (30 * second), .start] = some w ∧ Spaced awayReconciler w := by
  refine ⟨_, rfl, spaced_of_quiet awayReconciler homeCluster
    [.start, .finish none (answersAt 0) 0, .start, .finish none (answersAt 0) 0,
      .wait (30 * second), .start]
    (.cons trivial rfl (.cons ?_ rfl (.cons trivial rfl (.cons ?_ rfl
      (.cons trivial rfl (.cons trivial rfl trivial)))))) _ rfl⟩
  · intro htwo
    exact absurd htwo (by decide)
  · exact fun _ => ⟨rfl, rfl, ⟨_, rfl, rfl, rfl, rfl, rfl⟩, ⟨_, rfl, rfl, rfl, rfl, rfl⟩⟩

end Cadence

end Yafu.Controllers
