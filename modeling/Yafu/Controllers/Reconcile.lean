import Yafu.Cluster.Registry
import Yafu.Lib.Transition

/-!
# The Cluster controller

Reference: `internal/controllers/cluster_controller.go`, `api/v1alpha1/cluster_types.go`.

`reconcile` is one whole `Reconcile` call. `Availability` cuts the same call at every point where it
waits for the outside world, so that readers of the registry can run in between.

The REST configuration `ρ` and the client bundle `κ` are the types of client-go's `rest.Config` and
of `cluster.Clients`; nothing here looks into either.
-/

namespace Yafu.Controllers

open Yafu.Cluster

/-! ## `api/v1alpha1` -/

/-- `KubeconfigSecretRef`. -/
structure KubeconfigSecretRef where
  name : String
  «namespace» : String := ""
  key : String := ""
deriving DecidableEq, Repr

/-- `ClusterConnection`. -/
structure ClusterConnection where
  kubeconfigSecretRef : Option KubeconfigSecretRef := none
  inCluster : Bool := false
deriving DecidableEq, Repr

/-- `ClusterSpec`. -/
structure ClusterSpec where
  displayName : String := ""
  region : String := ""
  environment : String := ""
  fluxNamespace : String := ""
  connection : ClusterConnection
deriving DecidableEq, Repr

/-- `metav1.ConditionStatus`. -/
inductive ConditionStatus
  | conditionTrue
  | conditionFalse
  | conditionUnknown
deriving DecidableEq, Repr

/-- `metav1.Condition`. -/
structure Condition where
  type : String
  status : ConditionStatus
  observedGeneration : ℕ
  lastTransitionTime : Time
  reason : String
  message : String
deriving DecidableEq, Repr

def conditionReady : String := "Ready"
def conditionReachable : String := "Reachable"
def conditionFluxInstalled : String := "FluxInstalled"

/-- `ClusterStatus`. -/
structure ClusterStatus where
  conditions : List Condition := []
  observedGeneration : ℕ := 0
  kubernetesVersion : String := ""
  fluxVersion : String := ""
  summary : Option Summary := none
  lastProbeTime : Option Time := none
deriving DecidableEq, Repr

/-- `Cluster`, with the metadata `Reconcile` depends on. -/
structure Cluster where
  name : String
  uid : ℕ
  generation : ℕ
  spec : ClusterSpec
  status : ClusterStatus := {}
deriving DecidableEq, Repr

/-! ## Conditions -/

/-- The status that `setCondition` gives a condition. -/
def ConditionStatus.ofBool (ok : Bool) : ConditionStatus :=
  if ok then .conditionTrue else .conditionFalse

/-- `setCondition`: update the first condition of the type, or append one. -/
def setCondition (t : String) (ok : Bool) (reason msg : String) (gen : ℕ) (now : Time) :
    List Condition → List Condition
  | [] => [⟨t, .ofBool ok, gen, now, reason, msg⟩]
  | c :: cs =>
    if c.type = t then
      { c with
        lastTransitionTime := if c.status = .ofBool ok then c.lastTransitionTime else now
        status := .ofBool ok, reason, message := msg, observedGeneration := gen } :: cs
    else c :: setCondition t ok reason msg gen now cs

/-- The first condition of type `t` says `ok` for this reason, with this message, at this
generation. -/
def HasCondition (t : String) (ok : Bool) (reason msg : String) (gen : ℕ)
    (conds : List Condition) : Prop :=
  ∃ c, conds.find? (·.type = t) = some c ∧ c.status = .ofBool ok ∧ c.reason = reason ∧
    c.message = msg ∧ c.observedGeneration = gen

section SetCondition

variable {t t' : String} {ok ok' : Bool} {reason reason' msg msg' : String} {gen gen' : ℕ}
  {now : Time} {conds : List Condition}

theorem find?_setCondition_ne (h : t' ≠ t) :
    (setCondition t ok reason msg gen now conds).find? (·.type = t') =
      conds.find? (·.type = t') := by
  induction conds with
  | nil => simp [setCondition, h.symm]
  | cons c cs ih =>
    rw [setCondition]
    split
    · rename_i hc
      simp [hc, h.symm]
    · simp only [List.find?_cons, ih]

theorem hasCondition_setCondition_self :
    HasCondition t ok reason msg gen (setCondition t ok reason msg gen now conds) := by
  induction conds with
  | nil => exact ⟨⟨t, .ofBool ok, gen, now, reason, msg⟩, by simp [setCondition], rfl, rfl, rfl, rfl⟩
  | cons c cs ih =>
    rw [setCondition]
    split
    · rename_i hc
      refine ⟨⟨c.type, .ofBool ok, gen, ?_, reason, msg⟩, ?_, rfl, rfl, rfl, rfl⟩
      · exact if c.status = .ofBool ok then c.lastTransitionTime else now
      · simp [hc]
    · rename_i hc
      obtain ⟨d, hd, hrest⟩ := ih
      exact ⟨d, by simp only [List.find?_cons, hc, decide_false, hd], hrest⟩

theorem hasCondition_setCondition_ne (h : t' ≠ t) :
    HasCondition t' ok' reason' msg' gen' (setCondition t ok reason msg gen now conds) ↔
      HasCondition t' ok' reason' msg' gen' conds := by
  rw [HasCondition, HasCondition, find?_setCondition_ne h]

/-- Setting a condition to what it is already leaves the list alone, `LastTransitionTime`
included. -/
theorem setCondition_eq_self (h : HasCondition t ok reason msg gen conds) :
    setCondition t ok reason msg gen now conds = conds := by
  induction conds with
  | nil => obtain ⟨c, hc, -⟩ := h; simp at hc
  | cons c cs ih =>
    obtain ⟨d, hd, hrest⟩ := h
    rw [setCondition]
    rw [List.find?_cons] at hd
    split at hd
    · rename_i hc
      obtain rfl := Option.some.inj hd
      obtain ⟨h1, rfl, rfl, rfl⟩ := hrest
      rw [if_pos (by simpa using hc), if_pos h1, ← h1]
    · rename_i hc
      rw [if_neg (by simpa using hc), ih ⟨d, hd, hrest⟩]

end SetCondition

/-- Set one condition of a `Cluster`, with the generation it is reconciled at. -/
def Cluster.setCond (cr : Cluster) (t : String) (ok : Bool) (reason msg : String) (now : Time) :
    Cluster :=
  { cr with status := { cr.status with
      conditions := setCondition t ok reason msg cr.generation now cr.status.conditions } }

def Cluster.setReachable (cr : Cluster) := cr.setCond conditionReachable
def Cluster.setFluxInstalled (cr : Cluster) := cr.setCond conditionFluxInstalled
def Cluster.setReady (cr : Cluster) := cr.setCond conditionReady

def reachableReason (s : Status) : String := if s.reachable then "Connected" else "ProbeFailed"

def reachableMessage (s : Status) : String :=
  if s.reachable then "Kubernetes " ++ s.kubernetesVersion
  else if s.lastError ≠ "" then s.lastError
  else "API server unreachable"

def fluxReason (s : Status) : String :=
  if s.fluxInstalled then "Detected"
  else if ¬ s.reachable then "ClusterUnreachable"
  else "FluxNotDetected"

def fluxMessage (s : Status) : String :=
  if s.fluxInstalled then "kustomize.toolkit.fluxcd.io API present"
  else if ¬ s.reachable then "cluster unreachable"
  else "Flux CRDs not found on the target cluster"

def readyReason (s : Status) : String :=
  if ¬ s.reachable then "Unreachable"
  else if s.lastError ≠ "" then "ProbeError"
  else "Ready"

def readyMessage (s : Status) : String :=
  if s.lastError ≠ "" then s.lastError
  else if ¬ s.reachable then "cluster unreachable"
  else "cluster registered and reachable"

def defaultIfEmpty (s def_ : String) : String := if s = "" then def_ else s

/-! ## `ClusterReconciler` -/

/-- `clientCacheMaxAge`. -/
def clientCacheMaxAge : Time := 5 * 60 * second

/-- The fields of `ClusterReconciler` other than the API client and the registry. -/
structure ClusterReconciler (ρ : Type*) where
  homeConfig : Option ρ
  ownNamespace : String
  probeEvery : Time

/-- `SetupWithManager` gives `ProbeEvery` its default. -/
def ClusterReconciler.setupWithManager {ρ : Type*} (r : ClusterReconciler ρ) :
    ClusterReconciler ρ :=
  { r with probeEvery := if r.probeEvery = 0 then 30 * second else r.probeEvery }

/-- What the home cluster and client-go answer while a connection is resolved: the data of a Secret
by namespace and name, and the two constructors. -/
structure Outside (ρ κ : Type*) where
  getSecret : String → String → Except String (List (String × List UInt8))
  restConfigFromKubeConfig : List UInt8 → Except String ρ
  newClients : ρ → Except String κ

/-- `r.Get(ctx, req.NamespacedName, &cr)`. -/
inductive Fetched
  | found (cr : Cluster)
  | notFound
  | failed (err : String)

variable {ρ κ : Type*}

/-- `resolveConnection`. -/
def ClusterReconciler.resolveConnection (r : ClusterReconciler ρ) (o : Outside ρ κ)
    (conn : ClusterConnection) : Except String ρ :=
  if conn.inCluster then
    match r.homeConfig with
    | none => .error "inCluster requested but home config unavailable"
    | some cfg => .ok cfg
  else
    match conn.kubeconfigSecretRef with
    | none => .error "connection: exactly one of inCluster or kubeconfigSecretRef is required"
    | some ref =>
      let ns := if ref.namespace = "" then r.ownNamespace else ref.namespace
      let key := if ref.key = "" then "kubeconfig" else ref.key
      match o.getSecret ns ref.name with
      | .error err => .error s!"read secret {ns}/{ref.name}: {err}"
      | .ok data =>
        match data.lookup key with
        | none => .error s!"secret {ns}/{ref.name} missing key {String.quote key}"
        | some kubeconfig => o.restConfigFromKubeConfig kubeconfig

/-- Resolve the connection and build the clients. The two error branches of `Reconcile` differ in
the reason they report only, so an error is the pair of that reason and the text. -/
def ClusterReconciler.connect (r : ClusterReconciler ρ) (o : Outside ρ κ)
    (conn : ClusterConnection) : Except (String × String) κ :=
  match r.resolveConnection o conn with
  | .error credErr => .error ("CredentialsError", credErr)
  | .ok cfg =>
    match o.newClients cfg with
    | .error err => .error ("ClientBuildError", err)
    | .ok clients => .ok clients

/-- `needRebuild`, for the entry the registry holds. -/
def needRebuild (existing : Entry κ) (cr : Cluster) (now : Time) : Prop :=
  existing.generation ≠ cr.generation ∨ clientCacheMaxAge < now - existing.builtAt

instance (existing : Entry κ) (cr : Cluster) (now : Time) :
    Decidable (needRebuild existing cr now) := inferInstanceAs (Decidable (_ ∨ _))

/-- The entry `Reconcile` keeps using, `none` where it rebuilds (`!hasExisting` included). -/
def keep (s : Store κ) (cr : Cluster) (now : Time) : Option EntryPtr :=
  match s.registry.get cr.name, s.lookup cr.name with
  | some p, some existing => if needRebuild existing cr now then none else some p
  | _, _ => none

/-- The `cluster.Entry` that `Reconcile` builds. -/
def newEntry (cr : Cluster) (clients : κ) (builtAt : Time) : Entry κ where
  name := cr.name
  displayName := defaultIfEmpty cr.spec.displayName cr.name
  region := cr.spec.region
  environment := cr.spec.environment
  fluxNamespace := defaultIfEmpty cr.spec.fluxNamespace "flux-system"
  clients := clients
  generation := cr.generation
  builtAt := builtAt

/-- The object written when the connection could not be set up. `now` is what `metav1.Now`
reads for each condition type. -/
def reportFailure (cr : Cluster) (reason msg : String) (now : String → Time) : Cluster :=
  (cr.setReachable false reason msg (now conditionReachable)).setReady false reason msg
    (now conditionReady)

/-- The object written after a probe. -/
def reportProbe (cr : Cluster) (st : Status) (now : String → Time) : Cluster :=
  let cr := { cr with status := { cr.status with
    observedGeneration := cr.generation
    kubernetesVersion := st.kubernetesVersion
    fluxVersion := st.fluxVersion
    lastProbeTime := some st.lastProbe
    summary := some st.summary } }
  let cr := cr.setReachable st.reachable (reachableReason st) (reachableMessage st)
    (now conditionReachable)
  let cr := cr.setFluxInstalled st.fluxInstalled (fluxReason st) (fluxMessage st)
    (now conditionFluxInstalled)
  cr.setReady (st.reachable && st.lastError = "") (readyReason st) (readyMessage st)
    (now conditionReady)

/-- What one `Reconcile` call reads from the world: the clock at `time.Since` and at
`BuiltAt: time.Now()`, the probe result, `metav1.Now` and the answer to `Status().Update`. -/
structure Answers (ρ κ : Type*) extends Outside ρ κ where
  now : Time
  builtAt : Time
  probe : Status
  conditionNow : String → Time
  update : Except String Unit

/-- What one `Reconcile` call did: the registry it left, the object it handed to
`Status().Update`, and its result (`RequeueAfter`, or an error). -/
structure Outcome (κ : Type*) where
  store : Store κ
  written : Option Cluster := none
  result : Except String (Option Time) := .ok none

/-- `requeueAfter`. -/
def ClusterReconciler.requeueAfter (r : ClusterReconciler ρ) (s : Store κ) (cr : Cluster)
    (update : Except String Unit) : Outcome κ :=
  ⟨s, some cr, update.map fun _ => some r.probeEvery⟩

/-- The part of `Reconcile` that follows the choice of the entry. -/
def ClusterReconciler.probeEntry (r : ClusterReconciler ρ) (s : Store κ) (cr : Cluster)
    (e : EntryPtr) (a : Answers ρ κ) : Outcome κ :=
  r.requeueAfter (s.setStatus e a.probe) (reportProbe cr a.probe a.conditionNow) a.update

/-- `Reconcile`. -/
def ClusterReconciler.reconcile (r : ClusterReconciler ρ) (s : Store κ) (req : String)
    (f : Fetched) (a : Answers ρ κ) : Outcome κ :=
  match f with
  | .notFound => ⟨s.delete req, none, .ok none⟩
  | .failed err => ⟨s, none, .error err⟩
  | .found cr =>
    match keep s cr a.now with
    | some existing => r.probeEntry s cr existing a
    | none =>
      match r.connect a.toOutside cr.spec.connection with
      | .error (reason, msg) =>
        r.requeueAfter (s.delete cr.name) (reportFailure cr reason msg a.conditionNow) a.update
      | .ok clients =>
        r.probeEntry (s.set cr.name (newEntry cr clients a.builtAt)) cr s.heap.length a

theorem keep_eq_some {s : Store κ} {cr : Cluster} {now : Time} {p : EntryPtr} :
    keep s cr now = some p ↔ s.registry.get cr.name = some p ∧
      ∃ e, s.heap[p]? = some e ∧ ¬ needRebuild e cr now := by
  cases hp : s.registry.get cr.name with
  | none => simp [keep, hp]
  | some q =>
    obtain ⟨e, he⟩ := Store.lookup_isSome hp
    simp only [keep, hp, Store.lookup_of_get hp, he, Option.some.injEq]
    by_cases hr : needRebuild e cr now
    · rw [if_pos hr]
      refine ⟨fun h => absurd h (by simp), ?_⟩
      rintro ⟨rfl, e', he', hnr⟩
      rw [he, Option.some.injEq] at he'
      exact absurd (he' ▸ hr) hnr
    · rw [if_neg hr, Option.some.injEq]
      refine ⟨fun h => ⟨h, e, h ▸ he, hr⟩, fun h => h.1⟩

/-- Everything a `Reconcile` of an existing object can do: keep the entry, drop it because the
connection cannot be set up, or replace it. -/
theorem reconcile_found_cases (r : ClusterReconciler ρ) (s : Store κ) (req : String) (cr : Cluster)
    (a : Answers ρ κ) :
    (∃ p, keep s cr a.now = some p ∧ r.reconcile s req (.found cr) a = r.probeEntry s cr p a) ∨
    (keep s cr a.now = none ∧ ∃ reason msg,
      r.connect a.toOutside cr.spec.connection = .error (reason, msg) ∧
      r.reconcile s req (.found cr) a =
        r.requeueAfter (s.delete cr.name) (reportFailure cr reason msg a.conditionNow) a.update) ∨
    (keep s cr a.now = none ∧ ∃ clients,
      r.connect a.toOutside cr.spec.connection = .ok clients ∧
      r.reconcile s req (.found cr) a =
        r.probeEntry (s.set cr.name (newEntry cr clients a.builtAt)) cr s.heap.length a) := by
  cases hk : keep s cr a.now with
  | some p => exact Or.inl ⟨p, rfl, by simp only [ClusterReconciler.reconcile, hk]⟩
  | none =>
    refine Or.inr ?_
    cases hc : r.connect a.toOutside cr.spec.connection with
    | error err => exact Or.inl ⟨rfl, err.1, err.2, rfl, by
        simp only [ClusterReconciler.reconcile, hk, hc]⟩
    | ok clients => exact Or.inr ⟨rfl, clients, rfl, by
        simp only [ClusterReconciler.reconcile, hk, hc]⟩

/-! ## The home cluster -/

/-- The in-cluster connection. -/
def homeSpec : ClusterSpec := { connection := { inCluster := true } }

def homeCluster : Cluster := ⟨"home", 1, 1, homeSpec, {}⟩

def homeReconciler : ClusterReconciler Unit := ⟨some (), "yafu-system", 30 * second⟩

/-- Clients that can always be built. -/
def homeOutside : Outside Unit Unit := ⟨fun _ _ => .error "", fun _ => .ok (), fun _ => .ok ()⟩

end Yafu.Controllers
