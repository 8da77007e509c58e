import Yafu.Controllers.Reconcile

/-!
# What API reads see while a healthy cluster is reconciled

A `Reconcile` call cut into the pieces between which other goroutines run, with reads of the
registry and the registry writes of other Cluster objects in between.

`Reconcile` publishes a new entry before it has probed it. While it keeps the entry it has, a
reader always finds the cluster probed (`noFlapping_of_youngClient`); the window of `expiredRun` is
between `Registry.Set` and `SetStatus` of a rebuild.
-/

namespace Yafu.Controllers

open Yafu.Cluster Transition

variable {ρ κ : Type*}

/-! ## `Reconcile` in pieces -/

/-- Where a `Reconcile` call stands: nothing running, the object read, a rebuild decided, a probe
of an entry running, the status ready to be written. -/
inductive Pc
  | idle
  | fetched (cr : Cluster)
  | rebuilding (cr : Cluster)
  | probing (cr : Cluster) (e : EntryPtr)
  | updating (cr : Cluster)

/-- A piece of a `Reconcile` call, with what the outside world answers to it. -/
inductive Call (ρ κ : Type*)
  | fetch (req : String) (f : Fetched)
  | check (now : Time)
  | build (o : Outside ρ κ) (builtAt : Time) (conditionNow : String → Time)
  | probe (st : Status) (conditionNow : String → Time)
  | update (u : Except String Unit)

def stepCall (r : ClusterReconciler ρ) : Store κ × Pc → Call ρ κ → Option (Store κ × Pc)
  | (s, .idle), .fetch req f =>
    match f with
    | .notFound => some (s.delete req, .idle)
    | .failed _ => some (s, .idle)
    | .found cr => some (s, .fetched cr)
  | (s, .fetched cr), .check now =>
    match keep s cr now with
    | some existing => some (s, .probing cr existing)
    | none => some (s, .rebuilding cr)
  | (s, .rebuilding cr), .build o builtAt conditionNow =>
    match r.connect o cr.spec.connection with
    | .error (reason, msg) =>
      some (s.delete cr.name, .updating (reportFailure cr reason msg conditionNow))
    | .ok clients =>
      some (s.set cr.name (newEntry cr clients builtAt), .probing cr s.heap.length)
  | (s, .probing cr e), .probe st conditionNow =>
    some (s.setStatus e st, .updating (reportProbe cr st conditionNow))
  | (s, .updating _), .update _ => some (s, .idle)
  | _, _ => none

/-- The pieces of the call that finds the store `s`. -/
def callPieces (r : ClusterReconciler ρ) (s : Store κ) (req : String) (f : Fetched)
    (a : Answers ρ κ) : List (Call ρ κ) :=
  match f with
  | .found cr =>
    match keep s cr a.now, r.connect a.toOutside cr.spec.connection with
    | some _, _ => [.fetch req f, .check a.now, .probe a.probe a.conditionNow, .update a.update]
    | none, .error _ => [.fetch req f, .check a.now,
        .build a.toOutside a.builtAt a.conditionNow, .update a.update]
    | none, .ok _ => [.fetch req f, .check a.now, .build a.toOutside a.builtAt a.conditionNow,
        .probe a.probe a.conditionNow, .update a.update]
  | _ => [.fetch req f]

/-- With nothing in between, the pieces of a call do to the registry what the call does. -/
theorem run_callPieces (r : ClusterReconciler ρ) (s : Store κ) (req : String) (f : Fetched)
    (a : Answers ρ κ) :
    run (stepCall r) (s, .idle) (callPieces r s req f a) =
      some ((r.reconcile s req f a).store, .idle) := by
  cases f with
  | notFound => rfl
  | failed err => rfl
  | found cr =>
    rcases reconcile_found_cases r s req cr a with
      ⟨p, hk, hout⟩ | ⟨hk, reason, msg, hc, hout⟩ | ⟨hk, c, hc, hout⟩ <;>
      simp [callPieces, run_cons, stepCall, ClusterReconciler.probeEntry,
        ClusterReconciler.requeueAfter, *]

namespace Availability

/-! ## Readers -/

/-- The registry, the running call, whether a call has completed, and the entry pointers that reads
of `name` have handed out. -/
structure World (κ : Type*) where
  store : Store κ
  pc : Pc
  completed : Bool
  handles : List EntryPtr

def World.init : World κ := ⟨.new, .idle, false, []⟩

/-- A piece of a `Reconcile` call for the cluster, a read of it (`Get`, or its element of `List`),
or what the calls for other Cluster objects do to the registry. -/
inductive Action (ρ κ : Type*)
  | call (c : Call ρ κ)
  | read
  | setOther (other : String) (e : Entry κ)
  | deleteOther (other : String)
  | probeOther (p : EntryPtr) (st : Status)

/-- Whether the call ends with this piece after having reached its status update. -/
def Call.isUpdate : Call ρ κ → Bool
  | .update _ => true
  | _ => false

def step (r : ClusterReconciler ρ) (name : String) (w : World κ) : Action ρ κ → Option (World κ)
  | .call c => (stepCall r (w.store, w.pc) c).map fun (s, pc) =>
      { w with store := s, pc, completed := w.completed || Call.isUpdate c }
  | .read => some { w with handles := w.handles ++ (w.store.registry.get name).toList }
  | .setOther other e =>
    if other = name ∨ e.name ≠ other then none else some { w with store := w.store.set other e }
  | .deleteOther other =>
    if other = name then none else some { w with store := w.store.delete other }
  | .probeOther p st =>
    match w.store.heap[p]? with
    | none => none
    | some e => if e.name = name then none else some { w with store := w.store.setStatus p st }

/-- The entry at `p` has been probed and was reachable. -/
def Probed (s : Store κ) (p : EntryPtr) : Prop := ∃ e, s.heap[p]? = some e ∧ e.status.reachable

/-- A read finds the cluster, and it and every earlier reader find it reachable. -/
def SeenHealthy (name : String) (w : World κ) : Prop :=
  (∃ p, w.store.registry.get name = some p ∧ Probed w.store p) ∧ ∀ p ∈ w.handles, Probed w.store p

/-- Once a call has completed, no read sees the cluster missing or unprobed. -/
def NoFlapping (r : ClusterReconciler ρ) (name : String) (as : List (Action ρ κ)) : Prop :=
  ∀ w, run (step r name) World.init as = some w → w.completed → SeenHealthy name w

/-- `cr` is the Cluster object `name` with its unchanged spec. -/
def IsObject (name : String) (generation : ℕ) (spec : ClusterSpec) (cr : Cluster) : Prop :=
  cr.name = name ∧ cr.generation = generation ∧ cr.spec = spec

/-- The object exists unchanged, its connection resolves, and its probes succeed. -/
def Healthy (r : ClusterReconciler ρ) (name : String) (generation : ℕ) (spec : ClusterSpec)
    (_ : World κ) : Action ρ κ → Prop
  | .call (.fetch req f) => req = name ∧ ∃ cr, f = .found cr ∧ IsObject name generation spec cr
  | .call (.build o _ _) => ∃ clients, r.connect o spec.connection = .ok clients
  | .call (.probe st _) => st.reachable
  | _ => True

/-- After the first call, `time.Since(existing.BuiltAt)` stays within `clientCacheMaxAge`. -/
def YoungClient (name : String) (w : World κ) : Action ρ κ → Prop
  | .call (.check now) =>
    w.completed → ∀ e, w.store.lookup name = some e → now - e.builtAt ≤ clientCacheMaxAge
  | _ => True

/-! ## The invariant -/

section Invariant

variable {r : ClusterReconciler ρ} {name : String} {generation : ℕ} {spec : ClusterSpec}

/-- Before the first `Set`: no entry, no handle. -/
def Absent (name : String) (generation : ℕ) (spec : ClusterSpec) (w : World κ) : Prop :=
  w.store.registry.get name = none ∧ w.completed = false ∧ w.handles = [] ∧
    match w.pc with
    | .idle => True
    | .fetched cr => IsObject name generation spec cr
    | .rebuilding cr => IsObject name generation spec cr
    | _ => False

/-- The registry points to `p`, whose entry was built for this object. -/
def Mine (name : String) (generation : ℕ) (s : Store κ) (p : EntryPtr) : Prop :=
  s.registry.get name = some p ∧
    ∃ e, s.heap[p]? = some e ∧ e.name = name ∧ e.generation = generation

/-- From the first `Set` on: one entry, which is unprobed only while the first probe runs. -/
def Present (name : String) (generation : ℕ) (spec : ClusterSpec) (w : World κ) (p : EntryPtr) :
    Prop :=
  Mine name generation w.store p ∧ (∀ q ∈ w.handles, q = p) ∧
    match w.pc with
    | .idle => w.completed ∧ Probed w.store p
    | .fetched cr => IsObject name generation spec cr ∧ w.completed ∧ Probed w.store p
    | .rebuilding _ => False
    | .probing cr e => IsObject name generation spec cr ∧ e = p ∧ (w.completed → Probed w.store p)
    | .updating _ => Probed w.store p

def Inv (name : String) (generation : ℕ) (spec : ClusterSpec) (w : World κ) : Prop :=
  Absent name generation spec w ∨ ∃ p, Present name generation spec w p

theorem inv_init : Inv name generation spec (World.init : World κ) :=
  Or.inl ⟨rfl, rfl, rfl, trivial⟩

/-! ### Registry writes -/

theorem Probed.set {s : Store κ} {p : EntryPtr} (h : Probed s p) (n : String) (e : Entry κ) :
    Probed (s.set n e) p := by
  obtain ⟨e', he, hr⟩ := h
  obtain ⟨hlt, -⟩ := List.getElem?_eq_some_iff.mp he
  exact ⟨e', by rw [Store.set, List.getElem?_append_left hlt, he], hr⟩

theorem probed_setStatus_self {s : Store κ} {p : EntryPtr} {e : Entry κ} {st : Status}
    (he : s.heap[p]? = some e) (hst : st.reachable) : Probed (s.setStatus p st) p :=
  ⟨e.setStatus st, by simp [Store.setStatus, he], hst⟩

theorem Probed.setStatus_ne {s : Store κ} {p q : EntryPtr} (h : Probed s p) (hne : q ≠ p)
    (st : Status) : Probed (s.setStatus q st) p := by
  obtain ⟨e, he, hr⟩ := h
  exact ⟨e, by simp [Store.setStatus, he, hne], hr⟩

theorem Mine.set_ne {s : Store κ} {p : EntryPtr} (h : Mine name generation s p) {n : String}
    (hne : n ≠ name) (e : Entry κ) : Mine name generation (s.set n e) p := by
  obtain ⟨hget, e', he, hn, hg⟩ := h
  obtain ⟨hlt, -⟩ := List.getElem?_eq_some_iff.mp he
  exact ⟨by rw [Store.registry_set, CRDRegistry.get_set_ne _ hne.symm, hget], e',
    by rw [Store.set, List.getElem?_append_left hlt, he], hn, hg⟩

theorem Mine.delete_ne {s : Store κ} {p : EntryPtr} (h : Mine name generation s p) {n : String}
    (hne : n ≠ name) : Mine name generation (s.delete n) p :=
  ⟨by rw [Store.registry_delete, CRDRegistry.get_delete_ne _ hne.symm, h.1], h.2⟩

theorem Mine.setStatus {s : Store κ} {p : EntryPtr} (h : Mine name generation s p) (q : EntryPtr)
    (st : Status) : Mine name generation (s.setStatus q st) p := by
  obtain ⟨hget, e, he, hn, hg⟩ := h
  by_cases hqp : q = p
  · exact ⟨hget, e.setStatus st, by simp [Store.setStatus, he, hqp], hn, hg⟩
  · exact ⟨hget, e, by simp [Store.setStatus, he, hqp], hn, hg⟩

/-- The entry this object's `Reconcile` builds is its own. -/
theorem mine_newEntry {s : Store κ} {cr : Cluster} (h : IsObject name generation spec cr) (c : κ)
    (t : Time) : Mine name generation (s.set cr.name (newEntry cr c t)) s.heap.length := by
  obtain ⟨rfl, rfl, -⟩ := h
  exact ⟨by simp, newEntry cr c t, by simp [Store.set], rfl, rfl⟩

/-- Within the age limit the entry of an unchanged object is kept. -/
theorem keep_of_young {s : Store κ} {cr : Cluster} {p : EntryPtr} {now : Time}
    (hcr : IsObject name generation spec cr) (hp : Mine name generation s p)
    (hyoung : ∀ e, s.lookup name = some e → now - e.builtAt ≤ clientCacheMaxAge) :
    keep s cr now = some p := by
  obtain ⟨rfl, rfl, -⟩ := hcr
  obtain ⟨hget, e, he, -, hg⟩ := hp
  refine keep_eq_some.mpr ⟨hget, e, he, ?_⟩
  rintro (hne | hold)
  · exact hne hg
  · exact Nat.not_lt.mpr (hyoung e (by rw [Store.lookup_of_get hget, he])) hold

theorem keep_of_unregistered {s : Store κ} {cr : Cluster} (h : s.registry.get cr.name = none)
    (now : Time) : keep s cr now = none := by simp [keep, h]

/-! ### What a step preserves -/

theorem inv_call {w w' : World κ} {c : Call ρ κ} (h : Inv name generation spec w)
    (hhealthy : Healthy r name generation spec w (.call c)) (hyoung : YoungClient (ρ := ρ) name w (.call c))
    (hstep : step r name w (.call c) = some w') : Inv name generation spec w' := by
  obtain ⟨s, pc, completed, handles⟩ := w
  simp only [step, Option.map_eq_some_iff] at hstep
  obtain ⟨⟨s', pc'⟩, hcall, rfl⟩ := hstep
  cases c with
  | fetch req f =>
    cases pc <;> simp only [stepCall, reduceCtorEq] at hcall
    obtain ⟨rfl, cr, rfl, hcr⟩ := hhealthy
    simp only [Option.some.injEq, Prod.mk.injEq] at hcall
    obtain ⟨rfl, rfl⟩ := hcall
    rcases h with ⟨hget, hc, hh, -⟩ | ⟨p, hm, hh, hc, hp⟩
    · exact Or.inl ⟨hget, by simpa [Call.isUpdate] using hc, hh, hcr⟩
    · exact Or.inr ⟨p, hm, hh, hcr, by simpa [Call.isUpdate] using hc, hp⟩
  | check now =>
    cases pc <;> simp only [stepCall, reduceCtorEq] at hcall
    rename_i cr
    rcases h with ⟨hget, hc, hh, hcr⟩ | ⟨p, hm, hh, hcr, hc, hp⟩
    · rw [keep_of_unregistered (hcr.1 ▸ hget)] at hcall
      simp only [Option.some.injEq, Prod.mk.injEq] at hcall
      obtain ⟨rfl, rfl⟩ := hcall
      exact Or.inl ⟨hget, by simpa [Call.isUpdate] using hc, hh, hcr⟩
    · rw [keep_of_young hcr hm (hyoung hc)] at hcall
      simp only [Option.some.injEq, Prod.mk.injEq] at hcall
      obtain ⟨rfl, rfl⟩ := hcall
      exact Or.inr ⟨p, hm, hh, hcr, rfl, fun _ => hp⟩
  | build o builtAt conditionNow =>
    cases pc <;> simp only [stepCall, reduceCtorEq] at hcall
    rename_i cr
    obtain ⟨clients, hconn⟩ := hhealthy
    rcases h with ⟨-, hc, hh, hcr⟩ | ⟨p, -, -, hf⟩
    · rw [hcr.2.2, hconn] at hcall
      simp only [Option.some.injEq, Prod.mk.injEq] at hcall
      obtain ⟨rfl, rfl⟩ := hcall
      replace hc : completed = false := hc
      replace hh : handles = [] := hh
      refine Or.inr ⟨s.heap.length, mine_newEntry hcr clients builtAt, by simp [hh], hcr, rfl, ?_⟩
      intro hdone
      simp [hc, Call.isUpdate] at hdone
    · exact hf.elim
  | probe st conditionNow =>
    cases pc <;> simp only [stepCall, reduceCtorEq] at hcall
    simp only [Option.some.injEq, Prod.mk.injEq] at hcall
    obtain ⟨rfl, rfl⟩ := hcall
    rcases h with ⟨-, -, -, hf⟩ | ⟨p, hm, hh, hcr, rfl, -⟩
    · exact hf.elim
    · obtain ⟨e, he, -⟩ := hm.2
      exact Or.inr ⟨_, hm.setStatus _ st, hh, probed_setStatus_self he hhealthy⟩
  | update u =>
    cases pc <;> simp only [stepCall, reduceCtorEq] at hcall
    simp only [Option.some.injEq, Prod.mk.injEq] at hcall
    obtain ⟨rfl, rfl⟩ := hcall
    rcases h with ⟨-, -, -, hf⟩ | ⟨p, hm, hh, hp⟩
    · exact hf.elim
    · exact Or.inr ⟨p, hm, hh, by simp [Call.isUpdate], hp⟩

/-- `Inv` only looks at the registry through `Registry.Get`, `Mine` and `Probed`. -/
theorem Inv.of_store {w : World κ} {s : Store κ} (h : Inv name generation spec w)
    (habsent : w.store.registry.get name = none → s.registry.get name = none)
    (hmine : ∀ p, Mine name generation w.store p → Mine name generation s p ∧
      (Probed w.store p → Probed s p)) :
    Inv name generation spec { w with store := s } := by
  obtain ⟨s₀, pc, completed, handles⟩ := w
  rcases h with ⟨hget, hc, hh, hpc⟩ | ⟨p, hm, hh, hpc⟩
  · exact Or.inl ⟨habsent hget, hc, hh, hpc⟩
  · obtain ⟨hm', hp⟩ := hmine p hm
    refine Or.inr ⟨p, hm', hh, ?_⟩
    cases pc with
    | idle => exact ⟨hpc.1, hp hpc.2⟩
    | fetched cr => exact ⟨hpc.1, hpc.2.1, hp hpc.2.2⟩
    | rebuilding cr => exact hpc
    | probing cr e => exact ⟨hpc.1, hpc.2.1, fun hc => hp (hpc.2.2 hc)⟩
    | updating cr => exact hp hpc

theorem inv_read {w : World κ} (h : Inv name generation spec w) :
    Inv name generation spec
      { w with handles := w.handles ++ (w.store.registry.get name).toList } := by
  rcases h with ⟨hget, hc, hh, hpc⟩ | ⟨p, hm, hh, hpc⟩
  · exact Or.inl ⟨hget, hc, by simp [hget, hh], hpc⟩
  · refine Or.inr ⟨p, hm, ?_, hpc⟩
    intro q hq
    simp only [hm.1, Option.toList_some, List.mem_append, List.mem_singleton] at hq
    exact hq.elim (hh q) id

theorem inv_step {w w' : World κ} {a : Action ρ κ} (h : Inv name generation spec w)
    (hok : Healthy r name generation spec w a ∧ YoungClient name w a)
    (hstep : step r name w a = some w') : Inv name generation spec w' := by
  cases a with
  | call c => exact inv_call h hok.1 hok.2 hstep
  | read =>
    simp only [step, Option.some.injEq] at hstep
    exact hstep ▸ inv_read h
  | setOther other e =>
    simp only [step] at hstep
    split at hstep <;> simp only [Option.some.injEq, reduceCtorEq] at hstep
    rename_i hne
    have hother : other ≠ name := fun hh => hne (Or.inl hh)
    refine hstep ▸ h.of_store ?_ fun p hm => ⟨hm.set_ne hother e, fun hp => hp.set other e⟩
    intro hget
    rw [Store.registry_set, CRDRegistry.get_set_ne _ hother.symm, hget]
  | deleteOther other =>
    simp only [step] at hstep
    split at hstep <;> simp only [Option.some.injEq, reduceCtorEq] at hstep
    rename_i hne
    refine hstep ▸ h.of_store ?_ fun p hm => ⟨hm.delete_ne hne, id⟩
    intro hget
    rw [Store.registry_delete, CRDRegistry.get_delete_ne _ (Ne.symm hne), hget]
  | probeOther q st =>
    simp only [step] at hstep
    split at hstep
    · simp at hstep
    rename_i e he
    split at hstep <;> simp only [Option.some.injEq, reduceCtorEq] at hstep
    rename_i hname
    refine hstep ▸ h.of_store id fun p hm => ⟨hm.setStatus q st, fun hp => hp.setStatus_ne ?_ st⟩
    rintro rfl
    obtain ⟨e', he', hn, -⟩ := hm.2
    rw [he, Option.some.injEq] at he'
    exact hname (he' ▸ hn)

theorem Inv.seenHealthy {w : World κ} (h : Inv name generation spec w) (hc : w.completed) :
    SeenHealthy name w := by
  obtain ⟨s, pc, completed, handles⟩ := w
  obtain rfl : completed = true := hc
  rcases h with ⟨-, hf, -⟩ | ⟨p, hm, hh, hpc⟩
  · simp at hf
  · have hp : Probed s p := by
      cases pc with
      | idle => exact hpc.2
      | fetched cr => exact hpc.2.2
      | rebuilding cr => exact hpc.elim
      | probing cr e => exact hpc.2.2 rfl
      | updating cr => exact hpc
    exact ⟨⟨p, hm.1, hp⟩, fun q hq => hh q hq ▸ hp⟩

end Invariant

/-! ## Over whole runs -/

/-- **No flapping without rebuilds.** While the client stays within its age limit, a healthy and
unchanged cluster is never seen missing or unprobed after its first `Reconcile`, in any interleaving
with reads and with the calls for other clusters. -/
theorem noFlapping_of_youngClient (r : ClusterReconciler ρ) (name : String) (generation : ℕ)
    (spec : ClusterSpec) (as : List (Action ρ κ))
    (hok : Along (step r name)
      (fun w a => Healthy r name generation spec w a ∧ YoungClient name w a) World.init as) :
    NoFlapping r name as := by
  intro w hrun hc
  have hinv : Inv name generation spec w :=
    run_induct (fun _ _ _ h ho hs => inv_step h ho hs) inv_init hok hrun
  exact hinv.seenHealthy hc

/-! ### The window of a rebuild -/

def reachableStatus : Status := { reachable := true, fluxInstalled := true }

/-- A first `Reconcile`, and a second one that has just replaced a client built 301 s earlier. -/
def expiredRun : List (Action Unit Unit) :=
  [.call (.fetch "home" (.found homeCluster)), .call (.check 0),
    .call (.build homeOutside 0 fun _ => 0), .call (.probe reachableStatus fun _ => 0),
    .call (.update (.ok ())), .call (.fetch "home" (.found homeCluster)),
    .call (.check (301 * second)), .call (.build homeOutside (301 * second) fun _ => 0)]

/-- `expiredRun` is a run of a healthy cluster, and a read at its end finds the entry unprobed. -/
theorem not_noFlapping_expiredRun :
    Along (step homeReconciler "home") (Healthy homeReconciler "home" 1 homeSpec) World.init
      expiredRun ∧ ¬ NoFlapping homeReconciler "home" expiredRun := by
  constructor
  · have hobj : IsObject "home" 1 homeSpec homeCluster := ⟨rfl, rfl, rfl⟩
    exact .cons ⟨rfl, homeCluster, rfl, hobj⟩ rfl (.cons trivial rfl (.cons ⟨(), rfl⟩ rfl
      (.cons rfl rfl (.cons trivial rfl (.cons ⟨rfl, homeCluster, rfl, hobj⟩ rfl
      (.cons trivial rfl (.cons ⟨(), rfl⟩ rfl trivial)))))))
  · intro h
    obtain ⟨w, hrun, hc, hstatus⟩ : ∃ w, run (step homeReconciler "home") World.init expiredRun =
        some w ∧ w.completed ∧ (w.store.lookup "home").map Entry.status = some {} :=
      ⟨_, rfl, rfl, rfl⟩
    obtain ⟨⟨p, hget, e, he, hr⟩, -⟩ := h w hrun hc
    rw [Store.lookup_of_get hget, he, Option.map_some, Option.some.injEq] at hstatus
    rw [hstatus] at hr
    exact absurd hr (by decide)

/-- Two `Reconcile`s thirty seconds apart, with a reader in the middle of the second. -/
theorem noFlapping_routineRun : NoFlapping homeReconciler "home"
    [.call (.fetch "home" (.found homeCluster)), .call (.check 0),
      .call (.build homeOutside 0 fun _ => 0), .call (.probe reachableStatus fun _ => 0),
      .call (.update (.ok ())), .call (.fetch "home" (.found homeCluster)),
      .call (.check (30 * second)), .read] := by
  have hobj : IsObject "home" 1 homeSpec homeCluster := ⟨rfl, rfl, rfl⟩
  refine noFlapping_of_youngClient homeReconciler "home" 1 homeSpec _
    (.cons ⟨⟨rfl, homeCluster, rfl, hobj⟩, trivial⟩ rfl (.cons ⟨trivial, by rintro ⟨⟩⟩ rfl
      (.cons ⟨⟨(), rfl⟩, trivial⟩ rfl (.cons ⟨rfl, trivial⟩ rfl (.cons ⟨trivial, trivial⟩ rfl
      (.cons ⟨⟨rfl, homeCluster, rfl, hobj⟩, trivial⟩ rfl
      (.cons ⟨trivial, ?_⟩ rfl (.cons ⟨trivial, trivial⟩ rfl trivial))))))))
  rintro - e ⟨⟩
  decide

end Availability

end Yafu.Controllers
