import Yafu.Controllers.Reconcile

/-!
# Is the registered entry built from the Cluster object that was read?

The world of this module is the API server's `Cluster` objects together with the registry. Users
create, update and delete objects in any order; a `Reconcile` runs at any moment, so any number of
those operations may be coalesced into it. The API server gives a created object a new UID and
generation 1, and raises the generation when the spec changes.

`needRebuild` compares generations and looks at an age. A generation identifies a spec only within
one UID, so the entry is known to be current as long as it is not kept for an object with another
UID (`SameObject`); `staleRun` shows what happens otherwise.
-/

namespace Yafu.Controllers

open Yafu.Cluster Transition

variable {ρ κ : Type*}

namespace Freshness

/-- What an entry was built from. -/
structure Built (ρ κ : Type*) where
  object : Cluster
  outside : Outside ρ κ

/-- The API server and the registry. `origin` is a ghost: for each allocated entry, what it was
built from. -/
structure World (ρ κ : Type*) where
  objects : String → Option Cluster
  nextUid : ℕ
  store : Store κ
  origin : List (Built ρ κ)

def World.init : World ρ κ := ⟨fun _ => none, 0, .new, []⟩

/-- One operation on a `Cluster` object, or one `Reconcile` call. -/
inductive Action (ρ κ : Type*)
  | create (name : String) (spec : ClusterSpec)
  | update (name : String) (spec : ClusterSpec)
  | delete (name : String)
  | reconcile (req : String) (readErr : Option String) (a : Answers ρ κ)

/-- What `r.Get` answers. -/
def World.fetch (w : World ρ κ) (req : String) (readErr : Option String) : Fetched :=
  match readErr, w.objects req with
  | some err, _ => .failed err
  | none, some cr => .found cr
  | none, none => .notFound

/-- The objects after `Status().Update`, which writes the status only. -/
def World.writeStatus (w : World ρ κ) (written : Option Cluster) (update : Except String Unit) :
    String → Option Cluster :=
  match written, update with
  | some cr, .ok () => Function.update w.objects cr.name
      ((w.objects cr.name).map ({ · with status := cr.status }))
  | _, _ => w.objects

/-- The origins after a `Reconcile` that read `f`: one more when it allocated an entry. -/
def World.extendOrigin (w : World ρ κ) (f : Fetched) (a : Answers ρ κ) (s : Store κ) :
    List (Built ρ κ) :=
  match f with
  | .found cr =>
    if s.heap.length = w.store.heap.length then w.origin else w.origin ++ [⟨cr, a.toOutside⟩]
  | _ => w.origin

/-- The world after one `Reconcile` call. -/
def World.reconcile (r : ClusterReconciler ρ) (w : World ρ κ) (req : String)
    (readErr : Option String) (a : Answers ρ κ) : World ρ κ :=
  let f := w.fetch req readErr
  let out := r.reconcile w.store req f a
  { w with
    objects := w.writeStatus out.written a.update
    store := out.store
    origin := w.extendOrigin f a out.store }

def step (r : ClusterReconciler ρ) (w : World ρ κ) : Action ρ κ → Option (World ρ κ)
  | .create name spec =>
    match w.objects name with
    | some _ => none
    | none => some { w with
        objects := Function.update w.objects name (some ⟨name, w.nextUid, 1, spec, {}⟩)
        nextUid := w.nextUid + 1 }
  | .update name spec =>
    match w.objects name with
    | none => none
    | some cr => some { w with
        objects := Function.update w.objects name (some { cr with
          spec
          generation := if cr.spec = spec then cr.generation else cr.generation + 1 }) }
  | .delete name => some { w with objects := Function.update w.objects name none }
  | .reconcile req readErr a => some (w.reconcile r req readErr a)

/-! ## What the registry should hold -/

/-- The entry shows the spec of `cr`: its client comes from that connection, as `outside` answered
when it was built, and its display metadata is that spec's. -/
structure Reflects (r : ClusterReconciler ρ) (cr : Cluster) (outside : Outside ρ κ)
    (e : Entry κ) : Prop where
  clients : r.connect outside cr.spec.connection = .ok e.clients
  name : e.name = cr.name
  displayName : e.displayName = defaultIfEmpty cr.spec.displayName cr.name
  region : e.region = cr.spec.region
  environment : e.environment = cr.spec.environment
  fluxNamespace : e.fluxNamespace = defaultIfEmpty cr.spec.fluxNamespace "flux-system"

/-- The registry is fresh for `req` after a `Reconcile` taken in `w`. An existing object has no
entry only if its connection could not be set up, and else an entry that shows its spec; an absent
object has none. -/
def FreshAfter (r : ClusterReconciler ρ) (w : World ρ κ) (req : String) (a : Answers ρ κ) : Prop :=
  let w' := w.reconcile r req none a
  match w.objects req with
  | none => w'.store.registry.get req = none
  | some cr =>
    (w'.store.registry.get req = none ∧ ∃ err, r.connect a.toOutside cr.spec.connection = .error err)
    ∨ ∃ (p : EntryPtr) (e : Entry κ) (b : Built ρ κ), w'.store.registry.get req = some p ∧
        w'.store.heap[p]? = some e ∧ w'.origin[p]? = some b ∧ Reflects r cr b.outside e

/-- Every `Reconcile` of the run that could read its object leaves the registry fresh. -/
def AlwaysFresh (r : ClusterReconciler ρ) (as : List (Action ρ κ)) : Prop :=
  ∀ pre req a post, as = pre ++ .reconcile req none a :: post →
    ∀ w, run (step r) World.init pre = some w → FreshAfter r w req a

/-- A `Reconcile` keeps an entry only for the very object, by UID, that it was built from. -/
def SameObject (w : World ρ κ) : Action ρ κ → Prop
  | .reconcile req none a => ∀ (cr : Cluster) (p : EntryPtr) (b : Built ρ κ),
      w.objects req = some cr → keep w.store cr a.now = some p → w.origin[p]? = some b →
        b.object.uid = cr.uid
  | _ => True

/-! ## The invariant -/

/-- The entry is the one `Reconcile` builds for `b.object`, up to its status. -/
structure BuiltFrom (r : ClusterReconciler ρ) (b : Built ρ κ) (e : Entry κ) : Prop where
  reflects : Reflects r b.object b.outside e
  generation : e.generation = b.object.generation

theorem builtFrom_newEntry {r : ClusterReconciler ρ} {o : Outside ρ κ} {cr : Cluster} {c : κ}
    (h : r.connect o cr.spec.connection = .ok c) (t : Time) :
    BuiltFrom r ⟨cr, o⟩ (newEntry cr c t) := ⟨⟨h, rfl, rfl, rfl, rfl, rfl⟩, rfl⟩

theorem BuiltFrom.setStatus {r : ClusterReconciler ρ} {b : Built ρ κ} {e : Entry κ}
    (h : BuiltFrom r b e) (st : Status) : BuiltFrom r b (e.setStatus st) := by
  obtain ⟨⟨h1, h2, h3, h4, h5, h6⟩, hg⟩ := h
  exact ⟨⟨h1, h2, h3, h4, h5, h6⟩, hg⟩

/-- `sized`, `entries`, `named`: every entry is what its origin says, under its origin's name.
`current`: within one UID, the generation of an origin is not ahead of the object's, and an equal
generation means an equal spec. -/
structure Inv (r : ClusterReconciler ρ) (w : World ρ κ) : Prop where
  sized : w.origin.length = w.store.heap.length
  entries : ∀ (p : EntryPtr) (e : Entry κ) (b : Built ρ κ),
    w.store.heap[p]? = some e → w.origin[p]? = some b → BuiltFrom r b e
  named : ∀ n (p : EntryPtr) (b : Built ρ κ),
    w.store.registry.get n = some p → w.origin[p]? = some b → b.object.name = n
  objectName : ∀ n cr, w.objects n = some cr → cr.name = n
  objectUid : ∀ n cr, w.objects n = some cr → cr.uid < w.nextUid
  originUid : ∀ b ∈ w.origin, b.object.uid < w.nextUid
  current : ∀ n (p : EntryPtr) (b : Built ρ κ) (cr : Cluster),
    w.store.registry.get n = some p → w.origin[p]? = some b → w.objects n = some cr →
      b.object.uid = cr.uid → b.object.generation ≤ cr.generation ∧
        (b.object.generation = cr.generation → b.object.spec = cr.spec)

theorem inv_init (r : ClusterReconciler ρ) : Inv r (World.init : World ρ κ) where
  sized := rfl
  entries := by simp [World.init, Store.new]
  named := by simp [World.init]
  objectName := by simp [World.init]
  objectUid := by simp [World.init]
  originUid := by simp [World.init]
  current := by simp [World.init]

/-! ### What a step preserves -/

section Preservation

variable {r : ClusterReconciler ρ} {w : World ρ κ}

theorem Inv.setStatus (h : Inv r w) (p : EntryPtr) (st : Status) :
    Inv r { w with store := w.store.setStatus p st } where
  sized := by simpa [Store.setStatus] using h.sized
  entries := by
    intro q e b he hb
    simp only [Store.setStatus, List.getElem?_modify] at he
    obtain ⟨e₀, he₀, rfl⟩ := Option.map_eq_some_iff.mp he
    have hbuilt := h.entries q e₀ b he₀ hb
    by_cases hpq : p = q
    · simpa [hpq] using hbuilt.setStatus st
    · simpa [hpq] using hbuilt
  named := h.named
  objectName := h.objectName
  objectUid := h.objectUid
  originUid := h.originUid
  current := h.current

theorem Inv.deleteEntry (h : Inv r w) (n : String) :
    Inv r { w with store := w.store.delete n } where
  sized := h.sized
  entries := h.entries
  named := by
    intro m p b hp hb
    by_cases hm : m = n
    · simp [hm] at hp
    · exact h.named m p b (by simpa [CRDRegistry.get_delete_ne _ hm] using hp) hb
  objectName := h.objectName
  objectUid := h.objectUid
  originUid := h.originUid
  current := by
    intro m p b cr hp hb
    by_cases hm : m = n
    · simp [hm] at hp
    · exact h.current m p b cr (by simpa [CRDRegistry.get_delete_ne _ hm] using hp) hb

/-- A lookup past the ghost list's last element finds that element. -/
theorem getElem?_origin_append {o : List (Built ρ κ)} {x b : Built ρ κ} {p : ℕ}
    (h : (o ++ [x])[p]? = some b) : o[p]? = some b ∨ p = o.length ∧ b = x := by
  rcases Nat.lt_or_ge p o.length with hp | hp
  · rw [List.getElem?_append_left hp] at h
    exact Or.inl h
  · rw [List.getElem?_append_right hp] at h
    obtain ⟨hlt, hb⟩ := List.getElem?_eq_some_iff.mp h
    simp only [List.length_singleton] at hlt
    refine Or.inr ⟨by omega, ?_⟩
    simpa [show p - o.length = 0 by omega] using hb.symm

/-- After a `Set` the entry under its name was built from what is appended to the ghost list, and the
one under another name from what it was before. -/
theorem Inv.origin_set (h : Inv r w) {name n : String} {e : Entry κ} {x b : Built ρ κ} {p : ℕ}
    (hp : (w.store.set name e).registry.get n = some p) (hb : (w.origin ++ [x])[p]? = some b) :
    (n = name ∧ b = x) ∨ (w.store.registry.get n = some p ∧ w.origin[p]? = some b) := by
  by_cases hn : n = name
  · subst hn
    simp only [Store.registry_set, CRDRegistry.get_set_self, Option.some.injEq] at hp
    rcases getElem?_origin_append hb with hb | ⟨-, rfl⟩
    · obtain ⟨hlt, -⟩ := List.getElem?_eq_some_iff.mp hb
      exact absurd hlt (by rw [← hp, h.sized]; exact Nat.lt_irrefl _)
    · exact .inl ⟨rfl, rfl⟩
  · rw [Store.registry_set, CRDRegistry.get_set_ne _ hn] at hp
    rcases getElem?_origin_append hb with hb | ⟨rfl, -⟩
    · exact .inr ⟨hp, hb⟩
    · exact absurd (w.store.mapped n _ hp) (by rw [h.sized]; exact Nat.lt_irrefl _)

theorem Inv.setEntry (h : Inv r w) {cr : Cluster} {o : Outside ρ κ} {c : κ}
    (hcr : w.objects cr.name = some cr) (hc : r.connect o cr.spec.connection = .ok c) (t : Time) :
    Inv r { w with store := w.store.set cr.name (newEntry cr c t), origin := w.origin ++ [⟨cr, o⟩] }
    where
  sized := by simp [Store.set, h.sized]
  entries := by
    intro p e b he hb
    rcases getElem?_origin_append hb with hb | ⟨rfl, rfl⟩
    · refine h.entries p e b ?_ hb
      obtain ⟨hp, -⟩ := List.getElem?_eq_some_iff.mp hb
      simpa [Store.set, List.getElem?_append_left (h.sized ▸ hp)] using he
    · have hnew : e = newEntry cr c t := by simpa [Store.set, h.sized, eq_comm] using he
      exact hnew ▸ builtFrom_newEntry hc t
  named := by
    intro n p b hp hb
    rcases h.origin_set hp hb with ⟨rfl, rfl⟩ | ⟨hp, hb⟩
    · rfl
    · exact h.named n p b hp hb
  objectName := h.objectName
  objectUid := h.objectUid
  originUid := by
    intro b hb
    rcases List.mem_append.mp hb with hb | hb
    · exact h.originUid b hb
    · rw [List.mem_singleton.mp hb]
      exact h.objectUid _ _ hcr
  current := by
    intro n p b cr' hp hb hcr'
    rcases h.origin_set hp hb with ⟨rfl, rfl⟩ | ⟨hp, hb⟩
    · rw [hcr, Option.some.injEq] at hcr'
      subst hcr'
      exact fun _ => ⟨Nat.le_refl _, fun _ => rfl⟩
    · exact h.current n p b cr' hp hb hcr'

/-- A status write keeps everything else of every object. -/
theorem writeStatus_some {written : Option Cluster} {u : Except String Unit} {n : String}
    {cr : Cluster} (h : w.writeStatus written u n = some cr) :
    ∃ cr₀ st, w.objects n = some cr₀ ∧ cr = { cr₀ with status := st } := by
  unfold World.writeStatus at h
  split at h
  · rename_i cr'
    by_cases hn : n = cr'.name
    · rw [hn, Function.update_self, Option.map_eq_some_iff] at h
      obtain ⟨cr₀, h₀, rfl⟩ := h
      exact ⟨cr₀, cr'.status, hn ▸ h₀, rfl⟩
    · rw [Function.update_of_ne hn] at h
      exact ⟨cr, cr.status, h, rfl⟩
  · exact ⟨cr, cr.status, h, rfl⟩

theorem Inv.writeStatus (h : Inv r w) (written : Option Cluster) (u : Except String Unit) :
    Inv r { w with objects := w.writeStatus written u } where
  sized := h.sized
  entries := h.entries
  named := h.named
  objectName := by
    intro n cr hcr
    obtain ⟨cr₀, st, h₀, rfl⟩ := writeStatus_some hcr
    exact h.objectName n cr₀ h₀
  objectUid := by
    intro n cr hcr
    obtain ⟨cr₀, st, h₀, rfl⟩ := writeStatus_some hcr
    exact h.objectUid n cr₀ h₀
  originUid := h.originUid
  current := by
    intro n p b cr hp hb hcr
    obtain ⟨cr₀, st, h₀, rfl⟩ := writeStatus_some hcr
    exact h.current n p b cr₀ hp hb h₀

theorem Inv.reconcile (h : Inv r w) (req : String) (readErr : Option String) (a : Answers ρ κ) :
    Inv r (w.reconcile r req readErr a) := by
  -- the status write commutes with what happens to the registry
  suffices hstore : ∀ f, w.fetch req readErr = f →
      Inv r { w with store := (r.reconcile w.store req f a).store
                     origin := w.extendOrigin f a (r.reconcile w.store req f a).store } from
    (hstore _ rfl).writeStatus _ _
  intro f hf
  cases f with
  | notFound => exact h.deleteEntry req
  | failed err => exact h
  | found cr =>
    have hcr : w.objects cr.name = some cr := by
      unfold World.fetch at hf
      split at hf <;> simp only [Fetched.found.injEq, reduceCtorEq] at hf
      rename_i cr' hobj
      rw [hf] at hobj
      rw [h.objectName _ _ hobj, hobj]
    rcases reconcile_found_cases r w.store req cr a with
      ⟨p, -, hout⟩ | ⟨-, reason, msg, -, hout⟩ | ⟨-, c, hc, hout⟩
    · rw [hout]
      simpa [World.extendOrigin, ClusterReconciler.probeEntry, ClusterReconciler.requeueAfter,
        Store.setStatus] using h.setStatus p a.probe
    · rw [hout]
      simpa [World.extendOrigin, ClusterReconciler.requeueAfter] using h.deleteEntry cr.name
    · rw [hout]
      simpa [World.extendOrigin, ClusterReconciler.probeEntry, ClusterReconciler.requeueAfter,
        Store.setStatus, Store.set] using
        (h.setEntry hcr hc a.builtAt).setStatus w.store.heap.length a.probe

/-- Reading an object after one of them was replaced. -/
theorem update_some {objects : String → Option Cluster} {name n : String} {v : Option Cluster}
    {cr : Cluster} (h : Function.update objects name v n = some cr) :
    n = name ∧ v = some cr ∨ n ≠ name ∧ objects n = some cr := by
  by_cases hn : n = name
  · exact Or.inl ⟨hn, by rwa [hn, Function.update_self] at h⟩
  · exact Or.inr ⟨hn, by rwa [Function.update_of_ne hn] at h⟩

theorem Inv.create (h : Inv r w) (name : String) (spec : ClusterSpec) :
    Inv r { w with
      objects := Function.update w.objects name (some ⟨name, w.nextUid, 1, spec, {}⟩)
      nextUid := w.nextUid + 1 } where
  sized := h.sized
  entries := h.entries
  named := h.named
  objectName := by
    intro n cr hcr
    rcases update_some hcr with ⟨rfl, hnew⟩ | ⟨-, hcr⟩
    · rw [← Option.some.inj hnew]
    · exact h.objectName n cr hcr
  objectUid := by
    intro n cr hcr
    rcases update_some hcr with ⟨-, hnew⟩ | ⟨-, hcr⟩
    · exact Option.some.inj hnew ▸ Nat.lt_succ_self _
    · exact Nat.lt_succ_of_lt (h.objectUid n cr hcr)
  originUid := fun b hb => Nat.lt_succ_of_lt (h.originUid b hb)
  current := by
    intro n p b cr hp hb hcr huid
    rcases update_some hcr with ⟨-, hnew⟩ | ⟨-, hcr⟩
    · -- no entry was built from a UID that did not exist yet
      have hlt := h.originUid b (List.mem_of_getElem? hb)
      rw [huid, ← Option.some.inj hnew] at hlt
      exact absurd hlt (Nat.lt_irrefl _)
    · exact h.current n p b cr hp hb hcr huid

theorem Inv.update (h : Inv r w) {name : String} {cr₀ : Cluster} (h₀ : w.objects name = some cr₀)
    (spec : ClusterSpec) :
    Inv r { w with
      objects := Function.update w.objects name (some { cr₀ with
        spec
        generation := if cr₀.spec = spec then cr₀.generation else cr₀.generation + 1 }) } where
  sized := h.sized
  entries := h.entries
  named := h.named
  objectName := by
    intro n cr hcr
    rcases update_some hcr with ⟨rfl, hnew⟩ | ⟨-, hcr⟩
    · rw [← Option.some.inj hnew]
      exact h.objectName n cr₀ h₀
    · exact h.objectName n cr hcr
  objectUid := by
    intro n cr hcr
    rcases update_some hcr with ⟨rfl, hnew⟩ | ⟨-, hcr⟩
    · rw [← Option.some.inj hnew]
      exact h.objectUid n cr₀ h₀
    · exact h.objectUid n cr hcr
  originUid := h.originUid
  current := by
    intro n p b cr hp hb hcr huid
    rcases update_some hcr with ⟨rfl, hnew⟩ | ⟨-, hcr⟩
    · rw [← Option.some.inj hnew] at huid ⊢
      obtain ⟨hle, heq⟩ := h.current n p b cr₀ hp hb h₀ huid
      by_cases hs : cr₀.spec = spec
      · simp only [if_pos hs]
        exact ⟨hle, fun hg => by rw [heq hg, hs]⟩
      · -- a changed spec is a generation no entry has seen
        simp only [if_neg hs]
        exact ⟨by omega, fun hg => by omega⟩
    · exact h.current n p b cr hp hb hcr huid

theorem Inv.delete (h : Inv r w) (name : String) :
    Inv r { w with objects := Function.update w.objects name none } := by
  have hobj : ∀ {n cr}, Function.update w.objects name none n = some cr → w.objects n = some cr := by
    intro n cr hcr
    rcases update_some hcr with ⟨-, hnone⟩ | ⟨-, hcr⟩
    · simp at hnone
    · exact hcr
  exact {
    sized := h.sized
    entries := h.entries
    named := h.named
    objectName := fun n cr hcr => h.objectName n cr (hobj hcr)
    objectUid := fun n cr hcr => h.objectUid n cr (hobj hcr)
    originUid := h.originUid
    current := fun n p b cr hp hb hcr => h.current n p b cr hp hb (hobj hcr) }

theorem inv_step {a : Action ρ κ} {w' : World ρ κ} (h : Inv r w) (hstep : step r w a = some w') :
    Inv r w' := by
  cases a with
  | create name spec =>
    simp only [step] at hstep
    split at hstep <;> simp only [Option.some.injEq, reduceCtorEq] at hstep
    exact hstep ▸ h.create name spec
  | update name spec =>
    simp only [step] at hstep
    split at hstep <;> simp only [Option.some.injEq, reduceCtorEq] at hstep
    rename_i h₀
    exact hstep ▸ h.update h₀ spec
  | delete name =>
    simp only [step, Option.some.injEq] at hstep
    exact hstep ▸ h.delete name
  | reconcile req readErr a =>
    simp only [step, Option.some.injEq] at hstep
    exact hstep ▸ h.reconcile req readErr a

/-! ### From the invariant to freshness -/

theorem Reflects.of_spec_eq {cr cr' : Cluster} {o : Outside ρ κ} {e : Entry κ}
    (h : Reflects r cr o e) (hname : cr.name = cr'.name) (hspec : cr.spec = cr'.spec) :
    Reflects r cr' o e := by
  obtain ⟨h1, h2, h3, h4, h5, h6⟩ := h
  rw [hspec] at h1 h3 h4 h5 h6
  rw [hname] at h2 h3
  exact ⟨h1, h2, h3, h4, h5, h6⟩

/-- A kept entry with the object's generation shows the object's spec, if it is the same object. -/
theorem Inv.reflects_of_keep (h : Inv r w) {req : String} {cr : Cluster} {a : Answers ρ κ}
    {p : EntryPtr} (hobj : w.objects req = some cr) (hk : keep w.store cr a.now = some p)
    (hsame : SameObject w (.reconcile req none a)) :
    ∃ e b, w.store.heap[p]? = some e ∧ w.origin[p]? = some b ∧ Reflects r cr b.outside e := by
  obtain ⟨hget, e, he, hnr⟩ := keep_eq_some.mp hk
  obtain ⟨b, hb⟩ : ∃ b, w.origin[p]? = some b :=
    ⟨_, List.getElem?_eq_getElem (h.sized ▸ w.store.mapped _ _ hget)⟩
  have hname : cr.name = req := h.objectName req cr hobj
  have hbuilt := h.entries p e b he hb
  have hgen : e.generation = cr.generation := not_not.mp fun hne => hnr (Or.inl hne)
  have hspec : b.object.spec = cr.spec :=
    (h.current req p b cr (hname ▸ hget) hb hobj (hsame cr p b hobj hk hb)).2
      (hbuilt.generation ▸ hgen)
  refine ⟨e, b, he, hb, hbuilt.reflects.of_spec_eq ?_ hspec⟩
  rw [h.named _ p b hget hb]

theorem Inv.freshAfter (h : Inv r w) {req : String} {a : Answers ρ κ}
    (hsame : SameObject w (.reconcile req none a)) : FreshAfter r w req a := by
  unfold FreshAfter
  cases hobj : w.objects req with
  | none => simp [World.reconcile, World.fetch, hobj, ClusterReconciler.reconcile]
  | some cr =>
    have hname : cr.name = req := h.objectName req cr hobj
    have hfetch : w.fetch req none = .found cr := by simp [World.fetch, hobj]
    rcases reconcile_found_cases r w.store req cr a with
      ⟨p, hk, hout⟩ | ⟨-, reason, msg, hc, hout⟩ | ⟨-, c, hc, hout⟩
    · obtain ⟨e, b, he, hb, href⟩ := h.reflects_of_keep hobj hk hsame
      refine Or.inr ⟨p, e.setStatus a.probe, b, ?_, ?_, ?_, ?_⟩
      · simpa [World.reconcile, hfetch, hout, ClusterReconciler.probeEntry,
          ClusterReconciler.requeueAfter, hname] using (keep_eq_some.mp hk).1
      · simp [World.reconcile, hfetch, hout, ClusterReconciler.probeEntry,
          ClusterReconciler.requeueAfter, Store.setStatus, he]
      · simpa [World.reconcile, hfetch, hout, ClusterReconciler.probeEntry,
          ClusterReconciler.requeueAfter, World.extendOrigin, Store.setStatus] using hb
      · obtain ⟨h1, h2, h3, h4, h5, h6⟩ := href
        exact ⟨h1, h2, h3, h4, h5, h6⟩
    · exact Or.inl ⟨by simp [World.reconcile, hfetch, hout, ClusterReconciler.requeueAfter, hname],
        _, hc⟩
    · refine Or.inr ⟨w.store.heap.length, (newEntry cr c a.builtAt).setStatus a.probe,
        ⟨cr, a.toOutside⟩, ?_, ?_, ?_, ((builtFrom_newEntry hc a.builtAt).setStatus a.probe).reflects⟩
      · simp [World.reconcile, hfetch, hout, ClusterReconciler.probeEntry,
          ClusterReconciler.requeueAfter, hname]
      · simp [World.reconcile, hfetch, hout, ClusterReconciler.probeEntry,
          ClusterReconciler.requeueAfter, Store.setStatus, Store.set]
      · simp [World.reconcile, hfetch, hout, ClusterReconciler.probeEntry,
          ClusterReconciler.requeueAfter, World.extendOrigin, Store.setStatus, Store.set,
          ← h.sized]

end Preservation

/-! ## Over whole histories -/

/-- **Registry freshness.** In a history in which no `Reconcile` keeps an entry for another object
than the one it was built from, every `Reconcile` that could read its object leaves the registry
with that object's spec, or without the name. -/
theorem alwaysFresh_of_sameObject (r : ClusterReconciler ρ) (as : List (Action ρ κ))
    (hsame : Along (step r) SameObject World.init as) : AlwaysFresh r as := by
  rintro pre req a post rfl w hrun
  have hinv : Inv r w := run_invariant (fun _ _ _ h hs => inv_step h hs) (inv_init r) hrun
  exact hinv.freshAfter (hsame.append hrun).1

/-! ### A recreated object under the generation of the old one -/

/-- A connection through the kubeconfig Secret `secret`, shown in region `region`. -/
def secretSpec (region secret : String) : ClusterSpec where
  region := region
  connection := { kubeconfigSecretRef := some { name := secret } }

/-- Secrets that hold their own name's length, and clients that are the kubeconfig they were built
from; every probe succeeds one second after start. -/
def quietAnswers : Answers (List UInt8) (List UInt8) where
  getSecret := fun _ name => .ok [("kubeconfig", [name.length.toUInt8])]
  restConfigFromKubeConfig := .ok
  newClients := .ok
  now := second
  builtAt := second
  probe := { reachable := true, fluxInstalled := true, lastProbe := second }
  conditionNow := fun _ => second
  update := .ok ()

def reconciler : ClusterReconciler (List UInt8) := ⟨none, "yafu-system", 30 * second⟩

/-- The object is deleted and created anew with another spec before the next `Reconcile`. -/
def staleRun : List (Action (List UInt8) (List UInt8)) :=
  [.create "prod" (secretSpec "eu" "old"), .reconcile "prod" none quietAnswers, .delete "prod",
    .create "prod" (secretSpec "us" "renewed"), .reconcile "prod" none quietAnswers]

/-- The second `Reconcile` of `staleRun` finds generation 1 on both sides and keeps the old entry:
the registry shows region `eu` for an object whose spec says `us`. -/
theorem not_alwaysFresh_staleRun : ¬ AlwaysFresh reconciler staleRun := by
  intro h
  obtain ⟨w, hrun, hobj, hregion⟩ : ∃ w, run (step reconciler) World.init (staleRun.take 4) = some w ∧
      w.objects "prod" = some ⟨"prod", 1, 1, secretSpec "us" "renewed", {}⟩ ∧
      ((w.reconcile reconciler "prod" none quietAnswers).store.lookup "prod").map Entry.region =
        some "eu" := ⟨_, rfl, rfl, rfl⟩
  have hfresh := h (staleRun.take 4) "prod" quietAnswers [] rfl w hrun
  simp only [FreshAfter, hobj] at hfresh
  obtain ⟨hget, -⟩ | ⟨p, e, b, hget, he, -, href⟩ := hfresh
  · simp [Store.lookup, hget] at hregion
  · rw [Store.lookup_of_get hget, he, Option.map_some, href.region] at hregion
    exact absurd hregion (by decide)

/-- A run that updates the object once and reconciles it three times, the last time by keeping the
entry. -/
theorem alwaysFresh_updateRun : AlwaysFresh reconciler
    [.create "prod" (secretSpec "eu" "old"), .reconcile "prod" none quietAnswers,
      .update "prod" (secretSpec "us" "renewed"), .reconcile "prod" none quietAnswers,
      .reconcile "prod" none quietAnswers] := by
  refine alwaysFresh_of_sameObject _ _ (.cons trivial rfl (.cons ?_ rfl (.cons trivial rfl
    (.cons ?_ rfl (.cons ?_ rfl trivial)))))
  · rintro cr p b ⟨⟩ ⟨⟩
  · rintro cr p b ⟨⟩ ⟨⟩
  · rintro cr p b ⟨⟩ hk hb
    obtain rfl : p = 1 := Option.some.inj hk.symm
    exact Option.some.inj hb ▸ rfl

end Freshness

end Yafu.Controllers
