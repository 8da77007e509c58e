import Yafu.Cluster.View
import Yafu.Lib.Transition
import Mathlib.Data.List.AList

/-!
# The watch manager

Reference: `internal/watch/manager.go`.

The manager starts one `ClusterWatcher` for each registered cluster and keeps the `CancelFunc` of
each in a table by name. A step of `step` is one of its critical sections under `mu`; a client of a
cluster is known by its identity, as an interface value is.
-/

namespace Yafu.Watch

open Yafu.Cluster (CRDRegistry Entry Store)
open Transition (run run_history)

variable {κ ι : Type*}

/-- What `Registry.List` returns: entries with distinct names. -/
structure Listing (κ : Type*) where
  entries : List (Entry κ)
  nodup : (entries.map Entry.name).Nodup

/-- A registry that keeps its entries under their own names lists distinct names. -/
def Listing.ofStore (s : Store κ) (h : s.Keyed) : Listing κ where
  entries := s.toRegistry.list
  nodup := by
    have hname : ∀ {n p e}, s.registry.entries n = some p → s.heap[p]? = some e → e.name = n :=
      fun {n p e} hp he => h n e ((Store.lookup_of_get hp).trans he)
    rw [Store.toRegistry, CRDRegistry.list, List.Nodup, List.pairwise_map, List.pairwise_filterMap,
      List.pairwise_filterMap]
    refine s.registry.order_nodup.imp fun hne p hp q hq e he f hf => ?_
    rw [hname hp he, hname hq hf]
    exact hne

/-- A `ClusterWatcher` that was started, cancelled once its `CancelFunc` was called. -/
structure ClusterWatcher (ι : Type*) where
  cluster : String
  client : ι
  cancelled : Bool := false
deriving DecidableEq, Repr

/-- `runningWatcher`; `cancel` is the number of the watcher that the `CancelFunc` cancels. -/
structure RunningWatcher (ι : Type*) where
  cancel : ℕ
  client : ι
deriving DecidableEq, Repr

/-- `Manager`, with the watchers it has started in order, and whether the context of `Run` is done
and `Run` has returned. A watcher's context ends with that of `Run` if not before. -/
structure Manager (ι : Type*) where
  started : List (ClusterWatcher ι) := []
  running : AList fun _ : String => RunningWatcher ι := ∅
  ctxDone : Bool := false
  returned : Bool := false

namespace Manager

/-- `rw.cancel()`. -/
def callCancel (m : Manager ι) (rw : RunningWatcher ι) : Manager ι :=
  { m with started := m.started.modify rw.cancel fun w => { w with cancelled := true } }

/-- `rw.cancel()` and `delete(m.running, name)`. -/
def drop (m : Manager ι) (name : String) (rw : RunningWatcher ι) : Manager ι :=
  { m.callCancel rw with running := m.running.erase name }

/-- `go cw.Run(ctx)` with a new context, and its entry in the table. -/
def start (m : Manager ι) (name : String) (client : ι) : Manager ι :=
  { m with
    started := m.started ++ [{ cluster := name, client }]
    running := m.running.insert name { cancel := m.started.length, client } }

/-- `shutdownAll`. -/
def shutdownAll (m : Manager ι) : Manager ι :=
  { m.running.entries.foldl (fun m kv => m.callCancel kv.2) m with running := ∅ }

/-- The second loop of `sync`, for one name in the table. -/
def sweep (seen : List String) (m : Manager ι) (kv : Sigma fun _ : String => RunningWatcher ι) :
    Manager ι :=
  if seen.contains kv.1 then m else m.drop kv.1 kv.2

/-- The first loop of `sync`, for one entry. -/
def syncEntry [DecidableEq ι] (client : κ → ι) (m : Manager ι) (e : Entry κ) : Manager ι :=
  match m.running.lookup e.name with
  | some existing =>
    if existing.client = client e.clients then m
    -- the client was replaced: the watcher on the old one is cancelled, and another started
    else (m.drop e.name existing).start e.name (client e.clients)
  | none => m.start e.name (client e.clients)

/-- `sync`. -/
def sync [DecidableEq ι] (client : κ → ι) (m : Manager ι) (contents : Listing κ) : Manager ι :=
  let synced := contents.entries.foldl (syncEntry client) m
  synced.running.entries.foldl (sweep (contents.entries.map Entry.name)) synced

/-- What happens to `Run`: a sync that finds the registry with some contents, the end of its
context, and the return. -/
inductive Label (κ : Type*)
  | sync (contents : Listing κ)
  | ctxDone
  | shutdown

/-- One step of `Run`; when a tick and the end of the context are both there, either may be taken.
-/
def step [DecidableEq ι] (client : κ → ι) (m : Manager ι) : Label κ → Option (Manager ι)
  | .sync contents => if m.returned then none else some (m.sync client contents)
  | .ctxDone => some { m with ctxDone := true }
  | .shutdown =>
    if m.ctxDone && !m.returned then some { m.shutdownAll with returned := true } else none

/-! ## The table and the watchers -/

/-- The table holds the watchers that are not cancelled, and no others. -/
structure Sound (m : Manager ι) : Prop where
  running : ∀ {name rw}, m.running.lookup name = some rw →
    m.started[rw.cancel]? = some ⟨name, rw.client, false⟩
  started : ∀ {id w}, m.started[id]? = some w → w.cancelled = false →
    m.running.lookup w.cluster = some ⟨id, w.client⟩

variable {m : Manager ι} {name : String} {rw : RunningWatcher ι}

theorem sound_new : Sound ({} : Manager ι) where
  running h := by cases h
  started h := by cases h

/-- A watcher that is not cancelled after a `cancel` is another one and was not cancelled before. -/
theorem getElem?_callCancel {id : ℕ} {w : ClusterWatcher ι} :
    (m.callCancel rw).started[id]? = some w ∧ w.cancelled = false ↔
      id ≠ rw.cancel ∧ m.started[id]? = some w ∧ w.cancelled = false := by
  have hmodify : (m.callCancel rw).started[id]? =
      (m.started.modify rw.cancel fun w => { w with cancelled := true })[id]? := rfl
  rw [hmodify]
  by_cases hid : rw.cancel = id
  · subst hid
    refine iff_of_false ?_ (fun h => h.1 rfl)
    rintro ⟨hw, hlive⟩
    rw [List.getElem?_modify_eq] at hw
    obtain ⟨w', -, rfl⟩ := Option.map_eq_some_iff.mp hw
    cases hlive
  · rw [List.getElem?_modify_ne _ _ hid, and_iff_right (Ne.symm hid)]

theorem Sound.drop (hs : m.Sound) (hrw : m.running.lookup name = some rw) :
    (m.drop name rw).Sound where
  running {name' rw'} h := by
    by_cases hname : name' = name
    · rw [hname, Manager.drop, AList.lookup_erase] at h
      cases h
    · rw [Manager.drop, AList.lookup_erase_ne hname] at h
      -- the watchers of two names are two watchers
      have hne : rw'.cancel ≠ rw.cancel := by
        intro heq
        have hw := hs.running h
        rw [heq, hs.running hrw, Option.some.injEq, ClusterWatcher.mk.injEq] at hw
        exact hname hw.1.symm
      exact (getElem?_callCancel.mpr ⟨hne, hs.running h, rfl⟩).1
  started {id w} h hlive := by
    obtain ⟨hne, hw, -⟩ := getElem?_callCancel.mp ⟨h, hlive⟩
    have hlookup := hs.started hw hlive
    have hname : w.cluster ≠ name := by
      rintro rfl
      rw [hrw, Option.some.injEq] at hlookup
      exact hne (by rw [hlookup])
    rw [Manager.drop, AList.lookup_erase_ne hname]
    exact hlookup

theorem Sound.start (hs : m.Sound) (hnone : m.running.lookup name = none) (c : ι) :
    (m.start name c).Sound where
  running {name' rw'} h := by
    by_cases hname : name' = name
    · rw [hname, Manager.start, AList.lookup_insert, Option.some.injEq] at h
      rw [← h, hname]
      exact List.getElem?_concat_length
    · rw [Manager.start, AList.lookup_insert_ne hname] at h
      have hw := hs.running h
      exact (List.getElem?_append_left (List.getElem?_eq_some_iff.mp hw).1).trans hw
  started {id w} h hlive := by
    rw [Manager.start] at h ⊢
    rcases Nat.lt_or_ge id m.started.length with hid | hid
    · rw [List.getElem?_append_left hid] at h
      have hlookup := hs.started h hlive
      have hname : w.cluster ≠ name := by
        rintro rfl
        rw [hnone] at hlookup
        cases hlookup
      rw [AList.lookup_insert_ne hname]
      exact hlookup
    · rw [List.getElem?_append_right hid] at h
      obtain ⟨hlt, hw⟩ := List.getElem?_eq_some_iff.mp h
      rw [List.length_singleton] at hlt
      have heq : id = m.started.length := by omega
      rw [List.getElem_singleton] at hw
      rw [← hw, heq, AList.lookup_insert]

/-- The second loop keeps what is seen and drops the rest. -/
theorem foldl_sweep (seen : List String) :
    ∀ {kvs : List (Sigma fun _ : String => RunningWatcher ι)} {m : Manager ι}, m.Sound →
      kvs.NodupKeys → (∀ kv ∈ kvs, m.running.lookup kv.1 = some kv.2) →
      (kvs.foldl (sweep seen) m).Sound ∧
        ∀ name rw, (kvs.foldl (sweep seen) m).running.lookup name = some rw ↔
          m.running.lookup name = some rw ∧ (name ∈ kvs.keys → name ∈ seen)
  | [], m, hs, _, _ => ⟨hs, fun name rw => ⟨fun h => ⟨h, fun hmem => nomatch hmem⟩, And.left⟩⟩
  | kv :: kvs, m, hs, hnodup, hmem => by
    rw [List.nodupKeys_cons] at hnodup
    have hkv := hmem kv List.mem_cons_self
    have hrest : ∀ kv' ∈ kvs, kv'.1 ≠ kv.1 := fun kv' h' heq =>
      hnodup.1 (heq ▸ List.mem_keys_of_mem h')
    have hmem' : ∀ kv' ∈ kvs, (sweep seen m kv).running.lookup kv'.1 = some kv'.2 := by
      intro kv' h'
      rw [sweep]
      split_ifs
      · exact hmem kv' (List.mem_cons_of_mem _ h')
      · -- the other names stay in the table
        exact (AList.lookup_erase_ne (hrest kv' h')).trans (hmem kv' (List.mem_cons_of_mem _ h'))
    have hs' : (sweep seen m kv).Sound := by
      rw [sweep]
      split_ifs
      · exact hs
      · exact hs.drop hkv
    obtain ⟨hsound, hlookup⟩ := foldl_sweep seen hs' hnodup.2 hmem'
    refine ⟨hsound, fun name rw => ?_⟩
    rw [List.foldl_cons, hlookup, List.keys_cons, sweep]
    by_cases hname : name = kv.1
    · subst hname
      -- the rest of the loop does not come to the name again
      have hnot : kv.1 ∉ kvs.keys := hnodup.1
      by_cases hseen : seen.contains kv.1 = true
      · rw [if_pos hseen]
        exact and_congr_right fun _ =>
          ⟨fun _ _ => List.contains_iff_mem.mp hseen, fun _ h => absurd h hnot⟩
      · rw [if_neg hseen, Manager.drop, AList.lookup_erase]
        refine iff_of_false (fun h => nomatch h.1) (fun h => hseen ?_)
        exact List.contains_iff_mem.mpr (h.2 List.mem_cons_self)
    · have hkeys : name ∈ kv.1 :: kvs.keys ↔ name ∈ kvs.keys := by
        rw [List.mem_cons, or_iff_right hname]
      rw [hkeys]
      split_ifs
      · rfl
      · rw [Manager.drop, AList.lookup_erase_ne hname]

/-- What is not cancelled after some calls was not before, and is none of theirs. -/
theorem foldl_callCancel {id : ℕ} {w : ClusterWatcher ι} :
    ∀ (kvs : List (Sigma fun _ : String => RunningWatcher ι)) {m : Manager ι},
      (kvs.foldl (fun m kv => m.callCancel kv.2) m).started[id]? = some w → w.cancelled = false →
        m.started[id]? = some w ∧ ∀ kv ∈ kvs, id ≠ kv.2.cancel
  | [], _, h, _ => ⟨h, fun _ hkv => nomatch hkv⟩
  | kv :: kvs, m, h, hlive => by
    obtain ⟨hw, hrest⟩ := foldl_callCancel kvs h hlive
    obtain ⟨hne, hw, -⟩ := getElem?_callCancel.mp ⟨hw, hlive⟩
    exact ⟨hw, List.forall_mem_cons.mpr ⟨hne, hrest⟩⟩

/-- Nothing is left uncancelled by `shutdownAll`. -/
theorem cancelled_shutdownAll (hs : m.Sound) : ∀ w ∈ m.shutdownAll.started, w.cancelled = true := by
  intro w hmem
  obtain ⟨id, hw⟩ := List.mem_iff_getElem?.mp hmem
  by_contra hlive
  rw [Bool.not_eq_true] at hlive
  obtain ⟨hbefore, hnone⟩ := foldl_callCancel _ hw hlive
  exact hnone _ (AList.mem_lookup_iff.mp (hs.started hbefore hlive)) rfl

theorem sound_shutdownAll (hs : m.Sound) : m.shutdownAll.Sound where
  running h := by cases h
  started {id w} h hlive := by
    rw [cancelled_shutdownAll hs w (List.mem_of_getElem? h)] at hlive
    cases hlive

/-! ## Syncs -/

variable [DecidableEq ι] {client : κ → ι}

theorem sound_syncEntry (hs : m.Sound) (e : Entry κ) : (syncEntry client m e).Sound := by
  rw [syncEntry]
  cases hrw : m.running.lookup e.name with
  | none => exact hs.start hrw _
  | some existing =>
    simp only
    split_ifs
    · exact hs
    · exact (hs.drop hrw).start (AList.lookup_erase ..) _

/-- An entry is watched through its client when its turn is over. -/
theorem lookup_syncEntry_self (e : Entry κ) :
    ∃ rw, (syncEntry client m e).running.lookup e.name = some rw ∧ rw.client = client e.clients := by
  rw [syncEntry]
  cases hrw : m.running.lookup e.name with
  | none => exact ⟨_, AList.lookup_insert _, rfl⟩
  | some existing =>
    simp only
    split_ifs with hclient
    · exact ⟨existing, hrw, hclient⟩
    · exact ⟨_, AList.lookup_insert _, rfl⟩

theorem lookup_syncEntry_ne {e : Entry κ} (hname : name ≠ e.name) :
    (syncEntry client m e).running.lookup name = m.running.lookup name := by
  rw [syncEntry]
  cases hrw : m.running.lookup e.name with
  | none => exact AList.lookup_insert_ne hname
  | some existing =>
    simp only
    split_ifs
    · rfl
    · exact (AList.lookup_insert_ne hname).trans (AList.lookup_erase_ne hname)

theorem lookup_foldl_syncEntry_of_notMem : ∀ {es : List (Entry κ)} {m : Manager ι},
    name ∉ es.map Entry.name →
      (es.foldl (syncEntry client) m).running.lookup name = m.running.lookup name
  | [], _, _ => rfl
  | e :: es, m, h => by
    rw [List.map_cons, List.mem_cons, not_or] at h
    rw [List.foldl_cons, lookup_foldl_syncEntry_of_notMem h.2, lookup_syncEntry_ne h.1]

/-- Every entry is watched through its client after the first loop. -/
theorem lookup_foldl_syncEntry : ∀ {es : List (Entry κ)} {m : Manager ι},
    (es.map Entry.name).Nodup → ∀ e ∈ es,
      ∃ rw, (es.foldl (syncEntry client) m).running.lookup e.name = some rw ∧
        rw.client = client e.clients
  | e :: es, m, hnodup, f, hf => by
    rw [List.map_cons, List.nodup_cons] at hnodup
    rw [List.foldl_cons]
    rcases List.mem_cons.mp hf with rfl | hf
    · rw [lookup_foldl_syncEntry_of_notMem hnodup.1]
      exact lookup_syncEntry_self f
    · exact lookup_foldl_syncEntry hnodup.2 f hf

theorem sound_foldl_syncEntry : ∀ {es : List (Entry κ)} {m : Manager ι}, m.Sound →
    (es.foldl (syncEntry client) m).Sound
  | [], _, hs => hs
  | e :: es, m, hs => by
    rw [List.foldl_cons]
    exact sound_foldl_syncEntry (sound_syncEntry hs e)

/-- What the uncancelled watchers are to be with some contents of the registry: one for each name,
on the entry's client. -/
structure Watches (client : κ → ι) (contents : Listing κ) (m : Manager ι) : Prop where
  one : ∀ e ∈ contents.entries,
    ∃! id : ℕ, ∃ w : ClusterWatcher ι, m.started[id]? = some w ∧ w.cluster = e.name ∧ w.cancelled = false
  current : ∀ (id : ℕ) (w : ClusterWatcher ι), m.started[id]? = some w → w.cancelled = false →
    ∃ e ∈ contents.entries, w.cluster = e.name ∧ w.client = client e.clients

theorem sync_spec (hs : m.Sound) (contents : Listing κ) :
    (m.sync client contents).Sound ∧ Watches client contents (m.sync client contents) := by
  have hsynced : (contents.entries.foldl (syncEntry client) m).Sound := sound_foldl_syncEntry hs
  have hwatched := @lookup_foldl_syncEntry κ ι _ client _ m contents.nodup
  have hentries : ∀ {name rw}, ⟨name, rw⟩ ∈
      (contents.entries.foldl (syncEntry client) m).running.entries ↔
        (contents.entries.foldl (syncEntry client) m).running.lookup name = some rw :=
    AList.mem_lookup_iff.symm
  obtain ⟨hsound, hlookup⟩ := foldl_sweep (contents.entries.map Entry.name) hsynced
    (contents.entries.foldl (syncEntry client) m).running.nodupKeys
    fun kv hkv => hentries.mp hkv
  refine ⟨hsound, ⟨fun e he => ?_, fun id w hw hlive => ?_⟩⟩
  · -- the watcher of an entry is the one that the table has under its name
    obtain ⟨rw', hrw, -⟩ := hwatched e he
    have hkept : (m.sync client contents).running.lookup e.name = some rw' :=
      (hlookup _ _).mpr ⟨hrw, fun _ => List.mem_map_of_mem he⟩
    refine ⟨rw'.cancel, ⟨_, hsound.running hkept, rfl, rfl⟩, ?_⟩
    rintro id ⟨w, hw, hname, hlive⟩
    have hsame := hsound.started hw hlive
    rw [hname] at hsame
    rw [← Option.some.inj (hsame.symm.trans hkept)]
  · -- what the second loop leaves in the table has been seen by the first
    obtain ⟨hbefore, hseen⟩ := (hlookup _ _).mp (hsound.started hw hlive)
    have hkey := List.mem_keys_of_mem (hentries.mpr hbefore)
    obtain ⟨e, he, hname⟩ := List.mem_map.mp (hseen hkey)
    obtain ⟨rw', hrw, hclient⟩ := hwatched e he
    rw [hname, hbefore, Option.some.injEq] at hrw
    exact ⟨e, he, hname.symm, by rw [← hclient, ← hrw]⟩

/-- A step keeps the table and the watchers together, and only the return makes `Run` return. -/
theorem sound_step {m m' : Manager ι} {l : Label κ} (hs : m.Sound) (h : step client m l = some m') :
    m'.Sound := by
  cases l with
  | sync contents =>
    simp only [step] at h
    split_ifs at h
    rw [Option.some.injEq] at h
    exact h ▸ (sync_spec hs contents).1
  | ctxDone =>
    rw [step, Option.some.injEq] at h
    exact h ▸ ⟨hs.running, hs.started⟩
  | shutdown =>
    simp only [step] at h
    split_ifs at h
    rw [Option.some.injEq] at h
    rw [← h]
    exact ⟨(sound_shutdownAll hs).running, (sound_shutdownAll hs).started⟩

theorem sound_run {labels : List (Label κ)} :
    ∀ {m : Manager ι}, run (step client) {} labels = some m → m.Sound :=
  Transition.run_invariant (fun _ _ _ hs h => sound_step hs h) sound_new

/-- Once the shutdown is over nothing is started again. -/
theorem shutdown_run {labels : List (Label κ)} :
    ∀ {m : Manager ι}, run (step client) {} labels = some m → .shutdown ∈ labels →
      m.returned = true ∧ ∀ w ∈ m.started, w.cancelled = true := by
  refine run_history (I := fun ls (m : Manager ι) => Label.shutdown ∈ ls →
    m.returned = true ∧ ∀ w ∈ m.started, w.cancelled = true) (fun h => nomatch h) ?_
  intro ls m l m' hm ih h hmem
  rcases List.mem_append.mp hmem with hbefore | hlast
  · obtain ⟨hreturned, hcancelled⟩ := ih hbefore
    cases l with
    | sync contents => simp [step, hreturned] at h
    | ctxDone =>
      rw [step, Option.some.injEq] at h
      exact h ▸ ⟨hreturned, hcancelled⟩
    | shutdown => simp [step, hreturned] at h
  · rw [← List.mem_singleton.mp hlast] at h
    simp only [step] at h
    split_ifs at h
    rw [Option.some.injEq] at h
    exact h ▸ ⟨rfl, cancelled_shutdownAll (sound_run hm)⟩

/-- **The watch manager.** In every run, after a sync the watchers that are not cancelled are one for each
registered name, on the client of its entry; a watcher that was ever started is cancelled or in the table;
and after the shutdown all are cancelled. -/
theorem manager_watches {labels : List (Label κ)} (hrun : run (step client) {} labels = some m) :
    (∀ ls contents, labels = ls ++ [.sync contents] → Watches client contents m) ∧
      (∀ (id : ℕ) (w : ClusterWatcher ι), m.started[id]? = some w →
        w.cancelled = true ∨ m.running.lookup w.cluster = some ⟨id, w.client⟩) ∧
      (.shutdown ∈ labels → ∀ w ∈ m.started, w.cancelled = true) := by
  refine ⟨fun ls contents hls => ?_, fun id w hw => ?_, fun hmem => (shutdown_run hrun hmem).2⟩
  · subst hls
    obtain ⟨m₀, hm₀, h⟩ := Transition.run_concat.mp hrun
    simp only [step] at h
    split_ifs at h
    rw [Option.some.injEq] at h
    exact h ▸ (sync_spec (sound_run hm₀) contents).2
  · cases hlive : w.cancelled with
    | true => exact .inl rfl
    | false => exact .inr ((sound_run hrun).started hw hlive)

/-! ## A client that is replaced -/

/-- What the registry lists of `dev` with some client. -/
def devOnly (client : ℕ) : Listing ℕ where
  entries :=
    [{ name := "dev", displayName := "", region := "", environment := "",
       fluxNamespace := "flux-system", clients := client }]
  nodup := List.nodup_singleton _

/-- The client of `dev` is replaced, `dev` goes, and comes back. -/
def replaced : List (Label ℕ) :=
  [.sync (devOnly 1), .sync (devOnly 2), .sync ⟨[], List.nodup_nil⟩, .sync (devOnly 2)]

theorem manager_watches_replaced :
    ∃ m, run (step id) {} replaced = some m ∧ Watches id (devOnly 2) m ∧ m.started.length = 3 := by
  refine ⟨_, rfl, ?_, rfl⟩
  have hall := manager_watches (show run (step id) {} replaced = some _ from rfl)
  exact hall.1 [.sync (devOnly 1), .sync (devOnly 2), .sync ⟨[], List.nodup_nil⟩] _ rfl

end Manager

end Yafu.Watch
