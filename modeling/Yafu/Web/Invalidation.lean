import Yafu.Lib.GoString
import Yafu.Lib.OrderedMap
import Yafu.Lib.Transition

/-!
# Debounced invalidation

Reference: `web/src/lib/stream.ts`.

An event of the stream sets a timer for each query key of its kind, in place of the timer that is
pending for the key; a timer that fires invalidates its key. `pending` holds timer ids under the
joined key, and the timers themselves belong to the browser: `Inv` says that the two go together.
-/

namespace Yafu.Web.Invalidation

open Transition

/-- A query key, or a prefix of one, as `stream.ts` has them. -/
abbrev Key := List GoString

/-- What the kinds of an application map to. -/
def applicationKeys : List Key :=
  [["applications"], ["app-tree"], ["app-events"], ["app-history"], ["app-manifest"], ["app-diff"],
    ["app-logs"], ["clusters"]]

/-- `INVALIDATIONS`. -/
def invalidations : List (GoString × List Key) :=
  [("Kustomization", applicationKeys),
    ("HelmRelease", applicationKeys),
    ("GitRepository", [["sources"]]),
    ("HelmRepository", [["sources"]]),
    ("OCIRepository", [["sources"]]),
    ("Bucket", [["sources"]]),
    ("Alert", [["alerts"]]),
    ("Provider", [["alerts"]]),
    ("Receiver", [["alerts"]]),
    ("ImagePolicy", [["image-updates"]]),
    ("ImageRepository", [["image-updates"]]),
    ("ImageUpdateAutomation", [["image-updates"]])]

/-- The keys of a kind. A kind that the table does not have, an inherited property of the object
included, leads to no call. -/
def keysOf (kind : GoString) : List Key := (invalidations.lookup kind).getD []

/-- `DEBOUNCE_MS`. -/
def debounceMs : ℕ := 300

/-- `key.join('|')`. -/
def keyId : Key → GoString
  | [] => []
  | [part] => part
  | part :: next :: parts => part ++ '|'.toUInt8 :: keyId (next :: parts)

/-- A timer that `window.setTimeout` has set and that has neither fired nor been cleared. -/
structure Timer where
  id : ℕ
  due : ℕ
  key : Key
deriving DecidableEq

/-- The browser and one mounted `useInvalidationStream`: the clock in milliseconds, the id of the
next timer, the live timers, and the hook's `pending`. -/
structure Page where
  now : ℕ := 0
  nextTimer : ℕ := 1
  timers : List Timer := []
  pending : OrderedMap GoString ℕ := .empty
  mounted : Bool := true

/-- `window.clearTimeout`. -/
def Page.clearTimeout (p : Page) (t : ℕ) : Page :=
  { p with timers := p.timers.filter fun timer => timer.id ≠ t }

/-- The timer of a key that is to be set again is cleared, if there is one. -/
def Page.clearPending (p : Page) (key : Key) : Page :=
  match p.pending.lookup (keyId key) with
  | some existing => if existing ≠ 0 then p.clearTimeout existing else p
  | none => p

/-- `scheduleInvalidate`. -/
def scheduleInvalidate (p : Page) (key : Key) : Page :=
  let p := p.clearPending key
  { p with
    nextTimer := p.nextTimer + 1
    timers := p.timers ++ [⟨p.nextTimer, p.now + debounceMs, key⟩]
    pending := p.pending.set (keyId key) p.nextTimer }

/-- `onInvalidate`, by the kind of the event; `none` is data that does not parse. -/
def onInvalidate (p : Page) : Option GoString → Page
  | none => p
  | some kind => (keysOf kind).foldl scheduleInvalidate p

/-- What can happen on the page. -/
inductive Label where
  | event (kind : Option GoString)
  | advance (ms : ℕ)
  | fire (t : ℕ)
  | unmount

/-- The page after a label: a timer fires when it is due, or later, and events are received while
the hook is mounted. -/
def step (p : Page) : Label → Option Page
  | .event kind => if p.mounted then some (onInvalidate p kind) else none
  | .advance ms => some { p with now := p.now + ms }
  | .fire t =>
    match p.timers.find? fun timer => timer.id = t with
    | none => none
    | some timer =>
      if timer.due ≤ p.now then
        some { p.clearTimeout t with pending := p.pending.erase (keyId timer.key) }
      else none
  | .unmount =>
    if p.mounted then
      some { p.pending.values.foldl Page.clearTimeout p with pending := .empty, mounted := false }
    else none

/-- The keys that a label passes to `qc.invalidateQueries`. -/
def invalidated (p : Page) : Label → List Key
  | .event _ => []
  | .advance _ => []
  | .fire t => ((p.timers.find? fun timer => timer.id = t).map Timer.key).toList
  | .unmount => []

/-- The live timers of a key. -/
def timersOf (key : Key) (p : Page) : List Timer := p.timers.filter fun timer => timer.key = key

/-! ## The pending map and the live timers -/

/-- The keys of the table. -/
def tableKeys : List Key := invalidations.flatMap Prod.snd

theorem keysOf_subset (kind : GoString) : ∀ key ∈ keysOf kind, key ∈ tableKeys := by
  intro key hkey
  rw [keysOf] at hkey
  cases hlookup : invalidations.lookup kind with
  | none =>
    rw [hlookup] at hkey
    exact absurd hkey List.not_mem_nil
  | some keys =>
    rw [hlookup] at hkey
    obtain ⟨before, after, hsplit, -⟩ := List.lookup_eq_some_iff.mp hlookup
    exact List.mem_flatMap.mpr ⟨(kind, keys), by rw [hsplit]; simp, hkey⟩

/-- Keys of the table have one part, so that no two of them share an id. -/
theorem keyId_injOn {key key' : Key} (h : key ∈ tableKeys) (h' : key' ∈ tableKeys)
    (hid : keyId key = keyId key') : key = key' := by
  have hone : ∀ key ∈ tableKeys, key.length = 1 := by decide
  obtain ⟨part, rfl⟩ := List.length_eq_one_iff.mp (hone key h)
  obtain ⟨part', rfl⟩ := List.length_eq_one_iff.mp (hone key' h')
  exact congrArg (fun part => [part]) hid

/-- The timers have distinct ids, and `pending` has each of them under its key. -/
structure Inv (p : Page) : Prop where
  next : 0 < p.nextTimer
  fresh : ∀ timer ∈ p.timers, 0 < timer.id ∧ timer.id < p.nextTimer
  nodup : (p.timers.map Timer.id).Nodup
  known : ∀ timer ∈ p.timers, timer.key ∈ tableKeys
  pending : ∀ id t, p.pending.lookup id = some t ↔
    ∃ timer ∈ p.timers, timer.id = t ∧ keyId timer.key = id

theorem inv_init : Inv {} where
  next := Nat.one_pos
  fresh := by simp
  nodup := List.nodup_nil
  known := by simp
  pending := by simp

section Step

variable {p : Page}

theorem Inv.eq_of_id (h : Inv p) {t t' : Timer} (ht : t ∈ p.timers) (ht' : t' ∈ p.timers)
    (hid : t.id = t'.id) : t = t' := List.inj_on_of_nodup_map h.nodup ht ht' hid

theorem Inv.eq_of_key (h : Inv p) {t t' : Timer} (ht : t ∈ p.timers) (ht' : t' ∈ p.timers)
    (hkey : t.key = t'.key) : t = t' := by
  have hlookup := (h.pending (keyId t.key) t.id).mpr ⟨t, ht, rfl, rfl⟩
  have hlookup' := (h.pending (keyId t.key) t'.id).mpr ⟨t', ht', rfl, by rw [hkey]⟩
  exact h.eq_of_id ht ht' (Option.some.inj (hlookup.symm.trans hlookup'))

theorem mem_timersOf {key : Key} {t : Timer} : t ∈ timersOf key p ↔ t ∈ p.timers ∧ t.key = key := by
  rw [timersOf, List.mem_filter, decide_eq_true_eq]

/-- No key has two live timers. -/
theorem Inv.length_timersOf_le (h : Inv p) (key : Key) : (timersOf key p).length ≤ 1 := by
  have hnodup : (timersOf key p).Nodup := (List.Nodup.of_map _ h.nodup).filter _
  match hlist : timersOf key p with
  | [] => exact Nat.zero_le 1
  | [t] => exact Nat.le_refl 1
  | t :: t' :: rest =>
    have ht := mem_timersOf.mp (hlist ▸ List.mem_cons_self : t ∈ timersOf key p)
    have ht' := mem_timersOf.mp
      (hlist ▸ List.mem_cons_of_mem _ List.mem_cons_self : t' ∈ timersOf key p)
    obtain rfl := h.eq_of_key ht.1 ht'.1 (ht.2.trans ht'.2.symm)
    rw [hlist] at hnodup
    exact absurd List.mem_cons_self (List.nodup_cons.mp hnodup).1

theorem Inv.timersOf_eq (h : Inv p) {timer : Timer} {key : Key} (hmem : timer ∈ p.timers)
    (hkey : timer.key = key) : timersOf key p = [timer] := by
  have hin : timer ∈ timersOf key p := mem_timersOf.mpr ⟨hmem, hkey⟩
  have hlength : (timersOf key p).length = 1 :=
    le_antisymm (h.length_timersOf_le key) (List.length_pos_of_mem hin)
  obtain ⟨t, ht⟩ := List.length_eq_one_iff.mp hlength
  rw [ht, List.mem_singleton] at hin
  rw [ht, hin]

/-- Clearing what is pending for a key clears the timers of the key. -/
theorem Inv.clearPending_eq (h : Inv p) {key : Key} (hkey : key ∈ tableKeys) :
    p.clearPending key = { p with timers := p.timers.filter fun timer => timer.key ≠ key } := by
  rw [Page.clearPending]
  cases hlookup : p.pending.lookup (keyId key) with
  | none =>
    have hkeep : (p.timers.filter fun timer => timer.key ≠ key) = p.timers := by
      refine List.filter_eq_self.mpr fun t ht => ?_
      rw [decide_eq_true_eq]
      intro heq
      have hsome := (h.pending (keyId key) t.id).mpr ⟨t, ht, rfl, by rw [heq]⟩
      exact absurd (hlookup.symm.trans hsome) nofun
    rw [hkeep]
  | some existing =>
    obtain ⟨t, ht, hid, hkeyId⟩ := (h.pending _ _).mp hlookup
    have htkey : t.key = key := keyId_injOn (h.known t ht) hkey hkeyId
    have hpos : existing ≠ 0 := by
      have := (h.fresh t ht).1
      omega
    have hsame : (p.timers.filter fun timer => timer.id ≠ existing) =
        p.timers.filter fun timer => timer.key ≠ key := by
      refine List.filter_congr fun t' ht' => decide_eq_decide.mpr (not_congr ⟨?_, ?_⟩)
      · intro heq
        rw [h.eq_of_id ht' ht (heq.trans hid.symm), htkey]
      · intro heq
        rw [h.eq_of_key ht' ht (heq.trans htkey.symm), hid]
    dsimp only
    rw [if_pos hpos, Page.clearTimeout, hsame]

/-- Scheduling a key leaves it with one timer, due in full, and the others as they are. -/
theorem Inv.scheduleInvalidate_eq (h : Inv p) {key : Key} (hkey : key ∈ tableKeys) :
    scheduleInvalidate p key = { p with
      nextTimer := p.nextTimer + 1
      timers := (p.timers.filter fun timer => timer.key ≠ key) ++
        [⟨p.nextTimer, p.now + debounceMs, key⟩]
      pending := p.pending.set (keyId key) p.nextTimer } := by
  rw [scheduleInvalidate, h.clearPending_eq hkey]

/-- The timers after scheduling a key are those of the other keys, and the new one. -/
theorem mem_scheduled {key : Key} {timer new : Timer} :
    timer ∈ (p.timers.filter fun timer => timer.key ≠ key) ++ [new] ↔
      (timer ∈ p.timers ∧ timer.key ≠ key) ∨ timer = new := by
  rw [List.mem_append, List.mem_filter, decide_eq_true_eq, List.mem_singleton]

theorem Inv.schedule (h : Inv p) {key : Key} (hkey : key ∈ tableKeys) :
    Inv (scheduleInvalidate p key) := by
  rw [h.scheduleInvalidate_eq hkey]
  refine ⟨Nat.succ_pos _, ?_, ?_, ?_, ?_⟩
  · intro t ht
    rcases mem_scheduled.mp ht with ⟨hold, -⟩ | rfl
    · obtain ⟨hpos, hlt⟩ := h.fresh t hold
      exact ⟨hpos, Nat.lt_succ_of_lt hlt⟩
    · exact ⟨h.next, Nat.lt_succ_self _⟩
  · rw [List.map_append, List.map_singleton, List.nodup_append']
    refine ⟨h.nodup.sublist (List.filter_sublist.map _), List.nodup_singleton _, ?_⟩
    intro id hid hnew
    obtain ⟨t, ht, rfl⟩ := List.mem_map.mp hid
    have hlt := (h.fresh t (List.mem_of_mem_filter ht)).2
    have hlast : t.id = p.nextTimer := List.mem_singleton.mp hnew
    omega
  · intro t ht
    rcases mem_scheduled.mp ht with ⟨hold, -⟩ | rfl
    · exact h.known t hold
    · exact hkey
  · intro id t
    by_cases hid : id = keyId key
    · -- the id of this key leads to the new timer only
      subst hid
      rw [OrderedMap.lookup_set_self, Option.some.injEq]
      constructor
      · rintro rfl
        exact ⟨_, mem_scheduled.mpr (.inr rfl), rfl, rfl⟩
      · rintro ⟨timer, hmem, rfl, heq⟩
        rcases mem_scheduled.mp hmem with ⟨hold, hne⟩ | rfl
        · exact absurd (keyId_injOn (h.known timer hold) hkey heq) hne
        · rfl
    · rw [OrderedMap.lookup_set_ne hid, h.pending]
      constructor
      · rintro ⟨timer, hmem, ht, rfl⟩
        have hne : timer.key ≠ key := fun heq => hid (by rw [heq])
        exact ⟨timer, mem_scheduled.mpr (.inl ⟨hmem, hne⟩), ht, rfl⟩
      · rintro ⟨timer, hmem, ht, rfl⟩
        rcases mem_scheduled.mp hmem with ⟨hold, -⟩ | rfl
        · exact ⟨timer, hold, ht, rfl⟩
        · exact absurd rfl hid

theorem Inv.timersOf_scheduleInvalidate_self (h : Inv p) {key : Key} (hkey : key ∈ tableKeys) :
    timersOf key (scheduleInvalidate p key) =
      [⟨p.nextTimer, p.now + debounceMs, key⟩] := by
  rw [h.scheduleInvalidate_eq hkey, timersOf, List.filter_append, List.filter_filter]
  simp

theorem Inv.timersOf_scheduleInvalidate_ne (h : Inv p) {key key' : Key} (hkey : key ∈ tableKeys)
    (hne : key' ≠ key) :
    timersOf key' (scheduleInvalidate p key) = timersOf key' p := by
  rw [h.scheduleInvalidate_eq hkey, timersOf, timersOf, List.filter_append, List.filter_filter]
  have hrest : (p.timers.filter fun timer => decide (timer.key = key') && decide (timer.key ≠ key)) =
      p.timers.filter fun timer => timer.key = key' := by
    refine List.filter_congr fun t _ => ?_
    by_cases ht : t.key = key'
    · simp [ht, hne]
    · simp [ht]
  rw [hrest]
  simp [Ne.symm hne]

/-- What an event does: its keys have one timer each, due in full, and nothing else changes. -/
theorem Inv.foldl_schedule : ∀ {keys : List Key} {p : Page}, Inv p →
    (∀ key ∈ keys, key ∈ tableKeys) →
    Inv (keys.foldl scheduleInvalidate p) ∧
      (keys.foldl scheduleInvalidate p).now = p.now ∧
      (keys.foldl scheduleInvalidate p).mounted = p.mounted ∧
      ∀ key, (key ∉ keys → timersOf key (keys.foldl scheduleInvalidate p) =
          timersOf key p) ∧
        (key ∈ keys → ∃ id, timersOf key (keys.foldl scheduleInvalidate p) =
          [⟨id, p.now + debounceMs, key⟩])
  | [], p, h, _ => ⟨h, rfl, rfl, fun key => ⟨fun _ => rfl, fun hmem => absurd hmem List.not_mem_nil⟩⟩
  | key :: keys, p, h, hknown => by
    have hkey : key ∈ tableKeys := hknown key List.mem_cons_self
    have hnow : (scheduleInvalidate p key).now = p.now := by
      rw [h.scheduleInvalidate_eq hkey]
    have hmounted : (scheduleInvalidate p key).mounted = p.mounted := by
      rw [h.scheduleInvalidate_eq hkey]
    obtain ⟨hinv, hnow', hmounted', hall⟩ := (h.schedule hkey).foldl_schedule
      fun key' hmem => hknown key' (List.mem_cons_of_mem _ hmem)
    refine ⟨hinv, hnow'.trans hnow, hmounted'.trans hmounted, fun key' => ⟨fun hnot => ?_, ?_⟩⟩
    · rw [List.mem_cons, not_or] at hnot
      rw [List.foldl_cons, (hall key').1 hnot.2, h.timersOf_scheduleInvalidate_ne hkey hnot.1]
    · intro hmem
      by_cases hrest : key' ∈ keys
      · rw [← hnow]
        exact (hall key').2 hrest
      · obtain rfl := (List.mem_cons.mp hmem).resolve_right hrest
        rw [List.foldl_cons, (hall key').1 hrest, h.timersOf_scheduleInvalidate_self hkey]
        exact ⟨_, rfl⟩

/-! ## One step -/

/-- The label is an event of a kind that maps to the key. -/
def Touches (key : Key) : Label → Prop
  | .event (some kind) => key ∈ keysOf kind
  | _ => False

theorem inv_onInvalidate (h : Inv p) (kind : Option GoString) : Inv (onInvalidate p kind) := by
  cases kind with
  | none => exact h
  | some kind => exact (h.foldl_schedule (keysOf_subset kind)).1

theorem step_event {kind : Option GoString} {p' : Page} (hstep : step p (.event kind) = some p') :
    p.mounted = true ∧ p' = onInvalidate p kind := by
  rw [step] at hstep
  split_ifs at hstep with hmounted
  exact ⟨hmounted, (Option.some.inj hstep).symm⟩

theorem step_unmount {p' : Page} (hstep : step p .unmount = some p') : p.mounted = true ∧
    p' = { p.pending.values.foldl Page.clearTimeout p with pending := .empty, mounted := false } := by
  rw [step] at hstep
  split_ifs at hstep with hmounted
  exact ⟨hmounted, (Option.some.inj hstep).symm⟩

/-- Firing a timer removes it, and no other timer. -/
theorem step_fire {t : ℕ} {p' : Page} (hstep : step p (.fire t) = some p') :
    ∃ timer ∈ p.timers, timer.id = t ∧ timer.due ≤ p.now ∧ invalidated p (.fire t) = [timer.key] ∧
      p' = { p.clearTimeout t with pending := p.pending.erase (keyId timer.key) } := by
  rw [step] at hstep
  cases hfind : p.timers.find? fun timer => timer.id = t with
  | none =>
    rw [hfind] at hstep
    exact absurd hstep nofun
  | some timer =>
    rw [hfind] at hstep
    dsimp only at hstep
    have hid : timer.id = t := by simpa using List.find?_some hfind
    by_cases hdue : timer.due ≤ p.now
    · rw [if_pos hdue, Option.some.injEq] at hstep
      refine ⟨timer, List.mem_of_find?_eq_some hfind, hid, hdue, ?_, hstep.symm⟩
      rw [invalidated, hfind]
      rfl
    · rw [if_neg hdue] at hstep
      exact absurd hstep nofun

theorem Inv.fire (h : Inv p) {timer : Timer} (hmem : timer ∈ p.timers) :
    Inv { p.clearTimeout timer.id with pending := p.pending.erase (keyId timer.key) } where
  next := h.next
  fresh t ht := h.fresh t (List.mem_of_mem_filter ht)
  nodup := h.nodup.sublist (List.filter_sublist.map _)
  known t ht := h.known t (List.mem_of_mem_filter ht)
  pending := by
    intro id t
    by_cases hid : id = keyId timer.key
    · subst hid
      rw [OrderedMap.lookup_erase_self]
      constructor
      · exact fun hnone => absurd hnone nofun
      · rintro ⟨t', ht', -, hkeyId⟩
        rw [Page.clearTimeout, List.mem_filter, decide_eq_true_eq] at ht'
        have hkey := keyId_injOn (h.known t' ht'.1) (h.known timer hmem) hkeyId
        exact absurd (congrArg Timer.id (h.eq_of_key ht'.1 hmem hkey)) ht'.2
    · rw [OrderedMap.lookup_erase_ne hid, h.pending]
      constructor
      · rintro ⟨t', ht', hid', rfl⟩
        refine ⟨t', List.mem_filter.mpr ⟨ht', ?_⟩, hid', rfl⟩
        rw [decide_eq_true_eq]
        exact fun heq => hid (by rw [h.eq_of_id ht' hmem heq])
      · rintro ⟨t', ht', hid', rfl⟩
        exact ⟨t', List.mem_of_mem_filter ht', hid', rfl⟩

theorem timers_foldl_clearTimeout (ids : List ℕ) : ∀ p : Page,
    (ids.foldl Page.clearTimeout p).timers = p.timers.filter fun timer => timer.id ∉ ids := by
  induction ids with
  | nil => simp
  | cons id ids ih =>
    intro p
    rw [List.foldl_cons, ih, Page.clearTimeout, List.filter_filter]
    refine List.filter_congr fun t _ => ?_
    by_cases ht : t.id = id
    · simp [ht]
    · simp [ht]

theorem nextTimer_foldl_clearTimeout (ids : List ℕ) : ∀ p : Page,
    (ids.foldl Page.clearTimeout p).nextTimer = p.nextTimer := by
  induction ids with
  | nil => exact fun _ => rfl
  | cons id ids ih => exact fun p => ih (p.clearTimeout id)

/-- Unmounting clears every timer. -/
theorem Inv.timers_unmount (h : Inv p) :
    (p.pending.values.foldl Page.clearTimeout p).timers = [] := by
  rw [timers_foldl_clearTimeout, List.filter_eq_nil_iff]
  intro t ht
  have hlookup := (h.pending (keyId t.key) t.id).mpr ⟨t, ht, rfl, rfl⟩
  have hvalue : t.id ∈ p.pending.values :=
    List.mem_map.mpr ⟨_, OrderedMap.mem_entries_iff.mpr hlookup, rfl⟩
  simp [hvalue]

theorem inv_step {l : Label} {p' : Page} (h : Inv p) (hstep : step p l = some p') : Inv p' := by
  cases l with
  | event kind =>
    obtain ⟨-, rfl⟩ := step_event hstep
    exact inv_onInvalidate h kind
  | advance ms =>
    rw [step, Option.some.injEq] at hstep
    exact hstep ▸ ⟨h.next, h.fresh, h.nodup, h.known, h.pending⟩
  | fire t =>
    obtain ⟨timer, hmem, rfl, -, -, rfl⟩ := step_fire hstep
    exact h.fire hmem
  | unmount =>
    obtain ⟨-, rfl⟩ := step_unmount hstep
    have hnone := h.timers_unmount
    refine ⟨?_, ?_, ?_, ?_, ?_⟩
    · exact nextTimer_foldl_clearTimeout _ p ▸ h.next
    · simp [hnone]
    · simp [hnone]
    · simp [hnone]
    · simp [hnone]

end Step

/-! ## Runs -/

/-- The label neither sets the timer of the key again nor ends the hook. -/
def Quiet (key : Key) (l : Label) : Prop := ¬ Touches key l ∧ l ≠ .unmount

/-- How far the clock goes on over the labels. -/
def elapsed : List Label → ℕ
  | [] => 0
  | .advance ms :: ls => ms + elapsed ls
  | _ :: ls => elapsed ls

section Runs

variable {p p' : Page} {key : Key}

/-- A quiet label leaves the timer of the key alone, or fires it when it is due. -/
theorem Inv.quiet_step (h : Inv p) {l : Label} (hquiet : Quiet key l)
    (hstep : step p l = some p') :
    p'.now = p.now + elapsed [l] ∧
      ((timersOf key p' = timersOf key p ∧ (invalidated p l).count key = 0) ∨
        ∃ t, timersOf key p = [t] ∧ t.due ≤ p.now ∧ timersOf key p' = [] ∧
          (invalidated p l).count key = 1) := by
  cases l with
  | event kind =>
    obtain ⟨-, rfl⟩ := step_event hstep
    cases kind with
    | none => exact ⟨rfl, .inl ⟨rfl, rfl⟩⟩
    | some kind =>
      obtain ⟨-, hnow, -, hall⟩ := h.foldl_schedule (keysOf_subset kind)
      exact ⟨hnow, .inl ⟨(hall key).1 hquiet.1, rfl⟩⟩
  | advance ms =>
    rw [step, Option.some.injEq] at hstep
    rw [← hstep]
    exact ⟨rfl, .inl ⟨rfl, rfl⟩⟩
  | fire t =>
    obtain ⟨timer, hmem, rfl, hdue, hout, rfl⟩ := step_fire hstep
    refine ⟨rfl, ?_⟩
    rw [hout]
    by_cases hkey : timer.key = key
    · -- the timer of the key, its only one
      have hone := h.timersOf_eq hmem hkey
      refine .inr ⟨timer, hone, hdue, ?_, by rw [hkey, List.count_singleton_self]⟩
      refine List.filter_eq_nil_iff.mpr fun t ht => ?_
      rw [Page.clearTimeout, List.mem_filter, decide_eq_true_eq] at ht
      rw [decide_eq_true_eq]
      exact fun heq => ht.2 (by rw [h.eq_of_key ht.1 hmem (heq.trans hkey.symm)])
    · refine .inl ⟨?_, List.count_eq_zero.mpr fun hin => hkey (List.mem_singleton.mp hin).symm⟩
      rw [timersOf, timersOf, Page.clearTimeout, List.filter_filter]
      refine List.filter_congr fun t ht => ?_
      by_cases htk : t.key = key
      · have hne : t.id ≠ timer.id := fun heq => hkey (by rw [← h.eq_of_id ht hmem heq, htk])
        simp [htk, hne]
      · simp [htk]
  | unmount => exact absurd rfl hquiet.2

/-- Over quiet labels the timer of the key stays, or it fires once. -/
theorem Inv.quiet_run : ∀ {ls : List Label} {p : Page}, Inv p → (∀ l ∈ ls, Quiet key l) →
    run step p ls = some p' →
    p'.now = p.now + elapsed ls ∧
      ((timersOf key p' = timersOf key p ∧ (emitted step invalidated p ls).count key = 0) ∨
        ∃ t, timersOf key p = [t] ∧ t.due ≤ p'.now ∧ timersOf key p' = [] ∧
          (emitted step invalidated p ls).count key = 1)
  | [], p, _, _, hrun => by
    rw [run_nil, Option.some.injEq] at hrun
    rw [← hrun]
    exact ⟨rfl, .inl ⟨rfl, rfl⟩⟩
  | l :: ls, p, h, hquiet, hrun => by
    obtain ⟨m, hm, hrest⟩ := run_cons_eq_some.mp hrun
    obtain ⟨hnow, hstep⟩ := h.quiet_step (hquiet l List.mem_cons_self) hm
    obtain ⟨hnow', hrun'⟩ := (inv_step h hm).quiet_run
      (fun l' hl' => hquiet l' (List.mem_cons_of_mem _ hl')) hrest
    have htime : p'.now = p.now + elapsed (l :: ls) := by
      rw [hnow', hnow]
      cases l with
      | event kind => simp [elapsed]
      | advance ms => simp [elapsed, Nat.add_assoc]
      | fire t => simp [elapsed]
      | unmount => simp [elapsed]
    refine ⟨htime, ?_⟩
    rw [emitted_cons hm, List.count_append]
    rcases hstep with ⟨hkeep, hnone⟩ | ⟨t, hone, hdue, hgone, honce⟩
    · rcases hrun' with ⟨hkeep', hnone'⟩ | ⟨t, hone, hdue, hgone, honce⟩
      · exact .inl ⟨hkeep'.trans hkeep, by rw [hnone, hnone']⟩
      · exact .inr ⟨t, hkeep ▸ hone, hdue, hgone, by rw [hnone, honce]⟩
    · -- it has fired, and nothing sets it again
      rcases hrun' with ⟨hkeep', hnone'⟩ | ⟨t', hone', -, -, -⟩
      · exact .inr ⟨t, hone, by omega, hkeep'.trans hgone, by rw [honce, hnone']⟩
      · rw [hgone] at hone'
        exact absurd hone' nofun

/-- An event sets the timer of each of its keys anew. -/
theorem Inv.event_step (h : Inv p) {kind : GoString} (hkey : key ∈ keysOf kind)
    (hstep : step p (.event (some kind)) = some p') :
    p'.now = p.now ∧ ∃ id, timersOf key p' = [⟨id, p.now + debounceMs, key⟩] := by
  obtain ⟨-, rfl⟩ := step_event hstep
  obtain ⟨-, hnow, -, hall⟩ := h.foldl_schedule (keysOf_subset kind)
  exact ⟨hnow, (hall key).2 hkey⟩

/-- An event and what follows it up to the next one that sets the timer of the key, with less than
the debounce interval in between. -/
structure Gap (key : Key) (g : GoString × List Label) : Prop where
  touches : key ∈ keysOf g.1
  quiet : ∀ l ∈ g.2, Quiet key l
  short : elapsed g.2 < debounceMs

/-- The labels of events with gaps between them. -/
def burst (gaps : List (GoString × List Label)) : List Label :=
  gaps.flatMap fun g => .event (some g.1) :: g.2

/-- Nothing invalidates the key between the events of a burst. -/
theorem Inv.burst_run : ∀ {gaps : List (GoString × List Label)} {p : Page}, Inv p →
    (∀ g ∈ gaps, Gap key g) → run step p (burst gaps) = some p' →
    (emitted step invalidated p (burst gaps)).count key = 0
  | [], _, _, _, _ => rfl
  | g :: gaps, p, h, hgaps, hrun => by
    have hg := hgaps g List.mem_cons_self
    rw [burst, List.flatMap_cons, List.cons_append] at hrun ⊢
    obtain ⟨m, hm, hrest⟩ := run_cons_eq_some.mp hrun
    obtain ⟨m', hm', hrest'⟩ := run_append.mp hrest
    obtain ⟨hnow, id, htimer⟩ := h.event_step hg.touches hm
    have hinv := inv_step h hm
    obtain ⟨hnow', hquiet⟩ := hinv.quiet_run hg.quiet hm'
    have hinv' := run_invariant (fun _ _ _ => inv_step) hinv hm'
    have htail := hinv'.burst_run (fun g' hg' => hgaps g' (List.mem_cons_of_mem _ hg')) hrest'
    rw [emitted_cons hm, emitted_append hm', List.count_append, List.count_append]
    rcases hquiet with ⟨-, hnone⟩ | ⟨t, hone, hdue, -, -⟩
    · have hevent : (invalidated p (.event (some g.1))).count key = 0 := rfl
      rw [hevent, hnone, Nat.zero_add, Nat.zero_add]
      exact htail
    · -- the timer is not due before the next event
      rw [htimer] at hone
      have hshort := hg.short
      rw [← List.head_eq_of_cons_eq hone] at hdue
      dsimp only at hdue
      omega

/-- After the last event the key has its timer or has been invalidated once. -/
theorem Inv.last_event (h : Inv p) {kind : GoString} {post : List Label} (hkey : key ∈ keysOf kind)
    (hquiet : ∀ l ∈ post, Quiet key l) (hrun : run step p (.event (some kind) :: post) = some p') :
    ((timersOf key p').length = 1 ∧
        (emitted step invalidated p (.event (some kind) :: post)).count key = 0) ∨
      (timersOf key p' = [] ∧
        (emitted step invalidated p (.event (some kind) :: post)).count key = 1) := by
  obtain ⟨m, hm, hrest⟩ := run_cons_eq_some.mp hrun
  obtain ⟨-, id, htimer⟩ := h.event_step hkey hm
  have hevent : invalidated p (.event (some kind)) = [] := rfl
  rw [emitted_cons hm, hevent, List.nil_append]
  rcases ((inv_step h hm).quiet_run hquiet hrest).2 with ⟨hkeep, hnone⟩ | ⟨t, -, -, hgone, honce⟩
  · exact .inl ⟨by rw [hkeep, htimer]; rfl, hnone⟩
  · exact .inr ⟨hgone, honce⟩

/-- A key whose timer is gone has been invalidated, however often it was set again. -/
theorem Inv.mem_emitted_of_gone : ∀ {ls : List Label} {p : Page}, Inv p →
    (timersOf key p).length = 1 → .unmount ∉ ls → run step p ls = some p' →
    timersOf key p' = [] → key ∈ emitted step invalidated p ls
  | [], p, _, hlive, _, hrun, hgone => by
    rw [run_nil, Option.some.injEq] at hrun
    rw [hrun, hgone] at hlive
    exact absurd hlive nofun
  | l :: ls, p, h, hlive, hmounted, hrun, hgone => by
    obtain ⟨m, hm, hrest⟩ := run_cons_eq_some.mp hrun
    rw [List.mem_cons, not_or] at hmounted
    rw [emitted_cons hm, List.mem_append]
    have hlater : (timersOf key m).length = 1 → key ∈ emitted step invalidated m ls := fun hlive' =>
      (inv_step h hm).mem_emitted_of_gone hlive' hmounted.2 hrest hgone
    by_cases htouches : Touches key l
    · refine .inr (hlater ?_)
      cases l with
      | event kind =>
        cases kind with
        | none => exact absurd htouches id
        | some kind =>
          obtain ⟨-, id, htimer⟩ := h.event_step htouches hm
          rw [htimer]
          rfl
      | advance ms => exact absurd htouches id
      | fire t => exact absurd htouches id
      | unmount => exact absurd htouches id
    · rcases (h.quiet_step ⟨htouches, Ne.symm hmounted.1⟩ hm).2 with ⟨hkeep, -⟩ | ⟨t, -, -, -, honce⟩
      · exact .inr (hlater (hkeep ▸ hlive))
      · exact .inl (List.count_pos_iff.mp (by omega))

/-- Only keys of the table are invalidated. -/
theorem Inv.emitted_known : ∀ {ls : List Label} {p : Page}, Inv p → run step p ls = some p' →
    ∀ key ∈ emitted step invalidated p ls, key ∈ tableKeys
  | [], _, _, _, _, hkey => absurd hkey List.not_mem_nil
  | l :: ls, p, h, hrun, key, hkey => by
    obtain ⟨m, hm, hrest⟩ := run_cons_eq_some.mp hrun
    rw [emitted_cons hm, List.mem_append] at hkey
    rcases hkey with hnow | hlater
    · cases l with
      | event kind => exact absurd hnow List.not_mem_nil
      | advance ms => exact absurd hnow List.not_mem_nil
      | fire t =>
        obtain ⟨timer, hmem, -, -, hout, -⟩ := step_fire hm
        rw [hout, List.mem_singleton] at hnow
        exact hnow ▸ h.known timer hmem
      | unmount => exact absurd hnow List.not_mem_nil
    · exact (inv_step h hm).emitted_known hrest key hlater

/-- A live timer that is due fires and invalidates its key. -/
theorem Inv.fires (h : Inv p) {t : Timer} (ht : t ∈ p.timers) {ms : ℕ} (hdue : t.due ≤ p.now + ms) :
    ∃ p', run step p [.advance ms, .fire t.id] = some p' ∧
      emitted step invalidated p [.advance ms, .fire t.id] = [t.key] := by
  have hfind : p.timers.find? (fun timer => timer.id = t.id) = some t := by
    have hsome : (p.timers.find? fun timer => timer.id = t.id).isSome :=
      List.find?_isSome.mpr ⟨t, ht, decide_eq_true rfl⟩
    obtain ⟨t', ht'⟩ := Option.isSome_iff_exists.mp hsome
    have hid : t'.id = t.id := by simpa using List.find?_some ht'
    rw [ht', h.eq_of_id (List.mem_of_find?_eq_some ht') ht hid]
  have hfire : ∃ p', step { p with now := p.now + ms } (.fire t.id) = some p' := by
    rw [step, hfind]
    exact ⟨_, if_pos hdue⟩
  obtain ⟨p', hp'⟩ := hfire
  have hadvance : step p (.advance ms) = some { p with now := p.now + ms } := rfl
  refine ⟨p', ?_, ?_⟩
  · rw [run_cons, hadvance, Option.bind_some, run_cons, hp']
    rfl
  · have hout : invalidated { p with now := p.now + ms } (.fire t.id) = [t.key] := by
      rw [invalidated, hfind]
      rfl
    rw [emitted_cons hadvance, emitted_cons hp', hout]
    rfl

/-- Once the hook is unmounted no timer is left to fire. -/
theorem silent_run : ∀ {ls : List Label} {p : Page}, p.timers = [] → p.mounted = false →
    run step p ls = some p' → p'.timers = [] ∧ ∀ t, .fire t ∉ ls
  | [], p, htimers, _, hrun => by
    rw [run_nil, Option.some.injEq] at hrun
    exact ⟨hrun ▸ htimers, fun _ => List.not_mem_nil⟩
  | l :: ls, p, htimers, hmounted, hrun => by
    obtain ⟨m, hm, hrest⟩ := run_cons_eq_some.mp hrun
    -- only the clock goes on
    cases l with
    | event kind =>
      rw [step, hmounted] at hm
      exact absurd hm nofun
    | advance ms =>
      rw [step, Option.some.injEq] at hm
      obtain ⟨hnone, hfire⟩ := silent_run (hm ▸ htimers) (hm ▸ hmounted) hrest
      refine ⟨hnone, fun t ht => ?_⟩
      exact hfire t ((List.mem_cons.mp ht).resolve_left nofun)
    | fire t =>
      rw [step, htimers] at hm
      exact absurd hm nofun
    | unmount =>
      rw [step, hmounted] at hm
      exact absurd hm nofun

theorem Inv.unmount_run (h : Inv p) {post : List Label}
    (hrun : run step p (.unmount :: post) = some p') :
    p'.timers = [] ∧ ∀ t, .fire t ∉ post := by
  obtain ⟨m, hm, hrest⟩ := run_cons_eq_some.mp hrun
  obtain ⟨-, hm'⟩ := step_unmount hm
  have htimers : m.timers = [] := by
    rw [hm']
    exact h.timers_unmount
  exact silent_run htimers (by rw [hm']) hrest

end Runs

/-- What holds from a state of the page on: one timer for each key at most; after the last event of
a key its timer or one invalidation; nothing within a burst, and with its last event one timer or one
invalidation; a due timer can fire; and none fires after unmount. -/
structure Debounced (m : Page) : Prop where
  single : ∀ key, (timersOf key m).length ≤ 1
  kept : ∀ kind post key w, key ∈ keysOf kind → (∀ l ∈ post, Quiet key l) →
    run step m (.event (some kind) :: post) = some w →
      ((timersOf key w).length = 1 ∧
          (emitted step invalidated m (.event (some kind) :: post)).count key = 0) ∨
        (timersOf key w = [] ∧
          (emitted step invalidated m (.event (some kind) :: post)).count key = 1)
  burst : ∀ gaps kind post key w, (∀ g ∈ gaps, Gap key g) → key ∈ keysOf kind →
    (∀ l ∈ post, Quiet key l) →
    run step m (burst gaps ++ .event (some kind) :: post) = some w →
      (emitted step invalidated m (burst gaps)).count key = 0 ∧
        (emitted step invalidated m (burst gaps ++ .event (some kind) :: post)).count key +
          (timersOf key w).length = 1
  fires : ∀ t ∈ m.timers, ∀ ms, t.due ≤ m.now + ms → ∃ w,
    run step m [.advance ms, .fire t.id] = some w ∧
      emitted step invalidated m [.advance ms, .fire t.id] = [t.key]
  silent : ∀ post w, run step m (.unmount :: post) = some w → w.timers = [] ∧ ∀ t, .fire t ∉ post

theorem Inv.debounced {m : Page} (h : Inv m) : Debounced m where
  single := h.length_timersOf_le
  kept _ _ _ _ hkey hquiet hrun := h.last_event hkey hquiet hrun
  burst := by
    intro gaps kind post key w hgaps hkey hquiet hrun
    obtain ⟨m', hm', hrest⟩ := run_append.mp hrun
    have hnone := h.burst_run hgaps hm'
    have hinv := run_invariant (fun _ _ _ => inv_step) h hm'
    refine ⟨hnone, ?_⟩
    rw [emitted_append hm', List.count_append, hnone]
    rcases hinv.last_event hkey hquiet hrest with ⟨hlive, hzero⟩ | ⟨hgone, honce⟩
    · rw [hlive, hzero]
    · rw [hgone, honce]
      rfl
  fires _ ht _ hdue := h.fires ht hdue
  silent _ _ hrun := h.unmount_run hrun

/-- Debounced invalidation loses nothing, from any state that a run of the page reaches. -/
theorem debounced_of_run {ls : List Label} {m : Page} (h : run step {} ls = some m) :
    Debounced m :=
  (run_invariant (fun _ _ _ => inv_step) inv_init h).debounced

/-- The page after an alert changed twice within the interval. -/
def alertsPage : Page where
  now := 200
  nextTimer := 3
  timers := [⟨2, 500, ["alerts"]⟩]
  pending := ⟨[("alerts", 2)], List.nodup_singleton _⟩

theorem debounced_alertsPage : Debounced alertsPage := by
  have hrun : run step {} [.event (some "Alert"), .advance 200, .event (some "Alert")] =
      some alertsPage := rfl
  exact debounced_of_run hrun

end Yafu.Web.Invalidation
