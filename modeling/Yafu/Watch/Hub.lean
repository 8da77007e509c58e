import Yafu.Lib.GoString
import Yafu.Lib.Transition
import Mathlib.Data.List.Nodup
import Mathlib.Logic.Function.Basic

/-!
# The event hub

Reference: `internal/watch/hub.go`.

The steps are those that goroutines can see of each other: a section under the write lock, one round
of the loop of `Publish` under the read lock, `close`, and the receipt of an event. A goroutine that
would send on a closed channel, or close it again, panics; the hub remembers that.

A call of `Publish` has a number, which its event carries, so that equal events of two calls are
told apart.
-/

namespace Yafu.Watch

/-- `Event`. -/
structure Event where
  cluster : GoString
  kind : GoString
  verb : GoString
  ns : GoString := []
  name : GoString
deriving DecidableEq, Repr

/-- The capacity of a subscriber's channel. -/
def bufferCap : ℕ := 64

/-- An event, with the call of `Publish` that sends it. -/
structure Sent where
  call : ℕ
  ev : Event
deriving DecidableEq, Repr

/-- How far the unsubscribe function has come in its `once.Do`. -/
inductive Once
  | idle
  | deleting
  | closing
  | done
deriving DecidableEq, Repr

/-- `subscriber`, with what its owner has received. -/
structure Subscriber where
  buffer : List Sent := []
  received : List Sent := []
  closed : Bool := false
  once : Once := .idle
deriving DecidableEq, Repr

/-- What the owner has received or still finds in the channel. -/
def Subscriber.delivered (b : Subscriber) : List Sent := b.received ++ b.buffer

/-- A call of `Publish` in its loop, with the subscribers that it has not come to. -/
structure Publishing where
  ev : Event
  visit : List ℕ
deriving DecidableEq, Repr

/-- `Hub`, with the calls of `Publish` that hold the read lock, and their number so far. -/
structure Hub where
  subs : List ℕ := []
  subscriber : ℕ → Option Subscriber := fun _ => none
  publishing : ℕ → Option Publishing := fun _ => none
  calls : ℕ := 0
  panicked : Bool := false

/-- No goroutine holds the read lock. -/
def Hub.Unlocked (h : Hub) : Prop := ∀ p < h.calls, (h.publishing p).isNone

instance (h : Hub) : Decidable h.Unlocked := inferInstanceAs (Decidable (∀ p < h.calls, _))

/-- A step of a goroutine. -/
inductive Label
  | subscribe (s : ℕ)
  | beginPublish (ev : Event)
  | send (p s : ℕ)
  | endPublish (p : ℕ)
  | unsubscribe (s : ℕ)
  | delete (s : ℕ)
  | close (s : ℕ)
  | receive (s : ℕ)
deriving DecidableEq, Repr

/-- The hub with a subscriber as it is now. -/
def Hub.put (h : Hub) (s : ℕ) (b : Subscriber) : Hub :=
  { h with subscriber := Function.update h.subscriber s (some b) }

/-- The hub with a call of `Publish` as it is now, if it has not returned. -/
def Hub.setCall (h : Hub) (p : ℕ) (c : Option Publishing) : Hub :=
  { h with publishing := Function.update h.publishing p c }

@[simp] theorem Hub.put_self (h : Hub) (s : ℕ) (b : Subscriber) :
    (h.put s b).subscriber s = some b := Function.update_self ..

theorem Hub.put_ne (h : Hub) {s t : ℕ} (hts : t ≠ s) (b : Subscriber) :
    (h.put s b).subscriber t = h.subscriber t := Function.update_of_ne hts ..

@[simp] theorem Hub.setCall_self (h : Hub) (p : ℕ) (c : Option Publishing) :
    (h.setCall p c).publishing p = c := Function.update_self ..

theorem Hub.setCall_ne (h : Hub) {p q : ℕ} (hqp : q ≠ p) (c : Option Publishing) :
    (h.setCall p c).publishing q = h.publishing q := Function.update_of_ne hqp ..

/-- The `select` of `Publish`. -/
def Subscriber.offer (b : Subscriber) (x : Sent) : Subscriber :=
  if b.buffer.length < bufferCap then { b with buffer := b.buffer ++ [x] } else b

/-- One step. -/
def step (h : Hub) : Label → Option Hub
  | .subscribe s =>
    -- `mu.Lock` waits for every `mu.RLock`, here and in `delete`
    match h.subscriber s with
    | none => if h.Unlocked then some { h.put s {} with subs := s :: h.subs } else none
    | some _ => none
  | .beginPublish ev =>
    some { h.setCall h.calls (some ⟨ev, h.subs⟩) with calls := h.calls + 1 }
  | .send p s =>
    match h.publishing p, h.subscriber s with
    | some c, some b =>
      if s ∈ c.visit then
        -- Go panics at a send on a closed channel
        if b.closed then some { h with panicked := true }
        else
          some ((h.put s (b.offer ⟨p, c.ev⟩)).setCall p (some ⟨c.ev, c.visit.erase s⟩))
      else none
    | _, _ => none
  | .endPublish p =>
    match h.publishing p with
    | some ⟨_, []⟩ => some (h.setCall p none)
    | _ => none
  | .unsubscribe s =>
    -- a second call waits until the first one is done, and does nothing
    match h.subscriber s with
    | some b => some (if b.once = .idle then h.put s { b with once := .deleting } else h)
    | none => none
  | .delete s =>
    match h.subscriber s with
    | some b =>
      if b.once = .deleting ∧ h.Unlocked then
        some { h.put s { b with once := .closing } with subs := h.subs.erase s }
      else none
    | none => none
  | .close s =>
    match h.subscriber s with
    | some b =>
      if b.once = .closing then
        -- and at a second `close` of it
        if b.closed then some { h with panicked := true }
        else some (h.put s { b with closed := true, once := .done })
      else none
    | none => none
  | .receive s =>
    match h.subscriber s with
    | some b =>
      match b.buffer with
      | x :: buffer => some (h.put s { b with buffer, received := b.received ++ [x] })
      | [] => none
    | none => none

/-! ## What a step can do -/

/-- The steps of the hub, each with what it needs and what it leaves. -/
inductive Steps (h : Hub) : Label → Hub → Prop
  | subscribe {s : ℕ} (hnone : h.subscriber s = none) (hu : h.Unlocked) :
      Steps h (.subscribe s) { h.put s {} with subs := s :: h.subs }
  | begin (ev : Event) :
      Steps h (.beginPublish ev)
        { h.setCall h.calls (some ⟨ev, h.subs⟩) with calls := h.calls + 1 }
  | send {p s : ℕ} {c : Publishing} {b : Subscriber} (hc : h.publishing p = some c)
      (hb : h.subscriber s = some b) (hmem : s ∈ c.visit) (hopen : b.closed = false) :
      Steps h (.send p s)
        ((h.put s (b.offer ⟨p, c.ev⟩)).setCall p (some ⟨c.ev, c.visit.erase s⟩))
  | sendClosed {p s : ℕ} {c : Publishing} {b : Subscriber} (hc : h.publishing p = some c)
      (hb : h.subscriber s = some b) (hmem : s ∈ c.visit) (hclosed : b.closed = true) :
      Steps h (.send p s) { h with panicked := true }
  | ret {p : ℕ} {ev : Event} (hc : h.publishing p = some ⟨ev, []⟩) :
      Steps h (.endPublish p) (h.setCall p none)
  | unsubscribe {s : ℕ} {b : Subscriber} (hb : h.subscriber s = some b) (honce : b.once = .idle) :
      Steps h (.unsubscribe s) (h.put s { b with once := .deleting })
  | unsubscribeAgain {s : ℕ} : Steps h (.unsubscribe s) h
  | delete {s : ℕ} {b : Subscriber} (hb : h.subscriber s = some b) (honce : b.once = .deleting)
      (hu : h.Unlocked) :
      Steps h (.delete s) { h.put s { b with once := .closing } with subs := h.subs.erase s }
  | close {s : ℕ} {b : Subscriber} (hb : h.subscriber s = some b) (honce : b.once = .closing) :
      Steps h (.close s) (h.put s { b with closed := true, once := .done })
  | closeClosed {s : ℕ} {b : Subscriber} (hb : h.subscriber s = some b) (honce : b.once = .closing)
      (hclosed : b.closed = true) : Steps h (.close s) { h with panicked := true }
  | receive {s : ℕ} {b : Subscriber} {x : Sent} {buffer : List Sent}
      (hb : h.subscriber s = some b) (hbuffer : b.buffer = x :: buffer) :
      Steps h (.receive s) (h.put s { b with buffer, received := b.received ++ [x] })

theorem steps_of_step {h h' : Hub} {l : Label} (hstep : step h l = some h') : Steps h l h' := by
  cases l with
  | subscribe s =>
    simp only [step] at hstep
    split at hstep
    · rename_i hnone
      split_ifs at hstep with hu
      cases hstep
      exact .subscribe hnone hu
    · cases hstep
  | beginPublish ev =>
    cases hstep
    exact .begin ev
  | send p s =>
    simp only [step] at hstep
    split at hstep
    · rename_i c b hc hb
      split_ifs at hstep with hmem hclosed <;> cases hstep
      · exact .sendClosed hc hb hmem hclosed
      · exact .send hc hb hmem (Bool.not_eq_true _ ▸ hclosed)
    · cases hstep
  | endPublish p =>
    simp only [step] at hstep
    split at hstep
    · rename_i ev hc
      cases hstep
      exact .ret hc
    · cases hstep
  | unsubscribe s =>
    simp only [step] at hstep
    split at hstep
    · rename_i b hb
      split_ifs at hstep with honce <;> cases hstep
      · exact .unsubscribe hb honce
      · exact .unsubscribeAgain
    · cases hstep
  | delete s =>
    simp only [step] at hstep
    split at hstep
    · rename_i b hb
      split_ifs at hstep with hguard
      cases hstep
      exact .delete hb hguard.1 hguard.2
    · cases hstep
  | close s =>
    simp only [step] at hstep
    split at hstep
    · rename_i b hb
      split_ifs at hstep with honce hclosed <;> cases hstep
      · exact .closeClosed hb honce hclosed
      · exact .close hb honce
    · cases hstep
  | receive s =>
    simp only [step] at hstep
    split at hstep
    · rename_i b hb
      split at hstep
      · rename_i x buffer hbuffer
        cases hstep
        exact .receive hb hbuffer
      · cases hstep
    · cases hstep

/-! ## No panic -/

/-- What holds of every hub: the subscribers that a call of `Publish` still comes to are in the map,
and those in the map are open. -/
structure Sound (h : Hub) : Prop where
  notPanicked : h.panicked = false
  started : ∀ p, h.calls ≤ p → h.publishing p = none
  nodup : h.subs.Nodup
  visits : ∀ p c, h.publishing p = some c → c.visit.Nodup ∧ ∀ s ∈ c.visit, s ∈ h.subs
  opened : ∀ s ∈ h.subs, ∃ b, h.subscriber s = some b ∧ b.closed = false ∧
    (b.once = .idle ∨ b.once = .deleting)
  closing : ∀ s b, h.subscriber s = some b → b.once ≠ .done → b.closed = false

theorem sound_new : Sound {} where
  notPanicked := rfl
  started _ _ := rfl
  nodup := List.nodup_nil
  visits _ _ h := by cases h
  opened _ h := by cases h
  closing _ _ h := by cases h

theorem Hub.Unlocked.publishing_eq_none {h : Hub} (hs : Sound h) (hu : h.Unlocked) (p : ℕ) :
    h.publishing p = none := by
  by_cases hp : p < h.calls
  · exact Option.isNone_iff_eq_none.mp (hu p hp)
  · exact hs.started p (Nat.not_lt.mp hp)

theorem Sound.put {h : Hub} (hs : Sound h) {s : ℕ} {b : Subscriber}
    (hopened : s ∈ h.subs → b.closed = false ∧ (b.once = .idle ∨ b.once = .deleting))
    (hclosing : b.once ≠ .done → b.closed = false) : Sound (h.put s b) where
  notPanicked := hs.notPanicked
  started := hs.started
  nodup := hs.nodup
  visits := hs.visits
  opened t ht := by
    by_cases hts : t = s
    · subst hts
      exact ⟨b, h.put_self t b, hopened ht⟩
    · rw [h.put_ne hts]
      exact hs.opened t ht
  closing t b' hb' := by
    by_cases hts : t = s
    · subst hts
      rw [h.put_self, Option.some.injEq] at hb'
      rw [← hb']
      exact hclosing
    · rw [h.put_ne hts] at hb'
      exact hs.closing t b' hb'

/-- A call of `Publish` begins, goes on or returns. -/
theorem Sound.setCall {h : Hub} (hs : Sound h) {p calls : ℕ} {c : Option Publishing}
    (hcalls : h.calls ≤ calls) (hp : p < calls)
    (hc : ∀ c', c = some c' → c'.visit.Nodup ∧ ∀ s ∈ c'.visit, s ∈ h.subs) :
    Sound { h.setCall p c with calls } where
  notPanicked := hs.notPanicked
  started q hq := by
    have hqp : q ≠ p := fun heq => Nat.not_le.mpr hp (heq ▸ hq)
    show (h.setCall p c).publishing q = none
    rw [h.setCall_ne hqp]
    exact hs.started q (hcalls.trans hq)
  nodup := hs.nodup
  visits q c' hc' := by
    have hcall : (h.setCall p c).publishing q = some c' := hc'
    by_cases hqp : q = p
    · subst hqp
      rw [h.setCall_self] at hcall
      exact hc c' hcall
    · rw [h.setCall_ne hqp] at hcall
      exact hs.visits q c' hcall
  opened := hs.opened
  closing := hs.closing

theorem Sound.lt_of_publishing {h : Hub} (hs : Sound h) {p : ℕ} {c : Publishing}
    (hc : h.publishing p = some c) : p < h.calls := by
  by_contra hle
  rw [hs.started p (Nat.not_lt.mp hle)] at hc
  cases hc

theorem Sound.opened_of_mem {h : Hub} (hs : Sound h) {s : ℕ} {b : Subscriber} (hmem : s ∈ h.subs)
    (hb : h.subscriber s = some b) : b.closed = false ∧ (b.once = .idle ∨ b.once = .deleting) := by
  obtain ⟨b', hb', hopen⟩ := hs.opened s hmem
  rw [hb, Option.some.injEq] at hb'
  rw [hb']
  exact hopen

theorem Subscriber.offer_closed (b : Subscriber) (x : Sent) : (b.offer x).closed = b.closed := by
  rw [offer]
  split <;> rfl

theorem Subscriber.offer_once (b : Subscriber) (x : Sent) : (b.offer x).once = b.once := by
  rw [offer]
  split <;> rfl

/-- Nobody is on the way when a subscriber comes into the map. -/
theorem Sound.subscribe {h : Hub} (hs : Sound h) {s : ℕ} (hnone : h.subscriber s = none)
    (hu : h.Unlocked) : Sound { h.put s {} with subs := s :: h.subs } := by
  have hnot : s ∉ h.subs := fun hmem => by
    obtain ⟨b, hb, -⟩ := hs.opened s hmem
    rw [hnone] at hb
    cases hb
  have hput : Sound (h.put s {}) :=
    hs.put (fun hmem => absurd hmem hnot) fun _ => rfl
  refine { hput with nodup := List.nodup_cons.mpr ⟨hnot, hs.nodup⟩, visits := ?_, opened := ?_ }
  · intro p c hc
    have hpub := hu.publishing_eq_none hs p
    rw [show h.publishing p = some c from hc] at hpub
    cases hpub
  · intro t ht
    rcases List.mem_cons.mp ht with rfl | ht
    · exact ⟨{}, h.put_self t {}, rfl, .inl rfl⟩
    · exact hput.opened t ht

/-- Nobody is on the way when a subscriber leaves the map, so that no call comes to it later. -/
theorem Sound.delete {h : Hub} (hs : Sound h) {s : ℕ} {b : Subscriber}
    (hb : h.subscriber s = some b) (honce : b.once = .deleting) (hu : h.Unlocked) :
    Sound { h.put s { b with once := .closing } with subs := h.subs.erase s } where
  notPanicked := hs.notPanicked
  started := hs.started
  nodup := hs.nodup.erase s
  visits p c hc := by
    have hpub := hu.publishing_eq_none hs p
    rw [show h.publishing p = some c from hc] at hpub
    cases hpub
  opened t ht := by
    have hts : t ≠ s := ((List.Nodup.mem_erase_iff hs.nodup).mp ht).1
    show ∃ b', (h.put s _).subscriber t = some b' ∧ _
    rw [h.put_ne hts]
    exact hs.opened t (List.mem_of_mem_erase ht)
  closing t b' hb' hdone := by
    have hsub : (h.put s { b with once := .closing }).subscriber t = some b' := hb'
    by_cases hts : t = s
    · rw [hts, h.put_self, Option.some.injEq] at hsub
      rw [← hsub]
      exact hs.closing s b hb (by rw [honce]; decide)
    · rw [h.put_ne hts] at hsub
      exact hs.closing t b' hsub hdone

/-- A call of `Publish` goes on behind a subscriber. -/
theorem Sound.send {h : Hub} (hs : Sound h) {p s : ℕ} {c : Publishing} {b : Subscriber}
    (hc : h.publishing p = some c) (hb : h.subscriber s = some b) (hmem : s ∈ c.visit) (x : Sent) :
    Sound ((h.put s (b.offer x)).setCall p (some ⟨c.ev, c.visit.erase s⟩)) := by
  obtain ⟨hnodup, hsubs⟩ := hs.visits p c hc
  have hopen := hs.opened_of_mem (hsubs s hmem) hb
  have hput : Sound (h.put s (b.offer x)) := by
    refine hs.put (fun _ => ?_) fun _ => ?_
    · rwa [Subscriber.offer_closed, Subscriber.offer_once]
    · rw [Subscriber.offer_closed]
      exact hopen.1
  refine hput.setCall (Nat.le_refl _) (hs.lt_of_publishing hc) fun c' hc' => ?_
  rw [← Option.some.inj hc']
  exact ⟨hnodup.erase s, fun t ht => hsubs t (List.mem_of_mem_erase ht)⟩

/-- Whoever a call of `Publish` comes to is in the map, and open. -/
theorem Sound.opened_of_visit {h : Hub} (hs : Sound h) {p s : ℕ} {c : Publishing} {b : Subscriber}
    (hc : h.publishing p = some c) (hb : h.subscriber s = some b) (hmem : s ∈ c.visit) :
    b.closed = false :=
  (hs.opened_of_mem ((hs.visits p c hc).2 s hmem) hb).1

/-- No step sends on a closed channel or closes one again. -/
theorem sound_step {h h' : Hub} {l : Label} (hs : Sound h) (hstep : step h l = some h') :
    Sound h' := by
  cases steps_of_step hstep with
  | subscribe hnone hu => exact hs.subscribe hnone hu
  | begin ev =>
    refine hs.setCall (Nat.le_succ _) (Nat.lt_succ_self _) fun c' hc' => ?_
    rw [← Option.some.inj hc']
    exact ⟨hs.nodup, fun s hmem => hmem⟩
  | send hc hb hmem hopen => exact hs.send hc hb hmem _
  | sendClosed hc hb hmem hclosed =>
    rw [hs.opened_of_visit hc hb hmem] at hclosed
    cases hclosed
  | ret hc =>
    exact hs.setCall (Nat.le_refl _) (hs.lt_of_publishing hc) fun c' hc' => by cases hc'
  | unsubscribe hb honce =>
    exact hs.put (fun hmem => ⟨(hs.opened_of_mem hmem hb).1, .inr rfl⟩) fun _ =>
      (hs.closing _ _ hb (by rw [honce]; decide) :)
  | unsubscribeAgain => exact hs
  | delete hb honce hu => exact hs.delete hb honce hu
  | close hb honce =>
    refine hs.put (fun hmem => ?_) fun hdone => absurd rfl hdone
    -- it has left the map before
    rcases (hs.opened_of_mem hmem hb).2 with hmap | hmap <;> rw [honce] at hmap <;> cases hmap
  | closeClosed hb honce hclosed =>
    rw [hs.closing _ _ hb (by rw [honce]; decide)] at hclosed
    cases hclosed
  | receive hb hbuffer =>
    exact hs.put (fun hmem => (hs.opened_of_mem hmem hb :)) (hs.closing _ _ hb :)

end Yafu.Watch
