import Yafu.Watch.Hub

/-!
# What the hub delivers

Reference: `internal/watch/hub.go`.

Of the calls of `Publish` that take the read lock while a subscriber is in the map, each puts its
event into the subscriber's channel once, or finds the buffer full. Calls that overlap may come to a
subscriber in any order; a call that has returned comes before each that begins later.
-/

namespace Yafu.Watch

open Transition (run run_append run_history run_invariant)

/-! ## What a run says -/

section Runs

variable (ls : List Label)

/-- The call `p` published the event while `s` was subscribed. -/
def Published (p : ℕ) (ev : Event) (s : ℕ) : Prop :=
  ∃ us vs m, ls = us ++ .beginPublish ev :: vs ∧ run step {} us = some m ∧ m.calls = p ∧ s ∈ m.subs

/-- The call `p` had returned when the call `q` began. -/
def EndedBefore (p q : ℕ) : Prop :=
  ∃ us vs m, ls = us ++ vs ∧ run step {} us = some m ∧ p < m.calls ∧ m.publishing p = none ∧
    m.calls ≤ q

/-- The buffer of `s` was full when the call `p` came to it. -/
def FullAt (p s : ℕ) : Prop :=
  ∃ us vs m b, ls = us ++ .send p s :: vs ∧ run step {} us = some m ∧ m.subscriber s = some b ∧
    b.buffer.length = bufferCap

variable {ls} {l : Label} {p q s : ℕ} {ev : Event} {h h' : Hub}

theorem append_cons_eq_concat {α : Type} {us vs ls : List α} {a l : α}
    (h : ls ++ [l] = us ++ a :: vs) :
    (vs = [] ∧ ls = us ∧ l = a) ∨ ∃ vs', vs = vs' ++ [l] ∧ ls = us ++ a :: vs' := by
  rcases List.eq_nil_or_concat vs with rfl | ⟨vs', b, rfl⟩
  · obtain ⟨hls, hl⟩ := List.append_inj' h rfl
    exact .inl ⟨rfl, hls, by simpa using hl⟩
  · rw [List.concat_eq_append, ← List.cons_append, ← List.append_assoc] at h
    obtain ⟨hls, hl⟩ := List.append_inj' h rfl
    rw [List.cons.injEq] at hl
    exact .inr ⟨vs', by rw [List.concat_eq_append, hl.1], hls⟩

theorem Published.concat (hp : Published ls p ev s) (l : Label) : Published (ls ++ [l]) p ev s := by
  obtain ⟨us, vs, m, rfl, hm, hcalls, hmem⟩ := hp
  exact ⟨us, vs ++ [l], m, by rw [List.append_assoc, List.cons_append], hm, hcalls, hmem⟩

theorem published_concat (hrun : run step {} ls = some h) (hp : Published (ls ++ [l]) p ev s) :
    Published ls p ev s ∨ (l = .beginPublish ev ∧ h.calls = p ∧ s ∈ h.subs) := by
  obtain ⟨us, vs, m, heq, hm, hcalls, hmem⟩ := hp
  rcases append_cons_eq_concat heq with ⟨rfl, rfl, rfl⟩ | ⟨vs', rfl, rfl⟩
  · rw [hrun, Option.some.injEq] at hm
    exact .inr ⟨rfl, hm ▸ hcalls, hm ▸ hmem⟩
  · exact .inl ⟨us, vs', m, rfl, hm, hcalls, hmem⟩

theorem FullAt.concat (hp : FullAt ls p s) (l : Label) : FullAt (ls ++ [l]) p s := by
  obtain ⟨us, vs, m, b, rfl, hm, hb, hfull⟩ := hp
  exact ⟨us, vs ++ [l], m, b, by rw [List.append_assoc, List.cons_append], hm, hb, hfull⟩

theorem endedBefore_concat (hrun : run step {} (ls ++ [l]) = some h')
    (he : EndedBefore (ls ++ [l]) p q) :
    EndedBefore ls p q ∨ (p < h'.calls ∧ h'.publishing p = none ∧ h'.calls ≤ q) := by
  obtain ⟨us, vs, m, heq, hm, hp, hnone, hq⟩ := he
  rcases List.eq_nil_or_concat vs with rfl | ⟨vs', b, rfl⟩
  · rw [List.append_nil] at heq
    rw [heq, hm, Option.some.injEq] at hrun
    exact .inr ⟨hrun ▸ hp, hrun ▸ hnone, hrun ▸ hq⟩
  · rw [List.concat_eq_append, ← List.append_assoc] at heq
    exact .inl ⟨us, vs', m, (List.append_inj' heq rfl).1, hm, hp, hnone, hq⟩

end Runs

/-! ## Who is subscribed -/

theorem sound_run {h : Hub} {ls : List Label} (hrun : run step {} ls = some h) : Sound h :=
  run_invariant (fun _ _ _ hs hstep => sound_step hs hstep) sound_new hrun

/-- A call of `Publish` begins. -/
def Label.begins : Label → Bool
  | .beginPublish _ => true
  | _ => false

section Subscribed

variable {us : List Label} {l : Label} {h h' m : Hub}

/-- Only `Subscribe` puts a subscriber into the map, and only its `delete` takes it out. -/
theorem mem_subs_step (hs : Sound h) (hstep : step h l = some h') (s : ℕ) :
    s ∈ h'.subs ↔ l = .subscribe s ∨ s ∈ h.subs ∧ l ≠ .delete s := by
  cases steps_of_step hstep with
  | @subscribe t hnone hu =>
    show s ∈ t :: h.subs ↔ _
    rw [List.mem_cons, Label.subscribe.injEq, eq_comm]
    exact or_congr_right (and_iff_left Label.noConfusion).symm
  | @delete t b hb honce hu =>
    show s ∈ h.subs.erase t ↔ _
    rw [hs.nodup.mem_erase_iff, or_iff_right Label.noConfusion, and_comm, ne_eq, ne_eq,
      Label.delete.injEq, eq_comm]
  | begin | send | sendClosed | ret | unsubscribe | unsubscribeAgain | close | closeClosed | receive =>
    exact ((or_iff_right Label.noConfusion).trans (and_iff_left Label.noConfusion)).symm

theorem put_eq_none {s t : ℕ} {b : Subscriber} (hnone : (h.put t b).subscriber s = none) :
    s ≠ t ∧ h.subscriber s = none := by
  have hne : s ≠ t := by
    rintro rfl
    rw [h.put_self] at hnone
    cases hnone
  exact ⟨hne, h.put_ne hne b ▸ hnone⟩

/-- A subscriber that the hub does not know yet has not been taken out. -/
theorem subscriber_step (hstep : step h l = some h') {s : ℕ} (hnone : h'.subscriber s = none) :
    h.subscriber s = none ∧ l ≠ .delete s := by
  cases steps_of_step hstep with
  | begin | sendClosed | ret | unsubscribeAgain | closeClosed => exact ⟨hnone, Label.noConfusion⟩
  | subscribe | send | unsubscribe | close | receive =>
    exact ⟨(put_eq_none hnone).2, Label.noConfusion⟩
  | delete =>
    obtain ⟨hne, hnone⟩ := put_eq_none hnone
    exact ⟨hnone, fun heq => hne (Label.delete.inj heq).symm⟩

/-- A subscriber is in the map from its `Subscribe` to its `delete`. -/
theorem mem_subs_iff (hrun : run step {} us = some m) (s : ℕ) :
    s ∈ m.subs ↔ .subscribe s ∈ us ∧ .delete s ∉ us := by
  have hall : (m.subscriber s = none → Label.delete s ∉ us) ∧
      (s ∈ m.subs ↔ .subscribe s ∈ us ∧ .delete s ∉ us) := by
    refine run_history (I := fun us m => (m.subscriber s = none → Label.delete s ∉ us) ∧
      (s ∈ m.subs ↔ .subscribe s ∈ us ∧ .delete s ∉ us)) ?_ ?_ hrun
    · exact ⟨fun _ => List.not_mem_nil, iff_of_false List.not_mem_nil fun h => List.not_mem_nil h.1⟩
    · intro us m l m' hrun ⟨hfresh, hmem⟩ hstep
      constructor
      · intro hnone
        obtain ⟨hnone, hl⟩ := subscriber_step hstep hnone
        rw [List.mem_append, List.mem_singleton, not_or]
        exact ⟨hfresh hnone, hl.symm⟩
      · rw [mem_subs_step (sound_run hrun) hstep, hmem, List.mem_append, List.mem_append,
          List.mem_singleton, List.mem_singleton]
        constructor
        · rintro (rfl | ⟨⟨hsub, hdel⟩, hl⟩)
          · -- it is new to the hub, so that it was never taken out
            have hnone : m.subscriber s = none := by
              cases steps_of_step hstep with
              | subscribe hnone hu => exact hnone
            exact ⟨.inr rfl, not_or.mpr ⟨hfresh hnone, Label.noConfusion⟩⟩
          · exact ⟨.inl hsub, not_or.mpr ⟨hdel, hl.symm⟩⟩
        · rintro ⟨hsub | rfl, hdel⟩
          · exact .inr ⟨⟨hsub, fun h => hdel (.inl h)⟩, fun h => hdel (.inr h.symm)⟩
          · exact .inl rfl
  exact hall.2

/-- Calls of `Publish` are numbered as they begin. -/
theorem calls_run (hrun : run step {} us = some m) : m.calls = us.countP Label.begins := by
  refine run_history (I := fun us m => m.calls = us.countP Label.begins) rfl ?_ hrun
  intro us m l m' _ hcalls hstep
  rw [List.countP_append, ← hcalls, List.countP_singleton]
  cases steps_of_step hstep <;> rfl

/-- Who was subscribed when a call began is read off the labels. -/
theorem published_iff (hrun : run step {} us = some m) {p s : ℕ} {ev : Event} :
    Published us p ev s ↔ ∃ before behind, us = before ++ .beginPublish ev :: behind ∧
      before.countP Label.begins = p ∧ .subscribe s ∈ before ∧ .delete s ∉ before := by
  constructor
  · rintro ⟨before, behind, k, rfl, hk, rfl, hmem⟩
    exact ⟨before, behind, rfl, (calls_run hk).symm, (mem_subs_iff hk s).mp hmem⟩
  · rintro ⟨before, behind, rfl, rfl, hmem⟩
    obtain ⟨k, hk, -⟩ := run_append.mp hrun
    exact ⟨before, behind, k, rfl, hk, calls_run hk, (mem_subs_iff hk s).mpr hmem⟩

end Subscribed

/-! ## What a step does to the deliveries -/

theorem Subscriber.delivered_offer (b : Subscriber) (x : Sent) :
    (b.offer x).delivered = b.delivered ∧ bufferCap ≤ b.buffer.length ∨
      (b.offer x).delivered = b.delivered ++ [x] := by
  rw [offer]
  split_ifs with hroom
  · exact .inr (List.append_assoc ..).symm
  · exact .inl ⟨rfl, Nat.not_lt.mp hroom⟩

/-- A subscriber after a step that sends nothing to it: as it was as far as deliveries go, or new.
-/
def Kept (o o' : Option Subscriber) : Prop :=
  (∃ b b', o = some b ∧ o' = some b' ∧ b'.delivered = b.delivered ∧
      b'.buffer.length ≤ b.buffer.length) ∨
    (o = none ∧ (o' = none ∨ o' = some {}))

/-- A call of `Publish` begins, sends or returns, or else no call goes on. -/
inductive Moves (h : Hub) : Label → Hub → Prop
  | begin (ev : Event) :
      Moves h (.beginPublish ev) { h.setCall h.calls (some ⟨ev, h.subs⟩) with calls := h.calls + 1 }
  | send {p s : ℕ} {c : Publishing} {b : Subscriber} (hc : h.publishing p = some c)
      (hb : h.subscriber s = some b) (hmem : s ∈ c.visit) :
      Moves h (.send p s)
        ((h.put s (b.offer ⟨p, c.ev⟩)).setCall p (some ⟨c.ev, c.visit.erase s⟩))
  | ret {p : ℕ} {ev : Event} (hc : h.publishing p = some ⟨ev, []⟩) :
      Moves h (.endPublish p) (h.setCall p none)
  | other {l : Label} {h' : Hub} (hl : ∀ ev, l ≠ .beginPublish ev)
      (hpub : h'.publishing = h.publishing) (hcalls : h'.calls = h.calls)
      (hsub : ∀ s, Kept (h.subscriber s) (h'.subscriber s)) : Moves h l h'

theorem kept_refl (o : Option Subscriber) : Kept o o := by
  cases o with
  | none => exact .inr ⟨rfl, .inl rfl⟩
  | some b => exact .inl ⟨b, b, rfl, rfl, rfl, Nat.le_refl _⟩

theorem kept_put {h : Hub} {s : ℕ} {b' : Subscriber} (hb : Kept (h.subscriber s) (some b')) (t : ℕ) :
    Kept (h.subscriber t) ((h.put s b').subscriber t) := by
  by_cases hts : t = s
  · subst hts
    rwa [h.put_self]
  · rw [h.put_ne hts]
    exact kept_refl _

/-- A subscriber whose deliveries a step leaves as they are. -/
theorem moves_put {h h' : Hub} {l : Label} {s : ℕ} {b b' : Subscriber}
    (hl : ∀ ev, l ≠ .beginPublish ev) (hb : h.subscriber s = some b)
    (hpub : h'.publishing = h.publishing) (hcalls : h'.calls = h.calls)
    (hsub : h'.subscriber = (h.put s b').subscriber) (hdel : b'.delivered = b.delivered)
    (hlen : b'.buffer.length ≤ b.buffer.length) : Moves h l h' := by
  refine .other hl hpub hcalls fun t => ?_
  rw [hsub]
  exact kept_put (.inl ⟨b, b', hb, rfl, hdel, hlen⟩) t

theorem moves_of_step {h h' : Hub} {l : Label} (hs : Sound h) (hstep : step h l = some h') :
    Moves h l h' := by
  cases steps_of_step hstep with
  | begin ev => exact .begin ev
  | send hc hb hmem hopen => exact .send hc hb hmem
  | ret hc => exact .ret hc
  | subscribe hnone hu =>
    exact .other (fun ev => Label.noConfusion) rfl rfl (kept_put (.inr ⟨hnone, .inr rfl⟩))
  | sendClosed hc hb hmem hclosed =>
    rw [hs.opened_of_visit hc hb hmem] at hclosed
    cases hclosed
  | unsubscribe hb honce =>
    exact moves_put (fun ev => Label.noConfusion) hb rfl rfl rfl rfl (Nat.le_refl _)
  | unsubscribeAgain => exact .other (fun ev => Label.noConfusion) rfl rfl fun t => kept_refl _
  | delete hb honce hu =>
    exact moves_put (fun ev => Label.noConfusion) hb rfl rfl rfl rfl (Nat.le_refl _)
  | close hb honce =>
    exact moves_put (fun ev => Label.noConfusion) hb rfl rfl rfl rfl (Nat.le_refl _)
  | closeClosed hb honce hclosed =>
    exact .other (fun ev => Label.noConfusion) rfl rfl fun t => kept_refl _
  | receive hb hbuffer =>
    -- what is received was in the channel
    refine moves_put (fun ev => Label.noConfusion) hb rfl rfl rfl ?_ ?_
    · simp only [Subscriber.delivered, hbuffer, List.append_assoc, List.singleton_append]
    · rw [hbuffer, List.length_cons]
      exact Nat.le_succ _

/-! ## The accounts of a run -/

/-- What is said of the deliveries to a subscriber. -/
structure Delivery (ls : List Label) (h : Hub) (s : ℕ) (delivered : List Sent) : Prop where
  distinct : (delivered.map Sent.call).Nodup
  started : ∀ x ∈ delivered, x.call < h.calls
  published : ∀ x ∈ delivered, Published ls x.call x.ev s
  visited : ∀ x ∈ delivered, ∀ c, h.publishing x.call = some c → s ∉ c.visit
  ordered : delivered.Pairwise fun x y => ¬ EndedBefore ls y.call x.call

/-- The events of the calls under way and the delivered ones were published, and each published one
is still to come, delivered, or lost to a full buffer. -/
structure Accounts (ls : List Label) (h : Hub) : Prop where
  sound : Sound h
  capacity : ∀ s b, h.subscriber s = some b → b.buffer.length ≤ bufferCap
  visiting : ∀ p c, h.publishing p = some c → ∀ s ∈ c.visit, Published ls p c.ev s
  delivery : ∀ s b, h.subscriber s = some b → Delivery ls h s b.delivered
  accounted : ∀ p ev s, Published ls p ev s →
    (∃ c, h.publishing p = some c ∧ c.ev = ev ∧ s ∈ c.visit) ∨
      (∃ b, h.subscriber s = some b ∧ ⟨p, ev⟩ ∈ b.delivered) ∨ FullAt ls p s

theorem accounts_new : Accounts [] {} where
  sound := sound_new
  capacity _ _ h := by cases h
  visiting _ _ h := by cases h
  delivery _ _ h := by cases h
  accounted _ _ _ h := by
    obtain ⟨us, vs, m, heq, -⟩ := h
    exact absurd heq.symm (List.append_ne_nil_of_right_ne_nil us (List.cons_ne_nil _ _))

/-- The call has returned. -/
def Ended (p : ℕ) (h : Hub) : Prop := p < h.calls ∧ h.publishing p = none

/-- A call that has returned goes on no more. -/
theorem ended_step {p : ℕ} {h h' : Hub} {l : Label} (hs : Sound h) (he : Ended p h)
    (hstep : step h l = some h') : Ended p h' := by
  obtain ⟨hp, hnone⟩ := he
  cases moves_of_step hs hstep with
  | begin ev =>
    refine ⟨Nat.lt_succ_of_lt hp, ?_⟩
    show (h.setCall h.calls _).publishing p = none
    rw [h.setCall_ne (Nat.ne_of_lt hp), hnone]
  | send hc hb hmem =>
    rename_i q s c b
    have hpq : p ≠ q := by
      rintro rfl
      rw [hnone] at hc
      cases hc
    exact ⟨hp, by rw [Hub.setCall_ne _ hpq]; exact hnone⟩
  | ret hc =>
    rename_i q ev
    have hpq : p ≠ q := by
      rintro rfl
      rw [hnone] at hc
      cases hc
    exact ⟨hp, by rw [Hub.setCall_ne _ hpq]; exact hnone⟩
  | other hl hpub hcalls hsub => exact ⟨hcalls ▸ hp, hpub ▸ hnone⟩

theorem ended_run {p : ℕ} {h h' : Hub} {ls : List Label} (hs : Sound h) (he : Ended p h)
    (hrun : run step h ls = some h') : Ended p h' :=
  (run_invariant (I := fun h => Sound h ∧ Ended p h)
    (fun _ _ _ hinv hstep => ⟨sound_step hinv.1 hstep, ended_step hinv.1 hinv.2 hstep⟩)
    ⟨hs, he⟩ hrun).2

/-- A call that is under way had not returned before. -/
theorem not_endedBefore {p q : ℕ} {h : Hub} {ls : List Label} {c : Publishing}
    (hrun : run step {} ls = some h) (hc : h.publishing p = some c) : ¬ EndedBefore ls p q := by
  rintro ⟨us, vs, m, rfl, hm, hp, hnone, -⟩
  obtain ⟨m', hm', hvs⟩ := run_append.mp hrun
  rw [hm, Option.some.injEq] at hm'
  subst hm'
  have hended := ended_run (sound_run hm) ⟨hp, hnone⟩ hvs
  rw [hended.2] at hc
  cases hc

variable {ls : List Label} {l : Label} {h h' : Hub} {s : ℕ} {delivered : List Sent}

/-- Nothing is delivered in a step that comes to no call again. -/
theorem Delivery.keep (hd : Delivery ls h s delivered) (hrun : run step {} (ls ++ [l]) = some h')
    (hcalls : h.calls ≤ h'.calls)
    (hpub : ∀ p < h.calls, ∀ c', h'.publishing p = some c' → s ∈ c'.visit →
      ∃ c, h.publishing p = some c ∧ s ∈ c.visit) :
    Delivery (ls ++ [l]) h' s delivered where
  distinct := hd.distinct
  started x hx := Nat.lt_of_lt_of_le (hd.started x hx) hcalls
  published x hx := (hd.published x hx).concat l
  visited x hx c' hc' hmem := by
    obtain ⟨c, hc, hs⟩ := hpub x.call (hd.started x hx) c' hc' hmem
    exact hd.visited x hx c hc hs
  ordered := by
    refine hd.ordered.imp_of_mem fun {x y} hx hy hnot hended => ?_
    rcases endedBefore_concat hrun hended with hended | ⟨-, -, hle⟩
    · exact hnot hended
    · -- a call that begins behind this step is none of the delivered ones
      exact absurd (Nat.lt_of_lt_of_le (hd.started x hx) hcalls) (Nat.not_lt.mpr hle)

/-- One more event, of a call that is new to the subscriber and that comes after all that has returned. -/
theorem Delivery.concat (hd : Delivery ls h s delivered) {x : Sent}
    (hnew : ∀ y ∈ delivered, y.call ≠ x.call) (hstarted : x.call < h.calls)
    (hpublished : Published ls x.call x.ev s)
    (hvisited : ∀ c, h.publishing x.call = some c → s ∉ c.visit)
    (hlast : ∀ q, ¬ EndedBefore ls x.call q) : Delivery ls h s (delivered ++ [x]) where
  distinct := by
    rw [List.map_append, List.map_singleton]
    refine List.nodup_append.mpr ⟨hd.distinct, List.nodup_singleton _, ?_⟩
    intro q hq r hr heq
    obtain ⟨y, hy, hyq⟩ := List.mem_map.mp hq
    rw [List.mem_singleton.mp hr] at heq
    exact hnew y hy (hyq.trans heq)
  started y hy := by
    rcases List.mem_append.mp hy with hy | hy
    · exact hd.started y hy
    · rwa [List.mem_singleton.mp hy]
  published y hy := by
    rcases List.mem_append.mp hy with hy | hy
    · exact hd.published y hy
    · rwa [List.mem_singleton.mp hy]
  visited y hy c hc := by
    rcases List.mem_append.mp hy with hy | hy
    · exact hd.visited y hy c hc
    · rw [List.mem_singleton.mp hy] at hc
      exact hvisited c hc
  ordered := by
    refine List.pairwise_append.mpr ⟨hd.ordered, List.pairwise_singleton .., ?_⟩
    intro y hy z hz
    rw [List.mem_singleton.mp hz]
    exact hlast y.call

theorem kept_some {o : Option Subscriber} {b' : Subscriber} (hk : Kept o (some b')) :
    (∃ b, o = some b ∧ b'.delivered = b.delivered ∧ b'.buffer.length ≤ b.buffer.length) ∨
      (o = none ∧ b' = {}) := by
  rcases hk with ⟨b, b'', rfl, hb', hdel, hlen⟩ | ⟨rfl, hb' | hb'⟩
  · rw [Option.some.injEq] at hb'
    exact .inl ⟨b, rfl, hb' ▸ hdel, hb' ▸ hlen⟩
  · cases hb'
  · exact .inr ⟨rfl, Option.some.inj hb'⟩

theorem some_kept {b : Subscriber} {o' : Option Subscriber} (hk : Kept (some b) o') :
    ∃ b', o' = some b' ∧ b'.delivered = b.delivered := by
  rcases hk with ⟨b₀, b', hb, hb', hdel, -⟩ | ⟨hb, -⟩
  · rw [Option.some.injEq] at hb
    exact ⟨b', hb', hb ▸ hdel⟩
  · cases hb

theorem delivery_nil (ls : List Label) (h : Hub) (s : ℕ) : Delivery ls h s [] where
  distinct := List.nodup_nil
  started _ hx := absurd hx List.not_mem_nil
  published _ hx := absurd hx List.not_mem_nil
  visited _ hx := absurd hx List.not_mem_nil
  ordered := List.Pairwise.nil

/-- A call begins. -/
theorem Accounts.begin (ha : Accounts ls h) (hrun : run step {} ls = some h) {ev : Event}
    (hstep : step h (.beginPublish ev) =
      some { h.setCall h.calls (some ⟨ev, h.subs⟩) with calls := h.calls + 1 }) :
    Accounts (ls ++ [.beginPublish ev])
      { h.setCall h.calls (some ⟨ev, h.subs⟩) with calls := h.calls + 1 } where
  sound := sound_step ha.sound hstep
  capacity := ha.capacity
  visiting p c hc s hmem := by
    have hcall : (h.setCall h.calls (some ⟨ev, h.subs⟩)).publishing p = some c := hc
    by_cases hp : p = h.calls
    · rw [hp, h.setCall_self, Option.some.injEq] at hcall
      rw [← hcall] at hmem ⊢
      -- it comes to all that are in the map now
      exact ⟨ls, [], h, rfl, hrun, hp.symm, hmem⟩
    · rw [h.setCall_ne hp] at hcall
      exact (ha.visiting p c hcall s hmem).concat _
  delivery s b hb := by
    refine (ha.delivery s b hb).keep (Transition.run_concat.mpr ⟨h, hrun, hstep⟩) (Nat.le_succ _)
      fun p hp c' hc' hmem => ?_
    have hcall : (h.setCall h.calls (some ⟨ev, h.subs⟩)).publishing p = some c' := hc'
    rw [h.setCall_ne (Nat.ne_of_lt hp)] at hcall
    exact ⟨c', hcall, hmem⟩
  accounted p ev' s hp := by
    rcases published_concat hrun hp with hp | ⟨hl, rfl, hmem⟩
    · rcases ha.accounted p ev' s hp with ⟨c, hc, hev, hmem⟩ | hdel | hfull
      · refine .inl ⟨c, ?_, hev, hmem⟩
        show (h.setCall h.calls _).publishing p = some c
        rw [h.setCall_ne (Nat.ne_of_lt (ha.sound.lt_of_publishing hc)), hc]
      · exact .inr (.inl hdel)
      · exact .inr (.inr (hfull.concat _))
    · rw [Label.beginPublish.injEq] at hl
      exact .inl ⟨⟨ev, h.subs⟩, h.setCall_self _ _, hl, hmem⟩

/-- Behind the subscriber that a call comes to, each published event is accounted for: to that subscriber
it is delivered, or the buffer is full. -/
theorem Accounts.accounted_send (ha : Accounts ls h) (hrun : run step {} ls = some h) {p q t : ℕ}
    {c : Publishing} {b : Subscriber} {ev : Event} (hc : h.publishing p = some c)
    (hb : h.subscriber s = some b) (hq : Published ls q ev t) :
    (∃ c', ((h.put s (b.offer ⟨p, c.ev⟩)).setCall p (some ⟨c.ev, c.visit.erase s⟩)).publishing q =
        some c' ∧ c'.ev = ev ∧ t ∈ c'.visit) ∨
      (∃ b', (h.put s (b.offer ⟨p, c.ev⟩)).subscriber t = some b' ∧ ⟨q, ev⟩ ∈ b'.delivered) ∨
      FullAt (ls ++ [.send p s]) q t := by
  rcases ha.accounted q ev t hq with ⟨c', hc', hev, ht⟩ | ⟨b', hb', hdel⟩ | hfull
  · by_cases hqp : q = p
    · subst hqp
      rw [hc, Option.some.injEq] at hc'
      subst hc'
      by_cases hts : t = s
      · subst hts
        -- the event is lost if the buffer is full, and delivered otherwise
        rcases b.delivered_offer ⟨q, c.ev⟩ with ⟨-, hfull⟩ | hdel
        · exact .inr (.inr ⟨ls, [], h, b, rfl, hrun, hb,
            Nat.le_antisymm (ha.capacity t b hb) hfull⟩)
        · refine .inr (.inl ⟨_, h.put_self t _, ?_⟩)
          rw [hdel, ← hev]
          exact List.mem_append_right _ (List.mem_singleton_self _)
      · exact .inl ⟨_, Hub.setCall_self .., hev, (List.mem_erase_of_ne hts).mpr ht⟩
    · exact .inl ⟨c', by rw [Hub.setCall_ne _ hqp]; exact hc', hev, ht⟩
  · refine .inr (.inl ?_)
    by_cases hts : t = s
    · subst hts
      rw [hb, Option.some.injEq] at hb'
      subst hb'
      refine ⟨_, h.put_self t _, ?_⟩
      rcases b.delivered_offer ⟨p, c.ev⟩ with ⟨hkept, -⟩ | happ
      · rw [hkept]
        exact hdel
      · rw [happ]
        exact List.mem_append_left _ hdel
    · refine ⟨b', ?_, hdel⟩
      show (h.put s _).subscriber t = some b'
      rw [h.put_ne hts, hb']
  · exact .inr (.inr (hfull.concat _))

/-- A call comes to a subscriber. -/
theorem Accounts.send (ha : Accounts ls h) (hrun : run step {} ls = some h) {p : ℕ} {c : Publishing}
    {b : Subscriber} (hc : h.publishing p = some c) (hb : h.subscriber s = some b) (hmem : s ∈ c.visit)
    (hstep : step h (.send p s) =
      some ((h.put s (b.offer ⟨p, c.ev⟩)).setCall p (some ⟨c.ev, c.visit.erase s⟩))) :
    Accounts (ls ++ [.send p s])
      ((h.put s (b.offer ⟨p, c.ev⟩)).setCall p (some ⟨c.ev, c.visit.erase s⟩)) := by
  have hnodup : c.visit.Nodup := (ha.sound.visits p c hc).1
  have hnot : s ∉ c.visit.erase s := fun hs => ((List.Nodup.mem_erase_iff hnodup).mp hs).1 rfl
  have hrun' := Transition.run_concat.mpr ⟨h, hrun, hstep⟩
  -- what is still to come was to come before
  have hpub : ∀ t, ∀ q < h.calls, ∀ c',
      ((h.put s (b.offer ⟨p, c.ev⟩)).setCall p (some ⟨c.ev, c.visit.erase s⟩)).publishing q = some c' →
      t ∈ c'.visit → ∃ c₀, h.publishing q = some c₀ ∧ c₀.ev = c'.ev ∧ t ∈ c₀.visit := by
    intro t q hq c' hc' ht
    by_cases hqp : q = p
    · rw [hqp, Hub.setCall_self, Option.some.injEq] at hc'
      rw [← hc'] at ht ⊢
      exact ⟨c, hqp ▸ hc, rfl, List.mem_of_mem_erase ht⟩
    · rw [Hub.setCall_ne _ hqp] at hc'
      exact ⟨c', hc', rfl, ht⟩
  have hkeep : ∀ t b', h.subscriber t = some b' →
      Delivery (ls ++ [.send p s])
        ((h.put s (b.offer ⟨p, c.ev⟩)).setCall p (some ⟨c.ev, c.visit.erase s⟩)) t b'.delivered :=
    fun t b' hb' => (ha.delivery t b' hb').keep hrun' (Nat.le_refl _) fun q hq c' hc' ht => by
      obtain ⟨c₀, hc₀, -, ht⟩ := hpub t q hq c' hc' ht
      exact ⟨c₀, hc₀, ht⟩
  refine
    { sound := sound_step ha.sound hstep
      capacity := fun t b' hb' => ?_
      visiting := fun q c' hc' t ht => ?_
      delivery := fun t b' hb' => ?_
      accounted := fun q ev t hq => ?_ }
  · have hsub : (h.put s (b.offer ⟨p, c.ev⟩)).subscriber t = some b' := hb'
    by_cases hts : t = s
    · rw [hts, h.put_self, Option.some.injEq] at hsub
      rw [← hsub, Subscriber.offer]
      split_ifs with hroom
      · simp only [List.length_append, List.length_singleton]
        exact hroom
      · exact ha.capacity s b hb
    · rw [h.put_ne hts] at hsub
      exact ha.capacity t b' hsub
  · have hq : q < h.calls := (sound_step ha.sound hstep).lt_of_publishing hc'
    obtain ⟨c₀, hc₀, hev, ht⟩ := hpub t q hq c' hc' ht
    rw [← hev]
    exact (ha.visiting q c₀ hc₀ t ht).concat _
  · have hsub : (h.put s (b.offer ⟨p, c.ev⟩)).subscriber t = some b' := hb'
    by_cases hts : t = s
    · rw [hts, h.put_self, Option.some.injEq] at hsub
      rw [← hsub, hts]
      rcases b.delivered_offer ⟨p, c.ev⟩ with ⟨hdel, -⟩ | hdel
      · rw [hdel]
        exact hkeep s b hb
      · rw [hdel]
        -- the call has not come to it before, and no call that began later can have returned
        exact (hkeep s b hb).concat (fun x hx hxp => (ha.delivery s b hb).visited x hx c (hxp ▸ hc) hmem)
          (ha.sound.lt_of_publishing hc) ((ha.visiting p c hc s hmem).concat _)
          (fun c' hc' => by
            rw [Hub.setCall_self, Option.some.injEq] at hc'
            rw [← hc']
            exact hnot)
          fun q => not_endedBefore hrun' (Hub.setCall_self ..)
    · rw [h.put_ne hts] at hsub
      exact hkeep t b' hsub
  · rcases published_concat hrun hq with hq | ⟨hl, -⟩
    · exact ha.accounted_send hrun hc hb hq
    · cases hl

/-- A call returns. -/
theorem Accounts.ret (ha : Accounts ls h) (hrun : run step {} ls = some h) {p : ℕ} {ev : Event}
    (hc : h.publishing p = some ⟨ev, []⟩)
    (hstep : step h (.endPublish p) = some (h.setCall p none)) :
    Accounts (ls ++ [.endPublish p]) (h.setCall p none) := by
  have hpub : ∀ q c', (h.setCall p none).publishing q = some c' → h.publishing q = some c' := by
    intro q c' hc'
    by_cases hqp : q = p
    · rw [hqp, h.setCall_self] at hc'
      cases hc'
    · rwa [h.setCall_ne hqp] at hc'
  refine
    { sound := sound_step ha.sound hstep
      capacity := ha.capacity
      visiting := fun q c' hc' t ht => (ha.visiting q c' (hpub q c' hc') t ht).concat _
      delivery := fun t b hb => ?_
      accounted := fun q ev' t hq => ?_ }
  · exact (ha.delivery t b hb).keep (Transition.run_concat.mpr ⟨h, hrun, hstep⟩) (Nat.le_refl _)
      fun q _ c' hc' ht => ⟨c', hpub q c' hc', ht⟩
  · rcases published_concat hrun hq with hq | ⟨hl, -⟩
    · rcases ha.accounted q ev' t hq with ⟨c', hc', hev, ht⟩ | hdel | hfull
      · have hqp : q ≠ p := by
          rintro rfl
          rw [hc, Option.some.injEq] at hc'
          rw [← hc'] at ht
          cases ht
        exact .inl ⟨c', by rw [h.setCall_ne hqp, hc'], hev, ht⟩
      · exact .inr (.inl hdel)
      · exact .inr (.inr (hfull.concat _))
    · cases hl

/-- No call goes on. -/
theorem Accounts.other (ha : Accounts ls h) (hrun : run step {} ls = some h)
    (hstep : step h l = some h') (hl : ∀ ev, l ≠ .beginPublish ev)
    (hpub : h'.publishing = h.publishing) (hcalls : h'.calls = h.calls)
    (hsub : ∀ s, Kept (h.subscriber s) (h'.subscriber s)) : Accounts (ls ++ [l]) h' where
  sound := sound_step ha.sound hstep
  capacity s b' hb' := by
    have hk := hsub s
    rw [hb'] at hk
    rcases kept_some hk with ⟨b, hb, -, hlen⟩ | ⟨-, rfl⟩
    · exact hlen.trans (ha.capacity s b hb)
    · exact Nat.zero_le _
  visiting p c hc s hs := by
    rw [hpub] at hc
    exact (ha.visiting p c hc s hs).concat l
  delivery s b' hb' := by
    have hk := hsub s
    rw [hb'] at hk
    rcases kept_some hk with ⟨b, hb, hdel, -⟩ | ⟨-, rfl⟩
    · rw [hdel]
      refine (ha.delivery s b hb).keep (Transition.run_concat.mpr ⟨h, hrun, hstep⟩) hcalls.ge ?_
      intro p _ c' hc' ht
      rw [hpub] at hc'
      exact ⟨c', hc', ht⟩
    · exact delivery_nil _ h' s
  accounted p ev s hp := by
    rcases published_concat hrun hp with hp | ⟨heq, -⟩
    · rcases ha.accounted p ev s hp with ⟨c, hc, hev, hs⟩ | ⟨b, hb, hdel⟩ | hfull
      · exact .inl ⟨c, by rw [hpub, hc], hev, hs⟩
      · have hk := hsub s
        rw [hb] at hk
        obtain ⟨b', hb', hdel'⟩ := some_kept hk
        exact .inr (.inl ⟨b', hb', hdel'.symm ▸ hdel⟩)
      · exact .inr (.inr (hfull.concat l))
    · exact absurd heq (hl ev)

theorem accounts_step (hrun : run step {} ls = some h) (ha : Accounts ls h)
    (hstep : step h l = some h') : Accounts (ls ++ [l]) h' := by
  cases moves_of_step ha.sound hstep with
  | begin ev => exact ha.begin hrun hstep
  | send hc hb hmem => exact ha.send hrun hc hb hmem hstep
  | ret hc => exact ha.ret hrun hc hstep
  | other hl hpub hcalls hsub => exact ha.other hrun hstep hl hpub hcalls hsub

/-- **Hub delivery.** In every run no step panics. What a subscriber has received or finds in its channel
holds no call of `Publish` twice, only events that were published while it was subscribed, and no call that
had returned when an earlier one of the list began; and of a call that published while it was subscribed and
has returned, the event is there or the buffer was full when the call came to it. It is subscribed from its
`Subscribe` to its `delete`. -/
theorem hub_delivery (hrun : run step {} ls = some h) :
    h.panicked = false ∧
      (∀ s b, h.subscriber s = some b →
        (b.delivered.map Sent.call).Nodup ∧
          (∀ x ∈ b.delivered, Published ls x.call x.ev s) ∧
          b.delivered.Pairwise fun x y => ¬ EndedBefore ls y.call x.call) ∧
      (∀ p ev s, Published ls p ev s → h.publishing p = none →
        (∃ b, h.subscriber s = some b ∧ ⟨p, ev⟩ ∈ b.delivered) ∨ FullAt ls p s) ∧
      ∀ p ev s, Published ls p ev s ↔ ∃ before behind, ls = before ++ .beginPublish ev :: behind ∧
        before.countP Label.begins = p ∧ .subscribe s ∈ before ∧ .delete s ∉ before := by
  have ha : Accounts ls h :=
    run_history (I := Accounts) accounts_new (fun _ _ _ _ hrun ha hstep => accounts_step hrun ha hstep)
      hrun
  refine ⟨ha.sound.notPanicked, fun s b hb => ?_, fun p ev s hp hnone => ?_,
    fun p ev s => published_iff hrun⟩
  · have hd := ha.delivery s b hb
    exact ⟨hd.distinct, hd.published, hd.ordered⟩
  · rcases ha.accounted p ev s hp with ⟨c, hc, -⟩ | hdelivered
    · rw [hnone] at hc
      cases hc
    · exact hdelivered

/-- An event of a Kustomization. -/
def podinfoEvent : Event := ⟨"dev", "Kustomization", "MODIFIED", "flux-system", "podinfo"⟩

/-- A subscriber that unsubscribes twice after an event still finds the event. -/
def unsubscribeTwice : List Label :=
  [.subscribe 0, .beginPublish podinfoEvent, .send 0 0, .endPublish 0, .unsubscribe 0, .delete 0,
    .unsubscribe 0, .close 0, .receive 0]

theorem hub_delivery_unsubscribeTwice :
    ∃ h, run step {} unsubscribeTwice = some h ∧ h.panicked = false ∧
      ((∃ b, h.subscriber 0 = some b ∧ ⟨0, podinfoEvent⟩ ∈ b.delivered) ∨
        FullAt unsubscribeTwice 0 0) := by
  refine ⟨_, rfl, ?_⟩
  obtain ⟨hpanic, -, hall, hpublished⟩ :=
    hub_delivery (show run step {} unsubscribeTwice = some _ from rfl)
  refine ⟨hpanic, hall 0 podinfoEvent 0 ((hpublished 0 podinfoEvent 0).mpr ?_) rfl⟩
  exact ⟨[.subscribe 0], _, rfl, rfl, by decide, by decide⟩

end Yafu.Watch
