import Yafu.Watch.Reconnect

/-!
# Backing off between watches

Reference: `watchKind` and `nextBackoff` in `internal/watch/watcher.go`: "Watch streams reconnect with
exponential backoff when the API server closes them."

A run shows when `Watch` is called, when an attempt is over, what the stream delivers, and the waits.
Only a start that fails is followed by a wait; the end of a stream leads to the next call at once.
-/

namespace Yafu.Watch.Reconnect

open Transition

/-- A call of `Watch`, a start that failed or a stream that `consume` has left, an event that came, a
wait of some seconds. -/
inductive Sign
  | called
  | ended
  | delivered
  | waited (seconds : ℕ)
deriving DecidableEq, Repr

/-- What a step shows of this. -/
def signs (w : Watcher) : Label → List Sign
  | .watch _ => [.called]
  | .watchFail _ => [.called, .ended]
  | .waited => [.waited w.backoff]
  | .receive =>
    match w.queue with
    | ev :: _ => if ev.type = errorType then [.ended] else [.delivered]
    | [] => [.ended]
  | _ => []

/-- What a run shows of this. -/
def attempts : Watcher → List Label → List Sign := emitted step signs

/-- Whatever is over, there is a wait before the next call; and the waits double up to 30 seconds as
long as nothing is delivered. -/
structure BacksOff (t : List Sign) : Prop where
  waits : ∀ before mid after, t = (before ++ .ended :: mid) ++ .called :: after →
    ∃ d, .waited d ∈ mid
  doubles : ∀ before d mid d' after, t = (before ++ .waited d :: mid) ++ .waited d' :: after →
    (∀ d'', .waited d'' ∉ mid) → .delivered ∉ mid → d' = min 30 (2 * d)

/-- A label that calls `Watch`. -/
def Label.IsCall : Label → Bool
  | .watch _ => true
  | .watchFail _ => true
  | _ => false

/-- Every call of `Watch` but the last one fails. -/
def OnlyFailedStarts (labels : List Label) : Prop :=
  ∀ pre replay post, labels = pre ++ .watch replay :: post → ∀ a ∈ post, a.IsCall = false

/-! ## Sign by sign -/

/-- There has been a wait since something was over. -/
def Settled (t : List Sign) : Prop := ∀ before mid, t = before ++ .ended :: mid → ∃ d, .waited d ∈ mid

/-- The last wait, with nothing delivered since. -/
def LastWait (t : List Sign) (d : ℕ) : Prop :=
  ∃ before mid, t = before ++ .waited d :: mid ∧ (∀ d', .waited d' ∉ mid) ∧ .delivered ∉ mid

section Signs

variable {t u : List Sign} {s : Sign} {d : ℕ}

/-- An element of a list with one more is the last one or one before it. -/
theorem concat_eq_append_cons {α : Type*} {t before after : List α} {s x : α}
    (h : t ++ [s] = before ++ x :: after) :
    (after = [] ∧ x = s ∧ t = before) ∨ ∃ after', after = after' ++ [s] ∧ t = before ++ x :: after' := by
  rcases List.eq_nil_or_concat after with rfl | ⟨after', last, rfl⟩
  · obtain ⟨ht, hs⟩ := List.append_inj' h rfl
    exact .inl ⟨rfl, (List.singleton_inj.mp hs).symm, ht⟩
  · rw [List.concat_eq_append, ← List.cons_append, ← List.append_assoc] at h
    obtain ⟨ht, hs⟩ := List.append_inj' h rfl
    rw [List.concat_eq_append, ← List.singleton_inj.mp hs]
    exact .inr ⟨after', rfl, ht⟩

theorem BacksOff.concat (h : BacksOff t) (hcalled : s = .called → Settled t)
    (hwaited : ∀ d d', s = .waited d' → LastWait t d → d' = min 30 (2 * d)) : BacksOff (t ++ [s]) where
  waits := by
    intro before mid after ht
    rcases concat_eq_append_cons ht with ⟨rfl, hs, ht'⟩ | ⟨after', rfl, ht'⟩
    · exact hcalled hs.symm before mid ht'
    · exact h.waits before mid after' ht'
  doubles := by
    intro before d mid d' after ht hmid hdelivered
    rcases concat_eq_append_cons ht with ⟨rfl, hs, ht'⟩ | ⟨after', rfl, ht'⟩
    · exact hwaited d d' hs.symm ⟨before, mid, ht', hmid, hdelivered⟩
    · exact h.doubles before d mid d' after' ht' hmid hdelivered

theorem backsOff_nil : BacksOff [] where
  waits := by
    intro before mid after h
    exact absurd h.symm (by simp)
  doubles := by
    intro before d mid d' after h
    exact absurd h.symm (by simp)

/-- What neither calls nor waits spoils nothing. -/
theorem BacksOff.append (h : BacksOff t) (hcalled : .called ∉ u) (hwaited : ∀ d, .waited d ∉ u) :
    BacksOff (t ++ u) := by
  induction u using List.reverseRecOn with
  | nil => rwa [List.append_nil]
  | append_singleton u s ih =>
    rw [← List.append_assoc]
    refine (ih (fun hu => hcalled (List.mem_append_left _ hu))
      fun d hu => hwaited d (List.mem_append_left _ hu)).concat ?_ ?_
    · rintro rfl
      exact absurd (List.mem_append_right _ (List.mem_singleton_self _)) hcalled
    · rintro d d' rfl
      exact absurd (List.mem_append_right _ (List.mem_singleton_self _)) (hwaited d')

theorem settled_waited (t : List Sign) (d : ℕ) : Settled (t ++ [.waited d]) := by
  intro before mid h
  rcases concat_eq_append_cons h with ⟨-, hs, -⟩ | ⟨mid', rfl, -⟩
  · cases hs
  · exact ⟨d, List.mem_append_right _ (List.mem_singleton_self _)⟩

theorem lastWait_concat (h : LastWait (t ++ [s]) d) :
    s = .waited d ∨ ((∀ d', s ≠ .waited d') ∧ LastWait t d) := by
  obtain ⟨before, mid, ht, hmid, hdelivered⟩ := h
  rcases concat_eq_append_cons ht with ⟨-, hs, -⟩ | ⟨mid', rfl, ht'⟩
  · exact .inl hs.symm
  · refine .inr ⟨?_, before, mid', ht', ?_, ?_⟩
    · rintro d' rfl
      exact hmid d' (List.mem_append_right _ (List.mem_singleton_self _))
    · exact fun d' hd' => hmid d' (List.mem_append_left _ hd')
    · exact fun hd => hdelivered (List.mem_append_left _ hd)

end Signs

/-! ## One step -/

/-- Where a step takes the loop, and what it shows of that. -/
inductive Moved (m : Watcher) (a : Label) (m' : Watcher) : List Sign → Prop
  | stayed (hphase : m'.phase = m.phase) (hbackoff : m'.backoff = m.backoff) : Moved m a m' []
  | started (hphase : m.phase = .head) (hphase' : m'.phase = .starting)
    (hbackoff : m'.backoff = m.backoff) : Moved m a m' []
  | returned (hphase : m'.phase = .returned) (hbackoff : m'.backoff = m.backoff) : Moved m a m' []
  | called (replay : List ObjectKey) (ha : a = .watch replay) (hphase : m.phase = .starting)
    (hphase' : m'.phase = .consuming) : Moved m a m' [.called]
  | failed (hphase : m.phase = .starting) (hphase' : m'.phase = .backingOff ∨ m'.phase = .returned)
    (hbackoff : m'.backoff = m.backoff) (ha : a.IsCall = true) : Moved m a m' [.called, .ended]
  | waited (hphase : m.phase = .backingOff) (hphase' : m'.phase = .head)
    (hbackoff : m'.backoff = nextBackoff m.backoff) : Moved m a m' [.waited m.backoff]
  | delivered (hphase : m.phase = .consuming) (hphase' : m'.phase = .consuming) :
    Moved m a m' [.delivered]
  | ended (hphase : m.phase = .consuming) (hphase' : m'.phase = .head) : Moved m a m' [.ended]

@[simp] theorem phase_send (w : Watcher) (ev : WatchEvent) : (w.send ev).phase = w.phase := by
  unfold Watcher.send
  split <;> rfl

@[simp] theorem backoff_send (w : Watcher) (ev : WatchEvent) : (w.send ev).backoff = w.backoff := by
  unfold Watcher.send
  split <;> rfl

section Step

variable {m m' w : Watcher} {a : Label}

theorem moved_of_step (h : step m a = some m') : Moved m a m' (signs m a) := by
  cases a with
  | change c key =>
    obtain ⟨objects, -, rfl⟩ := Option.map_eq_some_iff.mp h
    exact .stayed (phase_send _ _) (backoff_send _ _)
  | notObject type =>
    simp only [step, Option.ite_none_left_eq_some, Option.some.injEq] at h
    rw [← h.2]
    exact .stayed (phase_send _ _) (backoff_send _ _)
  | streamEnd =>
    simp only [step, Option.ite_none_right_eq_some, Option.some.injEq] at h
    rw [← h.2]
    exact .stayed rfl rfl
  | streamError =>
    simp only [step, Option.ite_none_right_eq_some, Option.some.injEq] at h
    rw [← h.2]
    exact .stayed (phase_send _ _) (backoff_send _ _)
  | cancel =>
    obtain rfl := Option.some.inj h
    exact .stayed rfl rfl
  | loop =>
    simp only [step, Option.ite_none_right_eq_some, Option.some.injEq] at h
    rw [← h.2]
    by_cases hcancelled : m.cancelled = true
    · exact .returned (if_pos hcancelled) rfl
    · exact .started h.1 (if_neg hcancelled) rfl
  | watch replay =>
    simp only [step, Option.ite_none_right_eq_some, Option.some.injEq] at h
    rw [← h.2]
    exact .called replay rfl h.1.1 rfl
  | watchFail err =>
    simp only [step, Option.ite_none_right_eq_some, Option.some.injEq] at h
    rw [← h.2]
    refine .failed h.1 ?_ rfl rfl
    cases isNoKindError err with
    | true => exact .inr rfl
    | false => exact .inl rfl
  | waited =>
    simp only [step, Option.ite_none_right_eq_some, Option.some.injEq] at h
    rw [← h.2]
    exact .waited h.1 rfl rfl
  | receive =>
    simp only [step, Option.ite_none_right_eq_some] at h
    obtain ⟨hphase, h⟩ := h
    cases hqueue : m.queue with
    | nil =>
      simp only [hqueue, Option.ite_none_left_eq_some, Option.some.injEq] at h
      rw [← h.2, signs, hqueue]
      exact .ended hphase rfl
    | cons ev rest =>
      simp only [hqueue, Option.some.injEq] at h
      rw [← h, signs, hqueue]
      by_cases hev : ev.type = errorType
      · simp only [if_pos hev]
        exact .ended hphase rfl
      · simp only [if_neg hev]
        exact .delivered hphase hphase
  | done =>
    simp only [step] at h
    split at h
    · obtain rfl := Option.some.inj h
      exact .returned rfl rfl
    · obtain rfl := Option.some.inj h
      exact .returned rfl rfl
    · cases h

/-! ## Without a call -/

/-- Without a call there is no wait after a stream, whose end shows. -/
structure Idles (m w : Watcher) (u : List Sign) : Prop where
  phase : w.phase ≠ .backingOff
  uncalled : .called ∉ u
  unwaited : ∀ d, .waited d ∉ u
  ended : m.phase = .consuming → w.phase = .consuming ∨ w.phase = .returned ∨ .ended ∈ u

theorem idles_run (hphase : m.phase ≠ .backingOff) : ∀ {labels : List Label} {w : Watcher},
    (∀ a ∈ labels, a.IsCall = false) → run step m labels = some w →
      Idles m w (attempts m labels) := by
  intro labels
  induction labels using List.reverseRecOn with
  | nil =>
    intro w _ hrun
    obtain rfl := Option.some.inj hrun
    exact ⟨hphase, List.not_mem_nil, fun _ => List.not_mem_nil, fun h => .inl h⟩
  | append_singleton labels a ih =>
    intro w hlabels hrun
    obtain ⟨k, hk, hstep⟩ := run_concat.mp hrun
    have hcall : a.IsCall = false := hlabels a (List.mem_append_right _ (List.mem_singleton_self _))
    obtain ⟨hkphase, huncalled, hunwaited, hover⟩ :=
      ih (fun b hb => hlabels b (List.mem_append_left _ hb)) hk
    have hmoved := moved_of_step hstep
    rw [attempts, emitted_concat hk, ← attempts]
    generalize signs k a = u at hmoved
    cases hmoved with
    | stayed hphase' _ =>
      rw [List.append_nil]
      exact ⟨hphase' ▸ hkphase, huncalled, hunwaited, hphase' ▸ hover⟩
    | started hphase' hw _ =>
      rw [List.append_nil]
      refine ⟨by rw [hw]; exact nofun, huncalled, hunwaited, fun h => .inr (.inr ?_)⟩
      rcases hover h with h | h | h
      · rw [hphase'] at h
        cases h
      · rw [hphase'] at h
        cases h
      · exact h
    | returned hw _ =>
      rw [List.append_nil]
      exact ⟨by rw [hw]; exact nofun, huncalled, hunwaited, fun _ => .inr (.inl hw)⟩
    | called replay ha _ _ =>
      rw [ha] at hcall
      cases hcall
    | failed _ _ _ ha => exact absurd ha (Bool.eq_false_iff.mp hcall)
    | waited hphase' _ _ => exact absurd hphase' hkphase
    | delivered _ hw =>
      refine ⟨by rw [hw]; exact nofun, ?_, fun d => ?_, fun _ => .inl hw⟩
      · simpa using huncalled
      · simpa using hunwaited d
    | ended _ hw =>
      refine ⟨by rw [hw]; exact nofun, ?_, fun d => ?_, fun _ => .inr (.inr ?_)⟩
      · simpa using huncalled
      · simpa using hunwaited d
      · exact List.mem_append_right _ (List.mem_singleton_self _)

/-! ## Starts that fail -/

/-- The loop backs off, where no stream has been started. -/
structure Backing (t : List Sign) (w : Watcher) : Prop where
  backsOff : BacksOff t
  phase : w.phase ≠ .consuming
  settled : w.phase = .head ∨ w.phase = .starting → Settled t
  last : ∀ d, LastWait t d → w.backoff = min 30 (2 * d)

theorem nextBackoff_eq (d : ℕ) : nextBackoff d = min 30 (2 * d) := by
  rw [nextBackoff]
  split_ifs <;> omega

theorem backing_init (objects : Finset ObjectKey) : Backing [] { objects } where
  backsOff := backsOff_nil
  phase := nofun
  settled := by
    intro _ before mid h
    exact absurd h.symm (by simp)
  last := by
    rintro d ⟨before, mid, h, -⟩
    exact absurd h.symm (by simp)

theorem Backing.step {t : List Sign} (h : Backing t m) (hstep : step m a = some m')
    (ha : ∀ replay, a ≠ .watch replay) : Backing (t ++ signs m a) m' := by
  have hmoved := moved_of_step hstep
  generalize signs m a = u at hmoved
  cases hmoved with
  | stayed hphase hbackoff =>
    rw [List.append_nil]
    exact ⟨h.backsOff, hphase ▸ h.phase, hphase ▸ h.settled, hbackoff ▸ h.last⟩
  | started hphase hphase' hbackoff =>
    rw [List.append_nil]
    exact ⟨h.backsOff, by rw [hphase']; exact nofun, fun _ => h.settled (.inl hphase), hbackoff ▸ h.last⟩
  | returned hphase hbackoff =>
    rw [List.append_nil]
    refine ⟨h.backsOff, by rw [hphase]; exact nofun, fun hp => ?_, hbackoff ▸ h.last⟩
    rw [hphase] at hp
    rcases hp with hp | hp <;> cases hp
  | called replay hwatch _ _ => exact absurd hwatch (ha replay)
  | failed hphase hphase' hbackoff _ =>
    have hcalled : BacksOff (t ++ [.called]) :=
      h.backsOff.concat (fun _ => h.settled (.inr hphase)) fun _ _ hs => by cases hs
    have hover : BacksOff (t ++ [.called, .ended]) := by
      have := hcalled.concat (s := .ended) (fun hs => by cases hs) fun _ _ hs => by cases hs
      rwa [List.append_assoc] at this
    refine ⟨hover, ?_, fun hp => ?_, fun d hd => ?_⟩
    · rcases hphase' with hp | hp <;> rw [hp] <;> exact nofun
    · rcases hphase' with hp' | hp' <;> rw [hp'] at hp <;> rcases hp with hp | hp <;> cases hp
    · rw [show t ++ [Sign.called, Sign.ended] = t ++ [.called] ++ [.ended] by simp] at hd
      rcases lastWait_concat hd with hs | ⟨-, hd⟩
      · cases hs
      · rcases lastWait_concat hd with hs | ⟨-, hd⟩
        · cases hs
        · rw [hbackoff, h.last d hd]
  | waited hphase hphase' hbackoff =>
    refine ⟨h.backsOff.concat (fun hs => by cases hs) fun d d' hs hd => ?_,
      by rw [hphase']; exact nofun, fun _ => settled_waited t _, fun d hd => ?_⟩
    · rw [← Sign.waited.inj hs, h.last d hd]
    · rw [hbackoff, nextBackoff_eq]
      rcases lastWait_concat hd with hs | ⟨hs, -⟩
      · rw [Sign.waited.inj hs]
      · exact absurd rfl (hs m.backoff)
  | delivered hphase _ => exact absurd hphase h.phase
  | ended hphase _ => exact absurd hphase h.phase

theorem backing_run {objects : Finset ObjectKey} {labels : List Label}
    (hrun : run Reconnect.step { objects } labels = some w)
    (hlabels : ∀ replay, .watch replay ∉ labels) : Backing (attempts { objects } labels) w := by
  revert hlabels
  refine run_history (I := fun as m => (∀ replay, .watch replay ∉ as) →
    Backing (attempts { objects } as) m) (fun _ => backing_init objects) ?_ hrun
  intro as m a m' hm ih hstep hlabels
  have hbacking := ih fun replay has => hlabels replay (List.mem_append_left _ has)
  rw [attempts, emitted_concat hm]
  refine hbacking.step hstep fun replay ha => hlabels replay ?_
  exact List.mem_append_right _ (List.mem_singleton.mpr ha.symm)

end Step

/-! ## Every run -/

variable {objects : Finset ObjectKey} {labels : List Label} {w : Watcher}

/-- A call after a stream has ended comes without a wait. -/
theorem onlyFailedStarts_of_backsOff (hrun : run step { objects } labels = some w)
    (h : BacksOff (attempts { objects } labels)) : OnlyFailedStarts labels := by
  rintro pre replay post rfl b hb
  by_contra hcall
  -- the first call behind the stream
  obtain ⟨x, hx⟩ := Option.isSome_iff_exists.mp
    (List.find?_isSome.mpr ⟨b, hb, Bool.of_not_eq_false hcall⟩)
  obtain ⟨hxcall, mid, rest, rfl, hmid⟩ := List.find?_eq_some_iff_append.mp hx
  obtain ⟨m₀, hpre, hrest⟩ := run_append.mp hrun
  obtain ⟨m₁, hwatch, hrest⟩ := run_cons_eq_some.mp hrest
  obtain ⟨m₂, hrunmid, hrest⟩ := run_append.mp hrest
  obtain ⟨m₃, hstep, -⟩ := run_cons_eq_some.mp hrest
  have hconsuming : m₁.phase = .consuming := by
    simp only [step, Option.ite_none_right_eq_some, Option.some.injEq] at hwatch
    rw [← hwatch.2]
  have hstarting : m₂.phase = .starting := by
    cases x with
    | watch replay' =>
      simp only [step, Option.ite_none_right_eq_some] at hstep
      exact hstep.1.1
    | watchFail err =>
      simp only [step, Option.ite_none_right_eq_some] at hstep
      exact hstep.1
    | _ => cases hxcall
  obtain ⟨-, -, hunwaited, hover⟩ :=
    idles_run (by rw [hconsuming]; intro h; cases h) (fun a ha => by simpa using hmid a ha) hrunmid
  have hmem : .ended ∈ attempts m₁ mid := by
    rcases hover hconsuming with hp | hp | hp
    · rw [hstarting] at hp
      cases hp
    · rw [hstarting] at hp
      cases hp
    · exact hp
  obtain ⟨u, v, huv⟩ := List.append_of_mem hmem
  obtain ⟨z, hz⟩ : ∃ z, signs m₂ x = .called :: z := by
    cases x with
    | watch replay' => exact ⟨[], rfl⟩
    | watchFail err => exact ⟨[.ended], rfl⟩
    | _ => cases hxcall
  have htrace : attempts { objects } (pre ++ .watch replay :: (mid ++ x :: rest)) =
      ((attempts { objects } pre ++ .called :: u) ++ .ended :: v) ++
        .called :: (z ++ attempts m₃ rest) := by
    rw [attempts, emitted_append hpre, emitted_cons hwatch, emitted_append hrunmid,
      emitted_cons hstep, hz]
    change attempts { objects } pre ++ ([.called] ++ (attempts m₁ mid ++ _)) = _
    rw [huv]
    simp [attempts]
  obtain ⟨d, hd⟩ := h.waits _ _ _ htrace
  refine hunwaited d ?_
  rw [huv]
  exact List.mem_append_right _ (List.mem_cons_of_mem _ hd)

theorem backsOff_of_onlyFailedStarts (hrun : run step { objects } labels = some w)
    (h : OnlyFailedStarts labels) : BacksOff (attempts { objects } labels) := by
  by_cases hwatch : ∀ replay, .watch replay ∉ labels
  · exact (backing_run hrun hwatch).backsOff
  obtain ⟨replay, hmem⟩ := not_forall_not.mp hwatch
  obtain ⟨pre, post, rfl⟩ := List.append_of_mem hmem
  have hpost := h pre replay post rfl
  -- a stream before this one would have been the last
  have hpre : ∀ replay', .watch replay' ∉ pre := by
    intro replay' hmem'
    obtain ⟨u, v, rfl⟩ := List.append_of_mem hmem'
    have hcall := h u replay' (v ++ .watch replay :: post) (by simp) (.watch replay) (by simp)
    cases hcall
  obtain ⟨m₀, hrunpre, hrest⟩ := run_append.mp hrun
  obtain ⟨m₁, hstep, hrunpost⟩ := run_cons_eq_some.mp hrest
  have hbacking := backing_run hrunpre hpre
  have hphases : m₀.phase = .starting ∧ m₁.phase = .consuming := by
    simp only [step, Option.ite_none_right_eq_some, Option.some.injEq] at hstep
    exact ⟨hstep.1.1, by rw [← hstep.2]⟩
  obtain ⟨-, huncalled, hunwaited, -⟩ :=
    idles_run (by rw [hphases.2]; intro h; cases h) hpost hrunpost
  rw [attempts, emitted_append hrunpre, emitted_cons hstep, ← List.append_assoc]
  refine BacksOff.append (hbacking.backsOff.concat (fun _ => hbacking.settled (.inr hphases.1)) ?_)
    huncalled hunwaited
  intro d d' hs
  cases hs

/-- The watcher backs off in a run if and only if every call of `Watch` but the last one fails. -/
theorem backsOff_iff (hrun : run step { objects } labels = some w) :
    BacksOff (attempts { objects } labels) ↔ OnlyFailedStarts labels :=
  ⟨onlyFailedStarts_of_backsOff hrun, backsOff_of_onlyFailedStarts hrun⟩

theorem onlyFailedStarts_concat (a : Label) (h : ∀ replay, .watch replay ∉ labels) :
    OnlyFailedStarts (labels ++ [a]) := by
  intro pre replay post hlabels b hb
  rcases concat_eq_append_cons hlabels with ⟨rfl, -, -⟩ | ⟨post', -, rfl⟩
  · exact absurd hb List.not_mem_nil
  · exact absurd (List.mem_append_right _ List.mem_cons_self) (h replay)

/-- Two starts fail, with a wait after each, before one succeeds. -/
theorem backsOff_twice :
    BacksOff (attempts { objects := ∅ } [.loop, .watchFail .other, .waited, .loop, .watchFail .other,
      .waited, .loop, .watch []]) := by
  refine (backsOff_iff (w := ⟨∅, .consuming, 1, [], true, false⟩) rfl).mpr ?_
  have hfailed : ∀ replay, Label.watch replay ∉
      [Label.loop, .watchFail .other, .waited, .loop, .watchFail .other, .waited, .loop] := by simp
  exact onlyFailedStarts_concat (.watch []) hfailed

/-- A server that accepts a watch and closes it is asked for the next one at once. -/
theorem not_backsOff_closed :
    ∃ w, run step { objects := ∅ } [.loop, .watch [], .streamEnd, .receive, .loop, .watch []] = some w ∧
      attempts { objects := ∅ } [.loop, .watch [], .streamEnd, .receive, .loop, .watch []] =
        [.called, .ended, .called] ∧
      ¬ BacksOff (attempts { objects := ∅ }
        [.loop, .watch [], .streamEnd, .receive, .loop, .watch []]) := by
  have htrace : attempts { objects := ∅ } [.loop, .watch [], .streamEnd, .receive, .loop, .watch []] =
      [.called, .ended, .called] := rfl
  refine ⟨_, rfl, htrace, fun h => ?_⟩
  obtain ⟨d, hd⟩ := h.waits [.called] [] [] htrace
  cases hd

end Yafu.Watch.Reconnect
