import Yafu.Api.Types
import Yafu.Lib.Transition
import Mathlib.Data.Finset.Card

/-!
# The unread count of the bell

Reference: `NotificationsBell` in `web/src/components/Topbar.tsx`.

The bell remembers how many issues it displayed when it was opened, and shows by how many the list
has grown since. The list is cut off at eight: once it is full, a new issue takes the place of another
one and the count stays. `seen` is what the bell displayed when it was open for the last time, which
is nowhere in the component.
-/

namespace Yafu.Web.Notifications

open Transition Api

/-- How many issues the bell displays at most. -/
def maxRecent : ℕ := 8

/-- `recent`. -/
def recentOf (events : List Types.Event) : List Types.Event :=
  (events.filter fun e => e.kind == ("warn" : GoString) || e.kind == ("err" : GoString)).take maxRecent

structure Bell where
  events : List Types.Event := []
  isOpen : Bool := false
  seenCount : ℕ := 0
  seen : List Types.Event := []
deriving DecidableEq

def Bell.recent (s : Bell) : List Types.Event := recentOf s.events

def Bell.unread (s : Bell) : ℕ := s.recent.length - s.seenCount

inductive Move
  /-- The query has an answer. -/
  | receive (events : List Types.Event)
  /-- A click on the button. -/
  | toggle
  /-- A click outside. -/
  | outside

/-- The listener for clicks outside is there while the bell is open. -/
def step (s : Bell) : Move → Option Bell
  | .receive events =>
    some { s with events, seen := if s.isOpen then recentOf events else s.seen }
  | .toggle =>
    if s.isOpen then some { s with isOpen := false }
    else some { s with isOpen := true, seenCount := s.recent.length, seen := s.recent }
  | .outside => if s.isOpen then some { s with isOpen := false } else none

/-- The button closes the bell, or opens it and counts. -/
theorem step_toggle {s s' : Bell} (h : step s .toggle = some s') :
    s' = { s with isOpen := false } ∨
      s' = { s with isOpen := true, seenCount := s.recent.length, seen := s.recent } := by
  rw [step] at h
  split_ifs at h
  · exact .inl (Option.some.inj h).symm
  · exact .inr (Option.some.inj h).symm

theorem step_outside {s s' : Bell} (h : step s .outside = some s') :
    s' = { s with isOpen := false } := by
  rw [step] at h
  split_ifs at h
  exact (Option.some.inj h).symm

/-! ## What the count should be -/

section Accuracy

variable {κ : Type} [DecidableEq κ]

/-- The issues of a list, by what identifies them. -/
def issues (key : Types.Event → κ) (events : List Types.Event) : Finset κ := (events.map key).toFinset

/-- The issues displayed that were not displayed when the bell was last open. -/
def Bell.fresh (key : Types.Event → κ) (s : Bell) : Finset κ := issues key s.recent \ issues key s.seen

def Accurate (key : Types.Event → κ) (s : Bell) : Prop := s.unread = (s.fresh key).card

/-- A list for which the lengths say what is new. -/
def Comparable (key : Types.Event → κ) (s : Bell) (events : List Types.Event) : Prop :=
  if s.isOpen then (recentOf events).length ≤ s.seenCount
  else issues key (recentOf events) ⊆ issues key s.seen ∨
    (issues key s.seen ⊆ issues key (recentOf events) ∧ s.seen.length = s.seenCount)

/-- Each issue that is displayed is displayed once. -/
def Distinct (key : Types.Event → κ) (events : List Types.Event) : Prop :=
  ((recentOf events).map key).Nodup

def DistinctMove (key : Types.Event → κ) : Move → Prop
  | .receive events => Distinct key events
  | .toggle | .outside => True

def ComparableMove (key : Types.Event → κ) (s : Bell) : Move → Prop
  | .receive events => Comparable key s events
  | .toggle | .outside => True

/-- Between two sets, a difference of sizes is the size of the difference only if one of them lies in
the other. -/
theorem card_sdiff_eq_iff {a b : Finset κ} {k : ℕ} (hk : b.card ≤ k) :
    a.card - k = (a \ b).card ↔ a ⊆ b ∨ (b ⊆ a ∧ b.card = k) := by
  have hsplit : (a \ b).card + (a ∩ b).card = a.card := Finset.card_sdiff_add_card_inter a b
  constructor
  · intro h
    by_cases hle : a.card ≤ k
    · have hzero : (a \ b).card = 0 := by omega
      exact .inl (Finset.sdiff_eq_empty_iff_subset.mp (Finset.card_eq_zero.mp hzero))
    · have hinter : (a ∩ b).card = k := by omega
      have hsame : a ∩ b = b := Finset.eq_of_subset_of_card_le Finset.inter_subset_right (by omega)
      exact .inr ⟨Finset.inter_eq_right.mp hsame, hsame ▸ hinter⟩
  · rintro (hsub | ⟨hsub, hcard⟩)
    · have hle : a.card ≤ b.card := Finset.card_le_card hsub
      rw [Finset.sdiff_eq_empty_iff_subset.mpr hsub, Finset.card_empty]
      omega
    · rw [Finset.card_sdiff_of_subset hsub, hcard]

variable {key : Types.Event → κ}

theorem card_issues {events : List Types.Event} (h : (events.map key).Nodup) :
    (issues key events).card = events.length := by
  rw [issues, List.toFinset_card_of_nodup h, List.length_map]

/-! ## The invariant -/

/-- What was displayed when the bell was last open: it is displayed now if the bell is open, and is
no more than was counted. -/
structure Counted (key : Types.Event → κ) (s : Bell) : Prop where
  distinct : (s.recent.map key).Nodup
  seen : (s.seen.map key).Nodup
  shown : s.isOpen = true → s.seen = s.recent
  count : s.seen.length ≤ s.seenCount

omit [DecidableEq κ] in
theorem counted_start (key : Types.Event → κ) : Counted key {} :=
  ⟨List.nodup_nil, List.nodup_nil, nofun, Nat.le_refl 0⟩

/-- With nothing fresh while the bell is open, the count is right if it is zero. -/
theorem accurate_iff_of_open {s : Bell} (h : s.seen = s.recent) :
    Accurate key s ↔ s.recent.length ≤ s.seenCount := by
  rw [Accurate, Bell.fresh, h, Finset.sdiff_self, Finset.card_empty, Bell.unread,
    Nat.sub_eq_zero_iff_le]

theorem Counted.accurate_iff {s : Bell} (h : Counted key s) :
    Accurate key s ↔ issues key s.recent ⊆ issues key s.seen ∨
      (issues key s.seen ⊆ issues key s.recent ∧ s.seen.length = s.seenCount) := by
  have hle : (issues key s.seen).card ≤ s.seenCount := by
    rw [card_issues h.seen]
    exact h.count
  rw [Accurate, Bell.unread, ← card_issues h.distinct, Bell.fresh, card_sdiff_eq_iff hle,
    card_issues h.seen]

/-- A list that is received keeps the count right if the lengths may be compared, and not otherwise. -/
theorem accurate_receive_iff {s s' : Bell} {events : List Types.Event} (h : Counted key s)
    (hdistinct : Distinct key events) (hstep : step s (.receive events) = some s') :
    Accurate key s' ↔ Comparable key s events := by
  obtain rfl := Option.some.inj hstep
  rw [Comparable]
  by_cases hopen : s.isOpen = true
  · simp only [if_pos hopen]
    exact accurate_iff_of_open rfl
  · simp only [if_neg hopen]
    have hcounted : Counted key { s with events } :=
      ⟨hdistinct, h.seen, fun hopen' => absurd hopen' hopen, h.count⟩
    exact hcounted.accurate_iff

/-- The clicks keep the count right: closing changes nothing, opening counts what is displayed. -/
theorem accurate_toggle {s s' : Bell} (h : Accurate key s) (hstep : step s .toggle = some s') :
    Accurate key s' := by
  rcases step_toggle hstep with rfl | rfl
  · exact h
  · exact (accurate_iff_of_open rfl).mpr (Nat.le_refl _)

theorem accurate_outside {s s' : Bell} (h : Accurate key s) (hstep : step s .outside = some s') :
    Accurate key s' := by
  obtain rfl := step_outside hstep
  exact h

theorem accurate_step_iff {s : Bell} {m : Move} (h : Counted key s) (hacc : Accurate key s)
    (hm : DistinctMove key m) :
    ComparableMove key s m ↔ ∀ s', step s m = some s' → Accurate key s' := by
  cases m with
  | receive events =>
    refine ⟨fun hok s' hstep => (accurate_receive_iff h hm hstep).mpr hok, fun hok => ?_⟩
    exact (accurate_receive_iff h hm rfl).mp (hok _ rfl)
  | toggle => exact iff_of_true trivial fun s' hstep => accurate_toggle hacc hstep
  | outside => exact iff_of_true trivial fun s' hstep => accurate_outside hacc hstep

omit [DecidableEq κ] in
theorem Counted.close {s : Bell} (h : Counted key s) : Counted key { s with isOpen := false } :=
  ⟨h.distinct, h.seen, nofun, h.count⟩

theorem Counted.step {s s' : Bell} {m : Move} (h : Counted key s) (hm : DistinctMove key m)
    (hok : ComparableMove key s m) (hstep : step s m = some s') : Counted key s' := by
  cases m with
  | receive events =>
    have hcomparable : Comparable key s events := hok
    obtain rfl := Option.some.inj hstep
    rw [Comparable] at hcomparable
    by_cases hopen : s.isOpen = true
    · simp only [if_pos hopen] at hcomparable ⊢
      exact ⟨hm, hm, fun _ => rfl, hcomparable⟩
    · simp only [if_neg hopen]
      exact ⟨hm, h.seen, fun hopen' => absurd hopen' hopen, h.count⟩
  | toggle =>
    rcases step_toggle hstep with rfl | rfl
    · exact h.close
    · exact ⟨h.distinct, h.distinct, fun _ => rfl, Nat.le_refl _⟩
  | outside =>
    obtain rfl := step_outside hstep
    exact h.close

/-- The count is right in every state of a run whose lists display each issue once, whatever
identifies an issue, exactly if each list is one for which the lengths may be compared. -/
theorem unread_accurate_iff (key : Types.Event → κ) {moves : List Move}
    (hdistinct : ∀ m ∈ moves, DistinctMove key m) :
    Always step (Accurate key) {} moves ↔ Along step (ComparableMove key) {} moves :=
  always_iff_along (fun _ _ => accurate_step_iff) (fun _ _ _ => Counted.step) (counted_start key) rfl
    hdistinct

end Accuracy

/-! ## A growing list, and a full one -/

/-- A warning with this id. -/
def warning (id : GoString) : Types.Event where
  id := id
  t := "2024-01-01T00:00:00Z"
  cluster := "dev"
  clusterId := "dev"
  ns := "flux-system"
  kind := "err"
  type := "Warning"
  reason := "BuildFailed"
  message := []
  object := "Kustomization/apps"
  source := "kustomize-controller"

def fullList : List Types.Event :=
  [warning "1", warning "2", warning "3", warning "4", warning "5", warning "6", warning "7", warning "8"]

/-- Two are seen and one more comes. -/
def growing : List Move :=
  [.receive [warning "1", warning "2"], .toggle, .toggle,
    .receive [warning "3", warning "1", warning "2"]]

theorem unread_accurate_iff_growing : Always step (Accurate Types.Event.id) {} growing := by
  have hdistinct : ∀ m ∈ growing, DistinctMove Types.Event.id m := by
    simp only [growing, List.forall_mem_cons, DistinctMove, Distinct]
    exact ⟨by decide +kernel, trivial, trivial, by decide +kernel, nofun⟩
  refine (unread_accurate_iff Types.Event.id hdistinct).mpr ?_
  refine .cons ?_ rfl (.cons trivial rfl (.cons trivial rfl (.cons ?_ rfl trivial)))
  · exact .inr ⟨by decide +kernel, rfl⟩
  · exact .inr ⟨by decide +kernel, rfl⟩

/-- Eight issues are seen, then a ninth comes in their front: the count says that nothing is new. -/
theorem not_accurate_full :
    ∃ s, run step {} [.receive fullList, .toggle, .toggle, .receive (warning "9" :: fullList)] = some s ∧
      s.unread = 0 ∧ s.fresh Types.Event.id = {("9" : GoString)} ∧ ¬ Accurate Types.Event.id s := by
  refine ⟨⟨warning "9" :: fullList, false, 8, fullList⟩, by decide +kernel, by decide +kernel,
    by decide +kernel, ?_⟩
  rw [Accurate]
  decide +kernel

end Yafu.Web.Notifications
