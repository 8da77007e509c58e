import Mathlib.Data.List.Basic
import Mathlib.Data.List.Perm.Basic

/-!
# Linearization

Operations on a shared object of which each begins and ends at some moment. `Linearizes` is what
makes a history linearizable: the operations in an order that keeps every pair of which one had
ended before the other began, and that leads from the first state of the object to the last one by
itself.

An order grows with the history. An operation that takes effect when it ends goes to the end of the
order (`Linearizes.commit`); one that ends without any effect goes to where it began, if it would
have had no effect there (`Linearizes.absorb`). What the object was when an operation began is a
`Seen`.
-/

namespace Linearize

variable {σ ω : Type*}

/-- An operation, with the moments at which it began and ended. -/
structure Done (ω : Type*) where
  op : ω
  invoked : ℕ
  responded : ℕ

variable (apply : ω → σ → σ)

/-- What the operations make of the object one after the other. -/
def replay (s : σ) (order : List (Done ω)) : σ := order.foldl (fun s d => apply d.op s) s

theorem replay_append (s : σ) (order order' : List (Done ω)) :
    replay apply s (order ++ order') = replay apply (replay apply s order) order' := List.foldl_append

/-- No operation of the order had ended before an earlier one of the order began. -/
def RealTime (order : List (Done ω)) : Prop :=
  order.Pairwise fun a b => ¬ b.responded < a.invoked

/-- The order explains the history. -/
structure Linearizes (start : σ) (history order : List (Done ω)) (final : σ) : Prop where
  perm : order.Perm history
  realTime : RealTime order
  legal : replay apply start order = final

/-- The object was in this state at that moment: the operations behind it had not ended then. -/
def Seen (start : σ) (order : List (Done ω)) (moment : ℕ) (state : σ) : Prop :=
  ∃ before after, order = before ++ after ∧ replay apply start before = state ∧
    ∀ d ∈ after, moment ≤ d.responded

variable {apply} {start final state : σ} {history order : List (Done ω)} {moment : ℕ} {d : Done ω}

theorem Linearizes.nil (start : σ) : Linearizes apply start [] [] start :=
  ⟨.refl _, List.Pairwise.nil, rfl⟩

/-- The object as it is now is seen by what begins now. -/
theorem Linearizes.seen (h : Linearizes apply start history order final) :
    Seen apply start order moment final :=
  ⟨order, [], (List.append_nil _).symm, h.legal, fun _ hd => absurd hd List.not_mem_nil⟩

theorem Seen.append (h : Seen apply start order moment state) (hd : moment ≤ d.responded) :
    Seen apply start (order ++ [d]) moment state := by
  obtain ⟨before, after, rfl, hstate, hafter⟩ := h
  refine ⟨before, after ++ [d], List.append_assoc .., hstate, fun e he => ?_⟩
  rcases List.mem_append.mp he with he | he
  · exact hafter e he
  · rw [List.mem_singleton.mp he]
    exact hd

/-- An operation takes effect at its end. -/
theorem Linearizes.commit (h : Linearizes apply start history order final)
    (hinvoked : ∀ e ∈ order, e.invoked ≤ d.responded) :
    Linearizes apply start (history ++ [d]) (order ++ [d]) (apply d.op final) where
  perm := h.perm.append_right [d]
  realTime := by
    refine List.pairwise_append.mpr ⟨h.realTime, List.pairwise_singleton .., fun e he f hf => ?_⟩
    rw [List.mem_singleton.mp hf]
    exact Nat.not_lt.mpr (hinvoked e he)
  legal := by
    rw [replay_append, h.legal]
    rfl

/-- An operation ends without effect, and would have had none when it began. The others see what
they have seen. -/
theorem Linearizes.absorb (h : Linearizes apply start history order final)
    (hinvoked : ∀ e ∈ order, e.invoked ≤ d.responded)
    (hseen : Seen apply start order d.invoked state) (hnone : apply d.op state = state) :
    ∃ order', Linearizes apply start (history ++ [d]) order' final ∧
      ∀ m s, m ≤ d.responded → Seen apply start order m s → Seen apply start order' m s := by
  obtain ⟨before, after, rfl, hstate, hafter⟩ := hseen
  have hreplay : replay apply start (before ++ [d]) = replay apply start before := by
    rw [replay_append, hstate]
    exact hnone
  refine ⟨before ++ d :: after, ⟨?_, ?_, ?_⟩, ?_⟩
  · exact List.perm_middle.trans ((h.perm.cons d).trans (List.perm_append_singleton d history).symm)
  · -- what stands before it began no later than it ended, what stands behind it ended no earlier
    -- than it began
    obtain ⟨hbefore, hbehind, hcross⟩ := List.pairwise_append.mp h.realTime
    refine List.pairwise_append.mpr ⟨hbefore, List.pairwise_cons.mpr ⟨fun e he => ?_, hbehind⟩, ?_⟩
    · exact Nat.not_lt.mpr (hafter e he)
    · intro e he f hf
      rcases List.mem_cons.mp hf with rfl | hf
      · exact Nat.not_lt.mpr (hinvoked e (List.mem_append_left _ he))
      · exact hcross e he f hf
  · rw [List.append_cons, replay_append, hreplay, ← replay_append]
    exact h.legal
  · rintro m s hm ⟨before', after', heq, hs, hafter'⟩
    rcases List.append_eq_append_iff.mp heq with ⟨mid, rfl, rfl⟩ | ⟨mid, rfl, rfl⟩
    · -- it stands inside of what the other has seen
      refine ⟨before ++ d :: mid, after', by simp, ?_, hafter'⟩
      rw [List.append_cons, replay_append, hreplay, ← replay_append]
      exact hs
    · refine ⟨before', mid ++ d :: after, by simp, hs, fun e he => ?_⟩
      rcases List.mem_append.mp he with he | he
      · exact hafter' e (List.mem_append_left _ he)
      · rcases List.mem_cons.mp he with rfl | he
        · exact hm
        · exact hafter' e (List.mem_append_right _ he)

end Linearize
