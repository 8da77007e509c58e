import Mathlib.Data.List.Perm.Basic

/-!
# Fan-out

One goroutine for each element sends one result on a channel, and one receiver reads it until all
have sent. Nothing orders the goroutines: `Received` is what the receiver may have read in the end,
and `received_iff` says that these are the results of all permutations.
-/

namespace Fanout

variable {α β : Type*} {f : α → β}

/-- `Received f l out`: while the goroutines of `l` have not sent yet, the receiver may go on to
read `out`. -/
inductive Received (f : α → β) : List α → List β → Prop
  | closed : Received f [] []
  | send (l : List α) (a : α) (r : List α) {out : List β} (h : Received f (l ++ r) out) :
      Received f (l ++ a :: r) (f a :: out)

theorem received_iff {l : List α} {out : List β} :
    Received f l out ↔ ∃ order : List α, order.Perm l ∧ out = order.map f := by
  constructor
  · intro h
    induction h with
    | closed => exact ⟨[], .refl _, rfl⟩
    | send l a r _ ih =>
      obtain ⟨order, hperm, rfl⟩ := ih
      exact ⟨a :: order, (hperm.cons a).trans List.perm_middle.symm, rfl⟩
  · rintro ⟨order, hperm, rfl⟩
    induction order generalizing l with
    | nil =>
      rw [List.nil_perm.mp hperm]
      exact .closed
    | cons a order ih =>
      -- the goroutine that sends first stands somewhere among those of `l`
      obtain ⟨s, t, rfl⟩ := List.append_of_mem (hperm.subset List.mem_cons_self)
      exact .send s a t (ih (hperm.trans List.perm_middle).cons_inv)

/-- The receiver reads each result once. -/
theorem Received.perm {l : List α} {out : List β} (h : Received f l out) : out.Perm (l.map f) := by
  obtain ⟨order, hperm, rfl⟩ := received_iff.mp h
  exact hperm.map f

end Fanout
