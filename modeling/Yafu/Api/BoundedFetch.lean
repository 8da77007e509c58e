import Yafu.Api.Drift
import Yafu.Api.Tree
import Yafu.Lib.BoundedPool

/-!
# The bounded fetches of an inventory

Reference: `fetchInventory` in `internal/api/tree.go` and `checkDrift` in `internal/api/diff.go`.

Both are the loop of `BoundedPool` over the references, with another function to answer a request.
What `fetchInventory` and `checkDrift` are in the model of the handlers is what every interleaving of
the goroutines returns.
-/

namespace Yafu.Api

open BoundedPool Transition

/-- `maxConcurrentInventoryFetches`. -/
def maxConcurrentInventoryFetches : ℕ := 16

section Fetch

variable {α β : Type}

/-- A request for a reference is answered with what this function makes of it. -/
def AnswersBy (f : α → β) (refs : List α) (m : Move β) : Prop :=
  ∀ i b, m = .worker i (.answer b) → ∀ ref, refs[i]? = some ref → b = f ref

/-- The answer for the reference of this index. -/
def answerAt (zero : β) (f : α → β) (refs : List α) (i : ℕ) : β := (refs[i]?).elim zero f

theorem answersBy_of_eq {zero : β} {f : α → β} {refs : List α} {m : Move β}
    (h : ∀ i b, m = .worker i (.answer b) → b = answerAt zero f refs i) : AnswersBy f refs m := by
  intro i b hm ref href
  rw [h i b hm, answerAt, href, Option.elim_some]

/-- The goroutines of a loop over the references. -/
abbrev Fetching (refs : List α) (zero : β) (as : List (Move β)) (s : Pool β) : Prop :=
  run (step refs.length maxConcurrentInventoryFetches) (start refs.length zero) as = some s

/-- What holds of the loop in every interleaving. The slots of the output are `zero` at first. -/
structure BoundedFetch (zero : β) (f : α → β) (refs : List α) (result : List β) : Prop where
  /-- Until the loop has returned, something can happen. -/
  progress : ∀ as s, Fetching refs zero as s → s.dispatcher ≠ .returned →
    ∃ m, AnswersBy f refs m ∧ (step refs.length maxConcurrentInventoryFetches s m).isSome = true
  /-- It can return from wherever it is. -/
  completes : ∀ as s, Fetching refs zero as s → ∃ bs s', (∀ m ∈ bs, AnswersBy f refs m) ∧
    run (step refs.length maxConcurrentInventoryFetches) s bs = some s' ∧ s'.dispatcher = .returned
  /-- Nothing goes on for ever. -/
  terminates : ∀ as s, Fetching refs zero as s → as.length ≤ 8 * refs.length + 1
  bounded : ∀ as s, Fetching refs zero as s → s.inFlight ≤ maxConcurrentInventoryFetches
  /-- When it has returned, one request was made for each reference and was answered once. -/
  once : ∀ as s, Fetching refs zero as s → s.dispatcher = .returned → ∀ i, i < refs.length →
    as.countP (Move.starts i) = 1 ∧ as.countP (Move.answers i) = 1
  /-- Whatever the answers are, they are in the slots of their references. -/
  slots : ∀ as s, Fetching refs zero as s → s.dispatcher = .returned →
    s.out.length = refs.length ∧
      ∀ i, i < refs.length → ∃ b, .worker i (.answer b) ∈ as ∧ s.out[i]? = some b
  result : ∀ as s, (∀ m ∈ as, AnswersBy f refs m) → Fetching refs zero as s →
    s.dispatcher = .returned → s.out = result

theorem boundedFetch_map (zero : β) (f : α → β) (refs : List α) :
    BoundedFetch zero f refs (refs.map f) where
  progress as s hrun hnot := by
    obtain ⟨m, hm, hstep⟩ := (inv_of_run hrun).progress (by decide) (answerAt zero f refs) hnot
    exact ⟨m, answersBy_of_eq hm, hstep⟩
  completes as s hrun := by
    obtain ⟨bs, s', hbs, hrest, hreturned⟩ :=
      (inv_of_run hrun).exists_returned (by decide) (answerAt zero f refs)
    exact ⟨bs, s', fun m hm => answersBy_of_eq (hbs m hm), hrest, hreturned⟩
  terminates as s hrun := by
    have hlength := length_add_left hrun
    omega
  bounded as s hrun := (inv_of_run hrun).inFlight_le
  once as s hrun hreturned i hi := by
    obtain ⟨hstart, hanswer, -⟩ := (returned_of_run hrun hreturned).2 i hi
    exact ⟨hstart, hanswer⟩
  slots as s hrun hreturned := by
    obtain ⟨hlength, hall⟩ := returned_of_run hrun hreturned
    exact ⟨hlength, fun i hi => (hall i hi).2.2⟩
  result as s hanswers hrun hreturned := by
    obtain ⟨hlength, hall⟩ := returned_of_run hrun hreturned
    refine List.ext_getElem? fun i => ?_
    rw [List.getElem?_map]
    rcases Nat.lt_or_ge i refs.length with hi | hi
    · obtain ⟨b, hb, hslot⟩ := (hall i hi).2.2
      have href : refs[i]? = some refs[i] := List.getElem?_eq_getElem hi
      rw [hslot, href, Option.map_some, hanswers _ hb i b rfl _ href]
    · rw [List.getElem?_eq_none hi, List.getElem?_eq_none (hlength ▸ hi), Option.map_none]

end Fetch

/-- Whatever the interleaving of the goroutines, both loops come to their end, with sixteen requests
at a time at the most, one for each reference, and with the answers in the order of the references.
-/
theorem inventory_boundedFetch (rt : Runtime) (e : Entry) (refs : List InventoryRef)
    (node : Types.TreeNode) (resource : Types.DriftedResource) :
    BoundedFetch node (fetchOneResource e.clients) refs (fetchInventory e refs) ∧
      BoundedFetch resource (checkOneDrift rt e.clients) refs (checkDrift rt e refs) :=
  ⟨boundedFetch_map node _ refs, boundedFetch_map resource _ refs⟩

end Yafu.Api
