import Mathlib.Data.List.Basic

/-!
# Looking up keys

`List.lookup` in a list of which some keys have been removed.
-/

section Lookup

variable {κ α : Type*} [BEq κ] [LawfulBEq κ]

theorem lookup_cons_ne {j k : κ} (h : j ≠ k) (v : α) (l : List (κ × α)) :
    List.lookup j ((k, v) :: l) = l.lookup j := by
  have hjk : (j == k) = false := by simpa using h
  rw [List.lookup_cons, hjk]

theorem mem_of_lookup {l : List (κ × α)} {k : κ} {v : α} (h : l.lookup k = some v) : (k, v) ∈ l := by
  obtain ⟨l₁, l₂, rfl, -⟩ := List.lookup_eq_some_iff.mp h
  exact List.mem_append_right _ List.mem_cons_self

/-- The keys that are kept have the values that they had, the others have none. -/
theorem lookup_filter (q : κ → Bool) (l : List (κ × α)) (k : κ) :
    (l.filter fun e => q e.1).lookup k = if q k then l.lookup k else none := by
  induction l with
  | nil => exact (ite_self none).symm
  | cons e l ih =>
    obtain ⟨i, v⟩ := e
    rw [List.filter_cons]
    by_cases hk : k = i
    · subst hk
      by_cases hq : q k
      · rw [if_pos hq, if_pos hq, List.lookup_cons_self, List.lookup_cons_self]
      · rw [if_neg hq, ih, if_neg hq, if_neg hq]
    · rw [lookup_cons_ne hk]
      by_cases hq : q i
      · rw [if_pos hq, lookup_cons_ne hk, ih]
      · rw [if_neg hq, ih]

variable [DecidableEq κ]

theorem lookup_filter_ne_self (l : List (κ × α)) (k : κ) :
    (l.filter (·.1 ≠ k)).lookup k = none := by
  rw [lookup_filter (fun i => decide (i ≠ k)), if_neg (by simp)]

theorem lookup_filter_ne (l : List (κ × α)) {j k : κ} (h : j ≠ k) :
    (l.filter (·.1 ≠ k)).lookup j = l.lookup j := by
  rw [lookup_filter (fun i => decide (i ≠ k)), if_pos (decide_eq_true h)]

end Lookup
