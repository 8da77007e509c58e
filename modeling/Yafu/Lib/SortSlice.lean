import Mathlib.Data.List.Lex
import Mathlib.Data.List.Pairwise
import Mathlib.Data.Prod.Lex

/-!
# `sort.Slice`

The sort is not stable, so of its result one knows only that it is a permutation of the input in
which no element comes before a smaller one.
-/

/-- An implementation of `sort.Slice` for one `less`. -/
structure SortSlice {α : Type*} (less : α → α → Bool) where
  sort : List α → List α
  perm : ∀ l, (sort l).Perm l
  sorted : ∀ l, (sort l).Pairwise fun a b => less b a = false

/-- What `sort.Slice` asks of `less` on the elements of a list. -/
def WeakOn {α : Type*} (less : α → α → Bool) (l : List α) : Prop :=
  ∀ a ∈ l, ∀ b ∈ l, ∀ c ∈ l, less a b = false → less b c = false → less a c = false

/-- An implementation of `sort.Slice` for a `less` that does not give every list what it asks for.
-/
structure SortSliceWeak {α : Type*} (less : α → α → Bool) where
  sort : List α → List α
  perm : ∀ l, (sort l).Perm l
  sorted : ∀ l, WeakOn less l → (sort l).Pairwise fun a b => less b a = false

/-- Sorting by a key in a linear order is one. -/
def SortSlice.byKey {α β : Type*} [LinearOrder β] {less : α → α → Bool} (key : α → β)
    (h : ∀ a b, less a b = decide (key a < key b)) : SortSlice less where
  sort l := l.mergeSort fun a b => key a ≤ key b
  perm l := List.mergeSort_perm l _
  sorted l := by
    have htrans : ∀ a b c : α, decide (key a ≤ key b) = true → decide (key b ≤ key c) = true →
        decide (key a ≤ key c) = true := by
      intro a b c hab hbc
      rw [decide_eq_true_eq] at hab hbc ⊢
      exact le_trans hab hbc
    have htotal : ∀ a b : α, (decide (key a ≤ key b) || decide (key b ≤ key a)) = true := by
      intro a b
      rw [Bool.or_eq_true, decide_eq_true_eq, decide_eq_true_eq]
      exact le_total _ _
    refine (List.pairwise_mergeSort htrans htotal l).imp fun hab => ?_
    rw [h, decide_eq_false_iff_not, not_lt]
    exact of_decide_eq_true hab

/-! ## Comparing key by key -/

/-- The `less` that decides by the first of these keys in which two elements differ. -/
def lexLess {α β : Type*} [LinearOrder β] : List (α → β) → α → α → Bool
  | [], _, _ => false
  | k :: ks, a, b => if k a ≠ k b then k a < k b else lexLess ks a b

theorem lexLess_eq {α β : Type*} [LinearOrder β] (ks : List (α → β)) (a b : α) :
    lexLess ks a b = decide (ks.map (· a) < ks.map (· b)) := by
  induction ks with
  | nil => simp [lexLess]
  | cons k ks ih =>
    simp only [lexLess, List.map_cons, List.cons_lt_cons_iff]
    split_ifs with h
    · simp [h]
    · rw [not_not] at h
      simp [h, ih]

theorem lexLess_iff {α β : Type*} [LinearOrder β] (ks : List (α → β)) (a b : α) :
    lexLess ks a b ↔ ks.map (· a) < ks.map (· b) := by
  rw [lexLess_eq, decide_eq_true_eq]

/-- Sorting key by key. -/
def SortSlice.lex {α β : Type*} [LinearOrder β] (ks : List (α → β)) : SortSlice (lexLess ks) :=
  .byKey (fun a => ks.map (· a)) fun a b => (lexLess_eq ks a b).trans (decide_eq_decide.mpr .rfl)

/-- Sorting by an order that decides more. -/
def SortSlice.weaken {α : Type*} {less less' : α → α → Bool} (s : SortSlice less')
    (h : ∀ a b, less a b → less' a b) : SortSliceWeak less where
  sort := s.sort
  perm := s.perm
  sorted l _ := (s.sorted l).imp fun {a b} hab => by
    rw [Bool.eq_false_iff] at hab ⊢
    exact fun hba => hab (h b a hba)

/-- Sorting by an order that decides more also sorts by the coarser one. -/
def SortSlice.coarsen {α : Type*} {less less' : α → α → Bool} (s : SortSlice less')
    (h : ∀ a b, less a b → less' a b) : SortSlice less where
  sort := s.sort
  perm := s.perm
  sorted l := (s.sorted l).imp fun {a b} hab => by
    rw [Bool.eq_false_iff] at hab ⊢
    exact fun hba => hab (h b a hba)

/-! ## Ties

Two implementations agree on a list if its elements have different keys, and only then: elements with
the same keys may come out in either order.
-/

section Ties

variable {α β : Type*} [LinearOrder β] {less : α → α → Bool} {key : α → β}

theorem SortSlice.mem_sort (s : SortSlice less) {l : List α} {a : α} : a ∈ s.sort l ↔ a ∈ l :=
  (s.perm l).mem_iff

/-- The keys come out in order. -/
theorem SortSlice.pairwise_key (hless : ∀ a b, less a b ↔ key a < key b) (s : SortSlice less)
    (l : List α) : (s.sort l).Pairwise fun a b => key a ≤ key b :=
  (s.sorted l).imp fun {a b} h => by rwa [Bool.eq_false_iff, Ne, hless, not_lt] at h

/-- If the keys tell the elements apart, the sorted list depends neither on the order of the input
nor on the implementation. -/
theorem SortSlice.sort_eq_sort (hless : ∀ a b, less a b ↔ key a < key b)
    (s s' : SortSlice less) {l l' : List α} (hperm : l.Perm l')
    (hkeys : Set.InjOn key {a | a ∈ l}) : s.sort l = s'.sort l' := by
  refine List.Perm.eq_of_pairwise (fun a b ha hb hab hba => ?_) (s.pairwise_key hless l)
    (s'.pairwise_key hless l') ((s.perm l).trans (hperm.trans (s'.perm l').symm))
  have ha' : a ∈ l := s.mem_sort.mp ha
  have hb' : b ∈ l := hperm.mem_iff.mpr (s'.mem_sort.mp hb)
  exact hkeys ha' hb' (le_antisymm hab hba)

/-- One that puts these elements before the others with the same key. -/
theorem SortSlice.exists_first (hless : ∀ a b, less a b ↔ key a < key b) (p : α → Bool) :
    ∃ s : SortSlice less, ∀ l, (s.sort l).Pairwise fun a b => key a = key b → p b → p a := by
  let fineKey : α → β ×ₗ Bool := fun a => toLex (key a, !p a)
  let fine : SortSlice fun a b => decide (fineKey a < fineKey b) := .byKey fineKey fun _ _ => rfl
  refine ⟨fine.coarsen fun a b hab => ?_, fun l => ?_⟩
  · exact decide_eq_true (Prod.Lex.toLex_lt_toLex.mpr (.inl ((hless a b).mp hab)))
  · refine (fine.sorted l).imp fun {a b} hab heq hb => ?_
    by_contra ha
    refine of_decide_eq_false hab (Prod.Lex.toLex_lt_toLex.mpr (.inr ⟨heq.symm, ?_⟩))
    show (!p b) < !p a
    rw [hb, Bool.eq_false_of_not_eq_true ha]
    decide

omit [LinearOrder β] in
/-- A list cannot have both of two elements with the same key first. -/
theorem not_both_first (key : α → β) {l : List α} {a b : α} (ha : a ∈ l) (hb : b ∈ l) (hne : a ≠ b)
    (heq : key a = key b) (hfirst : l.Pairwise fun x y => key x = key y → y = a → x = a)
    (hfirst' : l.Pairwise fun x y => key x = key y → y = b → x = b) : False := by
  -- neither of the two may come before the other
  let Apart : α → α → Prop := fun x y => ¬ (x = a ∧ y = b) ∧ ¬ (y = a ∧ x = b)
  have : Std.Symm Apart := ⟨fun _ _ h => ⟨h.2, h.1⟩⟩
  have hapart : l.Pairwise Apart := by
    refine (hfirst.and hfirst').imp fun {x y} h => ⟨?_, ?_⟩
    · rintro ⟨rfl, rfl⟩
      exact hne (h.2 heq rfl)
    · rintro ⟨rfl, rfl⟩
      exact hne (h.1 heq.symm rfl).symm
  exact (hapart.forall ha hb hne).1 ⟨rfl, rfl⟩

/-- One that puts an element before the others with the same key. -/
theorem SortSlice.exists_preferring (hless : ∀ a b, less a b ↔ key a < key b) (a : α) :
    ∃ s : SortSlice less, ∀ l, (s.sort l).Pairwise fun x y => key x = key y → y = a → x = a := by
  classical
  obtain ⟨s, hs⟩ := SortSlice.exists_first hless (decide <| · = a)
  refine ⟨s, fun l => (hs l).imp fun {x y} h heq hy => ?_⟩
  exact of_decide_eq_true (h heq (decide_eq_true hy))

/-- On two elements with the same key two implementations may differ, whatever else there is. -/
theorem SortSlice.exists_sort_ne (hless : ∀ a b, less a b ↔ key a < key b) {a b : α}
    (hne : a ≠ b) (heq : key a = key b) :
    ∃ s s' : SortSlice less, ∀ l l' : List α, a ∈ l → b ∈ l → s.sort l ≠ s'.sort l' := by
  obtain ⟨s, hs⟩ := SortSlice.exists_preferring hless a
  obtain ⟨s', hs'⟩ := SortSlice.exists_preferring hless b
  refine ⟨s, s', fun l l' ha hb hsort => ?_⟩
  exact not_both_first key (s.mem_sort.mpr ha) (s.mem_sort.mpr hb) hne heq (hs l) (hsort ▸ hs' l')

end Ties

/-! ## The first ones

What is cut off behind the first `n` elements of a sorted list comes behind them in the order, and
of the elements below a bound the first `n` keep as many as they can.
-/

/-- These are `n` elements of the list, or all if there are fewer, of which none that is left out
should come before one of them. -/
def TopOf {α : Type*} (before : α → α → Prop) (n : ℕ) (l top : List α) : Prop :=
  ∃ rest, (top ++ rest).Perm l ∧ top.length = min n l.length ∧
    ∀ a ∈ top, ∀ b ∈ rest, ¬ before b a

theorem TopOf.perm {α : Type*} {before : α → α → Prop} {n : ℕ} {l l' top : List α}
    (h : TopOf before n l top) (hperm : l.Perm l') : TopOf before n l' top := by
  obtain ⟨rest, hrest, hlength, hbefore⟩ := h
  exact ⟨rest, hrest.trans hperm, hperm.length_eq ▸ hlength, hbefore⟩

/-- Of a property that holds of the first elements of a list only, the first `n` keep as much as they
can. -/
theorem countP_take_of_pairwise {α : Type*} {p : α → Bool} {l : List α}
    (h : l.Pairwise fun a b => p b → p a) (n : ℕ) : (l.take n).countP p = min n (l.countP p) := by
  induction l generalizing n with
  | nil => simp
  | cons a l ih =>
    obtain ⟨ha, hl⟩ := List.pairwise_cons.mp h
    cases n with
    | zero => simp
    | succ n =>
      rw [List.take_succ_cons, List.countP_cons, List.countP_cons, ih hl]
      by_cases hp : p a
      · rw [if_pos hp, Nat.add_min_add_right]
      · have hnone : l.countP p = 0 := List.countP_eq_zero.mpr fun b hb hpb => hp (ha b hb hpb)
        rw [if_neg hp, hnone, Nat.min_zero, Nat.min_zero]

/-- A rearrangement of images is the image of a rearrangement. -/
theorem exists_map_of_perm {α β : Type*} {f : α → β} {l : List α} {l' : List β}
    (h : l'.Perm (l.map f)) : ∃ m : List α, m.Perm l ∧ m.map f = l' := by
  induction l' generalizing l with
  | nil => exact ⟨[], by rw [List.map_eq_nil_iff.mp h.nil_eq.symm], rfl⟩
  | cons b l' ih =>
    obtain ⟨a, ha, rfl⟩ := List.mem_map.mp (h.subset List.mem_cons_self)
    obtain ⟨s, t, rfl⟩ := List.append_of_mem ha
    rw [List.map_append, List.map_cons] at h
    have hrest : l'.Perm ((s ++ t).map f) := by
      rw [List.map_append]
      exact (h.trans List.perm_middle).cons_inv
    obtain ⟨m, hm, rfl⟩ := ih hrest
    exact ⟨a :: m, (hm.cons a).trans List.perm_middle.symm, rfl⟩

section First

variable {α β : Type*} [LinearOrder β] {less : α → α → Bool} {key : α → β}

end First
