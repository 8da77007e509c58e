import Mathlib.Data.List.Lex
import Mathlib.Data.List.TakeWhile

/-!
# Strings as Go has them

A Go string is a sequence of bytes that need not be valid UTF-8. What comes from a request (a path,
a query, a header, a cookie) and what is cut out of it is such a sequence, so everything that
compares or cuts request data works on `GoString`. A Lean string literal stands for its UTF-8 bytes.
-/

/-- A Go `string`. -/
abbrev GoString := List UInt8

instance : Coe String GoString := ⟨fun s => s.toUTF8.data.toList⟩

/-- Go compares strings byte by byte. -/
instance linearOrderByte : LinearOrder UInt8 where
  le_refl := UInt8.le_refl
  le_trans _ _ _ := UInt8.le_trans
  lt_iff_le_not_ge a b := by
    rw [UInt8.not_le]
    exact ⟨fun h => ⟨UInt8.le_of_lt h, h⟩, fun h => h.2⟩
  le_antisymm _ _ := UInt8.le_antisymm
  le_total := UInt8.le_total
  toDecidableLE := inferInstance
  toDecidableLT := inferInstance

namespace GoString

/-- What is checked byte by byte holds of every byte. -/
theorem forall_mem_of_all {p : UInt8 → Prop} [DecidablePred p] {s : GoString}
    (h : (s.all fun c => decide (p c)) = true) : ∀ c ∈ s, p c :=
  fun c hc => of_decide_eq_true (List.all_eq_true.mp h c hc)

/-- What is checked of every byte. -/
theorem forall_byte {p : UInt8 → Prop} (h : ∀ n < 256, p (UInt8.ofNat n)) (b : UInt8) : p b := by
  have hb := h b.toNat b.toNat_lt
  rwa [UInt8.ofNat_toNat] at hb

/-- `strings.CutPrefix`, `none` where Go answers `false`. -/
def cutPrefix : GoString → GoString → Option GoString
  | s, [] => some s
  | [], _ :: _ => none
  | b :: s, c :: p => if b = c then cutPrefix s p else none

theorem cutPrefix_eq_some_iff {s p r : GoString} : s.cutPrefix p = some r ↔ s = p ++ r := by
  fun_induction cutPrefix s p with
  | case1 s => rw [Option.some.injEq, List.nil_append]
  | case2 => simp
  | case3 s b p ih => rw [ih, List.cons_append, List.cons.injEq, eq_self, true_and]
  | case4 b s c p hne => simp [hne]

theorem length_of_cutPrefix {s p r : GoString} (h : s.cutPrefix p = some r) :
    s.length = p.length + r.length := by
  rw [cutPrefix_eq_some_iff.mp h, List.length_append]

/-- `strings.Split` at a separator `b :: sep`. -/
def splitStr (b : UInt8) (sep : GoString) : GoString → List GoString
  | [] => [[]]
  | c :: s =>
    match _h : cutPrefix (c :: s) (b :: sep) with
    | some r => [] :: splitStr b sep r
    | none =>
      match splitStr b sep s with
      | [] => [[c]]
      | p :: ps => (c :: p) :: ps
termination_by s => s.length
decreasing_by
  · have hlen := length_of_cutPrefix _h
    simp only [List.length_cons] at hlen ⊢
    omega
  · simp

/-- `strings.Split` at a separator of one byte. -/
def split (sep : UInt8) : GoString → List GoString
  | [] => [[]]
  | b :: s =>
    if b = sep then [] :: split sep s
    else
      match split sep s with
      | [] => [[b]]
      | p :: ps => (b :: p) :: ps

/-- `strings.Cut` at a separator of one byte. -/
def cut (sep : UInt8) : GoString → Option (GoString × GoString)
  | [] => none
  | b :: s => if b = sep then some ([], s) else (cut sep s).map fun p => (b :: p.1, p.2)

/-- `strings.SplitN` with `n + 1` for the limit. -/
def splitN (sep : UInt8) : ℕ → GoString → List GoString
  | 0, s => [s]
  | n + 1, s =>
    match cut sep s with
    | none => [s]
    | some (a, b) => a :: splitN sep n b

/-- `strings.ReplaceAll` of one byte. -/
def replaceAll (b : UInt8) (new : GoString) (s : GoString) : GoString :=
  s.flatMap fun c => if c = b then new else [c]

theorem cut_append {sep : UInt8} {a : GoString} (h : sep ∉ a) (b : GoString) :
    cut sep (a ++ sep :: b) = some (a, b) := by
  induction a with
  | nil => simp [cut]
  | cons c a ih =>
    rw [List.mem_cons, not_or] at h
    rw [List.cons_append, cut, if_neg (Ne.symm h.1), ih h.2]
    rfl

theorem cut_eq_none {sep : UInt8} {s : GoString} (h : sep ∉ s) : cut sep s = none := by
  induction s with
  | nil => rfl
  | cons c s ih =>
    rw [List.mem_cons, not_or] at h
    rw [cut, if_neg (Ne.symm h.1), ih h.2]
    rfl

/-- What is before the separator, everything if there is none. -/
def before (sep : UInt8) (s : GoString) : GoString := s.takeWhile (· ≠ sep)

theorem cut_getD_fst (sep : UInt8) (s t : GoString) :
    ((cut sep s).getD (s, t)).1 = before sep s := by
  unfold before
  induction s with
  | nil => rfl
  | cons c s ih =>
    rw [cut]
    split_ifs with hc
    · rw [List.takeWhile_cons_of_neg (by simpa using hc)]
      rfl
    · rw [List.takeWhile_cons_of_pos (by simpa using hc), ← ih]
      cases cut sep s <;> rfl

theorem before_prefix (sep : UInt8) (s : GoString) : before sep s <+: s := List.takeWhile_prefix _

theorem notMem_before (sep : UInt8) (s : GoString) : sep ∉ before sep s := fun h => by
  simpa using List.mem_takeWhile_imp h

theorem before_of_notMem {sep : UInt8} {s : GoString} (h : sep ∉ s) : before sep s = s := by
  refine List.takeWhile_eq_self_iff.mpr fun b hb => decide_eq_true ?_
  rintro rfl
  exact h hb

theorem before_append {sep : UInt8} {a : GoString} (h : sep ∉ a) (b : GoString) :
    before sep (a ++ sep :: b) = a := by
  have hcut := cut_getD_fst sep (a ++ sep :: b) []
  rw [cut_append h] at hcut
  exact hcut.symm

/-- What was cut at a separator is put together with it again. -/
theorem eq_of_cut {sep : UInt8} : ∀ {s a b : GoString}, cut sep s = some (a, b) → s = a ++ sep :: b
  | [], _, _, h => by cases h
  | c :: s, a, b, h => by
    rw [cut] at h
    split_ifs at h with hc
    · rw [Option.some.injEq, Prod.mk.injEq] at h
      rw [← h.1, ← h.2, hc, List.nil_append]
    · obtain ⟨⟨x, y⟩, hcut, heq⟩ := Option.map_eq_some_iff.mp h
      rw [Prod.mk.injEq] at heq
      rw [← heq.1, ← heq.2, List.cons_append, ← eq_of_cut hcut]

theorem notMem_of_cut {sep : UInt8} {s a b : GoString} (h : cut sep s = some (a, b)) : sep ∉ a := by
  induction s generalizing a b with
  | nil => cases h
  | cons c s ih =>
    rw [cut] at h
    split at h
    · rw [Option.some.injEq, Prod.mk.injEq] at h
      rw [← h.1]
      exact List.not_mem_nil
    · rename_i hc
      obtain ⟨⟨x, y⟩, hcut, heq⟩ := Option.map_eq_some_iff.mp h
      rw [Prod.mk.injEq] at heq
      rw [← heq.1, List.mem_cons, not_or]
      exact ⟨Ne.symm hc, ih hcut⟩

theorem split_of_notMem {sep : UInt8} {s : GoString} (h : sep ∉ s) : split sep s = [s] := by
  induction s with
  | nil => rfl
  | cons c s ih =>
    rw [List.mem_cons, not_or] at h
    rw [split, if_neg (Ne.symm h.1), ih h.2]

theorem split_append {sep : UInt8} {a : GoString} (h : sep ∉ a) (b : GoString) :
    split sep (a ++ sep :: b) = a :: split sep b := by
  induction a with
  | nil => rw [List.nil_append, split, if_pos rfl]
  | cons c a ih =>
    rw [List.mem_cons, not_or] at h
    rw [List.cons_append, split, if_neg (Ne.symm h.1), ih h.2]

/-- A separator cuts wherever it is. -/
theorem split_append_cons (sep : UInt8) (a b : GoString) :
    split sep (a ++ sep :: b) = split sep a ++ split sep b := by
  by_cases h : sep ∈ a
  · obtain ⟨c, d, rfl, hc⟩ := List.eq_append_cons_of_mem h
    rw [List.append_assoc, List.cons_append, split_append hc, split_append hc,
      split_append_cons sep d b, List.cons_append]
  · rw [split_append h, split_of_notMem h, List.singleton_append]
termination_by a.length
decreasing_by
  subst_vars
  rw [List.length_append, List.length_cons]
  exact Nat.lt_of_lt_of_le (Nat.lt_succ_self _) (Nat.le_add_left _ _)

theorem split_ne_nil (sep : UInt8) (s : GoString) : split sep s ≠ [] := by
  cases s with
  | nil => exact List.cons_ne_nil _ _
  | cons b s =>
    rw [split]
    split
    · exact List.cons_ne_nil _ _
    · split <;> exact List.cons_ne_nil _ _

/-- What is cut off of a prefix is cut off of the whole. -/
theorem dropLast_split_prefix (sep : UInt8) {t s : GoString} (h : t <+: s) :
    (split sep t).dropLast <+: (split sep s).dropLast := by
  obtain ⟨r, rfl⟩ := h
  induction t with
  | nil => exact List.nil_prefix
  | cons b t ih =>
    have hne := split_ne_nil sep t
    have hne' := split_ne_nil sep (t ++ r)
    rw [List.cons_append, split, split]
    split_ifs
    · rw [List.dropLast_cons_of_ne_nil hne, List.dropLast_cons_of_ne_nil hne']
      exact (List.prefix_cons_inj _).mpr ih
    · rcases hs : split sep t with _ | ⟨p, _ | ⟨q, ps⟩⟩
      · exact absurd hs hne
      · exact List.nil_prefix
      · rw [hs, List.dropLast_cons_of_ne_nil (List.cons_ne_nil _ _)] at ih
        rcases hs' : split sep (t ++ r) with _ | ⟨p', _ | ⟨q', ps'⟩⟩
        · exact absurd hs' hne'
        · rw [hs'] at ih
          exact absurd (List.prefix_nil.mp ih) (List.cons_ne_nil _ _)
        · rw [hs', List.dropLast_cons_of_ne_nil (List.cons_ne_nil _ _), List.cons_prefix_cons] at ih
          obtain ⟨rfl, ih⟩ := ih
          exact List.cons_prefix_cons.mpr ⟨rfl, ih⟩

/-- Two bytes at the front. -/
theorem pair_prefix_iff {a b : UInt8} {s : GoString} :
    [a, b] <+: s ↔ s.head? = some a ∧ s.tail.head? = some b := by
  rcases s with _ | ⟨c, _ | ⟨d, s⟩⟩
  · simp
  · simp [List.cons_prefix_cons]
  · simp [List.cons_prefix_cons, eq_comm (a := a), eq_comm (a := b)]

/-- What follows a separator is never cut up to a point behind it. -/
theorem exists_cut_append (sep : UInt8) (a b : GoString) :
    ∃ x y, cut sep (a ++ sep :: b) = some (x, y) ∧ b <:+ y := by
  induction a with
  | nil => exact ⟨[], b, by simp [cut], List.suffix_rfl⟩
  | cons c a ih =>
    rw [List.cons_append, cut]
    split
    · exact ⟨[], _, rfl, (List.suffix_cons sep b).trans (List.suffix_append a _)⟩
    · obtain ⟨x, y, hcut, hsuffix⟩ := ih
      exact ⟨c :: x, y, by rw [hcut]; rfl, hsuffix⟩

theorem replaceAll_of_notMem {b : UInt8} {s : GoString} (h : b ∉ s) (new : GoString) :
    replaceAll b new s = s := by
  induction s with
  | nil => rfl
  | cons c s ih =>
    rw [List.mem_cons, not_or] at h
    have hs := ih h.2
    simp only [replaceAll] at hs ⊢
    rw [List.flatMap_cons, if_neg (Ne.symm h.1), hs]
    rfl

/-- `strings.TrimRight` with a cutset of one byte. -/
def trimRight (b : UInt8) (s : GoString) : GoString := (s.reverse.dropWhile (· = b)).reverse

/-- The encodings of the runes for which `unicode.IsSpace` holds. -/
def spaces : List GoString :=
  ["\t", "\n", "\x0b", "\x0c", "\r", " ", "\u0085", "\u00a0", "\u1680", "\u2000", "\u2001", "\u2002",
    "\u2003", "\u2004", "\u2005", "\u2006", "\u2007", "\u2008", "\u2009", "\u200a", "\u2028", "\u2029",
    "\u202f", "\u205f", "\u3000"]

/-- Removes from the front what is in the list, as long as there is something. -/
def trimPrefixes (cutset : List GoString) (s : GoString) : GoString :=
  match _h : cutset.findSome? fun p => if p = [] then none else s.cutPrefix p with
  | none => s
  | some r => trimPrefixes cutset r
termination_by s.length
decreasing_by
  obtain ⟨p, -, hp⟩ := List.exists_of_findSome?_eq_some _h
  split at hp
  · cases hp
  · rename_i hne
    have hlen := length_of_cutPrefix hp
    have hpos := List.length_pos_iff.mpr hne
    omega

/-- No element is in front of another one. -/
def PrefixFree (cutset : List GoString) : Prop :=
  ∀ p ∈ cutset, ∀ p' ∈ cutset, p <+: p' → p = p'

theorem trimPrefixes_append {cutset : List GoString} (hfree : PrefixFree cutset) {p : GoString}
    (hp : p ∈ cutset) (hne : p ≠ []) (s : GoString) :
    trimPrefixes cutset (p ++ s) = trimPrefixes cutset s := by
  rw [trimPrefixes]
  split
  · rename_i hnone
    have h := List.findSome?_eq_none_iff.mp hnone p hp
    rw [if_neg hne, cutPrefix_eq_some_iff.mpr rfl] at h
    cases h
  · rename_i r hsome
    obtain ⟨p', hp', hcut⟩ := List.exists_of_findSome?_eq_some hsome
    split at hcut
    · cases hcut
    · -- both are in front, so they are the same
      have heq := cutPrefix_eq_some_iff.mp hcut
      have hsame : p' = p := by
        rcases List.prefix_or_prefix_of_prefix ⟨r, heq.symm⟩ (List.prefix_append p s) with h | h
        · exact hfree p' hp' p hp h
        · exact (hfree p hp p' hp' h).symm
      rw [hsame, List.append_cancel_left_eq] at heq
      rw [heq]

theorem trimPrefixes_nil {cutset : List GoString} : trimPrefixes cutset [] = [] := by
  rw [trimPrefixes]
  split
  · rfl
  · rename_i r hsome
    obtain ⟨p', hp', hcut⟩ := List.exists_of_findSome?_eq_some hsome
    split at hcut
    · cases hcut
    · rename_i hne
      have heq := cutPrefix_eq_some_iff.mp hcut
      exact absurd (List.append_eq_nil_iff.mp heq.symm).1 hne

theorem trimPrefixes_flatten {cutset : List GoString} (hfree : PrefixFree cutset)
    (hne : [] ∉ cutset) {parts : List GoString} (h : ∀ p ∈ parts, p ∈ cutset) :
    trimPrefixes cutset parts.flatten = [] := by
  induction parts with
  | nil => exact trimPrefixes_nil
  | cons p parts ih =>
    obtain ⟨hp, hparts⟩ := List.forall_mem_cons.mp h
    rw [List.flatten_cons, trimPrefixes_append hfree hp fun hnil => hne (hnil ▸ hp)]
    exact ih hparts

theorem mem_trimPrefixes {cutset : List GoString} {c : UInt8} (hc : ∀ p ∈ cutset, c ∉ p)
    {s : GoString} (h : c ∈ s) : c ∈ trimPrefixes cutset s := by
  fun_induction trimPrefixes cutset s with
  | case1 s hnone => exact h
  | case2 s r hcut ih =>
    obtain ⟨p, hp, heq⟩ := List.exists_of_findSome?_eq_some hcut
    split at heq
    · cases heq
    · rw [cutPrefix_eq_some_iff.mp heq] at h
      exact ih ((List.mem_append.mp h).resolve_left (hc p hp))

/-- `strings.TrimSpace`. -/
def trimSpace (s : GoString) : GoString :=
  (trimPrefixes (spaces.map List.reverse) (trimPrefixes spaces s).reverse).reverse

/-- A byte that no space is made of is not trimmed away. -/
theorem mem_trimSpace {c : UInt8} (hc : ∀ p ∈ spaces, c ∉ p) {s : GoString} (h : c ∈ s) :
    c ∈ trimSpace s := by
  rw [trimSpace, List.mem_reverse]
  refine mem_trimPrefixes ?_ (List.mem_reverse.mpr (mem_trimPrefixes hc h))
  intro p hp
  obtain ⟨q, hq, rfl⟩ := List.mem_map.mp hp
  exact fun hmem => hc q hq (List.mem_reverse.mp hmem)

/-- `strings.ToLower` on ASCII. -/
def asciiLower (s : GoString) : GoString :=
  s.map fun b => if 'A'.toUInt8 ≤ b ∧ b ≤ 'Z'.toUInt8 then b + 0x20 else b

/-! ## Numbers -/

/-- The value of decimal digits behind those that gave `n`. -/
def digitsFrom (n : ℕ) : GoString → Option ℕ
  | [] => some n
  | b :: s =>
    if '0'.toUInt8 ≤ b ∧ b ≤ '9'.toUInt8 then digitsFrom (10 * n + (b.toNat - '0'.toNat)) s else none

/-- The value of a number without a sign. -/
def digits (s : GoString) : Option ℕ := if s = [] then none else digitsFrom 0 s

/-- `strconv.Atoi`, `none` for an error. The number has to fit 64 bits. -/
def atoi (s : GoString) : Option ℤ :=
  let n : Option ℤ :=
    match s with
    | [] => none
    | b :: t =>
      if b = '-'.toUInt8 then (digits t).map fun n => -(n : ℤ)
      else if b = '+'.toUInt8 then (digits t).map Int.ofNat
      else (digits s).map Int.ofNat
  n.filter fun n => -9223372036854775808 ≤ n ∧ n ≤ 9223372036854775807

/-! ## Hexadecimal digits -/

/-- The digit of a value below 16, in lower case. -/
def hexDigit (n : ℕ) : UInt8 := ("0123456789abcdef" : GoString).getD n 0

/-- The value of a digit in either case. -/
def unhex (b : UInt8) : Option ℕ :=
  if '0'.toUInt8 ≤ b ∧ b ≤ '9'.toUInt8 then some (b.toNat - '0'.toNat)
  else if 'a'.toUInt8 ≤ b ∧ b ≤ 'f'.toUInt8 then some (b.toNat - 'a'.toNat + 10)
  else if 'A'.toUInt8 ≤ b ∧ b ≤ 'F'.toUInt8 then some (b.toNat - 'A'.toNat + 10)
  else none

theorem unhex_hexDigit {n : ℕ} (h : n < 16) : unhex (hexDigit n) = some n := by
  have hall : ∀ n < 16, unhex (hexDigit n) = some n := by decide +kernel
  exact hall n h

end GoString
