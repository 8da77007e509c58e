import Yafu.Lib.Utf8

/-!
# Shell patterns: `filepath.Match` on a system whose separator is `/`

A pattern is cut into chunks, each one a row of stars and then literal bytes, `?` and character
classes. `matchChunk` matches one chunk against the front of a name; after a mismatch it keeps
reading the chunk, so that a syntax error is found whatever the name is (`matchPattern_error_iff`).
-/

namespace Glob

open Utf8 (Rune decodeRune runeError decodeRune_pos)

/-- `filepath.ErrBadPattern`, the only error of `filepath.Match`. -/
inductive PatternError
  | errBadPattern
deriving DecidableEq, Repr

/-- `filepath.Separator`. -/
abbrev separator : UInt8 := '/'.toUInt8

/-! ## `scanChunk` -/

/-- The loop over the leading stars: whether there is one, and what follows them. -/
def skipStars : GoString → Bool × GoString
  | [] => (false, [])
  | b :: p => if b = '*'.toUInt8 then (true, (skipStars p).2) else (false, b :: p)

/-- The loop to the next star outside a character class: the bytes before it and those from it.
`escaped` says that the byte before was a backslash, over which the loop steps together with the
byte it escapes. -/
def splitChunk (inRange escaped : Bool) : GoString → GoString × GoString
  | [] => ([], [])
  | b :: p =>
    if !escaped && !inRange && b == '*'.toUInt8 then ([], b :: p)
    else
      let inRange' := if escaped then inRange else
        b == '['.toUInt8 || (inRange && b != ']'.toUInt8)
      let s := splitChunk inRange' (!escaped && b == '\\'.toUInt8) p
      (b :: s.1, s.2)

/-- One chunk: whether stars stand before it, its bytes, and the rest of the pattern. -/
structure Chunk where
  star : Bool
  chunk : GoString
  rest : GoString

/-- `scanChunk`. -/
def scanChunk (pattern : GoString) : Chunk where
  star := (skipStars pattern).1
  chunk := (splitChunk false false (skipStars pattern).2).1
  rest := (splitChunk false false (skipStars pattern).2).2

theorem length_skipStars (p : GoString) : (skipStars p).2.length ≤ p.length := by
  induction p with
  | nil => simp [skipStars]
  | cons b p ih =>
    rw [skipStars]
    split
    · exact Nat.le_succ_of_le ih
    · exact Nat.le_refl _

/-- What is left after the stars does not start with one. -/
theorem head_skipStars (p : GoString) : (skipStars p).2.head? ≠ some '*'.toUInt8 := by
  induction p with
  | nil => simp [skipStars]
  | cons b p ih =>
    rw [skipStars]
    split
    · exact ih
    · rename_i hb
      simpa using hb

theorem length_splitChunk (i e : Bool) (p : GoString) : (splitChunk i e p).2.length ≤ p.length := by
  induction p generalizing i e with
  | nil => simp [splitChunk]
  | cons b p ih =>
    rw [splitChunk]
    split
    · exact Nat.le_refl _
    · exact Nat.le_succ_of_le (ih _ _)

/-- Outside a class a chunk takes the first byte, unless that is a star. -/
theorem splitChunk_cons {b : UInt8} (hb : b ≠ '*'.toUInt8) (p : GoString) :
    ∃ i e, splitChunk false false (b :: p) = (b :: (splitChunk i e p).1, (splitChunk i e p).2) := by
  rw [splitChunk, if_neg (by simpa using hb)]
  exact ⟨_, _, rfl⟩

/-- An empty chunk is the last one. -/
theorem rest_eq_nil {p : GoString} (h : (scanChunk p).chunk = []) : (scanChunk p).rest = [] := by
  simp only [scanChunk] at h ⊢
  cases hp : (skipStars p).2 with
  | nil => simp [splitChunk]
  | cons b q =>
    have hb : b ≠ '*'.toUInt8 := by simpa [hp] using head_skipStars p
    obtain ⟨i, e, hs⟩ := splitChunk_cons hb q
    rw [hp, hs] at h
    simp at h

/-- Each round of the loop over a pattern uses up a part of it. -/
theorem length_rest_lt {p : GoString} (hp : p ≠ []) : (scanChunk p).rest.length < p.length := by
  obtain ⟨b, p, rfl⟩ := List.exists_cons_of_ne_nil hp
  by_cases hb : b = '*'.toUInt8
  · have hstars := length_skipStars p
    have hsplit := length_splitChunk false false (skipStars p).2
    simp only [scanChunk, skipStars, if_pos hb, List.length_cons]
    omega
  · obtain ⟨i, e, hs⟩ := splitChunk_cons hb p
    have hsplit := length_splitChunk i e p
    simp only [scanChunk, skipStars, if_neg hb, hs, List.length_cons]
    omega

/-! ## `matchChunk` -/

/-- `getEsc`: one possibly escaped rune of a character class, after which the class goes on. -/
def getEsc (chunk : GoString) : Except PatternError (Rune × GoString) :=
  match chunk with
  | [] => .error .errBadPattern
  | b :: p =>
    if b = '-'.toUInt8 ∨ b = ']'.toUInt8 then .error .errBadPattern
    else
      let c := if b = '\\'.toUInt8 then p else chunk
      if c = [] then .error .errBadPattern
      else
        let r := decodeRune c
        if r = (runeError, 1) ∨ c.drop r.2 = [] then .error .errBadPattern
        else .ok (r.1, c.drop r.2)

theorem length_getEsc {chunk p : GoString} {r : Rune} (h : getEsc chunk = .ok (r, p)) :
    p.length < chunk.length := by
  cases chunk with
  | nil => simp [getEsc] at h
  | cons b q =>
    simp only [getEsc] at h
    split_ifs at h with _ _ hc _ hc
    all_goals
      simp only [Except.ok.injEq, Prod.mk.injEq] at h
      rw [← h.2, List.length_drop]
    · obtain ⟨d, q, rfl⟩ := List.exists_cons_of_ne_nil hc
      have hpos := decodeRune_pos d q
      simp only [List.length_cons]
      omega
    · have hpos := decodeRune_pos b q
      simp only [List.length_cons]
      omega

/-- One range of a class: `lo-hi`, or a single rune. -/
def nextRange (chunk : GoString) : Except PatternError ((Rune × Rune) × GoString) :=
  match getEsc chunk with
  | .error e => .error e
  | .ok (lo, p) =>
    if p.head? = some '-'.toUInt8 then
      match getEsc p.tail with
      | .error e => .error e
      | .ok (hi, q) => .ok ((lo, hi), q)
    else .ok ((lo, lo), p)

theorem length_nextRange {chunk p : GoString} {r : Rune × Rune}
    (h : nextRange chunk = .ok (r, p)) : p.length < chunk.length := by
  simp only [nextRange] at h
  split at h
  · simp at h
  rename_i lo p' h1
  have hlt := length_getEsc h1
  split_ifs at h
  · split at h
    · simp at h
    rename_i hi q h2
    have hlt' := length_getEsc h2
    rw [List.length_tail] at hlt'
    simp only [Except.ok.injEq, Prod.mk.injEq] at h
    rw [← h.2]
    omega
  · simp only [Except.ok.injEq, Prod.mk.injEq] at h
    rwa [← h.2]

/-- The loop over the ranges of a character class: whether `r` is in one of them, and what follows
the closing bracket, which counts as one only after the first range. -/
def classRanges (r : Rune) (matched : Bool) (nrange : ℕ) (chunk : GoString) :
    Except PatternError (Bool × GoString) :=
  if chunk.head? = some ']'.toUInt8 ∧ 0 < nrange then .ok (matched, chunk.tail)
  else
    match _h : nextRange chunk with
    | .error e => .error e
    | .ok ((lo, hi), p) => classRanges r (matched || (lo ≤ r && r ≤ hi)) (nrange + 1) p
termination_by chunk.length
decreasing_by exact length_nextRange _h

theorem length_classRanges {r : Rune} {m : Bool} {n : ℕ} {chunk p : GoString} {m' : Bool}
    (h : classRanges r m n chunk = .ok (m', p)) : p.length ≤ chunk.length := by
  fun_induction classRanges r m n chunk with
  | case1 m n chunk hend =>
    simp only [Except.ok.injEq, Prod.mk.injEq] at h
    rw [← h.2, List.length_tail]
    exact Nat.sub_le _ _
  | case2 => simp at h
  | case3 m n chunk hend lo hi p' h1 ih => exact Nat.le_trans (ih h) (Nat.le_of_lt (length_nextRange h1))

/-- How far a class reads, and whether it is well-formed, does not depend on the rune. -/
theorem classRanges_rest (r r' : Rune) (m m' : Bool) (n : ℕ) (chunk : GoString) :
    (classRanges r m n chunk).map Prod.snd = (classRanges r' m' n chunk).map Prod.snd := by
  fun_induction classRanges r m n chunk generalizing m' with
  | case1 m n chunk hend =>
    rw [classRanges, if_pos hend]
    rfl
  | case2 m n chunk hend e h1 =>
    rw [classRanges, if_neg hend]
    split <;> simp_all
  | case3 m n chunk hend lo hi p h1 ih =>
    rw [ih (m' || (lo ≤ r' && r' ≤ hi))]
    conv_rhs => rw [classRanges, if_neg hend]
    split <;> simp_all

/-- A character class after its opening bracket: whether it takes `r`, and what follows it. -/
def matchClass (r : Rune) (chunk : GoString) : Except PatternError (Bool × GoString) :=
  let negated := chunk.head? == some '^'.toUInt8
  match classRanges r false 0 (if negated then chunk.tail else chunk) with
  | .error e => .error e
  | .ok (matched, p) => .ok (matched != negated, p)

theorem length_matchClass {r : Rune} {chunk p : GoString} {m : Bool}
    (h : matchClass r chunk = .ok (m, p)) : p.length ≤ chunk.length := by
  simp only [matchClass] at h
  split at h
  · simp at h
  · rename_i m' q hq
    simp only [Except.ok.injEq, Prod.mk.injEq] at h
    have hle := length_classRanges hq
    rw [h.2] at hle
    split at hle
    · rw [List.length_tail] at hle
      omega
    · exact hle

/-- `matchChunk`. `s` is the name not yet matched, `none` once the match has failed; the result is
what is left of the name, `none` if the chunk does not match. -/
def matchChunk (chunk : GoString) (s : Option GoString) :
    Except PatternError (Option GoString) :=
  match chunk with
  | [] => .ok s
  | b :: p =>
    let s := s.filter (· ≠ [])
    if b = '['.toUInt8 then
      match _h : matchClass (s.elim 0 fun n => (decodeRune n).1) p with
      | .error e => .error e
      | .ok (matched, q) =>
        matchChunk q ((s.filter fun _ => matched).map fun n => n.drop (decodeRune n).2)
    else if b = '?'.toUInt8 then
      matchChunk p (s.bind fun n =>
        if n.head? = some separator then none else some (n.drop (decodeRune n).2))
    else if b = '\\'.toUInt8 then
      match p with
      | [] => .error .errBadPattern
      | c :: q => matchChunk q (s.bind fun n => if n.head? = some c then some n.tail else none)
    else matchChunk p (s.bind fun n => if n.head? = some b then some n.tail else none)
termination_by chunk.length
decreasing_by
  · exact Nat.lt_succ_of_le (length_matchClass _h)
  · simp
  · exact Nat.lt_succ_of_lt (Nat.lt_succ_self _)
  · simp

theorem matchClass_rest (r r' : Rune) (chunk : GoString) :
    (matchClass r chunk).map Prod.snd = (matchClass r' chunk).map Prod.snd := by
  have h := classRanges_rest r r' false false 0
    (if chunk.head? == some '^'.toUInt8 then chunk.tail else chunk)
  simp only [matchClass]
  cases h1 : classRanges r false 0 (if chunk.head? == some '^'.toUInt8 then chunk.tail else chunk) <;>
  cases h2 : classRanges r' false 0 (if chunk.head? == some '^'.toUInt8 then chunk.tail else chunk) <;>
  simp_all [Except.map]

/-- Whether a chunk is well-formed does not depend on the name. -/
theorem isOk_matchChunk (chunk : GoString) (s t : Option GoString) :
    (matchChunk chunk s).isOk = (matchChunk chunk t).isOk := by
  fun_induction matchChunk chunk s generalizing t with
  | case1 s => simp [matchChunk, Except.isOk, Except.toBool]
  | case2 s p s' e h =>
    have hrest := matchClass_rest (s'.elim 0 fun n => (decodeRune n).1)
      ((t.filter (· ≠ [])).elim 0 fun n => (decodeRune n).1) p
    rw [h] at hrest
    rw [matchChunk.eq_def]
    simp only [if_pos]
    split <;> simp_all [Except.map, Except.isOk, Except.toBool]
  | case3 s p s' m q h ih =>
    have hrest := matchClass_rest (s'.elim 0 fun n => (decodeRune n).1)
      ((t.filter (· ≠ [])).elim 0 fun n => (decodeRune n).1) p
    rw [h] at hrest
    rw [matchChunk.eq_def _ t]
    simp only [if_pos]
    split
    · rename_i e he
      rw [he] at hrest
      simp [Except.map] at hrest
    · rename_i m' q' hq
      rw [hq] at hrest
      have hqq : q = q' := by simpa [Except.map] using hrest
      rw [hqq] at ih ⊢
      exact ih _
  | case4 s p s' hb ih =>
    rw [matchChunk.eq_def _ t]
    simp only [if_neg hb, if_pos]
    exact ih _
  | case5 s hb hq =>
    rw [matchChunk.eq_def _ t]
    simp only [if_neg hb, if_neg hq, if_pos]
  | case6 s s' c q hb hq ih =>
    rw [matchChunk.eq_def _ t]
    simp only [if_neg hb, if_neg hq, if_pos]
    exact ih _
  | case7 s b p s' hb hq hesc ih =>
    rw [matchChunk.eq_def _ t]
    simp only [if_neg hb, if_neg hq, if_neg hesc]
    exact ih _

/-! ## `Match` -/

/-- The loop that lets the stars before `chunk` take more and more of `name`, but no separator. -/
def matchAfterStar (chunk : GoString) (isLast : Bool) : GoString →
    Except PatternError (Option GoString)
  | [] => .ok none
  | b :: name =>
    if b = separator then .ok none
    else
      match matchChunk chunk (some name) with
      | .error e => .error e
      | .ok none => matchAfterStar chunk isLast name
      | .ok (some t) =>
        if isLast ∧ t ≠ [] then matchAfterStar chunk isLast name else .ok (some t)

/-- The loop that reads the rest of the pattern for syntax errors only. -/
def checkSyntax (pattern : GoString) : Except PatternError Unit :=
  if _h : pattern = [] then .ok ()
  else
    match matchChunk (scanChunk pattern).chunk (some []) with
    | .error e => .error e
    | .ok _ => checkSyntax (scanChunk pattern).rest
termination_by pattern.length
decreasing_by exact length_rest_lt _h

/-- `filepath.Match`. -/
def matchPattern (pattern name : GoString) : Except PatternError Bool :=
  if _h : pattern = [] then .ok (name = [])
  else
    let c := scanChunk pattern
    if c.star ∧ c.chunk = [] then .ok (!name.contains separator)
    else
      match matchChunk c.chunk (some name) with
      | .error e => .error e
      | .ok here =>
        match here.filter fun t => t = [] ∨ c.rest ≠ [] with
        | some t => matchPattern c.rest t
        | none =>
          match if c.star then matchAfterStar c.chunk (c.rest = []) name else .ok none with
          | .error e => .error e
          | .ok (some t) => matchPattern c.rest t
          | .ok none => (checkSyntax c.rest).map fun _ => false
termination_by pattern.length
decreasing_by
  · exact length_rest_lt _h
  · exact length_rest_lt _h

theorem isOk_matchAfterStar {chunk : GoString} (h : (matchChunk chunk none).isOk) (isLast : Bool)
    (name : GoString) : (matchAfterStar chunk isLast name).isOk := by
  induction name with
  | nil => rfl
  | cons b name ih =>
    rw [matchAfterStar]
    have hok : (matchChunk chunk (some name)).isOk := (isOk_matchChunk chunk _ none).trans h
    split
    · rfl
    · cases hm : matchChunk chunk (some name) with
      | error e => simp [hm, Except.isOk, Except.toBool] at hok
      | ok t =>
        cases t with
        | none => exact ih
        | some t =>
          simp only
          split
          · exact ih
          · rfl

/-- A pattern is well-formed if its first chunk is and what follows the chunk is. -/
theorem isOk_checkSyntax {pattern : GoString} (hp : pattern ≠ []) (s : Option GoString) :
    (checkSyntax pattern).isOk =
      ((matchChunk (scanChunk pattern).chunk s).isOk && (checkSyntax (scanChunk pattern).rest).isOk) := by
  rw [checkSyntax, dif_neg hp, isOk_matchChunk _ s (some [])]
  split
  · rename_i e he
    simp [he, Except.isOk, Except.toBool]
  · rename_i t ht
    simp [ht, Except.isOk, Except.toBool]

/-- **Syntax errors do not depend on the name.** `Match` reports `ErrBadPattern` for exactly the
patterns in which some chunk is malformed. -/
theorem isOk_matchPattern (pattern name : GoString) :
    (matchPattern pattern name).isOk = (checkSyntax pattern).isOk := by
  fun_induction matchPattern pattern name with
  | case1 name =>
    rw [checkSyntax, dif_pos rfl]
    rfl
  | case2 pattern name hp c hstar =>
    have hchunk : (scanChunk pattern).chunk = [] := hstar.2
    rw [isOk_checkSyntax hp none, hchunk, rest_eq_nil hchunk, matchChunk, checkSyntax, dif_pos rfl]
    rfl
  | case3 pattern name hp c hstar e he =>
    rw [isOk_checkSyntax hp (some name), he]
    rfl
  | case4 pattern name hp c hstar here he t ht ih =>
    rw [isOk_checkSyntax hp (some name), he, ih]
    rfl
  | case5 pattern name hp c hstar here he ht e hs =>
    -- the chunk is well-formed, so trying it further on meets no error either
    have hok : (matchChunk c.chunk none).isOk := by
      rw [isOk_matchChunk _ none (some name), he]
      rfl
    have hskip := isOk_matchAfterStar hok (c.rest = []) name
    split at hs
    · rw [hs] at hskip
      cases hskip
    · cases hs
  | case6 pattern name hp c hstar here he ht t hs ih =>
    rw [isOk_checkSyntax hp (some name), he, ih]
    rfl
  | case7 pattern name hp c hstar here he ht hs =>
    rw [isOk_checkSyntax hp (some name), he]
    cases checkSyntax c.rest <;> rfl

/-- A pattern that no name makes `Match` refuse. -/
def WellFormed (pattern : GoString) : Prop := ∀ name, (matchPattern pattern name).isOk

theorem wellFormed_iff (pattern : GoString) : WellFormed pattern ↔ (checkSyntax pattern).isOk := by
  refine ⟨fun h => ?_, fun h name => (isOk_matchPattern pattern name).trans h⟩
  exact (isOk_matchPattern pattern []).symm.trans (h [])

instance (pattern : GoString) : Decidable (WellFormed pattern) :=
  decidable_of_iff _ (wellFormed_iff pattern).symm

end Glob
