import Yafu.Lib.Lines
import Yafu.Lib.Url

/-!
# Percent-encoding

How a browser writes text into a URL: `encodeURIComponent`, and `URLSearchParams` for a whole query.
A string is its UTF-8 encoding here. What is written so is read back by `net/url`, the text by
`unescape` and the query by `ParseQuery`.
-/

namespace PercentEncoding

open Url

/-- The digit of a value below 16, in upper case. -/
def upperHexDigit (n : ℕ) : UInt8 := ("0123456789ABCDEF" : GoString).getD n 0

/-- `%` and the two digits of a byte. -/
def escapeByte (b : UInt8) : GoString :=
  ['%'.toUInt8, upperHexDigit (b.toNat / 16), upperHexDigit (b.toNat % 16)]

/-- A string with its bytes escaped but for those that are kept. -/
def encode (keep : UInt8 → Bool) (s : GoString) : GoString :=
  s.flatMap fun b => if keep b then [b] else escapeByte b

/-- The bytes that `encodeURIComponent` keeps. -/
def unreserved (b : UInt8) : Bool :=
  isLetter b || isDigit b || ("-_.!~*'()" : GoString).contains b

/-- `encodeURIComponent`. -/
def encodeURIComponent (s : GoString) : GoString := encode unreserved s

/-- The bytes that a form keeps. -/
def formSafe (b : UInt8) : Bool := isLetter b || isDigit b || ("*-._" : GoString).contains b

/-- A byte of a name or a value in a form. -/
def formByte (b : UInt8) : GoString :=
  if b = ' '.toUInt8 then ['+'.toUInt8] else if formSafe b then [b] else escapeByte b

/-- A name or a value in a form. -/
def formEncode (s : GoString) : GoString := s.flatMap formByte

/-- One pair of a form. -/
def formPair (p : GoString × GoString) : GoString := formEncode p.1 ++ '='.toUInt8 :: formEncode p.2

/-- `URLSearchParams.toString`. -/
def serialize (params : List (GoString × GoString)) : GoString :=
  GoString.joinLines '&'.toUInt8 (params.map formPair)

/-! ## One byte -/

theorem unhex_upperHexDigit {n : ℕ} (h : n < 16) : GoString.unhex (upperHexDigit n) = some n := by
  have hall : ∀ n < 16, GoString.unhex (upperHexDigit n) = some n := by decide +kernel
  exact hall n h

/-- The digits are what a form keeps, too. -/
theorem formSafe_upperHexDigit {n : ℕ} (h : n < 16) : formSafe (upperHexDigit n) = true := by
  have hall : ∀ n < 16, formSafe (upperHexDigit n) = true := by decide +kernel
  exact hall n h

section Unescape

variable {mode : Encoding} (hhost : mode ≠ .host) (hzone : mode ≠ .zone)

include hhost hzone

theorem unescape_escapeByte (b : UInt8) (s : GoString) :
    unescape mode (escapeByte b ++ s) = (unescape mode s).map (b :: ·) := by
  have hlt := b.toNat_lt
  have hbyte : unescapeByte mode (upperHexDigit (b.toNat / 16)) (upperHexDigit (b.toNat % 16)) =
      some b := by
    unfold unescapeByte
    rw [unhex_upperHexDigit (by omega), unhex_upperHexDigit (by omega)]
    simp only [hhost, hzone, false_and, if_false, Option.some.injEq]
    exact (congrArg UInt8.ofNat (Nat.div_add_mod' _ _)).trans UInt8.ofNat_toNat
  show unescape mode ('%'.toUInt8 :: upperHexDigit _ :: upperHexDigit _ :: s) = _
  rw [unescape.eq_def]
  simp only [if_true, hbyte, Option.bind_eq_bind, Option.bind_some]
  cases unescape mode s <;> rfl

theorem unescape_cons {b : UInt8} (hpercent : b ≠ '%'.toUInt8)
    (hplus : b = '+'.toUInt8 → mode ≠ .queryComponent) (s : GoString) :
    unescape mode (b :: s) = (unescape mode s).map (b :: ·) := by
  have hkept : ¬ (b = '+'.toUInt8 ∧ mode = .queryComponent) := fun h => hplus h.1 h.2
  rw [unescape.eq_def]
  simp only [if_neg hpercent, if_neg hkept, hhost, hzone, or_self, false_and, if_false]

omit hhost hzone in
/-- What is right byte by byte is right for the string. -/
theorem unescape_flatMap {f : UInt8 → GoString}
    (hf : ∀ b s, unescape mode (f b ++ s) = (unescape mode s).map (b :: ·)) :
    ∀ s, unescape mode (s.flatMap f) = some s
  | [] => rfl
  | b :: s => by
    rw [List.flatMap_cons, hf, unescape_flatMap hf s]
    rfl

/-- An encoding that keeps neither `%` nor `+` is undone. -/
theorem unescape_encode {keep : UInt8 → Bool} (hpercent : keep '%'.toUInt8 = false)
    (hplus : keep '+'.toUInt8 = false) (s : GoString) : unescape mode (encode keep s) = some s := by
  refine unescape_flatMap (fun b s => ?_) s
  split_ifs with hkeep
  · refine unescape_cons hhost hzone (fun h => ?_) (fun h => ?_) s
    · rw [h, hpercent] at hkeep
      cases hkeep
    · rw [h, hplus] at hkeep
      cases hkeep
  · exact unescape_escapeByte hhost hzone b s

end Unescape

theorem unescape_path_cons {b : UInt8} (hpercent : b ≠ '%'.toUInt8) (s : GoString) :
    unescape .path (b :: s) = (unescape .path s).map (b :: ·) := by
  have hhost : Encoding.path ≠ .host := nofun
  have hzone : Encoding.path ≠ .zone := nofun
  exact unescape_cons hhost hzone hpercent nofun s

/-- What is unescaped in full is unescaped alone. -/
theorem unescape_path_append {s v : GoString} (h : unescape .path s = some v) (t : GoString) :
    unescape .path (s ++ t) = (unescape .path t).map (v ++ ·) := by
  induction hn : s.length using Nat.strong_induction_on generalizing s v with
  | _ n ih =>
    subst hn
    rcases s with _ | ⟨b, s⟩
    · obtain rfl := Option.some.inj h
      simp
    by_cases hb : b = '%'.toUInt8
    · -- an escape takes three bytes
      rcases s with _ | ⟨x, _ | ⟨y, s⟩⟩
      · simp [unescape, hb] at h
      · simp [unescape, hb] at h
      · rw [unescape.eq_def] at h
        simp only [if_pos hb, Option.bind_eq_bind, Option.bind_eq_some_iff, Option.some.injEq] at h
        obtain ⟨c, hbyte, v', hrest, rfl⟩ := h
        have hlt : s.length < (b :: x :: y :: s).length := by
          simp only [List.length_cons]
          omega
        rw [List.cons_append, List.cons_append, List.cons_append, unescape.eq_def]
        simp only [if_pos hb, hbyte, Option.bind_eq_bind, Option.bind_some, ih _ hlt hrest rfl]
        cases unescape .path t <;> rfl
    · rw [unescape_path_cons hb] at h
      obtain ⟨v', hrest, rfl⟩ := Option.map_eq_some_iff.mp h
      rw [List.cons_append, unescape_path_cons hb, ih _ (Nat.lt_succ_self _) hrest rfl,
        Option.map_map]
      rfl

theorem unescape_eq_nil_iff {mode : Encoding} {s v : GoString} (h : unescape mode s = some v) :
    v = [] ↔ s = [] := by
  constructor
  · rintro rfl
    rcases s with _ | ⟨b, s⟩
    · rfl
    rw [unescape.eq_def] at h
    simp only at h
    split_ifs at h
    · rcases s with _ | ⟨x, _ | ⟨y, s⟩⟩
      · cases h
      · cases h
      · simp [Option.bind_eq_some_iff] at h
    · simp at h
    · simp at h
  · rintro rfl
    exact (Option.some.inj h).symm

/-- A name or a value of a form is read back. -/
theorem unescape_formEncode (s : GoString) : unescape .queryComponent (formEncode s) = some s := by
  have hhost : Encoding.queryComponent ≠ .host := nofun
  have hzone : Encoding.queryComponent ≠ .zone := nofun
  refine unescape_flatMap (fun b s => ?_) s
  unfold formByte
  split_ifs with hspace hsafe
  · subst hspace
    rw [List.singleton_append, unescape.eq_def]
    rfl
  · refine unescape_cons hhost hzone (fun h => ?_) (fun h => ?_) s
    · exact absurd (h ▸ hsafe) (by decide)
    · exact absurd (h ▸ hsafe) (by decide)
  · exact unescape_escapeByte hhost hzone b s

/-! ## Queries -/

/-- A separator that the digits are not, that is no `%` and that is escaped, does not come up. -/
theorem notMem_encode {keep : UInt8 → Bool} {c : UInt8} (hkeep : keep c = false)
    (hpercent : c ≠ '%'.toUInt8) (hdigit : formSafe c = false) (s : GoString) : c ∉ encode keep s := by
  intro hmem
  obtain ⟨b, -, hb⟩ := List.mem_flatMap.mp hmem
  have hlt := b.toNat_lt
  have hne : ∀ n < 16, c ≠ upperHexDigit n := fun n hn heq => by
    rw [heq, formSafe_upperHexDigit hn] at hdigit
    cases hdigit
  split_ifs at hb with hkept
  · rw [List.mem_singleton.mp hb, hkept] at hkeep
    cases hkeep
  · simp only [escapeByte, List.mem_cons, List.not_mem_nil, or_false] at hb
    rcases hb with h | h | h
    · exact hpercent h
    · exact hne _ (by omega) h
    · exact hne _ (by omega) h

/-- No byte of an encoded name or value ends it. -/
theorem notMem_formEncode {c : UInt8} (hsafe : formSafe c = false) (hpercent : c ≠ '%'.toUInt8)
    (hplus : c ≠ '+'.toUInt8) (s : GoString) : c ∉ formEncode s := by
  intro hmem
  obtain ⟨b, -, hb⟩ := List.mem_flatMap.mp hmem
  unfold formByte at hb
  split_ifs at hb with hspace hkept
  · exact hplus (List.mem_singleton.mp hb)
  · rw [List.mem_singleton.mp hb, hkept] at hsafe
    cases hsafe
  · have hescaped : c ∈ encode (fun _ => false) [b] :=
      List.mem_flatMap.mpr ⟨b, List.mem_singleton_self b, hb⟩
    exact notMem_encode rfl hpercent hsafe [b] hescaped

/-- A name and a value as a query has them. -/
structure WrittenPair (name value : GoString) (p : GoString × GoString) : Prop where
  readName : unescape .queryComponent name = some p.1
  readValue : unescape .queryComponent value = some p.2
  equals : '='.toUInt8 ∉ name
  plain : '&'.toUInt8 ∉ name ++ value ∧ ';'.toUInt8 ∉ name ++ value

/-- A query is read pair by pair. -/
theorem parseQuery_pairs {params : List (GoString × GoString)}
    (name value : GoString × GoString → GoString)
    (h : ∀ p ∈ params, WrittenPair (name p) (value p) p) :
    parseQuery (GoString.joinLines '&'.toUInt8
      (params.map fun p => name p ++ '='.toUInt8 :: value p)) = params := by
  rcases params with _ | ⟨p, ps⟩
  · rfl
  have hplain : ∀ {c : UInt8} {q : GoString × GoString}, c ≠ '='.toUInt8 → c ∉ name q ++ value q →
      c ∉ name q ++ '='.toUInt8 :: value q := by
    intro c q hc hnot hmem
    rw [List.mem_append, List.mem_cons] at hmem
    rw [List.mem_append, not_or] at hnot
    rcases hmem with hmem | hmem | hmem
    · exact hnot.1 hmem
    · exact hc hmem
    · exact hnot.2 hmem
  unfold parseQuery
  rw [GoString.split_joinLines (by simp) fun l hl => ?_, List.filterMap_map]
  · conv_rhs => rw [← List.filterMap_some (l := p :: ps)]
    refine List.filterMap_congr fun q hq => ?_
    have hne : name q ++ '='.toUInt8 :: value q ≠ [] :=
      List.append_ne_nil_of_right_ne_nil _ (List.cons_ne_nil _ _)
    have hsemi := hplain (by decide) (h q hq).plain.2
    simp only [Function.comp_apply, hne, hsemi, or_self, if_false,
      GoString.cut_append (h q hq).equals, Option.getD_some, (h q hq).readName, (h q hq).readValue]
  · obtain ⟨q, hq, rfl⟩ := List.mem_map.mp hl
    exact hplain (by decide) (h q hq).plain.1

/-- A form is read back. -/
theorem parseQuery_serialize (params : List (GoString × GoString)) :
    parseQuery (serialize params) = params := by
  refine parseQuery_pairs (fun p => formEncode p.1) (fun p => formEncode p.2) fun p _ => ?_
  have hplain : ∀ {c : UInt8}, formSafe c = false → c ≠ '%'.toUInt8 → c ≠ '+'.toUInt8 →
      c ∉ formEncode p.1 ++ formEncode p.2 := by
    intro c hsafe hpercent hplus hmem
    rcases List.mem_append.mp hmem with h | h
    · exact notMem_formEncode hsafe hpercent hplus p.1 h
    · exact notMem_formEncode hsafe hpercent hplus p.2 h
  exact
    { readName := unescape_formEncode p.1
      readValue := unescape_formEncode p.2
      equals := notMem_formEncode (by decide) (by decide) (by decide) p.1
      plain := ⟨hplain (by decide) (by decide) (by decide), hplain (by decide) (by decide) (by decide)⟩ }

/-! ## Encoding twice -/

/-- What is escaped once is kept, so escaping again escapes what is left. -/
theorem encode_encode {keep keep' : UInt8 → Bool} (hpercent : keep' '%'.toUInt8 = true)
    (hdigit : ∀ n < 16, keep' (upperHexDigit n) = true) (s : GoString) :
    encode keep' (encode keep s) = encode (fun b => keep b && keep' b) s := by
  unfold encode
  rw [List.flatMap_assoc]
  refine List.flatMap_congr fun b _ => ?_
  have hlt := b.toNat_lt
  by_cases hkeep : keep b
  · simp only [hkeep, if_true, Bool.true_and, List.flatMap_singleton]
  · simp only [hkeep, Bool.false_eq_true, if_false, Bool.false_and, escapeByte, List.flatMap_cons,
      List.flatMap_nil, hpercent, hdigit _ (show b.toNat / 16 < 16 by omega),
      hdigit _ (show b.toNat % 16 < 16 by omega), if_true, List.append_nil, List.singleton_append]

end PercentEncoding
