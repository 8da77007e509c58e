import Yafu.Lib.Utf8

/-!
# JSON text

`encoding/json`: how a string is written (`quote`, HTML characters escaped as `Marshal` does), and
how a document is read. `parse` accepts what the scanner accepts and answers with the strings
unquoted; an object keeps its members in the order of the text, repeated names included.

What is written is read back up to `Utf8.coerce` (`parse_marshalObject`).
-/

namespace Json

open Utf8
open GoString (hexDigit unhex unhex_hexDigit)

/-! ## Writing -/

/-- The `htmlSafeSet` of the ASCII bytes that stand for themselves. -/
def htmlSafe (b : UInt8) : Bool :=
  0x20 ≤ b && b ≠ '"'.toUInt8 && b ≠ '\\'.toUInt8 && b ≠ '<'.toUInt8 && b ≠ '>'.toUInt8 &&
    b ≠ '&'.toUInt8

/-- An ASCII byte as `appendString` writes it. -/
def quoteByte (b : UInt8) : GoString :=
  if htmlSafe b then [b]
  else if b = '\\'.toUInt8 ∨ b = '"'.toUInt8 then ['\\'.toUInt8, b]
  else if b = 0x08 then "\\b"
  else if b = 0x0C then "\\f"
  else if b = '\n'.toUInt8 then "\\n"
  else if b = '\r'.toUInt8 then "\\r"
  else if b = '\t'.toUInt8 then "\\t"
  else ("\\u00" : GoString) ++ [hexDigit (b.toNat / 16), hexDigit (b.toNat % 16)]

/-- The runes of a string as `appendString` writes them between the quotes. -/
def quoteRunes : GoString → GoString
  | [] => []
  | b :: s =>
    if b < 0x80 then quoteByte b ++ quoteRunes s
    else
      have := decodeRune_pos b s
      (if Broken (b :: s) then ("\\ufffd" : GoString)
        else if (decodeRune (b :: s)).1 = 0x2028 ∨ (decodeRune (b :: s)).1 = 0x2029 then
          ("\\u202" : GoString) ++ [hexDigit ((decodeRune (b :: s)).1 % 16)]
        else (b :: s).take (decodeRune (b :: s)).2) ++
        quoteRunes ((b :: s).drop (decodeRune (b :: s)).2)
termination_by s => s.length
decreasing_by
  · exact Nat.lt_succ_self _
  · rw [List.length_drop, List.length_cons]
    exact Nat.sub_lt (Nat.succ_pos _) this

/-- A string as `Marshal` writes it. -/
def quote (s : GoString) : GoString := '"'.toUInt8 :: (quoteRunes s ++ ['"'.toUInt8])

/-- The members of an object with string values, with what stands between them. -/
def marshalMembers : List (GoString × GoString) → GoString
  | [] => []
  | [(k, v)] => quote k ++ ':'.toUInt8 :: quote v
  | (k, v) :: m :: ms =>
    quote k ++ ':'.toUInt8 :: (quote v ++ ','.toUInt8 :: marshalMembers (m :: ms))

/-- A struct of string fields as `Marshal` writes it. -/
def marshalObject (ms : List (GoString × GoString)) : GoString :=
  '{'.toUInt8 :: (marshalMembers ms ++ ['}'.toUInt8])

/-! ## Reading -/

/-- A parsed document; a number is kept as its text. -/
inductive Value
  | null
  | bool (b : Bool)
  | number (literal : GoString)
  | string (s : GoString)
  | array (elems : List Value)
  | object (members : List (GoString × Value))

/-- The four digits behind `\u`. -/
def hex4 : GoString → Option (ℕ × GoString)
  | a :: b :: c :: d :: s => do
    let a ← unhex a
    let b ← unhex b
    let c ← unhex c
    let d ← unhex d
    some (a * 0x1000 + b * 0x100 + c * 0x10 + d, s)
  | _ => none

/-- `getu4` at the start of a string. -/
def getu4 : GoString → Option (ℕ × GoString)
  | b :: c :: s => if b = '\\'.toUInt8 ∧ c = 'u'.toUInt8 then hex4 s else none
  | _ => none

/-- `utf16.IsSurrogate`. -/
def IsSurrogate (r : ℕ) : Prop := 0xD800 ≤ r ∧ r < 0xE000

instance (r : ℕ) : Decidable (IsSurrogate r) := inferInstanceAs (Decidable (_ ∧ _))

/-- The rune of an escape `\u` with code unit `r`, and what is left of the string behind it: a low
surrogate that follows a high one belongs to it. -/
def unescapeUnit (r : ℕ) (s : GoString) : Rune × GoString :=
  if IsSurrogate r then
    match getu4 s with
    | some (r', s') =>
      if r < 0xDC00 ∧ 0xDC00 ≤ r' ∧ r' < 0xE000 then
        ((r - 0xD800) * 0x400 + (r' - 0xDC00) + 0x10000, s')
      else (runeError, s)
    | none => (runeError, s)
  else (r, s)

/-- The byte of an escape of one letter. -/
def unescapeLetter (b : UInt8) : Option UInt8 :=
  if b = '"'.toUInt8 ∨ b = '\\'.toUInt8 ∨ b = '/'.toUInt8 then some b
  else if b = 'b'.toUInt8 then some 0x08
  else if b = 'f'.toUInt8 then some 0x0C
  else if b = 'n'.toUInt8 then some '\n'.toUInt8
  else if b = 'r'.toUInt8 then some '\r'.toUInt8
  else if b = 't'.toUInt8 then some '\t'.toUInt8
  else none

theorem length_of_hex4 {s t : GoString} {r : ℕ} (h : hex4 s = some (r, t)) :
    t.length < s.length := by
  rcases s with _ | ⟨a, _ | ⟨b, _ | ⟨c, _ | ⟨d, s⟩⟩⟩⟩ <;> simp only [hex4, reduceCtorEq] at h
  simp only [Option.bind_eq_bind, Option.bind_eq_some_iff, Option.some.injEq, Prod.mk.injEq] at h
  obtain ⟨-, -, -, -, -, -, -, -, -, rfl⟩ := h
  simp only [List.length_cons]
  omega

theorem length_unescapeUnit_le (r : ℕ) (s : GoString) : (unescapeUnit r s).2.length ≤ s.length := by
  simp only [unescapeUnit]
  split_ifs
  · split
    · rename_i r' s' h
      rcases s with _ | ⟨b, _ | ⟨c, s⟩⟩ <;> simp only [getu4, reduceCtorEq] at h
      split_ifs at h
      have hlen := length_of_hex4 h
      split_ifs <;> simp only [List.length_cons] <;> omega
    · exact Nat.le_refl _
  · exact Nat.le_refl _

/-- The string up to the closing quote, unquoted, and what follows the quote. -/
def scanString : GoString → Option (GoString × GoString)
  | [] => none
  | b :: s =>
    if b = '"'.toUInt8 then some ([], s)
    else if b = '\\'.toUInt8 then
      match s with
      | [] => none
      | c :: s =>
        if c = 'u'.toUInt8 then
          match _h : hex4 s with
          | none => none
          | some (r, s') =>
            have := length_unescapeUnit_le r s'
            (scanString (unescapeUnit r s').2).map fun p =>
              (encodeRune (unescapeUnit r s').1 ++ p.1, p.2)
        else
          match unescapeLetter c with
          | none => none
          | some e => (scanString s).map fun p => (e :: p.1, p.2)
    else if b < 0x20 then none
    else if Broken (b :: s) then (scanString s).map fun p => (replacement ++ p.1, p.2)
    else
      have := decodeRune_pos b s
      (scanString ((b :: s).drop (decodeRune (b :: s)).2)).map fun p =>
        ((b :: s).take (decodeRune (b :: s)).2 ++ p.1, p.2)
termination_by s => s.length
decreasing_by
  · have hlen := length_of_hex4 _h
    exact Nat.lt_of_le_of_lt this (Nat.lt_succ_of_lt (Nat.lt_succ_of_lt hlen))
  · exact Nat.lt_succ_of_lt (Nat.lt_succ_self _)
  · exact Nat.lt_succ_self _
  · rw [List.length_drop, List.length_cons]
    exact Nat.sub_lt (Nat.succ_pos _) this

/-- JSON white space. -/
def skipSpace (s : GoString) : GoString :=
  s.dropWhile fun b => b = ' '.toUInt8 ∨ b = '\t'.toUInt8 ∨ b = '\r'.toUInt8 ∨ b = '\n'.toUInt8

def isDigit (b : UInt8) : Bool := '0'.toUInt8 ≤ b && b ≤ '9'.toUInt8

/-- One digit or more. -/
def scanDigits (s : GoString) : Option (GoString × GoString) :=
  if s.takeWhile isDigit = [] then none else some (s.takeWhile isDigit, s.dropWhile isDigit)

/-- The integer part of a number: no zero in front of other digits. -/
def scanInteger : GoString → Option (GoString × GoString)
  | [] => none
  | b :: s => if b = '0'.toUInt8 then some ([b], s) else scanDigits (b :: s)

/-- The fraction of a number, if there is one. -/
def scanFraction : GoString → Option (GoString × GoString)
  | [] => some ([], [])
  | b :: s =>
    if b = '.'.toUInt8 then (scanDigits s).map fun p => (b :: p.1, p.2) else some ([], b :: s)

/-- The exponent of a number, if there is one. -/
def scanExponent : GoString → Option (GoString × GoString)
  | [] => some ([], [])
  | b :: s =>
    if b = 'e'.toUInt8 ∨ b = 'E'.toUInt8 then
      match s with
      | [] => none
      | c :: t =>
        if c = '+'.toUInt8 ∨ c = '-'.toUInt8 then
          (scanDigits t).map fun p => (b :: c :: p.1, p.2)
        else (scanDigits (c :: t)).map fun p => (b :: p.1, p.2)
    else some ([], b :: s)

/-- A number and what follows it. -/
def scanNumber (s : GoString) : Option (GoString × GoString) := do
  let sign := if s.head? = some '-'.toUInt8 then s.take 1 else []
  let (int, s) ← scanInteger (s.drop sign.length)
  let (frac, s) ← scanFraction s
  let (exp, s) ← scanExponent s
  some (sign ++ int ++ frac ++ exp, s)

/-- `null`, `true`, `false` or a number. -/
def scanLiteral (s : GoString) : Option (Value × GoString) :=
  match s.cutPrefix "null", s.cutPrefix "true", s.cutPrefix "false" with
  | some t, _, _ => some (.null, t)
  | _, some t, _ => some (.bool true, t)
  | _, _, some t => some (.bool false, t)
  | _, _, _ => (scanNumber s).map fun p => (.number p.1, p.2)

mutual

/-- A value and what follows it; `d` is how much deeper the nesting may go. -/
def parseValue : ℕ → ℕ → GoString → Option (Value × GoString)
  | 0, _, _ => none
  | n + 1, d, s =>
    match skipSpace s with
    | [] => none
    | b :: s =>
      if b = '"'.toUInt8 then (scanString s).map fun p => (.string p.1, p.2)
      else if b = '\x7b'.toUInt8 then
        match d with
        | 0 => none
        | d + 1 =>
          match skipSpace s with
          | [] => none
          | c :: t =>
            if c = '\x7d'.toUInt8 then some (.object [], t)
            else (parseMembers n d (c :: t)).map fun p => (.object p.1, p.2)
      else if b = '['.toUInt8 then
        match d with
        | 0 => none
        | d + 1 =>
          match skipSpace s with
          | [] => none
          | c :: t =>
            if c = ']'.toUInt8 then some (.array [], t)
            else (parseElements n d (c :: t)).map fun p => (.array p.1, p.2)
      else scanLiteral (b :: s)

/-- The members of an object from the quote of a name on. -/
def parseMembers : ℕ → ℕ → GoString → Option (List (GoString × Value) × GoString)
  | 0, _, _ => none
  | n + 1, d, s =>
    match skipSpace s with
    | [] => none
    | b :: s =>
      if b = '"'.toUInt8 then
        match scanString s with
        | none => none
        | some (k, s) =>
          match skipSpace s with
          | [] => none
          | b :: s =>
            if b = ':'.toUInt8 then
              match parseValue n d s with
              | none => none
              | some (v, s) =>
                match skipSpace s with
                | [] => none
                | b :: s =>
                  if b = ','.toUInt8 then
                    (parseMembers n d s).map fun p => ((k, v) :: p.1, p.2)
                  else if b = '\x7d'.toUInt8 then some ([(k, v)], s)
                  else none
            else none
      else none

/-- The elements of an array. -/
def parseElements : ℕ → ℕ → GoString → Option (List Value × GoString)
  | 0, _, _ => none
  | n + 1, d, s =>
    match parseValue n d s with
    | none => none
    | some (v, s) =>
      match skipSpace s with
      | [] => none
      | b :: s =>
        if b = ','.toUInt8 then (parseElements n d s).map fun p => (v :: p.1, p.2)
        else if b = ']'.toUInt8 then some ([v], s)
        else none

end

/-- `maxNestingDepth`. -/
def maxNestingDepth : ℕ := 10000

/-- A document; each call reads a byte at least, so that its length bounds the calls. -/
def parse (s : GoString) : Option Value :=
  match parseValue (s.length + 1) maxNestingDepth s with
  | some (v, t) => if skipSpace t = [] then some v else none
  | none => none

/-! ## What is written is read back -/

/-- A byte that needs no escape is taken over. -/
theorem scanString_safe {b : UInt8} (hb : b < 0x80) (hsafe : htmlSafe b = true) (s : GoString) :
    scanString (b :: s) = (scanString s).map fun p => (b :: p.1, p.2) := by
  simp only [htmlSafe, Bool.and_eq_true, decide_eq_true_eq] at hsafe
  obtain ⟨⟨⟨⟨⟨hspace, hquote⟩, hback⟩, -⟩, -⟩, -⟩ := hsafe
  have hdec : decodeRune (b :: s) = (b.toNat, 1) := by simp only [decodeRune]; rw [if_pos hb]
  rw [scanString.eq_def]
  simp only [if_neg hquote, if_neg hback, if_neg (UInt8.not_lt.mpr hspace),
    if_neg (not_broken_ascii hb), hdec]
  rfl

/-- A rune beyond ASCII is taken over. -/
theorem scanString_rune {b : UInt8} {r : Rune} {u : GoString} (hb : 0x80 ≤ b) (hu : u ≠ [])
    (h : ∀ w, decodeRune (b :: (u ++ w)) = (r, u.length + 1)) (v : GoString) :
    scanString (b :: (u ++ v)) = (scanString v).map fun p => (b :: u ++ p.1, p.2) := by
  have hne : ∀ c < (0x80 : UInt8), b ≠ c := fun c hc heq => UInt8.not_lt.mpr hb (heq ▸ hc)
  have hspace : ¬ b < 0x20 := UInt8.not_lt.mpr (UInt8.le_trans (by decide) hb)
  rw [scanString.eq_def]
  simp only [if_neg (hne '"'.toUInt8 (by decide)), if_neg (hne '\\'.toUInt8 (by decide)),
    if_neg hspace, if_neg (not_broken_rune hu h v), h v, List.take_succ_cons, List.take_left',
    List.drop_succ_cons, List.drop_left']

/-- An escape `\u` that is not a surrogate stands for its rune. -/
theorem scanString_unit {r : ℕ} {u s : GoString} (hu : hex4 u = some (r, s)) (hr : ¬ IsSurrogate r) :
    scanString ('\\'.toUInt8 :: 'u'.toUInt8 :: u) =
      (scanString s).map fun p => (encodeRune r ++ p.1, p.2) := by
  have hunit : unescapeUnit r s = (r, s) := if_neg hr
  rw [scanString.eq_def]
  have hquote : '\\'.toUInt8 ≠ '"'.toUInt8 := by decide
  simp only [if_neg hquote, if_true]
  split
  · rename_i hnone
    rw [hu] at hnone
    cases hnone
  · rename_i r' s' hsome
    rw [hu, Option.some.injEq, Prod.mk.injEq] at hsome
    obtain ⟨rfl, rfl⟩ := hsome
    rw [hunit]

/-- An escape of one letter. -/
theorem scanString_letter {c e : UInt8} (hc : c ≠ 'u'.toUInt8) (he : unescapeLetter c = some e)
    (s : GoString) :
    scanString ('\\'.toUInt8 :: c :: s) = (scanString s).map fun p => (e :: p.1, p.2) := by
  rw [scanString.eq_def]
  have hquote : '\\'.toUInt8 ≠ '"'.toUInt8 := by decide
  simp only [if_neg hquote, if_true, if_neg hc]
  split
  · rename_i hnone
    rw [he] at hnone
    cases hnone
  · rename_i e' hsome
    rw [he, Option.some.injEq] at hsome
    rw [hsome]

/-- Every ASCII byte is read back from what it is written as. -/
theorem scanString_quoteByte {b : UInt8} (hb : b < 0x80) (s : GoString) :
    scanString (quoteByte b ++ s) = (scanString s).map fun p => (b :: p.1, p.2) := by
  unfold quoteByte
  split_ifs with hsafe hpunct h8 hC hn hr ht
  · exact scanString_safe hb hsafe s
  · have hne : b ≠ 'u'.toUInt8 := by rcases hpunct with rfl | rfl <;> decide
    have hletter : unescapeLetter b = some b := by rcases hpunct with rfl | rfl <;> decide
    exact scanString_letter hne hletter s
  · rw [h8]
    exact scanString_letter (c := 'b'.toUInt8) (by decide) (by decide) s
  · rw [hC]
    exact scanString_letter (c := 'f'.toUInt8) (by decide) (by decide) s
  · rw [hn]
    exact scanString_letter (c := 'n'.toUInt8) (by decide) (by decide) s
  · rw [hr]
    exact scanString_letter (c := 'r'.toUInt8) (by decide) (by decide) s
  · rw [ht]
    exact scanString_letter (c := 't'.toUInt8) (by decide) (by decide) s
  · have hlt : b.toNat < 0x80 := UInt8.lt_iff_toNat_lt.mp hb
    have hzero : unhex '0'.toUInt8 = some 0 := by decide
    have hu : hex4 (('0'.toUInt8 :: '0'.toUInt8 :: hexDigit (b.toNat / 16) ::
        hexDigit (b.toNat % 16) :: s)) = some (b.toNat, s) := by
      simp only [hex4, hzero, unhex_hexDigit (n := b.toNat / 16) (by omega),
        unhex_hexDigit (n := b.toNat % 16) (by omega), Option.bind_eq_bind, Option.bind_some]
      congr 2
      omega
    have hrune : encodeRune b.toNat = [b] := by
      rw [encodeRune, if_pos hlt, UInt8.ofNat_toNat]
    have hsurrogate : ¬ IsSurrogate b.toNat := fun h => by
      have := h.1
      omega
    exact (scanString_unit hu hsurrogate).trans (by rw [hrune]; rfl)

theorem quoteRunes_ascii {b : UInt8} (h : b < 0x80) (s : GoString) :
    quoteRunes (b :: s) = quoteByte b ++ quoteRunes s := by
  rw [quoteRunes, if_pos h]

theorem quoteRunes_broken {b : UInt8} {s : GoString} (hb : 0x80 ≤ b) (h : Broken (b :: s)) :
    quoteRunes (b :: s) = ("\\ufffd" : GoString) ++ quoteRunes s := by
  have hn : decodeRune (b :: s) = (runeError, 1) := h
  rw [quoteRunes, if_neg (UInt8.not_lt.mpr hb)]
  simp only [if_pos h, hn]
  rfl

theorem scanString_quoteRunes (s t : GoString) :
    scanString (quoteRunes s ++ '"'.toUInt8 :: t) = some (coerce s, t) := by
  induction s using rune_induct with
  | nil =>
    rw [quoteRunes, coerce, List.nil_append, scanString.eq_def]
    simp only [if_true]
  | ascii b s hb ih =>
    rw [quoteRunes_ascii hb, List.append_assoc, scanString_quoteByte hb, ih, coerce_ascii hb]
    rfl
  | broken b s hge hbroken ih =>
    have hu : hex4 ('f'.toUInt8 :: 'f'.toUInt8 :: 'f'.toUInt8 :: 'd'.toUInt8 ::
        (quoteRunes s ++ '"'.toUInt8 :: t)) = some (0xFFFD, quoteRunes s ++ '"'.toUInt8 :: t) := rfl
    rw [quoteRunes_broken hge hbroken, coerce_broken hbroken]
    refine (scanString_unit hu (by decide)).trans ?_
    rw [ih]
    rfl
  | rune b r u v hu hge henc hdec ih =>
    have hbroken := not_broken_rune hu hdec v
    have hlt : ¬ b < 0x80 := UInt8.not_lt.mpr (hge b List.mem_cons_self)
    rw [quoteRunes, if_neg hlt, coerce_rune hu hdec]
    simp only [if_neg hbroken, hdec v, List.take_succ_cons, List.take_left', List.drop_succ_cons,
      List.drop_left']
    split_ifs with hsep
    · have hu' : hex4 ('2'.toUInt8 :: '0'.toUInt8 :: '2'.toUInt8 :: hexDigit (r % 16) ::
          (quoteRunes v ++ '"'.toUInt8 :: t)) = some (r, quoteRunes v ++ '"'.toUInt8 :: t) := by
        rcases hsep with rfl | rfl <;> rfl
      have hr : ¬ IsSurrogate r := by rcases hsep with rfl | rfl <;> decide
      rw [List.append_assoc]
      refine (scanString_unit hu' hr).trans ?_
      rw [ih, henc]
      rfl
    · rw [List.append_assoc, List.cons_append, scanString_rune (hge b List.mem_cons_self) hu hdec, ih]
      rfl

/-- Valid UTF-8 without control characters, on one line in particular. -/
structure IsText (s : GoString) : Prop where
  valid : validString s = true
  plain : ∀ c ∈ s, 0x20 ≤ c

theorem IsText.nil : IsText [] := ⟨by rw [validString], fun _ hc => absurd hc List.not_mem_nil⟩

theorem IsText.append {s t : GoString} (hs : IsText s) (ht : IsText t) : IsText (s ++ t) :=
  ⟨validString_append hs.valid ht.valid, fun c hc =>
    (List.mem_append.mp hc).elim (hs.plain c) (ht.plain c)⟩

theorem IsText.of_ascii {s : GoString} (h : ∀ c ∈ s, 0x20 ≤ c ∧ c < 0x80) : IsText s :=
  ⟨validString_of_ascii fun c hc => (h c hc).2, fun c hc => (h c hc).1⟩

theorem IsText.of_all {s : GoString} (h : (s.all fun c => decide (0x20 ≤ c ∧ c < 0x80)) = true) :
    IsText s :=
  .of_ascii (GoString.forall_mem_of_all h)

theorem IsText.cons {b : UInt8} (hb : 0x20 ≤ b ∧ b < 0x80) {s : GoString} (hs : IsText s) :
    IsText (b :: s) :=
  append (s := [b]) (of_ascii fun _ hc => List.mem_singleton.mp hc ▸ hb) hs

theorem isText_quoteByte {b : UInt8} (hb : b < 0x80) : IsText (quoteByte b) := by
  refine .of_all ?_
  refine GoString.forall_byte (p := fun b => b < 0x80 →
    ((quoteByte b).all fun c => decide (0x20 ≤ c ∧ c < 0x80)) = true) ?_ b hb
  decide +kernel

theorem isText_quoteRunes (s : GoString) : IsText (quoteRunes s) := by
  induction s using rune_induct with
  | nil =>
    rw [quoteRunes]
    exact .nil
  | ascii b s hb ih =>
    rw [quoteRunes_ascii hb]
    exact (isText_quoteByte hb).append ih
  | broken b s hge hbroken ih =>
    rw [quoteRunes_broken hge hbroken]
    exact (IsText.of_all (by decide)).append ih
  | rune b r u v hu hge henc hdec ih =>
    have hbroken := not_broken_rune hu hdec v
    have hlt : ¬ b < 0x80 := UInt8.not_lt.mpr (hge b List.mem_cons_self)
    rw [quoteRunes, if_neg hlt]
    simp only [if_neg hbroken, hdec v, List.take_succ_cons, List.take_left', List.drop_succ_cons,
      List.drop_left']
    split_ifs with hsep
    · have hdigit : ∀ n < 16, 0x20 ≤ hexDigit n ∧ hexDigit n < 0x80 := by decide +kernel
      have hlast : IsText [hexDigit (r % 16)] := .cons (hdigit _ (Nat.mod_lt _ (by decide))) .nil
      exact ((IsText.of_all (by decide)).append hlast).append ih
    · refine ⟨?_, fun c hc => ?_⟩
      · rw [List.cons_append, validString_rune hu hdec]
        exact ih.valid
      · rcases List.mem_append.mp hc with hc | hc
        · exact UInt8.le_trans (by decide) (hge c hc)
        · exact ih.plain c hc

theorem isText_quote (s : GoString) : IsText (quote s) :=
  .cons (by decide) ((isText_quoteRunes s).append (.cons (by decide) .nil))

theorem skipSpace_cons {b : UInt8} (h : 0x20 < b) (s : GoString) : skipSpace (b :: s) = b :: s := by
  refine List.dropWhile_cons_of_neg ?_
  rw [decide_eq_true_eq]
  rintro (rfl | rfl | rfl | rfl) <;> exact absurd h (by decide)

theorem parseValue_quote (n d : ℕ) (s t : GoString) :
    parseValue (n + 1) d (quote s ++ t) = some (.string (coerce s), t) := by
  rw [quote, List.cons_append, List.append_assoc, List.singleton_append, parseValue,
    skipSpace_cons (by decide)]
  simp only [if_true, scanString_quoteRunes, Option.map_some]

/-- One member, up to what separates it from the next one or ends the object. -/
theorem parseMembers_quote (n d : ℕ) (k v : GoString) {b : UInt8} (hb : 0x20 < b) (t : GoString) :
    parseMembers (n + 2) d (quote k ++ ':'.toUInt8 :: (quote v ++ b :: t)) =
      if b = ','.toUInt8 then
        (parseMembers (n + 1) d t).map fun p => ((coerce k, .string (coerce v)) :: p.1, p.2)
      else if b = '\x7d'.toUInt8 then some ([(coerce k, .string (coerce v))], t)
      else none := by
  rw [quote, List.cons_append, List.append_assoc, List.singleton_append, parseMembers,
    skipSpace_cons (by decide)]
  simp only [if_true, scanString_quoteRunes]
  rw [skipSpace_cons (by decide)]
  simp only [if_true, parseValue_quote]
  rw [skipSpace_cons hb]

theorem parseMembers_marshalMembers (d : ℕ) (t : GoString) :
    ∀ {n : ℕ} {ms : List (GoString × GoString)}, ms ≠ [] → ms.length < n →
      parseMembers n d (marshalMembers ms ++ '\x7d'.toUInt8 :: t) =
        some (ms.map fun m => (coerce m.1, .string (coerce m.2)), t)
  | n + 2, [(k, v)], _, _ => by
    rw [marshalMembers, List.append_assoc, List.cons_append,
      parseMembers_quote n d k v (by decide)]
    rfl
  | n + 2, (k, v) :: m :: ms, _, hlen => by
    have hlen' : (m :: ms).length < n + 1 := by
      rw [List.length_cons] at hlen
      omega
    have hrest := parseMembers_marshalMembers d t (List.cons_ne_nil m ms) hlen'
    rw [marshalMembers, List.append_assoc, List.cons_append, List.append_assoc, List.cons_append,
      parseMembers_quote n d k v (by decide), if_pos rfl, hrest]
    rfl
  | 0, _ :: _, _, hlen => absurd hlen (Nat.not_lt_zero _)
  | 1, _ :: _, _, hlen => absurd hlen (by simp)

/-- There is a byte at least for each member. -/
theorem length_marshalMembers : ∀ ms : List (GoString × GoString),
    ms.length ≤ (marshalMembers ms).length
  | [] => Nat.le_refl _
  | [(k, v)] => by
    simp only [marshalMembers, List.length_append, List.length_cons, List.length_nil]
    omega
  | (k, v) :: m :: ms => by
    have hrest := length_marshalMembers (m :: ms)
    simp only [marshalMembers, List.length_append, List.length_cons] at hrest ⊢
    omega

theorem marshalMembers_cons (k v : GoString) (ms : List (GoString × GoString)) :
    ∃ s, marshalMembers ((k, v) :: ms) = '"'.toUInt8 :: s := by
  rcases ms with _ | ⟨m, ms⟩ <;> exact ⟨_, by rw [marshalMembers, quote]; rfl⟩

/-- A struct of string fields is read back, each string coerced to valid UTF-8. -/
theorem parse_marshalObject (ms : List (GoString × GoString)) :
    parse (marshalObject ms) =
      some (.object (ms.map fun m => (coerce m.1, .string (coerce m.2)))) := by
  have hbrace : '\x7b'.toUInt8 ≠ '"'.toUInt8 := by decide
  rw [parse, marshalObject, maxNestingDepth, parseValue, skipSpace_cons (by decide)]
  simp only [if_neg hbrace, if_true]
  rcases ms with _ | ⟨⟨k, v⟩, ms⟩
  · rw [marshalMembers, List.nil_append, skipSpace_cons (by decide)]
    rfl
  · obtain ⟨s, hs⟩ := marshalMembers_cons k v ms
    have hlen := length_marshalMembers ((k, v) :: ms)
    have hfuel : ((k, v) :: ms).length <
        (marshalMembers ((k, v) :: ms) ++ ['\x7d'.toUInt8]).length + 1 := by
      rw [List.length_append, List.length_singleton]
      omega
    have hmembers := parseMembers_marshalMembers 9999 [] (List.cons_ne_nil (k, v) ms) hfuel
    have hquote : '"'.toUInt8 ≠ '\x7d'.toUInt8 := by decide
    rw [hs, List.cons_append] at hmembers ⊢
    rw [skipSpace_cons (by decide)]
    simp only [if_neg hquote, List.length_cons] at hmembers ⊢
    rw [hmembers]
    rfl

end Json
