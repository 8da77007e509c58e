import Yafu.Lib.Json

/-!
# Documents of any shape

`json.Marshal` of values that nest, and what the scanner makes of the text: the same value, its
strings coerced to valid UTF-8 (`parse_marshal`). The text is on one line.
-/

namespace Json

open Utf8

/-! ## Writing -/

mutual

/-- `Marshal`. -/
def marshal : Value → GoString
  | .null => "null"
  | .bool b => if b then "true" else "false"
  | .number literal => literal
  | .string s => quote s
  | .array vs => '['.toUInt8 :: (marshalElements vs ++ [']'.toUInt8])
  | .object ms => '\x7b'.toUInt8 :: (marshalFields ms ++ ['\x7d'.toUInt8])

/-- The elements of an array with what stands between them. -/
def marshalElements : List Value → GoString
  | [] => []
  | [v] => marshal v
  | v :: w :: vs => marshal v ++ ','.toUInt8 :: marshalElements (w :: vs)

/-- The members of an object with what stands between them. -/
def marshalFields : List (GoString × Value) → GoString
  | [] => []
  | [(k, v)] => quote k ++ ':'.toUInt8 :: marshal v
  | (k, v) :: m :: ms => quote k ++ ':'.toUInt8 :: (marshal v ++ ','.toUInt8 :: marshalFields (m :: ms))

end

mutual

/-- A value with its strings coerced. -/
def coerced : Value → Value
  | .null => .null
  | .bool b => .bool b
  | .number literal => .number literal
  | .string s => .string (coerce s)
  | .array vs => .array (coercedElements vs)
  | .object ms => .object (coercedFields ms)

def coercedElements : List Value → List Value
  | [] => []
  | v :: vs => coerced v :: coercedElements vs

def coercedFields : List (GoString × Value) → List (GoString × Value)
  | [] => []
  | (k, v) :: ms => (coerce k, coerced v) :: coercedFields ms

end

mutual

/-- The numbers of a value are numerals, and it nests no deeper than this. -/
def Fits : ℕ → Value → Prop
  | _, .null => True
  | _, .bool _ => True
  | _, .number literal => scanNumber literal = some (literal, [])
  | _, .string _ => True
  | d, .array vs => ∃ e, d = e + 1 ∧ FitElements e vs
  | d, .object ms => ∃ e, d = e + 1 ∧ FitFields e ms

def FitElements : ℕ → List Value → Prop
  | _, [] => True
  | d, v :: vs => Fits d v ∧ FitElements d vs

def FitFields : ℕ → List (GoString × Value) → Prop
  | _, [] => True
  | d, (_, v) :: ms => Fits d v ∧ FitFields d ms

end

/-! ## Numerals -/

/-- Nothing that a numeral could go on with. -/
def Ends (t : GoString) : Prop :=
  ∀ c ∈ t.head?, c = ','.toUInt8 ∨ c = ']'.toUInt8 ∨ c = '\x7d'.toUInt8 ∨ c = '\n'.toUInt8

theorem ends_nil : Ends [] := nofun

theorem ends_cons {b : UInt8}
    (h : b = ','.toUInt8 ∨ b = ']'.toUInt8 ∨ b = '\x7d'.toUInt8 ∨ b = '\n'.toUInt8) (t : GoString) :
    Ends (b :: t) := fun _ hc => Option.some.inj hc ▸ h

section Numerals

variable {s r i t : GoString} (ht : Ends t)

include ht

theorem Ends.takeWhile_eq : t.takeWhile isDigit = [] := by
  rcases t with _ | ⟨c, t⟩
  · rfl
  · refine List.takeWhile_cons_of_neg ?_
    rcases ht c rfl with rfl | rfl | rfl | rfl <;> decide

theorem scanDigits_append (h : scanDigits s = some (i, r)) :
    scanDigits (s ++ t) = some (i, r ++ t) := by
  unfold scanDigits at h ⊢
  split_ifs at h with hnil
  obtain ⟨rfl, rfl⟩ := Prod.mk.inj (Option.some.inj h)
  have htake : (s ++ t).takeWhile isDigit = s.takeWhile isDigit := by
    rw [List.takeWhile_append, ht.takeWhile_eq]
    split_ifs with hall
    · rw [List.append_nil]
      exact ((List.takeWhile_prefix _).eq_of_length hall).symm
    · rfl
  have hdrop : (s ++ t).dropWhile isDigit = s.dropWhile isDigit ++ t := by
    refine (List.append_right_inj ((s ++ t).takeWhile isDigit)).mp ?_
    rw [List.takeWhile_append_dropWhile, htake, ← List.append_assoc, List.takeWhile_append_dropWhile]
  rw [htake, hdrop, if_neg hnil]

theorem scanInteger_append (h : scanInteger s = some (i, r)) :
    scanInteger (s ++ t) = some (i, r ++ t) := by
  rcases s with _ | ⟨b, s⟩
  · cases h
  · rw [scanInteger] at h
    rw [List.cons_append, scanInteger]
    split_ifs at h ⊢
    · obtain ⟨rfl, rfl⟩ := Prod.mk.inj (Option.some.inj h)
      rfl
    · exact scanDigits_append ht h

theorem scanFraction_append (h : scanFraction s = some (i, r)) :
    scanFraction (s ++ t) = some (i, r ++ t) := by
  rcases s with _ | ⟨b, s⟩
  · obtain ⟨rfl, rfl⟩ := Prod.mk.inj (Option.some.inj h)
    rcases t with _ | ⟨c, t⟩
    · rfl
    · refine if_neg ?_
      rcases ht c rfl with rfl | rfl | rfl | rfl <;> decide
  · rw [scanFraction] at h
    rw [List.cons_append, scanFraction]
    split_ifs at h ⊢
    · obtain ⟨⟨ds, r⟩, hds, heq⟩ := Option.map_eq_some_iff.mp h
      obtain ⟨rfl, rfl⟩ := Prod.mk.inj heq
      rw [scanDigits_append ht hds]
      rfl
    · obtain ⟨rfl, rfl⟩ := Prod.mk.inj (Option.some.inj h)
      rfl

theorem scanExponent_append (h : scanExponent s = some (i, r)) :
    scanExponent (s ++ t) = some (i, r ++ t) := by
  rcases s with _ | ⟨b, s⟩
  · obtain ⟨rfl, rfl⟩ := Prod.mk.inj (Option.some.inj h)
    rcases t with _ | ⟨c, t⟩
    · rfl
    · refine if_neg ?_
      rcases ht c rfl with rfl | rfl | rfl | rfl <;> decide
  · rw [scanExponent.eq_def] at h
    rw [List.cons_append, scanExponent.eq_def]
    simp only at h ⊢
    split_ifs at h ⊢
    · rcases s with _ | ⟨c, s⟩
      · cases h
      · simp only [List.cons_append] at h ⊢
        split_ifs at h ⊢
        · obtain ⟨⟨ds, r⟩, hds, heq⟩ := Option.map_eq_some_iff.mp h
          obtain ⟨rfl, rfl⟩ := Prod.mk.inj heq
          rw [scanDigits_append ht hds]
          rfl
        · obtain ⟨⟨ds, r⟩, hds, heq⟩ := Option.map_eq_some_iff.mp h
          obtain ⟨rfl, rfl⟩ := Prod.mk.inj heq
          rw [← List.cons_append, scanDigits_append ht hds]
          rfl
    · obtain ⟨rfl, rfl⟩ := Prod.mk.inj (Option.some.inj h)
      rfl

theorem scanNumber_append (h : scanNumber s = some (i, r)) : scanNumber (s ++ t) = some (i, r ++ t) := by
  unfold scanNumber at h ⊢
  simp only [Option.bind_eq_bind, Option.bind_eq_some_iff] at h
  obtain ⟨⟨int, r₁⟩, hint, ⟨frac, r₂⟩, hfrac, ⟨exp, r₃⟩, hexp, heq⟩ := h
  obtain ⟨rfl, rfl⟩ := Prod.mk.inj (Option.some.inj heq)
  rcases s with _ | ⟨b, s⟩
  · cases hint
  · have hsign : (if ((b :: s) ++ t).head? = some '-'.toUInt8 then ((b :: s) ++ t).take 1 else []) =
        if (b :: s).head? = some '-'.toUInt8 then (b :: s).take 1 else [] := rfl
    have hdrop : ∀ sign : GoString, sign.length ≤ 1 →
        ((b :: s) ++ t).drop sign.length = (b :: s).drop sign.length ++ t := by
      intro sign hlen
      exact List.drop_append_of_le_length (by rw [List.length_cons]; omega)
    have hlen : (if (b :: s).head? = some '-'.toUInt8 then (b :: s).take 1 else []).length ≤ 1 := by
      split_ifs <;> simp
    simp only [hsign, hdrop _ hlen, Option.bind_eq_bind, scanInteger_append ht hint, Option.bind_some,
      scanFraction_append ht hfrac, scanExponent_append ht hexp]

end Numerals

/-- A numeral begins with a sign or a digit. -/
theorem head_numeral {literal r : GoString} (h : scanNumber literal = some (literal, r)) :
    ∃ b s, literal = b :: s ∧ (b = '-'.toUInt8 ∨ isDigit b = true) := by
  unfold scanNumber at h
  simp only [Option.bind_eq_bind, Option.bind_eq_some_iff] at h
  obtain ⟨⟨int, r₁⟩, hint, -⟩ := h
  rcases literal with _ | ⟨b, s⟩
  · cases hint
  · refine ⟨b, s, rfl, ?_⟩
    by_cases hb : b = '-'.toUInt8
    · exact .inl hb
    · right
      have hsign : ¬ (b :: s).head? = some '-'.toUInt8 := fun h => hb (Option.some.inj h)
      rw [if_neg hsign] at hint
      simp only [List.length_nil, List.drop_zero, scanInteger] at hint
      split_ifs at hint with hzero
      · rw [hzero]
        decide
      · unfold scanDigits at hint
        split_ifs at hint with hnil
        by_contra hdigit
        exact hnil (List.takeWhile_cons_of_neg hdigit)

theorem scanLiteral_numeral {literal t : GoString} (h : scanNumber literal = some (literal, []))
    (ht : Ends t) : scanLiteral (literal ++ t) = some (.number literal, t) := by
  have hnumber := scanNumber_append ht h
  rw [List.nil_append] at hnumber
  obtain ⟨b, s, rfl, hb⟩ := head_numeral h
  have hne : ∀ c ∈ (["null", "true", "false"] : List GoString).filterMap List.head?, b ≠ c := by
    rintro c hc rfl
    have hall : ∀ c ∈ (["null", "true", "false"] : List GoString).filterMap List.head?,
        ¬ (c = '-'.toUInt8 ∨ isDigit c = true) := GoString.forall_mem_of_all (by decide)
    exact hall b hc hb
  have hcut : ∀ w ∈ (["null", "true", "false"] : List GoString),
      GoString.cutPrefix (b :: s ++ t) w = none := by
    intro w hw
    rcases w with _ | ⟨c, w⟩
    · exact absurd hw (by decide)
    · refine Option.eq_none_iff_forall_ne_some.mpr fun r hr => ?_
      have heq := GoString.cutPrefix_eq_some_iff.mp hr
      exact hne c (List.mem_filterMap.mpr ⟨_, hw, rfl⟩) (List.cons.inj heq).1
  unfold scanLiteral
  rw [hcut _ (by decide), hcut _ (by decide), hcut _ (by decide), hnumber]
  rfl

/-! ## What is written is read back -/

/-- A value begins with a byte that is neither white space nor the end of an array or an object. -/
theorem head_marshal {d : ℕ} {v : Value} (h : Fits d v) :
    ∃ b s, marshal v = b :: s ∧ 0x20 < b ∧ b ≠ ']'.toUInt8 ∧ b ≠ '\x7d'.toUInt8 := by
  cases v with
  | null => exact ⟨_, _, rfl, by decide, by decide, by decide⟩
  | bool b =>
    cases b
    · exact ⟨_, _, rfl, by decide, by decide, by decide⟩
    · exact ⟨_, _, rfl, by decide, by decide, by decide⟩
  | number literal =>
    obtain ⟨b, s, rfl, hb⟩ := head_numeral h
    refine ⟨b, s, rfl, ?_⟩
    refine GoString.forall_byte (p := fun b => b = '-'.toUInt8 ∨ isDigit b = true →
      0x20 < b ∧ b ≠ ']'.toUInt8 ∧ b ≠ '\x7d'.toUInt8) ?_ b hb
    decide +kernel
  | string s => exact ⟨_, _, rfl, by decide, by decide, by decide⟩
  | array vs => exact ⟨_, _, rfl, by decide, by decide, by decide⟩
  | object ms => exact ⟨_, _, rfl, by decide, by decide, by decide⟩

theorem head_marshalElements {d : ℕ} {v : Value} (vs : List Value) (h : Fits d v) :
    ∃ b s, marshalElements (v :: vs) = b :: s ∧ 0x20 < b ∧ b ≠ ']'.toUInt8 := by
  obtain ⟨b, s, hs, hb, hend, -⟩ := head_marshal h
  rcases vs with _ | ⟨w, vs⟩
  · exact ⟨b, s, hs, hb, hend⟩
  · have hcons : marshalElements (v :: w :: vs) = b :: (s ++ ','.toUInt8 :: marshalElements (w :: vs)) := by
      rw [marshalElements, hs, List.cons_append]
    exact ⟨b, _, hcons, hb, hend⟩

theorem head_marshalFields (k : GoString) (v : Value) (ms : List (GoString × Value)) :
    ∃ s, marshalFields ((k, v) :: ms) = '"'.toUInt8 :: s := by
  rcases ms with _ | ⟨m, ms⟩ <;> exact ⟨_, rfl⟩

/-- A literal is no string, object or array. -/
theorem parseValue_literal {n d : ℕ} {s : GoString} {v : Value} {t : GoString} {b : UInt8} {r : GoString}
    (hs : s = b :: r) (hb : 0x20 < b)
    (hother : b ≠ '"'.toUInt8 ∧ b ≠ '\x7b'.toUInt8 ∧ b ≠ '['.toUInt8)
    (hliteral : scanLiteral s = some (v, t)) : parseValue (n + 1) d s = some (v, t) := by
  obtain ⟨hquote, hbrace, hbracket⟩ := hother
  rw [hs] at hliteral ⊢
  rw [parseValue, skipSpace_cons hb]
  simp only [if_neg hquote, if_neg hbrace, if_neg hbracket, hliteral]

theorem scanLiteral_null (t : GoString) : scanLiteral (marshal .null ++ t) = some (.null, t) := by
  have hword : GoString.cutPrefix (marshal .null ++ t) "null" = some t :=
    GoString.cutPrefix_eq_some_iff.mpr rfl
  unfold scanLiteral
  rw [hword]

theorem scanLiteral_bool (b : Bool) (t : GoString) :
    scanLiteral (marshal (.bool b) ++ t) = some (.bool b, t) := by
  have hword : GoString.cutPrefix (marshal (.bool b) ++ t) (marshal (.bool b)) = some t :=
    GoString.cutPrefix_eq_some_iff.mpr rfl
  have hnull : GoString.cutPrefix (marshal (.bool b) ++ t) "null" = none := by cases b <;> rfl
  unfold scanLiteral
  rw [hnull]
  cases b with
  | true =>
    have htrue : GoString.cutPrefix (marshal (.bool true) ++ t) "true" = some t := hword
    rw [htrue]
  | false =>
    have htrue : GoString.cutPrefix (marshal (.bool false) ++ t) "true" = none := rfl
    have hfalse : GoString.cutPrefix (marshal (.bool false) ++ t) "false" = some t := hword
    rw [htrue, hfalse]

mutual

theorem parseValue_marshal : ∀ {n d : ℕ} {v : Value} {t : GoString}, Fits d v → Ends t →
    (marshal v).length < n → parseValue n d (marshal v ++ t) = some (coerced v, t)
  | 0, _, _, _, _, _, hlen => absurd hlen (Nat.not_lt_zero _)
  | n + 1, _, .null, t, _, _, _ =>
    parseValue_literal rfl (by decide) (by decide) (scanLiteral_null t)
  | n + 1, _, .bool true, t, _, _, _ =>
    parseValue_literal rfl (by decide) (by decide) (scanLiteral_bool true t)
  | n + 1, _, .bool false, t, _, _, _ =>
    parseValue_literal rfl (by decide) (by decide) (scanLiteral_bool false t)
  | n + 1, _, .number literal, t, h, ht, _ => by
    obtain ⟨b, s, hs, hb⟩ := head_numeral h
    have hplain : 0x20 < b ∧ b ≠ '"'.toUInt8 ∧ b ≠ '\x7b'.toUInt8 ∧ b ≠ '['.toUInt8 := by
      refine GoString.forall_byte (p := fun b => b = '-'.toUInt8 ∨ isDigit b = true →
        0x20 < b ∧ b ≠ '"'.toUInt8 ∧ b ≠ '\x7b'.toUInt8 ∧ b ≠ '['.toUInt8) ?_ b hb
      decide +kernel
    exact parseValue_literal (r := s ++ t) (by rw [marshal, hs]; rfl) hplain.1 hplain.2
      (scanLiteral_numeral h ht)
  | n + 1, d, .string s, t, _, _, _ => parseValue_quote n d s t
  | n + 1, _, .array [], t, ⟨d, rfl, _⟩, _, _ => by
    rw [marshal, List.cons_append, parseValue, skipSpace_cons (by decide)]
    rfl
  | n + 1, _, .array (v :: vs), t, ⟨d, rfl, h⟩, _, hlen => by
    have hfuel : (marshalElements (v :: vs)).length + 1 < n := by
      rw [marshal, List.length_cons, List.length_append, List.length_singleton] at hlen
      omega
    have hrest := parseElements_marshal (t := t) h hfuel
    obtain ⟨b, s, hs, hb, hend⟩ := head_marshalElements vs h.1
    have hquote : '['.toUInt8 ≠ '"'.toUInt8 ∧ '['.toUInt8 ≠ '\x7b'.toUInt8 := by decide
    rw [marshal, List.cons_append, List.append_assoc, List.singleton_append, parseValue,
      skipSpace_cons (by decide)]
    simp only [if_neg hquote.1, if_neg hquote.2, if_true]
    rw [hs, List.cons_append] at hrest ⊢
    rw [skipSpace_cons hb]
    simp only [if_neg hend, hrest]
    rfl
  | n + 1, _, .object [], t, ⟨d, rfl, _⟩, _, _ => by
    rw [marshal, List.cons_append, parseValue, skipSpace_cons (by decide)]
    rfl
  | n + 1, _, .object ((k, v) :: ms), t, ⟨d, rfl, h⟩, _, hlen => by
    have hfuel : (marshalFields ((k, v) :: ms)).length + 1 < n := by
      rw [marshal, List.length_cons, List.length_append, List.length_singleton] at hlen
      omega
    have hrest := parseMembers_marshal (t := t) h hfuel
    obtain ⟨s, hs⟩ := head_marshalFields k v ms
    have hbrace : '\x7b'.toUInt8 ≠ '"'.toUInt8 := by decide
    have hquote : '"'.toUInt8 ≠ '\x7d'.toUInt8 := by decide
    rw [marshal, List.cons_append, List.append_assoc, List.singleton_append, parseValue,
      skipSpace_cons (by decide)]
    simp only [if_neg hbrace, if_true]
    rw [hs, List.cons_append] at hrest ⊢
    rw [skipSpace_cons (by decide)]
    simp only [if_neg hquote, hrest]
    rfl

theorem parseElements_marshal : ∀ {n d : ℕ} {v : Value} {vs : List Value} {t : GoString},
    FitElements d (v :: vs) → (marshalElements (v :: vs)).length + 1 < n →
      parseElements n d (marshalElements (v :: vs) ++ ']'.toUInt8 :: t) =
        some (coercedElements (v :: vs), t)
  | 0, _, _, _, _, _, hlen => absurd hlen (Nat.not_lt_zero _)
  | n + 1, d, v, [], t, h, hlen => by
    have hne : ']'.toUInt8 ≠ ','.toUInt8 := by decide
    have hfuel : (marshal v).length < n := Nat.lt_of_succ_lt_succ hlen
    have hv := parseValue_marshal h.1 (ends_cons (.inr (.inl rfl)) t) hfuel
    show parseElements (n + 1) d (marshal v ++ _) = _
    rw [parseElements, hv]
    simp only [skipSpace_cons (show 0x20 < ']'.toUInt8 by decide), if_neg hne, if_true]
    rfl
  | n + 1, d, v, w :: vs, t, h, hlen => by
    rw [marshalElements, List.length_append, List.length_cons] at hlen
    have hv := parseValue_marshal h.1
      (ends_cons (.inl rfl) (marshalElements (w :: vs) ++ ']'.toUInt8 :: t))
      (show (marshal v).length < n by omega)
    have hrest := parseElements_marshal (t := t) h.2
      (show (marshalElements (w :: vs)).length + 1 < n by omega)
    rw [marshalElements, List.append_assoc, List.cons_append, parseElements, hv]
    simp only [skipSpace_cons (show 0x20 < ','.toUInt8 by decide), if_true, hrest]
    rfl

theorem parseMembers_marshal : ∀ {n d : ℕ} {k : GoString} {v : Value} {ms : List (GoString × Value)}
    {t : GoString}, FitFields d ((k, v) :: ms) → (marshalFields ((k, v) :: ms)).length + 1 < n →
      parseMembers n d (marshalFields ((k, v) :: ms) ++ '\x7d'.toUInt8 :: t) =
        some (coercedFields ((k, v) :: ms), t)
  | 0, _, _, _, _, _, _, hlen => absurd hlen (Nat.not_lt_zero _)
  | n + 1, d, k, v, [], t, h, hlen => by
    have hne : '\x7d'.toUInt8 ≠ ','.toUInt8 := by decide
    rw [marshalFields, List.length_append, List.length_cons] at hlen
    have hv := parseValue_marshal h.1 (ends_cons (.inr (.inr (.inl rfl))) t)
      (show (marshal v).length < n by omega)
    rw [marshalFields, quote, List.cons_append, List.cons_append, List.append_assoc, List.append_assoc,
      List.singleton_append, List.cons_append, parseMembers, skipSpace_cons (by decide)]
    simp only [if_true, scanString_quoteRunes]
    rw [skipSpace_cons (by decide)]
    simp only [if_true, hv]
    rw [skipSpace_cons (by decide)]
    simp only [if_neg hne, if_true]
    rfl
  | n + 1, d, k, v, m :: ms, t, h, hlen => by
    rw [marshalFields, List.length_append, List.length_cons, List.length_append,
      List.length_cons] at hlen
    have hv := parseValue_marshal h.1
      (ends_cons (.inl rfl) (marshalFields (m :: ms) ++ '\x7d'.toUInt8 :: t))
      (show (marshal v).length < n by omega)
    have hrest := parseMembers_marshal (t := t) h.2
      (show (marshalFields (m :: ms)).length + 1 < n by omega)
    rw [marshalFields, quote, List.cons_append, List.cons_append, List.append_assoc, List.append_assoc,
      List.singleton_append, List.cons_append, List.append_assoc, List.cons_append, parseMembers,
      skipSpace_cons (by decide)]
    simp only [if_true, scanString_quoteRunes]
    rw [skipSpace_cons (by decide)]
    simp only [if_true, hv]
    rw [skipSpace_cons (by decide)]
    simp only [if_true, hrest]
    rfl

end

theorem parse_marshal_append {v : Value} {t : GoString} (h : Fits maxNestingDepth v) (ht : Ends t)
    (hspace : skipSpace t = []) : parse (marshal v ++ t) = some (coerced v) := by
  have hlen : (marshal v).length < (marshal v ++ t).length + 1 := by
    rw [List.length_append]
    omega
  rw [parse, parseValue_marshal h ht hlen]
  exact if_pos hspace

/-- **A document that is written is read back**, its strings coerced to valid UTF-8. -/
theorem parse_marshal {v : Value} (h : Fits maxNestingDepth v) : parse (marshal v) = some (coerced v) := by
  have hvalue := parse_marshal_append h ends_nil rfl
  rwa [List.append_nil] at hvalue

/-- So is the line that an encoder writes. -/
theorem parse_marshal_line {v : Value} (h : Fits maxNestingDepth v) :
    parse (marshal v ++ ("\n" : GoString)) = some (coerced v) :=
  parse_marshal_append h (ends_cons (.inr (.inr (.inr rfl))) []) rfl

/-! ## On one line -/

theorem isText_digits {s ds r : GoString} (h : scanDigits s = some (ds, r)) : IsText ds := by
  unfold scanDigits at h
  split_ifs at h
  obtain ⟨rfl, rfl⟩ := Prod.mk.inj (Option.some.inj h)
  refine .of_ascii fun c hc => ?_
  refine GoString.forall_byte (p := fun c => isDigit c = true → 0x20 ≤ c ∧ c < 0x80) ?_ c
    (List.mem_takeWhile_imp hc)
  decide +kernel

theorem isText_integer {s ds r : GoString} (h : scanInteger s = some (ds, r)) : IsText ds := by
  rcases s with _ | ⟨b, s⟩
  · cases h
  · rw [scanInteger] at h
    split_ifs at h with hzero
    · obtain ⟨rfl, rfl⟩ := Prod.mk.inj (Option.some.inj h)
      exact .of_ascii fun c hc => List.mem_singleton.mp hc ▸ hzero ▸ by decide
    · exact isText_digits h

theorem isText_fraction {s ds r : GoString} (h : scanFraction s = some (ds, r)) : IsText ds := by
  rcases s with _ | ⟨b, s⟩
  · obtain ⟨rfl, rfl⟩ := Prod.mk.inj (Option.some.inj h)
    exact .nil
  · rw [scanFraction] at h
    split_ifs at h with hdot
    · obtain ⟨⟨ds, r⟩, hds, heq⟩ := Option.map_eq_some_iff.mp h
      obtain ⟨rfl, rfl⟩ := Prod.mk.inj heq
      exact .cons (hdot ▸ by decide) (isText_digits hds)
    · obtain ⟨rfl, rfl⟩ := Prod.mk.inj (Option.some.inj h)
      exact .nil

theorem isText_exponent {s ds r : GoString} (h : scanExponent s = some (ds, r)) : IsText ds := by
  rcases s with _ | ⟨b, s⟩
  · obtain ⟨rfl, rfl⟩ := Prod.mk.inj (Option.some.inj h)
    exact .nil
  · rw [scanExponent.eq_def] at h
    simp only at h
    split_ifs at h with he
    · have hb : 0x20 ≤ b ∧ b < 0x80 := by rcases he with rfl | rfl <;> decide
      rcases s with _ | ⟨c, s⟩
      · cases h
      · simp only at h
        split_ifs at h with hsign
        · have hc : 0x20 ≤ c ∧ c < 0x80 := by rcases hsign with rfl | rfl <;> decide
          obtain ⟨⟨ds, r⟩, hds, heq⟩ := Option.map_eq_some_iff.mp h
          obtain ⟨rfl, rfl⟩ := Prod.mk.inj heq
          exact .cons hb (.cons hc (isText_digits hds))
        · obtain ⟨⟨ds, r⟩, hds, heq⟩ := Option.map_eq_some_iff.mp h
          obtain ⟨rfl, rfl⟩ := Prod.mk.inj heq
          exact .cons hb (isText_digits hds)
    · obtain ⟨rfl, rfl⟩ := Prod.mk.inj (Option.some.inj h)
      exact .nil

theorem isText_number {s literal r : GoString} (h : scanNumber s = some (literal, r)) :
    IsText literal := by
  unfold scanNumber at h
  simp only [Option.bind_eq_bind, Option.bind_eq_some_iff] at h
  obtain ⟨⟨int, r₁⟩, hint, ⟨frac, r₂⟩, hfrac, ⟨exp, r₃⟩, hexp, heq⟩ := h
  obtain ⟨rfl, rfl⟩ := Prod.mk.inj (Option.some.inj heq)
  have hsign : IsText (if s.head? = some '-'.toUInt8 then s.take 1 else []) := by
    split_ifs with hminus
    · obtain ⟨u, rfl⟩ := List.head?_eq_some_iff.mp hminus
      exact .of_ascii fun c hc => List.mem_singleton.mp hc ▸ by decide
    · exact .nil
  exact ((hsign.append (isText_integer hint)).append (isText_fraction hfrac)).append
    (isText_exponent hexp)

mutual

theorem isText_marshal : ∀ {d : ℕ} {v : Value}, Fits d v → IsText (marshal v)
  | _, .null, _ => .of_all (by decide)
  | _, .bool true, _ => .of_all (by decide)
  | _, .bool false, _ => .of_all (by decide)
  | _, .number _, h => isText_number h
  | _, .string s, _ => isText_quote s
  | _, .array _, ⟨_, _, h⟩ => .cons (by decide) ((isText_marshalElements h).append (.cons (by decide) .nil))
  | _, .object _, ⟨_, _, h⟩ => .cons (by decide) ((isText_marshalFields h).append (.cons (by decide) .nil))

theorem isText_marshalElements : ∀ {d : ℕ} {vs : List Value}, FitElements d vs →
    IsText (marshalElements vs)
  | _, [], _ => .nil
  | _, [_], h => isText_marshal h.1
  | _, _ :: _ :: _, h => (isText_marshal h.1).append (.cons (by decide) (isText_marshalElements h.2))

theorem isText_marshalFields : ∀ {d : ℕ} {ms : List (GoString × Value)}, FitFields d ms →
    IsText (marshalFields ms)
  | _, [], _ => .nil
  | _, [(k, _)], h => (isText_quote k).append (.cons (by decide) (isText_marshal h.1))
  | _, (k, _) :: _ :: _, h => (isText_quote k).append (.cons (by decide)
      ((isText_marshal h.1).append (.cons (by decide) (isText_marshalFields h.2))))

end

/-! ## Structs of strings -/

/-- The members of a struct of strings. -/
def stringFields (ms : List (GoString × GoString)) : List (GoString × Value) :=
  ms.map fun m => (m.1, .string m.2)

theorem marshalMembers_eq : ∀ ms : List (GoString × GoString),
    marshalMembers ms = marshalFields (stringFields ms)
  | [] => rfl
  | [_] => rfl
  | (k, v) :: m :: ms => by
    have hrest := marshalMembers_eq (m :: ms)
    rw [marshalMembers, hrest]
    rfl

theorem fitFields_stringFields (d : ℕ) (ms : List (GoString × GoString)) :
    FitFields d (stringFields ms) := by
  induction ms with
  | nil => trivial
  | cons m ms ih => exact ⟨trivial, ih⟩

theorem isText_marshalObject (ms : List (GoString × GoString)) : IsText (marshalObject ms) := by
  rw [marshalObject, marshalMembers_eq]
  exact .cons (by decide) ((isText_marshalFields (fitFields_stringFields 0 ms)).append
    (.cons (by decide) .nil))

end Json
