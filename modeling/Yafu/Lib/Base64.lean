import Yafu.Lib.GoString

/-!
# Unpadded URL-safe base64

`encoding/base64.RawURLEncoding`. Decoding skips line breaks, refuses padding and, as the encoding
is not `Strict`, does not look at the bits of the last digit that no byte needs: several strings
decode to the same bytes, and `encode` picks one of them (`decode_encode`).
-/

namespace Base64

/-- The digits of `base64.URLEncoding` in the order of their values. -/
def alphabet : GoString := "ABCDEFGHIJKLMNOPQRSTUVWXYZabcdefghijklmnopqrstuvwxyz0123456789-_"

/-- The digit of a value below 64. -/
def encodeDigit (d : ℕ) : UInt8 := alphabet.getD d 0

/-- The value of a digit. -/
def decodeDigit (b : UInt8) : Option ℕ :=
  if alphabet.idxOf b < 64 then some (alphabet.idxOf b) else none

/-- `RawURLEncoding.EncodeToString`. -/
def encode : List UInt8 → GoString
  | [] => []
  | [a] => [encodeDigit (a.toNat / 4), encodeDigit (a.toNat % 4 * 16)]
  | [a, b] =>
    [encodeDigit (a.toNat / 4), encodeDigit (a.toNat % 4 * 16 + b.toNat / 16),
      encodeDigit (b.toNat % 16 * 4)]
  | a :: b :: c :: s =>
    encodeDigit (a.toNat / 4) :: encodeDigit (a.toNat % 4 * 16 + b.toNat / 16) ::
      encodeDigit (b.toNat % 16 * 4 + c.toNat / 64) :: encodeDigit (c.toNat % 64) :: encode s

/-- The bytes of a string of digits. -/
def decodeDigits : GoString → Option (List UInt8)
  | [] => some []
  | [_] => none
  | [w, x] => do
    let w ← decodeDigit w
    let x ← decodeDigit x
    some [UInt8.ofNat (w * 4 + x / 16)]
  | [w, x, y] => do
    let w ← decodeDigit w
    let x ← decodeDigit x
    let y ← decodeDigit y
    some [UInt8.ofNat (w * 4 + x / 16), UInt8.ofNat (x % 16 * 16 + y / 4)]
  | w :: x :: y :: z :: s => do
    let w ← decodeDigit w
    let x ← decodeDigit x
    let y ← decodeDigit y
    let z ← decodeDigit z
    let s ← decodeDigits s
    some (UInt8.ofNat (w * 4 + x / 16) :: UInt8.ofNat (x % 16 * 16 + y / 4) ::
      UInt8.ofNat (y % 4 * 64 + z) :: s)

/-- `RawURLEncoding.DecodeString`, `none` for a `CorruptInputError`. -/
def decode (s : GoString) : Option (List UInt8) :=
  decodeDigits (s.filter fun b => b ≠ '\r'.toUInt8 ∧ b ≠ '\n'.toUInt8)

theorem decodeDigit_encodeDigit {d : ℕ} (h : d < 64) : decodeDigit (encodeDigit d) = some d := by
  have hall : ∀ d < 64, decodeDigit (encodeDigit d) = some d := by decide +kernel
  exact hall d h

theorem encodeDigit_mem {d : ℕ} (h : d < 64) : encodeDigit d ∈ alphabet := by
  have hall : ∀ d < 64, encodeDigit d ∈ alphabet := by decide +kernel
  exact hall d h

/-- An encoding consists of digits. -/
theorem mem_alphabet_of_mem_encode : ∀ {s : List UInt8} {c : UInt8}, c ∈ encode s → c ∈ alphabet
  | [], c, h => by simp [encode] at h
  | [a], c, h => by
    have ha := a.toNat_lt
    simp only [encode, List.mem_cons, List.not_mem_nil, or_false] at h
    rcases h with rfl | rfl <;> exact encodeDigit_mem (by omega)
  | [a, b], c, h => by
    have ha := a.toNat_lt
    have hb := b.toNat_lt
    simp only [encode, List.mem_cons, List.not_mem_nil, or_false] at h
    rcases h with rfl | rfl | rfl <;> exact encodeDigit_mem (by omega)
  | a :: b :: d :: s, c, h => by
    have ha := a.toNat_lt
    have hb := b.toNat_lt
    have hd := d.toNat_lt
    simp only [encode, List.mem_cons] at h
    rcases h with rfl | rfl | rfl | rfl | h
    · exact encodeDigit_mem (by omega)
    · exact encodeDigit_mem (by omega)
    · exact encodeDigit_mem (by omega)
    · exact encodeDigit_mem (by omega)
    · exact mem_alphabet_of_mem_encode h

/-- A byte that was cut into digits is put together again. -/
theorem ofNat_eq {n : ℕ} {a : UInt8} (h : n = a.toNat) : UInt8.ofNat n = a := by
  rw [h, UInt8.ofNat_toNat]

theorem decodeDigits_encode : ∀ s : List UInt8, decodeDigits (encode s) = some s
  | [] => rfl
  | [a] => by
    have ha := a.toNat_lt
    simp only [encode, decodeDigits, Option.bind_eq_bind]
    rw [decodeDigit_encodeDigit (by omega), decodeDigit_encodeDigit (by omega)]
    simp only [Option.bind_some, Option.some.injEq, List.cons.injEq, and_true]
    exact ofNat_eq (by omega)
  | [a, b] => by
    have ha := a.toNat_lt
    have hb := b.toNat_lt
    simp only [encode, decodeDigits, Option.bind_eq_bind]
    rw [decodeDigit_encodeDigit (by omega), decodeDigit_encodeDigit (by omega),
      decodeDigit_encodeDigit (by omega)]
    simp only [Option.bind_some, Option.some.injEq, List.cons.injEq, and_true]
    exact ⟨ofNat_eq (by omega), ofNat_eq (by omega)⟩
  | a :: b :: c :: s => by
    have ha := a.toNat_lt
    have hb := b.toNat_lt
    have hc := c.toNat_lt
    simp only [encode, decodeDigits, Option.bind_eq_bind]
    rw [decodeDigit_encodeDigit (by omega), decodeDigit_encodeDigit (by omega),
      decodeDigit_encodeDigit (by omega), decodeDigit_encodeDigit (by omega),
      decodeDigits_encode s]
    simp only [Option.bind_some, Option.some.injEq, List.cons.injEq, and_true]
    exact ⟨ofNat_eq (by omega), ofNat_eq (by omega), ofNat_eq (by omega)⟩

/-- Encoding loses nothing. -/
theorem decode_encode (s : List UInt8) : decode (encode s) = some s := by
  have hbreak : ∀ c ∈ alphabet, c ≠ '\r'.toUInt8 ∧ c ≠ '\n'.toUInt8 := by decide +kernel
  rw [decode, List.filter_eq_self.mpr, decodeDigits_encode]
  intro c hc
  exact decide_eq_true (hbreak c (mem_alphabet_of_mem_encode hc))

theorem mem_alphabet_of_decodeDigit {c : UInt8} {d : ℕ} (h : decodeDigit c = some d) :
    c ∈ alphabet := by
  have hlen : alphabet.length = 64 := by decide +kernel
  unfold decodeDigit at h
  split_ifs at h with hidx
  rwa [← hlen, List.idxOf_lt_length_iff] at hidx

theorem mem_alphabet_of_decodeDigits : ∀ {s : GoString} {b : List UInt8},
    decodeDigits s = some b → ∀ c ∈ s, c ∈ alphabet
  | [], _, _ => by simp
  | [_], _, h => by cases h
  | [w, x], b, h => by
    simp only [decodeDigits, Option.bind_eq_bind, Option.bind_eq_some_iff] at h
    obtain ⟨_, hw, _, hx, -⟩ := h
    simp [mem_alphabet_of_decodeDigit hw, mem_alphabet_of_decodeDigit hx]
  | [w, x, y], b, h => by
    simp only [decodeDigits, Option.bind_eq_bind, Option.bind_eq_some_iff] at h
    obtain ⟨_, hw, _, hx, _, hy, -⟩ := h
    simp [mem_alphabet_of_decodeDigit hw, mem_alphabet_of_decodeDigit hx,
      mem_alphabet_of_decodeDigit hy]
  | w :: x :: y :: z :: s, b, h => by
    simp only [decodeDigits, Option.bind_eq_bind, Option.bind_eq_some_iff] at h
    obtain ⟨_, hw, _, hx, _, hy, _, hz, _, hs, -⟩ := h
    simp only [List.forall_mem_cons]
    exact ⟨mem_alphabet_of_decodeDigit hw, mem_alphabet_of_decodeDigit hx,
      mem_alphabet_of_decodeDigit hy, mem_alphabet_of_decodeDigit hz,
      mem_alphabet_of_decodeDigits hs⟩

/-- What decodes consists of digits and line breaks. -/
theorem mem_of_decode {s : GoString} {b : List UInt8} (h : decode s = some b) {c : UInt8}
    (hc : c ∈ s) : c ∈ alphabet ∨ c = '\r'.toUInt8 ∨ c = '\n'.toUInt8 := by
  by_cases hr : c = '\r'.toUInt8
  · exact .inr (.inl hr)
  by_cases hn : c = '\n'.toUInt8
  · exact .inr (.inr hn)
  exact .inl (mem_alphabet_of_decodeDigits h c (List.mem_filter.mpr ⟨hc, decide_eq_true ⟨hr, hn⟩⟩))

end Base64
