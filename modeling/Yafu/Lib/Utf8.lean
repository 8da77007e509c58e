import Yafu.Lib.GoString

/-!
# UTF-8 one rune at a time

`unicode/utf8`: an encoding that is too short, not the shortest one, a surrogate or out of range
counts as one byte that decodes to `runeError`.

`coerce` replaces each such byte by U+FFFD, which is what a string goes through on its way into a Go
document format and out again. It leaves valid strings alone, and it works between two ASCII bytes
as if there were nothing else (`coerce_append`).
-/

namespace Utf8

/-- A Go `rune` that was decoded, hence not negative. -/
abbrev Rune := ℕ

/-- `utf8.RuneError`. -/
def runeError : Rune := 0xFFFD

/-- A byte of the form `10xxxxxx`. -/
def IsContinuation (b : UInt8) : Prop := 0x80 ≤ b ∧ b ≤ 0xBF

instance (b : UInt8) : Decidable (IsContinuation b) := inferInstanceAs (Decidable (_ ∧ _))

/-- The payload of a continuation byte. -/
def payload (b : UInt8) : ℕ := b.toNat % 0x40

/-- The bytes that may follow the leading byte `b` of an encoding of three or four bytes. -/
def secondRange (b : UInt8) : UInt8 × UInt8 :=
  if b = 0xE0 then (0xA0, 0xBF)
  else if b = 0xED then (0x80, 0x9F)
  else if b = 0xF0 then (0x90, 0xBF)
  else if b = 0xF4 then (0x80, 0x8F)
  else (0x80, 0xBF)

/-- `utf8.DecodeRuneInString`: the rune and the number of bytes it takes. -/
def decodeRune : GoString → Rune × ℕ
  | [] => (runeError, 0)
  | b :: s =>
    if b < 0x80 then (b.toNat, 1)
    else if b < 0xC2 then (runeError, 1)
    else if b < 0xE0 then
      match s with
      | c :: _ =>
        if IsContinuation c then (b.toNat % 0x20 * 0x40 + payload c, 2) else (runeError, 1)
      | [] => (runeError, 1)
    else if b < 0xF0 then
      match s with
      | c :: d :: _ =>
        if (secondRange b).1 ≤ c ∧ c ≤ (secondRange b).2 ∧ IsContinuation d then
          (b.toNat % 0x10 * 0x1000 + payload c * 0x40 + payload d, 3)
        else (runeError, 1)
      | _ => (runeError, 1)
    else if b < 0xF5 then
      match s with
      | c :: d :: e :: _ =>
        if (secondRange b).1 ≤ c ∧ c ≤ (secondRange b).2 ∧ IsContinuation d ∧ IsContinuation e then
          (b.toNat % 0x08 * 0x40000 + payload c * 0x1000 + payload d * 0x40 + payload e, 4)
        else (runeError, 1)
      | _ => (runeError, 1)
    else (runeError, 1)

/-- A nonempty string yields at least one byte. -/
theorem decodeRune_pos (b : UInt8) (s : GoString) : 0 < (decodeRune (b :: s)).2 := by
  rcases s with _ | ⟨c, _ | ⟨d, _ | ⟨e, s⟩⟩⟩ <;> simp only [decodeRune] <;> split_ifs <;> simp

/-! ## Encoding -/

/-- The encoding of `runeError`. -/
def replacement : GoString := [0xEF, 0xBF, 0xBD]

/-- `utf8.EncodeRune`. -/
def encodeRune (r : Rune) : GoString :=
  if r < 0x80 then [UInt8.ofNat r]
  else if r < 0x800 then [UInt8.ofNat (0xC0 + r / 0x40), UInt8.ofNat (0x80 + r % 0x40)]
  else if 0xD800 ≤ r ∧ r ≤ 0xDFFF ∨ 0x10FFFF < r then replacement
  else if r < 0x10000 then
    [UInt8.ofNat (0xE0 + r / 0x1000), UInt8.ofNat (0x80 + r / 0x40 % 0x40),
      UInt8.ofNat (0x80 + r % 0x40)]
  else
    [UInt8.ofNat (0xF0 + r / 0x40000), UInt8.ofNat (0x80 + r / 0x1000 % 0x40),
      UInt8.ofNat (0x80 + r / 0x40 % 0x40), UInt8.ofNat (0x80 + r % 0x40)]

/-! ## Coercion to valid UTF-8 -/

/-- No rune starts with these bytes: what is decoded is `runeError`, one byte wide. -/
def Broken (s : GoString) : Prop := decodeRune s = (runeError, 1)

instance (s : GoString) : Decidable (Broken s) := inferInstanceAs (Decidable (_ = _))

/-- Every byte that starts no rune replaced by U+FFFD. -/
def coerce : GoString → GoString
  | [] => []
  | b :: s =>
    if Broken (b :: s) then replacement ++ coerce s
    else
      have := decodeRune_pos b s
      (b :: s).take (decodeRune (b :: s)).2 ++ coerce ((b :: s).drop (decodeRune (b :: s)).2)
termination_by s => s.length
decreasing_by
  · exact Nat.lt_succ_self _
  · rw [List.length_drop, List.length_cons]
    exact Nat.sub_lt (Nat.succ_pos _) this

/-- `utf8.ValidString`. -/
def validString : GoString → Bool
  | [] => true
  | b :: s =>
    have := decodeRune_pos b s
    !decide (Broken (b :: s)) && validString ((b :: s).drop (decodeRune (b :: s)).2)
termination_by s => s.length
decreasing_by
  rw [List.length_drop, List.length_cons]
  exact Nat.sub_lt (Nat.succ_pos _) this

/-! ## What a rune can be -/

theorem toNat_of_isContinuation {c : UInt8} (h : IsContinuation c) :
    0x80 ≤ c.toNat ∧ c.toNat ≤ 0xBF :=
  ⟨UInt8.le_iff_toNat_le.mp h.1, UInt8.le_iff_toNat_le.mp h.2⟩

/-- The second byte of a longer encoding: the shortest encoding, no surrogate, nothing out of range.
-/
theorem toNat_of_secondRange {b c : UInt8} (h : (secondRange b).1 ≤ c ∧ c ≤ (secondRange b).2) :
    0x80 ≤ c.toNat ∧ c.toNat ≤ 0xBF ∧ (b.toNat = 0xE0 → 0xA0 ≤ c.toNat) ∧
      (b.toNat = 0xED → c.toNat ≤ 0x9F) ∧ (b.toNat = 0xF0 → 0x90 ≤ c.toNat) ∧
      (b.toNat = 0xF4 → c.toNat ≤ 0x8F) := by
  simp only [secondRange, UInt8.le_iff_toNat_le] at h
  simp only [← UInt8.toNat_inj] at h
  split_ifs at h <;> simp_all <;> omega

theorem ofNat_eq_of_toNat {n : ℕ} {b : UInt8} (h : n = b.toNat) : UInt8.ofNat n = b := by
  rw [h, UInt8.ofNat_toNat]

theorem encodeRune_two {b c : UInt8} (h1 : ¬ b < 0xC2) (h2 : b < 0xE0) (hc : IsContinuation c) :
    encodeRune (b.toNat % 0x20 * 0x40 + payload c) = [b, c] := by
  have hb1 : 0xC2 ≤ b.toNat := UInt8.le_iff_toNat_le.mp (UInt8.not_lt.mp h1)
  have hb2 : b.toNat < 0xE0 := UInt8.lt_iff_toNat_lt.mp h2
  obtain ⟨hc1, hc2⟩ := toNat_of_isContinuation hc
  have hpc : payload c = c.toNat % 0x40 := rfl
  generalize hr : b.toNat % 0x20 * 0x40 + payload c = r
  have hne : ¬ r < 0x80 := by omega
  have hlt : r < 0x800 := by omega
  rw [encodeRune, if_neg hne, if_pos hlt, ofNat_eq_of_toNat (b := b) (by omega),
    ofNat_eq_of_toNat (b := c) (by omega)]

theorem encodeRune_three {b c d : UInt8} (h1 : ¬ b < 0xE0) (h2 : b < 0xF0)
    (hc : (secondRange b).1 ≤ c ∧ c ≤ (secondRange b).2) (hd : IsContinuation d) :
    encodeRune (b.toNat % 0x10 * 0x1000 + payload c * 0x40 + payload d) = [b, c, d] := by
  have hb1 : 0xE0 ≤ b.toNat := UInt8.le_iff_toNat_le.mp (UInt8.not_lt.mp h1)
  have hb2 : b.toNat < 0xF0 := UInt8.lt_iff_toNat_lt.mp h2
  obtain ⟨hc1, hc2, hE0, hED, -, -⟩ := toNat_of_secondRange hc
  obtain ⟨hd1, hd2⟩ := toNat_of_isContinuation hd
  have hpc : payload c = c.toNat % 0x40 := rfl
  have hpd : payload d = d.toNat % 0x40 := rfl
  generalize hr : b.toNat % 0x10 * 0x1000 + payload c * 0x40 + payload d = r
  have hne : ¬ r < 0x80 := by omega
  have hne' : ¬ r < 0x800 := by omega
  have hrange : ¬ (0xD800 ≤ r ∧ r ≤ 0xDFFF ∨ 0x10FFFF < r) := by omega
  have hlt : r < 0x10000 := by omega
  rw [encodeRune, if_neg hne, if_neg hne', if_neg hrange, if_pos hlt,
    ofNat_eq_of_toNat (b := b) (by omega), ofNat_eq_of_toNat (b := c) (by omega),
    ofNat_eq_of_toNat (b := d) (by omega)]

theorem encodeRune_four {b c d e : UInt8} (h1 : ¬ b < 0xF0) (h2 : b < 0xF5)
    (hc : (secondRange b).1 ≤ c ∧ c ≤ (secondRange b).2) (hd : IsContinuation d)
    (he : IsContinuation e) :
    encodeRune (b.toNat % 0x08 * 0x40000 + payload c * 0x1000 + payload d * 0x40 + payload e) =
      [b, c, d, e] := by
  have hb1 : 0xF0 ≤ b.toNat := UInt8.le_iff_toNat_le.mp (UInt8.not_lt.mp h1)
  have hb2 : b.toNat < 0xF5 := UInt8.lt_iff_toNat_lt.mp h2
  obtain ⟨hc1, hc2, -, -, hF0, hF4⟩ := toNat_of_secondRange hc
  obtain ⟨hd1, hd2⟩ := toNat_of_isContinuation hd
  obtain ⟨he1, he2⟩ := toNat_of_isContinuation he
  have hpc : payload c = c.toNat % 0x40 := rfl
  have hpd : payload d = d.toNat % 0x40 := rfl
  have hpe : payload e = e.toNat % 0x40 := rfl
  generalize hr :
    b.toNat % 0x08 * 0x40000 + payload c * 0x1000 + payload d * 0x40 + payload e = r
  have hne : ¬ r < 0x80 := by omega
  have hne' : ¬ r < 0x800 := by omega
  have hrange : ¬ (0xD800 ≤ r ∧ r ≤ 0xDFFF ∨ 0x10FFFF < r) := by omega
  have hge : ¬ r < 0x10000 := by omega
  rw [encodeRune, if_neg hne, if_neg hne', if_neg hrange, if_neg hge,
    ofNat_eq_of_toNat (b := b) (by omega), ofNat_eq_of_toNat (b := c) (by omega),
    ofNat_eq_of_toNat (b := d) (by omega), ofNat_eq_of_toNat (b := e) (by omega)]

/-- What a rune can be: ASCII, broken, or some bytes beyond ASCII that decide it alone. -/
theorem decodeRune_cases (b : UInt8) (s : GoString) :
    (b < 0x80 ∧ decodeRune (b :: s) = (b.toNat, 1)) ∨ (0x80 ≤ b ∧ Broken (b :: s)) ∨
      ∃ r u v, s = u ++ v ∧ u ≠ [] ∧ (∀ c ∈ b :: u, 0x80 ≤ c) ∧ encodeRune r = b :: u ∧
        ∀ w, decodeRune (b :: (u ++ w)) = (r, u.length + 1) := by
  by_cases hb : b < 0x80
  · exact .inl ⟨hb, by simp only [decodeRune]; rw [if_pos hb]⟩
  refine .inr ?_
  have hb' : 0x80 ≤ b := UInt8.not_lt.mp hb
  by_cases hbroken : Broken (b :: s)
  · exact .inl ⟨hb', hbroken⟩
  refine .inr ?_
  have hsecond : ∀ {c : UInt8}, (secondRange b).1 ≤ c → 0x80 ≤ c := by
    intro c hc
    refine UInt8.le_trans ?_ hc
    simp only [secondRange]
    split_ifs <;> decide
  unfold Broken at hbroken
  by_cases h1 : b < 0xC2
  · simp only [decodeRune, if_neg hb, if_pos h1, not_true_eq_false] at hbroken
  by_cases h2 : b < 0xE0
  · rcases s with _ | ⟨c, v⟩
    · simp only [decodeRune, if_neg hb, if_neg h1, if_pos h2, not_true_eq_false] at hbroken
    by_cases h : IsContinuation c
    · refine ⟨b.toNat % 0x20 * 0x40 + payload c, [c], v, rfl, List.cons_ne_nil _ _, ?_,
        encodeRune_two h1 h2 h, fun w => ?_⟩
      · simp only [List.forall_mem_cons, hb', h.1, List.not_mem_nil, IsEmpty.forall_iff,
          implies_true, and_self]
      · simp only [List.cons_append, decodeRune, if_neg hb, if_neg h1, if_pos h2, if_pos h,
          List.length_singleton]
    · simp only [decodeRune, if_neg hb, if_neg h1, if_pos h2, if_neg h, not_true_eq_false] at hbroken
  by_cases h3 : b < 0xF0
  · rcases s with _ | ⟨c, _ | ⟨d, v⟩⟩
    · simp only [decodeRune, if_neg hb, if_neg h1, if_neg h2, if_pos h3, not_true_eq_false] at hbroken
    · simp only [decodeRune, if_neg hb, if_neg h1, if_neg h2, if_pos h3, not_true_eq_false] at hbroken
    by_cases h : (secondRange b).1 ≤ c ∧ c ≤ (secondRange b).2 ∧ IsContinuation d
    · refine ⟨b.toNat % 0x10 * 0x1000 + payload c * 0x40 + payload d, [c, d], v, rfl,
        List.cons_ne_nil _ _, ?_, encodeRune_three h2 h3 ⟨h.1, h.2.1⟩ h.2.2, fun w => ?_⟩
      · simp only [List.forall_mem_cons, hb', hsecond h.1, h.2.2.1, List.not_mem_nil,
          IsEmpty.forall_iff, implies_true, and_self]
      · simp only [List.cons_append, List.nil_append, decodeRune, if_neg hb, if_neg h1, if_neg h2,
          if_pos h3, if_pos h, List.length_cons, List.length_nil]
    · simp only [decodeRune, if_neg hb, if_neg h1, if_neg h2, if_pos h3, if_neg h,
        not_true_eq_false] at hbroken
  by_cases h4 : b < 0xF5
  · rcases s with _ | ⟨c, _ | ⟨d, _ | ⟨e, v⟩⟩⟩
    · simp only [decodeRune, if_neg hb, if_neg h1, if_neg h2, if_neg h3, if_pos h4,
        not_true_eq_false] at hbroken
    · simp only [decodeRune, if_neg hb, if_neg h1, if_neg h2, if_neg h3, if_pos h4,
        not_true_eq_false] at hbroken
    · simp only [decodeRune, if_neg hb, if_neg h1, if_neg h2, if_neg h3, if_pos h4,
        not_true_eq_false] at hbroken
    by_cases h : (secondRange b).1 ≤ c ∧ c ≤ (secondRange b).2 ∧ IsContinuation d ∧ IsContinuation e
    · refine ⟨b.toNat % 0x08 * 0x40000 + payload c * 0x1000 + payload d * 0x40 + payload e, [c, d, e],
        v, rfl, List.cons_ne_nil _ _, ?_, encodeRune_four h3 h4 ⟨h.1, h.2.1⟩ h.2.2.1 h.2.2.2,
        fun w => ?_⟩
      · simp only [List.forall_mem_cons, hb', hsecond h.1, h.2.2.1.1, h.2.2.2.1, List.not_mem_nil,
          IsEmpty.forall_iff, implies_true, and_self]
      · simp only [List.cons_append, List.nil_append, decodeRune, if_neg hb, if_neg h1, if_neg h2,
          if_neg h3, if_pos h4, if_pos h, List.length_cons, List.length_nil]
    · simp only [decodeRune, if_neg hb, if_neg h1, if_neg h2, if_neg h3, if_pos h4, if_neg h,
        not_true_eq_false] at hbroken
  · simp only [decodeRune, if_neg hb, if_neg h1, if_neg h2, if_neg h3, if_neg h4,
      not_true_eq_false] at hbroken

/-- A byte is not out of the range of `UInt8`, unlike `runeError`. -/
theorem not_broken_ascii {b : UInt8} {s : GoString} (h : b < 0x80) : ¬ Broken (b :: s) := by
  intro hbroken
  have hb := b.toNat_lt
  rcases decodeRune_cases b s with ⟨-, hdec⟩ | ⟨hge, -⟩ | ⟨-, u, -, -, -, hge, -⟩
  · have heq := congrArg Prod.fst (hdec.symm.trans hbroken)
    simp only [runeError] at heq
    omega
  · exact UInt8.not_lt.mpr hge h
  · exact UInt8.not_lt.mpr (hge b List.mem_cons_self) h

/-- Bytes that start no rune still start none when an ASCII byte follows them. -/
theorem Broken.append {b c : UInt8} {s : GoString} (hc : c < 0x80) (h : Broken (b :: s))
    (t : GoString) : Broken (b :: (s ++ c :: t)) := by
  rcases decodeRune_cases b (s ++ c :: t) with ⟨hb, -⟩ | ⟨-, hbroken⟩ | ⟨r, u, v, heq, hu, hge, henc, hdec⟩
  · exact absurd h (not_broken_ascii hb)
  · exact hbroken
  -- the rune would lie in `s`, which starts none
  rcases List.append_eq_append_iff.mp heq with ⟨a, rfl, ha⟩ | ⟨a, rfl, -⟩
  · rcases a with _ | ⟨d, a⟩
    · simp only [List.append_nil] at hu hdec
      have hdec' := hdec []
      rw [List.append_nil] at hdec'
      have hn : s.length + 1 = 1 := congrArg Prod.snd (hdec'.symm.trans h)
      have hpos := List.length_pos_iff.mpr hu
      omega
    · rw [List.cons_append, List.cons.injEq] at ha
      have hmem : c ∈ b :: (s ++ d :: a) := by simp [ha.1]
      exact absurd hc (UInt8.not_lt.mpr (hge c hmem))
  · have hn : u.length + 1 = 1 := congrArg Prod.snd ((hdec a).symm.trans h)
    have hpos := List.length_pos_iff.mpr hu
    omega

/-- What `decodeRune_cases` finds last is not broken. -/
theorem not_broken_rune {b : UInt8} {r : Rune} {u : GoString} (hu : u ≠ [])
    (h : ∀ w, decodeRune (b :: (u ++ w)) = (r, u.length + 1)) (v : GoString) :
    ¬ Broken (b :: (u ++ v)) := by
  intro hbroken
  have hn : u.length + 1 = 1 := congrArg Prod.snd ((h v).symm.trans hbroken)
  have hpos := List.length_pos_iff.mpr hu
  omega

/-! ## Working through a string rune by rune -/

theorem coerce_ascii {b : UInt8} (h : b < 0x80) (s : GoString) : coerce (b :: s) = b :: coerce s := by
  rcases decodeRune_cases b s with ⟨-, hdec⟩ | ⟨hge, -⟩ | ⟨-, u, -, -, -, hge, -⟩
  · rw [coerce, if_neg (not_broken_ascii h), hdec]
    rfl
  · exact absurd h (UInt8.not_lt.mpr hge)
  · exact absurd h (UInt8.not_lt.mpr (hge b List.mem_cons_self))

theorem coerce_broken {b : UInt8} {s : GoString} (h : Broken (b :: s)) :
    coerce (b :: s) = replacement ++ coerce s := by
  rw [coerce, if_pos h]

/-- The rune of `decodeRune_cases` is taken over. -/
theorem coerce_rune {b : UInt8} {r : Rune} {u : GoString} (hu : u ≠ [])
    (h : ∀ w, decodeRune (b :: (u ++ w)) = (r, u.length + 1)) (v : GoString) :
    coerce (b :: (u ++ v)) = b :: u ++ coerce v := by
  rw [coerce, if_neg (not_broken_rune hu h v), h v]
  simp only [List.take_succ_cons, List.take_left', List.drop_succ_cons, List.drop_left',
    List.cons_append]

theorem length_lt_cons_append (b : UInt8) (u v : GoString) : v.length < (b :: (u ++ v)).length := by
  rw [List.length_cons, List.length_append]
  exact Nat.lt_succ_of_le (Nat.le_add_left _ _)

/-- Induction along a string of which a broken rune takes its first byte and so many behind it. -/
theorem skip_induct (skip : UInt8 → GoString → ℕ) {motive : GoString → Prop} (nil : motive [])
    (ascii : ∀ b s, b < 0x80 → motive s → motive (b :: s))
    (broken : ∀ b s, 0x80 ≤ b → Broken (b :: s) → motive (s.drop (skip b s)) → motive (b :: s))
    (rune : ∀ b r u v, u ≠ [] → (∀ c ∈ b :: u, 0x80 ≤ c) → encodeRune r = b :: u →
      (∀ w, decodeRune (b :: (u ++ w)) = (r, u.length + 1)) → motive v → motive (b :: (u ++ v))) :
    ∀ s, motive s
  | [] => nil
  | b :: s => by
    rcases decodeRune_cases b s with ⟨hb, -⟩ | ⟨hge, hbroken⟩ | ⟨r, u, v, heq, hu, hge, henc, hdec⟩
    · exact ascii b s hb (skip_induct skip nil ascii broken rune s)
    · have hlen : (s.drop (skip b s)).length < (b :: s).length := by
        rw [List.length_drop, List.length_cons]
        omega
      exact broken b s hge hbroken (skip_induct skip nil ascii broken rune _)
    · have hlen : v.length < (b :: s).length := heq ▸ length_lt_cons_append b u v
      rw [heq]
      exact rune b r u v hu hge henc hdec (skip_induct skip nil ascii broken rune v)
termination_by s => s.length

/-- Induction along the runes of a string. -/
theorem rune_induct {motive : GoString → Prop} (nil : motive [])
    (ascii : ∀ b s, b < 0x80 → motive s → motive (b :: s))
    (broken : ∀ b s, 0x80 ≤ b → Broken (b :: s) → motive s → motive (b :: s))
    (rune : ∀ b r u v, u ≠ [] → (∀ c ∈ b :: u, 0x80 ≤ c) → encodeRune r = b :: u →
      (∀ w, decodeRune (b :: (u ++ w)) = (r, u.length + 1)) → motive v → motive (b :: (u ++ v))) :
    ∀ s, motive s :=
  skip_induct (fun _ _ => 0) nil ascii broken rune

/-- An ASCII byte separates what is before it from what is behind it. -/
theorem coerce_append {c : UInt8} (hc : c < 0x80) (s t : GoString) :
    coerce (s ++ c :: t) = coerce s ++ c :: coerce t := by
  induction s using rune_induct with
  | nil => rw [List.nil_append, coerce_ascii hc, coerce, List.nil_append]
  | ascii b s hb ih => rw [List.cons_append, coerce_ascii hb, coerce_ascii hb, ih, List.cons_append]
  | broken b s _ hbroken ih =>
    rw [List.cons_append, coerce_broken (hbroken.append hc t), coerce_broken hbroken, ih,
      List.append_assoc]
  | rune b r u v hu _ _ hdec ih =>
    rw [List.cons_append, List.append_assoc, coerce_rune hu hdec, coerce_rune hu hdec, ih,
      List.append_assoc]

/-- A string of ASCII bytes is valid. -/
theorem coerce_of_ascii {s : GoString} (h : ∀ c ∈ s, c < 0x80) : coerce s = s := by
  induction s with
  | nil => rw [coerce]
  | cons b s ih =>
    rw [List.forall_mem_cons] at h
    rw [coerce_ascii h.1, ih h.2]

/-- Coercion neither adds nor removes an ASCII byte. -/
theorem mem_coerce_ascii {c : UInt8} (hc : c < 0x80) {s : GoString} : c ∈ coerce s ↔ c ∈ s := by
  have hne : ∀ d, 0x80 ≤ d → c ≠ d := fun d hd heq => UInt8.not_lt.mpr (heq ▸ hd) hc
  induction s using rune_induct with
  | nil => rw [coerce]
  | ascii b s hb ih => simp only [coerce_ascii hb, List.mem_cons, ih]
  | broken b s hge hbroken ih =>
    have hrep : c ∉ replacement := by
      simp only [replacement, List.mem_cons, List.not_mem_nil, or_false, not_or]
      exact ⟨hne _ (by decide), hne _ (by decide), hne _ (by decide)⟩
    simp only [coerce_broken hbroken, List.mem_append, List.mem_cons, ih, hrep, hne b hge]
  | rune b r u v hu hge _ hdec ih =>
    have hrune : c ∉ b :: u := fun h => hne c (hge c h) rfl
    rw [coerce_rune hu hdec, ← List.cons_append]
    simp only [List.mem_append, ih, hrune]

/-- Coercion makes no string one of ASCII bytes that was not it before. -/
theorem coerce_eq_iff_of_ascii {a : GoString} (ha : ∀ c ∈ a, c < 0x80) (s : GoString) :
    coerce s = a ↔ s = a := by
  have hself : (∀ c ∈ coerce s, c < 0x80) → coerce s = s := by
    induction s using rune_induct with
    | nil => exact fun _ => by rw [coerce]
    | ascii b s hb ih =>
      rw [coerce_ascii hb, List.forall_mem_cons]
      exact fun h => by rw [ih h.2]
    | broken b s _ hbroken _ =>
      rw [coerce_broken hbroken]
      exact fun h => absurd (h 0xEF (by simp [replacement])) (by decide)
    | rune b r u v hu hge _ hdec _ =>
      rw [coerce_rune hu hdec]
      exact fun h => absurd (h b (by simp)) (UInt8.not_lt.mpr (hge b List.mem_cons_self))
  constructor
  · rintro rfl
    exact (hself ha).symm
  · rintro rfl
    exact coerce_of_ascii ha

theorem coerce_eq_nil_iff (s : GoString) : coerce s = [] ↔ s = [] :=
  coerce_eq_iff_of_ascii (by simp) s

theorem head?_coerce {c : UInt8} (hc : c < 0x80) (s : GoString) :
    (coerce s).head? = some c ↔ s.head? = some c := by
  have hne : ∀ d, 0x80 ≤ d → d ≠ c := fun d hd heq => UInt8.not_lt.mpr (heq ▸ hd) hc
  induction s using rune_induct with
  | nil => rw [coerce]
  | ascii b s hb _ => rw [coerce_ascii hb, List.head?_cons, List.head?_cons]
  | broken b s hge hbroken _ =>
    simp only [coerce_broken hbroken, replacement, List.cons_append, List.head?_cons,
      Option.some.injEq, hne b hge, hne 0xEF (by decide)]
  | rune b r u v hu _ _ hdec _ =>
    rw [coerce_rune hu hdec, List.cons_append, List.head?_cons, List.head?_cons]

theorem getLast?_coerce {c : UInt8} (hc : c < 0x80) (s : GoString) :
    (coerce s).getLast? = some c ↔ s.getLast? = some c := by
  have hne : ∀ d, 0x80 ≤ d → d ≠ c := fun d hd heq => UInt8.not_lt.mpr (heq ▸ hd) hc
  have happend : ∀ (u : GoString) {v : GoString}, v ≠ [] → (u ++ v).getLast? = v.getLast? :=
    fun u _ hv => List.getLast?_append_of_ne_nil u hv
  induction s using rune_induct with
  | nil => rw [coerce]
  | ascii b s hb ih =>
    rw [coerce_ascii hb]
    rcases eq_or_ne s [] with rfl | hs
    · rw [coerce]
    · rw [← List.singleton_append, ← List.singleton_append (l := s), happend _ hs,
        happend _ ((coerce_eq_nil_iff s).not.mpr hs)]
      exact ih
  | broken b s hge hbroken ih =>
    rw [coerce_broken hbroken]
    rcases eq_or_ne s [] with rfl | hs
    · simp only [coerce, List.append_nil, replacement, List.getLast?_cons_cons,
        List.getLast?_singleton, Option.some.injEq, hne b hge, hne 0xBD (by decide)]
    · rw [← List.singleton_append (l := s), happend _ hs,
        happend _ ((coerce_eq_nil_iff s).not.mpr hs)]
      exact ih
  | rune b r u v hu _ _ hdec ih =>
    rw [coerce_rune hu hdec, ← List.cons_append]
    rcases eq_or_ne v [] with rfl | hv
    · rw [coerce]
    · rw [happend _ hv, happend _ ((coerce_eq_nil_iff v).not.mpr hv)]
      exact ih

/-- What is measured byte by byte, the replacement being longer than any byte, is not coerced
without growing. -/
theorem coerce_eq_or_lt {f : UInt8 → GoString} (hf : ∀ b, (f b).length < (replacement.flatMap f).length)
    (s : GoString) : coerce s = s ∨ (s.flatMap f).length < ((coerce s).flatMap f).length := by
  induction s using rune_induct with
  | nil => exact .inl (by rw [coerce])
  | ascii b s hb ih =>
    rw [coerce_ascii hb]
    refine ih.imp (congrArg (b :: ·)) fun ih => ?_
    simp only [List.flatMap_cons, List.length_append]
    omega
  | broken b s _ hbroken ih =>
    rw [coerce_broken hbroken]
    refine .inr ?_
    have hle : (s.flatMap f).length ≤ ((coerce s).flatMap f).length := by
      rcases ih with ih | ih
      · rw [ih]
      · exact ih.le
    have hb := hf b
    simp only [List.flatMap_cons, List.flatMap_append, List.length_append]
    omega
  | rune b r u v hu _ _ hdec ih =>
    rw [coerce_rune hu hdec]
    refine ih.imp (fun ih => by rw [ih, List.cons_append]) fun ih => ?_
    simp only [List.flatMap_cons, List.flatMap_append, List.length_append, List.cons_append]
    omega

/-- Coercion does nothing exactly to valid strings. -/
theorem coerce_eq_self_iff (s : GoString) : coerce s = s ↔ validString s = true := by
  induction s using rune_induct with
  | nil => simp only [coerce, validString]
  | ascii b s hb ih =>
    have hdec : decodeRune (b :: s) = (b.toNat, 1) := by simp only [decodeRune]; rw [if_pos hb]
    rw [coerce_ascii hb, validString, decide_eq_false (not_broken_ascii hb), hdec, List.cons.injEq]
    simpa using ih
  | broken b s _ hbroken ih =>
    rw [validString, decide_eq_true hbroken, coerce_broken hbroken]
    have hlt : (s.flatMap fun b => [b]).length ≤ ((coerce s).flatMap fun b => [b]).length := by
      rcases coerce_eq_or_lt (f := fun b => [b]) (fun _ => by simp [replacement]) s with heq | hlt
      · rw [heq]
      · exact hlt.le
    simp only [List.flatMap_singleton'] at hlt
    refine ⟨fun heq => ?_, fun h => by simp at h⟩
    have hlen := congrArg List.length heq
    simp only [List.length_append, List.length_cons, replacement, List.length_nil] at hlen
    omega
  | rune b r u v hu _ _ hdec ih =>
    rw [coerce_rune hu hdec, validString, decide_eq_false (not_broken_rune hu hdec v), hdec v]
    simpa using ih

theorem validString_of_ascii {s : GoString} (h : ∀ c ∈ s, c < 0x80) : validString s = true :=
  (coerce_eq_self_iff s).mp (coerce_of_ascii h)

/-! ## Decoding a stream

How a browser decodes UTF-8: of a broken encoding, the bytes that could have started a rune together
become one U+FFFD.
-/

/-- `c` may be the second byte of a rune of three or four that starts with `b`. -/
def IsSecond (b c : UInt8) : Prop :=
  0xE0 ≤ b ∧ b < 0xF5 ∧ (secondRange b).1 ≤ c ∧ c ≤ (secondRange b).2

instance (b c : UInt8) : Decidable (IsSecond b c) := inferInstanceAs (Decidable (_ ∧ _))

/-- The bytes behind a broken one that could have gone on to a rune with it. -/
def continuing (b : UInt8) : GoString → ℕ
  | [] => 0
  | [c] => if IsSecond b c then 1 else 0
  | c :: d :: _ => if IsSecond b c then if 0xF0 ≤ b ∧ IsContinuation d then 2 else 1 else 0

/-- `UTF-8 decode without BOM`, encoded again. -/
def decode : GoString → GoString
  | [] => []
  | b :: s =>
    if Broken (b :: s) then replacement ++ decode (s.drop (continuing b s))
    else
      have := decodeRune_pos b s
      (b :: s).take (decodeRune (b :: s)).2 ++ decode ((b :: s).drop (decodeRune (b :: s)).2)
termination_by s => s.length
decreasing_by
  · rw [List.length_drop, List.length_cons]
    omega
  · rw [List.length_drop, List.length_cons]
    exact Nat.sub_lt (Nat.succ_pos _) this

theorem continuing_le (b : UInt8) (s : GoString) : continuing b s ≤ s.length := by
  rcases s with _ | ⟨c, _ | ⟨d, s⟩⟩
  · exact Nat.le_refl 0
  · simp only [continuing, List.length_singleton]
    split_ifs <;> omega
  · simp only [continuing, List.length_cons]
    split_ifs <;> omega

theorem le_of_isSecond {b c : UInt8} (h : IsSecond b c) : 0x80 ≤ c := by
  refine UInt8.le_trans ?_ h.2.2.1
  simp only [secondRange]
  split_ifs <;> decide

theorem not_isSecond_ascii (b : UInt8) {c : UInt8} (hc : c < 0x80) : ¬ IsSecond b c := fun h =>
  UInt8.not_lt.mpr (le_of_isSecond h) hc

/-- An ASCII byte never belongs to an encoding before it. -/
theorem continuing_append (b : UInt8) {c : UInt8} (hc : c < 0x80) (s t : GoString) :
    continuing b (s ++ c :: t) = continuing b s := by
  have hcont : ¬ IsContinuation c := fun h => UInt8.not_lt.mpr h.1 hc
  rcases s with _ | ⟨d, _ | ⟨e, s⟩⟩
  · rcases t with _ | ⟨d, t⟩
    · exact if_neg (not_isSecond_ascii b hc)
    · exact if_neg (not_isSecond_ascii b hc)
  · simp only [List.cons_append, List.nil_append, continuing, hcont, and_false, if_false]
  · rfl

theorem decode_ascii {b : UInt8} (h : b < 0x80) (s : GoString) : decode (b :: s) = b :: decode s := by
  rcases decodeRune_cases b s with ⟨-, hdec⟩ | ⟨hge, -⟩ | ⟨-, u, -, -, -, hge, -⟩
  · rw [decode, if_neg (not_broken_ascii h), hdec]
    rfl
  · exact absurd h (UInt8.not_lt.mpr hge)
  · exact absurd h (UInt8.not_lt.mpr (hge b List.mem_cons_self))

theorem decode_broken {b : UInt8} {s : GoString} (h : Broken (b :: s)) :
    decode (b :: s) = replacement ++ decode (s.drop (continuing b s)) := by
  rw [decode, if_pos h]

theorem decode_rune {b : UInt8} {r : Rune} {u : GoString} (hu : u ≠ [])
    (h : ∀ w, decodeRune (b :: (u ++ w)) = (r, u.length + 1)) (v : GoString) :
    decode (b :: (u ++ v)) = b :: u ++ decode v := by
  rw [decode, if_neg (not_broken_rune hu h v), h v]
  simp only [List.take_succ_cons, List.take_left', List.drop_succ_cons, List.drop_left',
    List.cons_append]

/-- Induction along what a decoder takes at once. -/
theorem decode_induct {motive : GoString → Prop} (nil : motive [])
    (ascii : ∀ b s, b < 0x80 → motive s → motive (b :: s))
    (broken : ∀ b s, 0x80 ≤ b → Broken (b :: s) → motive (s.drop (continuing b s)) → motive (b :: s))
    (rune : ∀ b r u v, u ≠ [] → (∀ c ∈ b :: u, 0x80 ≤ c) → encodeRune r = b :: u →
      (∀ w, decodeRune (b :: (u ++ w)) = (r, u.length + 1)) → motive v → motive (b :: (u ++ v))) :
    ∀ s, motive s :=
  skip_induct continuing nil ascii broken rune

/-- An ASCII byte separates what is before it from what is behind it. -/
theorem decode_append {c : UInt8} (hc : c < 0x80) (s t : GoString) :
    decode (s ++ c :: t) = decode s ++ c :: decode t := by
  induction s using decode_induct with
  | nil => rw [List.nil_append, decode_ascii hc, decode, List.nil_append]
  | ascii b s hb ih => rw [List.cons_append, decode_ascii hb, decode_ascii hb, ih, List.cons_append]
  | broken b s _ hbroken ih =>
    rw [List.cons_append, decode_broken (hbroken.append hc t), decode_broken hbroken,
      continuing_append b hc, List.drop_append_of_le_length (continuing_le b s), ih,
      List.append_assoc]
  | rune b r u v hu _ _ hdec ih =>
    rw [List.cons_append, List.append_assoc, decode_rune hu hdec, decode_rune hu hdec, ih,
      List.append_assoc]

theorem head?_decode {c : UInt8} (hc : c < 0x80) (s : GoString) :
    (decode s).head? = some c ↔ s.head? = some c := by
  have hne : ∀ d, 0x80 ≤ d → d ≠ c := fun d hd heq => UInt8.not_lt.mpr (heq ▸ hd) hc
  induction s using decode_induct with
  | nil => rw [decode]
  | ascii b s hb _ => rw [decode_ascii hb, List.head?_cons, List.head?_cons]
  | broken b s hge hbroken _ =>
    simp only [decode_broken hbroken, replacement, List.cons_append, List.head?_cons,
      Option.some.injEq, hne b hge, hne 0xEF (by decide)]
  | rune b r u v hu _ _ hdec _ =>
    rw [decode_rune hu hdec, List.cons_append, List.head?_cons, List.head?_cons]

theorem decode_eq_nil_iff (s : GoString) : decode s = [] ↔ s = [] := by
  induction s using decode_induct with
  | nil => rw [decode]
  | ascii b s hb _ => rw [decode_ascii hb]; simp
  | broken b s _ hbroken _ => rw [decode_broken hbroken]; simp [replacement]
  | rune b r u v hu _ _ hdec _ => rw [decode_rune hu hdec]; simp

theorem validString_ascii_cons {b : UInt8} (h : b < 0x80) (s : GoString) :
    validString (b :: s) = validString s := by
  have hdec : decodeRune (b :: s) = (b.toNat, 1) := by simp only [decodeRune]; rw [if_pos h]
  rw [validString, decide_eq_false (not_broken_ascii h), hdec]
  rfl

theorem validString_rune {b : UInt8} {r : Rune} {u : GoString} (hu : u ≠ [])
    (h : ∀ w, decodeRune (b :: (u ++ w)) = (r, u.length + 1)) (v : GoString) :
    validString (b :: (u ++ v)) = validString v := by
  rw [validString, decide_eq_false (not_broken_rune hu h v), h v]
  simp only [Bool.not_false, Bool.true_and, List.drop_succ_cons, List.drop_left']

theorem validString_replacement (s : GoString) :
    validString (replacement ++ s) = validString s := by
  have hdec : ∀ w, decodeRune (0xEF :: ([0xBF, 0xBD] ++ w)) = (runeError, 2 + 1) := fun w => rfl
  exact validString_rune (List.cons_ne_nil _ _) hdec s

/-- What is decoded is valid. -/
theorem validString_decode (s : GoString) : validString (decode s) = true := by
  induction s using decode_induct with
  | nil => rw [decode, validString]
  | ascii b s hb ih => rw [decode_ascii hb, validString_ascii_cons hb, ih]
  | broken b s _ hbroken ih => rw [decode_broken hbroken, validString_replacement, ih]
  | rune b r u v hu _ _ hdec ih =>
    rw [decode_rune hu hdec, List.cons_append, validString_rune hu hdec, ih]

/-- Decoding does nothing exactly to valid strings. -/
theorem decode_eq_self_iff (s : GoString) : decode s = s ↔ validString s = true := by
  constructor
  · intro h
    rw [← h]
    exact validString_decode s
  · intro h
    induction s using decode_induct with
    | nil => rw [decode]
    | ascii b s hb ih =>
      rw [validString_ascii_cons hb] at h
      rw [decode_ascii hb, ih h]
    | broken b s _ hbroken ih =>
      rw [validString, decide_eq_true hbroken] at h
      cases h
    | rune b r u v hu _ _ hdec ih =>
      rw [validString_rune hu hdec] at h
      rw [decode_rune hu hdec, ih h, List.cons_append]

/-- A string is valid if what is before and behind an ASCII byte is. -/
theorem validString_append_cons {c : UInt8} (hc : c < 0x80) (s t : GoString) :
    validString (s ++ c :: t) = (validString s && validString t) := by
  induction s using decode_induct with
  | nil => rw [List.nil_append, validString_ascii_cons hc, validString, Bool.true_and]
  | ascii b s hb ih =>
    rw [List.cons_append, validString_ascii_cons hb, validString_ascii_cons hb, ih]
  | broken b s _ hbroken ih =>
    rw [List.cons_append, validString, validString, decide_eq_true (hbroken.append hc t),
      decide_eq_true hbroken]
    rfl
  | rune b r u v hu _ _ hdec ih =>
    rw [List.cons_append, List.append_assoc, validString_rune hu hdec, validString_rune hu hdec, ih]

theorem validString_append {s t : GoString} (hs : validString s = true) (ht : validString t = true) :
    validString (s ++ t) = true := by
  induction s using rune_induct with
  | nil => exact ht
  | ascii b s hb ih =>
    rw [validString_ascii_cons hb] at hs
    rw [List.cons_append, validString_ascii_cons hb]
    exact ih hs
  | broken b s _ hbroken ih =>
    rw [validString, decide_eq_true hbroken] at hs
    cases hs
  | rune b r u v hu _ _ hdec ih =>
    rw [validString_rune hu hdec] at hs
    rw [List.cons_append, List.append_assoc, validString_rune hu hdec]
    exact ih hs

theorem le_of_mem_take_continuing {b c : UInt8} {s : GoString} (h : c ∈ s.take (continuing b s)) :
    0x80 ≤ c := by
  rcases s with _ | ⟨d, _ | ⟨e, s⟩⟩
  · cases h
  · rw [continuing] at h
    split_ifs at h with hd
    · rw [List.mem_singleton.mp h]
      exact le_of_isSecond hd
    · cases h
  · rw [continuing] at h
    split_ifs at h with hd he
    · rcases List.mem_cons.mp h with rfl | h
      · exact le_of_isSecond hd
      · rw [List.mem_singleton.mp h]
        exact he.2.1
    · rw [List.mem_singleton.mp h]
      exact le_of_isSecond hd
    · cases h

/-- The ASCII bytes are those of the string, in their order. -/
theorem filter_decode {q : UInt8 → Bool} (hq : ∀ c, 0x80 ≤ c → q c = false) (s : GoString) :
    (decode s).filter q = s.filter q := by
  have hnone : ∀ {t : GoString}, (∀ c ∈ t, 0x80 ≤ c) → t.filter q = [] := fun h =>
    List.filter_eq_nil_iff.mpr fun c hc => by rw [hq c (h c hc)]; decide
  induction s using decode_induct with
  | nil => rw [decode]
  | ascii b s hb ih => rw [decode_ascii hb, List.filter_cons, List.filter_cons, ih]
  | broken b s hb hbroken ih =>
    have hsplit := List.take_append_drop (continuing b s) s
    rw [decode_broken hbroken, List.filter_append, hnone (GoString.forall_mem_of_all (by decide)), ih, List.nil_append,
      List.filter_cons, hq b hb]
    conv_rhs => rw [← hsplit]
    rw [List.filter_append, hnone fun c => le_of_mem_take_continuing]
    rfl
  | rune b r u v hu hge _ hdec ih =>
    rw [decode_rune hu hdec, ← List.cons_append, List.filter_append, List.filter_append, ih]

theorem mem_decode_ascii {c : UInt8} (hc : c < 0x80) {s : GoString} : c ∈ decode s ↔ c ∈ s := by
  have hq : ∀ d, 0x80 ≤ d → decide (d = c) = false := by
    intro d hd
    refine decide_eq_false ?_
    rintro rfl
    exact UInt8.not_lt.mpr hd hc
  have hfilter := filter_decode hq s
  have hmem (t : GoString) : c ∈ t.filter (fun d => decide (d = c)) ↔ c ∈ t := by simp
  rw [← hmem, hfilter, hmem]

theorem decode_ascii_append {a : GoString} (ha : ∀ c ∈ a, c < 0x80) (s : GoString) :
    decode (a ++ s) = a ++ decode s := by
  induction a with
  | nil => rfl
  | cons b a ih =>
    rw [List.forall_mem_cons] at ha
    rw [List.cons_append, decode_ascii ha.1, ih ha.2, List.cons_append]

end Utf8
