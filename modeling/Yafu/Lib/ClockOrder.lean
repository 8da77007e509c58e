import Yafu.Lib.Clock
import Mathlib.Algebra.Order.Ring.Nat

/-!
# Times in the order of their texts

Up to the year 9999 the RFC 3339 text of a time has fields of fixed widths, the larger units first.
So two texts compare byte by byte as the times do to the second (`rfc3339_lt_iff`).
-/

namespace Clock

/-! ## Numbers of fixed width -/

theorem decimal_of_lt {n : ℕ} (h : n < 10) : decimal n = [UInt8.ofNat (48 + n)] := by
  have hall : ∀ n < 10, decimal n = [UInt8.ofNat (48 + n)] := by decide
  exact hall n h

theorem decimal_of_le {n : ℕ} (h : 10 ≤ n) :
    decimal n = decimal (n / 10) ++ decimal (n % 10) := by
  have hdigits : Nat.toDigits 10 n = Nat.toDigits 10 (n / 10) ++ Nat.toDigits 10 (n % 10) := by
    rw [Nat.toDigits_of_base_le (by decide) h, Nat.toDigits_of_lt_base (Nat.mod_lt n (by decide))]
  have hrepr (m : ℕ) : decimal m = (Nat.toDigits 10 m).utf8Encode.data.toList :=
    congrArg (fun bytes : ByteArray => bytes.data.toList) String.toByteArray_ofList
  rw [hrepr, hrepr, hrepr, hdigits, List.utf8Encode_append, ByteArray.toList_data_append]

/-- A number is written in digits. -/
theorem digit_of_mem_decimal (n : ℕ) : ∀ c ∈ decimal n, '0'.toUInt8 ≤ c ∧ c ≤ '9'.toUInt8 := by
  have hall : ∀ n < 10, ((decimal n).all fun c => decide ('0'.toUInt8 ≤ c ∧ c ≤ '9'.toUInt8)) = true := by
    decide +kernel
  induction n using Nat.strong_induction_on with
  | _ n ih =>
    obtain hn | hn := Nat.lt_or_ge n 10
    · exact GoString.forall_mem_of_all (hall n hn)
    · rw [decimal_of_le hn]
      intro c hc
      rcases List.mem_append.mp hc with hc | hc
      · exact ih (n / 10) (by omega) c hc
      · exact GoString.forall_mem_of_all (hall _ (Nat.mod_lt n (by decide))) c hc

theorem padded_one {n : ℕ} (h : n < 10) : padded 1 n = decimal n := by
  rw [padded, decimal_of_lt h]
  rfl

theorem padded_succ {w : ℕ} (hw : 0 < w) (n : ℕ) :
    padded (w + 1) n = padded w (n / 10) ++ decimal (n % 10) := by
  have hdigit : ∀ {d : ℕ}, d < 10 → (decimal d).length = 1 := fun hd => by
    rw [decimal_of_lt hd]
    rfl
  obtain hn | hn := Nat.lt_or_ge n 10
  · have hzero : decimal 0 = List.replicate 1 '0'.toUInt8 := decimal_of_lt (by decide)
    rw [padded, padded, List.leftpad, List.leftpad, Nat.mod_eq_of_lt hn, Nat.div_eq_of_lt hn,
      hdigit hn, hdigit (by decide : 0 < 10), hzero, List.replicate_append_replicate,
      Nat.sub_add_cancel hw, Nat.add_sub_cancel]
  · rw [padded, padded, List.leftpad, List.leftpad, decimal_of_le hn, List.length_append,
      hdigit (Nat.mod_lt n (by decide)), Nat.add_sub_add_right, List.append_assoc]

theorem length_padded {w n : ℕ} (hw : 0 < w) (h : n < 10 ^ w) : (padded w n).length = w := by
  induction w, hw using Nat.le_induction generalizing n with
  | base =>
    rw [padded_one h, decimal_of_lt h]
    rfl
  | succ w hw ih =>
    rw [Nat.pow_succ] at h
    rw [padded_succ hw, List.length_append, ih (by omega), decimal_of_lt (Nat.mod_lt n (by decide))]
    rfl

/-- Of two lists of one length, the smaller one stays smaller with anything behind it. -/
theorem append_lt_append_of_lt {s t u v : GoString} (hlen : s.length = t.length) (h : s < t) :
    s ++ u < t ++ v := by
  induction s generalizing t with
  | nil => exact absurd (List.length_eq_zero_iff.mp hlen.symm) (fun ht => by simp [ht] at h)
  | cons b s ih =>
    cases t with
    | nil => cases hlen
    | cons c t =>
      rw [List.cons_append, List.cons_append, List.cons_lt_cons_iff]
      rw [List.cons_lt_cons_iff] at h
      exact h.imp_right fun ⟨hbc, hst⟩ => ⟨hbc, ih (Nat.succ_inj.mp hlen) hst⟩

theorem padded_lt_padded {w n m : ℕ} (hw : 0 < w) (hm : m < 10 ^ w) (h : n < m) :
    padded w n < padded w m := by
  have hdigit : ∀ {c d : ℕ}, d < 10 → c < d → decimal c < decimal d := fun {c d} hd hcd => by
    have hall : ∀ d < 10, ∀ c < d, decimal c < decimal d := by decide
    exact hall d hd c hcd
  induction w, hw using Nat.le_induction generalizing n m with
  | base =>
    have hm' : m < 10 := hm
    rw [padded_one (Nat.lt_trans h hm'), padded_one hm']
    exact hdigit hm' h
  | succ w hw ih =>
    rw [Nat.pow_succ] at hm
    rw [padded_succ hw, padded_succ hw]
    obtain hdiv | hdiv : n / 10 < m / 10 ∨ n / 10 = m / 10 ∧ n % 10 < m % 10 := by omega
    · refine append_lt_append_of_lt ?_ (ih (by omega) hdiv)
      rw [length_padded hw (by omega), length_padded hw (by omega)]
    · rw [hdiv.1]
      exact List.append_left_lt (hdigit (Nat.mod_lt m (by decide)) hdiv.2)

/-- A field decides, or it is the same and what comes behind it decides. -/
theorem padded_append_lt {w n m : ℕ} {s t : GoString} (hw : 0 < w) (hm : m < 10 ^ w)
    (h : n < m ∨ n = m ∧ s < t) : padded w n ++ s < padded w m ++ t := by
  obtain h | ⟨rfl, h⟩ := h
  · refine append_lt_append_of_lt ?_ (padded_lt_padded hw hm h)
    rw [length_padded hw (Nat.lt_trans h hm), length_padded hw hm]
  · exact List.append_left_lt h

/-- The same with a separator behind the field. -/
theorem field_lt {w n m : ℕ} {sep s t : GoString} (hw : 0 < w) (hm : m < 10 ^ w)
    (h : n < m ∨ n = m ∧ s < t) : padded w n ++ (sep ++ s) < padded w m ++ (sep ++ t) :=
  padded_append_lt hw hm (h.imp_right (And.imp_right List.append_left_lt))

/-! ## Dates -/

/-- Months and days in order. -/
theorem monthDay_lt {lengths : List ℕ} {m d d' : ℕ} (h : d < d') :
    (monthDay m lengths d).1 < (monthDay m lengths d').1 ∨
      (monthDay m lengths d).1 = (monthDay m lengths d').1 ∧
        (monthDay m lengths d).2 < (monthDay m lengths d').2 := by
  have hle : ∀ {lengths : List ℕ} {m d : ℕ}, m ≤ (monthDay m lengths d).1 := by
    intro lengths m d
    fun_induction monthDay m lengths d with
    | case1 | case2 => exact Nat.le_refl _
    | case3 m n lengths d _ ih => exact Nat.le_of_succ_le ih
  induction lengths generalizing m d d' with
  | nil => exact .inr ⟨rfl, Nat.succ_lt_succ h⟩
  | cons n lengths ih =>
    rw [monthDay, monthDay]
    split_ifs with hd hd' hd'
    · exact .inr ⟨rfl, Nat.succ_lt_succ h⟩
    · exact .inl (Nat.lt_of_succ_le hle)
    · exact absurd (Nat.lt_trans h hd') hd
    · exact ih (by omega)

theorem monthDay_le {lengths : List ℕ} (hlengths : ∀ n ∈ lengths, n ≤ 31) {m d : ℕ}
    (hd : d < lengths.sum + 31) :
    (monthDay m lengths d).1 ≤ m + lengths.length ∧ (monthDay m lengths d).2 ≤ 31 := by
  induction lengths generalizing m d with
  | nil => exact ⟨Nat.le_refl _, Nat.succ_le_of_lt (by simpa using hd)⟩
  | cons n lengths ih =>
    rw [List.forall_mem_cons] at hlengths
    rw [List.sum_cons] at hd
    rw [monthDay, List.length_cons]
    split_ifs with h
    · exact ⟨Nat.le_add_right _ _, by omega⟩
    · obtain ⟨hmonth, hday⟩ := @ih hlengths.2 (m + 1) (d - n) (by omega)
      exact ⟨by omega, hday⟩

/-- A number of days as cycles of 400, 100 and 4 years, years and days. -/
structure Cycles where
  n400 : ℕ
  n100 : ℕ
  n4 : ℕ
  n1 : ℕ
  day : ℕ
  n100_le : n100 ≤ 3
  n4_le : n4 ≤ 24
  n1_le : n1 ≤ 3
  day_lt : day < 365 ∨ n1 = 3 ∧ day = 365
  four : 365 * n1 + day ≤ 1460
  hundred : 1461 * n4 + 365 * n1 + day < 36524 ∨ n100 = 3 ∧ 1461 * n4 + 365 * n1 + day = 36524

namespace Cycles

/-- The days of all the cycles. -/
def days (c : Cycles) : ℕ := 146097 * c.n400 + 36524 * c.n100 + 1461 * c.n4 + 365 * c.n1 + c.day

/-- The number of the year. -/
def year (c : Cycles) : ℕ := 400 * c.n400 + 100 * c.n100 + 4 * c.n4 + c.n1 + 1

/-- The year has a day more. -/
def leap (c : Cycles) : Prop := c.n1 = 3 ∧ (c.n4 ≠ 24 ∨ c.n100 = 3)

instance (c : Cycles) : Decidable c.leap := inferInstanceAs (Decidable (_ ∧ _))

/-- The date of the last day. -/
def date (c : Cycles) : Date :=
  ⟨c.year, (monthDay 1 (monthLengths c.leap) c.day).1, (monthDay 1 (monthLengths c.leap) c.day).2⟩

/-- A later day is in a later year, or in the same one and a later day of it. -/
theorem year_lt {c c' : Cycles} (h : c.days < c'.days) :
    c.year < c'.year ∨ c.year = c'.year ∧ (c.leap ↔ c'.leap) ∧ c.day < c'.day := by
  obtain ⟨n400, n100, n4, n1, day, h100, h4, h1, hday, hfour, hhundred⟩ := c
  obtain ⟨n400', n100', n4', n1', day', h100', h4', h1', hday', hfour', hhundred'⟩ := c'
  simp only [days, year, leap] at h ⊢
  -- the first of the numbers that differs decides, the larger cycles first
  obtain hn | rfl : n400 < n400' ∨ n400 = n400' := by omega
  · exact .inl (by omega)
  obtain hn | rfl : n100 < n100' ∨ n100 = n100' := by omega
  · exact .inl (by omega)
  obtain hn | rfl : n4 < n4' ∨ n4 = n4' := by omega
  · exact .inl (by omega)
  obtain hn | rfl : n1 < n1' ∨ n1 = n1' := by omega
  · exact .inl (by omega)
  exact .inr ⟨rfl, .rfl, by omega⟩

end Cycles

theorem exists_cycles (days : ℕ) : ∃ c : Cycles, c.days = days ∧ c.date = date days := by
  have h400 : days % 146097 < 146097 := Nat.mod_lt _ (by decide)
  have h100 : days % 146097 - 36524 * min (days % 146097 / 36524) 3 < 36524 ∨
      min (days % 146097 / 36524) 3 = 3 ∧
        days % 146097 - 36524 * min (days % 146097 / 36524) 3 = 36524 := by omega
  refine ⟨⟨days / 146097, min (days % 146097 / 36524) 3,
    (days % 146097 - 36524 * min (days % 146097 / 36524) 3) / 1461,
    min ((days % 146097 - 36524 * min (days % 146097 / 36524) 3) % 1461 / 365) 3,
    (days % 146097 - 36524 * min (days % 146097 / 36524) 3) % 1461 -
      365 * min ((days % 146097 - 36524 * min (days % 146097 / 36524) 3) % 1461 / 365) 3,
    Nat.min_le_right _ _, ?_, Nat.min_le_right _ _, ?_, ?_, ?_⟩, ?_, rfl⟩
  · omega
  · omega
  · omega
  · omega
  · simp only [Cycles.days]
    omega

theorem date_le (days : ℕ) : (date days).month ≤ 13 ∧ (date days).day ≤ 31 := by
  have hlengths : ∀ leap, (∀ n ∈ monthLengths leap, n ≤ 31) ∧ 365 ≤ (monthLengths leap).sum := by
    decide
  obtain ⟨c, -, hdate⟩ := exists_cycles days
  obtain ⟨hall, hsum⟩ := hlengths c.leap
  have hday := c.day_lt
  rw [← hdate]
  exact monthDay_le hall (by omega)

/-- A later day has a later date. -/
theorem date_lt {d d' : ℕ} (h : d < d') :
    (date d).year < (date d').year ∨ (date d).year = (date d').year ∧
      ((date d).month < (date d').month ∨ (date d).month = (date d').month ∧
        (date d).day < (date d').day) := by
  obtain ⟨c, hc, hdate⟩ := exists_cycles d
  obtain ⟨c', hc', hdate'⟩ := exists_cycles d'
  rw [← hdate, ← hdate']
  obtain hyear | ⟨hyear, hleap, hday⟩ := c.year_lt (hc.symm ▸ hc'.symm ▸ h)
  · exact .inl hyear
  · refine .inr ⟨hyear, ?_⟩
    rw [Cycles.date, Cycles.date, decide_eq_decide.mpr hleap]
    exact monthDay_lt hday

/-! ## Texts -/

/-- The year of a time. -/
def year (t : ℕ) : ℕ := (date (t / 1000000000 / 86400)).year

theorem rfc3339_lt {t u : ℕ} (hyear : year u ≤ 9999) (h : t / 1000000000 < u / 1000000000) :
    rfc3339 t < rfc3339 u := by
  simp only [rfc3339, dateTime, List.append_assoc]
  generalize t / 1000000000 = s at h
  rw [year] at hyear
  generalize u / 1000000000 = s' at h hyear
  have hfour : (date (s' / 86400)).year < 10 ^ 4 := Nat.lt_succ_of_le hyear
  have hmonth : (date (s' / 86400)).month < 10 ^ 2 := Nat.lt_of_le_of_lt (date_le _).1 (by decide)
  have hday : (date (s' / 86400)).day < 10 ^ 2 := Nat.lt_of_le_of_lt (date_le _).2 (by decide)
  have hhour : s' % 86400 / 3600 < 10 ^ 2 := by omega
  have hminute : s' % 3600 / 60 < 10 ^ 2 := by omega
  have hsecond : s' % 60 < 10 ^ 2 := by omega
  obtain hdays | ⟨hdays, htime⟩ : s / 86400 < s' / 86400 ∨ s / 86400 = s' / 86400 ∧
      (s % 86400 / 3600 < s' % 86400 / 3600 ∨ s % 86400 / 3600 = s' % 86400 / 3600 ∧
        (s % 3600 / 60 < s' % 3600 / 60 ∨ s % 3600 / 60 = s' % 3600 / 60 ∧
          s % 60 < s' % 60)) := by
    omega
  · refine field_lt (by decide) hfour ((date_lt hdays).imp_right (And.imp_right fun h => ?_))
    refine field_lt (by decide) hmonth (h.imp_right (And.imp_right fun h => ?_))
    exact field_lt (by decide) hday (.inl h)
  · rw [hdays]
    refine field_lt (by decide) hfour (.inr ⟨rfl, field_lt (by decide) hmonth (.inr ⟨rfl, ?_⟩)⟩)
    refine field_lt (by decide) hday (.inr ⟨rfl, ?_⟩)
    refine field_lt (by decide) hhour (htime.imp_right (And.imp_right fun h => ?_))
    refine field_lt (by decide) hminute (h.imp_right (And.imp_right fun h => ?_))
    exact padded_append_lt (by decide) hsecond (.inl h)

theorem rfc3339_eq {t u : ℕ} (h : t / 1000000000 = u / 1000000000) : rfc3339 t = rfc3339 u := by
  rw [rfc3339, rfc3339, dateTime, dateTime, h]

/-- The texts of two times compare as the times do to the second. -/
theorem rfc3339_lt_iff {t u : ℕ} (ht : year t ≤ 9999) (hu : year u ≤ 9999) :
    rfc3339 t < rfc3339 u ↔ t / 1000000000 < u / 1000000000 := by
  refine ⟨fun h => ?_, rfc3339_lt hu⟩
  obtain hlt | heq | hgt := Nat.lt_trichotomy (t / 1000000000) (u / 1000000000)
  · exact hlt
  · rw [rfc3339_eq heq] at h
    exact absurd h (lt_irrefl _)
  · exact absurd h (lt_asymm (rfc3339_lt ht hgt))

end Clock
