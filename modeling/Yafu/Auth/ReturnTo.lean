import Yafu.Auth.Handshake

/-!
# Where a login returns to

Reference: `internal/auth/oidc.go`, `sanitizeReturnTo` and the redirects of the handlers.

The path that a login returns to is checked as it was written and rebuilt from its decoded form.
What was escaped is then taken literally: a slash, a backslash, a question mark, a number sign, a
percent sign or a control byte changes what the rebuilt string means. Behind that, `http.Redirect`
cleans the path, and the state cookie holds valid UTF-8 only. `Plain` is what is left of the inputs
when all of these are excluded.
-/

namespace Yafu.Auth

open Http Utf8
open GoString (before)

/-! ## What the login promises -/

/-- A browser resolves this reference to a page of the origin that it comes from. -/
def StaysOnOrigin (s : GoString) : Prop :=
  (∃ v, Url.parse s = some v ∧ v.scheme = [] ∧ v.host = []) ∧
    ¬ ("//" : GoString) <+: s ∧ ¬ ("/\\" : GoString) <+: s

/-- The result of `sanitizeReturnTo`: nothing, or the page of the input again. -/
def SafeReturn (raw s : GoString) : Prop :=
  s = [] ∨ StaysOnOrigin s ∧ ∃ u v, Url.parse raw = some u ∧ Url.parse s = some v ∧
    v.path = u.path ∧ v.rawQuery = u.rawQuery

/-- The input is a page of this origin by its parts: no scheme, no host, an absolute path. -/
def LocalPage (u : URL) : Prop :=
  u.scheme = [] ∧ u.host = [] ∧ u.path.head? = some '/'.toUInt8

/-- The `Location` of the callback: a page of this origin, and the one of the input if that is one.
`http.Redirect` writes the path in its clean form, and bytes beyond ASCII as escapes. -/
def LandsOn (raw loc : GoString) : Prop :=
  StaysOnOrigin loc ∧ ∀ u, Url.parse raw = some u → LocalPage u →
    ∃ v, Url.parse loc = some v ∧ v.path = Path.cleanTrailing u.path ∧
      v.rawQuery = hexEscapeNonASCII u.rawQuery

/-- As a string, the path means what it means as a path. -/
structure Literal (path : GoString) : Prop where
  head : path.head? = some '/'.toUInt8
  slash : ¬ ("//" : GoString) <+: path
  question : '?'.toUInt8 ∉ path
  number : '#'.toUInt8 ∉ path
  percent : '%'.toUInt8 ∉ path
  control : ∀ b ∈ path, ¬ Url.IsControl b

/-- The decoded path is literal and does not look like a host to a browser, clean or not, and there
is nothing for the cookie to coerce. -/
structure Plain (u : URL) : Prop where
  literal : Literal u.path
  backslash : ¬ ("/\\" : GoString) <+: u.path
  cleanBackslash : ¬ ("/\\" : GoString) <+: Path.cleanTrailing u.path
  pathValid : validString (Path.cleanTrailing u.path) = true
  queryValid : validString u.rawQuery = true

/-- A query that stays one when it is written behind a path. -/
def PlainQuery (rawQuery : GoString) : Prop :=
  '#'.toUInt8 ∉ rawQuery ∧ ∀ b ∈ rawQuery, ¬ Url.IsControl b

/-- The reference with this path and this query. -/
def rebuild (path rawQuery : GoString) : GoString :=
  path ++ if rawQuery ≠ [] then '?'.toUInt8 :: rawQuery else []

theorem sanitizeReturnTo_of_localPage {raw : GoString} {u : URL} (h : Url.parse raw = some u)
    (hu : LocalPage u) : sanitizeReturnTo raw = rebuild u.path u.rawQuery := by
  have hraw : raw ≠ [] := by
    rintro rfl
    obtain rfl := Option.some.inj h
    exact absurd hu.2.2 (by decide)
  have hschemehost : ¬ (u.scheme ≠ [] ∨ u.host ≠ []) := by
    rw [not_or, not_not, not_not]
    exact ⟨hu.1, hu.2.1⟩
  simp only [sanitizeReturnTo, if_neg hraw, h, if_neg hschemehost, if_neg (not_not.mpr hu.2.2)]
  rfl

theorem sanitizeReturnTo_eq_nil {raw : GoString}
    (h : ∀ u, Url.parse raw = some u → ¬ LocalPage u) : sanitizeReturnTo raw = [] := by
  unfold sanitizeReturnTo
  split_ifs with hraw
  · rfl
  rcases hparse : Url.parse raw with _ | u
  · rfl
  simp only
  by_cases hschemehost : u.scheme ≠ [] ∨ u.host ≠ []
  · rw [if_pos hschemehost]
  by_cases hpath : u.path.head? ≠ some '/'.toUInt8
  · rw [if_neg hschemehost, if_pos hpath]
  · rw [not_or, not_not, not_not] at hschemehost
    exact absurd ⟨hschemehost.1, hschemehost.2, not_not.mp hpath⟩ (h u hparse)

/-! ## Rebuilt references -/

section Rebuild

variable {P Q : GoString}

theorem rebuild_head? (hP : P.head? = some '/'.toUInt8) :
    (rebuild P Q).head? = some '/'.toUInt8 := by
  obtain ⟨t, rfl⟩ := List.head?_eq_some_iff.mp hP
  rfl

/-- The query does not get into the first two bytes. -/
theorem pair_prefix_rebuild (hP : P.head? = some '/'.toUInt8) {b : UInt8} (hb : b ≠ '?'.toUInt8) :
    ['/'.toUInt8, b] <+: rebuild P Q ↔ ['/'.toUInt8, b] <+: P := by
  obtain ⟨t, rfl⟩ := List.head?_eq_some_iff.mp hP
  rw [GoString.pair_prefix_iff, GoString.pair_prefix_iff]
  rcases t with _ | ⟨c, t⟩
  · rcases Q with _ | ⟨d, Q⟩
    · rfl
    · simp [rebuild, Ne.symm hb]
  · rfl

theorem before_question_rebuild (hP : '?'.toUInt8 ∉ P) :
    before '?'.toUInt8 (rebuild P Q) = P := by
  rcases Q with _ | ⟨d, Q⟩
  · rw [rebuild, if_neg (not_not.mpr rfl), List.append_nil, GoString.before_of_notMem hP]
  · rw [rebuild, if_pos (List.cons_ne_nil d Q), GoString.before_append hP]

theorem cut_question_rebuild (hP : '?'.toUInt8 ∉ P) (s : GoString) :
    ((GoString.cut '?'.toUInt8 (rebuild P Q)).getD (s, [])).2 = Q := by
  rcases Q with _ | ⟨d, Q⟩
  · rw [rebuild, if_neg (not_not.mpr rfl), List.append_nil, GoString.cut_eq_none hP]
    rfl
  · rw [rebuild, if_pos (List.cons_ne_nil d Q), GoString.cut_append hP]
    rfl

theorem mem_rebuild {b : UInt8} (h : b ∈ rebuild P Q) : b ∈ P ∨ b = '?'.toUInt8 ∨ b ∈ Q := by
  rw [rebuild, List.mem_append] at h
  refine h.imp_right fun h => ?_
  split_ifs at h
  · exact List.mem_cons.mp h
  · exact absurd h List.not_mem_nil

/-- A rebuilt reference parses into what it was built from, the path unescaped once more. -/
theorem parse_rebuild {P' : GoString} (hP : P.head? = some '/'.toUInt8)
    (hslash : ¬ ("//" : GoString) <+: P) (hquestion : '?'.toUInt8 ∉ P) (hnumber : '#'.toUInt8 ∉ P)
    (hcontrol : ∀ b ∈ P, ¬ Url.IsControl b) (hQ : PlainQuery Q)
    (hunescape : Url.unescape .path P = some P') :
    Url.parse (rebuild P Q) = some { path := P', rawQuery := Q } := by
  have hdouble : ¬ ("//" : GoString) <+: rebuild P Q :=
    (pair_prefix_rebuild hP (by decide)).not.mpr hslash
  have hnum : '#'.toUInt8 ∉ rebuild P Q := fun h => by
    rcases mem_rebuild h with h | h | h
    · exact hnumber h
    · exact absurd h (by decide)
    · exact hQ.1 h
  have hctl : ¬ ∃ b ∈ rebuild P Q, Url.IsControl b := by
    rintro ⟨b, hb, hc⟩
    rcases mem_rebuild hb with h | rfl | h
    · exact hcontrol b h hc
    · exact absurd hc (by decide)
    · exact hQ.2 b h hc
  rw [Url.parse_of_notMem hnum, Url.parseNoFragment_of_slash (rebuild_head? hP) hdouble, if_neg hctl,
    before_question_rebuild hquestion, hunescape, cut_question_rebuild hquestion]
  rfl

theorem Literal.parse (hP : Literal P) (hQ : PlainQuery Q) :
    Url.parse (rebuild P Q) = some { path := P, rawQuery := Q } :=
  parse_rebuild hP.head hP.slash hP.question hP.number hP.control hQ
    (Url.unescape_path_of_notMem hP.percent)

/-- The other way around: a rebuilt reference with the path that it was built from has no byte in it
that would be read in another way. -/
theorem literal_of_parse_rebuild {v : URL} (hP : P.head? = some '/'.toUInt8)
    (hslash : ¬ ("//" : GoString) <+: P) (h : Url.parse (rebuild P Q) = some v) (hpath : v.path = P) :
    Literal P := by
  have hx := Url.parseNoFragment_of_parse h
  have hxs := GoString.before_prefix '#'.toUInt8 (rebuild P Q)
  have hdouble : ¬ ("//" : GoString) <+: before '#'.toUInt8 (rebuild P Q) := fun hpre =>
    hslash ((pair_prefix_rebuild hP (by decide)).mp (hpre.trans hxs))
  have hhead : (before '#'.toUInt8 (rebuild P Q)).head? = some '/'.toUInt8 := by
    obtain ⟨t, rfl⟩ := List.head?_eq_some_iff.mp hP
    rfl
  rw [Url.parseNoFragment_of_slash hhead hdouble] at hx
  split_ifs at hx with hcontrol
  obtain ⟨path, hunescape, rfl⟩ := Option.map_eq_some_iff.mp hx
  obtain rfl : path = P := hpath
  have hyx := GoString.before_prefix '?'.toUInt8 (before '#'.toUInt8 (rebuild path Q))
  have hquestion := GoString.notMem_before '?'.toUInt8 (before '#'.toUInt8 (rebuild path Q))
  have hnumber := GoString.notMem_before '#'.toUInt8 (rebuild path Q)
  obtain ⟨hle, hlt⟩ := Url.length_of_unescape hunescape
  -- what is unescaped is not shorter than the path, so that the path is a part of it
  have hpy : path <+: before '?'.toUInt8 (before '#'.toUInt8 (rebuild path Q)) :=
    List.prefix_of_prefix_length_le (List.prefix_append _ _) (hyx.trans hxs) hle
  refine ⟨hP, hslash, fun hmem => hquestion (hpy.subset hmem),
    fun hmem => hnumber (hyx.subset (hpy.subset hmem)), fun hmem => ?_,
    fun b hb hc => hcontrol ⟨b, hyx.subset (hpy.subset hb), hc⟩⟩
  -- an escape would make it longer, but behind the path there is a question mark or nothing
  obtain ⟨z, hz⟩ := hpy
  have hlen := hlt (hz ▸ List.mem_append_left z hmem)
  rw [← hz] at hlen hquestion
  obtain ⟨c, z, rfl⟩ := List.exists_cons_of_ne_nil (l := z) (by rintro rfl; simp at hlen)
  have hpre : path ++ c :: z <+: rebuild path Q := hz ▸ hyx.trans hxs
  rw [rebuild, List.prefix_append_right_inj] at hpre
  split_ifs at hpre
  · rw [List.cons_prefix_cons] at hpre
    exact hquestion (List.mem_append_right _ (hpre.1 ▸ List.mem_cons_self))
  · exact absurd (List.prefix_nil.mp hpre) (List.cons_ne_nil c z)

end Rebuild

/-! ## Through the cookie and the redirect -/

/-- A control byte is no part of an escape. -/
theorem isControl_notEscape {b : UInt8} (h : Url.IsControl b) :
    b ≠ '%'.toUInt8 ∧ GoString.unhex b = none := by
  rcases h with h | rfl
  · have hle : ∀ c : UInt8, ' '.toUInt8 ≤ c → ¬ c ≤ b := fun c hc hcb =>
      UInt8.not_lt.mpr (UInt8.le_trans hc hcb) h
    refine ⟨fun heq => hle '%'.toUInt8 (by decide) (heq ▸ UInt8.le_refl _), ?_⟩
    rw [GoString.unhex, if_neg fun h => hle '0'.toUInt8 (by decide) h.1,
      if_neg fun h => hle 'a'.toUInt8 (by decide) h.1, if_neg fun h => hle 'A'.toUInt8 (by decide) h.1]
  · decide

theorem isControl_ascii {b : UInt8} (h : Url.IsControl b) : b < 0x80 := by
  rcases h with h | rfl
  · exact UInt8.lt_trans h (by decide)
  · decide

section Location

variable {P Q : GoString}

/-- Two ASCII bytes at the front are still there after coercion. -/
theorem pair_prefix_coerce (hP : P.head? = some '/'.toUInt8) {b : UInt8} (hb : b < 0x80) :
    ['/'.toUInt8, b] <+: coerce P ↔ ['/'.toUInt8, b] <+: P := by
  obtain ⟨t, rfl⟩ := List.head?_eq_some_iff.mp hP
  rw [coerce_ascii (by decide), GoString.pair_prefix_iff, GoString.pair_prefix_iff, List.tail_cons,
    List.tail_cons, head?_coerce hb]
  rfl

theorem pair_prefix_hexEscape (hP : P.head? = some '/'.toUInt8) {b : UInt8} (hb : b < 0x80)
    (hpercent : b ≠ '%'.toUInt8) :
    ['/'.toUInt8, b] <+: hexEscapeNonASCII P ↔ ['/'.toUInt8, b] <+: P := by
  obtain ⟨t, rfl⟩ := List.head?_eq_some_iff.mp hP
  rw [hexEscapeNonASCII_cons (by decide), GoString.pair_prefix_iff, GoString.pair_prefix_iff,
    List.tail_cons, List.tail_cons, head?_hexEscapeNonASCII hb hpercent]
  rfl

theorem Literal.coerce (h : Literal P) : Literal (coerce P) where
  head := (head?_coerce (by decide) P).mpr h.head
  slash := (pair_prefix_coerce h.head (by decide)).not.mpr h.slash
  question := (mem_coerce_ascii (by decide)).not.mpr h.question
  number := (mem_coerce_ascii (by decide)).not.mpr h.number
  percent := (mem_coerce_ascii (by decide)).not.mpr h.percent
  control b hb hc := h.control b ((mem_coerce_ascii (isControl_ascii hc)).mp hb) hc

theorem PlainQuery.coerce (h : PlainQuery Q) : PlainQuery (coerce Q) :=
  ⟨(mem_coerce_ascii (by decide)).not.mpr h.1,
    fun b hb hc => h.2 b ((mem_coerce_ascii (isControl_ascii hc)).mp hb) hc⟩

theorem Literal.cleanTrailing (h : Literal P) : Literal (Path.cleanTrailing P) := by
  obtain ⟨s, hs, hslash⟩ := Path.cleanTrailing_of_slash h.head
  have hmem : ∀ {b}, b ∈ Path.cleanTrailing P → b ∈ P ∨ b = Path.slash :=
    fun hb => Path.mem_cleanTrailing h.head hb
  refine ⟨by rw [hs]; rfl, fun hpre => hslash ?_, fun hb => ?_, fun hb => ?_, fun hb => ?_,
    fun b hb hc => ?_⟩
  · rw [hs] at hpre
    exact (GoString.pair_prefix_iff.mp hpre).2
  · exact (hmem hb).elim h.question (by decide)
  · exact (hmem hb).elim h.number (by decide)
  · exact (hmem hb).elim h.percent (by decide)
  · rcases hmem hb with hb | rfl
    · exact h.control b hb hc
    · exact absurd hc (by decide)

theorem coerce_rebuild (P Q : GoString) : coerce (rebuild P Q) = rebuild (coerce P) (coerce Q) := by
  rcases eq_or_ne Q [] with rfl | hQ
  · simp only [rebuild, ne_eq, not_true_eq_false, if_false, List.append_nil, Utf8.coerce]
  · have hQ' := (coerce_eq_nil_iff Q).not.mpr hQ
    rw [rebuild, rebuild, if_pos hQ, if_pos hQ', coerce_append (by decide)]

theorem hexEscape_rebuild (P Q : GoString) :
    hexEscapeNonASCII (rebuild P Q) = rebuild (hexEscapeNonASCII P) (hexEscapeNonASCII Q) := by
  rcases eq_or_ne Q [] with rfl | hQ
  · rw [rebuild, rebuild, hexEscapeNonASCII_append]
    rfl
  · have hQ' := (hexEscapeNonASCII_eq_nil_iff Q).not.mpr hQ
    rw [rebuild, rebuild, if_pos hQ, if_pos hQ', hexEscapeNonASCII_append,
      hexEscapeNonASCII_cons (by decide)]

/-- `http.Redirect` cleans the path of a rebuilt reference, wherever the request was for. -/
theorem redirectTarget_rebuild (hP : Literal P) (hQ : PlainQuery Q) (oldPath : GoString) :
    redirectTarget oldPath (rebuild P Q) = rebuild (Path.cleanTrailing P) Q := by
  have hhead : (rebuild P Q).head? = some Path.slash := rebuild_head? hP.head
  simp only [redirectTarget, hP.parse hQ, and_self, if_true, hhead]
  rcases eq_or_ne Q [] with rfl | hne
  · simp only [rebuild, ne_eq, not_true_eq_false, if_false, List.append_nil,
      GoString.cut_eq_none hP.question]
  · simp only [rebuild, if_pos hne, GoString.cut_append hP.question]

/-- The `Location` parses into the path and the escaped query that it was built from. -/
theorem parse_hexEscape_rebuild (hP : Literal P) (hQ : PlainQuery Q) :
    Url.parse (hexEscapeNonASCII (rebuild P Q)) =
      some { path := P, rawQuery := hexEscapeNonASCII Q } := by
  have hmem : ∀ {c}, c < 0x80 → c ≠ '%'.toUInt8 → GoString.unhex c = none → ∀ s,
      c ∈ hexEscapeNonASCII s ↔ c ∈ s := fun hc hp hd s => mem_hexEscapeNonASCII hc hp hd s
  have hcontrol : ∀ {s : GoString}, (∀ b ∈ s, ¬ Url.IsControl b) →
      ∀ b ∈ hexEscapeNonASCII s, ¬ Url.IsControl b := by
    intro s hs b hb hc
    obtain ⟨hpercent, hdigit⟩ := isControl_notEscape hc
    exact hs b ((hmem (isControl_ascii hc) hpercent hdigit s).mp hb) hc
  rw [hexEscape_rebuild]
  refine parse_rebuild ?_ ?_ ?_ ?_ (hcontrol hP.control) ⟨?_, hcontrol hQ.2⟩
    (unescape_hexEscapeNonASCII hP.percent)
  · exact (head?_hexEscapeNonASCII (by decide) (by decide) P).mpr hP.head
  · exact (pair_prefix_hexEscape hP.head (by decide) (by decide)).not.mpr hP.slash
  · exact (hmem (by decide) (by decide) (by decide) P).not.mpr hP.question
  · exact (hmem (by decide) (by decide) (by decide) P).not.mpr hP.number
  · exact (hmem (by decide) (by decide) (by decide) Q).not.mpr hQ.1

end Location

/-! ## The round trip -/

section RoundTrip

variable {raw : GoString} {u : URL}

/-- The check of the rebuilt reference, in terms of what it is rebuilt from. -/
theorem safeReturn_iff (hu : Url.parse raw = some u) (hlocal : LocalPage u) :
    SafeReturn raw (sanitizeReturnTo raw) ↔
      Literal u.path ∧ ¬ ("/\\" : GoString) <+: u.path := by
  have hhead := hlocal.2.2
  have hback := pair_prefix_rebuild (Q := u.rawQuery) hhead (b := '\\'.toUInt8) (by decide)
  have hslash := pair_prefix_rebuild (Q := u.rawQuery) hhead (b := '/'.toUInt8) (by decide)
  rw [sanitizeReturnTo_of_localPage hu hlocal]
  constructor
  · rintro (hnil | ⟨⟨-, hdouble, hbackslash⟩, u', v, hu', hv, hpath, -⟩)
    · have hne := rebuild_head? (Q := u.rawQuery) hhead
      rw [hnil] at hne
      cases hne
    · obtain rfl := Option.some.inj (hu.symm.trans hu')
      exact ⟨literal_of_parse_rebuild hhead (hslash.not.mp hdouble) hv hpath,
        hback.not.mp hbackslash⟩
  · rintro ⟨hlit, hbackslash⟩
    have hparse := hlit.parse (Url.rawQuery_of_parse hu)
    exact .inr ⟨⟨⟨_, hparse, rfl, rfl⟩, hslash.not.mpr hlit.slash, hback.not.mpr hbackslash⟩,
      u, _, hu, hparse, rfl, rfl⟩

/-- Coercion of the query is seen through the escapes. -/
theorem hexEscape_coerce_iff (Q : GoString) :
    hexEscapeNonASCII (coerce Q) = hexEscapeNonASCII Q ↔ validString Q = true := by
  rw [← coerce_eq_self_iff]
  refine ⟨fun h => ?_, fun h => by rw [h]⟩
  refine (coerce_eq_or_lt length_hexEscapeByte Q).resolve_right fun hlt => ?_
  exact absurd (congrArg List.length h) (Nat.ne_of_gt hlt)

/-- Where the callback of a literal path leads, in terms of the path. -/
theorem landsOn_iff (hu : Url.parse raw = some u) (hlocal : LocalPage u) (hlit : Literal u.path)
    (oldPath : GoString) :
    LandsOn raw (hexEscapeNonASCII
        (redirectTarget oldPath (coerce (rebuild u.path u.rawQuery)))) ↔
      ¬ ("/\\" : GoString) <+: Path.cleanTrailing u.path ∧
        validString (Path.cleanTrailing u.path) = true ∧ validString u.rawQuery = true := by
  have hQ : PlainQuery u.rawQuery := Url.rawQuery_of_parse hu
  have hC := hlit.cleanTrailing
  have hparse := parse_hexEscape_rebuild hC.coerce hQ.coerce
  have hloc : hexEscapeNonASCII (redirectTarget oldPath (coerce (rebuild u.path u.rawQuery))) =
      hexEscapeNonASCII (rebuild (coerce (Path.cleanTrailing u.path)) (coerce u.rawQuery)) := by
    rw [coerce_rebuild, redirectTarget_rebuild hlit.coerce hQ.coerce,
      Path.cleanTrailing_coerce hlit.head]
  have hpair : ∀ b < (0x80 : UInt8), b ≠ '%'.toUInt8 → b ≠ '?'.toUInt8 →
      (['/'.toUInt8, b] <+: hexEscapeNonASCII
        (rebuild (coerce (Path.cleanTrailing u.path)) (coerce u.rawQuery)) ↔
        ['/'.toUInt8, b] <+: Path.cleanTrailing u.path) := by
    intro b hb hpercent hquestion
    have hhead := rebuild_head? (Q := coerce u.rawQuery) hC.coerce.head
    rw [pair_prefix_hexEscape hhead hb hpercent, pair_prefix_rebuild hC.coerce.head hquestion,
      pair_prefix_coerce hC.head hb]
  rw [hloc, ← coerce_eq_self_iff (Path.cleanTrailing u.path), ← hexEscape_coerce_iff u.rawQuery]
  constructor
  · rintro ⟨⟨-, -, hback⟩, hpage⟩
    obtain ⟨v, hv, hpath, hquery⟩ := hpage u hu hlocal
    obtain rfl := Option.some.inj (hparse.symm.trans hv)
    exact ⟨(hpair _ (by decide) (by decide) (by decide)).not.mp hback, hpath, hquery⟩
  · rintro ⟨hback, hpath, hquery⟩
    have hslash := (hpair '/'.toUInt8 (by decide) (by decide) (by decide)).not.mpr hC.slash
    have hback' := (hpair '\\'.toUInt8 (by decide) (by decide) (by decide)).not.mpr hback
    refine ⟨⟨⟨_, hparse, rfl, rfl⟩, hslash, hback'⟩, fun u' hu' _ => ?_⟩
    obtain rfl := Option.some.inj (hu.symm.trans hu')
    exact ⟨_, hparse, hpath, hquery⟩

theorem plain_iff : Plain u ↔ (Literal u.path ∧ ¬ ("/\\" : GoString) <+: u.path) ∧
    ¬ ("/\\" : GoString) <+: Path.cleanTrailing u.path ∧
      validString (Path.cleanTrailing u.path) = true ∧ validString u.rawQuery = true :=
  ⟨fun h => ⟨⟨h.literal, h.backslash⟩, h.cleanBackslash, h.pathValid, h.queryValid⟩,
    fun h => ⟨h.1.1, h.1.2, h.2.1, h.2.2.1, h.2.2.2⟩⟩

/-- A callback with the cookie of a login that sends the browser anywhere sends it to what the login
rebuilt, as the cookie holds it. -/
theorem location_of_login {cfg : OidcConfig} {env : Env} {idp : Idp} {rnd : LoginRandom}
    {r q : Request} {loc : GoString}
    (hcookie : q.cookie stateCookieName = some (setStateCookie cfg env (newState rnd r)).value)
    (hloc : (handleCallback cfg env idp q).1.location = some loc) :
    loc = hexEscapeNonASCII (redirectTarget q.path (newState rnd r).coerced.dest) := by
  rcases handleCallback_cases cfg env idp q with ⟨st, raw, token, hacc⟩ | ⟨hnone, -⟩
  · obtain rfl := Option.some.inj (hacc.cookie.symm.trans (readStateCookie_of_cookie hcookie))
    rw [handleCallback_of_accepted hacc] at hloc
    exact (Option.some.inj hloc).symm
  · rw [hnone] at hloc
    cases hloc

theorem staysOnOrigin_root (oldPath : GoString) :
    StaysOnOrigin (hexEscapeNonASCII (redirectTarget oldPath "/")) := by
  have hlit : Literal "/" := by constructor <;> decide +kernel
  have hQ : PlainQuery [] := ⟨List.not_mem_nil, fun b hb => absurd hb List.not_mem_nil⟩
  have htarget : redirectTarget oldPath "/" = "/" := redirectTarget_rebuild hlit hQ oldPath
  rw [htarget]
  exact ⟨⟨{ path := "/" }, hlit.parse hQ, rfl, rfl⟩, by decide, by decide⟩

/-- The path is rebuilt safely, and the callback lands on it, exactly for the inputs that are no page of
this origin, which are dropped, and for those whose decoded path is plain. -/
theorem safe_and_landsOn_iff {st : OidcState} (hreturn : st.returnTo = coerce (sanitizeReturnTo raw))
    (oldPath : GoString) :
    SafeReturn raw (sanitizeReturnTo raw) ∧
        LandsOn raw (hexEscapeNonASCII (redirectTarget oldPath st.dest)) ↔
      ∀ u, Url.parse raw = some u → LocalPage u → Plain u := by
  by_cases hlocal : ∃ u, Url.parse raw = some u ∧ LocalPage u
  · obtain ⟨u, hu, hpage⟩ := hlocal
    have hrebuilt := sanitizeReturnTo_of_localPage hu hpage
    have hne : coerce (rebuild u.path u.rawQuery) ≠ [] := by
      intro hnil
      have hhead := rebuild_head? (Q := u.rawQuery) hpage.2.2
      rw [(coerce_eq_nil_iff _).mp hnil] at hhead
      cases hhead
    have hdest : st.dest = coerce (rebuild u.path u.rawQuery) := by
      rw [OidcState.dest, hreturn, hrebuilt, if_neg hne]
    have hall : (∀ u', Url.parse raw = some u' → LocalPage u' → Plain u') ↔ Plain u :=
      ⟨fun h => h u hu hpage, fun h u' hu' _ => Option.some.inj (hu.symm.trans hu') ▸ h⟩
    rw [hall, plain_iff, safeReturn_iff hu hpage, hdest]
    exact and_congr_right fun hlit => landsOn_iff hu hpage hlit.1 oldPath
  · have hnone : ∀ u, Url.parse raw = some u → ¬ LocalPage u :=
      fun u hu hpage => hlocal ⟨u, hu, hpage⟩
    have hnil := sanitizeReturnTo_eq_nil hnone
    have hdest : st.dest = "/" := by
      rw [OidcState.dest, hreturn, hnil, Utf8.coerce, if_pos rfl]
    rw [hnil, hdest]
    exact ⟨fun _ u hu hpage => absurd hpage (hnone u hu),
      fun _ => ⟨.inl rfl, staysOnOrigin_root oldPath, fun u hu hpage => absurd hpage (hnone u hu)⟩⟩

/-- The login round trip keeps its promise exactly for the inputs that are no page of this origin,
which it drops, and for those whose decoded path is plain. -/
theorem returnsSafely_iff_plain {cfg : OidcConfig} {env : Env} {idp : Idp} {rnd : LoginRandom}
    {r q : Request} {loc : GoString}
    (hcookie : q.cookie stateCookieName = some (setStateCookie cfg env (newState rnd r)).value)
    (hloc : (handleCallback cfg env idp q).1.location = some loc) :
    SafeReturn (r.query "return") (sanitizeReturnTo (r.query "return")) ∧
        LandsOn (r.query "return") loc ↔
      ∀ u, Url.parse (r.query "return") = some u → LocalPage u → Plain u := by
  have hreturn : (newState rnd r).coerced.returnTo = coerce (sanitizeReturnTo (r.query "return")) := by
    rw [newState_coerced]
  rw [location_of_login hcookie hloc]
  exact safe_and_landsOn_iff hreturn q.path

theorem returnsSafely_sample :
    SafeReturn (sampleLogin.query "return") (sanitizeReturnTo (sampleLogin.query "return")) ∧
      LandsOn (sampleLogin.query "return") "/apps" := by
  have hquery : sampleLogin.query "return" = "/apps" := by decide +kernel
  have hloc : (handleCallback sampleConfig (sampleEnv sampleMac) sampleIdp
      (sampleCallback sampleMac sampleLogin)).1.location = some "/apps" := by
    rw [handleCallback_of_accepted (accepted_sample sampleMac sampleLogin)]
    decide +kernel
  have hcookie : (sampleCallback sampleMac sampleLogin).cookie stateCookieName =
      some (setStateCookie sampleConfig (sampleEnv sampleMac)
        (newState sampleRandom sampleLogin)).value := rfl
  refine (returnsSafely_iff_plain hcookie hloc).mpr fun u hu _ => ?_
  rw [hquery] at hu
  obtain rfl : u = { path := "/apps" } := Option.some.inj (hu.symm.trans (by decide +kernel))
  refine ⟨?_, by decide +kernel, by decide +kernel, by decide +kernel, by decide +kernel⟩
  constructor <;> decide +kernel

end RoundTrip

/-! ## An escaped slash -/

/-- The return path `/%2Fevil.example`, in a query. -/
def hostileLogin : Request :=
  { path := "/auth/login", rawQuery := "return=%2F%252Fevil.example" }

/-- HMAC-SHA256 of the state of this login under the secret of the sample. -/
def hostileMac : GoString :=
  [0xEA, 0x0B, 0xFE, 0x49, 0x02, 0x23, 0x29, 0x9B, 0xE0, 0x62, 0x1C, 0x43, 0xA5, 0x44, 0x50, 0x02,
    0xA4, 0xA8, 0x10, 0x68, 0x10, 0xDB, 0xEE, 0xAC, 0x54, 0x21, 0x5B, 0xF3, 0x44, 0xBD, 0x66, 0x72]

/-- The second slash is escaped in the input and literal in what is rebuilt: the callback sends the
browser to another host. -/
theorem not_returnsSafely_hostile :
    hostileLogin.query "return" = "/%2Fevil.example" ∧
      (handleCallback sampleConfig (sampleEnv hostileMac) sampleIdp
        (sampleCallback hostileMac hostileLogin)).1.location = some "//evil.example" ∧
      ¬ SafeReturn "/%2Fevil.example" (sanitizeReturnTo "/%2Fevil.example") ∧
      ¬ LandsOn "/%2Fevil.example" "//evil.example" := by
  have hsanitize : sanitizeReturnTo "/%2Fevil.example" = "//evil.example" := by decide +kernel
  have hstays : ¬ StaysOnOrigin "//evil.example" := fun h => h.2.1 (by decide)
  refine ⟨by decide +kernel, ?_, ?_, fun h => hstays h.1⟩
  · rw [handleCallback_of_accepted (accepted_sample hostileMac hostileLogin)]
    decide +kernel
  · rw [hsanitize]
    exact fun h => hstays (h.resolve_left (by decide)).1

end Yafu.Auth
