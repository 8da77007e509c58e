import Yafu.Lib.Path
import Yafu.Lib.Url

/-!
# Requests, responses, redirects

`net/http` as a handler sees it: a request is parsed, cookies included, and a response is what the
handler set, without the HTML link that `Redirect` adds to its body.
-/

namespace Http

open GoString (hexDigit)

/-- `http.SameSite`. -/
inductive SameSite
  | unset
  | lax
deriving DecidableEq, Repr

/-- `http.Cookie`; `expires` counts from the zero time, which stands for none. -/
structure Cookie where
  name : GoString
  value : GoString
  path : GoString := []
  domain : GoString := []
  expires : ℕ := 0
  maxAge : ℤ := 0
  httpOnly : Bool := false
  sameSite : SameSite := .unset
  secure : Bool := false
deriving DecidableEq, Repr

/-- `http.Request`: the URL, and the cookies in the order of the header. -/
structure Request where
  path : GoString := []
  rawQuery : GoString := []
  cookies : List (GoString × GoString) := []
deriving DecidableEq, Repr

/-- `r.Cookie`: the value of the first cookie of that name. -/
def Request.cookie (r : Request) (name : GoString) : Option GoString :=
  (r.cookies.find? fun c => c.1 = name).map Prod.snd

/-- `r.URL.Query().Get`. -/
def Request.query (r : Request) (key : GoString) : GoString := Url.get (Url.parseQuery r.rawQuery) key

/-- What a handler sends. -/
structure Response where
  status : ℕ
  body : GoString := []
  location : Option GoString := none
  setCookies : List Cookie := []
deriving DecidableEq, Repr

def statusFound : ℕ := 302
def statusBadRequest : ℕ := 400
def statusInternalServerError : ℕ := 500
def statusBadGateway : ℕ := 502

/-- `http.Error`, after the cookies that are set already. -/
def error (setCookies : List Cookie) (msg : GoString) (code : ℕ) : Response :=
  { status := code, body := msg ++ ("\n" : GoString), setCookies }

/-- One byte of `hexEscapeNonASCII`. -/
def hexEscapeByte (b : UInt8) : GoString :=
  if 0x80 ≤ b then ['%'.toUInt8, hexDigit (b.toNat / 16), hexDigit (b.toNat % 16)] else [b]

/-- `hexEscapeNonASCII`. -/
def hexEscapeNonASCII (s : GoString) : GoString := s.flatMap hexEscapeByte

/-- The directory of `path.Split`. -/
def splitDir (path : GoString) : GoString := (path.reverse.dropWhile (· ≠ Path.slash)).reverse

/-- The target of `Redirect` from a request for `oldPath`. -/
def redirectTarget (oldPath url : GoString) : GoString :=
  match Url.parse url with
  | none => url
  | some u =>
    if u.scheme = [] ∧ u.host = [] then
      let oldPath := if oldPath = [] then [Path.slash] else oldPath
      let url := if url.head? = some Path.slash then url else splitDir oldPath ++ url
      match GoString.cut '?'.toUInt8 url with
      | none => Path.cleanTrailing url
      | some (path, query) => Path.cleanTrailing path ++ '?'.toUInt8 :: query
    else url

/-- `http.Redirect`, after the cookies that are set already. -/
def redirect (r : Request) (setCookies : List Cookie) (url : GoString) (code : ℕ) : Response :=
  { status := code, location := some (hexEscapeNonASCII (redirectTarget r.path url)), setCookies }

/-! ## Escaping what is beyond ASCII -/

theorem hexEscapeNonASCII_append (s t : GoString) :
    hexEscapeNonASCII (s ++ t) = hexEscapeNonASCII s ++ hexEscapeNonASCII t := List.flatMap_append

theorem hexEscapeNonASCII_cons {b : UInt8} (hb : b < 0x80) (s : GoString) :
    hexEscapeNonASCII (b :: s) = b :: hexEscapeNonASCII s := by
  rw [hexEscapeNonASCII, List.flatMap_cons, hexEscapeByte, if_neg (UInt8.not_le.mpr hb)]
  rfl

theorem hexEscapeNonASCII_eq_nil_iff (s : GoString) : hexEscapeNonASCII s = [] ↔ s = [] := by
  rcases s with _ | ⟨b, s⟩
  · simp [hexEscapeNonASCII]
  · simp only [hexEscapeNonASCII, List.flatMap_cons, hexEscapeByte, reduceCtorEq, iff_false]
    split_ifs <;> simp

/-- Of the bytes that are no part of an escape, none is added or removed. -/
theorem mem_hexEscapeNonASCII {c : UInt8} (hc : c < 0x80) (hpercent : c ≠ '%'.toUInt8)
    (hdigit : GoString.unhex c = none) (s : GoString) : c ∈ hexEscapeNonASCII s ↔ c ∈ s := by
  have hne : ∀ n < 16, c ≠ hexDigit n := fun n hn heq => by
    rw [heq, GoString.unhex_hexDigit hn] at hdigit
    cases hdigit
  induction s with
  | nil => simp [hexEscapeNonASCII]
  | cons b s ih =>
    have hb := b.toNat_lt
    have hcons : hexEscapeNonASCII (b :: s) = hexEscapeByte b ++ hexEscapeNonASCII s := rfl
    simp only [hcons, hexEscapeByte, List.mem_append, ih, List.mem_cons]
    split_ifs with hge
    · have hcb : c ≠ b := fun heq => UInt8.not_lt.mpr hge (heq ▸ hc)
      simp [hpercent, hne (b.toNat / 16) (by omega), hne (b.toNat % 16) (by omega), hcb]
    · simp

theorem head?_hexEscapeNonASCII {c : UInt8} (hc : c < 0x80) (hpercent : c ≠ '%'.toUInt8)
    (s : GoString) : (hexEscapeNonASCII s).head? = some c ↔ s.head? = some c := by
  rcases s with _ | ⟨b, s⟩
  · simp [hexEscapeNonASCII]
  · by_cases hb : b < 0x80
    · rw [hexEscapeNonASCII_cons hb, List.head?_cons, List.head?_cons]
    · have hge := UInt8.not_lt.mp hb
      have hbc : b ≠ c := fun heq => hb (heq ▸ hc)
      rw [hexEscapeNonASCII, List.flatMap_cons, hexEscapeByte, if_pos hge]
      simp [hbc, Ne.symm hpercent]

/-- The escapes are those of a URL. -/
theorem unescape_hexEscapeNonASCII {s : GoString} (h : '%'.toUInt8 ∉ s) :
    Url.unescape .path (hexEscapeNonASCII s) = some s := by
  induction s with
  | nil => rfl
  | cons b s ih =>
    rw [List.mem_cons, not_or] at h
    have hb : b ≠ '%'.toUInt8 := Ne.symm h.1
    by_cases hascii : b < 0x80
    · rw [hexEscapeNonASCII_cons hascii, Url.unescape.eq_def]
      simp only [if_neg hb, reduceCtorEq, and_false, or_self, false_and, if_false, ih h.2]
      rfl
    · have hlt := b.toNat_lt
      have hbyte : Url.unescapeByte .path (hexDigit (b.toNat / 16)) (hexDigit (b.toNat % 16)) =
          some b := by
        rw [Url.unescapeByte, GoString.unhex_hexDigit (by omega), GoString.unhex_hexDigit (by omega)]
        simp only [reduceCtorEq, false_and, if_false, Option.some.injEq]
        exact (congrArg UInt8.ofNat (Nat.div_add_mod' _ _)).trans UInt8.ofNat_toNat
      rw [hexEscapeNonASCII, List.flatMap_cons, hexEscapeByte, if_pos (UInt8.not_lt.mp hascii),
        Url.unescape.eq_def]
      have ih' := ih h.2
      rw [hexEscapeNonASCII] at ih'
      simp only [List.cons_append, List.nil_append, if_true, hbyte, ih', Option.bind_eq_bind,
        Option.bind_some]

/-- U+FFFD is escaped to more than any byte is. -/
theorem length_hexEscapeByte (b : UInt8) :
    (hexEscapeByte b).length < (Utf8.replacement.flatMap hexEscapeByte).length := by
  have hlen : (Utf8.replacement.flatMap hexEscapeByte).length = 9 := by decide
  rw [hlen, hexEscapeByte]
  split_ifs <;> simp

end Http
