import Yafu.Auth.ReturnTo

/-!
# The state through its cookie

Reference: `internal/auth/oidc.go`, `setStateCookie`, `readStateCookie`, `signCookieValue` and
`verifyCookieValue`.

Three encodings are nested: JSON, base64 without padding, and a dot between the body and its MAC. The
outer two return every byte string. JSON returns text only, and the return path of a login is made
of bytes that were percent-encoded in the request: those that are no UTF-8 come back as U+FFFD.
-/

namespace Yafu.Auth

open Http Utf8

/-- All four fields are text. -/
structure OidcState.ValidUtf8 (st : OidcState) : Prop where
  state : validString st.state = true
  nonce : validString st.nonce = true
  verifier : validString st.verifier = true
  returnTo : validString st.returnTo = true

theorem OidcState.coerced_eq_self_iff (st : OidcState) : st.coerced = st ↔ st.ValidUtf8 := by
  rcases st with ⟨s, n, v, r⟩
  simp only [OidcState.coerced, OidcState.mk.injEq, coerce_eq_self_iff]
  constructor
  · rintro ⟨hs, hn, hv, hr⟩
    exact ⟨hs, hn, hv, hr⟩
  · rintro ⟨hs, hn, hv, hr⟩
    exact ⟨hs, hn, hv, hr⟩

theorem validString_nil : validString [] = true := by rw [validString]

section Cookie

variable {cfg : OidcConfig} {env : Env} {r : Request} {st : OidcState}

theorem readStateCookie_eq_self_iff
    (h : r.cookie stateCookieName = some (setStateCookie cfg env st).value) :
    readStateCookie cfg env r = some st ↔ st.ValidUtf8 := by
  rw [readStateCookie_of_cookie h, Option.some.injEq, OidcState.coerced_eq_self_iff]

/-- What `sanitizeReturnTo` lets through is text if the page asked for is. -/
theorem validString_sanitizeReturnTo_iff (raw : GoString) :
    validString (sanitizeReturnTo raw) = true ↔ ∀ u, Url.parse raw = some u → LocalPage u →
      validString u.path = true ∧ validString u.rawQuery = true := by
  by_cases hlocal : ∃ u, Url.parse raw = some u ∧ LocalPage u
  · obtain ⟨u, hu, hpage⟩ := hlocal
    have hquery : validString (rebuild u.path u.rawQuery) = true ↔
        validString u.path = true ∧ validString u.rawQuery = true := by
      rw [rebuild]
      by_cases hempty : u.rawQuery = []
      · rw [if_neg (not_not.mpr hempty), List.append_nil, hempty]
        exact (and_iff_left validString_nil).symm
      · rw [if_pos hempty, validString_append_cons (by decide), Bool.and_eq_true]
    rw [sanitizeReturnTo_of_localPage hu hpage, hquery]
    constructor
    · intro h v hv _
      obtain rfl : u = v := Option.some.inj (hu.symm.trans hv)
      exact h
    · intro h
      exact h u hu hpage
  · have hnone : ∀ u, Url.parse raw = some u → ¬ LocalPage u := fun u hu hpage => hlocal ⟨u, hu, hpage⟩
    rw [sanitizeReturnTo_eq_nil hnone]
    exact iff_of_true validString_nil fun u hu hpage => absurd hpage (hnone u hu)

/-- The state of a login comes back as it was when the page asked for is text. -/
theorem readStateCookie_newState_iff {rnd : LoginRandom} {login : Request}
    (h : r.cookie stateCookieName = some (setStateCookie cfg env (newState rnd login)).value) :
    readStateCookie cfg env r = some (newState rnd login) ↔
      ∀ u, Url.parse (login.query "return") = some u → LocalPage u →
        validString u.path = true ∧ validString u.rawQuery = true := by
  have hbase (s : List UInt8) : validString (Base64.encode s) = true :=
    (coerce_eq_self_iff _).mp (coerce_encode s)
  rw [readStateCookie_eq_self_iff h, ← validString_sanitizeReturnTo_iff]
  constructor
  · intro hvalid
    exact hvalid.returnTo
  · intro hreturn
    exact ⟨hbase rnd.state, hbase rnd.nonce, hbase rnd.verifier, hreturn⟩

/-- Signing loses nothing, what verifies carries the MAC of the body that is returned, and a state
comes back from its cookie exactly when its fields are text. -/
theorem stateCookie_faithful (secret body value : GoString)
    (h : r.cookie stateCookieName = some (setStateCookie cfg env st).value) :
    verifyCookieValue env secret (signCookieValue env secret body) = .ok body ∧
      (∀ b, verifyCookieValue env secret value = .ok b → Carries env secret value b) ∧
      (readStateCookie cfg env r = some st ↔ st.ValidUtf8) :=
  ⟨verifyCookieValue_eq_ok_iff.mpr (carries_signCookieValue env secret body),
    fun _ hb => verifyCookieValue_eq_ok_iff.mp hb, readStateCookie_eq_self_iff h⟩

end Cookie

theorem stateCookie_faithful_sample :
    verifyCookieValue (sampleEnv sampleMac) "k" (signCookieValue (sampleEnv sampleMac) "k" "hello") =
        .ok ("hello" : GoString) ∧
      (∀ b, verifyCookieValue (sampleEnv sampleMac) "k" "AAAA.!!!" = .ok b →
        Carries (sampleEnv sampleMac) "k" "AAAA.!!!" b) ∧
      (readStateCookie sampleConfig (sampleEnv sampleMac) (sampleCallback sampleMac sampleLogin) =
        some (newState sampleRandom sampleLogin) ↔ (newState sampleRandom sampleLogin).ValidUtf8) :=
  stateCookie_faithful "k" "hello" "AAAA.!!!" rfl

/-! ## A byte that is no UTF-8 -/

/-- The return path `/%FF`, in a query. -/
def bytesLogin : Request := { path := "/auth/login", rawQuery := "return=%2F%25FF" }

/-- HMAC-SHA256 of the state of this login under the secret of the sample. -/
def bytesMac : GoString :=
  [0x32, 0x90, 0xEC, 0xBD, 0xA0, 0x5D, 0x6D, 0xB4, 0x7E, 0xE6, 0xAE, 0x46, 0x89, 0x5D, 0x0C, 0x8E,
    0xF7, 0xC0, 0x00, 0xF4, 0x65, 0x5A, 0xF0, 0x23, 0x0B, 0x6D, 0x21, 0x3A, 0xBA, 0x8A, 0x81, 0x62]

/-- The byte is replaced on the way through the cookie. -/
theorem not_stateCookie_faithful_bytes :
    bytesLogin.query "return" = "/%FF" ∧
      (newState sampleRandom bytesLogin).returnTo = sanitizeReturnTo "/%FF" ∧
      sanitizeReturnTo "/%FF" = '/'.toUInt8 :: [0xFF] ∧
      readStateCookie sampleConfig (sampleEnv bytesMac) (sampleCallback bytesMac bytesLogin) =
        some { newState sampleRandom bytesLogin with returnTo := '/'.toUInt8 :: replacement } ∧
      readStateCookie sampleConfig (sampleEnv bytesMac) (sampleCallback bytesMac bytesLogin) ≠
        some (newState sampleRandom bytesLogin) := by
  have hquery : bytesLogin.query "return" = "/%FF" := by decide +kernel
  have hsanitize : sanitizeReturnTo "/%FF" = '/'.toUInt8 :: [0xFF] := by decide +kernel
  have hcoerce : coerce ('/'.toUInt8 :: [0xFF]) = '/'.toUInt8 :: replacement := by decide +kernel
  have hreturn : (newState sampleRandom bytesLogin).returnTo = '/'.toUInt8 :: [0xFF] := by
    rw [newState, hquery, hsanitize]
  have hread : readStateCookie sampleConfig (sampleEnv bytesMac) (sampleCallback bytesMac bytesLogin) =
      some { newState sampleRandom bytesLogin with returnTo := '/'.toUInt8 :: replacement } := by
    rw [readStateCookie_of_cookie rfl, newState_coerced, hquery, hsanitize, hcoerce]
  refine ⟨hquery, by rw [hreturn, hsanitize], hsanitize, hread, ?_⟩
  rw [hread]
  intro h
  have hsame := congrArg OidcState.returnTo (Option.some.inj h)
  rw [hreturn] at hsame
  exact absurd hsame (by decide)

end Yafu.Auth
