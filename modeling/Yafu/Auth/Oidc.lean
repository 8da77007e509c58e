import Yafu.Lib.Base64
import Yafu.Lib.Http
import Yafu.Lib.Json

/-!
# Login by OpenID Connect

Reference: `internal/auth/oidc.go`.

The three handlers of the authorization code flow with PKCE. What is not in this package is a
parameter: `Env` has the MAC and the URL that `oauth2.Config` builds, `Idp` the token endpoint and
the ID token verifier as one callback meets them. A callback answers with its response and with the
calls that it made to the token endpoint.

Nothing that is marshalled here can fail, so `setStateCookie` has no error.
-/

namespace Yafu.Auth

open Http

/-- `OIDCConfig`, as far as the handlers read it. -/
structure OidcConfig where
  cookieSecret : GoString
  secureCookie : Bool := false
  cookieDomain : GoString := []
deriving DecidableEq, Repr

/-- `oidc.IDToken`. -/
structure IdToken where
  nonce : GoString
  expiry : ℕ
deriving DecidableEq, Repr

/-- The libraries. -/
structure Env where
  /-- HMAC-SHA256 of a body under a secret. -/
  hmac : GoString → GoString → GoString
  /-- `AuthCodeURL` for a state, the challenge of a verifier, and a nonce. -/
  authCodeURL : GoString → GoString → GoString → GoString

/-- The provider. -/
structure Idp where
  /-- `Exchange` of a code with a verifier, then the `id_token` of the answer if it is a string. -/
  exchange : GoString → GoString → Except GoString (Option GoString)
  /-- `Verify` of a raw ID token. -/
  verify : GoString → Except GoString IdToken

def sessionCookieName : GoString := "yafu_session"
def stateCookieName : GoString := "yafu_oidc_state"
def stateCookieMaxAge : ℤ := 5 * 60

/-! ## Signed values -/

/-- Why `verifyCookieValue` refuses a value. -/
inductive CookieError
  | malformed
  | base64
  | signatureMismatch
deriving DecidableEq, Repr

/-- `signCookieValue`. -/
def signCookieValue (env : Env) (secret body : GoString) : GoString :=
  Base64.encode body ++ '.'.toUInt8 :: Base64.encode (env.hmac secret body)

/-- `verifyCookieValue`. -/
def verifyCookieValue (env : Env) (secret signed : GoString) : Except CookieError GoString :=
  match GoString.splitN '.'.toUInt8 1 signed with
  | [body, sig] =>
    match Base64.decode body with
    | none => .error .base64
    | some body =>
      match Base64.decode sig with
      | none => .error .base64
      | some sig => if sig = env.hmac secret body then .ok body else .error .signatureMismatch
  | _ => .error .malformed

/-! ## The state cookie -/

/-- `oidcState`. -/
structure OidcState where
  state : GoString := []
  nonce : GoString := []
  verifier : GoString := []
  returnTo : GoString := []
deriving DecidableEq, Repr

/-- `json.Marshal`: an empty `Return` is left out. -/
def OidcState.marshal (st : OidcState) : GoString :=
  Json.marshalObject <|
    [(("s" : GoString), st.state), (("n" : GoString), st.nonce), (("v" : GoString), st.verifier)] ++
      if st.returnTo = [] then [] else [(("r" : GoString), st.returnTo)]

/-- `foldName` of a name that is compared with an ASCII one: of the other runes these two alone fold
to ASCII. -/
def foldName : GoString → GoString
  | [] => []
  | [b] => GoString.asciiLower [b]
  | [b, c] => if b = 0xC5 ∧ c = 0xBF then "s" else GoString.asciiLower [b, c]
  | b :: c :: d :: s =>
    if b = 0xC5 ∧ c = 0xBF then 's'.toUInt8 :: foldName (d :: s)
    else if b = 0xE2 ∧ c = 0x84 ∧ d = 0xAA then 'k'.toUInt8 :: foldName s
    else GoString.asciiLower [b] ++ foldName (c :: d :: s)

/-- A member of the document goes to the field of its name; a value of another type than string is
an error, unless it is `null`. -/
def OidcState.setMember (st : OidcState) (m : GoString × Json.Value) : Option OidcState :=
  let set (f : GoString → OidcState) : Option OidcState :=
    match m.2 with
    | .string s => some (f s)
    | .null => some st
    | _ => none
  if foldName m.1 = "s" then set fun s => { st with state := s }
  else if foldName m.1 = "n" then set fun s => { st with nonce := s }
  else if foldName m.1 = "v" then set fun s => { st with verifier := s }
  else if foldName m.1 = "r" then set fun s => { st with returnTo := s }
  else some st

/-- `json.Unmarshal` into a zero `oidcState`. -/
def OidcState.unmarshal (body : GoString) : Option OidcState :=
  match Json.parse body with
  | some (.object ms) => ms.foldlM OidcState.setMember {}
  | some .null => some {}
  | _ => none

/-- `setStateCookie`. -/
def setStateCookie (cfg : OidcConfig) (env : Env) (st : OidcState) : Cookie where
  name := stateCookieName
  value := signCookieValue env cfg.cookieSecret st.marshal
  path := "/auth"
  httpOnly := true
  sameSite := .lax
  secure := cfg.secureCookie
  domain := cfg.cookieDomain
  maxAge := stateCookieMaxAge

/-- `readStateCookie`. -/
def readStateCookie (cfg : OidcConfig) (env : Env) (r : Request) : Option OidcState :=
  match r.cookie stateCookieName with
  | none => none
  | some value =>
    match verifyCookieValue env cfg.cookieSecret value with
    | .error _ => none
    | .ok body => OidcState.unmarshal body

/-- `clearStateCookie`. -/
def clearStateCookie (cfg : OidcConfig) : Cookie where
  name := stateCookieName
  value := []
  path := "/auth"
  maxAge := -1
  domain := cfg.cookieDomain

/-! ## The session cookie -/

/-- `setSessionCookie`. -/
def setSessionCookie (cfg : OidcConfig) (rawIDToken : GoString) (expires : ℕ) : Cookie where
  name := sessionCookieName
  value := rawIDToken
  path := "/"
  httpOnly := true
  sameSite := .lax
  secure := cfg.secureCookie
  domain := cfg.cookieDomain
  expires := expires

/-- `clearSessionCookie`. -/
def clearSessionCookie (cfg : OidcConfig) : Cookie where
  name := sessionCookieName
  value := []
  path := "/"
  httpOnly := true
  sameSite := .lax
  secure := cfg.secureCookie
  domain := cfg.cookieDomain
  maxAge := -1

/-! ## Handlers -/

/-- `sanitizeReturnTo`. -/
def sanitizeReturnTo (raw : GoString) : GoString :=
  if raw = [] then []
  else
    match Url.parse raw with
    | none => []
    | some u =>
      if u.scheme ≠ [] ∨ u.host ≠ [] then []
      else if u.path.head? ≠ some '/'.toUInt8 then []
      else u.path ++ if u.rawQuery ≠ [] then '?'.toUInt8 :: u.rawQuery else []

/-- The bytes that one login draws: 24 for the state, 24 for the nonce and 32 for the verifier. -/
structure LoginRandom where
  state : GoString
  nonce : GoString
  verifier : GoString

/-- The `oidcState` of a login. -/
def newState (rnd : LoginRandom) (r : Request) : OidcState where
  state := Base64.encode rnd.state
  nonce := Base64.encode rnd.nonce
  verifier := Base64.encode rnd.verifier
  returnTo := sanitizeReturnTo (r.query "return")

/-- `handleLogin`. -/
def handleLogin (cfg : OidcConfig) (env : Env) (rnd : LoginRandom) (r : Request) : Response :=
  let state := newState rnd r
  let authURL := env.authCodeURL state.state state.verifier state.nonce
  redirect r [setStateCookie cfg env state] authURL statusFound

/-- `dest` of `handleCallback`. -/
def OidcState.dest (st : OidcState) : GoString := if st.returnTo = [] then "/" else st.returnTo

/-- `handleCallback`, with the calls to the token endpoint. -/
def handleCallback (cfg : OidcConfig) (env : Env) (idp : Idp) (r : Request) :
    Response × List (GoString × GoString) :=
  match readStateCookie cfg env r with
  | none => (error [] "missing or invalid state cookie" statusBadRequest, [])
  | some state =>
    let cleared := clearStateCookie cfg
    if r.query "state" ≠ state.state then (error [cleared] "state mismatch" statusBadRequest, [])
    else if r.query "error" ≠ [] then
      let msg := ("idp returned error: " : GoString) ++ r.query "error" ++ (" — " : GoString) ++
        r.query "error_description"
      (error [cleared] msg statusBadRequest, [])
    else
      let code := r.query "code"
      if code = [] then (error [cleared] "missing authorization code" statusBadRequest, [])
      else
        let exchanged := [(code, state.verifier)]
        match idp.exchange code state.verifier with
        | .error err =>
          (error [cleared] (("code exchange: " : GoString) ++ err) statusBadGateway, exchanged)
        | .ok token =>
          match token with
          | none => (error [cleared] "id_token missing from token response" statusBadGateway, exchanged)
          | some rawIDToken =>
            if rawIDToken = [] then
              (error [cleared] "id_token missing from token response" statusBadGateway, exchanged)
            else
              match idp.verify rawIDToken with
              | .error err =>
                let msg := ("id token verification: " : GoString) ++ err
                (error [cleared] msg statusBadGateway, exchanged)
              | .ok idToken =>
                if idToken.nonce ≠ state.nonce then
                  (error [cleared] "nonce mismatch" statusBadRequest, exchanged)
                else
                  let session := setSessionCookie cfg rawIDToken idToken.expiry
                  (redirect r [cleared, session] state.dest statusFound, exchanged)

/-- `handleLogout`. -/
def handleLogout (cfg : OidcConfig) (r : Request) : Response :=
  redirect r [clearSessionCookie cfg] "/" statusFound

/-! ## What a callback checks -/

/-- Everything that a callback checks before it sets a session cookie. -/
structure Accepted (cfg : OidcConfig) (env : Env) (idp : Idp) (r : Request) (st : OidcState)
    (rawIDToken : GoString) (token : IdToken) : Prop where
  cookie : readStateCookie cfg env r = some st
  state : r.query "state" = st.state
  noError : r.query "error" = []
  code : r.query "code" ≠ []
  exchange : idp.exchange (r.query "code") st.verifier = .ok (some rawIDToken)
  present : rawIDToken ≠ []
  verify : idp.verify rawIDToken = .ok token
  nonce : token.nonce = st.nonce

section Callback

variable {cfg : OidcConfig} {env : Env} {idp : Idp} {r : Request}

theorem handleCallback_of_accepted {st : OidcState} {raw : GoString} {token : IdToken}
    (h : Accepted cfg env idp r st raw token) :
    handleCallback cfg env idp r =
      (redirect r [clearStateCookie cfg, setSessionCookie cfg raw token.expiry] st.dest statusFound,
        [(r.query "code", st.verifier)]) := by
  have hstate : ¬ r.query "state" ≠ st.state := not_not.mpr h.state
  have herror : ¬ r.query "error" ≠ [] := not_not.mpr h.noError
  have hnonce : ¬ token.nonce ≠ st.nonce := not_not.mpr h.nonce
  simp only [handleCallback, h.cookie, if_neg hstate, if_neg herror, if_neg h.code, h.exchange,
    if_neg h.present, h.verify, if_neg hnonce]

/-- Either all checks succeed, or the browser is sent nowhere and no cookie is set to a value. -/
theorem handleCallback_cases (cfg : OidcConfig) (env : Env) (idp : Idp) (r : Request) :
    (∃ st raw token, Accepted cfg env idp r st raw token) ∨
      ((handleCallback cfg env idp r).1.location = none ∧
        ∀ c ∈ (handleCallback cfg env idp r).1.setCookies, c = clearStateCookie cfg) := by
  unfold handleCallback
  rcases hcookie : readStateCookie cfg env r with _ | st
  · exact .inr ⟨rfl, fun c hc => absurd hc List.not_mem_nil⟩
  have hcleared : ∀ c ∈ [clearStateCookie cfg], c = clearStateCookie cfg :=
    fun c hc => List.mem_singleton.mp hc
  simp only
  split_ifs with hstate herror hcode
  · exact .inr ⟨rfl, hcleared⟩
  · exact .inr ⟨rfl, hcleared⟩
  · exact .inr ⟨rfl, hcleared⟩
  rcases hexchange : idp.exchange (r.query "code") st.verifier with err | _ | raw
  · exact .inr ⟨rfl, hcleared⟩
  · exact .inr ⟨rfl, hcleared⟩
  simp only
  split_ifs with hraw
  · exact .inr ⟨rfl, hcleared⟩
  rcases hverify : idp.verify raw with err | token
  · exact .inr ⟨rfl, hcleared⟩
  simp only
  split_ifs with hnonce
  · exact .inr ⟨rfl, hcleared⟩
  · exact .inl ⟨st, raw, token, hcookie, not_not.mp hstate, not_not.mp herror, hcode, hexchange, hraw,
      hverify, not_not.mp hnonce⟩

end Callback

/-! ## What a signed value carries -/

/-- The value is a body and its MAC, each in base64. -/
def Carries (env : Env) (secret value body : GoString) : Prop :=
  ∃ x y, value = x ++ '.'.toUInt8 :: y ∧ Base64.decode x = some body ∧
    Base64.decode y = some (env.hmac secret body)

variable {env : Env} {secret value body : GoString}

theorem dot_notMem_of_decode {x body : GoString} (h : Base64.decode x = some body) :
    '.'.toUInt8 ∉ x := by
  intro hmem
  have hdot : '.'.toUInt8 ∉ Base64.alphabet ∧ '.'.toUInt8 ≠ '\r'.toUInt8 ∧
      '.'.toUInt8 ≠ '\n'.toUInt8 := by decide +kernel
  rcases Base64.mem_of_decode h hmem with h | h | h
  · exact hdot.1 h
  · exact hdot.2.1 h
  · exact hdot.2.2 h

/-- What verifies is a body with its MAC, and the body is what was decoded. -/
theorem verifyCookieValue_eq_ok_iff :
    verifyCookieValue env secret value = .ok body ↔ Carries env secret value body := by
  constructor
  · intro h
    unfold verifyCookieValue GoString.splitN at h
    rcases hcut : GoString.cut '.'.toUInt8 value with _ | ⟨x, y⟩
    · simp only [hcut, reduceCtorEq] at h
    simp only [hcut, GoString.splitN] at h
    rcases hx : Base64.decode x with _ | b
    · simp only [hx, reduceCtorEq] at h
    rcases hy : Base64.decode y with _ | sig
    · simp only [hx, hy, reduceCtorEq] at h
    simp only [hx, hy] at h
    split_ifs at h with hsig
    obtain rfl := Except.ok.inj h
    exact ⟨x, y, GoString.eq_of_cut hcut, hx, hsig ▸ hy⟩
  · rintro ⟨x, y, rfl, hx, hy⟩
    have hsplit : GoString.splitN '.'.toUInt8 1 (x ++ '.'.toUInt8 :: y) = [x, y] := by
      rw [GoString.splitN, GoString.cut_append (dot_notMem_of_decode hx)]
      rfl
    simp only [verifyCookieValue, hsplit, hx, hy, if_true]

/-- A value that was signed carries its body. -/
theorem carries_signCookieValue (env : Env) (secret body : GoString) :
    Carries env secret (signCookieValue env secret body) body :=
  ⟨_, _, rfl, Base64.decode_encode _, Base64.decode_encode _⟩

/-- A value carries one body at most. -/
theorem Carries.unique {body' : GoString} (h : Carries env secret value body)
    (h' : Carries env secret value body') : body = body' := by
  have heq := (verifyCookieValue_eq_ok_iff.mpr h).symm.trans (verifyCookieValue_eq_ok_iff.mpr h')
  exact Except.ok.inj heq

/-! ## The state through its cookie -/

/-- The state with its strings coerced to valid UTF-8. -/
def OidcState.coerced (st : OidcState) : OidcState where
  state := Utf8.coerce st.state
  nonce := Utf8.coerce st.nonce
  verifier := Utf8.coerce st.verifier
  returnTo := Utf8.coerce st.returnTo

theorem coerce_letter {b : UInt8} (h : b < 0x80) : Utf8.coerce [b] = [b] :=
  Utf8.coerce_of_ascii (by simpa using h)

theorem unmarshal_marshal (st : OidcState) : OidcState.unmarshal st.marshal = some st.coerced := by
  have hs : Utf8.coerce ("s" : GoString) = "s" := coerce_letter (by decide)
  have hn : Utf8.coerce ("n" : GoString) = "n" := coerce_letter (by decide)
  have hv : Utf8.coerce ("v" : GoString) = "v" := coerce_letter (by decide)
  have hr : Utf8.coerce ("r" : GoString) = "r" := coerce_letter (by decide)
  rw [OidcState.unmarshal, OidcState.marshal, Json.parse_marshalObject]
  by_cases hempty : st.returnTo = []
  · simp only [hempty, if_true, List.append_nil, List.map_cons, List.map_nil, hs, hn, hv,
      OidcState.coerced, Utf8.coerce]
    rfl
  · simp only [if_neg hempty, List.cons_append, List.nil_append, List.map_cons, List.map_nil, hs, hn,
      hv, hr]
    rfl

/-- The state that a cookie was set to is read from it again. -/
theorem readStateCookie_of_cookie {cfg : OidcConfig} {r : Request} {st : OidcState}
    (h : r.cookie stateCookieName = some (setStateCookie cfg env st).value) :
    readStateCookie cfg env r = some st.coerced := by
  have hverify := verifyCookieValue_eq_ok_iff.mpr
    (carries_signCookieValue env cfg.cookieSecret st.marshal)
  unfold readStateCookie
  simp only [h, setStateCookie, hverify, unmarshal_marshal]

theorem coerce_encode (s : List UInt8) : Utf8.coerce (Base64.encode s) = Base64.encode s := by
  have hascii : ∀ c ∈ Base64.alphabet, c < 0x80 := by decide +kernel
  exact Utf8.coerce_of_ascii fun c hc => hascii c (Base64.mem_alphabet_of_mem_encode hc)

/-- The random parts of a state are ASCII, which leaves the return path as the one to be coerced. -/
theorem newState_coerced (rnd : LoginRandom) (r : Request) :
    (newState rnd r).coerced =
      { newState rnd r with returnTo := Utf8.coerce (sanitizeReturnTo (r.query "return")) } := by
  simp only [OidcState.coerced, newState, coerce_encode]

end Yafu.Auth
