import Yafu.Auth.Oidc
import Yafu.Lib.Transition

/-!
# Integrity of the login handshake

Reference: `internal/auth/oidc.go`.

The server keeps no session state of its own: what it knows of a login travels in the state cookie.
The world is therefore the log of what reached the server and what it answered, together with the ID
tokens that the provider issued. Any browser may send any request at any point, with any cookies;
the two limits of symbolic cryptography are `Unforged`: a cookie carries a body with its MAC only if
a login has signed that body, and the verifier accepts an ID token only if the provider has issued
it.

A cookie is compared by what it carries, since the last digit of its base64 has bits to spare.
-/

namespace Yafu.Auth

open Http Transition

/-! ## The world -/

/-- What happens next: a request to one of the handlers, with the random bytes that a login draws
and the provider as a callback meets it; or the provider issues an ID token. -/
inductive Event
  | login (rnd : LoginRandom) (r : Request)
  | callback (idp : Idp) (r : Request)
  | logout (r : Request)
  | issue (rawIDToken : GoString)

/-- An event with the server's response and its calls to the token endpoint. -/
structure LogEntry where
  event : Event
  response : Option Response := none
  exchanges : List (GoString × GoString) := []

/-- What the server answers to an event. -/
def serve (cfg : OidcConfig) (env : Env) : Event → LogEntry
  | .login rnd r => { event := .login rnd r, response := some (handleLogin cfg env rnd r) }
  | .callback idp r =>
    { event := .callback idp r, response := some (handleCallback cfg env idp r).1,
      exchanges := (handleCallback cfg env idp r).2 }
  | .logout r => { event := .logout r, response := some (handleLogout cfg r) }
  | .issue raw => { event := .issue raw }

/-- Events are taken in any order. -/
def step (cfg : OidcConfig) (env : Env) (log : List LogEntry) (ev : Event) : Option (List LogEntry) :=
  some (log ++ [serve cfg env ev])

/-- A login has signed this body. -/
def Signed (log : List LogEntry) (body : GoString) : Prop :=
  ∃ e ∈ log, ∃ rnd r, e.event = .login rnd r ∧ body = (newState rnd r).marshal

/-- The provider has issued this ID token. -/
def Issued (log : List LogEntry) (raw : GoString) : Prop := ∃ e ∈ log, e.event = .issue raw

/-- Nobody forges: neither a MAC under the server's secret, in whatever cookie of the request, nor
an ID token. -/
def Unforged (cfg : OidcConfig) (env : Env) (log : List LogEntry) : Event → Prop
  | .callback idp r =>
    (∀ c ∈ r.cookies, ∀ body, Carries env cfg.cookieSecret c.2 body → Signed log body) ∧
      ∀ raw token, idp.verify raw = .ok token → Issued log raw
  | _ => True

/-- Every entry of the log was served, without forgery, when the log had the entries before it. -/
def Accounted (cfg : OidcConfig) (env : Env) (w : List LogEntry) : Prop :=
  ∀ pre e post, w = pre ++ e :: post → ∃ ev, e = serve cfg env ev ∧ Unforged cfg env pre ev

/-! ## What a session cookie comes from -/

/-- The server hands out this session cookie; one that expires at once is a removal. -/
def IssuesSession (e : LogEntry) (c : Cookie) : Prop :=
  ∃ resp, e.response = some resp ∧ c ∈ resp.setCookies ∧ c.name = sessionCookieName ∧ 0 ≤ c.maxAge

/-- The callback of `r` and the session cookie `c` belong to the login that drew `rnd` for `r₀`. -/
structure BoundTo (cfg : OidcConfig) (env : Env) (log : List LogEntry) (idp : Idp) (r : Request)
    (exchanges : List (GoString × GoString)) (c : Cookie) (rnd : LoginRandom) (r₀ : Request) :
    Prop where
  /-- The request carries what the cookie of the login carries. -/
  cookie : ∃ value, r.cookie stateCookieName = some value ∧
    ∀ body, Carries env cfg.cookieSecret value body ↔
      Carries env cfg.cookieSecret (setStateCookie cfg env (newState rnd r₀)).value body
  state : r.query "state" = (newState rnd r₀).state
  verifier : exchanges = [(r.query "code", (newState rnd r₀).verifier)]
  token : idp.exchange (r.query "code") (newState rnd r₀).verifier = .ok (some c.value)
  nonce : ∃ token, idp.verify c.value = .ok token ∧ token.nonce = (newState rnd r₀).nonce
  issued : Issued log c.value

section Server

variable {cfg : OidcConfig} {env : Env}

/-- What is read from a cookie that nobody forged is the state of a login. -/
theorem exists_login_of_readStateCookie {log : List LogEntry} {idp : Idp} {r : Request}
    {st : OidcState} (hunforged : Unforged cfg env log (.callback idp r))
    (h : readStateCookie cfg env r = some st) :
    ∃ e ∈ log, ∃ rnd r₀, e.event = .login rnd r₀ ∧ st = (newState rnd r₀).coerced ∧
      ∃ value, r.cookie stateCookieName = some value ∧
        Carries env cfg.cookieSecret value (newState rnd r₀).marshal := by
  unfold readStateCookie at h
  rcases hcookie : r.cookie stateCookieName with _ | value
  · simp only [hcookie, reduceCtorEq] at h
  rcases hverify : verifyCookieValue env cfg.cookieSecret value with err | body
  · simp only [hcookie, hverify, reduceCtorEq] at h
  simp only [hcookie, hverify] at h
  have hcarries := verifyCookieValue_eq_ok_iff.mp hverify
  have hmem : ∃ name, (name, value) ∈ r.cookies := by
    obtain ⟨⟨name, v⟩, hfind, rfl⟩ := Option.map_eq_some_iff.mp hcookie
    exact ⟨name, List.mem_of_find?_eq_some hfind⟩
  obtain ⟨name, hmem⟩ := hmem
  obtain ⟨e, he, rnd, r₀, hlogin, rfl⟩ := hunforged.1 _ hmem body hcarries
  rw [unmarshal_marshal, Option.some.injEq] at h
  exact ⟨e, he, rnd, r₀, hlogin, h.symm, value, rfl, hcarries⟩

/-- No handler but the callback hands out a session. -/
theorem exists_accepted_of_issuesSession {ev : Event} {c : Cookie}
    (h : IssuesSession (serve cfg env ev) c) :
    ∃ idp r st raw token, ev = .callback idp r ∧ Accepted cfg env idp r st raw token ∧
      c = setSessionCookie cfg raw token.expiry := by
  have hstate : stateCookieName ≠ sessionCookieName := by decide
  obtain ⟨resp, hresp, hmem, hname, hage⟩ := h
  cases ev with
  | login rnd r =>
    obtain rfl := Option.some.inj hresp
    obtain rfl := List.mem_singleton.mp hmem
    exact absurd hname hstate
  | callback idp r =>
    obtain rfl := Option.some.inj hresp
    rcases handleCallback_cases cfg env idp r with ⟨st, raw, token, hacc⟩ | ⟨-, hcleared⟩
    · rw [handleCallback_of_accepted hacc] at hmem
      simp only [redirect, List.mem_cons, List.not_mem_nil, or_false] at hmem
      rcases hmem with rfl | rfl
      · exact absurd hname hstate
      · exact ⟨idp, r, st, raw, token, rfl, hacc, rfl⟩
    · rw [hcleared c hmem] at hname
      exact absurd hname hstate
  | logout r =>
    obtain rfl := Option.some.inj hresp
    obtain rfl := List.mem_singleton.mp hmem
    exact absurd hage (show ¬ (0 : ℤ) ≤ -1 by decide)
  | issue raw => cases hresp

/-- One step: a session that is handed out is bound to a login of the log. -/
theorem exists_login_of_serve {log : List LogEntry} {ev : Event} {c : Cookie}
    (hunforged : Unforged cfg env log ev) (h : IssuesSession (serve cfg env ev) c) :
    ∃ idp r, ev = .callback idp r ∧ ∃ e ∈ log, ∃ rnd r₀, e.event = .login rnd r₀ ∧
      BoundTo cfg env log idp r (serve cfg env ev).exchanges c rnd r₀ := by
  obtain ⟨idp, r, st, raw, token, rfl, hacc, rfl⟩ := exists_accepted_of_issuesSession h
  obtain ⟨e, he, rnd, r₀, hlogin, rfl, value, hvalue, hcarries⟩ :=
    exists_login_of_readStateCookie hunforged hacc.cookie
  rw [newState_coerced] at hacc
  have hsigned := carries_signCookieValue env cfg.cookieSecret (newState rnd r₀).marshal
  refine ⟨idp, r, rfl, e, he, rnd, r₀, hlogin, ?_, hacc.state, ?_, hacc.exchange,
    ⟨token, hacc.verify, hacc.nonce⟩, hunforged.2 raw token hacc.verify⟩
  · refine ⟨value, hvalue, fun body => ⟨fun hbody => ?_, fun hbody => ?_⟩⟩
    · exact (hcarries.unique hbody) ▸ hsigned
    · exact (hsigned.unique hbody) ▸ hcarries
  · exact congrArg Prod.snd (handleCallback_of_accepted hacc)

theorem accounted_step {w w' : List LogEntry} {ev : Event} (hw : Accounted cfg env w)
    (hunforged : Unforged cfg env w ev) (hstep : step cfg env w ev = some w') :
    Accounted cfg env w' := by
  obtain rfl := Option.some.inj hstep
  intro pre e post heq
  rcases List.eq_nil_or_concat post with rfl | ⟨post', last, rfl⟩
  · obtain ⟨rfl, hlast⟩ := List.append_inj' heq rfl
    exact ⟨ev, (List.cons.inj hlast).1.symm, hunforged⟩
  · have hsplit : w ++ [serve cfg env ev] = (pre ++ e :: post') ++ [last] := by
      rw [heq, List.concat_eq_append, List.append_assoc, List.cons_append]
    exact hw pre e post' (List.append_inj' hsplit rfl).1

theorem accounted_run {evs : List Event} {w : List LogEntry}
    (halong : Along (step cfg env) (Unforged cfg env) [] evs)
    (hrun : run (step cfg env) [] evs = some w) : Accounted cfg env w := by
  have hinit : Accounted cfg env [] := fun pre e post heq =>
    absurd heq.symm (List.append_ne_nil_of_right_ne_nil pre (List.cons_ne_nil e post))
  exact run_induct (fun _ _ _ hw hok hs => accounted_step hw hok hs) hinit halong hrun

/-- Whenever the server hands out a session cookie, in whatever interleaving of logins, callbacks
and logouts, it answers a callback, and an earlier login has minted the state cookie of that
callback, its state, the verifier of the code exchange and the nonce of the ID token. -/
theorem session_bound_to_login {evs : List Event} {w pre post : List LogEntry} {e : LogEntry}
    {c : Cookie} (halong : Along (step cfg env) (Unforged cfg env) [] evs)
    (hrun : run (step cfg env) [] evs = some w) (hlog : w = pre ++ e :: post)
    (hsession : IssuesSession e c) :
    ∃ idp r, e.event = .callback idp r ∧ ∃ login ∈ pre, ∃ rnd r₀, login.event = .login rnd r₀ ∧
      BoundTo cfg env pre idp r e.exchanges c rnd r₀ := by
  obtain ⟨ev, rfl, hunforged⟩ := accounted_run halong hrun pre e post hlog
  obtain ⟨idp, r, rfl, hbound⟩ := exists_login_of_serve hunforged hsession
  exact ⟨idp, r, rfl, hbound⟩

end Server

/-! ## A run -/

def sampleConfig : OidcConfig := { cookieSecret := "test-secret-must-be-at-least-32-bytes-long" }

def sampleRandom : LoginRandom where
  state := List.replicate 24 0
  nonce := List.replicate 24 1
  verifier := List.replicate 32 2

def sampleLogin : Request := { path := "/auth/login", rawQuery := "return=%2Fapps" }

/-- HMAC-SHA256 of the state of this login under the secret. -/
def sampleMac : GoString :=
  [0xCC, 0xDC, 0x49, 0x47, 0xE0, 0x8E, 0x26, 0x0C, 0xD9, 0xC5, 0x97, 0xED, 0x46, 0xEC, 0x93, 0x63,
    0x50, 0xE8, 0xEA, 0xC9, 0x4F, 0x7B, 0x38, 0xAF, 0x50, 0x0E, 0xE8, 0xFF, 0xBA, 0x72, 0x64, 0xB9]

/-- The libraries, with the MAC of the one body that a sample signs. -/
def sampleEnv (mac : GoString) : Env where
  hmac _ _ := mac
  authCodeURL state _ nonce :=
    ("https://idp.example/auth?state=" : GoString) ++ state ++ ("&nonce=" : GoString) ++ nonce

def sampleToken : IdToken := { nonce := Base64.encode sampleRandom.nonce, expiry := 1 }

def sampleIdp : Idp where
  exchange code _ := if code = "c0de" then .ok (some "header.payload.sig") else .error "invalid_grant"
  verify raw :=
    if raw = "header.payload.sig" then .ok sampleToken else .error "failed to verify signature"

def sampleParams : GoString := "code=c0de&state=AAAAAAAAAAAAAAAAAAAAAAAAAAAAAAAA"

/-- The callback that follows a login request in the same browser. -/
def sampleCallback (mac : GoString) (r : Request) : Request where
  path := "/auth/callback"
  rawQuery := sampleParams
  cookies := [(stateCookieName,
    (setStateCookie sampleConfig (sampleEnv mac) (newState sampleRandom r)).value)]

theorem accepted_sample (mac : GoString) (r : Request) :
    Accepted sampleConfig (sampleEnv mac) sampleIdp (sampleCallback mac r)
      (newState sampleRandom r).coerced "header.payload.sig" sampleToken where
  cookie := readStateCookie_of_cookie rfl
  state := by
    have hstate : Url.get (Url.parseQuery sampleParams) "state" = Base64.encode sampleRandom.state := by
      decide +kernel
    rw [newState_coerced]
    exact hstate
  noError := (by decide +kernel : Url.get (Url.parseQuery sampleParams) "error" = [])
  code := (by decide +kernel : Url.get (Url.parseQuery sampleParams) "code" ≠ [])
  exchange := by
    have hcode : Url.get (Url.parseQuery sampleParams) "code" = "c0de" := by decide +kernel
    simp only [sampleIdp, sampleCallback, Request.query, hcode, if_true]
  present := by decide
  verify := by decide +kernel
  nonce := by rw [newState_coerced]; rfl

/-- A login, the provider's answer, and the callback. -/
def sampleEvents : List Event :=
  [.login sampleRandom sampleLogin, .issue "header.payload.sig",
    .callback sampleIdp (sampleCallback sampleMac sampleLogin)]

def sampleLog : List LogEntry := sampleEvents.map (serve sampleConfig (sampleEnv sampleMac))

theorem session_bound_to_login_sample :
    ∃ idp r, Event.callback sampleIdp (sampleCallback sampleMac sampleLogin) = .callback idp r ∧
      ∃ login ∈ sampleLog.take 2, ∃ rnd r₀, login.event = .login rnd r₀ ∧
        BoundTo sampleConfig (sampleEnv sampleMac) (sampleLog.take 2) idp r
          (serve sampleConfig (sampleEnv sampleMac) (.callback sampleIdp (sampleCallback sampleMac sampleLogin))).exchanges
          (setSessionCookie sampleConfig "header.payload.sig" sampleToken.expiry) rnd r₀ := by
  have halong : Along (step sampleConfig (sampleEnv sampleMac)) (Unforged sampleConfig (sampleEnv sampleMac)) []
      sampleEvents := by
    refine .cons trivial rfl (.cons trivial rfl (.cons ⟨?_, ?_⟩ rfl trivial))
    · intro c hc body hbody
      obtain rfl := List.mem_singleton.mp hc
      have heq := hbody.unique (carries_signCookieValue _ _ _)
      exact ⟨_, List.mem_cons_self, sampleRandom, sampleLogin, rfl, heq⟩
    · intro raw token hverify
      have hraw : raw = ("header.payload.sig" : GoString) := by
        by_contra hne
        simp only [sampleIdp, if_neg hne, reduceCtorEq] at hverify
      exact ⟨_, List.mem_cons_of_mem _ List.mem_cons_self, by rw [hraw]; rfl⟩
  have hrun : run (step sampleConfig (sampleEnv sampleMac)) [] sampleEvents = some sampleLog := rfl
  have hlog : sampleLog = sampleLog.take 2 ++
      serve sampleConfig (sampleEnv sampleMac) (.callback sampleIdp (sampleCallback sampleMac sampleLogin)) :: [] := rfl
  have hresp := congrArg Prod.fst (handleCallback_of_accepted (accepted_sample sampleMac sampleLogin))
  exact session_bound_to_login halong hrun hlog
    ⟨_, rfl, by rw [hresp]; simp [redirect], rfl, Int.le_refl 0⟩

end Yafu.Auth
