import Yafu.Auth.Handshake
import Yafu.Lib.CookieJar

/-!
# Signing in from several tabs

Reference: `handleLogin`, `handleCallback`, `handleLogout` in `internal/auth/oidc.go`.

The tabs of a browser share one state cookie. A login overwrites it, and a callback takes it away
whatever comes of it. So of all logins of a browser the newest alone can come to a session, and it can
do so once (`session_iff_newest`).
-/

namespace Yafu.Auth.SignIn

open Http Transition

/-! ## One browser -/

/-- What the browser does next: a tab begins a login, a tab comes back from the provider, a tab signs
out, or a cookie is lost, by its age or by the hand of the user. -/
inductive Visit
  | login (rnd : LoginRandom) (rawQuery : GoString)
  | callback (idp : Idp) (rawQuery : GoString)
  | logout
  | lose (name : GoString)

variable (cfg : OidcConfig) (env : Env)

/-- The request of a login. The query alone matters. -/
def loginRequest (jar : Jar) (rawQuery : GoString) : Request where
  path := "/auth/login"
  rawQuery := rawQuery
  cookies := jar

/-- The request of a callback. -/
def callbackRequest (jar : Jar) (rawQuery : GoString) : Request where
  path := "/auth/callback"
  rawQuery := rawQuery
  cookies := jar

/-- The cookies that the server sets. -/
def setCookies (jar : Jar) : Visit → List Cookie
  | .login rnd rawQuery => (handleLogin cfg env rnd (loginRequest jar rawQuery)).setCookies
  | .callback idp rawQuery => (handleCallback cfg env idp (callbackRequest jar rawQuery)).1.setCookies
  | .logout => (handleLogout cfg { path := "/auth/logout", cookies := jar }).setCookies
  | .lose _ => []

/-- The cookies after a visit. -/
def visit (jar : Jar) (v : Visit) : Jar :=
  match v with
  | .lose name => jar.drop name
  | v => jar.storeAll (setCookies cfg env jar v)

/-- Tabs make their visits in any order. -/
def step (jar : Jar) (v : Visit) : Option Jar := some (visit cfg env jar v)

/-- The state of a login with this query. -/
def loginState (rnd : LoginRandom) (rawQuery : GoString) : OidcState :=
  newState rnd (loginRequest [] rawQuery)

/-! ## The newest login -/

/-- The visit does not touch the state cookie. -/
def Visit.Leaves : Visit → Prop
  | .login _ _ => False
  | .callback _ _ => False
  | .logout => True
  | .lose name => name ≠ stateCookieName

/-- The last login, where its cookie has been neither used nor lost since. -/
def Newest (vs : List Visit) (rnd : LoginRandom) (rawQuery : GoString) : Prop :=
  ∃ pre mid, vs = pre ++ .login rnd rawQuery :: mid ∧ ∀ v ∈ mid, v.Leaves

/-- The provider's answer in this query completes the login of this state. -/
structure Completes (idp : Idp) (rawQuery : GoString) (st : OidcState) (rawIDToken : GoString)
    (token : IdToken) : Prop where
  state : ({ rawQuery } : Request).query "state" = st.state
  noError : ({ rawQuery } : Request).query "error" = []
  code : ({ rawQuery } : Request).query "code" ≠ []
  exchange : idp.exchange (({ rawQuery } : Request).query "code") st.verifier = .ok (some rawIDToken)
  present : rawIDToken ≠ []
  verify : idp.verify rawIDToken = .ok token
  nonce : token.nonce = st.nonce

/-- The callback hands out a session. -/
def SetsSession (jar : Jar) (idp : Idp) (rawQuery : GoString) : Prop :=
  ∃ c ∈ (handleCallback cfg env idp (callbackRequest jar rawQuery)).1.setCookies,
    c.name = sessionCookieName ∧ 0 ≤ c.maxAge

section Newest

variable {vs : List Visit} {v : Visit} {rnd : LoginRandom} {q : GoString}

theorem not_newest_nil : ¬ Newest [] rnd q := by
  rintro ⟨pre, mid, h, -⟩
  exact absurd h.symm (List.append_ne_nil_of_right_ne_nil pre (List.cons_ne_nil _ _))

theorem newest_concat_iff : Newest (vs ++ [v]) rnd q ↔ v = .login rnd q ∨ v.Leaves ∧ Newest vs rnd q := by
  constructor
  · rintro ⟨pre, mid, h, hmid⟩
    rcases List.eq_nil_or_concat mid with rfl | ⟨mid', last, rfl⟩
    · obtain ⟨-, hlast⟩ := List.append_inj' h rfl
      exact .inl (List.cons.inj hlast).1
    · have hsplit : vs ++ [v] = (pre ++ .login rnd q :: mid') ++ [last] := by
        rw [h, List.concat_eq_append, List.append_assoc, List.cons_append]
      obtain ⟨rfl, hlast⟩ := List.append_inj' hsplit rfl
      obtain rfl := (List.cons.inj hlast).1
      rw [List.concat_eq_append] at hmid
      exact .inr ⟨hmid v (List.mem_append_right _ (List.mem_singleton_self v)), pre, mid', rfl,
        fun w hw => hmid w (List.mem_append_left _ hw)⟩
  · rintro (rfl | ⟨hv, pre, mid, rfl, hmid⟩)
    · exact ⟨vs, [], rfl, fun w hw => absurd hw List.not_mem_nil⟩
    · refine ⟨pre, mid ++ [v], by rw [List.append_assoc, List.cons_append], fun w hw => ?_⟩
      rcases List.mem_append.mp hw with hw | hw
      · exact hmid w hw
      · exact List.mem_singleton.mp hw ▸ hv

end Newest

/-! ## The state cookie of a browser -/

variable {cfg env}

/-- A callback with a state cookie takes it away, and sets no other cookie but the session. -/
theorem setCookies_callback {jar : Jar} {q : GoString} {st : OidcState} (idp : Idp)
    (hst : readStateCookie cfg env (callbackRequest jar q) = some st) :
    ∃ cs, setCookies cfg env jar (.callback idp q) = clearStateCookie cfg :: cs ∧
      ∀ c ∈ cs, c.name = sessionCookieName := by
  have hnil : ∀ c ∈ ([] : List Cookie), c.name = sessionCookieName := List.forall_mem_nil _
  unfold setCookies handleCallback
  simp only [hst]
  split_ifs
  · exact ⟨[], rfl, hnil⟩
  · exact ⟨[], rfl, hnil⟩
  · exact ⟨[], rfl, hnil⟩
  rcases idp.exchange ((callbackRequest jar q).query "code") st.verifier with err | _ | raw
  · exact ⟨[], rfl, hnil⟩
  · exact ⟨[], rfl, hnil⟩
  simp only
  split_ifs
  · exact ⟨[], rfl, hnil⟩
  rcases idp.verify raw with err | token
  · exact ⟨[], rfl, hnil⟩
  simp only
  split_ifs
  · exact ⟨[], rfl, hnil⟩
  · exact ⟨_, rfl, fun c hc => List.mem_singleton.mp hc ▸ rfl⟩

theorem session_ne_state : sessionCookieName ≠ stateCookieName := by decide

/-- Cookies of other names leave the one of a name alone. -/
theorem value_storeAll_ne {name : GoString} : ∀ {cs : List Cookie} {jar : Jar},
    (∀ c ∈ cs, c.name ≠ name) → (jar.storeAll cs).value name = jar.value name
  | [], _, _ => rfl
  | c :: cs, jar, h => by
    obtain ⟨hc, hcs⟩ := List.forall_mem_cons.mp h
    exact (value_storeAll_ne hcs).trans (Jar.value_store_ne hc)

/-- What is in the state cookie after a visit. -/
theorem value_visit {jar : Jar} (v : Visit) (hread : ∀ value, jar.value stateCookieName = some value →
      ∃ st, readStateCookie cfg env { cookies := jar } = some st) :
    (visit cfg env jar v).value stateCookieName =
      match v with
      | .login rnd q => some (setStateCookie cfg env (loginState rnd q)).value
      | .callback _ _ => none
      | .logout => jar.value stateCookieName
      | .lose name => if name = stateCookieName then none else jar.value stateCookieName := by
  cases v with
  | login rnd q =>
    have hage : 0 ≤ stateCookieMaxAge := by decide
    exact Jar.value_store_self (c := setStateCookie cfg env (loginState rnd q)) hage
  | callback idp q =>
    rcases hvalue : jar.value stateCookieName with _ | value
    · have hnone : readStateCookie cfg env (callbackRequest jar q) = none := by
        unfold readStateCookie
        rw [show (callbackRequest jar q).cookie stateCookieName = none from hvalue]
      have hcookies : setCookies cfg env jar (.callback idp q) = [] := by
        unfold setCookies handleCallback
        simp only [hnone]
        rfl
      show (jar.storeAll (setCookies cfg env jar (.callback idp q))).value stateCookieName = none
      rw [hcookies]
      exact hvalue
    · obtain ⟨st, hst⟩ := hread value hvalue
      have hst' : readStateCookie cfg env (callbackRequest jar q) = some st := hst
      obtain ⟨cs, hcookies, hcs⟩ := setCookies_callback idp hst'
      have hage : (clearStateCookie cfg).maxAge < 0 := show (-1 : ℤ) < 0 by decide
      have hcleared : (jar.store (clearStateCookie cfg)).value stateCookieName = none :=
        Jar.value_store_removal hage
      show (jar.storeAll (setCookies cfg env jar (.callback idp q))).value stateCookieName = none
      rw [hcookies]
      show ((jar.store (clearStateCookie cfg)).storeAll cs).value stateCookieName = none
      refine (value_storeAll_ne fun c hc => ?_).trans hcleared
      rw [hcs c hc]
      exact session_ne_state
  | logout => exact Jar.value_store_ne (c := clearSessionCookie cfg) session_ne_state
  | lose name =>
    by_cases hname : name = stateCookieName
    · simp only [hname, if_true]
      exact Jar.value_drop_self
    · simp only [if_neg hname]
      exact Jar.value_drop_ne hname

/-- The state cookie is the one of the newest login. -/
def Holds (cfg : OidcConfig) (env : Env) (vs : List Visit) (jar : Jar) : Prop :=
  ∀ value, jar.value stateCookieName = some value ↔
    ∃ rnd q, Newest vs rnd q ∧ value = (setStateCookie cfg env (loginState rnd q)).value

/-- What is read from the cookie of the newest login. -/
theorem readStateCookie_of_holds {vs : List Visit} {jar : Jar} (h : Holds cfg env vs jar)
    {value : GoString} (hvalue : jar.value stateCookieName = some value) :
    ∃ rnd q, Newest vs rnd q ∧
      readStateCookie cfg env { cookies := jar } = some (loginState rnd q).coerced := by
  obtain ⟨rnd, q, hnewest, rfl⟩ := (h value).mp hvalue
  exact ⟨rnd, q, hnewest, readStateCookie_of_cookie hvalue⟩

theorem holds_step {vs : List Visit} {v : Visit} {jar : Jar} (h : Holds cfg env vs jar) :
    Holds cfg env (vs ++ [v]) (visit cfg env jar v) := by
  intro value
  have hread : ∀ value, jar.value stateCookieName = some value →
      ∃ st, readStateCookie cfg env { cookies := jar } = some st := by
    intro value hvalue
    obtain ⟨rnd, q, -, hread⟩ := readStateCookie_of_holds h hvalue
    exact ⟨_, hread⟩
  rw [value_visit v hread]
  simp only [newest_concat_iff]
  cases v with
  | login rnd q =>
    simp only [Option.some.injEq, Visit.Leaves, false_and, or_false, Visit.login.injEq]
    constructor
    · rintro rfl
      exact ⟨rnd, q, ⟨rfl, rfl⟩, rfl⟩
    · rintro ⟨_, _, ⟨rfl, rfl⟩, rfl⟩
      rfl
  | callback idp q => simp [Visit.Leaves]
  | logout => simpa [Visit.Leaves] using h value
  | lose name =>
    by_cases hname : name = stateCookieName
    · simp [hname, Visit.Leaves]
    · simpa [hname, Visit.Leaves] using h value

theorem holds_run {vs : List Visit} {jar : Jar} (hrun : run (step cfg env) [] vs = some jar) :
    Holds cfg env vs jar := by
  refine run_history (I := Holds cfg env) ?_ ?_ hrun
  · intro value
    constructor
    · intro h
      cases h
    · rintro ⟨rnd, q, hnewest, -⟩
      exact absurd hnewest not_newest_nil
  · rintro vs jar v _ - hI hstep
    obtain rfl := Option.some.inj hstep
    exact holds_step hI

/-! ## Sessions -/

/-- A callback hands out a session when it has passed all checks. -/
theorem setsSession_iff {jar : Jar} {idp : Idp} {q : GoString} : SetsSession cfg env jar idp q ↔
    ∃ st raw token, Accepted cfg env idp (callbackRequest jar q) st raw token := by
  constructor
  · rintro ⟨c, hc, hname, hage⟩
    have hissues : IssuesSession (serve cfg env (.callback idp (callbackRequest jar q))) c :=
      ⟨_, rfl, hc, hname, hage⟩
    obtain ⟨_, _, st, raw, token, heq, hacc, -⟩ := exists_accepted_of_issuesSession hissues
    obtain ⟨rfl, rfl⟩ := Event.callback.inj heq
    exact ⟨st, raw, token, hacc⟩
  · rintro ⟨st, raw, token, hacc⟩
    refine ⟨setSessionCookie cfg raw token.expiry, ?_, rfl, Int.le_refl 0⟩
    rw [handleCallback_of_accepted hacc]
    exact List.mem_cons_of_mem _ List.mem_cons_self

/-- The checks, for the cookie of a login. -/
theorem accepted_iff_completes {jar : Jar} {idp : Idp} {q q₀ raw : GoString} {rnd : LoginRandom}
    {token : IdToken} (hread : readStateCookie cfg env { cookies := jar } =
      some (loginState rnd q₀).coerced) :
    Accepted cfg env idp (callbackRequest jar q) (loginState rnd q₀).coerced raw token ↔
      Completes idp q (loginState rnd q₀) raw token := by
  have hcoerced := newState_coerced rnd (loginRequest [] q₀)
  constructor
  · rintro ⟨-, hstate, herror, hcode, hexchange, hpresent, hverify, hnonce⟩
    rw [loginState, hcoerced] at hstate hexchange hnonce
    exact ⟨hstate, herror, hcode, hexchange, hpresent, hverify, hnonce⟩
  · rintro ⟨hstate, herror, hcode, hexchange, hpresent, hverify, hnonce⟩
    refine ⟨hread, ?_, herror, hcode, ?_, hpresent, hverify, ?_⟩ <;> rw [loginState, hcoerced]
    · exact hstate
    · exact hexchange
    · exact hnonce

/-- **One login, one session.** In whatever order the tabs of a browser make their visits, a callback
hands out a session if and only if the provider's answer completes the newest login, and that login's
cookie has been neither used nor lost since. -/
theorem session_iff_newest {vs : List Visit} {jar : Jar} (hrun : run (step cfg env) [] vs = some jar)
    (idp : Idp) (q : GoString) : SetsSession cfg env jar idp q ↔
      ∃ rnd q₀ raw token, Newest vs rnd q₀ ∧ Completes idp q (loginState rnd q₀) raw token := by
  have hholds := holds_run hrun
  rw [setsSession_iff]
  constructor
  · rintro ⟨st, raw, token, hacc⟩
    rcases hvalue : jar.value stateCookieName with _ | value
    · have hread := hacc.cookie
      unfold readStateCookie at hread
      rw [show (callbackRequest jar q).cookie stateCookieName = none from hvalue] at hread
      cases hread
    · obtain ⟨rnd, q₀, hnewest, hread⟩ := readStateCookie_of_holds hholds hvalue
      obtain rfl := Option.some.inj (hread.symm.trans hacc.cookie)
      exact ⟨rnd, q₀, raw, token, hnewest, (accepted_iff_completes hread).mp hacc⟩
  · rintro ⟨rnd, q₀, raw, token, hnewest, hcompletes⟩
    have hread := readStateCookie_of_cookie ((hholds _).mpr ⟨rnd, q₀, hnewest, rfl⟩)
    exact ⟨_, raw, token, (accepted_iff_completes hread).mpr hcompletes⟩

/-- One login, and the cookies of a browser after some visits. -/
def sampleVisits : List Visit := [.login sampleRandom "return=%2Fapps"]

def sampleJar (vs : List Visit) : Jar := vs.foldl (visit sampleConfig (sampleEnv sampleMac)) []

theorem completes_sample : Completes sampleIdp sampleParams (loginState sampleRandom "return=%2Fapps")
    "header.payload.sig" sampleToken :=
  (accepted_iff_completes (readStateCookie_of_cookie rfl)).mp
    (accepted_sample sampleMac (loginRequest [] "return=%2Fapps"))

theorem session_once_sample :
    SetsSession sampleConfig (sampleEnv sampleMac) (sampleJar sampleVisits) sampleIdp sampleParams ∧
      ¬ SetsSession sampleConfig (sampleEnv sampleMac)
        (sampleJar (sampleVisits ++ [.callback sampleIdp sampleParams])) sampleIdp sampleParams := by
  constructor
  · have hrun : run (step sampleConfig (sampleEnv sampleMac)) [] sampleVisits =
        some (sampleJar sampleVisits) := rfl
    exact (session_iff_newest hrun sampleIdp sampleParams).mpr
      ⟨sampleRandom, "return=%2Fapps", _, _, ⟨[], [], rfl, List.forall_mem_nil _⟩, completes_sample⟩
  · intro hsession
    have hrun : run (step sampleConfig (sampleEnv sampleMac)) []
        (sampleVisits ++ [.callback sampleIdp sampleParams]) =
          some (sampleJar (sampleVisits ++ [.callback sampleIdp sampleParams])) := rfl
    -- The callback has used up the cookie of the login.
    obtain ⟨rnd, q, _, _, hnewest, -⟩ := (session_iff_newest hrun sampleIdp sampleParams).mp hsession
    rcases newest_concat_iff.mp hnewest with h | ⟨h, -⟩
    · cases h
    · exact h

end Yafu.Auth.SignIn
