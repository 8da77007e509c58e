import Yafu.Auth.Oidc
import Yafu.Auth.Policy

/-!
# Who makes a request

Reference: `internal/auth/middleware.go`, `ParseMode` in `internal/auth/auth.go`, and the middleware,
`identityFromToken` and `stringSliceFromClaim` in `internal/auth/oidc.go`.

Each mode takes the identity of a request from another place: nowhere, the headers of a proxy, or the
claims of the token in the session cookie. The groups come in three forms: a list in a header, an array
in a claim, and a list in a claim.
-/

namespace Yafu.Auth

open GoString (trimSpace)

/-! ## Modes -/

/-- `Mode`. -/
inductive Mode
  | anonymous
  | header
  | oidc
deriving DecidableEq, Repr

/-- The word of a mode. -/
def Mode.text : Mode → GoString
  | .anonymous => "anonymous"
  | .header => "header"
  | .oidc => "oidc"

/-- `ParseMode`; `quote` is the verb `%q`. -/
def parseMode (quote : GoString → GoString) (s : GoString) : Except GoString Mode :=
  if s = Mode.anonymous.text then .ok .anonymous
  else if s = Mode.header.text then .ok .header
  else if s = Mode.oidc.text then .ok .oidc
  else
    .error (("unknown auth mode " : GoString) ++ quote s ++
      (" (want anonymous|header|oidc)" : GoString))

/-! ## Groups -/

/-- `splitGroups`. -/
def splitGroups (raw : GoString) : List GoString :=
  if raw = [] then []
  else ((GoString.split ','.toUInt8 raw).map trimSpace).filter (· ≠ [])

/-- `stringSliceFromClaim`, of a claim as it is in a `map[string]any`. -/
def stringSliceFromClaim : Option Json.Value → List GoString
  | some (.array vs) => vs.filterMap fun
    | .string s => if s ≠ [] then some s else none
    | _ => none
  | some (.string t) =>
    if t = [] then [] else ((GoString.split ','.toUInt8 t).map trimSpace).filter (· ≠ [])
  | _ => []

/-! ## Anonymous requests and requests behind a proxy -/

/-- The identity of `anonymousMiddleware`. -/
def anonymousIdentity : Identity where
  subject := "anonymous"
  email := "anonymous@yafu.local"
  name := "anonymous"
  groups := ["system:anonymous"]

/-- What `headerMiddleware` makes of the headers, or the message of its refusal. -/
def headerIdentity (get : GoString → GoString) : Except GoString Identity :=
  let user := trimSpace (get "X-Forwarded-User")
  let name := trimSpace (get "X-Forwarded-Preferred-Username")
  if user = [] then .error "missing X-Forwarded-User header (proxy not configured?)"
  else
    .ok
      { subject := user
        email := trimSpace (get "X-Forwarded-Email")
        name := if name = [] then user else name
        groups := splitGroups (get "X-Forwarded-Groups") }

/-! ## Requests with a session -/

/-- The claims of a token that the verifier accepts: an object, as it has an issuer. -/
abbrev Claims := List (GoString × Json.Value)

/-- The standard claims. -/
structure StdClaims where
  sub : GoString := []
  email : GoString := []
  name : GoString := []
  preferredUsername : GoString := []
deriving DecidableEq, Repr

/-- The word for a value in the errors of `encoding/json`. -/
def claimKind : Json.Value → GoString
  | .null => "null"
  | .bool _ => "bool"
  | .number _ => "number"
  | .string _ => "string"
  | .array _ => "array"
  | .object _ => "object"

/-- A claim goes to the field of its name; of the values that are neither string nor `null`, the first
one is the error in the end. -/
def StdClaims.setClaim (acc : StdClaims × Option GoString) (claim : GoString × Json.Value) :
    StdClaims × Option GoString :=
  let set (field : GoString) (f : GoString → StdClaims) : StdClaims × Option GoString :=
    match claim.2 with
    | .string s => (f s, acc.2)
    | .null => acc
    | v =>
      (acc.1, acc.2.or <| some <| ("json: cannot unmarshal " : GoString) ++ claimKind v ++
        (" into Go struct field ." : GoString) ++ field ++ (" of type string" : GoString))
  if foldName claim.1 = "sub" then set "sub" fun s => { acc.1 with sub := s }
  else if foldName claim.1 = "email" then set "email" fun s => { acc.1 with email := s }
  else if foldName claim.1 = "name" then set "name" fun s => { acc.1 with name := s }
  else if foldName claim.1 = "preferred_username" then
    set "preferred_username" fun s => { acc.1 with preferredUsername := s }
  else acc

/-- `token.Claims` into the standard claims. -/
def StdClaims.decode (claims : Claims) : Except GoString StdClaims :=
  match claims.foldl StdClaims.setClaim ({}, none) with
  | (std, none) => .ok std
  | (_, some err) => .error err

/-- The claim of a name in a `map[string]any`: the last one counts. -/
def Claims.raw (claims : Claims) (name : GoString) : Option Json.Value := claims.reverse.lookup name

/-- The first that is not empty, or the last. -/
def firstOf : List GoString → GoString
  | [] => []
  | [s] => s
  | s :: rest => if s = [] then firstOf rest else s

/-- `identityFromToken`. -/
def identityFromToken (groupsClaim : GoString) (claims : Claims) : Except GoString Identity :=
  match StdClaims.decode claims with
  | .error err => .error (("decode standard claims: " : GoString) ++ err)
  | .ok std =>
    .ok
      { subject := std.sub
        email := std.email
        name := firstOf [std.name, std.preferredUsername, std.email, std.sub]
        groups := stringSliceFromClaim (claims.raw groupsClaim) }

/-- The middleware of `oidcAuth`, as far as the identity goes; `verify` is the verifier of the
provider. -/
def sessionIdentity (verify : GoString → Except GoString Claims) (groupsClaim : GoString)
    (r : Http.Request) : Except GoString Identity :=
  match r.cookie sessionCookieName with
  | none => .error "no session"
  | some raw =>
    match (verify raw).bind (identityFromToken groupsClaim) with
    | .error err => .error (("invalid session: " : GoString) ++ err)
    | .ok id => .ok id

/-! ## The gate -/

/-- What stands in front of the API: the middleware of an `AuthSet`. -/
inductive Gate
  | anonymous
  | header
  | oidc (verify : GoString → Except GoString Claims) (groupsClaim : GoString)

/-- The mode of a gate. -/
def Gate.mode : Gate → Mode
  | .anonymous => .anonymous
  | .header => .header
  | .oidc _ _ => .oidc

/-- The identity of a request, or the message of the refusal. -/
def Gate.identify (r : Http.Request) (header : GoString → GoString) : Gate → Except GoString Identity
  | .anonymous => .ok anonymousIdentity
  | .header => headerIdentity header
  | .oidc verify groupsClaim => sessionIdentity verify groupsClaim r

end Yafu.Auth
