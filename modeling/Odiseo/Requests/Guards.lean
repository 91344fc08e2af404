import Odiseo.Auth.Service
import Odiseo.Tenants.Lookup

/-!
# The way of a request to its handler

`TenantMiddleware` resolves the tenant of a request; the guards `JwtAuthGuard`,
`PasswordResetGuard` and `PermissionsGuard` run before every handler, and a controller may
name further ones. Each of them lets the request through or refuses it. What the tenant
lookup and the authorization state answer are arguments here.
-/

namespace Odiseo.Requests

open Odiseo.Auth (CachedAuthState rejects)
open Odiseo.Tenants (Company CompanyStatus Subdomain)

/-- The id of a company. -/
abbrev CompanyId := ℕ

/-- The id of a user in the schema of a company. -/
abbrev UserId := ℕ

/-- The payload of a session token. -/
structure TokenPayload where
  sub : UserId
  companyId : CompanyId
  roles : List String
  /-- Whole seconds. -/
  iat : ℕ
  /-- Whole seconds. -/
  exp : ℕ
  deriving DecidableEq, Repr

/-- The metadata that the decorators of a handler or of a controller set. -/
structure Metadata where
  isPublic : Option Bool
  noPermissionsRequired : Option Bool
  requirePermissions : Option (List String)
  allowDuringPasswordReset : Option Bool
  deriving DecidableEq, Repr

/-- A class with `canActivate`. -/
inductive Guard
  | jwtAuth
  | passwordReset
  | permissions
  | tenantParamScope
  deriving DecidableEq, Repr

/-- A route: its path, the metadata of its handler and of its controller, and the guards of
`@UseGuards`. -/
structure Route where
  path : String
  handler : Metadata
  controller : Metadata
  useGuards : List Guard
  deriving DecidableEq, Repr

/-- `reflector.getAllAndOverride`: the handler before the controller. -/
def getAllAndOverride {α : Type} (route : Route) (key : Metadata → Option α) : Option α :=
  (key route.handler).or (key route.controller)

/-- `@Public()`. -/
def Route.isPublic (route : Route) : Bool := (getAllAndOverride route (·.isPublic)).getD false

/-- `@AuthenticatedOnly()`. -/
def Route.authenticatedOnly (route : Route) : Bool :=
  (getAllAndOverride route (·.noPermissionsRequired)).getD false

/-- `@RequirePermissions(...)`. -/
def Route.requiredPermissions (route : Route) : Option (List String) :=
  getAllAndOverride route (·.requirePermissions)

/-- `@AllowDuringPasswordReset()`. -/
def Route.isAllowed (route : Route) : Bool :=
  (getAllAndOverride route (·.allowDuringPasswordReset)).getD false

/-- The guards that run before the handler: the global ones, then those of the route. -/
def Route.guards (route : Route) : List Guard :=
  [.jwtAuth, .passwordReset, .permissions] ++ route.useGuards

/-- `request.user`: the payload with the state that was read for this request. -/
structure RequestUser where
  payload : TokenPayload
  permissions : List String
  forcePasswordReset : Bool
  deriving DecidableEq, Repr

/-- A request, with what the middleware and the guards have added to it. -/
structure Request where
  route : Route
  /-- `request.params.tenantId`. -/
  tenantId : Option CompanyId
  /-- `request.cookies.jwt`. -/
  cookie : Option TokenPayload
  /-- `cls.get('companyId')`. -/
  companyId : Option CompanyId
  user : Option RequestUser
  /-- When it arrived. -/
  started : ℕ
  deriving DecidableEq, Repr

/-- The answer that refuses a request. -/
inductive Refusal
  | badRequest
  | unauthorized
  | forbidden
  /-- The answer 403 with the code `PASSWORD_CHANGE_REQUIRED`. -/
  | passwordChangeRequired
  deriving DecidableEq, Repr

/-! ### The middleware -/

/-- A text begins with another one. -/
def startsWith (text initial : String) : Bool := initial.toList.isPrefixOf text.toList

/-- `publicPaths`. -/
def publicPaths : List String :=
  ["/api/v1/tenants/branding", "/v1/tenants/branding", "/api/v1/admin/tenants",
    "/v1/admin/tenants", "/api/v1/admin/subscriptions", "/v1/admin/subscriptions",
    "/api/v1/admin/dashboard", "/v1/admin/dashboard", "/api/v1/admin/permissions",
    "/v1/admin/permissions", "/queues", "/api/health", "/health", "/metrics"]

/-- The path is one for which no tenant is resolved. -/
def isPublicPath (path : String) : Bool := publicPaths.any fun p => startsWith path p

/-- The subdomain of the header `x-subdomain`, or the first part of the host; none for the empty
text. -/
def subdomainOf (header : Option String) (host : String) : Option String :=
  let parts := host.toList.splitOn '.'
  let first := String.ofList (parts.headD [])
  let subdomain := match header with
    | some name => if name = "" then none else some name
    | none => none
  match subdomain with
  | some name => some name
  | none =>
    if host ≠ "" ∧ 2 ≤ parts.length ∧ first ≠ "www" ∧ ¬startsWith first "localhost" ∧ first ≠ ""
    then some first
    else none

/-- `TenantMiddleware.use`: what it sets `companyId` to. `findBySubdomain` is the answer of the
lookup. -/
def tenantMiddleware (path : String) (header : Option String) (host : String)
    (findBySubdomain : Subdomain → Option Company) : Except Refusal (Option CompanyId) :=
  if isPublicPath path then .ok none
  else
    match subdomainOf header host with
    | none => .error .badRequest
    | some subdomain =>
      match findBySubdomain subdomain with
      | none => .error .badRequest
      | some company =>
        if company.status = .suspended then .error .forbidden else .ok (some company.id)

/-! ### The guards -/

/-- `verifyToken` at a time in milliseconds: the token was signed here and has not expired. -/
def verifyToken (signed : List TokenPayload) (now : ℕ) (token : TokenPayload) : Bool :=
  decide (token ∈ signed ∧ now / 1000 < token.exp)

/-- `JwtAuthGuard.canActivate`; `state` is the answer of `getUserAuthState`, if it does not
fail. -/
def jwtAuthGuard (signed : List TokenPayload) (now : ℕ) (state : Option CachedAuthState)
    (r : Request) : Except Refusal Request :=
  if r.route.isPublic then .ok r
  else
    match r.cookie with
    | none => .error .unauthorized
    | some token =>
      if !verifyToken signed now token then .error .unauthorized
      else if r.companyId.any (· != token.companyId) then .error .forbidden
      else
        match state with
        | none => .error .unauthorized
        | some state =>
          if rejects state token.iat then .error .unauthorized
          else .ok { r with user := some ⟨token, state.permissions, state.forcePasswordReset⟩ }

/-- `PasswordResetGuard.canActivate`. -/
def passwordResetGuard (r : Request) : Except Refusal Request :=
  if r.route.isAllowed then .ok r
  else if r.user.any (·.forcePasswordReset) then .error .passwordChangeRequired
  else .ok r

/-- `PermissionsGuard.canActivate`. -/
def permissionsGuard (r : Request) : Except Refusal Request :=
  if r.route.isPublic then .ok r
  else if r.route.authenticatedOnly then .ok r
  else
    match r.route.requiredPermissions with
    | some required =>
      match r.user with
      | none => .error .forbidden
      | some user =>
        if required.all fun p => user.permissions.contains p then .ok r else .error .forbidden
    | none => .error .forbidden

/-- `PERMISSIONS.MANAGE_TENANTS`. -/
def manageTenants : String := "MANAGE_TENANTS"

/-- `TenantParamScopeGuard.canActivate`. -/
def tenantParamScopeGuard (r : Request) : Except Refusal Request :=
  if r.user.any fun user => r.tenantId == some user.payload.companyId then .ok r
  else if r.user.any fun user => user.permissions.contains manageTenants then .ok r
  else .error .forbidden

/-- A guard of a route runs. -/
def Guard.run (signed : List TokenPayload) (now : ℕ) (state : Option CachedAuthState)
    (r : Request) : Guard → Except Refusal Request
  | .jwtAuth => jwtAuthGuard signed now state r
  | .passwordReset => passwordResetGuard r
  | .permissions => permissionsGuard r
  | .tenantParamScope => tenantParamScopeGuard r

end Odiseo.Requests
