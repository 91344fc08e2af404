import Odiseo.Requests.Guards
import Odiseo.Auth.Staleness

/-!
# Sessions and requests of all tenants

The database of every tenant, the tokens that logins have signed, and the requests of any
number of clients on their way through the guards. Between two guards of a request
anything else may happen: logins, password changes, revocations, and any other write to
the database. The tenant lookup answers with a row that the database held at some moment,
and `getUserAuthState` with permissions and a user that it held within a bound
(`authAnswer_of_returned`).
-/

namespace Odiseo.Requests

open Odiseo.Auth (CachedAuthState UserRow AuthRows authState)
open Odiseo.Tenants (Company Subdomain)
open Database.Transition

/-- `User`, a row in the schema of a tenant. -/
structure Account where
  id : UserId
  email : String
  companyId : CompanyId
  passwordHash : String
  isActive : Bool
  row : UserRow
  deriving DecidableEq, Repr

/-- The schema of a tenant: its users, and the roles and permissions that are effective for
each of them. -/
structure Schema where
  users : List Account
  roles : UserId → List String
  permissions : UserId → List String

/-- `findOne(User, { where: { id } })`. -/
def Schema.find (s : Schema) (id : UserId) : Option Account := s.users.find? fun a => a.id == id

/-- What `getUserAuthState` reads of a user. -/
def Schema.authRows (s : Schema) (id : UserId) : AuthRows :=
  ⟨s.permissions id, (s.find id).map (·.row)⟩

/-- An update of the row of one user. -/
def Schema.update (s : Schema) (id : UserId) (f : Account → Account) : Schema :=
  { s with users := s.users.map fun a => if a.id = id then f a else a }

/-- The public schema and the schemas of the tenants. -/
structure Db where
  companies : List Company
  schemas : CompanyId → Option Schema

/-- `findOne(Company, { where: { subdomain, isActive: true } })`. -/
def Db.findBySubdomain (db : Db) (subdomain : Subdomain) : Option Company :=
  db.companies.find? fun c => c.subdomain == subdomain && c.isActive

/-- A transaction on the schema of one tenant. -/
def Db.update (db : Db) (companyId : CompanyId) (f : Schema → Schema) : Db :=
  { db with schemas := fun c => if c = companyId then (db.schemas c).map f else db.schemas c }

section Service

variable (compare : String → String → Bool)

/-- `AuthService.validateUser`; `company` is the answer of the lookup. -/
def validateUser (db : Db) (company : Option Company) (email password : String) :
    Except Refusal (Option (Account × Company)) :=
  match company with
  | none => .ok none
  | some company =>
    if company.status = .suspended then .error .forbidden
    else
      match db.schemas company.id with
      | none => .error .unauthorized
      | some schema =>
        match schema.users.find? fun a => a.email == email && a.isActive with
        | none => .ok none
        | some account =>
          if compare password account.passwordHash && account.companyId == company.id then
            .ok (some (account, company))
          else .ok none

/-- `AuthService.changePassword` on the schema of the user; `hash` is what `bcrypt.hash` makes of
the new password. -/
def changePassword (schema : Schema) (id : UserId) (currentPassword newPassword hash : String) :
    Except Refusal Schema :=
  match schema.users.find? fun a => a.id == id && a.isActive with
  | none => .error .unauthorized
  | some account =>
    if !compare currentPassword account.passwordHash then .error .unauthorized
    else if compare newPassword account.passwordHash then .error .badRequest
    else .ok (schema.update id fun a =>
      { a with passwordHash := hash, row := { a.row with forcePasswordReset := false } })

end Service

/-- The update of `revokeUserTokens`. -/
def revokeUserTokens (schema : Schema) (id : UserId) (stamp : ℕ) : Schema :=
  schema.update id fun a => { a with row := { a.row with tokensValidAfter := some stamp } }

/-- A login that succeeded. -/
structure Login where
  token : TokenPayload
  account : Account
  company : Company
  password : String
  time : ℕ
  deriving DecidableEq, Repr

/-- A request that still has guards before it. -/
structure Pending where
  request : Request
  rest : List Guard
  deriving DecidableEq, Repr

/-- A request whose handler has been entered. -/
structure Entered where
  request : Request
  time : ℕ
  deriving DecidableEq, Repr

/-- A call of `revokeUserTokens`, before and after `new Date()`. -/
structure Revocation where
  companyId : CompanyId
  userId : UserId
  stamp : Option ℕ
  deriving DecidableEq, Repr

/-- The database with all its moments so far, the tokens, and the requests. -/
structure World where
  now : ℕ
  db : Db
  moments : List (ℕ × Db)
  signed : List TokenPayload
  logins : List Login
  pending : List Pending
  entered : List Entered
  revocations : List Revocation

/-- Nobody has logged in and nothing has been asked. -/
def World.start (now : ℕ) (db : Db) : World where
  now := now
  db := db
  moments := [(now, db)]
  signed := []
  logins := []
  pending := []
  entered := []
  revocations := []

/-- One step of a client, of the application or of the database. -/
inductive Action
  /-- Milliseconds pass. -/
  | pass (ms : ℕ)
  /-- Any other write. -/
  | write (db : Db)
  /-- The handler of `login`; the lookup answers with the company of a moment. -/
  | login (subdomain email password : String) (lookup : ℕ)
  /-- A request arrives at the middleware. -/
  | arrive (route : Route) (tenantId : Option CompanyId) (header : Option String) (host : String)
    (cookie : Option TokenPayload) (lookup : ℕ)
  /-- The next guard of a request runs. When it asks for the authorization state, the answer
  is built from the permissions of one moment and the user of another, or fails. -/
  | guard (request : ℕ) (answer : Option (ℕ × ℕ))
  /-- The handler of a request is entered. -/
  | enter (request : ℕ)
  /-- The handler of `logout`. -/
  | logout (cookie : Option TokenPayload)
  /-- The transaction in the handler of `change-password`, for a request that has entered it. -/
  | changePassword (entered : ℕ) (currentPassword newPassword hash : String)
  /-- `new Date()` in `revokeUserTokens`. -/
  | stamp (revocation : ℕ)
  /-- The update of `revokeUserTokens` commits or fails. -/
  | commitStamp (revocation : ℕ) (saved : Bool)

namespace World

/-- The answer of `getUserAuthState` from two moments, neither more than `bound` ago. -/
def authAnswer (bound : ℕ) (w : World) (token : TokenPayload) (answer : Option (ℕ × ℕ)) :
    Option CachedAuthState :=
  answer.bind fun (i, j) =>
    match w.moments[i]?, w.moments[j]? with
    | some m₁, some m₂ =>
      if w.now ≤ m₁.1 + bound ∧ w.now ≤ m₂.1 + bound then
        match m₁.2.schemas token.companyId, m₂.2.schemas token.companyId with
        | some s₁, some s₂ =>
          some (authState (s₁.authRows token.sub).permissions (s₂.authRows token.sub).user)
        | _, _ => none
      else none
    | _, _ => none

/-- The handler of `login`. -/
def login (compare : String → String → Bool) (lifetime : ℕ) (w : World)
    (subdomain email password : String) (lookup : ℕ) : Option World :=
  (w.moments[lookup]?).map fun m =>
    match validateUser compare w.db (m.2.findBySubdomain subdomain) email password with
    | .ok (some (account, company)) =>
      let token : TokenPayload :=
        { sub := account.id
          companyId := company.id
          roles := ((w.db.schemas company.id).map (·.roles account.id)).getD []
          iat := w.now / 1000
          exp := w.now / 1000 + lifetime }
      { w with
        signed := token :: w.signed
        logins := ⟨token, account, company, password, w.now⟩ :: w.logins }
    | _ => w

/-- The middleware lets a request in, or refuses it. -/
def arrive (w : World) (route : Route) (tenantId : Option CompanyId) (header : Option String)
    (host : String) (cookie : Option TokenPayload) (lookup : ℕ) : Option World :=
  (w.moments[lookup]?).map fun m =>
    match tenantMiddleware route.path header host m.2.findBySubdomain with
    | .ok companyId =>
      { w with
        pending := ⟨⟨route, tenantId, cookie, companyId, none, w.now⟩, route.guards⟩ :: w.pending }
    | .error _ => w

/-- The next guard of a request lets it through, or the request is answered. -/
def guard (bound : ℕ) (w : World) (i : ℕ) (answer : Option (ℕ × ℕ)) : Option World :=
  match w.pending[i]? with
  | some ⟨request, g :: rest⟩ =>
    let state := request.cookie.bind fun token => w.authAnswer bound token answer
    match g.run w.signed w.now state request with
    | .ok request => some { w with pending := w.pending.set i ⟨request, rest⟩ }
    | .error _ => some { w with pending := w.pending.eraseIdx i }
  | _ => none

/-- A request without further guards enters its handler. -/
def enter (w : World) (i : ℕ) : Option World :=
  match w.pending[i]? with
  | some ⟨request, []⟩ =>
    some { w with pending := w.pending.eraseIdx i, entered := w.entered ++ [⟨request, w.now⟩] }
  | _ => none

/-- The handler of `logout`: a token that verifies is revoked with all others of its user. -/
def logout (w : World) (cookie : Option TokenPayload) : World :=
  match cookie with
  | some token =>
    if verifyToken w.signed w.now token then
      { w with revocations := w.revocations ++ [⟨token.companyId, token.sub, none⟩] }
    else w
  | none => w

/-- The transaction of `changePassword`, and the revocation that follows it. -/
def changePassword (compare : String → String → Bool) (w : World) (i : ℕ)
    (currentPassword newPassword hash : String) : Option World :=
  match w.entered[i]? with
  | some ⟨request, _⟩ =>
    match request.user with
    | some user =>
      match w.db.schemas user.payload.companyId with
      | some schema =>
        match Requests.changePassword compare schema user.payload.sub currentPassword newPassword
          hash with
        | .ok schema => some { w with
            db := w.db.update user.payload.companyId fun _ => schema
            revocations := w.revocations ++ [⟨user.payload.companyId, user.payload.sub, none⟩] }
        | .error _ => some w
      | none => some w
    | none => none
  | none => none

/-- `new Date()`. -/
def stamp (w : World) (j : ℕ) : Option World :=
  match w.revocations[j]? with
  | some ⟨companyId, userId, none⟩ =>
    some { w with revocations := w.revocations.set j ⟨companyId, userId, some w.now⟩ }
  | _ => none

/-- The update of `tokens_valid_after`. -/
def commitStamp (w : World) (j : ℕ) (saved : Bool) : Option World :=
  match w.revocations[j]? with
  | some ⟨companyId, userId, some stamp⟩ =>
    some { w with
      db := if saved then w.db.update companyId fun s => revokeUserTokens s userId stamp else w.db
      revocations := w.revocations.eraseIdx j }
  | _ => none

/-- What an action does, when it can happen. -/
def act (compare : String → String → Bool) (lifetime bound : ℕ) (w : World) :
    Action → Option World
  | .pass ms => some { w with now := w.now + ms }
  | .write db => some { w with db := db }
  | .login subdomain email password lookup =>
    w.login compare lifetime subdomain email password lookup
  | .arrive route tenantId header host cookie lookup =>
    w.arrive route tenantId header host cookie lookup
  | .guard i answer => w.guard bound i answer
  | .enter i => w.enter i
  | .logout cookie => some (w.logout cookie)
  | .changePassword i current new hash => w.changePassword compare i current new hash
  | .stamp j => w.stamp j
  | .commitStamp j saved => w.commitStamp j saved

/-- One step, after which the time and the database are recorded. -/
def step (compare : String → String → Bool) (lifetime bound : ℕ) (w : World) (a : Action) :
    Option World :=
  (w.act compare lifetime bound a).map fun w' =>
    { w' with moments := w'.moments ++ [(w'.now, w'.db)] }

end World

end Odiseo.Requests
