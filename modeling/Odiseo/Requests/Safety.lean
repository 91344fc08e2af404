import Odiseo.Requests.System

/-!
# A handler is entered with authority

Whatever the clients send and however logins, revocations and other writes come between
the guards, the handler of a protected route is entered only on a token that a login of an
active account has signed, in the tenant of this account, and by the permissions that the
account held at most `bound` before.
-/

namespace Odiseo.Requests

open Odiseo.Auth (CachedAuthState UserRow AuthRows authState rejects)
open Odiseo.Tenants (Company Subdomain)
open Database.Transition

/-- A property of the schema of the token's tenant, at a moment between `bound` before the request
arrived and `last`. -/
def ReadFor (bound : ℕ) (w : World) (r : Request) (last : ℕ) (token : TokenPayload)
    (holds : Schema → Prop) : Prop :=
  ∃ m ∈ w.moments, r.started ≤ m.1 + bound ∧ m.1 ≤ last ∧
    ∃ s, m.2.schemas token.companyId = some s ∧ holds s

/-- The token was not revoked: it was not issued in a second before the stamp. -/
def NotRevoked (token : TokenPayload) (s : Schema) : Prop :=
  ∀ row stamp, (s.authRows token.sub).user = some row → row.tokensValidAfter = some stamp →
    stamp / 1000 ≤ token.iat

/-- The account of the token was not held until its password is changed. -/
def NotHeld (token : TokenPayload) (s : Schema) : Prop :=
  ∀ row, (s.authRows token.sub).user = some row → row.forcePasswordReset = false

/-- The account of the token had permissions. -/
def Holds (token : TokenPayload) (required : List String) (s : Schema) : Prop :=
  ∀ p ∈ required, p ∈ s.permissions token.sub

/-- A token that was signed and had not expired when it was verified, of the tenant that the
request was resolved to, and not revoked. -/
structure Authenticated (bound : ℕ) (w : World) (r : Request) (last : ℕ) (token : TokenPayload) :
    Prop where
  signed : token ∈ w.signed
  verified : ∃ v, r.started ≤ v ∧ v ≤ last ∧ v / 1000 < token.exp
  tenant : ∀ c, r.companyId = some c → c = token.companyId
  notRevoked : ReadFor bound w r last token (NotRevoked token)

/-- What a guard that let a request through has made sure of. -/
def Passed (bound : ℕ) (w : World) (r : Request) (last : ℕ) : Guard → Prop
  | .jwtAuth => r.route.isPublic = true ∨
    ∃ token, r.cookie = some token ∧ Authenticated bound w r last token
  | .passwordReset => r.route.isPublic = true ∨ r.route.isAllowed = true ∨
    ∃ token, r.cookie = some token ∧ ReadFor bound w r last token (NotHeld token)
  | .permissions => r.route.isPublic = true ∨ r.route.authenticatedOnly = true ∨
    ∃ token required, r.cookie = some token ∧ r.route.requiredPermissions = some required ∧
      ReadFor bound w r last token (Holds token required)
  | .tenantParamScope => ∃ token, r.cookie = some token ∧ (r.tenantId = some token.companyId ∨
      ReadFor bound w r last token (Holds token [manageTenants]))

/-- The user that a guard has put on the request is the one of its cookie, as the database had
it. -/
def UserSound (bound : ℕ) (w : World) (r : Request) (last : ℕ) : Prop :=
  ∀ u, r.user = some u → r.cookie = some u.payload ∧
    ReadFor bound w r last u.payload (fun s => s.permissions u.payload.sub = u.permissions) ∧
    ReadFor bound w r last u.payload fun s =>
      (((s.authRows u.payload.sub).user.map (·.forcePasswordReset)).getD false) =
        u.forcePasswordReset

/-- The tenant of a request: none on the paths for which none is resolved, else a company that was
active and not suspended at some moment. -/
def Resolved (w : World) (r : Request) : Prop :=
  match r.companyId with
  | none => isPublicPath r.route.path = true
  | some c => ∃ m ∈ w.moments, ∃ company ∈ m.2.companies,
    company.id = c ∧ company.isActive = true ∧ company.status ≠ .suspended

/-- A request on its way: the guards before it have been passed. -/
structure PendingSound (bound : ℕ) (w : World) (p : Pending) : Prop where
  passed : ∃ done, done ++ p.rest = p.request.route.guards ∧
    (∀ g ∈ done, Passed bound w p.request w.now g) ∧
    (Guard.jwtAuth ∈ done → p.request.route.isPublic = true ∨ p.request.user.isSome = true)
  user : UserSound bound w p.request w.now
  started : p.request.started ≤ w.now
  resolved : Resolved w p.request

/-- A request whose handler was entered: all guards have been passed. -/
structure EnteredSound (bound : ℕ) (w : World) (e : Entered) : Prop where
  passed : ∀ g ∈ e.request.route.guards, Passed bound w e.request e.time g
  resolved : Resolved w e.request

/-- A login is one of an active account of its own company, with the password. -/
structure Genuine (compare : String → String → Bool) (lifetime : ℕ) (w : World) (l : Login) :
    Prop where
  sub : l.token.sub = l.account.id
  companyId : l.token.companyId = l.company.id
  issued : l.token.iat = l.time / 1000
  expires : l.token.exp = l.time / 1000 + lifetime
  password : compare l.password l.account.passwordHash = true
  active : l.account.isActive = true
  own : l.account.companyId = l.company.id
  account : ∃ m ∈ w.moments, m.1 = l.time ∧
    ∃ s, m.2.schemas l.company.id = some s ∧ l.account ∈ s.users
  company : ∃ m ∈ w.moments, l.company ∈ m.2.companies
  companyActive : l.company.isActive = true
  notSuspended : l.company.status ≠ .suspended

/-- What holds of every world that is reached. -/
structure Sound (compare : String → String → Bool) (lifetime bound : ℕ) (w : World) : Prop where
  current : (w.now, w.db) ∈ w.moments
  past : ∀ m ∈ w.moments, m.1 ≤ w.now
  signed : ∀ token ∈ w.signed, ∃ l ∈ w.logins, l.token = token
  logins : ∀ l ∈ w.logins, Genuine compare lifetime w l
  pending : ∀ p ∈ w.pending, PendingSound bound w p
  entered : ∀ e ∈ w.entered, EnteredSound bound w e

/-- A world that has more moments, tokens and time. -/
structure Grows (w w' : World) : Prop where
  now : w.now ≤ w'.now
  moments : ∀ m ∈ w.moments, m ∈ w'.moments
  signed : ∀ token ∈ w.signed, token ∈ w'.signed

section Grows

variable {bound : ℕ} {w w' : World} {r : Request} {last last' : ℕ} {token : TokenPayload}

/-- A read stays one. -/
theorem ReadFor.mono {holds : Schema → Prop} (hg : Grows w w') (hlast : last ≤ last')
    (h : ReadFor bound w r last token holds) : ReadFor bound w' r last' token holds := by
  obtain ⟨m, hm, hstart, hle, s, hs, hholds⟩ := h
  exact ⟨m, hg.moments m hm, hstart, Nat.le_trans hle hlast, s, hs, hholds⟩

/-- A weaker property was read as well. -/
theorem ReadFor.imp {holds holds' : Schema → Prop} (himp : ∀ s, holds s → holds' s)
    (h : ReadFor bound w r last token holds) : ReadFor bound w r last token holds' := by
  obtain ⟨m, hm, hstart, hle, s, hs, hholds⟩ := h
  exact ⟨m, hm, hstart, hle, s, hs, himp s hholds⟩

/-- A token stays authenticated. -/
theorem Authenticated.mono (hg : Grows w w') (hlast : last ≤ last')
    (h : Authenticated bound w r last token) : Authenticated bound w' r last' token where
  signed := hg.signed token h.signed
  verified := by
    obtain ⟨v, hstart, hle, hexp⟩ := h.verified
    exact ⟨v, hstart, Nat.le_trans hle hlast, hexp⟩
  tenant := h.tenant
  notRevoked := h.notRevoked.mono hg hlast

/-- What a guard has made sure of stays so. -/
theorem Passed.mono (hg : Grows w w') (hlast : last ≤ last') {g : Guard}
    (h : Passed bound w r last g) : Passed bound w' r last' g := by
  cases g with
  | jwtAuth =>
    rcases h with h | ⟨token, hcookie, h⟩
    · exact .inl h
    · exact .inr ⟨token, hcookie, h.mono hg hlast⟩
  | passwordReset =>
    rcases h with h | h | ⟨token, hcookie, h⟩
    · exact .inl h
    · exact .inr (.inl h)
    · exact .inr (.inr ⟨token, hcookie, h.mono hg hlast⟩)
  | permissions =>
    rcases h with h | h | ⟨token, required, hcookie, hrequired, h⟩
    · exact .inl h
    · exact .inr (.inl h)
    · exact .inr (.inr ⟨token, required, hcookie, hrequired, h.mono hg hlast⟩)
  | tenantParamScope =>
    obtain ⟨token, hcookie, h⟩ := h
    refine ⟨token, hcookie, ?_⟩
    rcases h with h | h
    · exact .inl h
    · exact .inr (h.mono hg hlast)

/-- The user of a request stays sound. -/
theorem UserSound.mono (hg : Grows w w') (hlast : last ≤ last') (h : UserSound bound w r last) :
    UserSound bound w' r last' := by
  intro u hu
  obtain ⟨hcookie, hpermissions, hflag⟩ := h u hu
  exact ⟨hcookie, hpermissions.mono hg hlast, hflag.mono hg hlast⟩

/-- The tenant of a request stays resolved. -/
theorem Resolved.mono (hg : Grows w w') (h : Resolved w r) : Resolved w' r := by
  unfold Resolved at h ⊢
  split at h
  · exact h
  · obtain ⟨m, hm, company, hcompany, hfacts⟩ := h
    exact ⟨m, hg.moments m hm, company, hcompany, hfacts⟩

/-- A request on its way stays sound. -/
theorem PendingSound.mono (hg : Grows w w') {p : Pending} (h : PendingSound bound w p) :
    PendingSound bound w' p where
  passed := by
    obtain ⟨done, heq, hpassed, huser⟩ := h.passed
    exact ⟨done, heq, fun g hdone => (hpassed g hdone).mono hg hg.now, huser⟩
  user := h.user.mono hg hg.now
  started := Nat.le_trans h.started hg.now
  resolved := h.resolved.mono hg

/-- A request that has entered stays sound. -/
theorem EnteredSound.mono (hg : Grows w w') {e : Entered} (h : EnteredSound bound w e) :
    EnteredSound bound w' e :=
  ⟨fun g hdone => (h.passed g hdone).mono hg (Nat.le_refl _), h.resolved.mono hg⟩

/-- A login stays genuine. -/
theorem Genuine.mono {compare : String → String → Bool} {lifetime : ℕ} (hg : Grows w w')
    {l : Login} (h : Genuine compare lifetime w l) : Genuine compare lifetime w' l := by
  obtain ⟨m, hm, haccount⟩ := h.account
  obtain ⟨m', hm', hcompany⟩ := h.company
  exact { h with
    account := ⟨m, hg.moments m hm, haccount⟩
    company := ⟨m', hg.moments m' hm', hcompany⟩ }

end Grows

/-! ### What a guard that lets a request through has seen -/

section Guards

variable {signed : List TokenPayload} {now : ℕ} {state : Option CachedAuthState} {r r' : Request}

/-- The session of a request that `JwtAuthGuard` lets through on a protected route. -/
structure SessionSeen (signed : List TokenPayload) (now : ℕ) (state : Option CachedAuthState)
    (r r' : Request) (token : TokenPayload) (st : CachedAuthState) : Prop where
  cookie : r.cookie = some token
  verified : token ∈ signed ∧ now / 1000 < token.exp
  tenant : ∀ c, r.companyId = some c → c = token.companyId
  state : state = some st
  notRevoked : rejects st token.iat = false
  user : r' = { r with user := some ⟨token, st.permissions, st.forcePasswordReset⟩ }

/-- `JwtAuthGuard` passes a public route as it is, and puts the user on any other request. -/
theorem of_jwtAuthGuard (h : jwtAuthGuard signed now state r = .ok r') :
    r.route.isPublic = true ∧ r' = r ∨ ∃ token st, SessionSeen signed now state r r' token st := by
  unfold jwtAuthGuard at h
  split at h
  · rename_i hpublic
    cases h
    exact .inl ⟨hpublic, rfl⟩
  · split at h
    · cases h
    · rename_i token hcookie
      split at h
      · cases h
      · rename_i hverify
        split at h
        · cases h
        · rename_i htenant
          split at h
          · cases h
          · rename_i st
            split at h
            · cases h
            · rename_i hrejects
              cases h
              refine .inr ⟨token, st, hcookie, ?_, ?_, rfl, by simpa using hrejects, rfl⟩
              · simpa [verifyToken] using hverify
              · intro c hc
                rw [hc] at htenant
                simpa using htenant

/-- `PasswordResetGuard` passes a request whose user is not held, or any on an allowed route. -/
theorem of_passwordResetGuard (h : passwordResetGuard r = .ok r') :
    r' = r ∧ (r.route.isAllowed = true ∨ ∀ u, r.user = some u → u.forcePasswordReset = false) := by
  unfold passwordResetGuard at h
  split at h
  · rename_i hallowed
    cases h
    exact ⟨rfl, .inl hallowed⟩
  · split at h
    · cases h
    · rename_i hheld
      cases h
      refine ⟨rfl, .inr ?_⟩
      intro u hu
      rw [hu] at hheld
      simpa using hheld

/-- `PermissionsGuard` passes a request on a route with a policy that its user meets. -/
theorem of_permissionsGuard (h : permissionsGuard r = .ok r') :
    r' = r ∧ (r.route.isPublic = true ∨ r.route.authenticatedOnly = true ∨
      ∃ required u, r.route.requiredPermissions = some required ∧ r.user = some u ∧
        ∀ p ∈ required, p ∈ u.permissions) := by
  unfold permissionsGuard at h
  split at h
  · rename_i hpublic
    cases h
    exact ⟨rfl, .inl hpublic⟩
  · split at h
    · rename_i honly
      cases h
      exact ⟨rfl, .inr (.inl honly)⟩
    · split at h
      · rename_i required hrequired
        split at h
        · cases h
        · rename_i u hu
          split at h
          · rename_i hall
            cases h
            exact ⟨rfl, .inr (.inr ⟨required, u, hrequired, hu, by simpa using hall⟩)⟩
          · cases h
      · cases h

/-- `TenantParamScopeGuard` passes a user on the own tenant, or one who manages tenants. -/
theorem of_tenantParamScopeGuard (h : tenantParamScopeGuard r = .ok r') :
    r' = r ∧ ∃ u, r.user = some u ∧
      (r.tenantId = some u.payload.companyId ∨ manageTenants ∈ u.permissions) := by
  unfold tenantParamScopeGuard at h
  split at h
  · rename_i hown
    cases h
    obtain ⟨u, hu, heq⟩ := (Option.any_eq_true _ _).mp hown
    exact ⟨rfl, u, hu, .inl (by simpa using heq)⟩
  · split at h
    · rename_i hmanages
      cases h
      obtain ⟨u, hu, hmem⟩ := (Option.any_eq_true _ _).mp hmanages
      exact ⟨rfl, u, hu, .inr (by simpa using hmem)⟩
    · cases h

end Guards

section Steps

variable {compare : String → String → Bool} {lifetime bound : ℕ} {w w' : World}

/-- The moments behind an answer of `getUserAuthState`. -/
theorem of_authAnswer (hw : Sound compare lifetime bound w) {token : TokenPayload}
    {answer : Option (ℕ × ℕ)} {st : CachedAuthState}
    (h : w.authAnswer bound token answer = some st) {r : Request} (hstart : r.started ≤ w.now) :
    ReadFor bound w r w.now token (fun s => s.permissions token.sub = st.permissions) ∧
      ReadFor bound w r w.now token fun s =>
        (authState st.permissions (s.authRows token.sub).user) = st := by
  unfold World.authAnswer at h
  obtain ⟨⟨i, j⟩, _, h⟩ := Option.bind_eq_some_iff.mp h
  dsimp only at h
  split at h
  · rename_i m₁ m₂ hm₁ hm₂
    split at h
    · rename_i hbound
      split at h
      · rename_i s₁ s₂ hs₁ hs₂
        cases h
        have hmem₁ := List.mem_of_getElem? hm₁
        have hmem₂ := List.mem_of_getElem? hm₂
        exact ⟨⟨m₁, hmem₁, by omega, hw.past m₁ hmem₁, s₁, hs₁, rfl⟩,
          ⟨m₂, hmem₂, by omega, hw.past m₂ hmem₂, s₂, hs₂, rfl⟩⟩
      · cases h
    · cases h
  · cases h

/-- What a session that was seen makes sure of, and the user that it puts on the request. -/
theorem authenticated_of_seen (hw : Sound compare lifetime bound w) {answer : Option (ℕ × ℕ)}
    {r r' : Request} (hstart : r.started ≤ w.now) {token : TokenPayload} {st : CachedAuthState}
    (h : SessionSeen w.signed w.now (r.cookie.bind fun t => w.authAnswer bound t answer) r r' token
      st) :
    Authenticated bound w r w.now token ∧ UserSound bound w r' w.now := by
  have hanswer : w.authAnswer bound token answer = some st := by
    have hstate := h.state
    rw [h.cookie] at hstate
    exact hstate
  obtain ⟨hpermissions, huser⟩ := of_authAnswer hw hanswer hstart
  refine ⟨⟨h.verified.1, ⟨w.now, hstart, Nat.le_refl _, h.verified.2⟩, h.tenant, ?_⟩, ?_⟩
  · refine huser.imp fun s hs row stamp hrow hstamp => ?_
    have hrejects := h.notRevoked
    rw [← hs, hrow] at hrejects
    simpa [rejects, authState, hstamp] using hrejects
  · intro u hu
    rw [h.user] at hu ⊢
    cases hu
    refine ⟨h.cookie, hpermissions, huser.imp fun s hs => ?_⟩
    rw [← hs]
    rfl

/-- Another user on a request changes nothing that the guards have made sure of. -/
theorem passed_setUser {r : Request} {last : ℕ} (user : Option RequestUser) {g : Guard}
    (h : Passed bound w r last g) : Passed bound w { r with user := user } last g := by
  cases g with
  | jwtAuth =>
    rcases h with h | ⟨token, hcookie, h⟩
    · exact .inl h
    · exact .inr ⟨token, hcookie, h.signed, h.verified, h.tenant, h.notRevoked⟩
  | passwordReset => exact h
  | permissions => exact h
  | tenantParamScope => exact h

/-- The guard that lets a request through has made sure of what it stands for. -/
theorem passed_of_run (hw : Sound compare lifetime bound w) {p : Pending}
    (hp : PendingSound bound w p) {g : Guard} {rest : List Guard} (hrest : p.rest = g :: rest)
    {answer : Option (ℕ × ℕ)} {r' : Request}
    (hrun : g.run w.signed w.now (p.request.cookie.bind fun t => w.authAnswer bound t answer)
      p.request = .ok r') :
    ∃ user, r' = { p.request with user := user } ∧ Passed bound w r' w.now g ∧
      UserSound bound w r' w.now ∧
      (g = .jwtAuth ∨ p.request.user.isSome = true →
        r'.route.isPublic = true ∨ r'.user.isSome = true) := by
  obtain ⟨done, hguards, hdone, huser⟩ := hp.passed
  have hfirst : g = .jwtAuth ∨ Guard.jwtAuth ∈ done := by
    rw [hrest] at hguards
    cases done with
    | nil => exact .inl (by simpa [Route.guards] using congrArg List.head? hguards)
    | cons d done =>
      have hd : d = .jwtAuth := by simpa [Route.guards] using congrArg List.head? hguards
      exact .inr (by simp [hd])
  cases g with
  | jwtAuth =>
    rcases of_jwtAuthGuard hrun with ⟨hpublic, rfl⟩ | ⟨token, st, hseen⟩
    · exact ⟨_, rfl, .inl hpublic, hp.user, fun _ => .inl hpublic⟩
    · obtain ⟨hauth, hsound⟩ := authenticated_of_seen hw hp.started hseen
      have hr' := hseen.user
      subst hr'
      exact ⟨_, rfl, .inr ⟨token, hseen.cookie, hauth.signed, hauth.verified, hauth.tenant,
        hauth.notRevoked⟩, hsound, fun _ => .inr rfl⟩
  | passwordReset =>
    obtain ⟨rfl, hallowed⟩ := of_passwordResetGuard hrun
    refine ⟨_, rfl, ?_, hp.user, fun h => h.elim nofun .inr⟩
    rcases hallowed with hallowed | hflag
    · exact .inr (.inl hallowed)
    · rcases huser (hfirst.resolve_left nofun) with hpublic | hsome
      · exact .inl hpublic
      · obtain ⟨u, hu⟩ := Option.isSome_iff_exists.mp hsome
        obtain ⟨hcookie, _, hread⟩ := hp.user u hu
        refine .inr (.inr ⟨u.payload, hcookie, hread.imp fun s hs row hrow => ?_⟩)
        rw [hrow, hflag u hu] at hs
        exact hs
  | permissions =>
    obtain ⟨rfl, hpolicy⟩ := of_permissionsGuard hrun
    refine ⟨_, rfl, ?_, hp.user, fun h => h.elim nofun .inr⟩
    rcases hpolicy with hpublic | honly | ⟨required, u, hrequired, hu, hall⟩
    · exact .inl hpublic
    · exact .inr (.inl honly)
    · obtain ⟨hcookie, hread, _⟩ := hp.user u hu
      refine .inr (.inr ⟨u.payload, required, hcookie, hrequired, hread.imp fun s hs q hq => ?_⟩)
      rw [hs]
      exact hall q hq
  | tenantParamScope =>
    obtain ⟨rfl, u, hu, hscope⟩ := of_tenantParamScopeGuard hrun
    obtain ⟨hcookie, hread, _⟩ := hp.user u hu
    refine ⟨_, rfl, ⟨u.payload, hcookie, ?_⟩, hp.user, fun h => h.elim nofun .inr⟩
    rcases hscope with hown | hmanages
    · exact .inl hown
    · refine .inr (hread.imp fun s hs q hq => ?_)
      rw [hs, List.mem_singleton.mp hq]
      exact hmanages

/-- A request that a guard lets through stays sound. -/
theorem pendingSound_of_run (hw : Sound compare lifetime bound w) {p : Pending}
    (hp : PendingSound bound w p) {g : Guard} {rest : List Guard} (hrest : p.rest = g :: rest)
    {answer : Option (ℕ × ℕ)} {r' : Request}
    (hrun : g.run w.signed w.now (p.request.cookie.bind fun t => w.authAnswer bound t answer)
      p.request = .ok r') :
    PendingSound bound w ⟨r', rest⟩ := by
  obtain ⟨user, rfl, hpassed, hsound, hkept⟩ := passed_of_run hw hp hrest hrun
  obtain ⟨done, hguards, hdone, huser⟩ := hp.passed
  refine ⟨⟨done ++ [g], ?_, ?_, ?_⟩, hsound, hp.started, hp.resolved⟩
  · rw [List.append_assoc, List.singleton_append, ← hrest]
    exact hguards
  · intro g' hg'
    rcases List.mem_append.mp hg' with hg' | hg'
    · exact passed_setUser user (hdone g' hg')
    · rw [List.mem_singleton.mp hg']
      exact hpassed
  · intro hjwt
    rcases List.mem_append.mp hjwt with hjwt | hjwt
    · rcases huser hjwt with hpublic | hsome
      · exact .inl hpublic
      · exact hkept (.inr hsome)
    · exact hkept (.inl (List.mem_singleton.mp hjwt).symm)

/-- A company that a lookup finds is active. -/
theorem of_findBySubdomain {db : Db} {subdomain : Subdomain} {company : Company}
    (h : db.findBySubdomain subdomain = some company) :
    company ∈ db.companies ∧ company.isActive = true := by
  have hfound := List.find?_some h
  rw [Bool.and_eq_true] at hfound
  exact ⟨List.mem_of_find?_eq_some h, hfound.2⟩

/-- The tenant of a request that the middleware lets in. -/
theorem resolved_of_middleware {m : ℕ × Db} (hm : m ∈ w.moments) {route : Route}
    {header : Option String} {host : String} {companyId : Option CompanyId}
    (h : tenantMiddleware route.path header host m.2.findBySubdomain = .ok companyId)
    {tenantId : Option CompanyId} {cookie : Option TokenPayload} {user : Option RequestUser}
    {started : ℕ} : Resolved w ⟨route, tenantId, cookie, companyId, user, started⟩ := by
  unfold tenantMiddleware at h
  split at h
  · rename_i hpublic
    cases h
    exact hpublic
  · split at h
    · cases h
    · split at h
      · cases h
      · rename_i company hfind
        split at h
        · cases h
        · rename_i hstatus
          cases h
          obtain ⟨hcompany, hactive⟩ := of_findBySubdomain hfind
          exact ⟨m, hm, company, hcompany, rfl, hactive, hstatus⟩

/-- Who a login lets in. -/
theorem of_validateUser {db : Db} {company : Option Company} {email password : String}
    {account : Account} {c : Company}
    (h : validateUser compare db company email password = .ok (some (account, c))) :
    company = some c ∧ c.status ≠ .suspended ∧
      (∃ s, db.schemas c.id = some s ∧ account ∈ s.users) ∧ account.isActive = true ∧
      compare password account.passwordHash = true ∧ account.companyId = c.id := by
  unfold validateUser at h
  split at h
  · cases h
  · split at h
    · cases h
    · rename_i hstatus
      split at h
      · cases h
      · rename_i schema hschema
        split at h
        · cases h
        · rename_i found hfound
          split at h
          · rename_i hvalid
            cases h
            rw [Bool.and_eq_true] at hvalid
            have hactive := List.find?_some hfound
            rw [Bool.and_eq_true] at hactive
            exact ⟨rfl, hstatus, ⟨schema, hschema, List.mem_of_find?_eq_some hfound⟩, hactive.2,
              hvalid.1, by simpa using hvalid.2⟩
          · cases h

/-- **What an action can do** to the lists of a sound world: whatever it adds is sound. -/
structure Acts (compare : String → String → Bool) (lifetime bound : ℕ) (w w' : World) : Prop where
  now : w.now ≤ w'.now
  moments : w'.moments = w.moments
  kept : ∀ l ∈ w.logins, l ∈ w'.logins
  keptSigned : ∀ token ∈ w.signed, token ∈ w'.signed
  signed : ∀ token ∈ w'.signed, token ∈ w.signed ∨ ∃ l ∈ w'.logins, l.token = token
  logins : ∀ l ∈ w'.logins, l ∈ w.logins ∨ Genuine compare lifetime w l
  pending : ∀ p ∈ w'.pending, p ∈ w.pending ∨ PendingSound bound w p
  entered : ∀ e ∈ w'.entered, e ∈ w.entered ∨ EnteredSound bound w e

/-- An action that adds nothing to these lists. -/
theorem acts_of_same {now : ℕ} (hnow : w.now ≤ now) (db : Db) (revocations : List Revocation) :
    Acts compare lifetime bound w { w with now := now, db := db, revocations := revocations } where
  now := hnow
  moments := rfl
  kept := fun _ h => h
  keptSigned := fun _ h => h
  signed := fun _ h => .inl h
  logins := fun _ h => .inl h
  pending := fun _ h => .inl h
  entered := fun _ h => .inl h

/-- The handler of `login`. -/
theorem acts_login (hw : Sound compare lifetime bound w) {subdomain email password : String}
    {lookup : ℕ} (h : w.login compare lifetime subdomain email password lookup = some w') :
    Acts compare lifetime bound w w' := by
  obtain ⟨m, hm, rfl⟩ := Option.map_eq_some_iff.mp h
  have hmem := List.mem_of_getElem? hm
  split
  · rename_i account company hvalid
    obtain ⟨hfind, hstatus, haccount, hactive, hpassword, hown⟩ := of_validateUser hvalid
    obtain ⟨hcompany, hcompanyActive⟩ := of_findBySubdomain hfind
    refine ⟨Nat.le_refl _, rfl, fun _ h => List.mem_cons_of_mem _ h,
      fun _ h => List.mem_cons_of_mem _ h, ?_, ?_, fun _ h => .inl h, fun _ h => .inl h⟩
    · intro token htoken
      rcases List.mem_cons.mp htoken with rfl | htoken
      · exact .inr ⟨_, List.mem_cons_self .., rfl⟩
      · exact .inl htoken
    · intro l hl
      rcases List.mem_cons.mp hl with rfl | hl
      · exact .inr ⟨rfl, rfl, rfl, rfl, hpassword, hactive, hown,
          ⟨_, hw.current, rfl, haccount⟩, ⟨m, hmem, hcompany⟩, hcompanyActive, hstatus⟩
      · exact .inl hl
  · exact acts_of_same (Nat.le_refl _) w.db w.revocations

/-- A request arrives. -/
theorem acts_arrive {route : Route} {tenantId : Option CompanyId} {header : Option String}
    {host : String} {cookie : Option TokenPayload} {lookup : ℕ}
    (h : w.arrive route tenantId header host cookie lookup = some w') :
    Acts compare lifetime bound w w' := by
  obtain ⟨m, hm, rfl⟩ := Option.map_eq_some_iff.mp h
  have hmem := List.mem_of_getElem? hm
  split
  · rename_i companyId hmiddleware
    refine ⟨Nat.le_refl _, rfl, fun _ h => h, fun _ h => h, fun _ h => .inl h, fun _ h => .inl h,
      ?_, fun _ h => .inl h⟩
    intro p hp
    rcases List.mem_cons.mp hp with rfl | hp
    · exact .inr ⟨⟨[], rfl, nofun, nofun⟩, nofun, Nat.le_refl _,
        resolved_of_middleware hmem hmiddleware⟩
    · exact .inl hp
  · exact acts_of_same (Nat.le_refl _) w.db w.revocations

/-- The next guard of a request runs. -/
theorem acts_guard (hw : Sound compare lifetime bound w) {i : ℕ} {answer : Option (ℕ × ℕ)}
    (h : w.guard bound i answer = some w') : Acts compare lifetime bound w w' := by
  unfold World.guard at h
  split at h
  · rename_i request g rest hi
    have hp := hw.pending _ (List.mem_of_getElem? hi)
    dsimp only at h
    split at h
    · rename_i r' hrun
      cases h
      refine ⟨Nat.le_refl _, rfl, fun _ h => h, fun _ h => h, fun _ h => .inl h,
        fun _ h => .inl h, ?_, fun _ h => .inl h⟩
      intro p hp'
      rcases List.mem_or_eq_of_mem_set hp' with hp' | rfl
      · exact .inl hp'
      · exact .inr (pendingSound_of_run hw hp rfl hrun)
    · cases h
      exact ⟨Nat.le_refl _, rfl, fun _ h => h, fun _ h => h, fun _ h => .inl h,
        fun _ h => .inl h, fun _ hp' => .inl (List.mem_of_mem_eraseIdx hp'), fun _ h => .inl h⟩
  · cases h

/-- A request enters its handler. -/
theorem acts_enter (hw : Sound compare lifetime bound w) {i : ℕ} (h : w.enter i = some w') :
    Acts compare lifetime bound w w' := by
  unfold World.enter at h
  split at h
  · rename_i request hi
    have hp := hw.pending _ (List.mem_of_getElem? hi)
    cases h
    refine ⟨Nat.le_refl _, rfl, fun _ h => h, fun _ h => h, fun _ h => .inl h, fun _ h => .inl h,
      fun _ hp' => .inl (List.mem_of_mem_eraseIdx hp'), ?_⟩
    intro e he
    rcases List.mem_append.mp he with he | he
    · exact .inl he
    · rw [List.mem_singleton.mp he]
      obtain ⟨done, hguards, hdone, _⟩ := hp.passed
      have hall : done = request.route.guards := by simpa using hguards
      exact .inr ⟨hall ▸ hdone, hp.resolved⟩
  · cases h

/-- The handler of `logout`. -/
theorem acts_logout (cookie : Option TokenPayload) :
    Acts compare lifetime bound w (w.logout cookie) := by
  unfold World.logout
  split
  · split
    · exact acts_of_same (Nat.le_refl _) w.db _
    · exact acts_of_same (Nat.le_refl _) w.db w.revocations
  · exact acts_of_same (Nat.le_refl _) w.db w.revocations

/-- The transaction of `changePassword`. -/
theorem acts_changePassword {i : ℕ} {current new hash : String}
    (h : w.changePassword compare i current new hash = some w') :
    Acts compare lifetime bound w w' := by
  unfold World.changePassword at h
  split at h
  · split at h
    · split at h
      · split at h
        · cases h
          exact acts_of_same (Nat.le_refl _) _ _
        · cases h
          exact acts_of_same (Nat.le_refl _) w.db w.revocations
      · cases h
        exact acts_of_same (Nat.le_refl _) w.db w.revocations
    · cases h
  · cases h

/-- Every action adds only what is sound. -/
theorem acts_of_act (hw : Sound compare lifetime bound w) {a : Action}
    (h : w.act compare lifetime bound a = some w') : Acts compare lifetime bound w w' := by
  cases a with
  | pass ms =>
    cases h
    exact acts_of_same (Nat.le_add_right _ _) w.db w.revocations
  | write db =>
    cases h
    exact acts_of_same (Nat.le_refl _) db w.revocations
  | login subdomain email password lookup => exact acts_login hw h
  | arrive route tenantId header host cookie lookup => exact acts_arrive h
  | guard i answer => exact acts_guard hw h
  | enter i => exact acts_enter hw h
  | logout cookie =>
    cases h
    exact acts_logout cookie
  | changePassword i current new hash => exact acts_changePassword h
  | stamp j =>
    simp only [World.act, World.stamp] at h
    split at h
    · cases h
      exact acts_of_same (Nat.le_refl _) w.db _
    · cases h
  | commitStamp j saved =>
    simp only [World.act, World.commitStamp] at h
    split at h
    · cases h
      exact acts_of_same (Nat.le_refl _) _ _
    · cases h

/-- Every step keeps the world sound. -/
theorem sound_of_step (hw : Sound compare lifetime bound w) {a : Action}
    (h : w.step compare lifetime bound a = some w') : Sound compare lifetime bound w' := by
  obtain ⟨v, hact, rfl⟩ := Option.map_eq_some_iff.mp h
  have hacts := acts_of_act hw hact
  have hg : Grows w { v with moments := v.moments ++ [(v.now, v.db)] } :=
    ⟨hacts.now, fun m hm => List.mem_append_left _ (hacts.moments ▸ hm), hacts.keptSigned⟩
  refine ⟨List.mem_append_right _ (List.mem_singleton_self _), ?_, ?_, ?_, ?_, ?_⟩
  · intro m hm
    rcases List.mem_append.mp hm with hm | hm
    · rw [hacts.moments] at hm
      exact Nat.le_trans (hw.past m hm) hacts.now
    · obtain rfl := List.mem_singleton.mp hm
      exact Nat.le_refl _
  · intro token htoken
    rcases hacts.signed token htoken with hold | hnew
    · obtain ⟨l, hl, heq⟩ := hw.signed token hold
      exact ⟨l, hacts.kept l hl, heq⟩
    · exact hnew
  · intro l hl
    rcases hacts.logins l hl with hold | hnew
    · exact (hw.logins l hold).mono hg
    · exact hnew.mono hg
  · intro p hp
    rcases hacts.pending p hp with hold | hnew
    · exact (hw.pending p hold).mono hg
    · exact hnew.mono hg
  · intro e he
    rcases hacts.entered e he with hold | hnew
    · exact (hw.entered e hold).mono hg
    · exact hnew.mono hg

/-- At the start there is nothing that could be unsound. -/
theorem sound_start (now : ℕ) (db : Db) :
    Sound compare lifetime bound (World.start now db) := by
  refine ⟨List.mem_singleton_self _, ?_, ?_, ?_, ?_, ?_⟩
  · intro m hm
    rw [List.mem_singleton.mp hm]
    exact Nat.le_refl _
  all_goals
    intro _ hnone
    cases hnone

/-- Every world that is reached is sound. -/
theorem sound_of_reaches {now : ℕ} {db : Db} {cond : World → Action → Prop}
    (h : Reaches (World.step compare lifetime bound) cond (World.start now db) w) :
    Sound compare lifetime bound w := by
  have hstep : ∀ (v : World) (a : Action) (v' : World), Sound compare lifetime bound v → cond v a →
      v.step compare lifetime bound a = some v' → Sound compare lifetime bound v' :=
    fun _ _ _ hv _ hs => sound_of_step hv hs
  exact h.invariant (sound_start now db) hstep

end Steps

/-- A protected handler was entered with authority: on an unexpired token of a genuine login, in
the tenant of its account, and by what this account could do at most `bound` before. The routes
that are allowed during a password hold ask nothing about it. -/
structure Authorised (compare : String → String → Bool) (lifetime bound : ℕ) (w : World)
    (e : Entered) (l : Login) : Prop where
  login : l ∈ w.logins
  genuine : Genuine compare lifetime w l
  cookie : e.request.cookie = some l.token
  unexpired : ∃ v, e.request.started ≤ v ∧ v ≤ e.time ∧ v / 1000 < l.time / 1000 + lifetime
  resolved : Resolved w e.request
  tenant : ∀ c, e.request.companyId = some c → c = l.company.id
  notRevoked : ReadFor bound w e.request e.time l.token (NotRevoked l.token)
  hold : e.request.route.isAllowed = true ∨
    ReadFor bound w e.request e.time l.token (NotHeld l.token)
  policy : e.request.route.authenticatedOnly = true ∨
    ∃ required, e.request.route.requiredPermissions = some required ∧
      ReadFor bound w e.request e.time l.token (Holds l.token required)
  scope : Guard.tenantParamScope ∈ e.request.route.useGuards →
    e.request.tenantId = some l.company.id ∨
      ReadFor bound w e.request e.time l.token (Holds l.token [manageTenants])

/-- In a sound world a protected handler was entered with authority. -/
theorem authorised_of_sound {compare : String → String → Bool} {lifetime bound : ℕ} {w : World}
    (hw : Sound compare lifetime bound w) {e : Entered} (he : e ∈ w.entered)
    (hpublic : e.request.route.isPublic = false) :
    ∃ l, Authorised compare lifetime bound w e l := by
  obtain ⟨hpassed, hresolved⟩ := hw.entered e he
  have hmem : ∀ g ∈ [Guard.jwtAuth, .passwordReset, .permissions], g ∈ e.request.route.guards :=
    fun g hg => List.mem_append_left _ hg
  have hnot : ¬e.request.route.isPublic = true := by simp [hpublic]
  obtain ⟨token, hcookie, hauth⟩ := (hpassed _ (hmem .jwtAuth (by simp))).resolve_left hnot
  obtain ⟨l, hl, rfl⟩ := hw.signed token hauth.signed
  have hgenuine := hw.logins l hl
  have hsame : ∀ other, e.request.cookie = some other → other = l.token :=
    fun other hother => Option.some.inj (hother.symm.trans hcookie)
  refine ⟨l, hl, hgenuine, hcookie, ?_, hresolved, ?_, hauth.notRevoked, ?_, ?_, ?_⟩
  · rw [← hgenuine.expires]
    exact hauth.verified
  · rw [← hgenuine.companyId]
    exact hauth.tenant
  · rcases (hpassed _ (hmem .passwordReset (by simp))).resolve_left hnot with hallowed | hread
    · exact .inl hallowed
    · obtain ⟨other, hother, hread⟩ := hread
      rw [hsame other hother] at hread
      exact .inr hread
  · rcases (hpassed _ (hmem .permissions (by simp))).resolve_left hnot with honly | hread
    · exact .inl honly
    · obtain ⟨other, required, hother, hrequired, hread⟩ := hread
      rw [hsame other hother] at hread
      exact .inr ⟨required, hrequired, hread⟩
  · intro hscope
    obtain ⟨other, hother, hread⟩ := hpassed .tenantParamScope (List.mem_append_right _ hscope)
    rw [hsame other hother] at hread
    rw [← hgenuine.companyId]
    exact hread

/-- **A protected handler is entered with authority only:** in every run, whatever the clients
send and whatever happens between the guards of a request, the handler of a route that is
not public is entered only with a token that a login of an active account with its password
has signed. The token is unexpired and of the tenant that the request was resolved to. At
most `bound` before the request it was not revoked; its account was not held for a password
change, unless the route is one that a held account may call, and had the permissions of the
route, unless a login is enough for it; and on a route with a tenant in its path this tenant is
the own one or the account manages tenants. -/
theorem entered_authorised (compare : String → String → Bool) (lifetime bound now : ℕ) (db : Db)
    (w : World)
    (h : Reaches (World.step compare lifetime bound) (fun _ _ => True) (World.start now db) w)
    (e : Entered) (he : e ∈ w.entered) (hpublic : e.request.route.isPublic = false) :
    ∃ l, Authorised compare lifetime bound w e l :=
  authorised_of_sound (sound_of_reaches h) he hpublic

/-- One company with one user. -/
def oneTenant : Db where
  companies := [⟨1, "colegio", "Colegio", true, .active⟩]
  schemas := fun c => if c = 1 then
    some ⟨[⟨7, "d@colegio.pe", 1, "clave", true, ⟨false, none⟩⟩], fun _ => ["Director"],
      fun _ => ["VIEW_MATERIALS"]⟩
    else none

/-- A route of the materials. -/
def materialsRoute : Route where
  path := "/api/v1/materials"
  handler := ⟨none, none, some ["VIEW_MATERIALS"], none⟩
  controller := ⟨none, none, none, none⟩
  useGuards := []

/-- The token of a login of the user at a second. -/
def directorToken (iat : ℕ) : TokenPayload := ⟨7, 1, ["Director"], iat, iat + 86400⟩

/-- The user logs in and asks for the materials. -/
def visit : List Action :=
  [.login "colegio" "d@colegio.pe" "clave" 0,
    .arrive materialsRoute none (some "colegio") "" (some (directorToken 0)) 0,
    .guard 0 (some (0, 0)), .guard 0 none, .guard 0 none, .enter 0]

/-- The request that entered the handler. -/
def visitor : Entered where
  request := ⟨materialsRoute, none, some (directorToken 0), some 1,
    some ⟨directorToken 0, ["VIEW_MATERIALS"], false⟩, 0⟩
  time := 0

/-- The materials are shown to the user that has logged in. -/
theorem entered_authorised_visit :
    ∃ l, Authorised (fun password hash => password == hash) 86400 64000
      (after (World.step (fun password hash => password == hash) 86400 64000)
        (World.start 0 oneTenant) visit) visitor l :=
  entered_authorised _ 86400 64000 0 oneTenant _
    (reaches_after (by decide +kernel) fun _ _ _ => trivial) visitor (by decide +kernel) rfl

end Odiseo.Requests
