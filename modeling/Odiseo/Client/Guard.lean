import Odiseo.Roles.Entities

/-!
# The route middleware of the client

A browser tab holds the session of its user in a store. Every navigation passes the global
middleware, which lets it through, redirects it, refuses it or ends the session. After it the page
may have a middleware of its own. The router that finds the page of a path is a parameter; it finds
the pages without parameters under their own paths.
-/

namespace Odiseo.Client

open Odiseo.Roles (Permission)

/-- The path of a route. -/
abbrev Path := String

/-- `User`, as far as the client decides by it. -/
structure User where
  roles : List String
  permissions : List Permission
  forcePasswordReset : Option Bool
  deriving DecidableEq, Repr

/-- The state of `useAuthStore`. -/
structure AuthStore where
  user : Option User
  isAuthenticated : Bool
  isInitialized : Bool
  deriving DecidableEq, Repr

namespace AuthStore

/-- The store of a new document. -/
def initial : AuthStore := ⟨none, false, false⟩

/-- `forcePasswordReset`. -/
def forcePasswordReset (s : AuthStore) : Bool := s.user.bind (·.forcePasswordReset) == some true

/-- `hasPermission`. -/
def hasPermission (s : AuthStore) (permission : Permission) : Bool :=
  s.user.any fun u => u.permissions.contains permission

/-- `hasRole`. -/
def hasRole (s : AuthStore) (role : String) : Bool := s.user.any fun u => u.roles.contains role

/-- The user that a response carries is signed in. -/
def signIn (s : AuthStore) (user : User) : AuthStore :=
  { s with user := some user, isAuthenticated := true }

/-- Nobody is signed in any more. -/
def signOut (s : AuthStore) : AuthStore := { s with user := none, isAuthenticated := false }

/-- What `fetchMe` makes of its response. -/
def fetched (s : AuthStore) (response : Option User) : AuthStore :=
  match response with
  | some user => { s.signIn user with isInitialized := true }
  | none => { s.signOut with isInitialized := true }

/-- `markPasswordChangeRequired`. -/
def markPasswordChangeRequired (s : AuthStore) : AuthStore :=
  { s with user := s.user.map fun u => { u with forcePasswordReset := some true } }

/-- The two fields of the session agree. -/
def Agrees (s : AuthStore) : Prop := s.isAuthenticated = s.user.isSome

end AuthStore

/-- `CHANGE_PASSWORD_PATH`. -/
def changePasswordPath : Path := "/change-password"

/-- `publicRoutes`. -/
def publicRoutes : List Path := ["/login"]

/-- `LANDING_ROUTES`. -/
def landingRoutes : List (Path × List Permission) :=
  [("/materials", ["VIEW_MATERIALS", "EDIT_MATERIALS"]),
    ("/academic-time", ["VIEW_ACADEMIC_TIME"]),
    ("/syllabus", ["VIEW_SYLLABUS"]),
    ("/catalogs", ["VIEW_CATALOGS"])]

/-- `resolveLandingPath`. -/
def resolveLandingPath (subdomain : String) (s : AuthStore) : Option Path :=
  if subdomain = "odiseo" then some "/admin/dashboard"
  else (landingRoutes.find? fun route => route.2.any s.hasPermission).map (·.1)

/-- Where a signed-in user goes: `resolveLandingPath(authStore) ?? '/'`. -/
def landingOrHome (subdomain : String) (s : AuthStore) : Path :=
  (resolveLandingPath subdomain s).getD "/"

/-- `definePageMeta`, with the path to which the page's own middleware redirects. -/
structure PageMeta where
  roles : Option (List String)
  permissions : Option (List Permission)
  redirect : Option Path
  deriving DecidableEq, Repr

/-- The files of `pages`. -/
inductive Page
  | index
  | login
  | changePassword
  | adminIndex
  | adminDashboard
  | adminTenants
  | adminSubscriptions
  | catalogs
  | materials
  /-- `materials/[id]/review`. -/
  | materialReview
  | config
  | syllabus
  | academicTime
  /-- `academic-time/cycles/[id]`. -/
  | cycle
  /-- `academic-time/cycles/[id]/materials`. -/
  | cycleMaterials
  /-- `academic-time/cycles/[id]/materials/[templateId]`. -/
  | cycleMaterialTemplate
  deriving DecidableEq, Repr

namespace Page

/-- The path of a page without parameters. -/
def path : Page → Option Path
  | .index => some "/"
  | .login => some "/login"
  | .changePassword => some "/change-password"
  | .adminIndex => some "/admin"
  | .adminDashboard => some "/admin/dashboard"
  | .adminTenants => some "/admin/tenants"
  | .adminSubscriptions => some "/admin/subscriptions"
  | .catalogs => some "/catalogs"
  | .materials => some "/materials"
  | .config => some "/config"
  | .syllabus => some "/syllabus"
  | .academicTime => some "/academic-time"
  | .materialReview | .cycle | .cycleMaterials | .cycleMaterialTemplate => none

/-- The permissions that the metadata of a page asks for. -/
def permissions : Page → Option (List Permission)
  | .catalogs => some ["VIEW_CATALOGS"]
  | .materials => some ["VIEW_MATERIALS", "EDIT_MATERIALS"]
  | .materialReview | .config => some ["EDIT_MATERIALS"]
  | .syllabus => some ["VIEW_SYLLABUS"]
  | .academicTime | .cycle | .cycleMaterials | .cycleMaterialTemplate =>
    some ["VIEW_ACADEMIC_TIME"]
  | .index | .login | .changePassword | .adminIndex | .adminDashboard | .adminTenants
  | .adminSubscriptions => none

/-- The metadata of a page; no page asks for a role. -/
def pageMeta (page : Page) : PageMeta where
  roles := none
  permissions := page.permissions
  redirect := if page = .adminIndex then some "/admin/dashboard" else none

end Page

/-- What the middleware sees of a navigation's target. -/
structure Route where
  path : Path
  pageMeta : PageMeta
  deriving DecidableEq, Repr

/-- The router that is generated from `pages`. It decides about other spellings of the paths, and
about the paths with parameters. -/
structure Router where
  resolve : Path → Option Page
  resolve_path : ∀ page path, page.path = some path → resolve path = some page

/-- The target of a navigation; an unknown path has no metadata. -/
def Router.route (router : Router) (path : Path) : Route :=
  ⟨path, ((router.resolve path).map Page.pageMeta).getD ⟨none, none, none⟩⟩

/-- What becomes of a navigation. -/
inductive Verdict
  /-- It goes on. -/
  | pass
  /-- `navigateTo`. -/
  | redirect (path : Path)
  /-- `abortNavigation`, with status 403. -/
  | abort (statusMessage : String)
  /-- `logout`. -/
  | logout
  deriving DecidableEq, Repr

/-- `to.path === '/admin' || to.path.startsWith('/admin/')`. -/
def isAdminPath (path : Path) : Bool :=
  path == "/admin" || "/admin/".toList.isPrefixOf path.toList

/-- The middleware of `auth.global.ts`, once the session is known. -/
def authGlobal (subdomain : String) (s : AuthStore) (route : Route) : Verdict :=
  if s.isAuthenticated && s.forcePasswordReset then
    if route.path ≠ changePasswordPath then .redirect changePasswordPath else .pass
  else if route.path = changePasswordPath then
    .redirect (if s.isAuthenticated then landingOrHome subdomain s else "/login")
  else if route.path ∈ publicRoutes then
    if s.isAuthenticated then
      match resolveLandingPath subdomain s with
      | some landing => .redirect landing
      | none =>
        -- A user with permissions stays on the page.
        if ((s.user.map (·.permissions)).getD []).isEmpty then .logout else .pass
    else .pass
  else if !s.isAuthenticated then .redirect "/login"
  else if isAdminPath route.path && subdomain ≠ "odiseo" then .redirect (landingOrHome subdomain s)
  else if route.pageMeta.roles.any fun required => !required.any s.hasRole then
    .abort "Access Denied: Insufficient roles"
  else if route.pageMeta.permissions.any fun required => !required.any s.hasPermission then
    .abort "Access Denied: Missing required permission"
  else .pass

/-- The global middleware, and after it the one of the page. -/
def Router.arrive (router : Router) (subdomain : String) (s : AuthStore) (path : Path) : Verdict :=
  match authGlobal subdomain s (router.route path) with
  | .pass =>
    match (router.route path).pageMeta.redirect with
    | some target => .redirect target
    | none => .pass
  | verdict => verdict

variable {subdomain : String} {s : AuthStore} {path target : Path}

/-- The middleware under the password hold. -/
theorem authGlobal_of_held {route : Route} (hauth : s.isAuthenticated)
    (hheld : s.forcePasswordReset) :
    authGlobal subdomain s route =
      if route.path ≠ changePasswordPath then .redirect changePasswordPath else .pass := by
  simp [authGlobal, hauth, hheld]

/-- The middleware without a session. -/
theorem authGlobal_of_signedOut {route : Route} (hauth : s.isAuthenticated = false) :
    authGlobal subdomain s route =
      if route.path = changePasswordPath then .redirect "/login"
      else if route.path ∈ publicRoutes then .pass
      else .redirect "/login" := by
  simp [authGlobal, hauth]

/-- The middleware for a session without a hold. -/
theorem authGlobal_of_free {route : Route} (hauth : s.isAuthenticated)
    (hheld : s.forcePasswordReset = false) :
    authGlobal subdomain s route =
      if route.path = changePasswordPath then .redirect (landingOrHome subdomain s)
      else if route.path ∈ publicRoutes then
        match resolveLandingPath subdomain s with
        | some landing => .redirect landing
        | none => if ((s.user.map (·.permissions)).getD []).isEmpty then .logout else .pass
      else if isAdminPath route.path && subdomain ≠ "odiseo" then
        .redirect (landingOrHome subdomain s)
      else if route.pageMeta.roles.any fun required => !required.any s.hasRole then
        .abort "Access Denied: Insufficient roles"
      else if route.pageMeta.permissions.any fun required => !required.any s.hasPermission then
        .abort "Access Denied: Missing required permission"
      else .pass := by
  simp [authGlobal, hauth, hheld]

namespace Router

variable {router : Router}

/-- The route of a page without parameters. -/
theorem route_eq {page : Page} (h : page.path = some path) :
    router.route path = ⟨path, page.pageMeta⟩ := by
  rw [route, router.resolve_path page path h]
  rfl

/-- Only the index of the administration redirects by itself. -/
theorem redirect_route (h : (router.route path).pageMeta.redirect = some target) :
    router.resolve path = some .adminIndex ∧ target = "/admin/dashboard" := by
  rw [route] at h
  cases hpage : router.resolve path with
  | none => simp [hpage] at h
  | some page =>
    simp only [hpage, Page.pageMeta, Option.map_some, Option.getD_some,
      Option.ite_none_right_eq_some, Option.some.injEq] at h
    exact ⟨congrArg some h.1, h.2.symm⟩

/-- Where the middleware lets a navigation through, it arrives, unless the page redirects it. -/
theorem arrive_of_pass (hpass : authGlobal subdomain s (router.route path) = .pass)
    (hown : (router.route path).pageMeta.redirect = none) :
    router.arrive subdomain s path = .pass := by
  simp only [arrive, hpass, hown]

/-- The password hold leaves the page of the password. -/
theorem arrive_changePassword (hauth : s.isAuthenticated) (hheld : s.forcePasswordReset) :
    router.arrive subdomain s changePasswordPath = .pass := by
  have hroute : router.route changePasswordPath =
      ⟨changePasswordPath, Page.changePassword.pageMeta⟩ := route_eq rfl
  refine arrive_of_pass ?_ (hroute ▸ rfl)
  simp [authGlobal_of_held hauth hheld, hroute]

/-- Without a session the login page is shown. -/
theorem arrive_login (hauth : s.isAuthenticated = false) :
    router.arrive subdomain s "/login" = .pass := by
  have hroute : router.route "/login" = ⟨"/login", Page.login.pageMeta⟩ := route_eq rfl
  refine arrive_of_pass ?_ (hroute ▸ rfl)
  simp [authGlobal_of_signedOut hauth, hroute, changePasswordPath, publicRoutes]

end Router

/-- A landing page asks for one of the permissions by which it is chosen. -/
theorem landing_cases (h : resolveLandingPath subdomain s = some target) :
    subdomain = "odiseo" ∧ target = "/admin/dashboard" ∨
      ∃ required, (target, required) ∈ landingRoutes ∧ required.any s.hasPermission := by
  unfold resolveLandingPath at h
  split at h
  · exact .inl ⟨‹_›, (Option.some.inj h).symm⟩
  · obtain ⟨⟨_, required⟩, hfind, rfl⟩ := Option.map_eq_some_iff.mp h
    have hany : required.any s.hasPermission := by simpa using List.find?_some hfind
    exact .inr ⟨required, List.mem_of_find?_eq_some hfind, hany⟩

/-- The pages of the landing routes ask for the permissions of their routes. -/
theorem page_of_landing {required : List Permission} (h : (target, required) ∈ landingRoutes) :
    ∃ page : Page, page.path = some target ∧ page.pageMeta = ⟨none, some required, none⟩ ∧
      target ≠ changePasswordPath ∧ target ∉ publicRoutes ∧ isAdminPath target = false := by
  simp only [landingRoutes, List.mem_cons, Prod.mk.injEq, List.not_mem_nil, or_false] at h
  obtain ⟨rfl, rfl⟩ | ⟨rfl, rfl⟩ | ⟨rfl, rfl⟩ | ⟨rfl, rfl⟩ := h
  · exact ⟨.materials, by decide⟩
  · exact ⟨.academicTime, by decide⟩
  · exact ⟨.syllabus, by decide⟩
  · exact ⟨.catalogs, by decide⟩

/-- **The landing page is shown** to the user who is sent to it. -/
theorem Router.arrive_landingOrHome {router : Router} (hauth : s.isAuthenticated)
    (hheld : s.forcePasswordReset = false) :
    router.arrive subdomain s (landingOrHome subdomain s) = .pass := by
  cases hlanding : resolveLandingPath subdomain s with
  | none =>
    have hroute : router.route "/" = ⟨"/", Page.index.pageMeta⟩ := route_eq rfl
    rw [landingOrHome, hlanding, Option.getD_none]
    refine arrive_of_pass ?_ (hroute ▸ rfl)
    have hadmin : isAdminPath "/" = false := by decide
    simp [authGlobal_of_free hauth hheld, hroute, changePasswordPath, publicRoutes, hadmin,
      Page.pageMeta, Page.permissions]
  | some landing =>
    rw [landingOrHome, hlanding, Option.getD_some]
    obtain ⟨rfl, rfl⟩ | ⟨required, hmem, hany⟩ := landing_cases hlanding
    · have hroute : router.route "/admin/dashboard" =
          ⟨"/admin/dashboard", Page.adminDashboard.pageMeta⟩ := route_eq rfl
      refine arrive_of_pass ?_ (hroute ▸ rfl)
      simp [authGlobal_of_free hauth hheld, hroute, changePasswordPath, publicRoutes,
        Page.pageMeta, Page.permissions]
    · obtain ⟨page, hpath, hmeta, hchange, hpublic, hadmin⟩ := page_of_landing hmem
      have hroute : router.route landing = ⟨landing, ⟨none, some required, none⟩⟩ :=
        hmeta ▸ route_eq hpath
      refine arrive_of_pass ?_ (hroute ▸ rfl)
      simp [authGlobal_of_free hauth hheld, hroute, hchange, hpublic, hadmin, hany]

/-- The redirects of the global middleware. -/
theorem authGlobal_redirect {route : Route} (h : authGlobal subdomain s route = .redirect target) :
    s.isAuthenticated ∧ s.forcePasswordReset ∧ target = changePasswordPath ∨
      s.isAuthenticated = false ∧ target = "/login" ∨
      s.isAuthenticated ∧ s.forcePasswordReset = false ∧ target = landingOrHome subdomain s := by
  cases hauth : s.isAuthenticated with
  | false =>
    rw [authGlobal_of_signedOut hauth] at h
    split_ifs at h <;> exact .inr (.inl ⟨rfl, (Verdict.redirect.inj h).symm⟩)
  | true =>
    cases hheld : s.forcePasswordReset with
    | true =>
      rw [authGlobal_of_held hauth hheld] at h
      split_ifs at h
      exact .inl ⟨rfl, rfl, (Verdict.redirect.inj h).symm⟩
    | false =>
      refine .inr (.inr ⟨rfl, rfl, ?_⟩)
      rw [authGlobal_of_free hauth hheld] at h
      cases hlanding : resolveLandingPath subdomain s with
      | none =>
        simp only [hlanding] at h
        split_ifs at h <;> exact (Verdict.redirect.inj h).symm
      | some landing =>
        have hhome : landingOrHome subdomain s = landing := by rw [landingOrHome, hlanding]; rfl
        simp only [hlanding, hhome] at h ⊢
        split_ifs at h <;> exact (Verdict.redirect.inj h).symm

namespace Router

variable {router : Router}

/-- A page to which the global middleware redirects is shown to the same session. -/
theorem arrive_of_authGlobal {route : Route}
    (h : authGlobal subdomain s route = .redirect target) :
    router.arrive subdomain s target = .pass := by
  obtain ⟨hauth, hheld, rfl⟩ | ⟨hauth, rfl⟩ | ⟨hauth, hheld, rfl⟩ := authGlobal_redirect h
  · exact arrive_changePassword hauth hheld
  · exact arrive_login hauth
  · exact arrive_landingOrHome hauth hheld

/-- The redirects of a navigation: those of the global middleware, and the one of the index of the
administration. -/
theorem arrive_redirect (h : router.arrive subdomain s path = .redirect target) :
    authGlobal subdomain s (router.route path) = .redirect target ∨
      authGlobal subdomain s (router.route path) = .pass ∧ target = "/admin/dashboard" := by
  cases hguard : authGlobal subdomain s (router.route path) with
  | pass =>
    cases hown : (router.route path).pageMeta.redirect with
    | none => simp [arrive, hguard, hown] at h
    | some own =>
      obtain ⟨-, rfl⟩ := redirect_route hown
      simp only [arrive, hguard, hown, Verdict.redirect.injEq] at h
      exact .inr ⟨rfl, h.symm⟩
  | redirect own =>
    simp only [arrive, hguard] at h
    exact .inl h
  | abort => simp [arrive, hguard] at h
  | logout => simp [arrive, hguard] at h

/-- The dashboard of the administration is shown, or the global middleware redirects. -/
theorem arrive_dashboard :
    router.arrive subdomain s "/admin/dashboard" = .pass ∨
      ∃ target, authGlobal subdomain s (router.route "/admin/dashboard") = .redirect target ∧
        router.arrive subdomain s "/admin/dashboard" = .redirect target := by
  have hroute : router.route "/admin/dashboard" =
      ⟨"/admin/dashboard", Page.adminDashboard.pageMeta⟩ := route_eq rfl
  have hpass (h : authGlobal subdomain s (router.route "/admin/dashboard") = .pass) :
      router.arrive subdomain s "/admin/dashboard" = .pass := arrive_of_pass h (hroute ▸ rfl)
  have hredirect {target : Path}
      (h : authGlobal subdomain s (router.route "/admin/dashboard") = .redirect target) :
      router.arrive subdomain s "/admin/dashboard" = .redirect target := by simp only [arrive, h]
  suffices h : authGlobal subdomain s (router.route "/admin/dashboard") = .pass ∨
      ∃ target, authGlobal subdomain s (router.route "/admin/dashboard") = .redirect target from
    h.imp hpass fun ⟨target, h⟩ => ⟨target, h, hredirect h⟩
  have hadmin : isAdminPath "/admin/dashboard" := by decide
  cases hauth : s.isAuthenticated with
  | false => simp [authGlobal_of_signedOut hauth, hroute, changePasswordPath, publicRoutes]
  | true =>
    cases hheld : s.forcePasswordReset with
    | true => simp [authGlobal_of_held hauth hheld, hroute, changePasswordPath]
    | false =>
      by_cases hsubdomain : subdomain = "odiseo" <;>
        simp [authGlobal_of_free hauth hheld, hroute, changePasswordPath, publicRoutes, hadmin,
          hsubdomain, Page.pageMeta, Page.permissions]

/-- **A redirect is followed by at most one other**, and never by a refusal. -/
theorem arrive_of_redirect (h : router.arrive subdomain s path = .redirect target) :
    router.arrive subdomain s target = .pass ∨
      ∃ last, router.arrive subdomain s target = .redirect last ∧
        router.arrive subdomain s last = .pass := by
  obtain hguard | ⟨-, rfl⟩ := arrive_redirect h
  · exact .inl (arrive_of_authGlobal hguard)
  · have hdashboard : router.arrive subdomain s "/admin/dashboard" = .pass ∨ _ := arrive_dashboard
    obtain hpass | ⟨last, hguard, hlast⟩ := hdashboard
    · exact .inl hpass
    · exact .inr ⟨last, hlast, arrive_of_authGlobal hguard⟩

/-- A navigation that arrives is one that the global middleware has let through, to a page without
a middleware of its own. -/
theorem arrive_eq_pass :
    router.arrive subdomain s path = .pass ↔
      authGlobal subdomain s (router.route path) = .pass ∧
        (router.route path).pageMeta.redirect = none := by
  refine ⟨fun h => ?_, fun h => arrive_of_pass h.1 h.2⟩
  cases hguard : authGlobal subdomain s (router.route path) with
  | pass =>
    cases hown : (router.route path).pageMeta.redirect with
    | none => exact ⟨rfl, rfl⟩
    | some own => simp [arrive, hguard, hown] at h
  | redirect => simp [arrive, hguard] at h
  | abort => simp [arrive, hguard] at h
  | logout => simp [arrive, hguard] at h

/-- The pages to which navigations are redirected have no middleware of their own. -/
theorem redirect_of_arrive (h : router.arrive subdomain s path = .redirect target) :
    (router.route target).pageMeta.redirect = none := by
  obtain hguard | ⟨-, rfl⟩ := arrive_redirect h
  · exact (arrive_eq_pass.mp (arrive_of_authGlobal hguard)).2
  · have hroute : router.route "/admin/dashboard" =
        ⟨"/admin/dashboard", Page.adminDashboard.pageMeta⟩ := route_eq rfl
    rw [hroute]
    rfl

/-- The number of redirects that follow when the session does not change. -/
def hops (router : Router) (subdomain : String) (s : AuthStore) (path : Path) : ℕ :=
  match router.arrive subdomain s path with
  | .redirect next =>
    match router.arrive subdomain s next with
    | .redirect _ => 2
    | _ => 1
  | _ => 0

/-- A redirect is one of those that followed. -/
theorem hops_of_redirect (h : router.arrive subdomain s path = .redirect target) :
    router.hops subdomain s path = router.hops subdomain s target + 1 := by
  obtain hpass | ⟨last, hlast, hpass⟩ := arrive_of_redirect h
  · simp [hops, h, hpass]
  · simp [hops, h, hlast, hpass]

/-- There are at most two redirects. -/
theorem hops_le_two : router.hops subdomain s path ≤ 2 := by
  unfold hops
  split
  · split <;> decide
  · decide

/-- Only a page with a middleware of its own leads to two redirects. -/
theorem hops_le_one (hown : (router.route path).pageMeta.redirect = none) :
    router.hops subdomain s path ≤ 1 := by
  cases harrive : router.arrive subdomain s path with
  | pass => simp [hops, harrive]
  | redirect target =>
    obtain hguard | ⟨hguard, -⟩ := arrive_redirect harrive
    · simp [hops, harrive, arrive_of_authGlobal hguard]
    · rw [arrive_of_pass hguard hown] at harrive
      cases harrive
  | abort => simp [hops, harrive]
  | logout => simp [hops, harrive]

/-- **Only a session without permissions is ended** by the middleware. -/
theorem permissions_of_logout (h : router.arrive subdomain s path = .logout) {user : User}
    (huser : s.user = some user) : user.permissions = [] := by
  have hguard : authGlobal subdomain s (router.route path) = .logout := by
    cases hguard : authGlobal subdomain s (router.route path) with
    | pass =>
      cases hown : (router.route path).pageMeta.redirect <;> simp [arrive, hguard, hown] at h
    | redirect => simp [arrive, hguard] at h
    | abort => simp [arrive, hguard] at h
    | logout => rfl
  cases hauth : s.isAuthenticated with
  | false =>
    rw [authGlobal_of_signedOut hauth] at hguard
    split_ifs at hguard
  | true =>
    cases hheld : s.forcePasswordReset with
    | true =>
      rw [authGlobal_of_held hauth hheld] at hguard
      split_ifs at hguard
    | false =>
      rw [authGlobal_of_free hauth hheld] at hguard
      cases hlanding : resolveLandingPath subdomain s <;> simp only [hlanding] at hguard <;>
        split_ifs at hguard with _ _ hempty
      simpa [huser] using hempty

end Router

/-- What a session may see at a route. -/
structure Entitled (subdomain : String) (s : AuthStore) (route : Route) : Prop where
  /-- Under the password hold there is one page only. -/
  held : s.forcePasswordReset → route.path = changePasswordPath
  signedIn : route.path ∉ publicRoutes → s.user.isSome
  platform : isAdminPath route.path → subdomain = "odiseo"
  roles : ∀ required, route.pageMeta.roles = some required → ∃ role ∈ required, s.hasRole role
  permissions : ∀ required, route.pageMeta.permissions = some required →
    ∃ permission ∈ required, s.hasPermission permission

/-- Nobody is held without a session. -/
theorem AuthStore.Agrees.isAuthenticated_of_held (h : s.Agrees) (hheld : s.forcePasswordReset) :
    s.isAuthenticated := by
  rw [h]
  cases huser : s.user with
  | none => simp [forcePasswordReset, huser] at hheld
  | some => rfl

/-- **The middleware lets a navigation through** only to what the session may see. -/
theorem entitled_of_pass {router : Router} (hs : s.Agrees)
    (h : authGlobal subdomain s (router.route path) = .pass) :
    Entitled subdomain s (router.route path) := by
  cases hauth : s.isAuthenticated with
  | false =>
    have hheld : s.forcePasswordReset → False := fun hheld => by
      simpa [hauth] using hs.isAuthenticated_of_held hheld
    rw [authGlobal_of_signedOut hauth] at h
    split_ifs at h with hchange hpublic
    obtain rfl : path = "/login" := List.mem_singleton.mp hpublic
    have hroute : router.route "/login" = ⟨"/login", Page.login.pageMeta⟩ := Router.route_eq rfl
    rw [hroute]
    exact
      { held := fun h => (hheld h).elim
        signedIn := fun h => absurd (List.mem_singleton_self _) h
        platform := fun h => absurd h (by decide)
        roles := fun _ h => nomatch h
        permissions := fun _ h => nomatch h }
  | true =>
    have hsome : s.user.isSome := hs ▸ hauth
    cases hheld : s.forcePasswordReset with
    | true =>
      rw [authGlobal_of_held hauth hheld] at h
      split_ifs at h with hchange
      obtain rfl : path = changePasswordPath := not_not.mp hchange
      have hroute : router.route changePasswordPath =
          ⟨changePasswordPath, Page.changePassword.pageMeta⟩ := Router.route_eq rfl
      rw [hroute]
      exact
        { held := fun _ => rfl
          signedIn := fun _ => hsome
          platform := fun h => absurd h (by decide)
          roles := fun _ h => nomatch h
          permissions := fun _ h => nomatch h }
    | false =>
      by_cases hpublic : (router.route path).path ∈ publicRoutes
      · obtain rfl : path = "/login" := List.mem_singleton.mp hpublic
        have hroute : router.route "/login" = ⟨"/login", Page.login.pageMeta⟩ :=
          Router.route_eq rfl
        rw [hroute]
        exact
          { held := fun h => by simp [hheld] at h
            signedIn := fun _ => hsome
            platform := fun h => absurd h (by decide)
            roles := fun _ h => nomatch h
            permissions := fun _ h => nomatch h }
      · rw [authGlobal_of_free hauth hheld, if_neg hpublic] at h
        split_ifs at h with hchange hadmin hroles hpermissions
        exact
          { held := fun h => by simp [hheld] at h
            signedIn := fun _ => hsome
            platform := fun h => by simpa [h] using hadmin
            roles := fun required h => by simpa [h] using hroles
            permissions := fun required h => by simpa [h] using hpermissions }

end Odiseo.Client
