import Odiseo.Database.Transition
import Odiseo.Client.Guard

/-!
# The navigations of a browser tab

A document holds the store, at most one navigation that is not superseded, and the requests that
wait for an answer. Answers come in any order, and anything may happen between the redirect of a
navigation and the next run of its middleware, and between the middleware that lets a navigation
pass and the page that is shown then: pages are loaded lazily. A document that the server has
rendered starts with the answer of the server's `fetchMe`; logging out ends with a new document.
-/

namespace Odiseo.Client

open Database.Transition

/-- The key of a request. -/
abbrev RequestId := ℕ

/-- The requests whose answers matter to the session. -/
inductive Request
  | login
  | fetchMe
  | changePassword
  | logout
  /-- Any request of the client that `useApi` provides. -/
  | api
  deriving DecidableEq, Repr

/-- What the server answers. -/
inductive Response
  | ok (user : User)
  | empty
  | error (status : ℕ) (code : Option String)
  deriving DecidableEq, Repr

/-- The user that a response carries. -/
def Response.user? : Response → Option User
  | .ok user => some user
  | .empty | .error .. => none

/-- `isPasswordChangeRequiredError`. -/
def Response.isPasswordChangeRequiredError : Response → Bool
  | .error status code => status == 403 && code == some "PASSWORD_CHANGE_REQUIRED"
  | .ok _ | .empty => false

/-- A navigation on its way. The redirects are counted, and the changes of the session since the
first of them. -/
structure Navigation where
  asked : Path
  target : Path
  redirects : ℕ
  changes : ℕ
  /-- The call of `fetchMe` that the middleware awaits. -/
  awaits : Option RequestId
  /-- The store with which the middleware has let the navigation pass; its page is loaded. -/
  passed : Option AuthStore
  deriving DecidableEq, Repr

namespace Navigation

/-- A navigation that begins. -/
def start (path : Path) : Navigation := ⟨path, path, 0, 0, none, none⟩

/-- A redirected navigation counts the changes of the session. -/
def observe (nav : Navigation) (s s' : AuthStore) : Navigation :=
  if nav.redirects = 0 ∨ s.user = s'.user ∧ s.isAuthenticated = s'.isAuthenticated then nav
  else { nav with changes := nav.changes + 1 }

/-- The middleware goes on after its `await`. -/
def release (nav : Navigation) (id : RequestId) : Navigation :=
  if nav.awaits = some id then { nav with awaits := none } else nav

end Navigation

/-- A document in a browser tab. -/
structure Tab where
  store : AuthStore
  /-- `window.location.pathname`. -/
  pathname : Path
  /-- The path of the page that is shown. -/
  shown : Option Path
  pending : Option Navigation
  /-- The navigations that newer ones have replaced while their middleware was waiting. -/
  superseded : List Navigation
  requests : List (RequestId × Request)
  nextId : RequestId
  deriving DecidableEq, Repr

/-- What happens in a tab. -/
inductive TabAction
  /-- A new document, with what the server has fetched when it has rendered it. -/
  | load (path : Path) (hydrated : Option (Option User))
  /-- `router.push` and the like. -/
  | navigate (path : Path)
  /-- A component calls the server. -/
  | call (request : Request)
  | answer (id : RequestId) (response : Response)
  /-- The middleware of the navigation runs up to its `await`, or from it to its end. -/
  | guard
  /-- The page of the navigation has been loaded, and the navigation is confirmed. -/
  | confirm
  /-- So does the middleware of a navigation that has been replaced. -/
  | resume (k : ℕ)
  deriving DecidableEq, Repr

namespace Tab

/-- A new document. -/
def load (path : Path) (hydrated : Option (Option User)) : Tab where
  store :=
    match hydrated with
    | some response => AuthStore.initial.fetched response
    | none => .initial
  pathname := path
  shown := none
  pending := some (.start path)
  superseded := []
  requests := []
  nextId := 0

/-- Write the store. -/
def setStore (t : Tab) (s : AuthStore) : Tab :=
  { t with store := s, pending := t.pending.map fun nav => nav.observe t.store s }

/-- Send a request. -/
def send (t : Tab) (request : Request) : Tab :=
  { t with requests := t.requests ++ [(t.nextId, request)], nextId := t.nextId + 1 }

/-- `logout`, up to its `await`. -/
def logout (t : Tab) : Tab := (t.setStore t.store.signOut).send .logout

/-- A navigation begins, and replaces the one before it. The page that is shown is not navigated
to again. -/
def goTo (t : Tab) (path : Path) : Tab :=
  { t with
    pending := if t.shown = some path then none else some (.start path)
    superseded := t.superseded ++ (t.pending.filter (·.awaits.isSome)).toList }

/-- What the caller makes of an answer. -/
def receive (t : Tab) (request : Request) (response : Response) : Tab :=
  match request with
  | .login =>
    match response with
    | .ok user => t.setStore (t.store.signIn user)
    | .empty | .error .. => t
  | .fetchMe => t.setStore (t.store.fetched response.user?)
  | .changePassword =>
    match response with
    | .ok _ | .empty => t.send .fetchMe
    | .error .. => t
  | .logout => load "/login" none
  | .api =>
    -- `handlePasswordChangeRequired`
    if response.isPasswordChangeRequiredError then
      let t := t.setStore t.store.markPasswordChangeRequired
      if t.pathname ≠ changePasswordPath then t.goTo changePasswordPath else t
    else t

/-- The middleware that awaits a call goes on. -/
def release (t : Tab) (id : RequestId) : Tab :=
  { t with
    pending := t.pending.map fun nav => nav.release id
    superseded := t.superseded.map fun nav => nav.release id }

/-- The navigation is decided. -/
def decide (router : Router) (subdomain : String) (t : Tab) (nav : Navigation) : Tab :=
  match router.arrive subdomain t.store nav.target with
  | .pass => { t with pending := some { nav with passed := some t.store } }
  | .redirect path =>
    { t with
      pending :=
        if t.shown = some path then none
        else some { nav with target := path, redirects := nav.redirects + 1 } }
  | .abort _ => { t with pending := none }
  | .logout => { t.logout with pending := none }

/-- The page of a navigation is shown. -/
def confirm (t : Tab) (nav : Navigation) : Tab :=
  { t with pathname := nav.target, shown := some nav.target, pending := none }

/-- One step of a tab. -/
def step (router : Router) (subdomain : String) (t : Tab) : TabAction → Option Tab
  | .load path hydrated => some (load path hydrated)
  | .navigate path => some (t.goTo path)
  | .call request => some (if request = .logout then t.logout else t.send request)
  | .answer id response =>
    (t.requests.find? fun sent => sent.1 == id).map fun sent =>
      (({ t with requests := t.requests.filter fun other => other.1 ≠ id } : Tab).receive sent.2
        response).release id
  | .guard =>
    t.pending.bind fun nav =>
      if nav.awaits.isSome || nav.passed.isSome then none
      else if t.store.isInitialized then some (decide router subdomain t nav)
      else some { t.send .fetchMe with pending := some { nav with awaits := some t.nextId } }
  | .confirm =>
    t.pending.bind fun nav => if nav.passed.isSome then some (t.confirm nav) else none
  | .resume k =>
    t.superseded[k]?.bind fun nav =>
      if nav.awaits.isSome then none
      else
        let t := { t with superseded := t.superseded.eraseIdx k }
        some (if router.arrive subdomain t.store nav.target = .logout then t.logout else t)

end Tab

variable {router : Router} {subdomain : String} {s s' : AuthStore} {path target : Path}

/-- The fields of the session agree whatever a response carries. -/
theorem AuthStore.Agrees.fetched (response : Option User) : (s.fetched response).Agrees := by
  cases response <;> rfl

/-- The hold changes neither of the fields of the session. -/
theorem AuthStore.Agrees.markPasswordChangeRequired (h : s.Agrees) :
    s.markPasswordChangeRequired.Agrees := by
  rw [Agrees] at h ⊢
  simp [AuthStore.markPasswordChangeRequired, h]

/-- The middleware reads the session and nothing else of the store. -/
theorem Router.arrive_congr (huser : s.user = s'.user)
    (hauth : s.isAuthenticated = s'.isAuthenticated) :
    router.arrive subdomain s path = router.arrive subdomain s' path := by
  obtain ⟨user, isAuthenticated, _⟩ := s
  obtain ⟨_, _, _⟩ := s'
  cases huser
  cases hauth
  rfl

namespace Navigation

variable {nav : Navigation}

/-- Two stages of one navigation, which the middleware has let pass to the same page with the same
session, if it has. -/
def SamePass (nav next : Navigation) : Prop :=
  next.passed = nav.passed ∧ next.target = nav.target

/-- A change of the session is only counted. -/
theorem samePass_observe : nav.SamePass (nav.observe s s') := by
  unfold observe
  split <;> exact ⟨rfl, rfl⟩

/-- An answer that is awaited lets no navigation pass. -/
theorem samePass_release (id : RequestId) : nav.SamePass (nav.release id) := by
  unfold release
  split <;> exact ⟨rfl, rfl⟩

/-- What is known about a navigation on its way. -/
structure Settling (router : Router) (subdomain : String) (s : AuthStore) (nav : Navigation) :
    Prop where
  asked : nav.redirects = 0 → nav.target = nav.asked ∧ nav.changes = 0
  own : nav.redirects ≠ 0 → (router.route nav.target).pageMeta.redirect = none
  bound : nav.redirects + router.hops subdomain s nav.target ≤ 2 + nav.changes
  allowed : nav.redirects ≠ 0 → nav.changes = 0 →
    router.arrive subdomain s nav.target = .pass ∨
      ∃ path, router.arrive subdomain s nav.target = .redirect path
  passed : ∀ s', nav.passed = some s' → Entitled subdomain s' (router.route nav.target)

/-- A navigation that begins has at most two redirects before it. -/
theorem settling_start : (start path).Settling router subdomain s where
  asked _ := ⟨rfl, rfl⟩
  own h := absurd rfl h
  bound := by
    have htwo : router.hops subdomain s path ≤ 2 := Router.hops_le_two
    simpa [start] using htwo
  allowed h := absurd rfl h
  passed _ h := nomatch h

/-- A redirect is paid for by the redirects that were left. -/
theorem Settling.redirect (h : nav.Settling router subdomain s) (hpassed : nav.passed = none)
    (harrive : router.arrive subdomain s nav.target = .redirect target) :
    Settling router subdomain s
      { nav with target := target, redirects := nav.redirects + 1 } where
  asked h := absurd h (Nat.succ_ne_zero _)
  own _ := Router.redirect_of_arrive harrive
  bound := by
    have hbound := h.bound
    rw [Router.hops_of_redirect harrive] at hbound
    change nav.redirects + 1 + router.hops subdomain s target ≤ 2 + nav.changes
    omega
  allowed _ _ := (Router.arrive_of_redirect harrive).imp_right fun ⟨last, hlast, _⟩ => ⟨last, hlast⟩
  passed _ h := nomatch hpassed.symm.trans h

/-- The middleware lets a navigation pass that the session is entitled to. -/
theorem Settling.pass (h : nav.Settling router subdomain s) (hs : s.Agrees)
    (harrive : router.arrive subdomain s nav.target = .pass) :
    Settling router subdomain s { nav with passed := some s } where
  asked := h.asked
  own := h.own
  bound := h.bound
  allowed := h.allowed
  passed s' hs' := by
    obtain rfl : s = s' := Option.some.inj hs'
    exact entitled_of_pass hs (Router.arrive_eq_pass.mp harrive).1

/-- A change of the session pays for one redirect. -/
theorem Settling.observe (h : nav.Settling router subdomain s) :
    (nav.observe s s').Settling router subdomain s' := by
  by_cases hredirects : nav.redirects = 0
  · rw [Navigation.observe, if_pos (.inl hredirects)]
    exact
      { asked := h.asked
        own := h.own
        bound := by
          have htwo : router.hops subdomain s' nav.target ≤ 2 := Router.hops_le_two
          omega
        allowed := fun hne => absurd hredirects hne
        passed := h.passed }
  · by_cases hsame : s.user = s'.user ∧ s.isAuthenticated = s'.isAuthenticated
    · have harrive (path : Path) :
          router.arrive subdomain s path = router.arrive subdomain s' path :=
        Router.arrive_congr hsame.1 hsame.2
      rw [Navigation.observe, if_pos (.inr hsame)]
      exact
        { asked := h.asked
          own := h.own
          bound := by simpa only [Router.hops, harrive] using h.bound
          allowed := by simpa only [harrive] using h.allowed
          passed := h.passed }
    · rw [Navigation.observe, if_neg (not_or.mpr ⟨hredirects, hsame⟩)]
      exact
        { asked := fun h0 => absurd h0 hredirects
          own := h.own
          bound := by
            have hbound := h.bound
            have hone : router.hops subdomain s' nav.target ≤ 1 :=
              Router.hops_le_one (h.own hredirects)
            change nav.redirects + router.hops subdomain s' nav.target ≤ 2 + (nav.changes + 1)
            omega
          allowed := fun _ h0 => absurd h0 (Nat.succ_ne_zero _)
          passed := h.passed }

/-- The answer to an `await` changes nothing else of a navigation. -/
theorem Settling.release (h : nav.Settling router subdomain s) (id : RequestId) :
    (nav.release id).Settling router subdomain s := by
  unfold Navigation.release
  split
  · exact ⟨h.asked, h.own, h.bound, h.allowed, h.passed⟩
  · exact h

end Navigation

namespace Tab

variable {t t' : Tab} {nav : Navigation} {request : Request} {response : Response}
  {action : TabAction}

/-- The invariant of a tab. -/
structure Sound (router : Router) (subdomain : String) (t : Tab) : Prop where
  agrees : t.store.Agrees
  settling : ∀ nav, t.pending = some nav → nav.Settling router subdomain t.store

/-- A new document is sound. -/
theorem sound_load (path : Path) (hydrated : Option (Option User)) :
    (load path hydrated).Sound router subdomain where
  agrees :=
    match hydrated with
    | some response => .fetched response
    | none => rfl
  settling nav h := by
    obtain rfl : Navigation.start path = nav := Option.some.inj h
    exact Navigation.settling_start

/-- The store is written with a session whose fields agree. -/
theorem Sound.setStore (h : t.Sound router subdomain) (hs : s.Agrees) :
    (t.setStore s).Sound router subdomain where
  agrees := hs
  settling nav hnav := by
    obtain ⟨before, hbefore, rfl⟩ := Option.map_eq_some_iff.mp hnav
    exact (h.settling before hbefore).observe

/-- A request is sent. -/
theorem Sound.send (h : t.Sound router subdomain) : (t.send request).Sound router subdomain :=
  ⟨h.agrees, h.settling⟩

/-- The session is ended. -/
theorem Sound.logout (h : t.Sound router subdomain) : t.logout.Sound router subdomain :=
  Sound.send (h.setStore rfl)

/-- A navigation begins. -/
theorem Sound.goTo (h : t.Sound router subdomain) : (t.goTo path).Sound router subdomain where
  agrees := h.agrees
  settling nav hnav := by
    change (if t.shown = some path then none else some (Navigation.start path)) = some nav at hnav
    split at hnav
    · cases hnav
    · obtain rfl := Option.some.inj hnav
      exact Navigation.settling_start

/-- An awaited answer has come. -/
theorem Sound.release (h : t.Sound router subdomain) (id : RequestId) :
    (t.release id).Sound router subdomain where
  agrees := h.agrees
  settling nav hnav := by
    obtain ⟨before, hbefore, rfl⟩ := Option.map_eq_some_iff.mp hnav
    exact (h.settling before hbefore).release id

/-- An answer comes. -/
theorem Sound.receive (h : t.Sound router subdomain) :
    (t.receive request response).Sound router subdomain := by
  cases request with
  | login =>
    cases response with
    | ok user => exact h.setStore rfl
    | empty => exact h
    | error => exact h
  | fetchMe => exact h.setStore (.fetched _)
  | changePassword =>
    cases response with
    | ok => exact h.send
    | empty => exact h.send
    | error => exact h
  | logout => exact sound_load "/login" none
  | api =>
    simp only [Tab.receive]
    split
    · have hheld := h.setStore h.agrees.markPasswordChangeRequired
      split
      · exact hheld.goTo
      · exact hheld
    · exact h

/-- A navigation is decided. -/
theorem Sound.decide (h : t.Sound router subdomain) (hnav : t.pending = some nav)
    (hpassed : nav.passed = none) : (t.decide router subdomain nav).Sound router subdomain := by
  unfold Tab.decide
  split
  · rename_i harrive
    refine ⟨h.agrees, fun next hnext => ?_⟩
    obtain rfl := Option.some.inj hnext
    exact (h.settling nav hnav).pass h.agrees harrive
  · rename_i path harrive
    refine ⟨h.agrees, fun next hnext => ?_⟩
    dsimp only at hnext
    split at hnext
    · cases hnext
    · obtain rfl := Option.some.inj hnext
      exact (h.settling nav hnav).redirect hpassed harrive
  · exact ⟨h.agrees, nofun⟩
  · exact ⟨h.logout.agrees, nofun⟩

/-- **Step lemma.** -/
theorem Sound.step (h : t.Sound router subdomain) (hs : t.step router subdomain action = some t') :
    t'.Sound router subdomain := by
  cases action with
  | load path hydrated =>
    obtain rfl := Option.some.inj hs
    exact sound_load path hydrated
  | navigate path =>
    obtain rfl := Option.some.inj hs
    exact h.goTo
  | call request =>
    obtain rfl := Option.some.inj hs
    split
    · exact h.logout
    · exact h.send
  | answer id response =>
    obtain ⟨sent, -, rfl⟩ := Option.map_eq_some_iff.mp hs
    have hrest : Sound router subdomain
        { t with requests := t.requests.filter fun other => other.1 ≠ id } :=
      ⟨h.agrees, h.settling⟩
    exact hrest.receive.release id
  | guard =>
    obtain ⟨nav, hnav, hs⟩ := Option.bind_eq_some_iff.mp hs
    split_ifs at hs with hwaits hinitialized
    · obtain rfl := Option.some.inj hs
      simp only [Bool.or_eq_true, not_or, Option.not_isSome_iff_eq_none] at hwaits
      exact h.decide hnav hwaits.2
    · obtain rfl := Option.some.inj hs
      refine ⟨h.agrees, fun next hnext => ?_⟩
      obtain rfl := Option.some.inj hnext
      have hsettling := h.settling nav hnav
      exact ⟨hsettling.asked, hsettling.own, hsettling.bound, hsettling.allowed,
        hsettling.passed⟩
  | confirm =>
    obtain ⟨nav, -, hs⟩ := Option.bind_eq_some_iff.mp hs
    split_ifs at hs
    obtain rfl := Option.some.inj hs
    exact ⟨h.agrees, nofun⟩
  | resume k =>
    obtain ⟨nav, -, hs⟩ := Option.bind_eq_some_iff.mp hs
    have hrest : Sound router subdomain { t with superseded := t.superseded.eraseIdx k } :=
      ⟨h.agrees, h.settling⟩
    split_ifs at hs with hawaits
    obtain rfl := Option.some.inj hs
    split
    · exact hrest.logout
    · exact hrest

/-- **Run lemma.** -/
theorem sound_of_reaches
    (hreach : Reaches (step router subdomain) (fun _ _ => True) (load path none) t) :
    t.Sound router subdomain :=
  hreach.invariant (sound_load path none) fun _ _ _ h _ hs => h.step hs

/-- What is shown after an answer was shown before it, unless there is a new document. -/
theorem shown_receive :
    (t.receive request response).shown = t.shown ∨ (t.receive request response).shown = none := by
  cases request with
  | login => cases response <;> exact .inl rfl
  | fetchMe => exact .inl rfl
  | changePassword => cases response <;> exact .inl rfl
  | logout => exact .inr rfl
  | api =>
    simp only [receive]
    split_ifs <;> exact .inl rfl

/-- The decision on a navigation shows nothing new. -/
theorem shown_decide : (t.decide router subdomain nav).shown = t.shown := by
  unfold decide
  split <;> rfl

/-- **A page is shown** only when the session with which the middleware has let its navigation pass
may see it. -/
theorem Sound.shown_step (h : t.Sound router subdomain)
    (hs : t.step router subdomain action = some t') :
    t'.shown = t.shown ∨ t'.shown = none ∨
      ∃ nav s, t.pending = some nav ∧ nav.passed = some s ∧ t'.shown = some nav.target ∧
        Entitled subdomain s (router.route nav.target) := by
  cases action with
  | load path hydrated =>
    obtain rfl := Option.some.inj hs
    exact .inr (.inl rfl)
  | navigate path =>
    obtain rfl := Option.some.inj hs
    exact .inl rfl
  | call request =>
    obtain rfl := Option.some.inj hs
    split <;> exact .inl rfl
  | answer id response =>
    obtain ⟨sent, -, rfl⟩ := Option.map_eq_some_iff.mp hs
    exact shown_receive.imp_right .inl
  | guard =>
    obtain ⟨nav, -, hs⟩ := Option.bind_eq_some_iff.mp hs
    split_ifs at hs
    · obtain rfl := Option.some.inj hs
      exact .inl shown_decide
    · obtain rfl := Option.some.inj hs
      exact .inl rfl
  | confirm =>
    obtain ⟨nav, hnav, hs⟩ := Option.bind_eq_some_iff.mp hs
    split_ifs at hs with hpassed
    obtain rfl := Option.some.inj hs
    obtain ⟨s, hsession⟩ := Option.isSome_iff_exists.mp hpassed
    exact .inr (.inr ⟨nav, s, hnav, hsession, rfl, (h.settling nav hnav).passed s hsession⟩)
  | resume k =>
    obtain ⟨nav, -, hs⟩ := Option.bind_eq_some_iff.mp hs
    split_ifs at hs
    obtain rfl := Option.some.inj hs
    split <;> exact .inl rfl

/-- The navigation of a tab has not passed, or it was on its way before and has passed then. -/
def PassedBefore (t t' : Tab) : Prop :=
  ∀ next, t'.pending = some next → next.passed = none ∨ ∃ nav, t.pending = some nav ∧
    nav.SamePass next

/-- A new document has let nothing pass. -/
theorem passedBefore_load (path : Path) (hydrated : Option (Option User)) :
    t.PassedBefore (load path hydrated) := by
  intro next hnext
  obtain rfl : Navigation.start path = next := Option.some.inj hnext
  exact .inl rfl

/-- A navigation that begins has not passed. -/
theorem passedBefore_goTo (path : Path) : t.PassedBefore (t.goTo path) := by
  intro next hnext
  change (if t.shown = some path then none else some (Navigation.start path)) = some next at hnext
  split at hnext
  · cases hnext
  · obtain rfl := Option.some.inj hnext
    exact .inl rfl

/-- Writing the store lets nothing pass. -/
theorem passedBefore_setStore (s : AuthStore) : t.PassedBefore (t.setStore s) := by
  intro next hnext
  obtain ⟨nav, hnav, rfl⟩ := Option.map_eq_some_iff.mp hnext
  exact .inr ⟨nav, hnav, Navigation.samePass_observe⟩

/-- An awaited answer lets nothing pass. -/
theorem passedBefore_release (id : RequestId) : t.PassedBefore (t.release id) := by
  intro next hnext
  obtain ⟨nav, hnav, rfl⟩ := Option.map_eq_some_iff.mp hnext
  exact .inr ⟨nav, hnav, Navigation.samePass_release id⟩

/-- A tab that keeps its navigation. -/
theorem passedBefore_of_pending (h : t'.pending = t.pending) : t.PassedBefore t' :=
  fun next hnext => .inr ⟨next, h ▸ hnext, rfl, rfl⟩

/-- Two changes of a tab, one after the other. -/
theorem PassedBefore.trans {u : Tab} (h : t.PassedBefore t') (hu : t'.PassedBefore u) :
    t.PassedBefore u := by
  intro next hnext
  rcases hu next hnext with hnone | ⟨mid, hmid, hpassed, htarget⟩
  · exact .inl hnone
  · rcases h mid hmid with hnone | ⟨nav, hnav, hpassed', htarget'⟩
    · exact .inl (hpassed.trans hnone)
    · exact .inr ⟨nav, hnav, hpassed.trans hpassed', htarget.trans htarget'⟩

/-- An answer lets nothing pass. -/
theorem passedBefore_receive : t.PassedBefore (t.receive request response) := by
  cases request with
  | login =>
    cases response with
    | ok user => exact passedBefore_setStore _
    | empty => exact passedBefore_of_pending rfl
    | error => exact passedBefore_of_pending rfl
  | fetchMe => exact passedBefore_setStore _
  | changePassword => cases response <;> exact passedBefore_of_pending rfl
  | logout => exact passedBefore_load "/login" none
  | api =>
    simp only [receive]
    split_ifs
    · exact (passedBefore_setStore _).trans (passedBefore_goTo _)
    · exact passedBefore_setStore _
    · exact passedBefore_of_pending rfl

/-- The decision lets a navigation pass with the session of the tab. -/
theorem passed_decide (hnone : nav.passed = none) {next : Navigation}
    (hnext : (t.decide router subdomain nav).pending = some next) (hpassed : next.passed = some s) :
    s = t.store := by
  unfold decide at hnext
  split at hnext
  · obtain rfl := Option.some.inj hnext
    exact (Option.some.inj hpassed).symm
  · dsimp only at hnext
    split at hnext
    · cases hnext
    · obtain rfl := Option.some.inj hnext
      exact nomatch hnone.symm.trans hpassed
  · cases hnext
  · cases hnext

/-- **Only the middleware lets a navigation pass**, with the session that it reads. -/
theorem passed_step (hs : t.step router subdomain action = some t') {next : Navigation}
    (hnext : t'.pending = some next) (hpassed : next.passed = some s) :
    s = t.store ∧ action = .guard ∨
      ∃ nav, t.pending = some nav ∧ nav.passed = some s ∧ next.target = nav.target := by
  have hbefore : t.PassedBefore t' → ∃ nav, t.pending = some nav ∧ nav.passed = some s ∧
      next.target = nav.target := by
    intro h
    rcases h next hnext with hnone | ⟨nav, hnav, hsame, htarget⟩
    · exact nomatch hnone.symm.trans hpassed
    · exact ⟨nav, hnav, hsame.symm.trans hpassed, htarget⟩
  cases action with
  | load path hydrated =>
    obtain rfl := Option.some.inj hs
    exact .inr (hbefore (passedBefore_load path hydrated))
  | navigate path =>
    obtain rfl := Option.some.inj hs
    exact .inr (hbefore (passedBefore_goTo path))
  | call request =>
    obtain rfl := Option.some.inj hs
    refine .inr (hbefore ?_)
    split
    · exact passedBefore_setStore _
    · exact passedBefore_of_pending rfl
  | answer id response =>
    obtain ⟨sent, -, rfl⟩ := Option.map_eq_some_iff.mp hs
    have hrest : t.PassedBefore
        { t with requests := t.requests.filter fun other => other.1 ≠ id } :=
      passedBefore_of_pending rfl
    exact .inr (hbefore ((hrest.trans passedBefore_receive).trans (passedBefore_release id)))
  | guard =>
    obtain ⟨nav, hnav, hs⟩ := Option.bind_eq_some_iff.mp hs
    split_ifs at hs with hwaits hinitialized
    · obtain rfl := Option.some.inj hs
      simp only [Bool.or_eq_true, not_or, Option.not_isSome_iff_eq_none] at hwaits
      exact .inl ⟨passed_decide hwaits.2 hnext hpassed, rfl⟩
    · obtain rfl := Option.some.inj hs
      obtain rfl := Option.some.inj hnext
      exact .inr ⟨nav, hnav, hpassed, rfl⟩
  | confirm =>
    obtain ⟨nav, -, hs⟩ := Option.bind_eq_some_iff.mp hs
    split_ifs at hs
    obtain rfl := Option.some.inj hs
    cases hnext
  | resume k =>
    obtain ⟨nav, -, hs⟩ := Option.bind_eq_some_iff.mp hs
    split_ifs at hs
    obtain rfl := Option.some.inj hs
    refine .inr (hbefore ?_)
    split
    · exact passedBefore_setStore _
    · exact passedBefore_of_pending rfl

/-- The middleware leaves the session of a user with permissions as it is. -/
theorem store_of_guard (hs : t.step router subdomain action = some t')
    (haction : action = .guard ∨ ∃ k, action = .resume k) {user : User}
    (huser : t.store.user = some user) (hpermissions : user.permissions ≠ []) :
    t'.store = t.store := by
  have hkept (path : Path) : router.arrive subdomain t.store path ≠ .logout := fun h =>
    hpermissions (Router.permissions_of_logout h huser)
  obtain rfl | ⟨k, rfl⟩ := haction
  · obtain ⟨nav, -, hs⟩ := Option.bind_eq_some_iff.mp hs
    split_ifs at hs
    · obtain rfl := Option.some.inj hs
      unfold decide
      split
      · rfl
      · rfl
      · rfl
      · rename_i hlogout
        exact absurd hlogout (hkept nav.target)
    · obtain rfl := Option.some.inj hs
      rfl
  · obtain ⟨nav, -, hs⟩ := Option.bind_eq_some_iff.mp hs
    split_ifs at hs
    obtain rfl := Option.some.inj hs
    rw [if_neg (hkept nav.target)]

end Tab

/-- **Navigations settle:** whatever the order of answers, logins, holds, logouts and navigations, a
navigation is redirected at most twice and once more for every change of the session since its first
redirect. A navigation that has been redirected is refused only when the session has changed; a page
is shown only to a session that might see it when the middleware let its navigation pass; and no
middleware ends the session of a user who has a permission. -/
theorem navigations_settle (router : Router) (subdomain : String) (path : Path) {t : Tab}
    (hreach : Reaches (Tab.step router subdomain) (fun _ _ => True) (Tab.load path none) t) :
    (∀ nav, t.pending = some nav →
      nav.redirects ≤ 2 + nav.changes ∧
      ∀ message, router.arrive subdomain t.store nav.target = .abort message →
        nav.changes = 0 → nav.redirects = 0) ∧
    ∀ action t', t.step router subdomain action = some t' →
      (t'.shown = t.shown ∨ t'.shown = none ∨
        ∃ nav s, t.pending = some nav ∧ nav.passed = some s ∧ t'.shown = some nav.target ∧
          Entitled subdomain s (router.route nav.target)) ∧
      (∀ next s, t'.pending = some next → next.passed = some s →
        s = t.store ∧ action = .guard ∨
          ∃ nav, t.pending = some nav ∧ nav.passed = some s ∧ next.target = nav.target) ∧
      (action = .guard ∨ (∃ k, action = .resume k) →
        ∀ user, t.store.user = some user → user.permissions ≠ [] → t'.store = t.store) := by
  have h := Tab.sound_of_reaches hreach
  refine ⟨fun nav hnav => ⟨?_, fun message habort hchanges => ?_⟩, fun action t' hs =>
    ⟨h.shown_step hs, fun _ _ hnext hpassed => Tab.passed_step hs hnext hpassed,
      fun haction _ huser hne => Tab.store_of_guard hs haction huser hne⟩⟩
  · have hbound := (h.settling nav hnav).bound
    omega
  · by_contra hredirects
    obtain hpass | ⟨next, hnext⟩ := (h.settling nav hnav).allowed hredirects hchanges
    · rw [habort] at hpass
      cases hpass
    · rw [habort] at hnext
      cases hnext

/-- The pages without parameters. -/
def staticPages : List Page :=
  [.index, .login, .changePassword, .adminIndex, .adminDashboard, .adminTenants,
    .adminSubscriptions, .catalogs, .materials, .config, .syllabus, .academicTime]

/-- A router that does not distinguish capitals. -/
def insensitiveRouter : Router where
  resolve path := staticPages.find? fun page =>
    page.path.any fun own => own.toList == path.toList.map Char.toLower
  resolve_path page path h := by
    cases page <;> cases h <;> decide

/-- A teacher who reads syllabuses. -/
def teacher : User := ⟨["Teacher"], ["VIEW_SYLLABUS"], none⟩

/-- The teacher asks for the administration in capitals. A login is answered while the navigation is
on its way: there is a password hold. -/
def heldOnTheWay : List TabAction :=
  [.call .login, .guard, .answer 1 (.ok teacher), .guard, .guard,
    .answer 0 (.ok { teacher with forcePasswordReset := some true }), .guard]

/-- The bound is attained. -/
theorem navigations_settle_held :
    let t := after (Tab.step insensitiveRouter "colegio") (Tab.load "/ADMIN" none) heldOnTheWay
    (t.pending.map fun nav => (nav.target, nav.redirects, nav.changes)) =
      some ("/change-password", 3, 1) ∧
    ∀ nav, t.pending = some nav → nav.redirects ≤ 2 + nav.changes :=
  ⟨by decide, fun nav hnav =>
    ((navigations_settle insensitiveRouter "colegio" "/ADMIN"
      (reaches_after (by decide) fun _ _ _ => trivial)).1 nav hnav).1⟩

end Odiseo.Client
