import Odiseo.Requests.Safety

/-!
# Revocations end sessions

Where the authorization state comes from, and what a stamp in `tokens_valid_after` does to
the tokens that were issued before it: as long as no write puts an older stamp back, they
open no handler to a request that arrives more than `bound` later.
-/

namespace Odiseo.Requests

open Odiseo.Auth (CachedAuthState UserRow AuthRows authState)
open Odiseo.Tenants (Company)
open Database.Transition

/-- The answers of `getUserAuthState` with its caches are answers here: what a call returns was
read from the moments of the database within the lifetime of a shared entry and one write
delay. -/
theorem authAnswer_of_returned {delay now : ℕ} {rows : AuthRows} {v : Auth.World}
    (hreach : Reaches (Auth.World.step delay) (fun _ _ => True) (Auth.World.start now rows) v)
    {x : ℕ × CachedAuthState} (hx : x ∈ v.returned) {w : World} {token : TokenPayload}
    (hnow : x.1 = w.now)
    (hsame : ∀ m ∈ v.moments, ∃ (i : ℕ) (db : Db) (s : Schema),
      w.moments[i]? = some (m.1, db) ∧ db.schemas token.companyId = some s ∧
        s.authRows token.sub = m.2) :
    ∃ answer, w.authAnswer (delay + Auth.sharedTtl) token answer = some x.2 := by
  obtain ⟨readAt, ⟨m₁, hm₁, m₂, hm₂, h₁, _, h₂, _, hstate⟩, hbound⟩ :=
    Auth.readBetween_of_returned hreach hx
  obtain ⟨i, db₁, s₁, hi, hs₁, hrows₁⟩ := hsame m₁ hm₁
  obtain ⟨j, db₂, s₂, hj, hs₂, hrows₂⟩ := hsame m₂ hm₂
  refine ⟨some (i, j), ?_⟩
  have hle : w.now ≤ m₁.1 + (delay + Auth.sharedTtl) ∧ w.now ≤ m₂.1 + (delay + Auth.sharedTtl) := by
    omega
  simp only [World.authAnswer, Option.bind_some, hi, hj, hs₁, hs₂, if_pos hle, hrows₁, hrows₂,
    hstate]

/-- `tokens_valid_after` of a user. -/
def Db.stampOf (db : Db) (companyId : CompanyId) (userId : UserId) : Option ℕ :=
  ((db.schemas companyId).bind fun s => (s.authRows userId).user).bind (·.tokensValidAfter)

/-- A stamp that is set stays set, to the same instant or a later one. -/
def StampKept (companyId : CompanyId) (userId : UserId) (db db' : Db) : Prop :=
  ∀ stamp, db.stampOf companyId userId = some stamp →
    ∃ stamp', db'.stampOf companyId userId = some stamp' ∧ stamp ≤ stamp'

instance (companyId : CompanyId) (userId : UserId) (db db' : Db) :
    Decidable (StampKept companyId userId db db') :=
  decidable_of_iff (∀ stamp ∈ db.stampOf companyId userId,
    ∃ stamp' ∈ db'.stampOf companyId userId, stamp ≤ stamp') Iff.rfl

/-- The action neither puts an older stamp back nor drops the stamp or the user. -/
def KeepsStamp (compare : String → String → Bool) (lifetime bound : ℕ) (companyId : CompanyId)
    (userId : UserId) (w : World) (a : Action) : Prop :=
  ∀ w', w.step compare lifetime bound a = some w' → StampKept companyId userId w.db w'.db

instance (compare : String → String → Bool) (lifetime bound : ℕ) (companyId : CompanyId)
    (userId : UserId) (w : World) (a : Action) :
    Decidable (KeepsStamp compare lifetime bound companyId userId w a) :=
  decidable_of_iff (∀ w' ∈ w.step compare lifetime bound a,
    StampKept companyId userId w.db w'.db) Iff.rfl

/-- A moment and a later one. -/
def Later (companyId : CompanyId) (userId : UserId) (m m' : ℕ × Db) : Prop :=
  m.1 ≤ m'.1 ∧ StampKept companyId userId m.2 m'.2

/-- The moments are in order, and the present is the latest. -/
structure Ordered (companyId : CompanyId) (userId : UserId) (w : World) : Prop where
  moments : w.moments.Pairwise (Later companyId userId)
  present : ∀ m ∈ w.moments, Later companyId userId m (w.now, w.db)

section Order

variable {companyId : CompanyId} {userId : UserId}

/-- A stamp that is kept twice is kept. -/
theorem StampKept.trans {db db' db'' : Db} (h : StampKept companyId userId db db')
    (h' : StampKept companyId userId db' db'') : StampKept companyId userId db db'' := by
  intro stamp hstamp
  obtain ⟨stamp', hstamp', hle⟩ := h stamp hstamp
  obtain ⟨stamp'', hstamp'', hle'⟩ := h' stamp' hstamp'
  exact ⟨stamp'', hstamp'', Nat.le_trans hle hle'⟩

/-- A stamp is kept by itself. -/
theorem stampKept_refl (db : Db) : StampKept companyId userId db db :=
  fun stamp hstamp => ⟨stamp, hstamp, Nat.le_refl _⟩

/-- A step that keeps the stamp keeps the order. -/
theorem ordered_of_step {compare : String → String → Bool} {lifetime bound : ℕ} {w w' : World}
    {a : Action} (hsound : Sound compare lifetime bound w) (hw : Ordered companyId userId w)
    (hkeeps : KeepsStamp compare lifetime bound companyId userId w a)
    (h : w.step compare lifetime bound a = some w') : Ordered companyId userId w' := by
  have hkept := hkeeps w' h
  obtain ⟨v, hact, rfl⟩ := Option.map_eq_some_iff.mp h
  have hacts := acts_of_act hsound hact
  have hlater : ∀ m ∈ v.moments, Later companyId userId m (v.now, v.db) := by
    intro m hm
    rw [hacts.moments] at hm
    obtain ⟨hle, hstamp⟩ := hw.present m hm
    exact ⟨Nat.le_trans hle hacts.now, hstamp.trans hkept⟩
  constructor
  · refine List.pairwise_append.mpr ⟨?_, List.pairwise_singleton _ _, ?_⟩
    · rw [hacts.moments]
      exact hw.moments
    · intro m hm m' hm'
      rw [List.mem_singleton.mp hm']
      exact hlater m hm
  · intro m hm
    rcases List.mem_append.mp hm with hm | hm
    · exact hlater m hm
    · rw [List.mem_singleton.mp hm]
      exact ⟨Nat.le_refl _, stampKept_refl _⟩

/-- Of two moments, the one with the greater time keeps the stamp of the other. -/
theorem Ordered.stampKept {w : World} (h : Ordered companyId userId w) {m m' : ℕ × Db}
    (hm : m ∈ w.moments) (hm' : m' ∈ w.moments) (hlt : m.1 < m'.1) :
    StampKept companyId userId m.2 m'.2 := by
  obtain ⟨i, hi, rfl⟩ := List.getElem_of_mem hm
  obtain ⟨j, hj, rfl⟩ := List.getElem_of_mem hm'
  have hpairs := List.pairwise_iff_getElem.mp h.moments
  rcases Nat.lt_trichotomy i j with hij | rfl | hji
  · exact (hpairs i j hi hj hij).2
  · exact absurd hlt (Nat.lt_irrefl _)
  · exact absurd (hpairs j i hj hi hji).1 (Nat.not_le_of_lt hlt)

end Order

/-- **A revocation ends the sessions before it:** in every run that keeps the stamp of a user, once
`tokens_valid_after` of the user was set, no handler of a protected route is entered on a token
that was issued in an earlier second than the stamp, by a request that arrives more than `bound`
after the stamp was in the database. -/
theorem no_session_before_stamp (compare : String → String → Bool) (lifetime bound now : ℕ)
    (db : Db) (companyId : CompanyId) (userId : UserId) (w : World)
    (h : Reaches (World.step compare lifetime bound)
      (KeepsStamp compare lifetime bound companyId userId) (World.start now db) w)
    (m : ℕ × Db) (hm : m ∈ w.moments) (stamp : ℕ)
    (hstamp : m.2.stampOf companyId userId = some stamp) (e : Entered) (he : e ∈ w.entered)
    (hpublic : e.request.route.isPublic = false) (hlate : m.1 + bound < e.request.started)
    (token : TokenPayload) (hcookie : e.request.cookie = some token)
    (hcompany : token.companyId = companyId) (huser : token.sub = userId) :
    stamp / 1000 ≤ token.iat := by
  have hstart : Ordered companyId userId (World.start now db) := by
    constructor
    · exact List.pairwise_singleton _ _
    · intro m hm
      rw [List.mem_singleton.mp hm]
      exact ⟨Nat.le_refl _, stampKept_refl _⟩
  have hall : Sound compare lifetime bound w ∧ Ordered companyId userId w := by
    have hstep : ∀ (v : World) (a : Action) (v' : World),
        Sound compare lifetime bound v ∧ Ordered companyId userId v →
        KeepsStamp compare lifetime bound companyId userId v a →
        v.step compare lifetime bound a = some v' →
        Sound compare lifetime bound v' ∧ Ordered companyId userId v' :=
      fun _ _ _ hv hkeeps hs => ⟨sound_of_step hv.1 hs, ordered_of_step hv.1 hv.2 hkeeps hs⟩
    exact h.invariant ⟨sound_start now db, hstart⟩ hstep
  obtain ⟨l, hl⟩ := authorised_of_sound hall.1 he hpublic
  have htoken : l.token = token := Option.some.inj (hl.cookie.symm.trans hcookie)
  obtain ⟨m', hm', hread, _, s, hs, hrevoked⟩ := hl.notRevoked
  rw [htoken] at hs hrevoked
  obtain ⟨stamp', hstamp', hle⟩ := hall.2.stampKept hm hm' (by omega) stamp hstamp
  unfold Db.stampOf at hstamp'
  rw [← hcompany, hs, ← huser, Option.bind_some] at hstamp'
  obtain ⟨row, hrow, hrowstamp⟩ := Option.bind_eq_some_iff.mp hstamp'
  have hiat := hrevoked row stamp' hrow hrowstamp
  exact Nat.le_trans (Nat.div_le_div_right hle) hiat

/-- The user logs out, logs in again two seconds later and asks for the materials. -/
def returningVisit : List Action :=
  [.login "colegio" "d@colegio.pe" "clave" 0, .logout (some (directorToken 5)), .stamp 0,
    .commitStamp 0 true, .pass 2000, .login "colegio" "d@colegio.pe" "clave" 0,
    .arrive materialsRoute none (some "colegio") "" (some (directorToken 7)) 0,
    .guard 0 (some (6, 6)), .guard 0 none, .guard 0 none, .enter 0]

/-- The world after this visit. -/
def returned : World :=
  after (World.step (fun password hash => password == hash) 86400 1000) (World.start 5000 oneTenant)
    returningVisit

/-- The request that entered the handler on the second login. -/
def returningVisitor : Entered where
  request := ⟨materialsRoute, none, some (directorToken 7), some 1,
    some ⟨directorToken 7, ["VIEW_MATERIALS"], false⟩, 7000⟩
  time := 7000

/-- The token of the second login is not of a second before the logout. -/
theorem no_session_before_stamp_returning : 5000 / 1000 ≤ (directorToken 7).iat := by
  have hlogout : (returned.moments[4]?).map (fun m => (m.1, m.2.stampOf 1 7)) =
      some (5000, some 5000) := by decide +kernel
  obtain ⟨m, hm, heq⟩ := Option.map_eq_some_iff.mp hlogout
  obtain ⟨htime, hstamp⟩ := Prod.mk.inj heq
  have hlate : m.1 + 1000 < returningVisitor.request.started := by
    rw [htime]
    decide
  exact no_session_before_stamp _ 86400 1000 5000 oneTenant 1 7 returned
    (reaches_after_of_performs (by decide +kernel)) m (List.mem_of_getElem? hm) 5000 hstamp
    returningVisitor (by decide +kernel) rfl hlate (directorToken 7) rfl rfl rfl

end Odiseo.Requests
