import Odiseo.Database.Transition

/-!
# Company lookups behind a cache

`TenantsService.findBySubdomain` and `invalidateSubdomainCache` in any number of processes,
which share one cache. A lookup takes the cached row, or reads the database and then
caches what it read; a mutation of a company commits and then drops the cached row. The
lookup and the mutation do not wait for each other, so a row that was read before a
mutation may be cached after the row has been dropped. All cache operations succeed, and
entries may expire at any time.
-/

namespace Odiseo.Tenants

open Database.Transition

/-- The text of a subdomain. -/
abbrev Subdomain := String

/-- `Company.status`. -/
inductive CompanyStatus
  | active
  | suspended
  | gracePeriod
  deriving DecidableEq, Repr

/-- `Company`, as the middleware reads it. -/
structure Company where
  id : ℕ
  subdomain : Subdomain
  commercialName : String
  isActive : Bool
  status : CompanyStatus
  deriving DecidableEq, Repr

/-- A row of the database, with the number of mutations that had committed when it was read. -/
structure ReadCompany where
  company : Company
  readAt : ℕ
  deriving DecidableEq, Repr

/-- How far a lookup has come. -/
inductive LookupStage
  /-- The cache has been asked. -/
  | readingCache
  /-- `findOne` has been sent. -/
  | readingDatabase
  /-- The row that was read is being cached. -/
  | writingCache (row : ReadCompany)
  deriving DecidableEq, Repr

/-- A call of `findBySubdomain`, with the mutations whose invalidation had returned when it
started. -/
structure Lookup where
  subdomain : Subdomain
  invalidated : List ℕ
  stage : LookupStage
  deriving DecidableEq, Repr

/-- A mutation that has committed and drops the cached row. -/
structure Mutation where
  subdomain : Subdomain
  number : ℕ
  deriving DecidableEq, Repr

/-- What a lookup has returned. -/
structure Returned where
  invalidated : List ℕ
  row : ReadCompany
  deriving DecidableEq, Repr

/-- The database, the cache and the calls of all processes. Mutations are numbered in the
order of their commits. -/
structure World where
  companies : Subdomain → Option Company
  cache : Subdomain → Option ReadCompany
  lookups : List Lookup
  mutations : List Mutation
  /-- The number of mutations that have committed. -/
  commits : ℕ
  /-- The mutations of each subdomain whose invalidation has returned. -/
  invalidated : Subdomain → List ℕ
  /-- The rows that lookups have returned. -/
  returned : List Returned

/-- Nothing is cached and nothing runs. -/
def World.start (companies : Subdomain → Option Company) : World where
  companies := companies
  cache := fun _ => none
  lookups := []
  mutations := []
  commits := 0
  invalidated := fun _ => []
  returned := []

/-- One step of a lookup, of a mutation or of the cache. -/
inductive Action
  /-- `findBySubdomain` is called. -/
  | find (subdomain : Subdomain)
  /-- The cache has the row. -/
  | cacheHit (lookup : ℕ)
  /-- The cache does not have the row. -/
  | cacheMiss (lookup : ℕ)
  /-- `findOne({ where: { subdomain, isActive: true } })`. -/
  | readDatabase (lookup : ℕ)
  /-- `cacheManager.set`, and the return. -/
  | cacheSet (lookup : ℕ)
  /-- An `INSERT` or `UPDATE` of a company commits. -/
  | mutate (company : Company)
  /-- `invalidateSubdomainCache`, and the return. -/
  | cacheDelete (mutation : ℕ)
  /-- The lifetime of a cached row ends. -/
  | expire (subdomain : Subdomain)
  deriving DecidableEq, Repr

namespace World

/-- The cached row of one subdomain is changed. -/
def setCache (w : World) (subdomain : Subdomain) (row : Option ReadCompany) : World :=
  { w with cache := fun s => if s = subdomain then row else w.cache s }

/-- A lookup goes on. -/
def setStage (w : World) (i : ℕ) (l : Lookup) (stage : LookupStage) : World :=
  { w with lookups := w.lookups.set i { l with stage := stage } }

/-- A lookup returns a row. -/
def answer (w : World) (i : ℕ) (l : Lookup) (row : ReadCompany) : World :=
  { w with
    lookups := w.lookups.eraseIdx i
    returned := w.returned ++ [⟨l.invalidated, row⟩] }

/-- The row that `findOne` answers: inactive companies are not found. -/
def findOne (w : World) (subdomain : Subdomain) : Option ReadCompany :=
  ((w.companies subdomain).filter (·.isActive)).map fun company => ⟨company, w.commits⟩

/-- A cached row is returned as it is. -/
def cacheHit (w : World) (i : ℕ) (l : Lookup) : Option World :=
  match l.stage, w.cache l.subdomain with
  | .readingCache, some row => some (w.answer i l row)
  | _, _ => none

/-- Without a cached row the database is asked. -/
def cacheMiss (w : World) (i : ℕ) (l : Lookup) : Option World :=
  match l.stage, w.cache l.subdomain with
  | .readingCache, none => some (w.setStage i l .readingDatabase)
  | _, _ => none

/-- A row that is found is cached next; `null` is returned at once. -/
def readDatabase (w : World) (i : ℕ) (l : Lookup) : Option World :=
  match l.stage with
  | .readingDatabase =>
    match w.findOne l.subdomain with
    | some row => some (w.setStage i l (.writingCache row))
    | none => some { w with lookups := w.lookups.eraseIdx i }
  | _ => none

/-- The row is cached and returned. -/
def cacheSet (w : World) (i : ℕ) (l : Lookup) : Option World :=
  match l.stage with
  | .writingCache row => some ((w.setCache l.subdomain (some row)).answer i l row)
  | _ => none

/-- A mutation commits. -/
def mutate (w : World) (company : Company) : World :=
  { w with
    companies := fun s => if s = company.subdomain then some company else w.companies s
    commits := w.commits + 1
    mutations := w.mutations ++ [⟨company.subdomain, w.commits + 1⟩] }

/-- The row is dropped and the invalidation returns. -/
def cacheDelete (w : World) (k : ℕ) (m : Mutation) : World :=
  { w.setCache m.subdomain none with
    mutations := w.mutations.eraseIdx k
    invalidated := fun s =>
      if s = m.subdomain then w.invalidated s ++ [m.number] else w.invalidated s }

/-- What an action does, when it can happen. -/
def step (w : World) : Action → Option World
  | .find subdomain =>
    some { w with
      lookups := w.lookups ++ [⟨subdomain, w.invalidated subdomain, .readingCache⟩] }
  | .cacheHit i => (w.lookups[i]?).bind (w.cacheHit i)
  | .cacheMiss i => (w.lookups[i]?).bind (w.cacheMiss i)
  | .readDatabase i => (w.lookups[i]?).bind (w.readDatabase i)
  | .cacheSet i => (w.lookups[i]?).bind (w.cacheSet i)
  | .mutate company => some (w.mutate company)
  | .cacheDelete k => (w.mutations[k]?).map (w.cacheDelete k)
  | .expire subdomain => some (w.setCache subdomain none)

end World

/-- The row was read after all of the mutations. -/
def ReadCompany.ReadAfter (row : ReadCompany) (mutations : List ℕ) : Prop :=
  ∀ n ∈ mutations, n ≤ row.readAt

/-- No lookup returns a row that was read before a mutation whose invalidation had returned
when the lookup started. -/
def World.EnforcedAtOnce (w : World) : Prop := ∀ x ∈ w.returned, x.row.ReadAfter x.invalidated

/-- Mutations are enforced at once in every run under a condition. -/
def EnforcesAtOnce (cond : World → Action → Prop) : Prop :=
  ∀ companies w, Reaches World.step cond (World.start companies) w → w.EnforcedAtOnce

/-- A row is cached only while every mutation that has been invalidated is older than it. -/
def NoLateFill (w : World) (a : Action) : Prop :=
  ∀ i l row, a = .cacheSet i → w.lookups[i]? = some l → l.stage = .writingCache row →
    row.ReadAfter (w.invalidated l.subdomain)

/-- The row that a lookup is about to cache. -/
def LookupStage.row : LookupStage → Option ReadCompany
  | .writingCache row => some row
  | .readingCache | .readingDatabase => none

instance (row : ReadCompany) (mutations : List ℕ) : Decidable (row.ReadAfter mutations) :=
  inferInstanceAs (Decidable (∀ n ∈ mutations, n ≤ row.readAt))

instance (w : World) (a : Action) : Decidable (NoLateFill w a) :=
  match a with
  | .cacheSet i =>
    decidable_of_iff (∀ l ∈ w.lookups[i]?, ∀ row ∈ l.stage.row,
        row.ReadAfter (w.invalidated l.subdomain)) <| by
      constructor
      · rintro h _ l row ⟨⟩ hl hstage
        exact h l hl row (by rw [hstage]; rfl)
      · intro h l hl row hrow
        refine h i l row rfl hl ?_
        cases hstage : l.stage with
        | writingCache _ =>
          rw [hstage] at hrow
          cases hrow
          rfl
        | readingCache | readingDatabase =>
          rw [hstage] at hrow
          cases hrow
  | .find _ | .cacheHit _ | .cacheMiss _ | .readDatabase _ | .mutate _ | .cacheDelete _
  | .expire _ => .isTrue fun _ _ _ h => nomatch h

/-- The invariant: neither the cache nor a lookup holds a row that is too old. -/
structure Current (w : World) : Prop where
  cache : ∀ s row, w.cache s = some row → row.ReadAfter (w.invalidated s)
  mutations : ∀ m ∈ w.mutations, m.number ≤ w.commits
  invalidated : ∀ s, ∀ n ∈ w.invalidated s, n ≤ w.commits
  started : ∀ l ∈ w.lookups, l.invalidated ⊆ w.invalidated l.subdomain
  writing : ∀ l ∈ w.lookups, ∀ row, l.stage = .writingCache row → row.ReadAfter l.invalidated
  returned : w.EnforcedAtOnce

/-- Nothing is too old at the start. -/
theorem current_start (companies : Subdomain → Option Company) :
    Current (World.start companies) where
  cache := fun _ _ h => nomatch h
  mutations := fun _ h => nomatch h
  invalidated := fun _ _ h => nomatch h
  started := fun _ h => nomatch h
  writing := fun _ h => nomatch h
  returned := fun _ h => nomatch h

section Steps

variable {w w' : World} {i : ℕ} {l : Lookup}

/-- A lookup that takes a cached row that is not too old returns it. -/
theorem current_answer {row : ReadCompany} (h : Current w) (hrow : row.ReadAfter l.invalidated) :
    Current (w.answer i l row) where
  cache := h.cache
  mutations := h.mutations
  invalidated := h.invalidated
  started := fun x hx => h.started x (List.mem_of_mem_eraseIdx hx)
  writing := fun x hx => h.writing x (List.mem_of_mem_eraseIdx hx)
  returned := by
    intro x hx
    rcases List.mem_append.mp hx with hx | hx
    · exact h.returned x hx
    · obtain rfl := List.mem_singleton.mp hx
      exact hrow

/-- A lookup that goes on holds at most the row it has just read. -/
theorem current_setStage {stage : LookupStage} (h : Current w) (hl : w.lookups[i]? = some l)
    (hstage : ∀ row, stage = .writingCache row → row.ReadAfter l.invalidated) :
    Current (w.setStage i l stage) where
  cache := h.cache
  mutations := h.mutations
  invalidated := h.invalidated
  started := by
    intro x hx
    rcases List.mem_or_eq_of_mem_set hx with hx | rfl
    · exact h.started x hx
    · exact h.started l (List.mem_of_getElem? hl)
  writing := by
    intro x hx row hrow
    rcases List.mem_or_eq_of_mem_set hx with hx | rfl
    · exact h.writing x hx row hrow
    · exact hstage row hrow
  returned := h.returned

/-- The cached row of a subdomain is replaced by one that is not too old, or dropped. -/
theorem current_setCache {subdomain : Subdomain} {entry : Option ReadCompany} (h : Current w)
    (hentry : ∀ row, entry = some row → row.ReadAfter (w.invalidated subdomain)) :
    Current (w.setCache subdomain entry) where
  cache := by
    intro s row hrow
    simp only [World.setCache] at hrow
    split at hrow
    · rename_i heq
      subst heq
      exact hentry row hrow
    · exact h.cache s row hrow
  mutations := h.mutations
  invalidated := h.invalidated
  started := h.started
  writing := h.writing
  returned := h.returned

/-- A row that is read now is not too old for the lookup. -/
theorem readAfter_findOne (h : Current w) (hl : w.lookups[i]? = some l) {row : ReadCompany}
    (hrow : w.findOne l.subdomain = some row) : row.ReadAfter l.invalidated := by
  obtain ⟨company, _, rfl⟩ := Option.map_eq_some_iff.mp hrow
  intro n hn
  exact h.invalidated l.subdomain n (h.started l (List.mem_of_getElem? hl) hn)

/-- A read of the database. -/
theorem current_readDatabase (h : Current w) (hl : w.lookups[i]? = some l)
    (hstep : w.readDatabase i l = some w') : Current w' := by
  unfold World.readDatabase at hstep
  split at hstep
  · split at hstep
    · rename_i row hrow
      cases hstep
      apply current_setStage h hl
      intro row' heq
      cases heq
      exact readAfter_findOne h hl hrow
    · cases hstep
      exact
        { cache := h.cache
          mutations := h.mutations
          invalidated := h.invalidated
          started := fun x hx => h.started x (List.mem_of_mem_eraseIdx hx)
          writing := fun x hx => h.writing x (List.mem_of_mem_eraseIdx hx)
          returned := h.returned }
  · cases hstep

/-- A mutation is newer than all rows that have been read. -/
theorem current_mutate {company : Company} (h : Current w) : Current (w.mutate company) where
  cache := h.cache
  mutations := by
    intro m hm
    rcases List.mem_append.mp hm with hm | hm
    · exact Nat.le_succ_of_le (h.mutations m hm)
    · obtain rfl := List.mem_singleton.mp hm
      exact Nat.le_refl _
  invalidated := fun s n hn => Nat.le_succ_of_le (h.invalidated s n hn)
  started := h.started
  writing := h.writing
  returned := h.returned

/-- An invalidation drops the row that may be older than its mutation. -/
theorem current_cacheDelete {k : ℕ} {m : Mutation} (h : Current w)
    (hm : w.mutations[k]? = some m) : Current (w.cacheDelete k m) where
  cache := by
    intro s row hrow
    simp only [World.cacheDelete, World.setCache] at hrow ⊢
    split at hrow
    · cases hrow
    · rename_i hother
      rw [if_neg hother]
      exact h.cache s row hrow
  mutations := fun x hx => h.mutations x (List.mem_of_mem_eraseIdx hx)
  invalidated := by
    intro s n hn
    simp only [World.cacheDelete] at hn
    split at hn
    · rcases List.mem_append.mp hn with hn | hn
      · exact h.invalidated s n hn
      · obtain rfl := List.mem_singleton.mp hn
        exact h.mutations m (List.mem_of_getElem? hm)
    · exact h.invalidated s n hn
  started := by
    intro x hx n hn
    have hold := h.started x hx hn
    simp only [World.cacheDelete]
    split
    · exact List.mem_append_left _ hold
    · exact hold
  writing := h.writing
  returned := h.returned

end Steps

/-- **Step lemma:** without late fills no row gets too old. -/
theorem current_of_step {w w' : World} {a : Action} (h : Current w) (hcond : NoLateFill w a)
    (hstep : w.step a = some w') : Current w' := by
  cases a with
  | find subdomain =>
    cases hstep
    exact
      { cache := h.cache
        mutations := h.mutations
        invalidated := h.invalidated
        started := by
          intro x hx
          rcases List.mem_append.mp hx with hx | hx
          · exact h.started x hx
          · obtain rfl := List.mem_singleton.mp hx
            exact List.Subset.refl _
        writing := by
          intro x hx row hrow
          rcases List.mem_append.mp hx with hx | hx
          · exact h.writing x hx row hrow
          · obtain rfl := List.mem_singleton.mp hx
            cases hrow
        returned := h.returned }
  | cacheHit i =>
    obtain ⟨l, hl, hstep⟩ := Option.bind_eq_some_iff.mp hstep
    unfold World.cacheHit at hstep
    split at hstep
    · rename_i row _ hrow
      cases hstep
      apply current_answer h
      intro n hn
      exact h.cache _ row hrow n (h.started l (List.mem_of_getElem? hl) hn)
    · cases hstep
  | cacheMiss i =>
    obtain ⟨l, hl, hstep⟩ := Option.bind_eq_some_iff.mp hstep
    unfold World.cacheMiss at hstep
    split at hstep
    · cases hstep
      exact current_setStage h hl fun row heq => nomatch heq
    · cases hstep
  | readDatabase i =>
    obtain ⟨l, hl, hstep⟩ := Option.bind_eq_some_iff.mp hstep
    exact current_readDatabase h hl hstep
  | cacheSet i =>
    obtain ⟨l, hl, hstep⟩ := Option.bind_eq_some_iff.mp hstep
    unfold World.cacheSet at hstep
    split at hstep
    · rename_i row hstage
      cases hstep
      have hfill : row.ReadAfter (w.invalidated l.subdomain) := hcond i l row rfl hl hstage
      apply current_answer
      · apply current_setCache h
        intro row' heq
        obtain rfl := Option.some.inj heq
        exact hfill
      · intro n hn
        exact hfill n (h.started l (List.mem_of_getElem? hl) hn)
    · cases hstep
  | mutate company =>
    cases hstep
    exact current_mutate h
  | cacheDelete k =>
    obtain ⟨m, hm, rfl⟩ := Option.map_eq_some_iff.mp hstep
    exact current_cacheDelete h hm
  | expire subdomain =>
    cases hstep
    exact current_setCache h fun row heq => nomatch heq

/-- **Mutations are enforced at once** in every run in which no row is cached late. -/
theorem enforcesAtOnce_of_noLateFill (companies : Subdomain → Option Company) (w : World)
    (hreach : Reaches World.step NoLateFill (World.start companies) w) : w.EnforcedAtOnce := by
  have hcurrent : Current w :=
    hreach.invariant (current_start companies) fun _ _ _ h hcond hstep =>
      current_of_step h hcond hstep
  exact hcurrent.returned

/-- An active company. -/
def school : Company := ⟨1, "colegio", "Colegio", true, .active⟩

/-- The company is found, suspended and dropped from the cache, and found again. -/
def foundAgain : List Action :=
  [.find "colegio", .cacheMiss 0, .readDatabase 0, .cacheSet 0,
    .mutate { school with status := .suspended }, .cacheDelete 0,
    .find "colegio", .cacheMiss 0, .readDatabase 0, .cacheSet 0]

/-- The second lookup returns the suspended row. -/
theorem enforcesAtOnce_of_noLateFill_foundAgain :
    (after World.step (World.start fun _ => some school) foundAgain).returned =
        [⟨[], ⟨school, 0⟩⟩, ⟨[1], ⟨{ school with status := .suspended }, 1⟩⟩] ∧
      (after World.step (World.start fun _ => some school) foundAgain).EnforcedAtOnce := by
  refine ⟨by decide +kernel, enforcesAtOnce_of_noLateFill (fun _ => some school) _ ?_⟩
  exact reaches_after_of_performs (by decide +kernel)

/-- A lookup reads the row of the company, which is then suspended and dropped from the
cache; the lookup caches the row that it has read, and the next one takes it. -/
def lateFill : List Action :=
  [.find "colegio", .cacheMiss 0, .readDatabase 0, .mutate { school with status := .suspended },
    .cacheDelete 0, .cacheSet 0, .find "colegio", .cacheHit 0]

/-- A lookup that starts after the invalidation of a suspension can return the active row. -/
theorem not_enforcesAtOnce : ¬EnforcesAtOnce fun _ _ => True := by
  intro h
  have hreach : Reaches World.step (fun _ _ => True) (World.start fun _ => some school)
      (after World.step (World.start fun _ => some school) lateFill) :=
    reaches_after (by decide +kernel) fun _ _ _ => trivial
  have henforced := h _ _ hreach
  have hreturned : (⟨[1], school, 0⟩ : Returned) ∈
      (after World.step (World.start fun _ => some school) lateFill).returned := by
    decide +kernel
  have hread := henforced _ hreturned 1 (by simp)
  cases hread

end Odiseo.Tenants
