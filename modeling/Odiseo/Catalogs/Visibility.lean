import Odiseo.Catalogs.UseCase

/-!
# Reads after a visibility toggle

A toggle retires every entry by a new version of the key space. An entry that is older
than a toggle can only be read under the version that it was written under, and this is
possible again when the version is lost: a read without a version uses version 0, which
holds the entries of the reads before the first toggle and of all others that found no
version. So reads are fresh as long as none picks the version of an entry that is too old
for it.
-/

namespace Odiseo.Catalogs

open Database.Transition

/-- An answer that was computed after `readAt` toggles is stored, or on its way, under a
version. -/
def World.Holds (w : World) (version readAt : ℕ) : Prop :=
  (∃ key result, w.cache key = some result ∧ key.version = version ∧ result.readAt = readAt) ∨
    (∃ x ∈ w.writes, x.key.version = version ∧ x.result.readAt = readAt) ∨
    ∃ c ∈ w.calls, c.stage.computed = some (version, readAt)

/-- No answer under a version was computed before one of the toggles. -/
def World.HoldsAfter (w : World) (version : ℕ) (toggled : List ℕ) : Prop :=
  ∀ readAt, w.Holds version readAt → ∀ n ∈ toggled, n ≤ readAt

/-- No read returns an answer that was computed before a toggle that had returned when the
read started. -/
def World.ShowsToggles (w : World) : Prop :=
  ∀ x ∈ w.returned, ∀ n ∈ x.toggled, n ≤ x.result.readAt

/-- Reads show the toggles before them in every run under a condition. -/
def NoStaleReads (cond : World → Action → Prop) : Prop :=
  ∀ db w, Reaches World.step cond (World.start db) w → w.ShowsToggles

/-- The action picks a version for a call: the one in the cache, or 0 without an answer. -/
def World.Picks (w : World) (a : Action) (i version : ℕ) : Prop :=
  a = .versionHit i ∧ w.version = some version ∨ a = .versionMiss i ∧ version = 0

/-- A read picks only a version under which nothing is older than the toggles that had
returned when it started. -/
def FreshVersion (w : World) (a : Action) : Prop :=
  ∀ i c version, w.Picks a i version → w.calls[i]? = some c → w.HoldsAfter version c.toggled

/-- **What an action can do** to each part of the world. -/
structure Acts (w w' : World) : Prop where
  commits : w.commits ≤ w'.commits
  toggles : ∀ t ∈ w'.toggles, ∀ n, t.stage.number = some n →
    n = w'.commits ∨ ∃ u ∈ w.toggles, u.stage.number = some n
  toggled : ∀ n ∈ w'.toggled, n ∈ w.toggled ∨ ∃ u ∈ w.toggles, u.stage.number = some n
  kept : w.toggled ⊆ w'.toggled
  calls : ∀ c ∈ w'.calls, c.toggled = w.toggled ∧ c.stage.version = none ∨
    ∃ d ∈ w.calls, c.toggled = d.toggled ∧ ∀ version, c.stage.version = some version →
      d.stage.version = some version ∨ w.HoldsAfter version c.toggled
  holds : ∀ version readAt, w'.Holds version readAt →
    w.Holds version readAt ∨ readAt = w.commits
  returned : ∀ x ∈ w'.returned, x ∈ w.returned ∨ ∃ c ∈ w.calls, x.toggled = c.toggled ∧
    ∃ version, c.stage.version = some version ∧ w.Holds version x.result.readAt

/-- What stays as it is. -/
theorem Acts.refl (w : World) : Acts w w where
  commits := Nat.le_refl _
  toggles := fun t ht _ hn => .inr ⟨t, ht, hn⟩
  toggled := fun _ hn => .inl hn
  kept := List.Subset.refl _
  calls := fun c hc => .inr ⟨c, hc, rfl, fun _ hv => .inl hv⟩
  holds := fun _ _ h => .inl h
  returned := fun _ hx => .inl hx

section Actions

variable {w w' : World} {i : ℕ} {c : ReadCall}

/-- A call that returns leaves the others. -/
theorem holds_of_answer {result : ReadData} {version readAt : ℕ}
    (h : (w.answer i c result).Holds version readAt) : w.Holds version readAt := by
  rcases h with h | h | ⟨d, hd, hcomputed⟩
  · exact .inl h
  · exact .inr (.inl h)
  · exact .inr (.inr ⟨d, List.mem_of_mem_eraseIdx hd, hcomputed⟩)

/-- A read that returns an answer which is held under its version. -/
theorem acts_answer {result : ReadData} {version : ℕ} (hc : w.calls[i]? = some c)
    (hversion : c.stage.version = some version) (hheld : w.Holds version result.readAt) :
    Acts w (w.answer i c result) where
  __ := Acts.refl w
  calls := fun d hd => .inr ⟨d, List.mem_of_mem_eraseIdx hd, rfl, fun _ hv => .inl hv⟩
  holds := fun _ _ h => .inl (holds_of_answer h)
  returned := by
    intro x hx
    rcases List.mem_append.mp hx with hx | hx
    · exact .inl hx
    · obtain rfl := List.mem_singleton.mp hx
      exact .inr ⟨c, List.mem_of_getElem? hc, rfl, version, hversion, hheld⟩

/-- A call goes on under a version that it had already, or that it may pick. -/
theorem calls_setStage {stage : ReadStage} (hc : w.calls[i]? = some c)
    (hversion : ∀ version, stage.version = some version →
      c.stage.version = some version ∨ w.HoldsAfter version c.toggled) :
    ∀ d ∈ (w.setStage i c stage).calls, d.toggled = w.toggled ∧ d.stage.version = none ∨
      ∃ e ∈ w.calls, d.toggled = e.toggled ∧ ∀ version, d.stage.version = some version →
        e.stage.version = some version ∨ w.HoldsAfter version d.toggled := by
  intro d hd
  rcases List.mem_or_eq_of_mem_set hd with hd | rfl
  · exact .inr ⟨d, hd, rfl, fun _ hv => .inl hv⟩
  · exact .inr ⟨c, List.mem_of_getElem? hc, rfl, hversion⟩

/-- A call that goes on holds at most what it has just computed. -/
theorem holds_of_setStage {stage : ReadStage} {version readAt : ℕ}
    (h : (w.setStage i c stage).Holds version readAt) :
    w.Holds version readAt ∨ stage.computed = some (version, readAt) := by
  rcases h with h | h | ⟨d, hd, hcomputed⟩
  · exact .inl (.inl h)
  · exact .inl (.inr (.inl h))
  · rcases List.mem_or_eq_of_mem_set hd with hd | rfl
    · exact .inl (.inr (.inr ⟨d, hd, hcomputed⟩))
    · exact .inr hcomputed

/-- A call goes on without an answer. -/
theorem acts_setStage {stage : ReadStage} (hc : w.calls[i]? = some c)
    (hversion : ∀ version, stage.version = some version →
      c.stage.version = some version ∨ w.HoldsAfter version c.toggled)
    (hcomputed : ∀ version readAt, stage.computed = some (version, readAt) →
      readAt = w.commits) : Acts w (w.setStage i c stage) where
  __ := Acts.refl w
  calls := calls_setStage hc hversion
  holds := by
    intro version readAt h
    rcases holds_of_setStage h with h | h
    · exact .inl h
    · exact .inr (hcomputed version readAt h)

/-- A call sends an answer to the cache that it has just computed, or held before. -/
theorem acts_store {version : ℕ} {result : ReadData} (hc : w.calls[i]? = some c)
    (hversion : c.stage.version = some version)
    (hresult : result.readAt = w.commits ∨ w.Holds version result.readAt) :
    Acts w (w.store i c version result) where
  __ := Acts.refl w
  calls := by
    apply calls_setStage hc
    intro v hv
    cases hv
    exact .inl hversion
  holds := by
    intro v readAt h
    have hnew : v = version ∧ readAt = result.readAt →
        w.Holds v readAt ∨ readAt = w.commits := by
      rintro ⟨rfl, rfl⟩
      exact hresult.symm
    rcases h with h | ⟨x, hx, hkey, hread⟩ | ⟨d, hd, hcomputed⟩
    · exact .inl (.inl h)
    · rcases List.mem_append.mp hx with hx | hx
      · exact .inl (.inr (.inl ⟨x, hx, hkey, hread⟩))
      · obtain rfl := List.mem_singleton.mp hx
        apply hnew
        constructor
        · rw [← hkey]
          cases c.query <;> rfl
        · exact hread.symm
    · rcases List.mem_or_eq_of_mem_set hd with hd | rfl
      · exact .inl (.inr (.inr ⟨d, hd, hcomputed⟩))
      · obtain ⟨rfl, rfl⟩ := Prod.mk.inj (Option.some.inj hcomputed)
        exact hnew ⟨rfl, rfl⟩

/-- What a call has computed is held under its version. -/
theorem holds_of_call {version readAt : ℕ} (hc : w.calls[i]? = some c)
    (hcomputed : c.stage.computed = some (version, readAt)) : w.Holds version readAt :=
  .inr (.inr ⟨c, List.mem_of_getElem? hc, hcomputed⟩)

/-- The cache answers with an entry. -/
theorem acts_cacheHit (hc : w.calls[i]? = some c) (h : w.cacheHit i c = some w') :
    Acts w w' := by
  unfold World.cacheHit at h
  split at h
  · rename_i version hstage
    obtain ⟨result, hentry, rfl⟩ := Option.map_eq_some_iff.mp h
    apply acts_answer hc
    · rw [hstage]
      rfl
    · refine .inl ⟨_, result, hentry, ?_, rfl⟩
      cases c.query <;> rfl
  · cases h

/-- The repository answers. -/
theorem acts_readRepository (hc : w.calls[i]? = some c) (h : w.readRepository i c = some w') :
    Acts w w' := by
  unfold World.readRepository at h
  split at h
  · rename_i version search hstage _
    cases h
    apply acts_setStage hc
    · intro v hv
      cases hv
      rw [hstage]
      exact .inl rfl
    · intro v readAt hcomputed
      cases hcomputed
      rfl
  · rename_i version courseId search hstage _
    cases h
    apply acts_store hc
    · rw [hstage]
      rfl
    · exact .inl rfl
  · cases h

/-- The state of the synchronisation is read. -/
theorem acts_readSyncState (hc : w.calls[i]? = some c) (h : w.readSyncState i c = some w') :
    Acts w w' := by
  unfold World.readSyncState at h
  split at h
  · rename_i version courses readAt hstage
    cases h
    apply acts_store hc
    · rw [hstage]
      rfl
    · right
      apply holds_of_call hc
      rw [hstage]
      rfl
  · cases h

/-- A read returns what it has read. -/
theorem acts_finish (hc : w.calls[i]? = some c) (h : w.finish i c = some w') : Acts w w' := by
  unfold World.finish at h
  split at h
  · rename_i version result hstage
    cases h
    apply acts_answer hc
    · rw [hstage]
      rfl
    · apply holds_of_call hc
      rw [hstage]
      rfl
  · cases h

/-- A write that takes effect puts its answer under its key. -/
theorem holds_of_writeLands {j : ℕ} {x : CacheWrite} (hx : w.writes[j]? = some x)
    {version readAt : ℕ} (h : (w.writeLands j x).Holds version readAt) :
    w.Holds version readAt := by
  rcases h with ⟨key, result, hentry, hkey, hread⟩ | ⟨y, hy, hkey, hread⟩ | h
  · simp only [World.writeLands] at hentry
    split at hentry
    · rename_i heq
      cases hentry
      subst heq
      exact .inr (.inl ⟨x, List.mem_of_getElem? hx, hkey, hread⟩)
    · exact .inl ⟨key, result, hentry, hkey, hread⟩
  · exact .inr (.inl ⟨y, List.mem_of_mem_eraseIdx hy, hkey, hread⟩)
  · exact .inr (.inr h)

/-- A step of a toggle changes the number of commits and the toggles only. -/
theorem acts_commitToggle {k : ℕ} {t : Toggle} (h : w.commitToggle k t = some w') :
    Acts w w' := by
  unfold World.commitToggle at h
  split at h
  · cases h
    exact
      { Acts.refl w with
        commits := Nat.le_succ _
        toggles := by
          intro u hu n hn
          rcases List.mem_or_eq_of_mem_set hu with hu | rfl
          · exact .inr ⟨u, hu, hn⟩
          · cases hn
            exact .inl rfl }
  · cases h

/-- A toggle writes its version. -/
theorem acts_bump {k now : ℕ} {t : Toggle} (ht : w.toggles[k]? = some t)
    (h : w.bump now k t = some w') : Acts w w' := by
  unfold World.bump at h
  split at h
  · rename_i number hstage
    split at h
    · cases h
      exact
        { Acts.refl w with
          toggles := by
            intro u hu n hn
            rcases List.mem_or_eq_of_mem_set hu with hu | rfl
            · exact .inr ⟨u, hu, hn⟩
            · cases hn
              refine .inr ⟨t, List.mem_of_getElem? ht, ?_⟩
              rw [hstage]
              rfl }
    · cases h
  · cases h

/-- A toggle returns. -/
theorem acts_toggleReturns {k : ℕ} {t : Toggle} (ht : w.toggles[k]? = some t)
    (h : w.toggleReturns k t = some w') : Acts w w' := by
  unfold World.toggleReturns at h
  split at h
  · rename_i number _ hstage
    cases h
    exact
      { Acts.refl w with
        toggles := fun u hu n hn => .inr ⟨u, List.mem_of_mem_eraseIdx hu, hn⟩
        toggled := by
          intro n hn
          rcases List.mem_append.mp hn with hn | hn
          · exact .inl hn
          · obtain rfl := List.mem_singleton.mp hn
            refine .inr ⟨t, List.mem_of_getElem? ht, ?_⟩
            rw [hstage]
            rfl
        kept := List.subset_append_left _ _ }
  · cases h

/-- A toggle is called. -/
theorem acts_toggle (topicId : ℕ) (isActive : Bool) : Acts w (w.toggle topicId isActive) := by
  unfold World.toggle
  split
  · exact
      { Acts.refl w with
        toggles := by
          intro u hu n hn
          rcases List.mem_append.mp hu with hu | hu
          · exact .inr ⟨u, hu, hn⟩
          · obtain rfl := List.mem_singleton.mp hu
            cases hn }
  · exact { Acts.refl w with }

/-- What is held without an entry was held with it. -/
theorem holds_of_evict {key : CacheKey} {version readAt : ℕ}
    (h : ({ w with cache := fun k => if k = key then none else w.cache k } : World).Holds
      version readAt) : w.Holds version readAt := by
  rcases h with ⟨k, result, hentry, hkey, hread⟩ | h
  · dsimp only at hentry
    split at hentry
    · cases hentry
    · exact .inl ⟨k, result, hentry, hkey, hread⟩
  · exact .inr h

/-- A write that is lost adds nothing. -/
theorem holds_of_writeLost {j version readAt : ℕ}
    (h : ({ w with writes := w.writes.eraseIdx j } : World).Holds version readAt) :
    w.Holds version readAt := by
  rcases h with h | ⟨y, hy, hkey, hread⟩ | h
  · exact .inl h
  · exact .inr (.inl ⟨y, List.mem_of_mem_eraseIdx hy, hkey, hread⟩)
  · exact .inr (.inr h)

/-- What happens to the entries adds no answer and leaves the calls. -/
theorem acts_entries {cache : CacheKey → Option ReadData} {writes : List CacheWrite}
    (hholds : ∀ version readAt,
      ({ w with cache := cache, writes := writes } : World).Holds version readAt →
        w.Holds version readAt) : Acts w { w with cache := cache, writes := writes } where
  __ := Acts.refl w
  holds := fun version readAt h => .inl (hholds version readAt h)

/-- A read starts. -/
theorem acts_read (query : Query) :
    Acts w { w with calls := w.calls ++ [⟨query, w.toggled, .readingVersion⟩] } where
  __ := Acts.refl w
  calls := by
    intro d hd
    rcases List.mem_append.mp hd with hd | hd
    · exact .inr ⟨d, hd, rfl, fun _ hv => .inl hv⟩
    · obtain rfl := List.mem_singleton.mp hd
      exact .inl ⟨rfl, rfl⟩
  holds := by
    rintro version readAt (h | h | ⟨d, hd, hcomputed⟩)
    · exact .inl (.inl h)
    · exact .inl (.inr (.inl h))
    · rcases List.mem_append.mp hd with hd | hd
      · exact .inl (.inr (.inr ⟨d, hd, hcomputed⟩))
      · obtain rfl := List.mem_singleton.mp hd
        cases hcomputed

/-- A read picks a version that is fresh for it. -/
theorem acts_pick {a : Action} (hcond : FreshVersion w a) {version : ℕ}
    (hpicks : w.Picks a i version) (hc : w.calls[i]? = some c) :
    Acts w (w.setStage i c (.readingCache version)) := by
  apply acts_setStage hc
  · intro v hv
    cases hv
    exact .inr (hcond i c version hpicks hc)
  · intro v readAt hcomputed
    cases hcomputed

end Actions

/-- Every action does only what `Acts` lists. -/
theorem acts_of_step {w w' : World} {a : Action} (hcond : FreshVersion w a)
    (hstep : w.step a = some w') : Acts w w' := by
  cases a with
  | read query =>
    cases hstep
    exact acts_read query
  | versionHit i =>
    obtain ⟨c, hc, hstep⟩ := Option.bind_eq_some_iff.mp hstep
    unfold World.versionHit at hstep
    split at hstep
    · rename_i version _ hversion
      cases hstep
      exact acts_pick hcond (.inl ⟨rfl, hversion⟩) hc
    · cases hstep
  | versionMiss i =>
    obtain ⟨c, hc, hstep⟩ := Option.bind_eq_some_iff.mp hstep
    unfold World.versionMiss at hstep
    split at hstep
    · cases hstep
      exact acts_pick hcond (.inr ⟨rfl, rfl⟩) hc
    · cases hstep
  | cacheHit i =>
    obtain ⟨c, hc, hstep⟩ := Option.bind_eq_some_iff.mp hstep
    exact acts_cacheHit hc hstep
  | cacheMiss i =>
    obtain ⟨c, hc, hstep⟩ := Option.bind_eq_some_iff.mp hstep
    unfold World.cacheMiss at hstep
    split at hstep
    · rename_i version hstage
      cases hstep
      apply acts_setStage hc
      · intro v hv
        cases hv
        rw [hstage]
        exact .inl rfl
      · intro v readAt hcomputed
        cases hcomputed
    · cases hstep
  | readRepository i =>
    obtain ⟨c, hc, hstep⟩ := Option.bind_eq_some_iff.mp hstep
    exact acts_readRepository hc hstep
  | readSyncState i =>
    obtain ⟨c, hc, hstep⟩ := Option.bind_eq_some_iff.mp hstep
    exact acts_readSyncState hc hstep
  | finish i =>
    obtain ⟨c, hc, hstep⟩ := Option.bind_eq_some_iff.mp hstep
    exact acts_finish hc hstep
  | writeLands j =>
    obtain ⟨x, hx, rfl⟩ := Option.map_eq_some_iff.mp hstep
    exact acts_entries fun _ _ => holds_of_writeLands hx
  | writeLost j =>
    cases hstep
    exact acts_entries fun _ _ => holds_of_writeLost
  | evict key =>
    cases hstep
    exact acts_entries fun _ _ => holds_of_evict
  | evictVersion =>
    cases hstep
    exact { Acts.refl w with }
  | toggle topicId isActive =>
    cases hstep
    exact acts_toggle topicId isActive
  | commitToggle k =>
    obtain ⟨t, _, hstep⟩ := Option.bind_eq_some_iff.mp hstep
    exact acts_commitToggle hstep
  | bump k now =>
    obtain ⟨t, ht, hstep⟩ := Option.bind_eq_some_iff.mp hstep
    exact acts_bump ht hstep
  | toggleReturns k =>
    obtain ⟨t, ht, hstep⟩ := Option.bind_eq_some_iff.mp hstep
    exact acts_toggleReturns ht hstep
  | versionLands j =>
    obtain ⟨version, _, rfl⟩ := Option.map_eq_some_iff.mp hstep
    exact { Acts.refl w with }
  | versionLost j =>
    cases hstep
    exact { Acts.refl w with }

/-- The invariant: under the version that a read has picked nothing is older than the toggles
that had returned when it started. -/
structure Fresh (w : World) : Prop where
  toggles : ∀ t ∈ w.toggles, ∀ n, t.stage.number = some n → n ≤ w.commits
  toggled : ∀ n ∈ w.toggled, n ≤ w.commits
  started : ∀ c ∈ w.calls, c.toggled ⊆ w.toggled
  picked : ∀ c ∈ w.calls, ∀ version, c.stage.version = some version →
    w.HoldsAfter version c.toggled
  returned : w.ShowsToggles

/-- Nothing is stored at the start. -/
theorem fresh_start (db : CatalogDb) : Fresh (World.start db) where
  toggles := fun _ h => nomatch h
  toggled := fun _ h => nomatch h
  started := fun _ h => nomatch h
  picked := fun _ h => nomatch h
  returned := fun _ h => nomatch h

/-- **Step lemma:** what is added under a version is computed from the present database. -/
theorem fresh_of_acts {w w' : World} (h : Fresh w) (hacts : Acts w w') : Fresh w' where
  toggles := by
    intro t ht n hn
    rcases hacts.toggles t ht n hn with rfl | ⟨u, hu, hnumber⟩
    · exact Nat.le_refl _
    · exact Nat.le_trans (h.toggles u hu n hnumber) hacts.commits
  toggled := by
    intro n hn
    rcases hacts.toggled n hn with hold | ⟨u, hu, hnumber⟩
    · exact Nat.le_trans (h.toggled n hold) hacts.commits
    · exact Nat.le_trans (h.toggles u hu n hnumber) hacts.commits
  started := by
    intro c hc
    rcases hacts.calls c hc with ⟨heq, _⟩ | ⟨d, hd, heq, _⟩
    · rw [heq]
      exact hacts.kept
    · rw [heq]
      exact List.Subset.trans (h.started d hd) hacts.kept
  picked := by
    intro c hc version hversion readAt hheld n hn
    rcases hacts.calls c hc with ⟨_, hnone⟩ | ⟨d, hd, heq, hpicked⟩
    · rw [hnone] at hversion
      cases hversion
    · have hstarted : n ∈ w.toggled := h.started d hd (heq ▸ hn)
      rcases hacts.holds version readAt hheld with hold | rfl
      · rcases hpicked version hversion with hsame | hafter
        · exact h.picked d hd version hsame readAt hold n (heq ▸ hn)
        · exact hafter readAt hold n hn
      · exact h.toggled n hstarted
  returned := by
    intro x hx n hn
    rcases hacts.returned x hx with hold | ⟨c, hc, heq, version, hversion, hheld⟩
    · exact h.returned x hold n hn
    · exact h.picked c hc version hversion _ hheld n (heq ▸ hn)

/-- **No stale reads** in any run in which every read picks a version that is fresh for it. -/
theorem noStaleReads_of_freshVersion (db : CatalogDb) (w : World)
    (hreach : Reaches World.step FreshVersion (World.start db) w) : w.ShowsToggles := by
  have hfresh : Fresh w :=
    hreach.invariant (fresh_start db) fun _ _ _ h hcond hstep =>
      fresh_of_acts h (acts_of_step hcond hstep)
  exact hfresh.returned

/-- A catalog with one topic. -/
def algebra : CatalogDb where
  courses := [⟨10, "Álgebra"⟩]
  topics := [⟨100, 10, "Ecuaciones", []⟩]
  visibility := []
  syncState := none

/-- The courses are read, a topic is hidden, and another read starts. The entry of the first one
is still on its way to the cache. -/
def hidingWorld : World :=
  after World.step (World.start algebra)
    [.read (.courses none), .versionMiss 0, .cacheMiss 0, .readRepository 0, .readSyncState 0,
      .finish 0, .toggle 100 false, .commitToggle 0, .bump 0 5, .versionLands 0,
      .toggleReturns 0, .read (.courses none)]

/-- The second read has picked the new version. -/
def pickedWorld : World := after World.step hidingWorld [.versionHit 0]

/-- The second read has returned. -/
def hiddenWorld : World :=
  after World.step pickedWorld
    [.writeLands 0, .cacheMiss 0, .readRepository 0, .readSyncState 0, .finish 0]

/-- Nothing is stored or under way under the version that the second read picks. -/
theorem freshVersion_hidingWorld : FreshVersion hidingWorld (.versionHit 0) := by
  rintro i c version (⟨_, hversion⟩ | ⟨hother, _⟩) _ readAt hholds
  · have hfive : version = 5 := by
      have hcurrent : hidingWorld.version = some 5 := by decide +kernel
      exact Option.some.inj (hversion.symm.trans hcurrent)
    subst hfive
    rcases hholds with ⟨key, result, hcached, -⟩ | ⟨x, hx, hfive, -⟩ | ⟨d, hd, hcomputed⟩
    · cases hcached
    · have hwrites : ∀ x ∈ hidingWorld.writes, x.key.version ≠ 5 := by decide +kernel
      exact absurd hfive (hwrites x hx)
    · have hcalls : ∀ d ∈ hidingWorld.calls, d.stage.computed = none := by decide +kernel
      rw [hcalls d hd] at hcomputed
      cases hcomputed
  · cases hother

/-- The second read shows the topic as it is after the toggle. -/
theorem noStaleReads_of_freshVersion_hiddenWorld :
    hiddenWorld.returned.map (fun x => (x.toggled, x.result.readAt)) = [([], 0), ([1], 1)] ∧
      hiddenWorld.ShowsToggles := by
  refine ⟨by decide +kernel, noStaleReads_of_freshVersion algebra _ ?_⟩
  -- no toggle has returned before any of the first picks
  have hearly : Reaches World.step (fun w _ => ∀ c ∈ w.calls, c.toggled = [])
      (World.start algebra) hidingWorld := reaches_after_of_performs (by decide +kernel)
  have hhiding : Reaches World.step FreshVersion (World.start algebra) hidingWorld := by
    refine hearly.mono fun w a hcalls i c version _ hc readAt _ n hn => ?_
    rw [hcalls c (List.mem_of_getElem? hc)] at hn
    cases hn
  have hpicked : Reaches World.step FreshVersion (World.start algebra) pickedWorld :=
    hhiding.tail ⟨.versionHit 0, freshVersion_hidingWorld, rfl⟩
  refine hpicked.trans (reaches_after (by decide +kernel) fun w a ha => ?_)
  intro i c version hpicks
  rcases hpicks with ⟨rfl, _⟩ | ⟨rfl, _⟩
  · simp at ha
  · simp at ha

/-- The courses are read before there is a version; a topic is hidden; the version is
evicted; and the courses are read again. -/
def lostVersion : List Action :=
  [.read (.courses none), .versionMiss 0, .cacheMiss 0, .readRepository 0, .readSyncState 0,
    .writeLands 0, .finish 0, .toggle 100 false, .commitToggle 0, .bump 0 5, .versionLands 0,
    .toggleReturns 0, .evictVersion, .read (.courses none), .versionMiss 0, .cacheHit 0]

/-- Without its version the cache serves the courses as they were before the toggle. -/
theorem not_noStaleReads : ¬NoStaleReads fun _ _ => True := by
  intro h
  have hreach : Reaches World.step (fun _ _ => True) (World.start algebra)
      (after World.step (World.start algebra) lostVersion) :=
    reaches_after (by decide +kernel) fun _ _ _ => trivial
  have hshows := h _ _ hreach
  have hreturned : ∃ x ∈ (after World.step (World.start algebra) lostVersion).returned,
      x.toggled = [1] ∧ x.result.readAt = 0 := by decide +kernel
  obtain ⟨x, hx, htoggled, hread⟩ := hreturned
  have hlate := hshows x hx 1 (by simp [htoggled])
  omega

end Odiseo.Catalogs
