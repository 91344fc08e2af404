import Odiseo.Auth.Service

/-!
# Bounded staleness, and revocations out of order

Every state that `getUserAuthState` returns was read from the database at most the
lifetime of a shared entry and one write delay ago, whatever faults the caches have.
So a revocation reaches every process within that bound, as long as it is still in the
database: an update that was stamped earlier but commits later puts the older stamp
back, and tokens that had been revoked become valid again.
-/

namespace Odiseo.Auth

open Database.Transition

/-- The state consists of permissions and a user that the database held at two instants
between `first` and `last`. -/
def ReadBetween (w : World) (first last : ℕ) (state : CachedAuthState) : Prop :=
  ∃ m₁ ∈ w.moments, ∃ m₂ ∈ w.moments, first ≤ m₁.1 ∧ m₁.1 ≤ last ∧ first ≤ m₂.1 ∧ m₂.1 ≤ last ∧
    state = authState m₁.2.permissions m₂.2.user

/-- What was read before a step stays read. -/
theorem ReadBetween.mono {w w' : World} (hsub : w.moments ⊆ w'.moments) {first last last' : ℕ}
    (hlast : last ≤ last') {state : CachedAuthState} (h : ReadBetween w first last state) :
    ReadBetween w' first last' state := by
  obtain ⟨m₁, hm₁, m₂, hm₂, h₁, h₁', h₂, h₂', hstate⟩ := h
  exact ⟨m₁, hsub hm₁, m₂, hsub hm₂, h₁, by omega, h₂, by omega, hstate⟩

/-- The action is one of `getUserAuthState` and `revokeUserTokens`, the caches or the clock. -/
def Action.Own (a : Action) : Prop := ∀ permissions flag, a ≠ .otherWrite permissions flag

instance (a : Action) : Decidable a.Own :=
  match a with
  | .otherWrite permissions flag => .isFalse fun h => h permissions flag rfl
  | .pass _ | .request _ | .cacheHit _ | .cacheMiss _ | .readPermissions _ | .readUser _
  | .readFails _ | .finish _ | .cacheWriteLands _ | .cacheWriteLost _ | .sharedEvicted
  | .localEvicted _ | .revoke _ | .revocationCommits _ | .revocationFails _ | .invalidate _
  | .cacheDelete _ _ => .isTrue nofun

/-- **What an action can do** to each part of the world. -/
structure Acts (delay : ℕ) (w : World) (a : Action) (w' : World) : Prop where
  now : w.now ≤ w'.now
  moments : w'.moments = w.moments
  reading : ∀ c ∈ w'.calls, ∀ permissions readAt, c.stage = .readingUser permissions readAt →
    c ∈ w.calls ∨ permissions = w.db.permissions ∧ readAt = w.now
  writing : ∀ c ∈ w'.calls, ∀ state readAt, c.stage = .writingCache state readAt →
    c ∈ w.calls ∨ ∃ d ∈ w.calls, ∃ permissions, d.stage = .readingUser permissions readAt ∧
      state = authState permissions w.db.user
  writes : ∀ x ∈ w'.writes, x ∈ w.writes ∨ ∃ d ∈ w.calls, ∃ permissions,
    d.stage = .readingUser permissions x.readAt ∧ x.state = authState permissions w.db.user
  shared : ∀ e, w'.shared = some e → w.shared = some e ∨ ∃ x ∈ w.writes,
    w.now ≤ x.readAt + delay ∧ e = ⟨x.state, w.now + sharedTtl⟩
  localEntry : ∀ p e, w'.localAuthStateCache p = some e → w.localAuthStateCache p = some e ∨
    ∃ c ∈ w.calls, ∃ state readAt, c.stage = .writingCache state readAt ∧
      w.now ≤ readAt + delay ∧ e = ⟨state, w.now + localCacheTtl⟩
  returned : ∀ x ∈ w'.returned, x ∈ w.returned ∨ x.1 = w.now ∧
    ((∃ e, w.shared = some e ∧ w.now ≤ e.expiresAt ∧ x.2 = e.state) ∨
      (∃ p e, w.localAuthStateCache p = some e ∧ w.now ≤ e.expiresAt ∧ x.2 = e.state) ∨
      ∃ c ∈ w.calls, ∃ readAt, c.stage = .writingCache x.2 readAt ∧ w.now ≤ readAt + delay)
  row : w'.db = w.db ∧ w'.revoked = w.revoked ∨ ¬a.Own ∨ ∃ k, a = .revocationCommits k

/-- What stays as it is. -/
theorem Acts.refl (delay : ℕ) (w : World) (a : Action) : Acts delay w a w where
  now := Nat.le_refl _
  moments := rfl
  reading := fun _ hc _ _ _ => .inl hc
  writing := fun _ hc _ _ _ => .inl hc
  writes := fun _ hx => .inl hx
  shared := fun _ he => .inl he
  localEntry := fun _ _ he => .inl he
  returned := fun _ hx => .inl hx
  row := .inl ⟨rfl, rfl⟩

section Actions

variable {delay : ℕ} {w w' : World} {a : Action}

/-- The stage of another call is an old one. -/
theorem mem_setStage {i : ℕ} {process : ProcessId} {stage : Stage} {c : AuthCall}
    (hc : c ∈ (w.setStage i process stage).calls) : c ∈ w.calls ∨ c.stage = stage := by
  rcases List.mem_or_eq_of_mem_set hc with hc | rfl
  · exact .inl hc
  · exact .inr rfl

/-- A call at another stage than the new one is an old one. -/
theorem mem_calls_of_stage {calls calls' : List AuthCall} {stage stage' : Stage}
    (hcalls : ∀ c ∈ calls', c ∈ calls ∨ c.stage = stage) (hne : stage ≠ stage') {c : AuthCall}
    (hc : c ∈ calls') (hstage : c.stage = stage') : c ∈ calls :=
  (hcalls c hc).resolve_right fun heq => hne (heq.symm.trans hstage)

/-- Only the map of one process changes. -/
theorem setLocal_eq_some {process p : ProcessId} {entry : Option Entry} {e : Entry}
    (h : (w.setLocal process entry).localAuthStateCache p = some e) :
    w.localAuthStateCache p = some e ∨ entry = some e := by
  simp only [World.setLocal] at h
  split at h
  · exact .inr h
  · exact .inl h

/-- An entry that is left after one was taken out was there. -/
theorem of_setLocal_none {process p : ProcessId} {e : Entry}
    (h : (w.setLocal process none).localAuthStateCache p = some e) :
    w.localAuthStateCache p = some e :=
  (setLocal_eq_some h).resolve_right (by simp)

/-- A call that returns adds its state to those returned. -/
theorem mem_returned_answer {i : ℕ} {state : CachedAuthState} {x : ℕ × CachedAuthState}
    (hx : x ∈ (w.answer i state).returned) : x ∈ w.returned ∨ x = (w.now, state) := by
  rcases List.mem_append.mp hx with hx | hx
  · exact .inl hx
  · exact .inr (List.mem_singleton.mp hx)

/-- The shared cache answers. -/
theorem acts_cacheHit {i : ℕ} (h : w.cacheHit i = some w') : Acts delay w a w' := by
  unfold World.cacheHit at h
  split at h
  · rename_i process entry hcall hshared
    split at h
    · rename_i hlive
      cases h
      exact
        { Acts.refl delay w _ with
          reading := fun c hc _ _ _ => .inl (List.mem_of_mem_eraseIdx hc)
          writing := fun c hc _ _ _ => .inl (List.mem_of_mem_eraseIdx hc)
          returned := by
            intro x hx
            rcases mem_returned_answer hx with hx | rfl
            · exact .inl hx
            · exact .inr ⟨rfl, .inl ⟨entry, hshared, hlive, rfl⟩⟩ }
    · cases h
  · cases h

/-- The map of the process answers, or the database has to. -/
theorem acts_cacheMiss {i : ℕ} (h : w.cacheMiss i = some w') : Acts delay w a w' := by
  unfold World.cacheMiss at h
  split at h
  · rename_i process hcall
    split at h
    · rename_i state hlocal
      cases h
      exact
        { Acts.refl delay w _ with
          reading := fun c hc _ _ _ => .inl (List.mem_of_mem_eraseIdx hc)
          writing := fun c hc _ _ _ => .inl (List.mem_of_mem_eraseIdx hc)
          returned := by
            intro x hx
            rcases mem_returned_answer hx with hx | rfl
            · exact .inl hx
            · right
              cases hentry : w.localAuthStateCache process with
              | none =>
                rw [hentry] at hlocal
                cases hlocal
              | some e =>
                simp only [hentry, getLocalAuthState] at hlocal
                split at hlocal
                · cases hlocal
                · rename_i hlive
                  have hlive : w.now ≤ e.expiresAt := Nat.le_of_lt (Nat.lt_of_not_le hlive)
                  cases hlocal
                  exact ⟨rfl, .inr (.inl ⟨process, e, hentry, hlive, rfl⟩)⟩ }
    · cases h
      exact
        { Acts.refl delay w _ with
          reading := fun c hc _ _ hstage =>
            .inl (mem_calls_of_stage (fun _ => mem_setStage) (by simp) hc hstage)
          writing := fun c hc _ _ hstage =>
            .inl (mem_calls_of_stage (fun _ => mem_setStage) (by simp) hc hstage)
          localEntry := fun p e he => .inl (of_setLocal_none he) }
  · cases h

/-- The permissions are read. -/
theorem acts_readPermissions {i : ℕ} (h : w.readPermissions i = some w') : Acts delay w a w' := by
  unfold World.readPermissions at h
  split at h
  · cases h
    exact
      { Acts.refl delay w _ with
        reading := by
          intro c hc permissions readAt hstage
          rcases mem_setStage hc with hc | heq
          · exact .inl hc
          · rw [heq] at hstage
            cases hstage
            exact .inr ⟨rfl, rfl⟩
        writing := fun c hc _ _ hstage =>
          .inl (mem_calls_of_stage (fun _ => mem_setStage) (by simp) hc hstage) }
  · cases h

/-- The user is read, and the write to the shared cache is sent. -/
theorem acts_readUser {i : ℕ} (h : w.readUser i = some w') : Acts delay w a w' := by
  unfold World.readUser at h
  split at h
  · rename_i process permissions readAt hcall
    have hmem := List.mem_of_getElem? hcall
    cases h
    exact
      { Acts.refl delay w _ with
        reading := fun c hc _ _ hstage =>
          .inl (mem_calls_of_stage (fun _ => mem_setStage) (by simp) hc hstage)
        writing := by
          intro c hc state r hstage
          rcases mem_setStage hc with hc | heq
          · exact .inl hc
          · rw [heq] at hstage
            cases hstage
            exact .inr ⟨_, hmem, permissions, rfl, rfl⟩
        writes := by
          intro x hx
          rcases List.mem_append.mp hx with hx | hx
          · exact .inl hx
          · obtain rfl := List.mem_singleton.mp hx
            exact .inr ⟨_, hmem, permissions, rfl, rfl⟩ }
  · cases h

/-- The state goes into the map of the process and is returned. -/
theorem acts_finish {i : ℕ} (h : w.finish delay i = some w') : Acts delay w a w' := by
  unfold World.finish at h
  split at h
  · rename_i process state readAt hcall
    have hmem := List.mem_of_getElem? hcall
    split at h
    · rename_i hdelay
      cases h
      exact
        { Acts.refl delay w _ with
          reading := fun c hc _ _ _ => .inl (List.mem_of_mem_eraseIdx hc)
          writing := fun c hc _ _ _ => .inl (List.mem_of_mem_eraseIdx hc)
          localEntry := by
            intro p e he
            rcases setLocal_eq_some he with hold | hnew
            · exact .inl hold
            · exact .inr ⟨_, hmem, state, readAt, rfl, hdelay, (Option.some.inj hnew).symm⟩
          returned := by
            intro x hx
            rcases mem_returned_answer hx with hx | rfl
            · exact .inl hx
            · exact .inr ⟨rfl, .inr (.inr ⟨_, hmem, readAt, rfl, hdelay⟩)⟩ }
    · cases h
  · cases h

/-- A write to the shared cache takes effect. -/
theorem acts_cacheWriteLands {j : ℕ} (h : w.cacheWriteLands delay j = some w') :
    Acts delay w a w' := by
  unfold World.cacheWriteLands at h
  split at h
  · rename_i state readAt hwrite
    split at h
    · rename_i hdelay
      cases h
      exact
        { Acts.refl delay w _ with
          writes := fun x hx => .inl (List.mem_of_mem_eraseIdx hx)
          shared := fun e he => .inr ⟨_, List.mem_of_getElem? hwrite, hdelay,
            (Option.some.inj he).symm⟩ }
    · cases h
  · cases h

/-- Every action does no more than that. -/
theorem acts_of_act (h : w.act delay a = some w') : Acts delay w a w' := by
  cases a with
  | pass duration =>
    cases h
    exact { Acts.refl delay w _ with now := Nat.le_add_right _ _ }
  | otherWrite permissions forcePasswordReset =>
    cases h
    exact
      { Acts.refl delay w (.otherWrite permissions forcePasswordReset) with
        row := .inr (.inl fun hown => hown _ _ rfl) }
  | request process =>
    cases h
    have hnew : ∀ c ∈ w.calls ++ [⟨process, .readingCache⟩], c ∈ w.calls ∨
        c.stage = .readingCache := by
      intro c hc
      rcases List.mem_append.mp hc with hc | hc
      · exact .inl hc
      · obtain rfl := List.mem_singleton.mp hc
        exact .inr rfl
    exact
      { Acts.refl delay w _ with
        reading := fun c hc _ _ hstage => .inl (mem_calls_of_stage hnew (by simp) hc hstage)
        writing := fun c hc _ _ hstage => .inl (mem_calls_of_stage hnew (by simp) hc hstage) }
  | cacheHit i => exact acts_cacheHit h
  | cacheMiss i => exact acts_cacheMiss h
  | readPermissions i => exact acts_readPermissions h
  | readUser i => exact acts_readUser h
  | readFails i =>
    simp only [World.act, World.readFails] at h
    split at h
    · cases h
      exact
        { Acts.refl delay w _ with
          reading := fun c hc _ _ _ => .inl (List.mem_of_mem_eraseIdx hc)
          writing := fun c hc _ _ _ => .inl (List.mem_of_mem_eraseIdx hc) }
    · cases h
      exact
        { Acts.refl delay w _ with
          reading := fun c hc _ _ _ => .inl (List.mem_of_mem_eraseIdx hc)
          writing := fun c hc _ _ _ => .inl (List.mem_of_mem_eraseIdx hc) }
    · cases h
  | finish i => exact acts_finish h
  | cacheWriteLands j => exact acts_cacheWriteLands h
  | cacheWriteLost j =>
    cases h
    exact { Acts.refl delay w _ with writes := fun x hx => .inl (List.mem_of_mem_eraseIdx hx) }
  | sharedEvicted =>
    cases h
    exact { Acts.refl delay w _ with shared := fun e he => nomatch he }
  | localEvicted process =>
    cases h
    exact
      { Acts.refl delay w _ with
        localEntry := fun p e he => .inl (of_setLocal_none he) }
  | revoke process =>
    cases h
    exact { Acts.refl delay w _ with }
  | revocationCommits k =>
    simp only [World.act, World.revocationCommits] at h
    split at h
    · cases h
      exact
        { Acts.refl delay w (.revocationCommits k) with row := .inr (.inr ⟨k, rfl⟩) }
    · cases h
  | revocationFails k =>
    simp only [World.act, World.revocationFails] at h
    split at h
    · cases h
      exact { Acts.refl delay w _ with }
    · cases h
  | invalidate k =>
    simp only [World.act, World.invalidate] at h
    split at h
    · cases h
      exact
        { Acts.refl delay w _ with
          localEntry := fun p e he => .inl (of_setLocal_none he) }
    · cases h
  | cacheDelete k takesEffect =>
    simp only [World.act, World.cacheDelete] at h
    split at h
    · cases h
      exact
        { Acts.refl delay w _ with
          shared := by
            intro e he
            dsimp only at he
            split at he
            · cases he
            · exact .inl he }
    · cases h

end Actions

/-- The invariant of the three tiers: each state in them was read from the database, and
each entry expires soon enough after that. -/
structure Fresh (delay : ℕ) (w : World) : Prop where
  current : (w.now, w.db) ∈ w.moments
  reading : ∀ c ∈ w.calls, ∀ permissions readAt, c.stage = .readingUser permissions readAt →
    ∃ m ∈ w.moments, readAt ≤ m.1 ∧ m.1 ≤ w.now ∧ permissions = m.2.permissions
  writing : ∀ c ∈ w.calls, ∀ state readAt, c.stage = .writingCache state readAt →
    ReadBetween w readAt w.now state
  writes : ∀ x ∈ w.writes, ReadBetween w x.readAt w.now x.state
  shared : ∀ e, w.shared = some e → ∃ readAt, ReadBetween w readAt w.now e.state ∧
    e.expiresAt ≤ readAt + delay + sharedTtl
  localEntry : ∀ p e, w.localAuthStateCache p = some e → ∃ readAt,
    ReadBetween w readAt w.now e.state ∧ e.expiresAt ≤ readAt + delay + localCacheTtl
  returned : ∀ x ∈ w.returned, ∃ readAt, ReadBetween w readAt x.1 x.2 ∧
    x.1 ≤ readAt + delay + sharedTtl

/-- The start is fresh. -/
theorem fresh_start (delay : ℕ) (now : ℕ) (db : AuthRows) :
    Fresh delay (World.start now db) where
  current := List.mem_singleton_self _
  reading := fun _ hc => nomatch hc
  writing := fun _ hc => nomatch hc
  writes := fun _ hx => nomatch hx
  shared := fun _ he => nomatch he
  localEntry := fun _ _ he => nomatch he
  returned := fun _ hx => nomatch hx

/-- The state that a call builds from its two reads. -/
theorem readBetween_of_reading {delay : ℕ} {w : World} (h : Fresh delay w) {d : AuthCall}
    (hd : d ∈ w.calls) {permissions : List String} {readAt : ℕ}
    (hstage : d.stage = .readingUser permissions readAt) :
    ReadBetween w readAt w.now (authState permissions w.db.user) := by
  obtain ⟨m, hm, hfirst, hlast, rfl⟩ := h.reading d hd _ _ hstage
  exact ⟨m, hm, _, h.current, hfirst, hlast, by omega, Nat.le_refl _, rfl⟩

/-- **Step lemma:** a step keeps the tiers fresh. -/
theorem fresh_of_step {delay : ℕ} {w w' : World} {a : Action} (h : Fresh delay w)
    (hstep : w.step delay a = some w') : Fresh delay w' := by
  obtain ⟨v, hact, rfl⟩ := Option.map_eq_some_iff.mp hstep
  have hacts := acts_of_act hact
  have hnow := hacts.now
  have hsub : w.moments ⊆ v.moments ++ [(v.now, v.db)] := by
    rw [hacts.moments]
    exact List.subset_append_left _ _
  have hlocalTtl : localCacheTtl ≤ sharedTtl := by decide
  exact
    { current := List.mem_append_right _ (List.mem_singleton_self _)
      reading := by
        intro c hc permissions readAt hstage
        rcases hacts.reading c hc _ _ hstage with hold | ⟨rfl, rfl⟩
        · obtain ⟨m, hm, hfirst, hlast, heq⟩ := h.reading c hold _ _ hstage
          exact ⟨m, hsub hm, hfirst, Nat.le_trans hlast hnow, heq⟩
        · exact ⟨_, hsub h.current, Nat.le_refl _, hnow, rfl⟩
      writing := by
        intro c hc state readAt hstage
        rcases hacts.writing c hc _ _ hstage with hold | ⟨d, hd, permissions, hd', rfl⟩
        · exact (h.writing c hold _ _ hstage).mono hsub hnow
        · exact (readBetween_of_reading h hd hd').mono hsub hnow
      writes := by
        intro x hx
        rcases hacts.writes x hx with hold | ⟨d, hd, permissions, hd', hstate⟩
        · exact (h.writes x hold).mono hsub hnow
        · rw [hstate]
          exact (readBetween_of_reading h hd hd').mono hsub hnow
      shared := by
        intro e he
        rcases hacts.shared e he with hold | ⟨x, hx, hdelay, rfl⟩
        · obtain ⟨readAt, hread, hexpires⟩ := h.shared e hold
          exact ⟨readAt, hread.mono hsub hnow, hexpires⟩
        · exact ⟨x.readAt, (h.writes x hx).mono hsub hnow, Nat.add_le_add_right hdelay _⟩
      localEntry := by
        intro p e he
        rcases hacts.localEntry p e he with hold | ⟨c, hc, state, readAt, hstage, hdelay, rfl⟩
        · obtain ⟨readAt, hread, hexpires⟩ := h.localEntry p e hold
          exact ⟨readAt, hread.mono hsub hnow, hexpires⟩
        · exact ⟨readAt, (h.writing c hc _ _ hstage).mono hsub hnow,
            Nat.add_le_add_right hdelay _⟩
      returned := by
        intro x hx
        rcases hacts.returned x hx with hold | ⟨hwhen, hfrom⟩
        · obtain ⟨readAt, hread, hage⟩ := h.returned x hold
          exact ⟨readAt, hread.mono hsub (Nat.le_refl _), hage⟩
        · rw [hwhen]
          rcases hfrom with ⟨e, he, hlive, hstate⟩ | ⟨p, e, he, hlive, hstate⟩ |
            ⟨c, hc, readAt, hstage, hdelay⟩
          · obtain ⟨readAt, hread, hexpires⟩ := h.shared e he
            rw [hstate]
            exact ⟨readAt, hread.mono hsub (Nat.le_refl _), by omega⟩
          · obtain ⟨readAt, hread, hexpires⟩ := h.localEntry p e he
            rw [hstate]
            exact ⟨readAt, hread.mono hsub (Nat.le_refl _), by omega⟩
          · exact ⟨readAt, (h.writing c hc _ _ hstage).mono hsub (Nat.le_refl _), by omega⟩ }

/-- **Staleness is bounded for permissions and user alike**, whatever else writes to the
database: both were held by it within the lifetime of a shared entry and one write delay. -/
theorem readBetween_of_returned {delay : ℕ} {now : ℕ} {db : AuthRows} {w : World}
    (hreach : Reaches (World.step delay) (fun _ _ => True) (World.start now db) w)
    {x : ℕ × CachedAuthState} (hx : x ∈ w.returned) :
    ∃ readAt, ReadBetween w readAt x.1 x.2 ∧ x.1 ≤ readAt + delay + sharedTtl := by
  have hfresh : Fresh delay w :=
    hreach.invariant (fresh_start delay now db) fun _ _ _ h _ hstep => fresh_of_step h hstep
  exact hfresh.returned x hx

/-- The row of the user carries a stamp that is not of an earlier second. -/
def Stamped (stamp : ℕ) (db : AuthRows) : Prop :=
  ∃ user v, db.user = some user ∧ user.tokensValidAfter = some v ∧ stamp / 1000 ≤ v / 1000

/-- Every state that was returned is that of the database at an instant at most `bound` ago. -/
def World.Bounded (bound : ℕ) (w : World) : Prop :=
  ∀ x ∈ w.returned, ∃ m ∈ w.moments, m.1 ≤ x.1 ∧ x.1 ≤ m.1 + bound ∧ x.2 = m.2.state

/-- From `bound` after a revocation on, the guard rejects the tokens issued in a second
before it. -/
def World.Revoking (bound : ℕ) (w : World) : Prop :=
  ∀ x ∈ w.revoked, ∀ y ∈ w.returned, x.2 + bound < y.1 →
    ∀ iat, iat < x.1 / 1000 → rejects y.2 iat = true

/-- The authorization state has bounded staleness, and revocations take effect within the
bound, in every run under a condition. `delay` bounds the time from a read of the database
to the effect of the writes to the caches. -/
def BoundedStaleness (cond : World → Action → Prop) : Prop :=
  ∀ (delay now : ℕ) (db : AuthRows) (w : World),
    Reaches (World.step delay) (fun w a => a.Own ∧ cond w a) (World.start now db) w →
    w.Bounded (sharedTtl + delay) ∧ w.Revoking (sharedTtl + delay)

/-- A revocation commits only a stamp whose second is not before that of the stamp in the
row. -/
def InOrder (w : World) (a : Action) : Prop :=
  ∀ k process stamp user v, a = .revocationCommits k →
    w.revocations[k]? = some ⟨process, .stamped stamp⟩ → w.db.user = some user →
    user.tokensValidAfter = some v → v / 1000 ≤ stamp / 1000

/-- The stamp of an update that is under way. -/
def RevocationStage.stamp : RevocationStage → Option ℕ
  | .stamped stamp => some stamp
  | .committed | .deleting => none

instance (w : World) (a : Action) : Decidable (InOrder w a) :=
  match a with
  | .revocationCommits k =>
    decidable_of_iff (∀ r ∈ w.revocations[k]?, ∀ stamp ∈ r.stage.stamp, ∀ user ∈ w.db.user,
        ∀ v ∈ user.tokensValidAfter, v / 1000 ≤ stamp / 1000) <| by
      constructor
      · rintro h _ process stamp user v ⟨⟩ hr huser hv
        exact h _ hr stamp rfl user huser v hv
      · rintro h ⟨process, stage⟩ hr stamp hstamp user huser v hv
        refine h k process stamp user v rfl ?_ huser hv
        cases stage with
        | stamped _ =>
          cases hstamp
          exact hr
        | committed | deleting => cases hstamp
  | .pass _ | .otherWrite _ _ | .request _ | .cacheHit _ | .cacheMiss _ | .readPermissions _
  | .readUser _ | .readFails _ | .finish _ | .cacheWriteLands _ | .cacheWriteLost _
  | .sharedEvicted | .localEvicted _ | .revoke _ | .revocationFails _ | .invalidate _
  | .cacheDelete _ _ => .isTrue fun _ _ _ _ _ h => nomatch h

/-- What an action in order does to the row and to the revocations. -/
structure ActsOnRow (w w' : World) : Prop where
  kept : ∀ stamp, Stamped stamp w.db → Stamped stamp w'.db
  revoked : ∀ x ∈ w'.revoked, x ∈ w.revoked ∨ x.2 = w.now ∧ Stamped x.1 w'.db

/-- Only revocations change the stamp, and in order they do not move it back. -/
theorem actsOnRow_of_act {delay : ℕ} {w w' : World} {a : Action} (hown : a.Own)
    (hcond : InOrder w a) (h : w.act delay a = some w') : ActsOnRow w w' := by
  rcases (acts_of_act h).row with ⟨hdb, hrevoked⟩ | hother | ⟨k, rfl⟩
  · exact ⟨fun _ hkept => hdb ▸ hkept, fun _ hx => .inl (hrevoked ▸ hx)⟩
  · exact absurd hown hother
  · simp only [World.act, World.revocationCommits] at h
    split at h
    · rename_i process stamp hrevocation
      cases h
      refine ⟨?_, ?_⟩
      · rintro old ⟨user, v, huser, hv, hold⟩
        have horder := hcond k process stamp user v rfl hrevocation huser hv
        refine ⟨{ user with tokensValidAfter := some stamp }, stamp, ?_, rfl, by omega⟩
        simp [huser]
      · intro x hx
        dsimp only at hx
        split at hx
        · rename_i hsome
          rcases List.mem_append.mp hx with hx | hx
          · exact .inl hx
          · obtain rfl := List.mem_singleton.mp hx
            obtain ⟨user, huser⟩ := Option.isSome_iff_exists.mp hsome
            refine .inr ⟨rfl, { user with tokensValidAfter := some stamp }, stamp, ?_, rfl, by omega⟩
            simp [huser]
        · exact .inl hx
    · cases h

/-- The invariant of revocations in order: from the commit on, the row carries no stamp of
an earlier second. -/
structure Kept (db₀ : AuthRows) (w : World) : Prop where
  permissions : w.db.permissions = db₀.permissions ∧
    ∀ m ∈ w.moments, m.2.permissions = db₀.permissions
  revoked : ∀ x ∈ w.revoked, x.2 ≤ w.now ∧ Stamped x.1 w.db ∧
    ∀ m ∈ w.moments, x.2 < m.1 → Stamped x.1 m.2
  past : ∀ m ∈ w.moments, m.1 ≤ w.now

/-- No action of its own changes the permissions. -/
theorem permissions_of_act {delay : ℕ} {w w' : World} {a : Action} (hown : a.Own)
    (h : w.act delay a = some w') : w'.db.permissions = w.db.permissions := by
  rcases (acts_of_act h).row with ⟨hdb, _⟩ | hother | ⟨k, rfl⟩
  · rw [hdb]
  · exact absurd hown hother
  · simp only [World.act, World.revocationCommits] at h
    split at h
    · cases h
      rfl
    · cases h

/-- **Step lemma:** revocations in order stay in the row. -/
theorem kept_of_step {delay : ℕ} {db₀ : AuthRows} {w w' : World} {a : Action} (hown : a.Own)
    (hcond : InOrder w a) (h : Kept db₀ w) (hstep : w.step delay a = some w') : Kept db₀ w' := by
  obtain ⟨v, hact, rfl⟩ := Option.map_eq_some_iff.mp hstep
  have hacts := acts_of_act hact
  have hrow := actsOnRow_of_act hown hcond hact
  have hperms := permissions_of_act hown hact
  have hnow := hacts.now
  have hmoments : ∀ m ∈ v.moments ++ [(v.now, v.db)], m ∈ w.moments ∨ m = (v.now, v.db) := by
    intro m hm
    rw [hacts.moments] at hm
    rcases List.mem_append.mp hm with hm | hm
    · exact .inl hm
    · exact .inr (List.mem_singleton.mp hm)
  refine ⟨⟨hperms.trans h.permissions.1, fun m hm => ?_⟩, fun x hx => ?_, fun m hm => ?_⟩
  · rcases hmoments m hm with hold | rfl
    · exact h.permissions.2 m hold
    · exact hperms.trans h.permissions.1
  · have hstamped : x.2 ≤ w.now ∧ Stamped x.1 v.db ∧
        ∀ m ∈ w.moments, x.2 < m.1 → Stamped x.1 m.2 := by
      rcases hrow.revoked x hx with hold | ⟨hwhen, hnew⟩
      · obtain ⟨hpast, hcurrent, hlater⟩ := h.revoked x hold
        exact ⟨hpast, hrow.kept _ hcurrent, hlater⟩
      · refine ⟨Nat.le_of_eq hwhen, hnew, fun m hm hlater => ?_⟩
        have hm := h.past m hm
        omega
    refine ⟨Nat.le_trans hstamped.1 hnow, hstamped.2.1, fun m hm hlater => ?_⟩
    rcases hmoments m hm with hold | rfl
    · exact hstamped.2.2 m hold hlater
    · exact hstamped.2.1
  · rcases hmoments m hm with hold | rfl
    · exact Nat.le_trans (h.past m hold) hnow
    · exact Nat.le_refl _

/-- **Bounded staleness** holds in every run in which revocations commit in order. -/
theorem boundedStaleness_of_inOrder (delay now : ℕ) (db : AuthRows) (w : World)
    (hreach : Reaches (World.step delay) (fun w a => a.Own ∧ InOrder w a) (World.start now db) w) :
    w.Bounded (sharedTtl + delay) ∧ w.Revoking (sharedTtl + delay) := by
  have hfresh : Fresh delay w :=
    hreach.invariant (fresh_start delay now db) fun _ _ _ h _ hstep => fresh_of_step h hstep
  have hkept : Kept db w := by
    refine hreach.invariant ?_ fun _ _ _ h hcond hstep => kept_of_step hcond.1 hcond.2 h hstep
    refine ⟨⟨rfl, fun m hm => ?_⟩, (fun _ hx => nomatch hx), fun m hm => ?_⟩
    · obtain rfl := List.mem_singleton.mp hm
      rfl
    · obtain rfl := List.mem_singleton.mp hm
      exact Nat.le_refl _
  refine ⟨fun x hx => ?_, fun x hx y hy hlate iat hiat => ?_⟩
  · obtain ⟨readAt, ⟨m₁, hm₁, m₂, hm₂, _, _, hfirst, hlast, hstate⟩, hage⟩ := hfresh.returned x hx
    refine ⟨m₂, hm₂, hlast, by omega, ?_⟩
    rw [hstate, hkept.permissions.2 m₁ hm₁, ← hkept.permissions.2 m₂ hm₂]
    rfl
  · obtain ⟨readAt, ⟨m₁, hm₁, m₂, hm₂, _, _, hfirst, hlast, hstate⟩, hage⟩ := hfresh.returned y hy
    obtain ⟨user, v, huser, hv, hsecond⟩ := (hkept.revoked x hx).2.2 m₂ hm₂ (by omega)
    rw [hstate]
    simp only [rejects, authState, huser, Option.bind_some, hv, decide_eq_true_eq]
    omega

/-- The database of a user who has never been revoked. -/
def member : AuthRows := ⟨["VIEW_MATERIALS"], some ⟨false, none⟩⟩

/-- A user is revoked and revoked again. When the write delay and the lifetime of an entry have
passed, a request is answered. -/
def revokedTwice : List Action :=
  [.revoke 0, .revocationCommits 0, .pass 2000, .revoke 1, .revocationCommits 1, .pass 70000,
    .request 0, .cacheMiss 0, .readPermissions 0, .readUser 0, .finish 0]

/-- The request is answered with the second stamp. -/
theorem boundedStaleness_of_inOrder_revokedTwice :
    (after (World.step 1000) (World.start 10500 member) revokedTwice).returned =
        [(82500, ⟨["VIEW_MATERIALS"], false, some 12500⟩)] ∧
      (after (World.step 1000) (World.start 10500 member) revokedTwice).Bounded 61000 ∧
      (after (World.step 1000) (World.start 10500 member) revokedTwice).Revoking 61000 := by
  refine ⟨by decide +kernel, boundedStaleness_of_inOrder 1000 10500 member _ ?_⟩
  exact reaches_after_of_performs (by decide +kernel)

/-- A user whom two processes revoke: the first revocation is stamped in second 10, the
second one is stamped and commits in second 12, and then the first one commits. -/
def overtaken : List Action :=
  [.revoke 0, .pass 2000, .revoke 1, .revocationCommits 1, .revocationCommits 0, .pass 70000,
    .request 0, .cacheMiss 0, .readPermissions 0, .readUser 0, .finish 0]

/-- A revocation can be undone: an update that was stamped earlier commits later, and a
token issued between the two stamps stays valid. -/
theorem not_boundedStaleness : ¬BoundedStaleness fun _ _ => True := by
  intro h
  have hreach : Reaches (World.step 1000) (fun w a => a.Own ∧ True) (World.start 10500 member)
      (after (World.step 1000) (World.start 10500 member) overtaken) := by
    refine reaches_after (by decide +kernel) fun w a ha => ⟨fun permissions flag heq => ?_, trivial⟩
    subst heq
    simp [overtaken] at ha
  obtain ⟨_, hrevoking⟩ := h 1000 10500 member _ hreach
  have hrevoked : (12500, 12500) ∈
      (after (World.step 1000) (World.start 10500 member) overtaken).revoked := by decide +kernel
  have hreturned : (82500, (⟨["VIEW_MATERIALS"], false, some 10500⟩ : CachedAuthState)) ∈
      (after (World.step 1000) (World.start 10500 member) overtaken).returned := by decide +kernel
  have hrejects := hrevoking _ hrevoked _ hreturned (by decide) 11 (by decide)
  cases hrejects

end Odiseo.Auth
