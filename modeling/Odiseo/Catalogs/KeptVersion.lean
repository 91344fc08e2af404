import Odiseo.Catalogs.Visibility
import Mathlib.Data.List.Nodup

/-!
# Runs that keep the version

What the timestamps are for: a version is written once, and nothing is read under it before
it is written. So as long as the version in the cache is neither lost nor missed, and a
toggle returns when its own version has taken effect, every read picks a version that is
fresh for it.
-/

namespace Odiseo.Catalogs

open Database.Transition

/-- The version is neither evicted nor lost, a read finds it once there is one, and a toggle
returns when the version that it wrote has taken effect. -/
def KeepsVersion (w : World) : Action → Prop
  | .evictVersion => False
  | .versionLost _ => False
  | .versionMiss _ => w.version = none
  | .toggleReturns k => ∀ t number version, w.toggles[k]? = some t →
      t.stage = .bumping number version → version ∉ w.versionWrites
  | _ => True

/-- A toggle has returned, or the version that it wrote has taken effect. -/
def World.Settled (w : World) (number : ℕ) : Prop :=
  number ∈ w.toggled ∨
    ∃ t ∈ w.toggles, ∃ version, t.stage = .bumping number version ∧ version ∉ w.versionWrites

/-- The version is in the cache, a read has picked it, or an answer is held under it. -/
def World.Uses (w : World) (version : ℕ) : Prop :=
  w.version = some version ∨ (∃ readAt, w.Holds version readAt) ∨
    ∃ c ∈ w.calls, c.stage.version = some version

/-- The invariant: a version that is still to take effect has not been used, and under the
present one nothing is older than the toggles whose version has taken effect. -/
structure World.Kept (w : World) : Prop where
  usedBefore : ∀ version, w.Uses version → version ≤ w.lastNow
  sentBefore : ∀ version ∈ w.versionWrites, 0 < version ∧ version ≤ w.lastNow
  unused : ∀ version ∈ w.versionWrites, ¬w.Uses version
  once : w.versionWrites.Nodup
  written : ∀ number, w.Settled number →
    ∃ version, w.version = some version ∧ ∀ readAt, w.Holds version readAt → number ≤ readAt

/-- Nothing is used or settled at the start. -/
theorem World.kept_start (db : CatalogDb) : (World.start db).Kept where
  usedBefore := by
    rintro version (h | ⟨readAt, ⟨key, result, h, -⟩ | ⟨x, h, -⟩ | ⟨c, h, -⟩⟩ | ⟨c, h, -⟩) <;>
      cases h
  sentBefore := fun _ h => nomatch h
  unused := fun _ h => nomatch h
  once := List.nodup_nil
  written := by
    rintro number (h | ⟨t, h, -⟩) <;> cases h

/-- **What the actions leave alone** that write no version. -/
structure SameVersion (w w' : World) : Prop where
  version : w'.version = w.version
  versionWrites : w'.versionWrites = w.versionWrites
  lastNow : w'.lastNow = w.lastNow
  settled : ∀ number, w'.Settled number → w.Settled number
  uses : ∀ version, w'.Uses version → w.Uses version ∨ version = 0

/-- What stays as it is. -/
theorem SameVersion.refl (w : World) : SameVersion w w where
  version := rfl
  versionWrites := rfl
  lastNow := rfl
  settled := fun _ h => h
  uses := fun _ h => .inl h

/-- **Step lemma** for the actions that write no version: what is added to the cache is
computed after every toggle so far. -/
theorem World.Kept.of_sameVersion {w w' : World} (h : w.Kept) (hfresh : Fresh w)
    (hacts : Acts w w') (hsame : SameVersion w w') : w'.Kept where
  usedBefore := by
    intro version huses
    rw [hsame.lastNow]
    rcases hsame.uses version huses with hold | rfl
    · exact h.usedBefore version hold
    · exact Nat.zero_le _
  sentBefore := by
    rw [hsame.versionWrites, hsame.lastNow]
    exact h.sentBefore
  unused := by
    intro version hsent huses
    rw [hsame.versionWrites] at hsent
    rcases hsame.uses version huses with hold | rfl
    · exact h.unused version hsent hold
    · exact absurd (h.sentBefore 0 hsent).1 (Nat.lt_irrefl 0)
  once := by
    rw [hsame.versionWrites]
    exact h.once
  written := by
    intro number hsettled
    have hbefore : w.Settled number := hsame.settled number hsettled
    have hcommitted : number ≤ w.commits := by
      rcases hbefore with htoggled | ⟨t, ht, version, hstage, -⟩
      · exact hfresh.toggled number htoggled
      · exact hfresh.toggles t ht number (by rw [hstage]; rfl)
    obtain ⟨version, hversion, hafter⟩ := h.written number hbefore
    refine ⟨version, hsame.version.trans hversion, fun readAt hheld => ?_⟩
    rcases hacts.holds version readAt hheld with hold | rfl
    · exact hafter readAt hold
    · exact hcommitted

section Actions

variable {w w' : World} {i : ℕ} {c : ReadCall}

/-- A read that has its rows has picked a version. -/
theorem ReadStage.version_of_computed {stage : ReadStage} {version readAt : ℕ}
    (h : stage.computed = some (version, readAt)) : stage.version = some version := by
  cases stage <;> cases h <;> rfl

/-- The version that a call has picked is used. -/
theorem uses_of_call {version : ℕ} (hc : w.calls[i]? = some c)
    (hversion : c.stage.version = some version) : w.Uses version :=
  .inr (.inr ⟨c, List.mem_of_getElem? hc, hversion⟩)

/-- A call that goes on uses at most the version that it goes on with. -/
theorem uses_of_setStage {stage : ReadStage} {version : ℕ}
    (h : (w.setStage i c stage).Uses version) :
    w.Uses version ∨ stage.version = some version := by
  rcases h with h | ⟨readAt, h⟩ | ⟨d, hd, hversion⟩
  · exact .inl (.inl h)
  · rcases holds_of_setStage h with h | hcomputed
    · exact .inl (.inr (.inl ⟨readAt, h⟩))
    · exact .inr (ReadStage.version_of_computed hcomputed)
  · rcases List.mem_or_eq_of_mem_set hd with hd | rfl
    · exact .inl (.inr (.inr ⟨d, hd, hversion⟩))
    · exact .inr hversion

/-- A call goes on under a version that is used, or under version 0. -/
theorem sameVersion_setStage {stage : ReadStage}
    (hversion : ∀ version, stage.version = some version → w.Uses version ∨ version = 0) :
    SameVersion w (w.setStage i c stage) where
  __ := SameVersion.refl w
  uses := by
    intro version h
    rcases uses_of_setStage h with hold | hnew
    · exact .inl hold
    · exact hversion version hnew

/-- A read that returns uses nothing more. -/
theorem sameVersion_answer {result : ReadData} : SameVersion w (w.answer i c result) where
  __ := SameVersion.refl w
  uses := by
    rintro version (h | ⟨readAt, h⟩ | ⟨d, hd, hversion⟩)
    · exact .inl (.inl h)
    · exact .inl (.inr (.inl ⟨readAt, holds_of_answer h⟩))
    · exact .inl (.inr (.inr ⟨d, List.mem_of_mem_eraseIdx hd, hversion⟩))

/-- A call sends its answer to the cache under the version that it has picked. -/
theorem sameVersion_store {version : ℕ} {result : ReadData} (hc : w.calls[i]? = some c)
    (hversion : c.stage.version = some version) :
    SameVersion w (w.store i c version result) where
  __ := SameVersion.refl w
  uses := by
    have hpicked : ∀ v, v = version → w.Uses v ∨ v = 0 := by
      rintro v rfl
      exact .inl (uses_of_call hc hversion)
    rintro v (h | ⟨readAt, h | ⟨x, hx, hkey, hread⟩ | h⟩ | h)
    · exact .inl (.inl h)
    · exact .inl (.inr (.inl ⟨readAt, .inl h⟩))
    · rcases List.mem_append.mp hx with hx | hx
      · exact .inl (.inr (.inl ⟨readAt, .inr (.inl ⟨x, hx, hkey, hread⟩)⟩))
      · obtain rfl := List.mem_singleton.mp hx
        apply hpicked
        rw [← hkey]
        cases c.query <;> rfl
    all_goals
      obtain ⟨d, hd, hstage⟩ := h
      have hsame := @sameVersion_setStage w i c (.writingCache version result)
        (fun v hv => hpicked v (Option.some.inj hv).symm)
    · exact hsame.uses v (.inr (.inr ⟨d, hd, ReadStage.version_of_computed hstage⟩))
    · exact hsame.uses v (.inr (.inr ⟨d, hd, hstage⟩))

/-- A read asks for an entry, or for the rows, under the version that it has picked. -/
theorem sameVersion_readRepository (hc : w.calls[i]? = some c)
    (h : w.readRepository i c = some w') : SameVersion w w' := by
  unfold World.readRepository at h
  split at h
  · rename_i version search hstage _
    cases h
    apply sameVersion_setStage
    intro v hv
    cases hv
    exact .inl (uses_of_call hc (by rw [hstage]; rfl))
  · rename_i version courseId search hstage _
    cases h
    exact sameVersion_store hc (by rw [hstage]; rfl)
  · cases h

/-- The state of the synchronisation is read. -/
theorem sameVersion_readSyncState (hc : w.calls[i]? = some c)
    (h : w.readSyncState i c = some w') : SameVersion w w' := by
  unfold World.readSyncState at h
  split at h
  · rename_i version courses readAt hstage
    cases h
    exact sameVersion_store hc (by rw [hstage]; rfl)
  · cases h

/-- What happens to the entries uses no version. -/
theorem sameVersion_entries {cache : CacheKey → Option ReadData} {writes : List CacheWrite}
    (hholds : ∀ version readAt,
      ({ w with cache := cache, writes := writes } : World).Holds version readAt →
        w.Holds version readAt) :
    SameVersion w { w with cache := cache, writes := writes } where
  __ := SameVersion.refl w
  uses := by
    rintro version (h | ⟨readAt, h⟩ | h)
    · exact .inl (.inl h)
    · exact .inl (.inr (.inl ⟨readAt, hholds version readAt h⟩))
    · exact .inl (.inr (.inr h))

/-- A read starts without a version. -/
theorem sameVersion_read (query : Query) :
    SameVersion w { w with calls := w.calls ++ [⟨query, w.toggled, .readingVersion⟩] } where
  __ := SameVersion.refl w
  uses := by
    rintro version (h | ⟨readAt, h | h | ⟨d, hd, hcomputed⟩⟩ | ⟨d, hd, hversion⟩)
    · exact .inl (.inl h)
    · exact .inl (.inr (.inl ⟨readAt, .inl h⟩))
    · exact .inl (.inr (.inl ⟨readAt, .inr (.inl h)⟩))
    · rcases List.mem_append.mp hd with hd | hd
      · exact .inl (.inr (.inl ⟨readAt, .inr (.inr ⟨d, hd, hcomputed⟩)⟩))
      · obtain rfl := List.mem_singleton.mp hd
        cases hcomputed
    · rcases List.mem_append.mp hd with hd | hd
      · exact .inl (.inr (.inr ⟨d, hd, hversion⟩))
      · obtain rfl := List.mem_singleton.mp hd
        cases hversion

/-- A toggle is called. -/
theorem sameVersion_toggle (topicId : ℕ) (isActive : Bool) :
    SameVersion w (w.toggle topicId isActive) := by
  unfold World.toggle
  split
  · exact
      { SameVersion.refl w with
        settled := by
          rintro number (h | ⟨t, ht, version, hstage, hlanded⟩)
          · exact .inl h
          · rcases List.mem_append.mp ht with ht | ht
            · exact .inr ⟨t, ht, version, hstage, hlanded⟩
            · obtain rfl := List.mem_singleton.mp ht
              cases hstage }
  · exact SameVersion.refl w

/-- A toggle commits. -/
theorem sameVersion_commitToggle {k : ℕ} {t : Toggle} (h : w.commitToggle k t = some w') :
    SameVersion w w' := by
  unfold World.commitToggle at h
  split at h
  · cases h
    exact
      { SameVersion.refl w with
        settled := by
          rintro number (h | ⟨u, hu, version, hstage, hlanded⟩)
          · exact .inl h
          · rcases List.mem_or_eq_of_mem_set hu with hu | rfl
            · exact .inr ⟨u, hu, version, hstage, hlanded⟩
            · cases hstage }
  · cases h

/-- A toggle returns that was settled. -/
theorem sameVersion_toggleReturns {k : ℕ} {t : Toggle} (ht : w.toggles[k]? = some t)
    (hkeeps : KeepsVersion w (.toggleReturns k)) (h : w.toggleReturns k t = some w') :
    SameVersion w w' := by
  unfold World.toggleReturns at h
  split at h
  · rename_i number version hstage
    cases h
    exact
      { SameVersion.refl w with
        settled := by
          rintro n (hn | ⟨u, hu, v, hstageU, hlanded⟩)
          · rcases List.mem_append.mp hn with hn | hn
            · exact .inl hn
            · obtain rfl := List.mem_singleton.mp hn
              exact .inr ⟨t, List.mem_of_getElem? ht, version, hstage,
                hkeeps t n version ht hstage⟩
          · exact .inr ⟨u, List.mem_of_mem_eraseIdx hu, v, hstageU, hlanded⟩ }
  · cases h

/-- **Step lemma** for `bumpCacheVersion`: the new version is later than all that are used. -/
theorem World.Kept.bump {k now : ℕ} {t : Toggle} (hkept : w.Kept)
    (h : w.bump now k t = some w') : w'.Kept := by
  unfold World.bump at h
  split at h
  · rename_i number hstage
    split at h
    · rename_i hlater
      cases h
      have hsent : now ∉ w.versionWrites := by
        intro hmem
        exact absurd (hkept.sentBefore now hmem).2 (Nat.not_le_of_lt hlater)
      exact
        { usedBefore := fun version huses =>
            Nat.le_of_lt (Nat.lt_of_le_of_lt (hkept.usedBefore version huses) hlater)
          sentBefore := by
            intro version hmem
            rcases List.mem_append.mp hmem with hmem | hmem
            · obtain ⟨hpos, hbefore⟩ := hkept.sentBefore version hmem
              exact ⟨hpos, Nat.le_of_lt (Nat.lt_of_le_of_lt hbefore hlater)⟩
            · obtain rfl := List.mem_singleton.mp hmem
              exact ⟨Nat.lt_of_le_of_lt (Nat.zero_le _) hlater, Nat.le_refl _⟩
          unused := by
            intro version hmem huses
            rcases List.mem_append.mp hmem with hmem | hmem
            · exact hkept.unused version hmem huses
            · obtain rfl := List.mem_singleton.mp hmem
              exact absurd (hkept.usedBefore version huses) (Nat.not_le_of_lt hlater)
          once := by
            rw [List.nodup_append]
            refine ⟨hkept.once, List.pairwise_singleton _ now, ?_⟩
            rintro version hmem _ hnow rfl
            exact hsent (List.mem_singleton.mp hnow ▸ hmem)
          written := by
            rintro n (hn | ⟨u, hu, version, hstageU, hlanded⟩)
            · exact hkept.written n (.inl hn)
            · rcases List.mem_or_eq_of_mem_set hu with hu | rfl
              · exact hkept.written n (.inr ⟨u, hu, version, hstageU,
                  fun hmem => hlanded (List.mem_append_left _ hmem)⟩)
              · cases hstageU
                exact absurd (List.mem_append_right _ (List.mem_singleton_self _)) hlanded }
    · cases h
  · cases h

/-- **Step lemma** for a version that takes effect: nothing has been held under it. -/
theorem World.Kept.versionLands {j version : ℕ} (hkept : w.Kept)
    (hversion : w.versionWrites[j]? = some version) :
    ({ w with version := some version, versionWrites := w.versionWrites.eraseIdx j } :
      World).Kept where
  usedBefore := by
    rintro v (h | h)
    · cases h
      exact (hkept.sentBefore version (List.mem_of_getElem? hversion)).2
    · exact hkept.usedBefore v (.inr h)
  sentBefore := fun v hv => hkept.sentBefore v (List.mem_of_mem_eraseIdx hv)
  unused := by
    rintro v hv (h | h)
    · cases h
      obtain ⟨hj, rfl⟩ := List.getElem?_eq_some_iff.mp hversion
      rw [← List.Nodup.erase_getElem hkept.once j hj] at hv
      exact List.Nodup.not_mem_erase hkept.once hv
    · exact hkept.unused v (List.mem_of_mem_eraseIdx hv) (.inr h)
  once := hkept.once.eraseIdx j
  written := by
    intro number _
    refine ⟨version, rfl, fun readAt hheld => ?_⟩
    exact absurd (.inr (.inl ⟨readAt, hheld⟩))
      (hkept.unused version (List.mem_of_getElem? hversion))

end Actions

/-- **Step lemma:** every action that keeps the version keeps the invariant. -/
theorem World.Kept.step {w w' : World} {a : Action} (h : w.Kept) (hfresh : Fresh w)
    (hacts : Acts w w') (hkeeps : KeepsVersion w a) (hstep : w.step a = some w') : w'.Kept := by
  cases a with
  | read query =>
    cases hstep
    exact h.of_sameVersion hfresh hacts (sameVersion_read query)
  | versionHit i =>
    obtain ⟨c, hc, hstep⟩ := Option.bind_eq_some_iff.mp hstep
    unfold World.versionHit at hstep
    split at hstep
    · rename_i version _ hversion
      cases hstep
      refine h.of_sameVersion hfresh hacts (sameVersion_setStage fun v hv => ?_)
      cases hv
      exact .inl (.inl hversion)
    · cases hstep
  | versionMiss i =>
    obtain ⟨c, hc, hstep⟩ := Option.bind_eq_some_iff.mp hstep
    unfold World.versionMiss at hstep
    split at hstep
    · cases hstep
      refine h.of_sameVersion hfresh hacts (sameVersion_setStage fun v hv => ?_)
      cases hv
      exact .inr rfl
    · cases hstep
  | cacheHit i =>
    obtain ⟨c, hc, hstep⟩ := Option.bind_eq_some_iff.mp hstep
    unfold World.cacheHit at hstep
    split at hstep
    · obtain ⟨result, _, rfl⟩ := Option.map_eq_some_iff.mp hstep
      exact h.of_sameVersion hfresh hacts sameVersion_answer
    · cases hstep
  | cacheMiss i =>
    obtain ⟨c, hc, hstep⟩ := Option.bind_eq_some_iff.mp hstep
    unfold World.cacheMiss at hstep
    split at hstep
    · rename_i version hstage
      cases hstep
      refine h.of_sameVersion hfresh hacts (sameVersion_setStage fun v hv => ?_)
      cases hv
      exact .inl (uses_of_call hc (by rw [hstage]; rfl))
    · cases hstep
  | readRepository i =>
    obtain ⟨c, hc, hstep⟩ := Option.bind_eq_some_iff.mp hstep
    exact h.of_sameVersion hfresh hacts (sameVersion_readRepository hc hstep)
  | readSyncState i =>
    obtain ⟨c, hc, hstep⟩ := Option.bind_eq_some_iff.mp hstep
    exact h.of_sameVersion hfresh hacts (sameVersion_readSyncState hc hstep)
  | finish i =>
    obtain ⟨c, hc, hstep⟩ := Option.bind_eq_some_iff.mp hstep
    unfold World.finish at hstep
    split at hstep
    · cases hstep
      exact h.of_sameVersion hfresh hacts sameVersion_answer
    · cases hstep
  | writeLands j =>
    obtain ⟨x, hx, rfl⟩ := Option.map_eq_some_iff.mp hstep
    exact h.of_sameVersion hfresh hacts (sameVersion_entries fun _ _ => holds_of_writeLands hx)
  | writeLost j =>
    cases hstep
    exact h.of_sameVersion hfresh hacts (sameVersion_entries fun _ _ => holds_of_writeLost)
  | evict key =>
    cases hstep
    exact h.of_sameVersion hfresh hacts (sameVersion_entries fun _ _ => holds_of_evict)
  | evictVersion => exact hkeeps.elim
  | toggle topicId isActive =>
    cases hstep
    exact h.of_sameVersion hfresh hacts (sameVersion_toggle topicId isActive)
  | commitToggle k =>
    obtain ⟨t, _, hstep⟩ := Option.bind_eq_some_iff.mp hstep
    exact h.of_sameVersion hfresh hacts (sameVersion_commitToggle hstep)
  | bump k now =>
    obtain ⟨t, _, hstep⟩ := Option.bind_eq_some_iff.mp hstep
    exact h.bump hstep
  | toggleReturns k =>
    obtain ⟨t, ht, hstep⟩ := Option.bind_eq_some_iff.mp hstep
    exact h.of_sameVersion hfresh hacts (sameVersion_toggleReturns ht hkeeps hstep)
  | versionLands j =>
    obtain ⟨version, hversion, rfl⟩ := Option.map_eq_some_iff.mp hstep
    exact h.versionLands hversion
  | versionLost j => exact hkeeps.elim

/-- Where the version is kept, a read picks one that is fresh for it: the one that the last
toggle wrote, or 0 before any toggle has returned. -/
theorem World.Kept.freshVersion {w : World} {a : Action} (h : w.Kept) (hfresh : Fresh w)
    (hkeeps : KeepsVersion w a) : FreshVersion w a := by
  intro i c version hpicks hc readAt hheld n hn
  have hsettled : w.Settled n :=
    .inl (hfresh.started c (List.mem_of_getElem? hc) hn)
  obtain ⟨current, hcurrent, hafter⟩ := h.written n hsettled
  rcases hpicks with ⟨rfl, hversion⟩ | ⟨rfl, rfl⟩
  · obtain rfl := Option.some.inj (hversion.symm.trans hcurrent)
    exact hafter readAt hheld
  · have hnone : w.version = none := hkeeps
    rw [hnone] at hcurrent
    cases hcurrent

/-- **Runs that never lose or miss the version** meet the condition of fresh reads. -/
theorem reaches_freshVersion {db : CatalogDb} {w : World}
    (hreach : Reaches World.step KeepsVersion (World.start db) w) :
    Reaches World.step FreshVersion (World.start db) w := by
  have hstart : Fresh (World.start db) ∧ (World.start db).Kept :=
    ⟨fresh_start db, World.kept_start db⟩
  have hstep : ∀ v a v', Fresh v ∧ v.Kept → KeepsVersion v a → v.step a = some v' →
      Fresh v' ∧ v'.Kept := by
    rintro v a v' ⟨hfresh, hkept⟩ hkeeps hperform
    have hacts : Acts v v' := acts_of_step (hkept.freshVersion hfresh hkeeps) hperform
    exact ⟨fresh_of_acts hfresh hacts, hkept.step hfresh hacts hkeeps hperform⟩
  exact hreach.mono_of_invariant hstart hstep fun v a hinv hkeeps =>
    hinv.2.freshVersion hinv.1 hkeeps

end Odiseo.Catalogs
