import Odiseo.Materials.ReviewAgreement

/-!
# The version of a request

Drafts and approvals are accepted only while the row has the version that they carry.
While every write of a request counts its version up, at most one of the calls that carry
a version commits, and a call that is rejected leaves nothing behind. A review read that
saves a stale version breaks both: the version goes down, and comes back a second time.
-/

namespace Odiseo.Materials

open Database Database.Protocol

/-- `dto.version` of a draft or an approval of request `r`. -/
def UseCase.version (r : RequestId) : UseCase → Option ℕ
  | .saveDraft id dto => if id = r then some dto.version else none
  | .approve id dto _ => if id = r then some dto.version else none
  | _ => none

/-- The row of request `r` is as it was, or its version has been counted up. -/
def VersionGrows (r : RequestId) (a b : Db) : Prop :=
  b.requests.find r = a.requests.find r ∨ ∃ q q', a.requests.find r = some q ∧
    b.requests.find r = some q' ∧ q.version < q'.version

/-- What optimistic versioning promises of request `r` in a state of a run whose steps meet
a condition. -/
structure LosesNoCuration (orm : Orm) (cond : State → Event UseCase → Prop) (r : RequestId)
    (s : State) : Prop where
  /-- A commit that changes the row counts its version up. -/
  grows : ∀ e s', Machine.StartsOnly UseCase.IsCuration s e → cond s e →
    (materials orm).step s e = some s' → VersionGrows r s.db s'.db
  /-- At most one of the calls that carry a version has committed. -/
  once : ∀ n, s.commits.countP (fun c => c.call.version r == some n) ≤ 1
  /-- A call that is rejected ends with the committed state and the queue as they are. -/
  rejected : ∀ t ∈ s.active, ∀ n error, t.call.version r = some n → t.program = .fail error →
    ∃ s', (materials orm).step s (.exec t.id) = some s' ∧ s'.db = s.db ∧
      s'.commits = s.commits ∧ s'.queue = s.queue

/-- However any number of clients draft and approve while callbacks and review reads write the
same request `r`, no curation of it is lost in the runs under a condition. -/
def NoCurationLost (orm : Orm) (cond : State → Event UseCase → Prop) (r : RequestId) : Prop :=
  ∀ db s, (materials orm).Reaches
    (fun s e => Machine.StartsOnly UseCase.IsCuration s e ∧ cond s e) (System.idle db) s →
    LosesNoCuration orm cond r s

namespace VersionGrows

variable {r : RequestId} {a b c : Db}

/-- Nothing has changed. -/
theorem refl (r : RequestId) (a : Db) : VersionGrows r a a := .inl rfl

/-- One change after another. -/
theorem trans (hab : VersionGrows r a b) (hbc : VersionGrows r b c) : VersionGrows r a c := by
  rcases hab with hab | ⟨q₀, q₁, hq₀, hq₁, hlt⟩
  · rcases hbc with hbc | ⟨q, q', hq, hq', hlt⟩
    · exact .inl (hbc.trans hab)
    · exact .inr ⟨q, q', hab ▸ hq, hq', hlt⟩
  · rcases hbc with hbc | ⟨q, q', hq, hq', hlt'⟩
    · exact .inr ⟨q₀, q₁, hq₀, hbc.trans hq₁, hlt⟩
    · rw [hq₁] at hq
      cases hq
      exact .inr ⟨q₀, q', hq₀, hq', Nat.lt_trans hlt hlt'⟩

/-- The version does not shrink. -/
theorem le_version (h : VersionGrows r a b) {q : MaterialRequest}
    (hq : a.requests.find r = some q) :
    ∃ q', b.requests.find r = some q' ∧ q.version ≤ q'.version := by
  rcases h with h | ⟨q₀, q', hq₀, hq', hlt⟩
  · exact ⟨q, h.trans hq, Nat.le_refl _⟩
  · rw [hq] at hq₀
    cases hq₀
    exact ⟨q', hq', Nat.le_of_lt hlt⟩

end VersionGrows

section Effects

variable {r k : RequestId} {db : Db}

/-- An update of a request that counts its version up. -/
theorem versionGrows_updateRequest {change : MaterialRequest → MaterialRequest} {hchange}
    (h : ∀ q, k = r → db.requests.find r = some q → q.version < (change q).version) :
    VersionGrows r db (updateRequest k change hchange db) := by
  by_cases hk : r = k
  · subst hk
    cases hfind : db.requests.find r with
    | none => exact .inl (by rw [find_updateRequest, if_pos rfl, hfind, Option.map_none])
    | some q =>
      refine .inr ⟨q, change q, hfind, ?_, h q rfl hfind⟩
      rw [find_updateRequest, if_pos rfl, hfind, Option.map_some]
  · exact .inl (by rw [find_updateRequest, if_neg hk])

/-- A change of other tables leaves the request alone. -/
theorem versionGrows_of_requests {a b c : Db} (h : VersionGrows r a b)
    (hrequests : c.requests = b.requests) : VersionGrows r a c := by
  rw [VersionGrows, hrequests]
  exact h

/-- Callbacks count the version up. -/
theorem versionGrows_effect (cb : Callback) (incoming : CourseMaterialStatus)
    (course : MaterialRequestCourse) (seen : List MaterialQuestionUsage) :
    VersionGrows r db (cb.effect incoming course seen db) := by
  have hprepared : VersionGrows r db (cb.prepare incoming course seen db) :=
    .inl (by rw [prepare_requests])
  have hset : ∀ k db status, VersionGrows r db (setRequestStatus k status db) :=
    fun k db status => versionGrows_updateRequest fun q _ _ => Nat.lt_succ_self q.version
  have hrolled : ∀ k db, VersionGrows r db (rollUp k db) := by
    intro k db
    unfold rollUp
    split
    · split
      · exact hset k db _
      · exact versionGrows_of_requests (hset k db _) rfl
    · exact .refl r db
  exact hprepared.trans (hrolled _ _)

/-- `save` counts the version up. -/
theorem versionGrows_saveIn {orm : Orm} (horm : orm.CountsUp) {entity reread : MaterialRequest}
    {n : ℕ} {rows : List (MaterialRequestCourse × Option MaterialRequestCourse)}
    (hsaved : savedVersion orm entity reread db = some n) :
    VersionGrows r db (saveIn entity reread n rows db) := by
  refine versionGrows_of_requests (versionGrows_updateRequest ?_) (saveIn_requests ..)
  rintro q rfl hq
  rw [savedVersion, hq] at hsaved
  exact horm _ _ _ _ hsaved

/-- A draft counts the version up. -/
theorem versionGrows_draft (dto : ApproveReview) :
    VersionGrows r db (editSlots k dto (bumpIn k db)) :=
  versionGrows_of_requests (versionGrows_updateRequest fun q _ _ => Nat.lt_succ_self q.version)
    (editSlots_requests ..)

/-- What an approval writes after its edits counts the version up. -/
theorem versionGrows_finishIn {orm : Orm} (horm : orm.CountsUp) {dto : ApproveReview}
    {a : Approval} (hsaved : savedVersion orm a.entity a.reread (bumpIn k db) = some a.version) :
    VersionGrows r (editSlots k dto (bumpIn k db)) (approveIn k dto a db) := by
  have hsaved' : savedVersion orm a.entity a.reread (editSlots k dto (bumpIn k db)) =
      some a.version := by
    rw [← hsaved]
    simp only [savedVersion, editSlots_requests]
  have hsave : VersionGrows r (editSlots k dto (bumpIn k db))
      (saveIn a.entity a.reread a.version a.rows (editSlots k dto (bumpIn k db))) :=
    versionGrows_saveIn horm hsaved'
  exact versionGrows_of_requests hsave (finishIn_requests ..)

/-- After its first statement a draft or an approval leaves the row with a version beyond
the one that it carries. -/
theorem lt_version_draft {dto : ApproveReview} (h : versionMatches r dto.version db = true) :
    ∃ q, (editSlots r dto (bumpIn r db)).requests.find r = some q ∧ dto.version < q.version := by
  obtain ⟨q, hq, hversion⟩ := (Option.any_eq_true _ _).mp h
  refine ⟨{ q with version := q.version + 1 }, ?_, ?_⟩
  · rw [editSlots_requests, bumpIn, find_updateRequest, if_pos rfl, hq]
    rfl
  · have hcarried : q.version = dto.version := by simpa using hversion
    simp [hcarried]

end Effects

/-- The protocol of the version of request `r`: a call that has committed with a version has
moved the row beyond it, and before its commit no review use case has enqueued a job. -/
def versionProtocol (r : RequestId) : Protocol UseCase Db Row Job Outcome where
  Inv := fun s => (∀ n, s.commits.countP (fun c => c.call.version r == some n) ≤ 1) ∧
    ∀ commit ∈ s.commits, ∀ n, commit.call.version r = some n →
      ∃ q, s.db.requests.find r = some q ∧ n < q.version
  Guar := fun held a b => LockFrame held a.db b.db ∧ VersionGrows r a.db b.db
  Local := fun t _ _ => (∀ cb, t.call ≠ .webhook cb) → t.out = []
  Pre := fun _ _ _ => True
  PreCommit := fun _ _ _ => True

section Sound

variable {r : RequestId} {v : Committed} {u : Ctx} {a : Outcome} {jobs : List Job}

/-- The invariant after a commit: the version that the call carries was the one of the row,
and the row is beyond it now. -/
theorem versionInv_commit (hinv : (versionProtocol r).Inv v)
    (hgrows : VersionGrows r v.db (u.log v.db))
    (hcarried : ∀ n, u.call.version r = some n → versionMatches r n v.db = true ∧
      ∃ q, (u.log v.db).requests.find r = some q ∧ n < q.version) :
    (versionProtocol r).Inv (v.commit u a jobs) := by
  obtain ⟨honce, hbeyond⟩ := hinv
  refine ⟨fun n => ?_, ?_⟩
  · rw [Snapshot.commit_commits, List.countP_append, List.countP_singleton]
    by_cases hn : u.call.version r = some n
    · -- nobody has committed with this version before
      have hzero : v.commits.countP (fun c => c.call.version r == some n) = 0 := by
        rw [List.countP_eq_zero]
        intro commit hcommit hsame
        obtain ⟨q, hq, hlt⟩ := hbeyond commit hcommit n (by simpa using hsame)
        have hmatch := (hcarried n hn).1
        simp only [versionMatches, hq, Option.any_some, beq_iff_eq] at hmatch
        omega
      rw [hzero]
      split <;> omega
    · have hnot : (u.call.version r == some n) = false := by simpa using hn
      have hold := honce n
      simp only [hnot]
      simpa using hold
  · intro commit hcommit n hn
    rcases List.mem_append.mp hcommit with hold | hnew
    · obtain ⟨q, hq, hlt⟩ := hbeyond commit hold n hn
      obtain ⟨q', hq', hle⟩ := hgrows.le_version hq
      exact ⟨q', hq', Nat.lt_of_lt_of_le hlt hle⟩
    · rw [List.mem_singleton.mp hnew] at hn
      exact (hcarried n hn).2

/-- A call that carries no version of request `r` keeps the invariant. -/
theorem versionInv_commit_of_none (hinv : (versionProtocol r).Inv v)
    (hgrows : VersionGrows r v.db (u.log v.db)) (hnone : u.call.version r = none) :
    (versionProtocol r).Inv (v.commit u a jobs) := by
  refine versionInv_commit hinv hgrows fun n hn => ?_
  rw [hnone] at hn
  cases hn

/-- Reviews, drafts, approvals and callbacks follow the protocol. -/
theorem versionProtocol_sound {orm : Orm} (horm : orm.CountsUp) (r : RequestId) :
    (versionProtocol r).Sound (materials orm) (Machine.StartsOnly UseCase.IsCuration) where
  starts := by
    intro s call _ hcond
    have hguar : ∀ held a b, (versionProtocol r).Guar held a b → LockFrame held a.db b.db :=
      fun _ _ _ h => h.1
    cases call with
    | generate inputs => exact absurd rfl (hcond _ rfl inputs)
    | webhook cb =>
      have hquiet : ∀ (u : Ctx) wants v, u.call = .webhook cb →
          (versionProtocol r).Local u wants v :=
        fun u _ _ hcall hnot => absurd hcall (hnot cb)
      refine wp_webhook hguar (fun u wants v hcall _ _ => hquiet u wants v hcall) ?_
        (fun t _ _ _ v hcall _ _ _ _ _ => hquiet t _ v hcall)
        (fun t u _ _ _ _ v hcall _ hhandled => hquiet u _ v (hhandled.call.trans hcall)) ?_
      · intro t outcome v₀ v hcall _ hlog _ _ _ _ _ _ hinv _
        have hsame : VersionGrows r v.db (t.log v.db) := by
          rw [hlog]
          exact .refl r v.db
        refine ⟨versionInv_commit_of_none hinv hsame (by rw [hcall]; rfl), ?_, hsame⟩
        rw [Snapshot.commit_db, hlog]
        exact .refl _ v.db
      · intro t u event incoming course seen v₀ v hcall _ _ _ _ hload _ hinv hhandled _
        have hgrows : VersionGrows r v.db (u.log v.db) := by
          rw [hhandled.effect]
          exact versionGrows_effect cb incoming course seen
        have hnone : u.call.version r = none := by
          rw [hhandled.call, hcall]
          rfl
        exact ⟨versionInv_commit_of_none hinv hgrows hnone, hhandled.lockFrame hguar hload, hgrows⟩
    | review k =>
      refine wp_review hguar (fun _ _ _ _ hout _ => hout) ?_ ?_
      · intro t q v₀ v₁ v data hcall _ hlog _ _ _ _ _ hinv _ _
        have hsame : VersionGrows r v.db (t.log v.db) := by
          rw [hlog]
          exact .refl r v.db
        refine ⟨versionInv_commit_of_none hinv hsame (by rw [hcall]; rfl), ?_, hsame⟩
        rw [Snapshot.commit_db, hlog]
        exact .refl _ v.db
      · intro t u q n reread rows v₀ v₁ v data hcall _ _ _ _ hinv hsaved hreviewed _ _ _
        have hgrows : VersionGrows r v.db (u.log v.db) := by
          rw [hreviewed.log]
          exact versionGrows_saveIn horm hsaved
        have hnone : u.call.version r = none := by
          rw [hreviewed.call, hcall]
          rfl
        exact ⟨versionInv_commit_of_none hinv hgrows hnone, hreviewed.lockFrame, hgrows⟩
    | saveDraft k dto =>
      refine wp_saveDraftCall hguar (fun _ _ _ _ hout _ => hout) ?_
      intro t u v₁ v result hcall _ hinv hmatch hreviewed _ _
      have hgrows : VersionGrows r v.db (u.log v.db) := by
        rw [hreviewed.log]
        exact versionGrows_draft dto
      refine ⟨versionInv_commit hinv hgrows ?_, hreviewed.lockFrame, hgrows⟩
      intro n hn
      rw [hreviewed.call, hcall, UseCase.version] at hn
      split at hn
      · rename_i hk
        subst hk
        cases hn
        rw [hreviewed.log]
        exact ⟨hmatch, lt_version_draft hmatch⟩
      · cases hn
    | approve k dto ctx =>
      refine wp_approveCall hguar (fun _ _ _ _ hout _ => hout) ?_
      intro t u q result ap v₀ v₁ v hcall _ _ _ hinv happroves _ hreviewed _
      have hfinish : VersionGrows r (editSlots k dto (bumpIn k v.db)) (u.log v.db) := by
        rw [hreviewed.log]
        exact versionGrows_finishIn horm happroves.saved
      have hgrows : VersionGrows r v.db (u.log v.db) := (versionGrows_draft dto).trans hfinish
      refine ⟨versionInv_commit hinv hgrows ?_, hreviewed.lockFrame, hgrows⟩
      intro n hn
      rw [hreviewed.call, hcall, UseCase.version] at hn
      split at hn
      · rename_i hk
        subst hk
        cases hn
        have hmatch := happroves.current
        obtain ⟨q₁, hq₁, hlt⟩ := lt_version_draft hmatch
        obtain ⟨q₂, hq₂, hle⟩ := hfinish.le_version hq₁
        exact ⟨hmatch, q₂, hq₂, Nat.lt_of_lt_of_le hlt hle⟩
      · cases hn
  pre := fun _ _ _ _ _ _ _ _ _ => trivial
  preCommit := fun _ _ _ _ _ _ _ => trivial
  stable := by
    intro s t u a hs _ hu _ _ _ _ _ hnot
    exact local_of_wp (hs.wp u hu) hnot

/-- A draft or an approval of request `r` is not a callback. -/
theorem UseCase.ne_webhook_of_version {call : UseCase} {n : ℕ} (h : call.version r = some n)
    (cb : Callback) : call ≠ .webhook cb := by
  rintro rfl
  cases h

end Sound

/-- A rejected draft or approval has enqueued nothing. -/
theorem out_of_rejected {orm : Orm} {r : RequestId} {s : State}
    (hs : (versionProtocol r).Consistent (materials orm) s)
    {t : Transaction UseCase Db Row Job HttpError Outcome} (ht : t ∈ s.active) {n : ℕ}
    {error : HttpError} (hcall : t.call.version r = some n) (hfail : t.program = .fail error) :
    t.out = [] := by
  have hlocal := hs.wp t ht
  rw [hfail] at hlocal
  exact hlocal (UseCase.ne_webhook_of_version hcall)

/-- **Optimistic versioning loses no curation** in every run in which no stale version is
saved: each commit that changes the row counts its version up, at most one call with a given
version commits, and a rejected call changes nothing and enqueues nothing. -/
theorem noCurationLost_of_noStaleSave (r : RequestId) :
    NoCurationLost .typeOrm NoStaleSave r := by
  intro db s hreach
  -- the run is one of the mapper that counts up
  obtain ⟨s', hreach', hchecked⟩ := exists_checked hreach
  have hsound := versionProtocol_sound countsUp_checked r
  have hstart : (versionProtocol r).Inv ⟨db, []⟩ :=
    ⟨fun _ => by simp, fun commit hcommit => nomatch hcommit⟩
  have hs := consistent_of_reaches hsound (consistent_idle hstart) hreach'
  refine ⟨?_, ?_, ?_⟩
  · intro e u hstarts hfresh hstep
    obtain ⟨u', hstep', hnext⟩ := hchecked.step hfresh hstep
    rw [← hchecked.toSnapshot, ← hnext.toSnapshot]
    rcases guar_of_step hsound hs hstarts hstep' with hsame | ⟨held, hguar⟩
    · rw [hsame]
      exact .refl r s'.db
    · exact hguar.2
  · rw [← hchecked.toSnapshot]
    exact hs.inv.1
  · intro t ht n error hcall hfail
    have hnodup : (s.active.map fun t => t.id).Nodup := hchecked.ids ▸ hs.nodup
    obtain ⟨t', ht', hcontext, hprogram⟩ := hchecked.exists_of_mem ht
    have hout : t.out = [] := by
      rw [← hcontext]
      rw [← hcontext] at hcall
      exact out_of_rejected hs ht' hcall (hfail ▸ hprogram).eq_fail
    refine ⟨s.drop t.id, ?_, rfl, rfl, System.queue_drop ?_⟩
    · simp only [Machine.step, System.find_of_nodup hnodup ht, hfail, hout, List.isEmpty_nil,
        if_true]
    · intro u hu hid
      rw [List.inj_on_of_nodup_map hnodup hu ht hid]
      exact hout

/-- A review read loads the request with version 1. Two drafts move it on to version 3, and
the review read saves version 1; then the calls of the versions 1 and 2 come again. -/
def staleOpening : List (Event UseCase) :=
  [.start (.review 1), .exec 0, .start (.saveDraft 1 ⟨1, false, [⟨21, 105⟩], []⟩)] ++
    List.replicate 4 (.exec 1) ++ [.start (.saveDraft 1 ⟨2, false, [], [22]⟩)] ++
    List.replicate 4 (.exec 2) ++ List.replicate 5 (.exec 0) ++
    [.start (.saveDraft 1 ⟨1, false, [⟨22, 106⟩], []⟩)] ++ List.replicate 4 (.exec 3) ++
    [.start (.saveDraft 1 ⟨2, false, [], [21]⟩)] ++ List.replicate 4 (.exec 4)

/-- The state after both drafts with version 2. -/
def staleState : State := (materials .typeOrm).endState (System.idle reviewDb) staleOpening

/-- A review read takes the version of a request back, and two drafts with the same version
commit: the second one removes the question that the first pair had put in. -/
theorem not_noCurationLost : ¬∀ r, NoCurationLost .typeOrm (fun _ _ => True) r := by
  intro h
  have hreach : (materials .typeOrm).Reaches
      (fun s e => Machine.StartsOnly UseCase.IsCuration s e ∧ True)
      (System.idle reviewDb) staleState := by
    refine Machine.reaches_endState (by decide +kernel) fun s e he => ⟨?_, trivial⟩
    rintro call rfl
    simp only [staleOpening, List.cons_append, List.nil_append, List.append_assoc, List.mem_cons,
      List.mem_append, List.mem_replicate, Event.start.injEq, reduceCtorEq, and_false,
      false_or] at he
    rcases he with rfl | rfl | rfl | rfl | rfl | he
    · exact fun _ h => by cases h
    · exact fun _ h => by cases h
    · exact fun _ h => by cases h
    · exact fun _ h => by cases h
    · exact fun _ h => by cases h
    · cases he
  have honce := (h 1 reviewDb staleState hreach).once 2
  revert honce
  decide +kernel

end Odiseo.Materials
