import Odiseo.Materials.ReviewClient
import Odiseo.Materials.ReviewSpec
import Odiseo.Materials.RollUp
import Odiseo.Materials.StaleSaves

/-!
# The approved result is what the reviewer saw

Two levels meet here. The list shows the slots of the last fetched review under its
local edits; the server applies the edits of an approval to the slots of the request.
They agree while the version of a request grows with every change of its slots: an
approval that is accepted then carries the version of the slots it was fetched with. A
review read that saves a stale version takes the version back, and an approval of a
review that has changed since is accepted.
-/

namespace Odiseo.Materials

open Database Database.Protocol

section Overlay

variable {r : RequestId} {q : MaterialReviewQuestion}

/-- The replacements of slots other than `q` leave `q` alone. -/
theorem foldl_replace_of_not_mem {items : List ReplacementItem}
    (h : ∀ item ∈ items, item.reviewQuestionId ≠ q.id) :
    items.foldl (fun q item => if q.id = item.reviewQuestionId then replaceQuestion r item q else q)
      q = q := by
  induction items with
  | nil => rfl
  | cons item items ih =>
    have hne : ¬q.id = item.reviewQuestionId := fun heq => h item (List.mem_cons_self ..) heq.symm
    rw [List.foldl_cons, if_neg hne]
    exact ih fun x hx => h x (List.mem_cons_of_mem item hx)

/-- Of the replacements of different slots the one of `q` counts. -/
theorem foldl_replace (hr : q.materialRequestId = r) {items : List ReplacementItem}
    (hnodup : (items.map (·.reviewQuestionId)).Nodup) :
    items.foldl (fun q item => if q.id = item.reviewQuestionId then replaceQuestion r item q else q)
      q = match items.find? fun x => x.reviewQuestionId = q.id with
        | some item => { q with status := .replaced, questionId := some item.questionId }
        | none => q := by
  induction items with
  | nil => rfl
  | cons item items ih =>
    obtain ⟨hfresh, hrest⟩ := List.nodup_cons.mp hnodup
    by_cases heq : item.reviewQuestionId = q.id
    · rw [List.find?_cons_of_pos (by simpa using heq), List.foldl_cons, if_pos heq.symm]
      have hreplaced : replaceQuestion r item q =
          { q with status := .replaced, questionId := some item.questionId } := by
        simp [replaceQuestion, hr]
      rw [hreplaced]
      refine foldl_replace_of_not_mem fun x hx hxq => ?_
      exact hfresh (List.mem_map.mpr ⟨x, hx, hxq.trans heq.symm⟩)
    · rw [List.find?_cons_of_neg (by simpa using heq), List.foldl_cons,
        if_neg fun h => heq h.symm]
      exact ih hrest

/-- The removals, as the server applies them to one slot. -/
theorem foldl_remove (hr : q.materialRequestId = r) (ids : List SlotId) :
    ids.foldl (fun q id => if q.id = id then removeQuestion r q else q) q =
      if q.id ∈ ids then { q with status := .removed } else q := by
  induction ids generalizing q with
  | nil => simp
  | cons id ids ih =>
    rw [List.foldl_cons]
    by_cases heq : q.id = id
    · have hremoved : removeQuestion r q = { q with status := .removed } := by
        simp [removeQuestion, hr]
      have hkeeps :
          ({ q with status := .removed } : MaterialReviewQuestion).materialRequestId = r :=
        hr
      rw [if_pos heq, hremoved, ih hkeeps]
      simp [heq]
    · rw [if_neg heq, ih hr]
      simp [heq]

/-- **The overlay of the list is what the server makes of the edits**: replacements first,
then removals, because no slot has both. -/
theorem editQuestion_eq_overlay (hr : q.materialRequestId = r) {dto : ApproveReview}
    {edits : LocalEdits} (hreplacements : dto.replacements = edits.replacements)
    (hremovals : dto.removals = edits.removals) : editQuestion r dto q = edits.overlay q := by
  unfold editQuestion LocalEdits.overlay
  rw [hreplacements, hremovals, foldl_replace hr edits.nodup]
  cases hfind : edits.replacements.find? fun x => x.reviewQuestionId = q.id with
  | none => simp only [foldl_remove hr]
  | some item =>
    -- a replaced slot is not removed
    have hid : item.reviewQuestionId = q.id := by simpa using List.find?_some hfind
    have hnot : q.id ∉ edits.removals :=
      hid ▸ edits.disjoint item (List.mem_of_find?_eq_some hfind)
    have hkeeps : ({ q with status := .replaced, questionId := some item.questionId } :
        MaterialReviewQuestion).materialRequestId = r := hr
    simp only [foldl_remove hkeeps, if_neg hnot]

end Overlay

section Ordering

variable {f : MaterialReviewQuestion → MaterialReviewQuestion}

/-- The order of the slots only depends on their positions. -/
theorem insertByPosition_map (hf : ∀ q, (f q).position = q.position) (q : MaterialReviewQuestion)
    (qs : List MaterialReviewQuestion) :
    insertByPosition (f q) (qs.map f) = (insertByPosition q qs).map f := by
  induction qs with
  | nil => rfl
  | cons p ps ih =>
    simp only [List.map_cons, insertByPosition, hf]
    split
    · rfl
    · rw [ih, List.map_cons]

/-- Changing slots in place keeps their order. -/
theorem orderByPosition_map (hf : ∀ q, (f q).position = q.position)
    (qs : List MaterialReviewQuestion) :
    orderByPosition (qs.map f) = (orderByPosition qs).map f := by
  have hsorted : ∀ sorted : List MaterialReviewQuestion,
      (qs.map f).foldl (fun sorted q => insertByPosition q sorted) (sorted.map f) =
        (qs.foldl (fun sorted q => insertByPosition q sorted) sorted).map f := by
    induction qs with
    | nil => exact fun _ => rfl
    | cons q qs ih =>
      intro sorted
      rw [List.map_cons, List.foldl_cons, List.foldl_cons, insertByPosition_map hf]
      exact ih _
  exact hsorted []

end Ordering

/-- The edits of a request leave the slots of other requests alone. -/
theorem editQuestion_of_ne {r : RequestId} {dto : ApproveReview} {q : MaterialReviewQuestion}
    (h : q.materialRequestId ≠ r) : editQuestion r dto q = q := by
  have hreplace : ∀ items : List ReplacementItem, items.foldl
      (fun q item => if q.id = item.reviewQuestionId then replaceQuestion r item q else q) q =
        q := by
    intro items
    induction items with
    | nil => rfl
    | cons item items ih =>
      have hkeep : replaceQuestion r item q = q := by simp [replaceQuestion, h]
      rw [List.foldl_cons, hkeep, ite_self, ih]
  have hremove : ∀ ids : List SlotId, ids.foldl
      (fun q id => if q.id = id then removeQuestion r q else q) q = q := by
    intro ids
    induction ids with
    | nil => rfl
    | cons id ids ih =>
      have hkeep : removeQuestion r q = q := by simp [removeQuestion, h]
      rw [List.foldl_cons, hkeep, ite_self, ih]
  rw [editQuestion, hreplace, hremove]

/-- The version of request `r` guards its slots: it never shrinks, and it grows with every
change of a slot. -/
def VersionGuards (r : RequestId) (a b : Db) : Prop :=
  ∀ q, a.requests.find r = some q → ∃ q', b.requests.find r = some q' ∧
    q.version ≤ q'.version ∧ (q'.version = q.version → b.slotsOf r = a.slotsOf r)

namespace VersionGuards

variable {r : RequestId} {a b c : Db}

/-- Nothing has changed. -/
theorem refl (r : RequestId) (a : Db) : VersionGuards r a a :=
  fun q hq => ⟨q, hq, Nat.le_refl _, fun _ => rfl⟩

/-- One change after another. -/
theorem trans (hab : VersionGuards r a b) (hbc : VersionGuards r b c) : VersionGuards r a c := by
  intro q hq
  obtain ⟨q₁, hq₁, hle₁, hsame₁⟩ := hab q hq
  obtain ⟨q₂, hq₂, hle₂, hsame₂⟩ := hbc q₁ hq₁
  refine ⟨q₂, hq₂, Nat.le_trans hle₁ hle₂, fun heq => ?_⟩
  have hfirst : q₁.version = q.version := by omega
  rw [hsame₂ (by omega), hsame₁ hfirst]

/-- The slots stay, and the version does not shrink. -/
theorem of_slots (hslots : b.slotsOf r = a.slotsOf r)
    (h : ∀ q, a.requests.find r = some q → ∃ q', b.requests.find r = some q' ∧
      q.version ≤ q'.version) : VersionGuards r a b := by
  intro q hq
  obtain ⟨q', hq', hle⟩ := h q hq
  exact ⟨q', hq', hle, fun _ => hslots⟩

/-- The version grows. -/
theorem of_lt (h : ∀ q, a.requests.find r = some q → ∃ q', b.requests.find r = some q' ∧
    q.version < q'.version) : VersionGuards r a b := by
  intro q hq
  obtain ⟨q', hq', hlt⟩ := h q hq
  exact ⟨q', hq', Nat.le_of_lt hlt, fun heq => by omega⟩

end VersionGuards

section Guards

variable {r k : RequestId} {db : Db}

/-- A roll-up does not shrink the version of a request. -/
theorem version_rollUp {q : MaterialRequest} (h : db.requests.find r = some q) :
    ∃ q', (rollUp k db).requests.find r = some q' ∧ q.version ≤ q'.version := by
  by_cases hk : r = k
  · subst hk
    unfold rollUp
    split
    · split <;> simp [setMaterialStatus, setRequestStatus, find_updateRequest, h]
    · exact ⟨q, h, Nat.le_refl _⟩
  · exact ⟨q, by rw [find_requests_rollUp_of_ne db hk, h], Nat.le_refl _⟩

/-- The version guards the slots against callbacks. -/
theorem versionGuards_effect (cb : Callback) (incoming : CourseMaterialStatus)
    (course : MaterialRequestCourse) (seen : List MaterialQuestionUsage) :
    VersionGuards r db (cb.effect incoming course seen db) := by
  refine .of_slots ?_ fun q hq => version_rollUp (by simpa using hq)
  simp only [Db.slotsOf, Callback.effect, rollUp_slots, prepare_slots]

/-- `save` counts the version of the request up. -/
theorem lt_version_saveIn {orm : Orm} {entity reread q : MaterialRequest} {n : ℕ}
    (rows : List (MaterialRequestCourse × Option MaterialRequestCourse)) (horm : orm.CountsUp)
    (hid : entity.id = r) (hsaved : savedVersion orm entity reread db = some n)
    (hq : db.requests.find r = some q) :
    ∃ q', (saveIn entity reread n rows db).requests.find r = some q' ∧ q.version < q'.version ∧
      q'.version = n := by
  rw [savedVersion, hid, hq] at hsaved
  refine ⟨{ saveRequestColumns entity reread q with version := n }, ?_, horm _ _ _ _ hsaved, rfl⟩
  rw [find_requests_saveIn, if_pos hid.symm, hq]
  rfl

/-- The version guards the slots against review reads. -/
theorem versionGuards_saveIn {orm : Orm} (horm : orm.CountsUp) {entity reread : MaterialRequest}
    {n : ℕ} {rows : List (MaterialRequestCourse × Option MaterialRequestCourse)}
    (hsaved : savedVersion orm entity reread db = some n) :
    VersionGuards r db (saveIn entity reread n rows db) := by
  by_cases hid : entity.id = r
  · refine .of_lt fun q hq => ?_
    obtain ⟨q', hq', hlt, _⟩ := lt_version_saveIn rows horm hid hsaved hq
    exact ⟨q', hq', hlt⟩
  · refine .of_slots (by simp only [Db.slotsOf, saveIn_slots]) fun q hq => ⟨q, ?_, Nat.le_refl _⟩
    rw [find_requests_saveIn, if_neg (fun heq => hid heq.symm), hq]

/-- The slots of a request after an approval or a draft of request `k`. -/
theorem slotsOf_editSlots_of_ne {dto : ApproveReview} (hk : r ≠ k) :
    (editSlots k dto db).slotsOf r = db.slotsOf r := by
  rw [slotsOf_editSlots]
  conv_rhs => rw [← List.map_id (db.slotsOf r)]
  apply List.map_congr_left
  intro q hq
  have hr : q.materialRequestId = r := by simpa using (List.mem_filter.mp hq).2
  exact editQuestion_of_ne (hr ▸ hk)

/-- Counting the version up does not matter to the slots. -/
theorem slotsOf_editSlots_bumpIn (k r : RequestId) (dto : ApproveReview) (db : Db) :
    (editSlots k dto (bumpIn k db)).slotsOf r = (editSlots k dto db).slotsOf r := by
  rw [slotsOf_editSlots, slotsOf_editSlots]
  rfl

/-- The version guards the slots against drafts. -/
theorem versionGuards_editSlots {dto : ApproveReview} :
    VersionGuards r db (editSlots k dto (bumpIn k db)) := by
  by_cases hk : r = k
  · subst hk
    refine .of_lt fun q hq => ⟨{ q with version := q.version + 1 }, ?_, Nat.lt_succ_self _⟩
    rw [editSlots_requests, bumpIn, find_updateRequest, if_pos rfl, hq]
    rfl
  · refine .of_slots ?_ fun q hq => ⟨q, ?_, Nat.le_refl _⟩
    · rw [slotsOf_editSlots_bumpIn, slotsOf_editSlots_of_ne hk]
    · rw [editSlots_requests, bumpIn, find_updateRequest, if_neg hk, hq]

/-- The version guards the slots against approvals. -/
theorem versionGuards_approveIn {orm : Orm} (horm : orm.CountsUp) {dto : ApproveReview}
    {a : Approval} (hsaved : savedVersion orm a.entity a.reread (bumpIn k db) = some a.version) :
    VersionGuards r db (approveIn k dto a db) := by
  have hsaved' : savedVersion orm a.entity a.reread (editSlots k dto (bumpIn k db)) =
      some a.version := by
    rw [← hsaved]
    simp only [savedVersion, editSlots_requests]
  have hedit : VersionGuards r db (editSlots k dto (bumpIn k db)) := versionGuards_editSlots
  have hsave : VersionGuards r (editSlots k dto (bumpIn k db))
      (saveIn a.entity a.reread a.version a.rows (editSlots k dto (bumpIn k db))) :=
    versionGuards_saveIn horm hsaved'
  have hfinish : VersionGuards r
      (saveIn a.entity a.reread a.version a.rows (editSlots k dto (bumpIn k db)))
      (approveIn k dto a db) := by
    refine .of_slots ?_ fun q hq => ⟨q, ?_, Nat.le_refl _⟩
    · simp only [approveIn, Db.slotsOf, finishIn_slots, saveIn_slots]
    · rw [approveIn, finishIn_requests, hq]
  exact (hedit.trans hsave).trans hfinish

end Guards

/-- The answer of a review read of request `r` is not newer than the database, and when it
is as new it shows the slots of the database. -/
def Seen (r : RequestId) (data : ReviewData) (db : Db) : Prop :=
  ∃ q, db.requests.find r = some q ∧ data.version ≤ q.version ∧
    (q.version = data.version → orderByPosition (db.slotsOf r) = data.questions)

/-- What has been seen stays seen. -/
theorem Seen.of_versionGuards {r : RequestId} {data : ReviewData} {a b : Db} (h : Seen r data a)
    (hab : VersionGuards r a b) : Seen r data b := by
  obtain ⟨q, hq, hle, hsame⟩ := h
  obtain ⟨q', hq', hle', hsame'⟩ := hab q hq
  refine ⟨q', hq', Nat.le_trans hle hle', fun heq => ?_⟩
  rw [hsame' (by omega), hsame (by omega)]

/-- A committed approval of request `r` carried the version of the row and edited the slots. -/
def EditsAsApproved (r : RequestId) (a b : Committed) : Prop :=
  ∀ commit dto ctx, b.commits = a.commits ++ [commit] → commit.call = .approve r dto ctx →
    versionMatches r dto.version a.db = true ∧
      b.db.slotsOf r = (a.db.slotsOf r).map (editQuestion r dto)

/-- The protocol of reviews, drafts, approvals and callbacks. -/
def agreementProtocol (r : RequestId) : Protocol UseCase Db Row Job Outcome where
  Inv := fun s => ∀ commit ∈ s.commits, ∀ data, commit.result = .review data →
    data.materialId = r → Seen r data s.db
  Guar := fun held a b =>
    LockFrame held a.db b.db ∧ VersionGuards r a.db b.db ∧ EditsAsApproved r a b
  Local := fun _ _ _ => True
  Pre := fun _ _ _ => True
  PreCommit := fun _ _ _ => True

/-- The version guards the slots against the commits of others. -/
theorem versionGuards_of_after {r : RequestId} {mine : List Row} {a b : Committed}
    (h : (agreementProtocol r).After mine a b) : VersionGuards r a.db b.db := by
  refine After.of_guar (R := fun a b => VersionGuards r a.db b.db) (fun a => .refl r a.db) ?_ ?_ h
  · exact fun a b c hab hbc => hab.trans hbc
  · exact fun held a b _ hguar _ => hguar.2.1

/-- The calls that curate and generate an existing request. -/
def UseCase.IsCuration (call : UseCase) : Prop := ∀ inputs, call ≠ .generate inputs

section Sound

variable {r : RequestId} {v : Committed} {u : Ctx} {a : Outcome} {jobs : List Job}

/-- The invariant after a commit, from what the commit does to the request and its slots. -/
theorem agreementInv_commit (hinv : (agreementProtocol r).Inv v)
    (hguards : VersionGuards r v.db (u.log v.db))
    (hanswer : ∀ data, a = .review data → data.materialId = r → Seen r data (u.log v.db)) :
    (agreementProtocol r).Inv (v.commit u a jobs) := by
  intro commit hcommit data hdata hr
  rcases List.mem_append.mp hcommit with hold | hnew
  · exact (hinv commit hold data hdata hr).of_versionGuards hguards
  · rw [List.mem_singleton.mp hnew] at hdata
    exact hanswer data hdata hr

/-- A commit of another call is no approval of request `r`. -/
theorem editsAsApproved_of_ne (hcall : ∀ dto ctx, u.call ≠ .approve r dto ctx) :
    EditsAsApproved r v (v.commit u a jobs) := by
  intro commit dto ctx hcommits happrove
  rw [Snapshot.commit_commits, List.append_cancel_left_eq, List.cons.injEq] at hcommits
  rw [← hcommits.1] at happrove
  exact absurd happrove (hcall dto ctx)

/-- Reviews, drafts, approvals and callbacks follow the protocol. -/
theorem agreementProtocol_sound {orm : Orm} (horm : orm.CountsUp) (r : RequestId) :
    (agreementProtocol r).Sound (materials orm) (Machine.StartsOnly UseCase.IsCuration) where
  starts := by
    intro s call _ hcond
    have hguar : ∀ held a b, (agreementProtocol r).Guar held a b → LockFrame held a.db b.db :=
      fun _ _ _ h => h.1
    cases call with
    | generate inputs => exact absurd rfl (hcond _ rfl inputs)
    | webhook cb =>
      refine wp_webhook hguar (fun _ _ _ _ _ _ => trivial) ?_
        (fun _ _ _ _ _ _ _ _ _ _ _ => trivial) (fun _ _ _ _ _ _ _ _ _ _ => trivial) ?_
      · intro t outcome v₀ v hcall _ hlog _ _ _ _ _ _ hinv _
        have hsame : VersionGuards r v.db (t.log v.db) := by
          rw [hlog]
          exact .refl r v.db
        refine ⟨agreementInv_commit hinv hsame (fun _ h => by cases h), ?_, hsame, ?_⟩
        · rw [Snapshot.commit_db, hlog]
          exact .refl _ v.db
        · exact editsAsApproved_of_ne fun _ _ h => by rw [hcall] at h; cases h
      · intro t u event incoming course seen v₀ v hcall _ _ _ _ hload _ hinv hhandled _
        have hguards : VersionGuards r v.db (u.log v.db) := by
          rw [hhandled.effect]
          exact versionGuards_effect cb incoming course seen
        refine ⟨agreementInv_commit hinv hguards (fun _ h => by cases h),
          hhandled.lockFrame hguar hload, hguards, ?_⟩
        exact editsAsApproved_of_ne fun _ _ h => by rw [hhandled.call, hcall] at h; cases h
    | review k =>
      refine wp_review hguar (fun _ _ _ _ _ => trivial) ?_ ?_
      · intro t q v₀ v₁ v data hcall _ hlog _ hfind _ hafter₁ hafter hinv hdata _
        have hsame : VersionGuards r v.db (t.log v.db) := by
          rw [hlog]
          exact .refl r v.db
        have hid : q.id = k := Db.request_id_of_find hfind
        refine ⟨agreementInv_commit hinv hsame ?_, ?_, hsame, ?_⟩
        · -- the version was read before the slots
          intro data' hdata' hr
          cases hdata'
          have hk : k = r := by rw [← hid, ← hr, hdata]
          subst hk
          have hread : Seen k data v₁.db := by
            obtain ⟨q₁, hq₁, hle, _⟩ := versionGuards_of_after hafter₁ q hfind
            refine ⟨q₁, hq₁, ?_, fun _ => ?_⟩
            · rw [hdata]
              exact hle
            · rw [hdata, hid]
          rw [hlog]
          exact hread.of_versionGuards (versionGuards_of_after hafter)
        · rw [Snapshot.commit_db, hlog]
          exact .refl _ v.db
        · exact editsAsApproved_of_ne fun _ _ h => by rw [hcall] at h; cases h
      · intro t u q n reread rows v₀ v₁ v data hcall _ hfind _ _ hinv hsaved hreviewed _ hdata _
        have hid : q.id = k := Db.request_id_of_find hfind
        have hguards : VersionGuards r v.db (u.log v.db) := by
          rw [hreviewed.log]
          exact versionGuards_saveIn horm hsaved
        refine ⟨agreementInv_commit hinv hguards ?_, hreviewed.lockFrame, hguards, ?_⟩
        · intro data' hdata' hr
          cases hdata'
          have hk : k = r := by rw [← hid, ← hr, hdata]
          subst hk
          rw [hreviewed.log]
          obtain ⟨row, hrow, _⟩ := Option.bind_eq_some_iff.mp hsaved
          have hentity : (inReview q).id = k := hid
          rw [hentity] at hrow
          obtain ⟨q', hq', _, hn⟩ := lt_version_saveIn rows horm hentity hsaved hrow
          refine ⟨q', hq', ?_, fun _ => ?_⟩
          · simp only [hn, hdata, Nat.le_refl]
          · rw [hdata]
            simp only [Db.slotsOf, saveIn_slots, hid]
        · exact editsAsApproved_of_ne fun _ _ h => by rw [hreviewed.call, hcall] at h; cases h
    | saveDraft k dto =>
      refine wp_saveDraftCall hguar (fun _ _ _ _ _ => trivial) ?_
      intro t u v₁ v result hcall _ hinv _ hreviewed _ _
      have hguards : VersionGuards r v.db (u.log v.db) := by
        rw [hreviewed.log]
        exact versionGuards_editSlots
      refine ⟨agreementInv_commit hinv hguards (fun _ h => by cases h), hreviewed.lockFrame,
        hguards, ?_⟩
      exact editsAsApproved_of_ne fun _ _ h => by rw [hreviewed.call, hcall] at h; cases h
    | approve k dto ctx =>
      refine wp_approveCall hguar (fun _ _ _ _ _ => trivial) ?_
      intro t u q result a v₀ v₁ v hcall _ hfind _ hinv happroves _ hreviewed _
      have hguards : VersionGuards r v.db (u.log v.db) := by
        rw [hreviewed.log]
        exact versionGuards_approveIn horm happroves.saved
      refine ⟨agreementInv_commit hinv hguards (fun _ h => by cases h), hreviewed.lockFrame,
        hguards, ?_⟩
      intro commit dto' ctx' hcommits happrove
      rw [Snapshot.commit_commits, List.append_cancel_left_eq, List.cons.injEq] at hcommits
      rw [← hcommits.1] at happrove
      have hsame : UseCase.approve k dto ctx = .approve r dto' ctx' := by
        rw [← hcall, ← hreviewed.call]
        exact happrove
      cases hsame
      refine ⟨happroves.current, ?_⟩
      rw [Snapshot.commit_db, hreviewed.log, approveIn, ← slotsOf_editSlots]
      simp only [Db.slotsOf, finishIn_slots]
      exact slotsOf_editSlots_bumpIn _ _ dto v.db
  pre := fun _ _ _ _ _ _ _ _ _ => trivial
  preCommit := fun _ _ _ _ _ _ _ => trivial
  stable := fun _ _ _ _ _ _ _ _ _ _ _ _ => trivial

end Sound

/-- The server, the tabs that show review lists, and the local storage of their browsers. -/
structure World where
  server : State
  client : ℕ → Client
  /-- The drafts in the local storage of a browser, by review. -/
  storage : ℕ → RequestId → Option LocalEdits
  /-- The approvals that were sent, each with the tab as it was when it sent them. -/
  sent : List (Client × MaterialReviewContext)

/-- What happens in the world. -/
inductive Action
  /-- A step of the server. Whatever any client sends may arrive there at any time, any
  number of times or never. -/
  | server (e : Event UseCase)
  /-- A tab opens a review. -/
  | fetch (c : ℕ) (materialId : RequestId)
  /-- The answer of a review read arrives at a tab. -/
  | deliver (c : ℕ) (data : ReviewData)
  /-- A question is chosen for a slot. -/
  | select (c : ℕ) (item : ReplacementItem)
  /-- A slot is removed. -/
  | remove (c : ℕ) (id : SlotId)
  /-- The edits of a slot are taken back. -/
  | restore (c : ℕ) (id : SlotId)
  /-- The consent to empty slots is given or taken back. -/
  | consent (c : ℕ) (continueWithWarnings : Bool)
  /-- The store writes the edits of a tab to the local storage. -/
  | persist (c : ℕ)
  /-- A tab sends its approval. -/
  | approve (c : ℕ) (ctx : MaterialReviewContext)
  /-- The answer of an accepted approval arrives at a tab. -/
  | approved (c : ℕ)

namespace World

/-- The tab `c` changes. -/
def setClient (w : World) (c : ℕ) (client : Client) : World :=
  { w with client := Function.update w.client c client }

/-- The entry of a review in the local storage of a browser changes. -/
def setStorage (w : World) (browser : ℕ) (materialId : RequestId) (edits : Option LocalEdits) :
    World :=
  let drafts := Function.update (w.storage browser) materialId edits
  { w with storage := Function.update w.storage browser drafts }

/-- The review read that answered `data` has committed. -/
def answered (w : World) (data : ReviewData) : Bool :=
  w.server.commits.any fun commit => commit.result == .review data

/-- One action, when it can happen. -/
def step (orm : Orm) (w : World) : Action → Option World
  | .server e => ((materials orm).step w.server e).map fun s => { w with server := s }
  | .fetch c materialId =>
    let client := w.client c
    some (w.setClient c (client.fetchReviewData materialId (w.storage client.browser materialId)))
  | .deliver c data =>
    if w.answered data then some (w.setClient c ((w.client c).reviewFetched data)) else none
  | .select c item => some (w.setClient c ((w.client c).handleQuestionSelected item).1)
  | .remove c id => some (w.setClient c ((w.client c).confirmRemove id).1)
  | .restore c id => some (w.setClient c ((w.client c).handleRestore id))
  | .consent c continueWithWarnings =>
    some (w.setClient c { w.client c with continueWithWarnings := continueWithWarnings })
  | .persist c =>
    let client := w.client c
    client.currentReview.map fun data =>
      w.setStorage client.browser data.materialId (some client.edits)
  | .approve c ctx => some { w with sent := w.sent ++ [(w.client c, ctx)] }
  | .approved c =>
    let client := w.client c
    some ((w.setClient c client.approvalAccepted).setStorage client.browser client.materialId none)

/-- One step in which the server starts no generation and keeps to a condition. -/
def Step (orm : Orm) (cond : State → Event UseCase → Prop) (w w' : World) : Prop :=
  ∃ action, (∀ e, action = .server e →
    Machine.StartsOnly UseCase.IsCuration w.server e ∧ cond w.server e) ∧
    w.step orm action = some w'

/-- The worlds that are reached under a condition on the steps of the server. -/
def Reaches (orm : Orm) (cond : State → Event UseCase → Prop) : World → World → Prop :=
  Relation.ReflTransGen (Step orm cond)

/-- Run a list of actions; `none` when one of them cannot happen. -/
def run (orm : Orm) (w : World) : List Action → Option World
  | [] => some w
  | action :: actions => (w.step orm action).bind fun w' => run orm w' actions

/-- The world that a list of actions ends in. -/
def endWorld (orm : Orm) (w : World) (actions : List Action) : World :=
  (w.run orm actions).getD w

/-- Nothing has been fetched, sent or committed yet. -/
structure Fresh (w : World) : Prop where
  server : ∃ db, w.server = System.idle db
  client : ∀ c, (w.client c).currentReview = none
  sent : w.sent = []

/-- A tab shows a review that the server has answered. -/
def Genuine (w : World) (client : Client) : Prop :=
  ∀ data, client.currentReview = some data → ∃ commit ∈ w.server.commits,
    commit.result = .review data

/-- Every tab shows, and every approval was sent for, a review that the server answered. -/
structure Inv (orm : Orm) (cond : State → Event UseCase → Prop) (w : World) : Prop where
  server : ∃ db, (materials orm).Reaches
    (fun s e => Machine.StartsOnly UseCase.IsCuration s e ∧ cond s e) (System.idle db) w.server
  client : ∀ c, w.Genuine (w.client c)
  sent : ∀ p ∈ w.sent, w.Genuine p.1

variable {orm : Orm} {cond : State → Event UseCase → Prop} {w w' : World}

/-- A run that can happen reaches its end. -/
theorem reaches_endWorld {actions : List Action} (hruns : (w.run orm actions).isSome = true)
    (hcalls : ∀ action ∈ actions, ∀ s e, action = .server e →
      Machine.StartsOnly UseCase.IsCuration s e ∧ cond s e) :
    Reaches orm cond w (w.endWorld orm actions) := by
  induction actions generalizing w with
  | nil => exact .refl
  | cons action actions ih =>
    obtain ⟨w', hw'⟩ := Option.isSome_iff_exists.mp hruns
    obtain ⟨v, hv, hrest⟩ := Option.bind_eq_some_iff.mp hw'
    have hstep : Step orm cond w v :=
      ⟨action, hcalls action (List.mem_cons_self ..) w.server, hv⟩
    have hend : w.endWorld orm (action :: actions) = v.endWorld orm actions := by
      simp [endWorld, run, hv, hrest]
    rw [hend]
    exact .head hstep (ih (by simp [hrest]) fun x hx => hcalls x (List.mem_cons_of_mem action hx))

/-- The invariant after a tab has changed. -/
theorem Inv.setClient (h : Inv orm cond w) {c : ℕ} {client : Client}
    (hclient : w.Genuine client) : Inv orm cond (w.setClient c client) where
  server := h.server
  client := by
    intro k
    by_cases hk : k = c
    · subst hk
      simpa [World.setClient, Genuine] using hclient
    · simpa [World.setClient, Genuine, hk] using h.client k
  sent := h.sent

/-- **Step lemma:** the lists only ever show what the server has answered. -/
theorem inv_of_step (h : Inv orm cond w) (hstep : w.Step orm cond w') : Inv orm cond w' := by
  obtain ⟨action, hcond, hstep⟩ := hstep
  cases action with
  | server e =>
    obtain ⟨s, hs, rfl⟩ := Option.map_eq_some_iff.mp hstep
    obtain ⟨db, hreach⟩ := h.server
    have hmore : ∀ client, w.Genuine client → Genuine { w with server := s } client := by
      intro client hgenuine data hdata
      obtain ⟨commit, hcommit, hresult⟩ := hgenuine data hdata
      exact ⟨commit, Machine.commits_subset_of_step hs hcommit, hresult⟩
    exact ⟨⟨db, hreach.tail ⟨e, hcond e rfl, hs⟩⟩, fun c => hmore _ (h.client c),
      fun p hp => hmore _ (h.sent p hp)⟩
  | fetch c materialId =>
    cases hstep
    refine h.setClient ?_
    intro data hdata
    refine h.client c data ?_
    rw [← hdata, Client.fetchReviewData]
    split <;> rfl
  | deliver c data =>
    simp only [step] at hstep
    split at hstep
    · rename_i hanswered
      cases hstep
      refine h.setClient ?_
      intro data' hdata'
      cases hdata'
      obtain ⟨commit, hcommit, hresult⟩ := List.any_eq_true.mp hanswered
      exact ⟨commit, hcommit, by simpa using hresult⟩
    · cases hstep
  | select c item =>
    cases hstep
    exact h.setClient (h.client c)
  | remove c id =>
    cases hstep
    exact h.setClient (h.client c)
  | restore c id =>
    cases hstep
    exact h.setClient (h.client c)
  | consent c continueWithWarnings =>
    cases hstep
    exact h.setClient (h.client c)
  | persist c =>
    obtain ⟨data, _, rfl⟩ := Option.map_eq_some_iff.mp hstep
    exact ⟨h.server, h.client, h.sent⟩
  | approve c ctx =>
    cases hstep
    refine ⟨h.server, h.client, ?_⟩
    intro p hp
    rcases List.mem_append.mp hp with hp | hp
    · exact h.sent p hp
    · rw [List.mem_singleton.mp hp]
      exact h.client c
  | approved c =>
    cases hstep
    have hset : Inv orm cond (w.setClient c (w.client c).approvalAccepted) :=
      h.setClient (h.client c)
    exact ⟨hset.server, hset.client, hset.sent⟩

/-- **Run lemma:** the invariant of every world that is reached. -/
theorem inv_of_reaches (hfresh : Fresh w) (hreach : Reaches orm cond w w') :
    Inv orm cond w' := by
  induction hreach with
  | refl =>
    obtain ⟨db, hserver⟩ := hfresh.server
    refine ⟨⟨db, hserver ▸ .refl⟩, fun c data hdata => ?_, fun p hp => ?_⟩
    · rw [hfresh.client c] at hdata
      cases hdata
    · rw [hfresh.sent] at hp
      cases hp
  | tail _ hstep ih => exact inv_of_step ih hstep

/-- From `w` to `w'` the server commits the approval that `client` has sent. -/
def Accepts (orm : Orm) (w : World) (client : Client) (ctx : MaterialReviewContext) (w' : World) :
    Prop :=
  (client, ctx) ∈ w.sent ∧ ∃ t ∈ w.server.active, client.handleApprove ctx = some t.call ∧
    (∃ a, t.program = .done a) ∧ w.step orm (.server (.exec t.id)) = some w'

end World

/-- What the list shows of a slot: its status and its question. -/
def MaterialReviewQuestion.shown (q : MaterialReviewQuestion) :
    SlotId × ReviewQuestionStatus × Option QuestionId := (q.id, q.status, q.questionId)

/-- The edits of a list, applied to the slots that it fetched, are what it shows. -/
theorem questions_eq_edited {client : Client} {data : ReviewData} {qs : List MaterialReviewQuestion}
    (hreview : client.currentReview = some data) (hquestions : orderByPosition qs = data.questions)
    (hqs : ∀ q ∈ qs, q.materialRequestId = client.materialId) :
    orderByPosition (qs.map (editQuestion client.materialId
      (client.request data client.edits.replacements client.edits.removals))) =
      client.questions := by
  have hposition : ∀ q, (client.edits.overlay q).position = q.position := by
    intro q
    unfold LocalEdits.overlay
    split
    · rfl
    · split <;> rfl
  have hoverlay : qs.map (editQuestion client.materialId
      (client.request data client.edits.replacements client.edits.removals)) =
      qs.map client.edits.overlay := by
    apply List.map_congr_left
    intro q hq
    exact editQuestion_eq_overlay (hqs q hq) rfl rfl
  rw [hoverlay, orderByPosition_map hposition, hquestions, Client.questions, hreview]

/-- In the runs under a condition, however any number of clients read, draft and approve and
callbacks come in between: when `client` shows the review fetched for its material and has its
approval accepted, every slot is left as the list showed it. -/
def ApprovedAsShown (orm : Orm) (cond : State → Event UseCase → Prop) (client : Client) : Prop :=
  ∀ (w₀ w w' : World) (ctx : MaterialReviewContext), w₀.Fresh →
    World.Reaches orm cond w₀ w → World.Accepts orm w client ctx w' →
    client.currentReview.map ReviewData.materialId = some client.materialId →
    (orderByPosition (w'.server.db.slotsOf client.materialId)).map
      MaterialReviewQuestion.shown = client.questions.map MaterialReviewQuestion.shown

/-- An approval of request `r` that commits carries the version of the row, and edits the
slots as a list shows them whose review has that version. -/
theorem shown_of_editsAsApproved {client : Client} {data : ReviewData} {a b : Db}
    (hreview : client.currentReview = some data) (hseen : Seen client.materialId data a)
    (hmatch : versionMatches client.materialId data.version a = true)
    (hslots : b.slotsOf client.materialId = (a.slotsOf client.materialId).map
      (editQuestion client.materialId
        (client.request data client.edits.replacements client.edits.removals))) :
    orderByPosition (b.slotsOf client.materialId) = client.questions := by
  obtain ⟨q, hq, _, hsame⟩ := hseen
  have hversion : q.version = data.version := by simpa [versionMatches, hq] using hmatch
  have hall : ∀ q ∈ a.slotsOf client.materialId, q.materialRequestId = client.materialId := by
    intro q hq
    simpa using (List.mem_filter.mp hq).2
  rw [hslots, questions_eq_edited hreview (hsame hversion) hall]

/-- **The approved result is what the reviewer saw** in every run in which no stale version
is saved. -/
theorem approvedAsShown_of_noStaleSave (client : Client) :
    ApprovedAsShown .typeOrm NoStaleSave client := by
  intro w₀ w w' ctx hfresh hreach haccepted hshown
  have hinv := World.inv_of_reaches hfresh hreach
  obtain ⟨hsent, t, ht, hcall, ⟨a, hdone⟩, hstep⟩ := haccepted
  obtain ⟨data, hreview, hmaterial⟩ := Option.map_eq_some_iff.mp hshown
  obtain ⟨db, hserver⟩ := hinv.server
  -- the run of the server is one of the mapper that counts up
  obtain ⟨s, hreach', hchecked⟩ := exists_checked hserver
  have hempty : (agreementProtocol client.materialId).Inv ⟨db, []⟩ :=
    fun commit hcommit => by cases hcommit
  have hsound := agreementProtocol_sound countsUp_checked client.materialId
  have hs := consistent_of_reaches hsound (consistent_idle hempty) hreach'
  obtain ⟨t', ht', hcontext, hprogram⟩ := hchecked.exists_of_mem ht
  have hdone' : t'.program = .done a := (hdone ▸ hprogram).eq_done
  have hstarts : Machine.StartsOnly UseCase.IsCuration s (.exec t'.id) :=
    fun call h => by cases h
  obtain ⟨_, _, hedits⟩ := (commit_of_consistent hsound hs ht' hdone' hstarts).2
  -- the approval carries the version and the edits of the list
  have happrove : t'.call = .approve client.materialId
      (client.request data client.edits.replacements client.edits.removals) ctx := by
    rw [Client.handleApprove, hreview] at hcall
    rw [hcontext]
    exact (Option.some.inj hcall).symm
  obtain ⟨hmatch, hslots⟩ := hedits _ _ ctx rfl happrove
  -- the list was fetched from the committed state
  obtain ⟨commit, hcommit, hresult⟩ := hinv.sent _ hsent data hreview
  rw [← hchecked.toSnapshot] at hcommit
  have hseen := hs.inv commit hcommit data hresult hmaterial
  have hafter : w'.server.db = t'.log s.db := by
    have hnodup : (w.server.active.map fun t => t.id).Nodup := hchecked.ids ▸ hs.nodup
    have hfind : w.server.find t.id = some t := System.find_of_nodup hnodup ht
    simp only [World.step, Machine.step, hfind, hdone, Option.map_some,
      Option.some.injEq] at hstep
    rw [← hstep, hcontext, hchecked.toSnapshot]
    rfl
  rw [Snapshot.commit_db, ← hafter] at hslots
  rw [shown_of_editsAsApproved hreview hseen hmatch hslots]

/-- A slot of request 1. -/
def slotRow (id : SlotId) (question : Option QuestionId) (position : ℕ) :
    MaterialReviewQuestion :=
  { id := id
    materialRequestId := 1
    questionId := question
    topicId := 2
    subtopicId := 3
    expectedLevel := some "BASICO"
    position := position
    status := if question.isSome then .found else .empty }

/-- A tenant with a request that waits for its review. -/
def reviewDb : Db where
  courses := ⟨[courseRow 10 1 5 .pending], by decide⟩
  requests := ⟨[requestRow 1 7 .reviewRequired], by decide⟩
  materials := ⟨[materialRow 7 .reviewRequired 1], by decide⟩
  slots := ⟨[slotRow 20 (some 100) 1, slotRow 21 none 2, slotRow 22 (some 102) 3], by decide⟩
  usages := .empty
  catalog := ⟨[], [], [], [], [⟨2, 5⟩]⟩

/-- Two administrators, neither of whom has opened a review yet. -/
def reviewWorld : World where
  server := System.idle reviewDb
  client := fun c => ⟨c, 0, none, .empty, false⟩
  storage := fun _ _ => none
  sent := []

/-- The answer of the first review read of request 1. -/
def firstAnswer : ReviewData :=
  { materialId := 1
    status := .inReview
    version := 2
    questions := [slotRow 20 (some 100) 1, slotRow 21 none 2, slotRow 22 (some 102) 3] }

/-- The answer of the second one, which has saved the version that it had loaded. -/
def staleAnswer : ReviewData := { firstAnswer with version := 1 }

/-- Both open the review at the same time, and the second read takes the version back. The
second administrator then drafts the removal of slot 22, and the first one approves. -/
def staleActions : List Action :=
  [.fetch 0 1, .fetch 1 1, .server (.start (.review 1)), .server (.start (.review 1)),
    .server (.exec 0), .server (.exec 1)] ++ List.replicate 5 (.server (.exec 0)) ++
    List.replicate 5 (.server (.exec 1)) ++
    [.deliver 0 firstAnswer, .deliver 1 staleAnswer,
      .server (.start (.saveDraft 1 ⟨1, false, [], [22]⟩))] ++
    List.replicate 4 (.server (.exec 2)) ++
    [.select 0 ⟨21, 105⟩, .approve 0 ⟨1, 1⟩,
      .server (.start (.approve 1 ⟨2, false, [⟨21, 105⟩], []⟩ ⟨1, 1⟩))] ++
    List.replicate 12 (.server (.exec 3))

/-- The world just before the approval commits. -/
def staleWorld : World := reviewWorld.endWorld .typeOrm staleActions

/-- The world with the approval committed. -/
def approvedWorld : World := staleWorld.endWorld .typeOrm [.server (.exec 3)]

/-- The approval of a review that has changed is accepted: slot 22 is removed, though the list
of the first administrator still shows its question. -/
theorem not_approvedAsShown : ¬∀ client, ApprovedAsShown .typeOrm (fun _ _ => True) client := by
  intro h
  have hfresh : reviewWorld.Fresh := ⟨⟨reviewDb, rfl⟩, fun _ => rfl, rfl⟩
  have hreach : World.Reaches .typeOrm (fun _ _ => True) reviewWorld staleWorld := by
    refine World.reaches_endWorld (by decide +kernel) ?_
    rintro action haction s e rfl
    refine ⟨?_, trivial⟩
    rintro call rfl
    simp only [staleActions, List.mem_cons, List.mem_append, List.mem_replicate, reduceCtorEq,
      Action.server.injEq, Event.start.injEq, and_false, false_or, or_false,
      List.not_mem_nil] at haction
    rcases haction with ((rfl | rfl) | rfl) | rfl
    all_goals exact fun _ h => by cases h
  obtain ⟨t, hfind⟩ := Option.isSome_iff_exists.mp
    (show (staleWorld.server.find 3).isSome = true by decide +kernel)
  obtain ⟨ht, hid⟩ := System.of_find hfind
  have hcall : (staleWorld.client 0).handleApprove ⟨1, 1⟩ = some t.call := by
    have hcalls : (staleWorld.server.find 3).map (fun t => t.call) =
        (staleWorld.client 0).handleApprove ⟨1, 1⟩ := by decide +kernel
    rw [← hcalls, hfind, Option.map_some]
  have hdone : ∃ a, t.program = .done a := by
    have hended : (staleWorld.server.find 3).map (fun t => t.program.isDone) = some true := by
      decide +kernel
    rw [hfind, Option.map_some, Option.some.injEq] at hended
    exact Program.isDone_iff.mp hended
  have hstep : staleWorld.step .typeOrm (.server (.exec t.id)) = some approvedWorld := by
    have hcommits : (staleWorld.step .typeOrm (.server (.exec 3))).isSome = true := by
      decide +kernel
    obtain ⟨w, hw⟩ := Option.isSome_iff_exists.mp hcommits
    rw [hid, approvedWorld, World.endWorld, World.run, hw]
    rfl
  have hsent : (staleWorld.client 0, ⟨1, 1⟩) ∈ staleWorld.sent := by
    have hlast : staleWorld.sent = [(staleWorld.client 0, ⟨1, 1⟩)] := by rfl
    rw [hlast]
    exact List.mem_singleton.mpr rfl
  have hshown := h (staleWorld.client 0) reviewWorld staleWorld approvedWorld ⟨1, 1⟩ hfresh hreach
    ⟨hsent, t, ht, hcall, hdone, hstep⟩ (by decide +kernel)
  revert hshown
  decide +kernel

end Odiseo.Materials
