import Odiseo.Materials.ReviewClient
import Mathlib.Logic.Function.Basic

/-!
# Local drafts of a review

`useMaterialsStore` keeps the edits of the opened review and saves them in the local storage, one
entry for each material. The watcher that saves them runs some time after a change and names the
entry by the review that is loaded then. A review is loaded when its fetch is answered; the edits
are exchanged when it is opened.
-/

namespace Odiseo.Materials

/-- `pendingReplacements` and `pendingRemovals`, with `pendingReplacementsData`: what the search has
shown of the new question of a slot. -/
structure PendingEdits (Q : Type) where
  edits : LocalEdits
  replacementsData : SlotId → Option Q

namespace PendingEdits

variable {Q : Type}

/-- No pending edits. -/
def empty : PendingEdits Q := ⟨.empty, fun _ => none⟩

/-- `handleQuestionSelected`. -/
def handleQuestionSelected (item : ReplacementItem) (newQuestion : Q) (p : PendingEdits Q) :
    PendingEdits Q where
  edits := p.edits.replace item
  replacementsData := Function.update p.replacementsData item.reviewQuestionId (some newQuestion)

end PendingEdits

/-- The part of the store that concerns the drafts. -/
structure DraftStore (Q : Type) where
  /-- `currentReview.value?.materialId`. -/
  currentReview : Option RequestId
  pending : PendingEdits Q
  /-- The entries `draft_…` of the local storage. -/
  drafts : RequestId → Option (PendingEdits Q)
  /-- The watcher of the pending edits is to run. -/
  queued : Bool
  /-- The materials whose reviews have been asked for. -/
  fetches : List RequestId

/-- What happens to the store. An edit assigns the pending edits, or changes them in place, in any
way. -/
inductive DraftEvent (Q : Type)
  | fetchReviewData (materialId : RequestId)
  | fetched (i : ℕ)
  | fetchFailed (i : ℕ)
  | edit (change : PendingEdits Q → PendingEdits Q)
  | curationApproved (materialId : RequestId)
  | watcher

namespace DraftStore

variable {Q : Type}

/-- The store of a new page. -/
def initial (drafts : RequestId → Option (PendingEdits Q)) : DraftStore Q where
  currentReview := none
  pending := .empty
  drafts := drafts
  queued := false
  fetches := []

/-- `fetchReviewData`, up to its request. -/
def fetchReviewData (materialId : RequestId) (s : DraftStore Q) : DraftStore Q :=
  let opened :=
    if s.currentReview ≠ some materialId then
      { s with pending := (s.drafts materialId).getD .empty, queued := true }
    else s
  { opened with fetches := opened.fetches ++ [materialId] }

/-- `fetchReviewData`, when its request is answered. -/
def fetched (i : ℕ) (s : DraftStore Q) : DraftStore Q :=
  match s.fetches[i]? with
  | none => s
  | some materialId =>
    { s with currentReview := some materialId, fetches := s.fetches.eraseIdx i }

/-- `approveCuration`, when its request has been accepted. -/
def curationApproved (materialId : RequestId) (s : DraftStore Q) : DraftStore Q :=
  { s with
    pending := .empty
    drafts := Function.update s.drafts materialId none
    queued := true }

/-- The watcher saves the pending edits in the entry of the loaded review. -/
def watcher (s : DraftStore Q) : DraftStore Q :=
  if s.queued then
    match s.currentReview with
    | none => { s with queued := false }
    | some materialId =>
      { s with drafts := Function.update s.drafts materialId (some s.pending), queued := false }
  else s

/-- The store after an event. -/
def step (s : DraftStore Q) : DraftEvent Q → DraftStore Q
  | .fetchReviewData materialId => s.fetchReviewData materialId
  | .fetched i => s.fetched i
  | .fetchFailed i => { s with fetches := s.fetches.eraseIdx i }
  | .edit change => { s with pending := change s.pending, queued := true }
  | .curationApproved materialId => s.curationApproved materialId
  | .watcher => s.watcher

end DraftStore

/-- The store with what the user has done: the material that was opened last, and the edits made for
each material since its last approval. -/
structure ReviewSession (Q : Type) where
  store : DraftStore Q
  opened : Option RequestId
  made : RequestId → PendingEdits Q

namespace ReviewSession

variable {Q : Type}

/-- A new page: the edits of earlier ones are those in the local storage. -/
def initial (drafts : RequestId → Option (PendingEdits Q)) : ReviewSession Q where
  store := .initial drafts
  opened := none
  made materialId := (drafts materialId).getD .empty

/-- The session after an event. An edit is made for the material that was opened last. -/
def step (s : ReviewSession Q) (e : DraftEvent Q) : ReviewSession Q where
  store := s.store.step e
  opened :=
    match e with
    | .fetchReviewData materialId => some materialId
    | _ => s.opened
  made :=
    match e with
    | .edit change =>
      match s.opened with
      | none => s.made
      | some materialId => Function.update s.made materialId (change (s.made materialId))
    | .curationApproved materialId => Function.update s.made materialId .empty
    | _ => s.made

/-- The entry of a material is not there, or holds the edits made for it. -/
def Saved (s : ReviewSession Q) (materialId : RequestId) : Prop :=
  s.store.drafts materialId = none ∨ s.store.drafts materialId = some (s.made materialId)

/-- **Drafts are not mixed**: the entry of each material holds the edits made for it, if there is
one, except for the opened material while the watcher is to run; and the opened material has the
edits made for it. -/
structure Unmixed (s : ReviewSession Q) : Prop where
  entries : ∀ materialId, s.Saved materialId ∨
    s.store.queued = true ∧ s.opened = some materialId
  restored : ∀ materialId, s.opened = some materialId → s.store.pending = s.made materialId

/-- The drafts are not mixed at any time of some events. -/
def NeverMixes (s : ReviewSession Q) : List (DraftEvent Q) → Prop
  | [] => s.Unmixed
  | e :: events => s.Unmixed ∧ (s.step e).NeverMixes events

/-- An event that mixes no drafts.

A material may be opened when the entry of the one before it is saved and its own entry holds its
edits; when its review is loaded, so that the entry is not read, it must be the opened one or have
the pending edits. The watcher may run when the loaded review is that of the opened material; when
it is another one, that must have the pending edits and the opened material no entry to be saved. -/
def Harmless (s : ReviewSession Q) : DraftEvent Q → Prop
  | .fetchReviewData materialId =>
    (∀ m, s.opened = some m → m ≠ materialId → s.Saved m) ∧
      if s.store.currentReview = some materialId then
        s.opened = some materialId ∨ s.store.pending = s.made materialId
      else (s.store.drafts materialId).getD .empty = s.made materialId
  | .curationApproved materialId =>
    s.opened = some materialId ∨ ∀ m, s.opened = some m → s.made m = .empty
  | .watcher =>
    s.store.queued = true → s.store.currentReview = s.opened ∨
      (∀ m, s.opened = some m → s.Saved m) ∧
        ∀ m, s.store.currentReview = some m → s.store.pending = s.made m
  | .fetched _ | .fetchFailed _ | .edit _ => True

/-- All events mix no drafts where they happen. -/
def AllHarmless (s : ReviewSession Q) : List (DraftEvent Q) → Prop
  | [] => True
  | e :: events => s.Harmless e ∧ (s.step e).AllHarmless events

section Steps

variable {s : ReviewSession Q}

/-- A new page mixes no drafts. -/
theorem unmixed_initial (drafts : RequestId → Option (PendingEdits Q)) :
    (initial drafts).Unmixed := by
  constructor
  · intro materialId
    left
    unfold Saved initial DraftStore.initial
    dsimp only
    cases drafts materialId with
    | none => exact Or.inl rfl
    | some draft => exact Or.inr rfl
  · intro materialId hopened
    cases hopened

/-- What leaves the pending edits, the entries and the user's part as they are mixes nothing. -/
theorem Unmixed.congr {s' : ReviewSession Q} (h : s.Unmixed)
    (hpending : s'.store.pending = s.store.pending) (hdrafts : s'.store.drafts = s.store.drafts)
    (hqueued : s'.store.queued = s.store.queued) (hopened : s'.opened = s.opened)
    (hmade : s'.made = s.made) : s'.Unmixed := by
  constructor
  · intro materialId
    unfold Saved
    rw [hdrafts, hqueued, hopened, hmade]
    exact h.entries materialId
  · intro materialId hm
    rw [hpending, hmade]
    exact h.restored materialId (hopened ▸ hm)

/-- The answer of a fetch mixes nothing. -/
theorem unmixed_fetched (h : s.Unmixed) (i : ℕ) : (s.step (.fetched i)).Unmixed := by
  have hframe : (s.store.fetched i).pending = s.store.pending ∧
      (s.store.fetched i).drafts = s.store.drafts ∧
      (s.store.fetched i).queued = s.store.queued := by
    unfold DraftStore.fetched
    cases s.store.fetches[i]? <;> exact ⟨rfl, rfl, rfl⟩
  exact h.congr hframe.1 hframe.2.1 hframe.2.2 rfl rfl

/-- An edit is made for the opened material. -/
theorem made_edit {m : RequestId} (hopened : s.opened = some m)
    (change : PendingEdits Q → PendingEdits Q) :
    (s.step (.edit change)).made = Function.update s.made m (change (s.made m)) := by
  simp only [step, hopened]

/-- Without an opened material an edit is made for none. -/
theorem made_edit_of_none (hopened : s.opened = none) (change : PendingEdits Q → PendingEdits Q) :
    (s.step (.edit change)).made = s.made := by
  simp only [step, hopened]

/-- An edit mixes nothing. -/
theorem unmixed_edit (h : s.Unmixed) (change : PendingEdits Q → PendingEdits Q) :
    (s.step (.edit change)).Unmixed := by
  cases hopened : s.opened with
  | none =>
    have hmade := made_edit_of_none hopened change
    constructor
    · intro materialId
      rcases h.entries materialId with hsaved | ⟨-, hm⟩
      · left
        unfold Saved
        rw [hmade]
        exact hsaved
      · rw [hopened] at hm
        cases hm
    · intro materialId hm
      change s.opened = some materialId at hm
      rw [hopened] at hm
      cases hm
  | some m =>
    have hmade := made_edit hopened change
    constructor
    · intro materialId
      by_cases hsame : materialId = m
      · exact Or.inr ⟨rfl, hopened.trans (congrArg some hsame.symm)⟩
      · rcases h.entries materialId with hsaved | ⟨-, hm⟩
        · left
          unfold Saved
          rw [hmade, Function.update_of_ne hsame]
          exact hsaved
        · exact absurd (Option.some.inj (hm.symm.trans hopened)) hsame
    · intro materialId hm
      have hsame : materialId = m := Option.some.inj (Eq.trans (Eq.symm hm) hopened)
      rw [hmade, hsame, Function.update_self]
      exact congrArg change (h.restored m hopened)

/-- The opening of a material mixes nothing exactly when it is harmless. -/
theorem unmixed_fetchReviewData_iff (h : s.Unmixed) (materialId : RequestId) :
    (s.step (.fetchReviewData materialId)).Unmixed ↔ s.Harmless (.fetchReviewData materialId) := by
  have hdrafts : (s.step (.fetchReviewData materialId)).store.drafts = s.store.drafts := by
    change (s.store.fetchReviewData materialId).drafts = _
    unfold DraftStore.fetchReviewData
    split <;> rfl
  have hsaved : ∀ m, (s.step (.fetchReviewData materialId)).Saved m ↔ s.Saved m := by
    intro m
    unfold Saved
    rw [hdrafts]
    rfl
  have hstill : s.store.queued = true →
      (s.step (.fetchReviewData materialId)).store.queued = true := by
    intro hqueued
    change (s.store.fetchReviewData materialId).queued = true
    unfold DraftStore.fetchReviewData
    split
    · rfl
    · exact hqueued
  have hpending : (s.step (.fetchReviewData materialId)).store.pending = s.made materialId ↔
      if s.store.currentReview = some materialId then
        s.opened = some materialId ∨ s.store.pending = s.made materialId
      else (s.store.drafts materialId).getD .empty = s.made materialId := by
    change (s.store.fetchReviewData materialId).pending = _ ↔ _
    unfold DraftStore.fetchReviewData
    by_cases hloaded : s.store.currentReview = some materialId
    · rw [if_neg (not_not.mpr hloaded), if_pos hloaded]
      refine ⟨Or.inr, fun hor => ?_⟩
      rcases hor with hopened | hpending
      · exact h.restored materialId hopened
      · exact hpending
    · rw [if_pos hloaded, if_neg hloaded]
  constructor
  · intro hafter
    refine ⟨fun m hopened hne => ?_, hpending.mp (hafter.restored materialId rfl)⟩
    rcases hafter.entries m with hm | ⟨-, hm⟩
    · exact (hsaved m).mp hm
    · exact absurd (Option.some.inj hm).symm hne
  · rintro ⟨hbefore, hown⟩
    constructor
    · intro m
      by_cases hsame : m = materialId
      · rcases h.entries m with hm | ⟨hqueued, -⟩
        · exact Or.inl ((hsaved m).mpr hm)
        · exact Or.inr ⟨hstill hqueued, congrArg some hsame.symm⟩
      · left
        rw [hsaved]
        rcases h.entries m with hm | ⟨-, hopened⟩
        · exact hm
        · exact hbefore m hopened hsame
    · intro m hm
      cases hm
      exact hpending.mpr hown

/-- An approval that is accepted mixes nothing exactly when it is harmless. -/
theorem unmixed_curationApproved_iff (h : s.Unmixed) (materialId : RequestId) :
    (s.step (.curationApproved materialId)).Unmixed ↔
      s.Harmless (.curationApproved materialId) := by
  have hmade : (s.step (.curationApproved materialId)).made =
      Function.update s.made materialId .empty := rfl
  have hdrafts : (s.step (.curationApproved materialId)).store.drafts =
      Function.update s.store.drafts materialId none := rfl
  constructor
  · intro hafter
    by_cases hsame : s.opened = some materialId
    · exact Or.inl hsame
    · refine Or.inr fun m hopened => ?_
      have hne : m ≠ materialId := by
        rintro rfl
        exact hsame hopened
      have hrestored := hafter.restored m hopened
      rw [hmade, Function.update_of_ne hne] at hrestored
      exact hrestored.symm
  · intro hharmless
    constructor
    · intro m
      by_cases hsame : m = materialId
      · left
        left
        rw [hdrafts, hsame, Function.update_self]
      · rcases h.entries m with hm | ⟨-, hopened⟩
        · left
          unfold Saved
          rw [hdrafts, hmade, Function.update_of_ne hsame, Function.update_of_ne hsame]
          exact hm
        · exact Or.inr ⟨rfl, hopened⟩
    · intro m hopened
      change PendingEdits.empty = _
      rw [hmade]
      by_cases hsame : m = materialId
      · rw [hsame, Function.update_self]
      · rw [Function.update_of_ne hsame]
        rcases hharmless with hown | hnone
        · exact absurd (Option.some.inj (Eq.trans (Eq.symm hopened) hown)) hsame
        · exact (hnone m hopened).symm

/-- Once the watcher has run, the entry of the loaded review holds the pending edits, and the other
entries are as before. -/
theorem drafts_watcher (hqueued : s.store.queued = true) (m : RequestId) :
    (s.step .watcher).store.drafts m =
      if s.store.currentReview = some m then some s.store.pending else s.store.drafts m := by
  change (s.store.watcher).drafts m = _
  unfold DraftStore.watcher
  rw [if_pos hqueued]
  cases hloaded : s.store.currentReview with
  | none => rfl
  | some c =>
    by_cases hsame : m = c
    · rw [hsame, if_pos rfl]
      exact Function.update_self c _ _
    · rw [if_neg fun heq => hsame (Option.some.inj heq).symm]
      exact Function.update_of_ne hsame _ _

/-- The watcher changes neither the pending edits nor the user's part, and is no longer to run. -/
theorem watcher_frame (s : ReviewSession Q) : (s.step .watcher).store.pending = s.store.pending ∧
    (s.step .watcher).made = s.made ∧ (s.step .watcher).store.queued = false := by
  refine ⟨?_, rfl, ?_⟩
  · change (s.store.watcher).pending = _
    unfold DraftStore.watcher
    split
    · cases s.store.currentReview <;> rfl
    · rfl
  · change (s.store.watcher).queued = _
    unfold DraftStore.watcher
    split
    · cases s.store.currentReview <;> rfl
    · rename_i hqueued
      exact Bool.eq_false_iff.mpr hqueued

/-- The watcher mixes nothing exactly when it is harmless. -/
theorem unmixed_watcher_iff (h : s.Unmixed) :
    (s.step .watcher).Unmixed ↔ s.Harmless .watcher := by
  obtain ⟨hpending, hmade, hidle⟩ := watcher_frame s
  by_cases hqueued : s.store.queued = true
  · have hdrafts := drafts_watcher hqueued
    constructor
    · intro hafter _
      have hsaved : ∀ m, (s.step .watcher).Saved m := by
        intro m
        rcases hafter.entries m with hm | ⟨hstill, -⟩
        · exact hm
        · rw [hidle] at hstill
          cases hstill
      by_cases hsame : s.store.currentReview = s.opened
      · exact Or.inl hsame
      · refine Or.inr ⟨fun m hopened => ?_, fun m hloaded => ?_⟩
        · have hm := hsaved m
          unfold Saved at hm
          rw [hdrafts, hmade, if_neg fun heq => hsame (heq.trans hopened.symm)] at hm
          exact hm
        · have hm := hsaved m
          unfold Saved at hm
          rw [hdrafts, hmade, if_pos hloaded] at hm
          rcases hm with hm | hm
          · cases hm
          · exact Option.some.inj hm
    · intro hharmless
      have hcases := hharmless hqueued
      constructor
      · intro m
        left
        unfold Saved
        rw [hdrafts, hmade]
        by_cases hloaded : s.store.currentReview = some m
        · rw [if_pos hloaded]
          right
          congr 1
          rcases hcases with hsame | ⟨-, hown⟩
          · exact h.restored m (hsame ▸ hloaded)
          · exact hown m hloaded
        · rw [if_neg hloaded]
          rcases h.entries m with hm | ⟨-, hopened⟩
          · exact hm
          · rcases hcases with hsame | ⟨hother, -⟩
            · exact absurd (hsame.trans hopened) hloaded
            · exact hother m hopened
      · intro m hopened
        rw [hpending, hmade]
        exact h.restored m hopened
  · have hstore : s.store.watcher = s.store := if_neg hqueued
    have hsame : s.step .watcher = s := by
      change ({ store := s.store.watcher, opened := s.opened, made := s.made } :
        ReviewSession Q) = s
      rw [hstore]
    rw [hsame]
    exact iff_of_true h fun htrue => absurd htrue hqueued

/-- **An event mixes no drafts** exactly when it is harmless. -/
theorem unmixed_step_iff (h : s.Unmixed) (e : DraftEvent Q) :
    (s.step e).Unmixed ↔ s.Harmless e := by
  cases e with
  | fetchReviewData materialId => exact unmixed_fetchReviewData_iff h materialId
  | fetched i => exact iff_of_true (unmixed_fetched h i) trivial
  | fetchFailed i => exact iff_of_true (h.congr rfl rfl rfl rfl rfl) trivial
  | edit change => exact iff_of_true (unmixed_edit h change) trivial
  | curationApproved materialId => exact unmixed_curationApproved_iff h materialId
  | watcher => exact unmixed_watcher_iff h

end Steps

/-- From a session that mixes no drafts, some events never do exactly when all are harmless. -/
theorem neverMixes_iff {s : ReviewSession Q} (h : s.Unmixed) (events : List (DraftEvent Q)) :
    s.NeverMixes events ↔ s.AllHarmless events := by
  induction events generalizing s with
  | nil => exact iff_of_true h trivial
  | cons e events ih =>
    constructor
    · rintro ⟨-, hevents⟩
      have hafter : (s.step e).Unmixed := by
        cases events with
        | nil => exact hevents
        | cons => exact hevents.1
      exact ⟨(unmixed_step_iff h e).mp hafter, (ih hafter).mp hevents⟩
    · rintro ⟨hharmless, hevents⟩
      exact ⟨h, (ih ((unmixed_step_iff h e).mpr hharmless)).mpr hevents⟩

/-- **When local drafts never mix**: exactly when each event is harmless where it happens. -/
theorem neverMixes_initial_iff (drafts : RequestId → Option (PendingEdits Q))
    (events : List (DraftEvent Q)) :
    (initial drafts).NeverMixes events ↔ (initial drafts).AllHarmless events :=
  neverMixes_iff (unmixed_initial drafts) events

/-- A material is opened, its review is loaded, and a slot gets another question; then another
material is opened. The watcher runs after each of these actions. -/
def twoOpenings : List (DraftEvent ℕ) :=
  [.fetchReviewData 1, .watcher, .fetched 0, .edit (.handleQuestionSelected ⟨10, 20⟩ 20), .watcher,
    .fetchReviewData 2, .watcher]

/-- The edits of the first material are overwritten with the empty ones of the second. -/
theorem not_neverMixes : ¬∀ (drafts : RequestId → Option (PendingEdits ℕ))
    (events : List (DraftEvent ℕ)), (initial drafts).NeverMixes events := by
  intro hall
  have hlast := (hall (fun _ => none) twoOpenings).2.2.2.2.2.2.2
  rcases hlast.entries 1 with (hnone | hsaved) | ⟨-, hopened⟩
  · cases hnone
  · have hcount := congrArg (Option.map fun p => p.edits.replacements.length) hsaved
    revert hcount
    decide
  · revert hopened
    decide

end ReviewSession

end Odiseo.Materials
