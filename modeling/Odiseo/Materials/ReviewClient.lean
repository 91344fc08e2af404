import Odiseo.Materials.Machine

/-!
# The review list of the browser

`MaterialReviewList.vue` with the parts of the materials store that it works on: the
last fetched review, the local replacements and removals, and the requests that its
handlers send. Edits are kept locally until an approval is accepted; each one is also
sent as a draft, whose answer is not looked at.
-/

namespace Odiseo.Materials

/-- `localReplacements[id] = questionId`: an existing entry is overwritten in place. -/
def assignReplacement (item : ReplacementItem) : List ReplacementItem → List ReplacementItem
  | [] => [item]
  | x :: xs =>
    if x.reviewQuestionId = item.reviewQuestionId then item :: xs
    else x :: assignReplacement item xs

/-- `delete localReplacements[id]`. -/
def deleteReplacement (id : SlotId) (items : List ReplacementItem) : List ReplacementItem :=
  items.filter fun x => x.reviewQuestionId != id

/-- `localRemovals.add(id)`. -/
def addRemoval (id : SlotId) (ids : List SlotId) : List SlotId :=
  if id ∈ ids then ids else ids ++ [id]

/-- `localRemovals.delete(id)`. -/
def deleteRemoval (id : SlotId) (ids : List SlotId) : List SlotId := ids.filter fun x => x != id

/-- The slots after an assignment are the old ones and the assigned one. -/
theorem mem_assignReplacement {item x : ReplacementItem} {items : List ReplacementItem}
    (h : x ∈ assignReplacement item items) : x = item ∨ x ∈ items := by
  induction items with
  | nil => exact .inl (by simpa [assignReplacement] using h)
  | cons y ys ih =>
    unfold assignReplacement at h
    split at h
    · rcases List.mem_cons.mp h with rfl | h
      · exact .inl rfl
      · exact .inr (List.mem_cons_of_mem y h)
    · rcases List.mem_cons.mp h with rfl | h
      · exact .inr (List.mem_cons_self ..)
      · exact (ih h).imp_right (List.mem_cons_of_mem y)

/-- An assignment keeps the entries of different slots apart. -/
theorem nodup_assignReplacement {item : ReplacementItem} {items : List ReplacementItem}
    (h : (items.map (·.reviewQuestionId)).Nodup) :
    ((assignReplacement item items).map (·.reviewQuestionId)).Nodup := by
  induction items with
  | nil => simp [assignReplacement]
  | cons y ys ih =>
    obtain ⟨hfresh, hrest⟩ := List.nodup_cons.mp h
    unfold assignReplacement
    split
    · rename_i heq
      refine List.nodup_cons.mpr ⟨?_, hrest⟩
      simpa only [heq] using hfresh
    · rename_i hne
      refine List.nodup_cons.mpr ⟨?_, ih hrest⟩
      intro hmem
      obtain ⟨x, hx, hxy⟩ := List.mem_map.mp hmem
      rcases mem_assignReplacement hx with rfl | hx
      · exact hne hxy.symm
      · exact hfresh (hxy ▸ List.mem_map_of_mem hx)

/-- The local edits of a review: `pendingReplacements` and `pendingRemovals`. A slot is
never replaced and removed at once. -/
structure LocalEdits where
  replacements : List ReplacementItem
  removals : List SlotId
  /-- A record has one entry for each slot. -/
  nodup : (replacements.map (·.reviewQuestionId)).Nodup
  /-- A replaced slot is not removed. -/
  disjoint : ∀ item ∈ replacements, item.reviewQuestionId ∉ removals

namespace LocalEdits

/-- No edits. -/
def empty : LocalEdits := ⟨[], [], by simp, by simp⟩

/-- The slot `item.reviewQuestionId` gets a new question. -/
def replace (e : LocalEdits) (item : ReplacementItem) : LocalEdits where
  replacements := assignReplacement item e.replacements
  removals := deleteRemoval item.reviewQuestionId e.removals
  nodup := nodup_assignReplacement e.nodup
  disjoint := by
    intro x hx hmem
    obtain ⟨hmem, hne⟩ := List.mem_filter.mp hmem
    rcases mem_assignReplacement hx with rfl | hx
    · simp at hne
    · exact e.disjoint x hx hmem

/-- The slot `id` is removed. -/
def remove (e : LocalEdits) (id : SlotId) : LocalEdits where
  replacements := deleteReplacement id e.replacements
  removals := addRemoval id e.removals
  nodup := e.nodup.sublist (List.filter_sublist.map _)
  disjoint := by
    intro x hx hmem
    obtain ⟨hx, hne⟩ := List.mem_filter.mp hx
    unfold addRemoval at hmem
    split at hmem
    · exact e.disjoint x hx hmem
    · rcases List.mem_append.mp hmem with hmem | hmem
      · exact e.disjoint x hx hmem
      · simp [List.mem_singleton.mp hmem] at hne

/-- The local edits of slot `id` are dropped. -/
def restore (e : LocalEdits) (id : SlotId) : LocalEdits where
  replacements := deleteReplacement id e.replacements
  removals := deleteRemoval id e.removals
  nodup := e.nodup.sublist (List.filter_sublist.map _)
  disjoint := fun x hx hmem =>
    e.disjoint x (List.mem_filter.mp hx).1 (List.mem_filter.mp hmem).1

/-- What the list shows for a fetched slot. -/
def overlay (e : LocalEdits) (q : MaterialReviewQuestion) : MaterialReviewQuestion :=
  if q.id ∈ e.removals then { q with status := .removed }
  else
    match e.replacements.find? fun x => x.reviewQuestionId = q.id with
    | some item => { q with status := .replaced, questionId := some item.questionId }
    | none => q

end LocalEdits

/-- A browser tab that shows a `MaterialReviewList`. -/
structure Client where
  /-- Tabs of one browser share its local storage. -/
  browser : ℕ
  /-- The `materialId` of the list. -/
  materialId : RequestId
  /-- `currentReview`, the last review that was fetched. -/
  currentReview : Option ReviewData
  edits : LocalEdits
  continueWithWarnings : Bool

namespace Client

/-- `questions`: the slots of the fetched review under the local edits. -/
def questions (c : Client) : List MaterialReviewQuestion :=
  match c.currentReview with
  | none => []
  | some data => data.questions.map c.edits.overlay

/-- The body of a draft or an approval, for a fetched review. -/
def request (c : Client) (data : ReviewData) (replacements : List ReplacementItem)
    (removals : List SlotId) : ApproveReview :=
  { version := data.version
    continueWithWarnings := c.continueWithWarnings
    replacements := replacements
    removals := removals }

/-- `fetchReviewData`: the list opens a review. The local edits of another review are
replaced by those that `saved` holds in the local storage. -/
def fetchReviewData (c : Client) (materialId : RequestId) (saved : Option LocalEdits) : Client :=
  if c.currentReview.map ReviewData.materialId = some materialId then
    { c with materialId := materialId }
  else { c with materialId := materialId, edits := saved.getD .empty }

/-- The answer of `fetchReviewData` arrives. -/
def reviewFetched (c : Client) (data : ReviewData) : Client := { c with currentReview := some data }

/-- `handleQuestionSelected`: a question is chosen for a slot. -/
def handleQuestionSelected (c : Client) (item : ReplacementItem) : Client × Option UseCase :=
  ({ c with edits := c.edits.replace item },
    c.currentReview.map fun data => .saveDraft c.materialId (c.request data [item] []))

/-- `confirmRemove`: a slot is removed. -/
def confirmRemove (c : Client) (id : SlotId) : Client × Option UseCase :=
  ({ c with edits := c.edits.remove id },
    c.currentReview.map fun data => .saveDraft c.materialId (c.request data [] [id]))

/-- `handleRestore`: the local edits of a slot are taken back. -/
def handleRestore (c : Client) (id : SlotId) : Client := { c with edits := c.edits.restore id }

/-- `handleApprove`: the local edits are sent with the version of the fetched review. -/
def handleApprove (c : Client) (ctx : MaterialReviewContext) : Option UseCase :=
  c.currentReview.map fun data =>
    .approve c.materialId (c.request data c.edits.replacements c.edits.removals) ctx

/-- The answer of an accepted approval arrives. -/
def approvalAccepted (c : Client) : Client := { c with edits := .empty }

end Client

end Odiseo.Materials
