import Mathlib.Data.List.Induction
import Odiseo.Syllabi.Store

/-!
# What the store and the server do

How the counts of the identifiers that are shown change with the objects of the store, what a call
in flight holds and brings to a row, and what the writes of the server do to the cells of a syllabus.
-/

namespace Odiseo.Syllabi

open Database Database.Transition

section Lists

variable {α : Type} {l : List α} {k : ℕ} {x : α}

/-- A list around one of its elements. -/
theorem exists_eq_append_cons (h : l[k]? = some x) :
    ∃ before after, l = before ++ x :: after ∧ before.length = k := by
  obtain ⟨hk, rfl⟩ := List.getElem?_eq_some_iff.mp h
  refine ⟨l.take k, l.drop (k + 1), ?_, ?_⟩
  · rw [← List.drop_eq_getElem_cons hk, List.take_append_drop]
  · rw [List.length_take]
    omega

/-- The list after the element has been replaced. -/
theorem set_append_cons (before after : List α) (x y : α) :
    (before ++ x :: after).set before.length y = before ++ y :: after := by
  simp

/-- The list after the element has been taken out. -/
theorem eraseIdx_append_cons (before after : List α) (x : α) :
    (before ++ x :: after).eraseIdx before.length = before ++ after := by
  rw [List.eraseIdx_append_of_length_le (Nat.le_refl _)]
  simp

/-- The elements after it. -/
theorem drop_append_cons (before after : List α) (x : α) :
    (before ++ x :: after).drop (before.length + 1) = after := by
  simp [List.drop_append]

/-- The elements before it. -/
theorem take_append_cons (before after : List α) (x : α) :
    (before ++ x :: after).take before.length = before := by
  simp

/-- The elements with a property after another one has been appended. -/
theorem countP_concat (p : α → Bool) (l : List α) (x : α) :
    (l ++ [x]).countP p = l.countP p + if p x = true then 1 else 0 := by
  rw [List.countP_append, List.countP_singleton]

/-- The elements with a property before one has been taken out. -/
theorem countP_eraseIdx (p : α → Bool) (before after : List α) (x : α) :
    (before ++ x :: after).countP p =
      ((before ++ x :: after).eraseIdx before.length).countP p + if p x = true then 1 else 0 := by
  rw [eraseIdx_append_cons, List.countP_append, List.countP_append, List.countP_cons]
  omega

/-- The elements with a property, counted by their positions. -/
theorem countP_range (p : α → Bool) (l : List α) :
    (List.range l.length).countP (fun i => l[i]?.any p) = l.countP p := by
  induction l using List.reverseRecOn with
  | nil => rfl
  | append_singleton l x ih =>
    rw [List.length_append, List.length_singleton, List.range_succ, List.countP_append,
      List.countP_append, ← ih]
    congr 1
    · refine List.countP_congr fun i hi => ?_
      rw [List.getElem?_append_left (List.mem_range.mp hi)]
    · rw [List.countP_singleton, List.countP_singleton, List.getElem?_concat_length]
      rfl

/-- The last number stays when one that is not the last is taken out, or is the same as the one
before it. -/
theorem getLast?_getD_insert {before after : List ℕ} {n n' : ℕ}
    (h : after ≠ [] ∨ ∀ earlier ∈ before.getLast?, earlier = n) :
    (before ++ ([n] ++ after)).getLast?.getD n' = (before ++ after).getLast?.getD n := by
  cases after with
  | cons x after =>
    simp [List.getLast?_append, List.getLast?_cons]
  | nil =>
    have hlast := h.resolve_left fun hne => hne rfl
    rw [List.append_nil, List.append_nil, List.getLast?_concat, Option.getD_some]
    cases hbefore : before.getLast? with
    | none => rfl
    | some earlier => exact (hlast earlier hbefore).symm

end Lists

namespace Store

variable {store store' : Store} {x y : DistId} {a b : Ref} {d : StoredDistribution}

/-- A reference with an identifier is one to an object. -/
theorem hasId_iff : store.hasId x a = true ↔ ∃ d, store.objects[a]? = some d ∧ d.id = x := by
  unfold hasId
  cases store.objects[a]? with
  | none => simp
  | some d => simp

/-- An object has one identifier. -/
theorem eq_of_hasId (hx : store.hasId x a = true) (hy : store.hasId y a = true) : x = y := by
  obtain ⟨d, hd, rfl⟩ := hasId_iff.mp hx
  obtain ⟨e, he, rfl⟩ := hasId_iff.mp hy
  rw [Option.some.inj (hd.symm.trans he)]

/-- A reference with an identifier is one of those that have been handed out. -/
theorem lt_of_hasId (h : store.hasId x a = true) : a < store.objects.length := by
  obtain ⟨d, hd, -⟩ := hasId_iff.mp h
  exact (List.getElem?_eq_some_iff.mp hd).1

/-- The identifiers after an object has been made. -/
theorem hasId_append (h : store'.objects = store.objects ++ [d]) (x : DistId) (a : Ref) :
    store'.hasId x a = (store.hasId x a || (a == store.objects.length && d.id == x)) := by
  unfold hasId
  rw [h, List.getElem?_append]
  split
  · rename_i hlt
    have hne : (a == store.objects.length) = false := beq_false_of_ne (Nat.ne_of_lt hlt)
    rw [hne, Bool.false_and, Bool.or_false]
  · rename_i hge
    rw [List.getElem?_eq_none (by omega : store.objects.length ≤ a)]
    rcases Nat.eq_or_lt_of_le (Nat.le_of_not_lt hge) with heq | hlt
    · simp [heq]
    · have hne : (a == store.objects.length) = false := beq_false_of_ne (Nat.ne_of_gt hlt)
      rw [hne, List.getElem?_eq_none (by simp; omega)]
      rfl

/-- The identifiers stay when a number of questions is set. -/
@[simp]
theorem hasId_setQuestionCount (store : Store) (dist : Ref) (questionCount : ℕ) (x : DistId)
    (a : Ref) : (store.setQuestionCount dist questionCount).hasId x a = store.hasId x a := by
  unfold hasId setQuestionCount
  rw [List.getElem?_modify]
  cases store.objects[a]? with
  | none => rfl
  | some d =>
    by_cases h : dist = a
    · simp [h]
    · simp [h]

/-- How many of the cells that are shown have an identifier. -/
def count (store : Store) (x : DistId) : ℕ := store.distributions.countP (store.hasId x)

/-- The counts stay when a number of questions is set. -/
theorem count_setQuestionCount (store : Store) (dist : Ref) (questionCount : ℕ) (x : DistId) :
    (store.setQuestionCount dist questionCount).count x = store.count x := by
  unfold count
  rw [funext (hasId_setQuestionCount store dist questionCount x)]
  rfl

/-- The counts after an object has been made and is shown in the place of nothing or of another. -/
theorem count_append {before after : List Ref} (hobjects : store'.objects = store.objects ++ [d])
    (hdistributions : store'.distributions = before ++ store.objects.length :: after)
    (hbefore : ∀ a ∈ before, a < store.objects.length)
    (hafter : ∀ a ∈ after, a < store.objects.length) (x : DistId) :
    store'.count x = before.countP (store.hasId x) + after.countP (store.hasId x) +
      if d.id = x then 1 else 0 := by
  have hold : ∀ refs : List Ref, (∀ a ∈ refs, a < store.objects.length) →
      refs.countP (store'.hasId x) = refs.countP (store.hasId x) := by
    intro refs hrefs
    refine List.countP_congr fun a ha => ?_
    have hne : (a == store.objects.length) = false :=
      beq_false_of_ne (Nat.ne_of_lt (hrefs a ha))
    rw [hasId_append hobjects, hne, Bool.false_and, Bool.or_false]
  have hnone : store.hasId x store.objects.length = false := by
    unfold hasId
    rw [List.getElem?_eq_none (Nat.le_refl _)]
    rfl
  have hnew : store'.hasId x store.objects.length = (d.id == x) := by
    rw [hasId_append hobjects, hnone, Bool.false_or, beq_self_eq_true, Bool.true_and]
  unfold count
  rw [hdistributions, List.countP_append, List.countP_cons, hold before hbefore, hold after hafter,
    hnew]
  simp only [beq_iff_eq]
  omega

/-- The counts around a cell that is shown. -/
theorem count_eq {before after : List Ref}
    (hdistributions : store.distributions = before ++ a :: after) (ha : store.hasId y a = true)
    (x : DistId) :
    store.count x = before.countP (store.hasId x) + after.countP (store.hasId x) +
      if y = x then 1 else 0 := by
  have hiff : store.hasId x a = true ↔ y = x := ⟨fun hx => eq_of_hasId ha hx, fun hx => hx ▸ ha⟩
  unfold count
  rw [hdistributions, List.countP_append, List.countP_cons, if_congr hiff rfl rfl]
  omega

/-- The answer to an addition takes the place of a cell with the temporary identifier. -/
theorem settle_added {tempId : ℕ} (payload : CreateDistributionPayload)
    (row : SyllabusDistribution)
    (hshown : store.distributions.any (store.hasId (.temp tempId)) = true) :
    ∃ before a after, store.distributions = before ++ a :: after ∧
      store.hasId (.temp tempId) a = true ∧
        store.settle (.addDistribution tempId payload (.succeeded row)) =
          { objects := store.objects ++ [row.json]
            distributions := before ++ store.objects.length :: after } := by
  obtain ⟨index, hfind⟩ :
      ∃ index, store.distributions.findIdx? (store.hasId (.temp tempId)) = some index := by
    refine Option.isSome_iff_exists.mp ?_
    rw [List.findIdx?_isSome]
    exact hshown
  obtain ⟨hlt, htemp, -⟩ := List.findIdx?_eq_some_iff_getElem.mp hfind
  obtain ⟨before, after, hdistributions, rfl⟩ :=
    exists_eq_append_cons (List.getElem?_eq_getElem hlt)
  refine ⟨before, _, after, hdistributions, htemp, ?_⟩
  unfold settle
  dsimp only
  rw [hfind]
  dsimp only
  rw [hdistributions, set_append_cons]

end Store

namespace InFlight

/-- A call has a row in its hands: an addition that has succeeded, or a deletion without success. -/
def holds (u : Uuid) : InFlight → Bool
  | .addDistribution _ _ (.succeeded row) => row.id == u
  | .deleteDistribution (.uuid _) _ _ (.succeeded _) => false
  | .deleteDistribution (.uuid v) _ _ _ => v == u
  | _ => false

/-- What a call has captured is an object with the identifier that it was called with. -/
def Captured (store : Store) : InFlight → Prop
  | .addDistribution _ _ _ => True
  | .updateDistributionQuestionCount distId dist _ _ _ => store.hasId distId dist = true
  | .deleteDistribution distId _ backupDist _ => store.hasId distId backupDist = true

/-- A call that fails has captured what it had. -/
theorem captured_fail {store : Store} {call : InFlight} :
    call.fail.Captured store ↔ call.Captured store := by
  cases call <;> rfl

/-- It adds what it did. -/
theorem addsAs_fail (call : InFlight) (now : ℕ) : call.fail.addsAs now = call.addsAs now := by
  cases call <;> rfl

/-- A call that the server has not come to does not let go of a row when it fails. -/
theorem holds_fail {call : InFlight} (h : call.isWaiting = true) (u : Uuid) :
    call.fail.holds u = call.holds u := by
  cases call with
  | addDistribution tempId payload answer =>
    cases answer with
    | waiting => rfl
    | succeeded row => cases h
    | failed => cases h
  | updateDistributionQuestionCount distId dist prevQuestionCount questionCount answer => rfl
  | deleteDistribution distId distIndex backupDist answer =>
    cases answer with
    | waiting => cases distId <;> rfl
    | succeeded response => cases h
    | failed => cases h

/-- An update that fails rejects its number, and any other call leaves the updates alone. -/
theorem fail_cases {call : InFlight} (h : call.isWaiting = true) (u : Uuid) :
    call.fail.rejects u = true ∨
      (call.fail.rejects u = call.rejects u ∧ call.fail.bringsTo u = call.bringsTo u) := by
  cases call with
  | addDistribution tempId payload answer => exact .inr ⟨rfl, rfl⟩
  | updateDistributionQuestionCount distId dist prevQuestionCount questionCount answer =>
    cases answer with
    | succeeded response => cases h
    | failed => cases h
    | waiting =>
      cases distId with
      | temp now => exact .inr ⟨rfl, rfl⟩
      | uuid v =>
        by_cases hv : v = u
        · exact .inl (by simp [fail, rejects, hv])
        · exact .inr ⟨by simp [fail, rejects, hv], by simp [fail, bringsTo, hv]⟩
  | deleteDistribution distId distIndex backupDist answer => exact .inr ⟨rfl, rfl⟩

/-- What the write of a call can do: nothing, so that the call fails, or insert a new row, set the
number of questions of a row, or delete a row. -/
theorem write_cases (known : CatalogId → CatalogId → Bool) (syllabusId id : Uuid) (db : Db)
    {call : InFlight} (h : call.isWaiting = true) :
    call.write known syllabusId id db = (call.fail, db) ∨
      (∃ tempId payload row, call = .addDistribution tempId payload .waiting ∧ row.id = id ∧
        row.syllabusId = syllabusId ∧ db.distributions.find id = none ∧
          call.write known syllabusId id db =
            (.addDistribution tempId payload (.succeeded row), insertDistributionIn row db)) ∨
      (∃ u dist prevQuestionCount questionCount,
        call = .updateDistributionQuestionCount (.uuid u) dist prevQuestionCount questionCount
          .waiting ∧ noSuchCell u syllabusId db = false ∧
          call.write known syllabusId id db =
            (.updateDistributionQuestionCount (.uuid u) dist prevQuestionCount questionCount
              (.succeeded ()), setQuestionCountIn u syllabusId questionCount db)) ∨
      ∃ u distIndex backupDist,
        call = .deleteDistribution (.uuid u) distIndex backupDist .waiting ∧
          call.write known syllabusId id db =
            (.deleteDistribution (.uuid u) distIndex backupDist (.succeeded ()),
              deleteCellIn u syllabusId db) := by
  cases call with
  | addDistribution tempId payload answer =>
    cases answer with
    | succeeded row => cases h
    | failed => cases h
    | waiting =>
      simp only [write]
      cases payload.validate with
      | none => exact .inl rfl
      | some dto =>
        simp only [createDistribution, Program.run_attempt]
        cases hrefused : distributionTaken (dto.row syllabusId id) db ||
            danglingKey known (dto.row syllabusId id) db with
        | true => exact .inl rfl
        | false =>
          obtain ⟨htaken, -⟩ := Bool.or_eq_false_iff.mp hrefused
          obtain ⟨hfree, -⟩ := Bool.or_eq_false_iff.mp htaken
          obtain ⟨hid, -⟩ := Bool.or_eq_false_iff.mp hfree
          change (db.distributions.find id).isSome = false at hid
          refine .inr (.inl ⟨tempId, payload, dto.row syllabusId id, rfl, rfl, rfl, ?_, rfl⟩)
          simpa using hid
  | updateDistributionQuestionCount distId dist prevQuestionCount questionCount answer =>
    cases answer with
    | succeeded response => cases h
    | failed => cases h
    | waiting =>
      cases distId with
      | temp now => exact .inl rfl
      | uuid u =>
        simp only [write]
        split
        · simp only [writeQuestionCount, Program.run_attempt]
          cases hcell : noSuchCell u syllabusId db with
          | true => exact .inl rfl
          | false =>
            exact .inr (.inr (.inl ⟨u, dist, prevQuestionCount, questionCount, rfl, hcell, rfl⟩))
        · exact .inl rfl
  | deleteDistribution distId distIndex backupDist answer =>
    cases answer with
    | succeeded response => cases h
    | failed => cases h
    | waiting =>
      cases distId with
      | temp now => exact .inl rfl
      | uuid u =>
        simp only [write, Syllabi.deleteDistribution, Program.run_attempt]
        cases noSuchCell u syllabusId db with
        | true => exact .inl rfl
        | false => exact .inr (.inr (.inr ⟨u, distIndex, backupDist, rfl, rfl⟩))

end InFlight

section Calls

variable {before after calls calls' : List InFlight} {call call' : InFlight} {u : Uuid}

/-- The numbers on their way around a call. -/
theorem unwritten_append_cons (u : Uuid) (before after : List InFlight) (call : InFlight) :
    unwritten u (before ++ call :: after) =
      unwritten u before ++ ((call.bringsTo u).toList ++ unwritten u after) := by
  unfold unwritten
  rw [List.filterMap_append, List.filterMap_cons]
  cases call.bringsTo u <;> rfl

/-- The numbers on their way in the calls around it. -/
theorem unwritten_append (u : Uuid) (before after : List InFlight) :
    unwritten u (before ++ after) = unwritten u before ++ unwritten u after :=
  List.filterMap_append

/-- An object shows a row: it differs from it in the number of questions only, which is the expected
one while no failed update of the row waits for its answer. -/
structure StoredDistribution.Shows (d : StoredDistribution) (calls : List InFlight)
    (row : SyllabusDistribution) : Prop where
  cell : d = { row.json with questionCount := d.questionCount }
  questionCount : calls.any (·.rejects row.id) = false →
    d.questionCount = expected row.id calls row.questionCount

/-- An object shows a row as long as the updates of the row stay. -/
theorem StoredDistribution.Shows.congr {d : StoredDistribution} {row : SyllabusDistribution}
    (h : d.Shows calls row)
    (hrejects : calls.any (·.rejects row.id) = calls'.any (·.rejects row.id))
    (hunwritten : unwritten row.id calls = unwritten row.id calls') : d.Shows calls' row := by
  refine ⟨h.cell, fun hnone => ?_⟩
  have hcount := h.questionCount (hrejects.trans hnone)
  unfold expected at hcount ⊢
  rwa [← hunwritten]

/-- A call that does not update the row has taken the place of another one. -/
theorem StoredDistribution.Shows.replace {d : StoredDistribution} {row : SyllabusDistribution}
    (h : d.Shows (before ++ call :: after) row)
    (hrejects : call.rejects row.id = call'.rejects row.id)
    (hbrings : call.bringsTo row.id = call'.bringsTo row.id) :
    d.Shows (before ++ call' :: after) row := by
  refine h.congr ?_ ?_
  · rw [List.any_append, List.any_append, List.any_cons, List.any_cons, hrejects]
  · rw [unwritten_append_cons, unwritten_append_cons, hbrings]

/-- A call that does not update the row has come or gone. -/
theorem StoredDistribution.Shows.erase_iff {d : StoredDistribution} {row : SyllabusDistribution}
    (hrejects : call.rejects row.id = false) (hbrings : call.bringsTo row.id = none) :
    d.Shows (before ++ call :: after) row ↔ d.Shows (before ++ after) row := by
  have hany : (before ++ call :: after).any (·.rejects row.id) =
      (before ++ after).any (·.rejects row.id) := by
    rw [List.any_append, List.any_append, List.any_cons, hrejects, Bool.false_or]
  have hsame : unwritten row.id (before ++ call :: after) = unwritten row.id (before ++ after) := by
    rw [unwritten_append_cons, unwritten_append, hbrings]
    rfl
  exact ⟨fun h => h.congr hany hsame, fun h => h.congr hany.symm hsame.symm⟩

end Calls

section Rows

variable {db : Db} {syllabusId u : Uuid}

/-- The cells of a syllabus after one has been inserted. -/
theorem cellsOf_insertDistributionIn {row : SyllabusDistribution}
    (hid : db.distributions.find row.id = none) (hsyllabus : row.syllabusId = syllabusId) :
    (insertDistributionIn row db).cellsOf syllabusId = db.cellsOf syllabusId ++ [row] := by
  have hinsert := Table.filter_insert db.distributions row (·.syllabusId == syllabusId) hid
  unfold Db.cellsOf insertDistributionIn
  rw [hinsert, if_pos (by simpa using hsyllabus)]

/-- The cells of a syllabus after a number of questions has been written. -/
theorem cellsOf_setQuestionCountIn (u syllabusId : Uuid) (questionCount : ℕ) (db : Db) :
    (setQuestionCountIn u syllabusId questionCount db).cellsOf syllabusId =
      (db.cellsOf syllabusId).map fun d => if d.id = u then { d with questionCount } else d := by
  unfold Db.cellsOf setQuestionCountIn Table.filter Table.modifyAll
  dsimp only
  rw [List.filter_map]
  have hfilter : ((fun d : SyllabusDistribution => d.syllabusId == syllabusId) ∘ fun d =>
      if (d.id == u && d.syllabusId == syllabusId) = true then { d with questionCount } else d) =
        fun d => d.syllabusId == syllabusId := by
    funext d
    rw [Function.comp_apply]
    split <;> rfl
  rw [hfilter]
  refine List.map_congr_left fun d hd => ?_
  have hsyllabus := (List.mem_filter.mp hd).2
  rw [hsyllabus, Bool.and_true]
  simp

/-- The cells of a syllabus after one has been deleted. -/
theorem cellsOf_deleteCellIn (u syllabusId : Uuid) (db : Db) :
    (deleteCellIn u syllabusId db).cellsOf syllabusId =
      (db.cellsOf syllabusId).filter fun d => d.id != u := by
  unfold Db.cellsOf deleteCellIn Table.filter Table.delete
  rw [List.filter_filter, List.filter_filter]
  refine List.filter_congr fun d _ => ?_
  by_cases hsyllabus : d.syllabusId = syllabusId
  · simp [hsyllabus, bne]
  · simp only [beq_false_of_ne hsyllabus, Bool.false_and, Bool.and_false]

/-- A syllabus has at most one cell with an identifier. -/
theorem countP_cellsOf_le_one (db : Db) (syllabusId u : Uuid) :
    (db.cellsOf syllabusId).countP (·.id == u) ≤ 1 := by
  have hsub : (db.cellsOf syllabusId).Sublist db.distributions.rows := List.filter_sublist
  have hkeys : db.distributions.rows.countP (·.id == u) =
      (db.distributions.rows.map (·.id)).count u := by
    rw [List.count, List.countP_map]
    rfl
  calc (db.cellsOf syllabusId).countP (·.id == u)
      ≤ db.distributions.rows.countP (·.id == u) := hsub.countP_le
    _ = (db.distributions.rows.map (·.id)).count u := hkeys
    _ ≤ 1 := List.nodup_iff_count_le_one.mp db.distributions.nodup u

/-- A cell of a syllabus is counted. -/
theorem countP_cellsOf_eq_one {row : SyllabusDistribution} (h : row ∈ db.cellsOf syllabusId) :
    (db.cellsOf syllabusId).countP (·.id == row.id) = 1 := by
  have hpos : 0 < (db.cellsOf syllabusId).countP (·.id == row.id) :=
    List.countP_pos_iff.mpr ⟨row, h, by simp⟩
  have hle := countP_cellsOf_le_one db syllabusId row.id
  omega

end Rows

end Odiseo.Syllabi
