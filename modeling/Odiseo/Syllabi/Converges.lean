import Mathlib.Data.List.Basic
import Odiseo.Syllabi.StoreSpec

/-!
# The store converges to the server

Every row of the syllabus is shown, or is in the hands of a call: an addition that has succeeded
will show it, and a deletion without success will bring it back. While no failed update of a row
waits for its answer, the number that is shown is that of the last update on its way, or that of the
row.
-/

namespace Odiseo.Syllabi

open Database Database.Transition

/-- The store follows the server. -/
structure Editor.Follows (syllabusId : Uuid) (m : Editor) : Prop where
  /-- What is shown are objects. -/
  refs : ∀ a ∈ m.store.distributions, a < m.store.objects.length
  /-- What the calls have captured. -/
  captured : ∀ call ∈ m.inFlight, call.Captured m.store
  /-- A row has one object. -/
  distinct : ∀ (a b : Ref) (u : Uuid), m.store.hasId (.uuid u) a = true →
    m.store.hasId (.uuid u) b = true → a = b
  /-- The identifiers of the objects have been drawn. -/
  drawn : ∀ (a : Ref) (u : Uuid), m.store.hasId (.uuid u) a = true → u ∈ m.drawn
  /-- A row that an addition answers with is as it was inserted, and has no object yet. -/
  created : ∀ tempId payload row, .addDistribution tempId payload (.succeeded row) ∈ m.inFlight →
    row ∈ m.db.cellsOf syllabusId ∧ row.id ∈ m.drawn ∧
      ∀ a : Ref, m.store.hasId (.uuid row.id) a = false
  /-- The rows are those that are shown or in the hands of a call. -/
  covers : ∀ u, m.store.count (.uuid u) + m.inFlight.countP (·.holds u) =
    (m.db.cellsOf syllabusId).countP (·.id == u)
  /-- A temporary cell is one that a call is adding. -/
  temps : ∀ now, m.store.count (.temp now) ≤ m.inFlight.countP (·.addsAs now)
  /-- The objects show their rows. -/
  shows : ∀ d ∈ m.store.objects, ∀ row ∈ m.db.cellsOf syllabusId, d.id = .uuid row.id →
    d.Shows m.inFlight row

/-- What is captured stays captured while the objects keep their identifiers. -/
theorem InFlight.Captured.mono {store store' : Store} {call : InFlight} (h : call.Captured store)
    (hkeeps : ∀ (x : DistId) (a : Ref), store.hasId x a = true → store'.hasId x a = true) :
    call.Captured store' := by
  cases call with
  | addDistribution tempId payload answer => trivial
  | updateDistributionQuestionCount distId dist prevQuestionCount questionCount answer =>
    exact hkeeps _ _ h
  | deleteDistribution distId distIndex backupDist answer => exact hkeeps _ _ h

/-- An update of a row without an object cannot be on its way. -/
theorem InFlight.Captured.bringsTo_eq_none {store : Store} {call : InFlight} {u : Uuid}
    (h : call.Captured store) (hnone : ∀ a : Ref, store.hasId (.uuid u) a = false) :
    call.bringsTo u = none := by
  cases call with
  | addDistribution tempId payload answer => rfl
  | deleteDistribution distId distIndex backupDist answer => rfl
  | updateDistributionQuestionCount distId dist prevQuestionCount questionCount answer =>
    cases distId with
    | temp now => rfl
    | uuid v =>
      have hne : ¬v = u := by
        rintro rfl
        have hhas : store.hasId (.uuid v) dist = true := h
        rw [hnone dist] at hhas
        cases hhas
      cases answer with
      | waiting => exact if_neg hne
      | succeeded response => rfl
      | failed => rfl

namespace Editor.Follows

variable {known : CatalogId → CatalogId → Bool} {syllabusId : Uuid} {m : Editor}

/-- The store and the calls change, and the objects keep their identifiers. -/
theorem transfer {store' : Store} {calls' : List InFlight} (h : m.Follows syllabusId)
    (hids : ∀ (x : DistId) (a : Ref), store'.hasId x a = m.store.hasId x a)
    (hrefs : ∀ a ∈ store'.distributions, a < store'.objects.length)
    (hcalls : ∀ call ∈ calls', call ∈ m.inFlight ∨ call.Captured m.store ∧
      ∀ tempId payload row, call ≠ .addDistribution tempId payload (.succeeded row))
    (hcovers : ∀ u, store'.count (.uuid u) + calls'.countP (·.holds u) =
      m.store.count (.uuid u) + m.inFlight.countP (·.holds u))
    (htemps : ∀ now, store'.count (.temp now) ≤ calls'.countP (·.addsAs now))
    (hshows : ∀ d ∈ store'.objects, ∀ row ∈ m.db.cellsOf syllabusId, d.id = .uuid row.id →
      d.Shows calls' row) :
    ({ m with store := store', inFlight := calls' } : Editor).Follows syllabusId := by
  have hkeeps : ∀ (x : DistId) (a : Ref), m.store.hasId x a = true → store'.hasId x a = true :=
    fun x a ha => (hids x a).trans ha
  constructor
  · exact hrefs
  · intro call hcall
    rcases hcalls call hcall with hold | ⟨hcaptured, -⟩
    · exact (h.captured call hold).mono hkeeps
    · exact hcaptured.mono hkeeps
  · intro a b u ha hb
    exact h.distinct a b u ((hids _ a).symm.trans ha) ((hids _ b).symm.trans hb)
  · intro a u ha
    exact h.drawn a u ((hids _ a).symm.trans ha)
  · intro tempId payload row hcall
    rcases hcalls _ hcall with hold | ⟨-, hne⟩
    · obtain ⟨hrow, hdrawn, hnone⟩ := h.created tempId payload row hold
      exact ⟨hrow, hdrawn, fun a => (hids _ a).trans (hnone a)⟩
    · exact absurd rfl (hne tempId payload row)
  · intro u
    exact (hcovers u).trans (h.covers u)
  · exact htemps
  · exact hshows

/-- The objects show their rows after the number of questions of one of them has been set. -/
theorem shows_setQuestionCount {distId : DistId} {dist : Ref} {questionCount : ℕ}
    {calls' : List InFlight} (h : m.Follows syllabusId) (hdist : m.store.hasId distId dist = true)
    (hset : ∀ row ∈ m.db.cellsOf syllabusId, distId = .uuid row.id →
      calls'.any (·.rejects row.id) = false →
        questionCount = expected row.id calls' row.questionCount)
    (hother : ∀ (d : StoredDistribution) (row : SyllabusDistribution), distId ≠ .uuid row.id →
      d.Shows m.inFlight row → d.Shows calls' row) :
    ∀ d ∈ (m.store.setQuestionCount dist questionCount).objects,
      ∀ row ∈ m.db.cellsOf syllabusId, d.id = .uuid row.id → d.Shows calls' row := by
  intro d hd row hrow hid
  obtain ⟨a, ha⟩ := List.mem_iff_getElem?.mp hd
  change (m.store.objects.modify dist _)[a]? = some d at ha
  rw [List.getElem?_modify] at ha
  obtain ⟨e, he, rfl⟩ := Option.map_eq_some_iff.mp ha
  have hmem := List.mem_of_getElem? he
  by_cases hsame : dist = a
  · -- the object that has been set
    subst hsame
    simp only [if_true] at hid ⊢
    have hrow' : distId = .uuid row.id :=
      Store.eq_of_hasId hdist (Store.hasId_iff.mpr ⟨e, he, hid⟩)
    obtain ⟨hcell, -⟩ := h.shows e hmem row hrow hid
    refine ⟨?_, hset row hrow hrow'⟩
    rw [hcell]
  · simp only [hsame, if_false] at hid ⊢
    refine hother e row (fun heq => ?_) (h.shows e hmem row hrow hid)
    exact hsame (h.distinct dist a row.id (heq ▸ hdist) (Store.hasId_iff.mpr ⟨e, he, hid⟩))

/-- The start of an addition. -/
theorem addDistribution (h : m.Follows syllabusId) (now : ℕ)
    (payload : CreateDistributionPayload) :
    (m.start (m.store.addDistribution now syllabusId payload)).Follows syllabusId := by
  have hobjects : (m.store.addDistribution now syllabusId payload).1.objects =
      m.store.objects ++ [payload.newDist syllabusId (.temp now)] := rfl
  have hdistributions : (m.store.addDistribution now syllabusId payload).1.distributions =
      m.store.distributions ++ m.store.objects.length :: [] := rfl
  have huuid : ∀ (u : Uuid) (a : Ref),
      (m.store.addDistribution now syllabusId payload).1.hasId (.uuid u) a =
        m.store.hasId (.uuid u) a := by
    intro u a
    rw [Store.hasId_append hobjects]
    have hne : ((payload.newDist syllabusId (.temp now)).id == .uuid u) = false := rfl
    rw [hne, Bool.and_false, Bool.or_false]
  have hcount : ∀ x, (m.store.addDistribution now syllabusId payload).1.count x =
      m.store.count x + if DistId.temp now = x then 1 else 0 := by
    intro x
    rw [Store.count_append hobjects hdistributions h.refs (by simp)]
    rfl
  constructor
  · intro a ha
    change a < (m.store.objects ++ [payload.newDist syllabusId (.temp now)]).length
    rw [List.length_append]
    rcases List.mem_append.mp ha with ha | ha
    · exact Nat.lt_add_right _ (h.refs a ha)
    · rw [List.mem_singleton.mp ha]
      exact Nat.lt_add_one _
  · intro call hcall
    rcases List.mem_append.mp hcall with hcall | hcall
    · refine (h.captured call hcall).mono fun x a ha => ?_
      change (m.store.addDistribution now syllabusId payload).1.hasId x a = true
      rw [Store.hasId_append hobjects, ha, Bool.true_or]
    · cases List.mem_singleton.mp hcall
      trivial
  · intro a b u ha hb
    exact h.distinct a b u ((huuid u a).symm.trans ha) ((huuid u b).symm.trans hb)
  · intro a u ha
    exact h.drawn a u ((huuid u a).symm.trans ha)
  · intro tempId payload' row hcall
    rcases List.mem_append.mp hcall with hcall | hcall
    · obtain ⟨hrow, hdrawn, hnone⟩ := h.created tempId payload' row hcall
      exact ⟨hrow, hdrawn, fun a => (huuid row.id a).trans (hnone a)⟩
    · cases List.mem_singleton.mp hcall
  · intro u
    have hcovers := h.covers u
    change (m.store.addDistribution now syllabusId payload).1.count (.uuid u) +
      (m.inFlight ++ [_]).countP (InFlight.holds u) = _
    rw [hcount, if_neg (by simp), List.countP_append]
    exact hcovers
  · intro t
    have htemps := h.temps t
    change (m.store.addDistribution now syllabusId payload).1.count (.temp t) ≤
      (m.inFlight ++ [_]).countP fun call : InFlight => call.addsAs t
    have hiff : DistId.temp now = .temp t ↔
        (InFlight.addDistribution now payload .waiting).addsAs t = true := by
      simp [InFlight.addsAs]
    rw [hcount, countP_concat, if_congr hiff rfl rfl]
    exact Nat.add_le_add_right htemps _
  · intro d hd row hrow hid
    have hshows : d.Shows m.inFlight row := by
      rcases List.mem_append.mp hd with hd | hd
      · exact h.shows d hd row hrow hid
      · rw [List.mem_singleton.mp hd] at hid
        cases hid
    have hrest := hshows
    rw [← List.append_nil m.inFlight] at hrest
    exact (StoredDistribution.Shows.erase_iff rfl rfl).mpr hrest

/-- The start of an update. -/
theorem updateDistributionQuestionCount (h : m.Follows syllabusId) (distId : DistId)
    (questionCount : ℕ) : (m.start (m.store.updateDistributionQuestionCount distId
      questionCount)).Follows syllabusId := by
  unfold Store.updateDistributionQuestionCount
  cases hfind : m.store.distributions.find? (m.store.hasId distId) with
  | none => simpa [Editor.start] using h
  | some dist =>
    have hdist := List.find?_some hfind
    obtain ⟨object, hobject, -⟩ := Store.hasId_iff.mp hdist
    dsimp only
    rw [hobject]
    dsimp only
    refine h.transfer (Store.hasId_setQuestionCount m.store dist questionCount) ?_ ?_ ?_ ?_ ?_
    · intro a ha
      change a < (m.store.objects.modify dist _).length
      rw [List.length_modify]
      exact h.refs a ha
    · intro call hcall
      rcases List.mem_append.mp hcall with hcall | hcall
      · exact .inl hcall
      · cases List.mem_singleton.mp hcall
        exact .inr ⟨hdist, by simp⟩
    · intro u
      rw [Store.count_setQuestionCount, List.countP_append]
      rfl
    · intro t
      rw [Store.count_setQuestionCount, List.countP_append]
      exact h.temps t
    · refine h.shows_setQuestionCount hdist ?_ ?_
      · rintro row - rfl -
        unfold expected
        change _ = (unwritten row.id (m.inFlight ++ _ :: [])).getLast?.getD _
        rw [unwritten_append_cons]
        simp [InFlight.bringsTo, unwritten]
      · intro d row hne hshows
        rw [← List.append_nil m.inFlight] at hshows
        refine (StoredDistribution.Shows.erase_iff ?_ ?_).mpr hshows
        · cases distId <;> rfl
        · cases distId with
          | temp now => rfl
          | uuid v => exact if_neg fun heq : v = row.id => hne (congrArg DistId.uuid heq)

/-- The start of a deletion. -/
theorem deleteDistribution (h : m.Follows syllabusId) (distId : DistId) :
    (m.start (m.store.deleteDistribution distId)).Follows syllabusId := by
  unfold Store.deleteDistribution
  cases hfind : m.store.distributions.findIdx? (m.store.hasId distId) with
  | none => simpa [Editor.start] using h
  | some distIndex =>
    obtain ⟨hlt, hhas, -⟩ := List.findIdx?_eq_some_iff_getElem.mp hfind
    have hget := List.getElem?_eq_getElem hlt
    dsimp only
    rw [hget]
    dsimp only
    obtain ⟨before, after, hsplit, rfl⟩ := exists_eq_append_cons hget
    generalize m.store.distributions[before.length] = backupDist at hhas hget hsplit ⊢
    have hold := Store.count_eq hsplit hhas
    have hnew : ∀ x, (⟨m.store.objects, m.store.distributions.eraseIdx before.length⟩ :
        Store).count x = before.countP (m.store.hasId x) + after.countP (m.store.hasId x) := by
      intro x
      rw [hsplit, eraseIdx_append_cons]
      exact List.countP_append
    refine h.transfer (fun _ _ => rfl) ?_ ?_ ?_ ?_ ?_
    · intro a ha
      exact h.refs a (List.mem_of_mem_eraseIdx ha)
    · intro call hcall
      rcases List.mem_append.mp hcall with hcall | hcall
      · exact .inl hcall
      · cases List.mem_singleton.mp hcall
        exact .inr ⟨hhas, by simp⟩
    · intro u
      have hiff : distId = .uuid u ↔ (InFlight.deleteDistribution distId before.length backupDist
          .waiting).holds u = true := by
        cases distId <;> simp [InFlight.holds]
      rw [hnew, hold, if_congr hiff rfl rfl, Option.toList_some, countP_concat]
      omega
    · intro t
      have htemps := h.temps t
      rw [hold] at htemps
      rw [hnew, Option.toList_some, countP_concat]
      omega
    · intro d hd row hrow hid
      have hshows := h.shows d hd row hrow hid
      rw [← List.append_nil m.inFlight] at hshows
      exact (StoredDistribution.Shows.erase_iff rfl rfl).mpr hshows

/-- A call that fails without an effect. -/
theorem fail {k : ℕ} {call : InFlight} (h : m.Follows syllabusId)
    (hcall : m.inFlight[k]? = some call) (hwaiting : call.isWaiting = true) :
    ({ m with inFlight := m.inFlight.set k call.fail } : Editor).Follows syllabusId := by
  have hcaptured := h.captured call (List.mem_of_getElem? hcall)
  refine h.transfer (fun _ _ => rfl) h.refs ?_ ?_ ?_ ?_
  · intro other hother
    rcases List.mem_or_eq_of_mem_set hother with hother | rfl
    · exact .inl hother
    · refine .inr ⟨InFlight.captured_fail.mpr hcaptured, ?_⟩
      intro tempId payload row heq
      cases call <;> cases heq
  · intro u
    obtain ⟨before, after, hsplit, rfl⟩ := exists_eq_append_cons hcall
    rw [hsplit, set_append_cons, List.countP_append, List.countP_append, List.countP_cons,
      List.countP_cons, InFlight.holds_fail hwaiting]
  · intro t
    obtain ⟨before, after, hsplit, rfl⟩ := exists_eq_append_cons hcall
    have htemps := h.temps t
    rw [hsplit] at htemps
    rw [hsplit, set_append_cons]
    rw [List.countP_append, List.countP_cons] at htemps ⊢
    rwa [InFlight.addsAs_fail]
  · intro d hd row hrow hid
    have hshows := h.shows d hd row hrow hid
    obtain ⟨before, after, hsplit, rfl⟩ := exists_eq_append_cons hcall
    rw [hsplit] at hshows
    rw [hsplit, set_append_cons]
    rcases InFlight.fail_cases hwaiting row.id with hrejects | ⟨hrejects, hbrings⟩
    · refine ⟨hshows.cell, fun hnone => ?_⟩
      rw [List.any_append, List.any_cons, hrejects, Bool.true_or, Bool.or_true] at hnone
      cases hnone
    · exact hshows.replace hrejects.symm hbrings.symm

/-- An identifier has been drawn in vain. -/
theorem draw (h : m.Follows syllabusId) (id : Uuid) :
    ({ m with drawn := m.drawn ++ [id] } : Editor).Follows syllabusId := by
  refine { h with drawn := ?_, created := ?_ }
  · intro a u ha
    exact List.mem_append_left _ (h.drawn a u ha)
  · intro tempId payload row hcall
    obtain ⟨hrow, hdrawn, hnone⟩ := h.created tempId payload row hcall
    exact ⟨hrow, List.mem_append_left _ hdrawn, hnone⟩

/-- The server takes a call on: a call takes the place of another one, and the rows change. -/
theorem replaced {before after : List InFlight} {call call' : InFlight} {db' : Db}
    {drawn' : List Uuid} (h : m.Follows syllabusId) (hsplit : m.inFlight = before ++ call :: after)
    (hcaptured : call'.Captured m.store) (hadds : ∀ now, call'.addsAs now = call.addsAs now)
    (hdrawn : ∀ u ∈ m.drawn, u ∈ drawn')
    (hcreated : ∀ tempId payload row, call' = .addDistribution tempId payload (.succeeded row) →
      row ∈ db'.cellsOf syllabusId ∧ row.id ∈ drawn' ∧
        ∀ a : Ref, m.store.hasId (.uuid row.id) a = false)
    (hkept : ∀ row ∈ m.db.cellsOf syllabusId,
      (∀ a : Ref, m.store.hasId (.uuid row.id) a = false) → row ∈ db'.cellsOf syllabusId)
    (hcovers : ∀ u, ((db'.cellsOf syllabusId).countP (·.id == u) +
        if call.holds u = true then 1 else 0) =
      (m.db.cellsOf syllabusId).countP (·.id == u) + if call'.holds u = true then 1 else 0)
    (hshows : ∀ d ∈ m.store.objects, ∀ row ∈ db'.cellsOf syllabusId, d.id = .uuid row.id →
      d.Shows (before ++ call' :: after) row) :
    ({ m with inFlight := before ++ call' :: after, db := db', drawn := drawn' } :
      Editor).Follows syllabusId := by
  have hold : ∀ other, other ∈ before ++ call' :: after → other = call' ∨ other ∈ m.inFlight := by
    intro other hother
    rw [hsplit]
    simp only [List.mem_append, List.mem_cons] at hother ⊢
    tauto
  constructor
  · exact h.refs
  · intro other hother
    rcases hold other hother with rfl | hother
    · exact hcaptured
    · exact h.captured other hother
  · exact h.distinct
  · intro a u ha
    exact hdrawn u (h.drawn a u ha)
  · intro tempId payload row hother
    rcases hold _ hother with heq | hother
    · exact hcreated tempId payload row heq.symm
    · obtain ⟨hrow, hid, hnone⟩ := h.created tempId payload row hother
      exact ⟨hkept row hrow hnone, hdrawn _ hid, hnone⟩
  · intro u
    have hbefore := h.covers u
    have hrows := hcovers u
    rw [hsplit, List.countP_append, List.countP_cons] at hbefore
    dsimp only
    rw [List.countP_append, List.countP_cons]
    omega
  · intro t
    have htemps := h.temps t
    rw [hsplit, List.countP_append, List.countP_cons] at htemps
    dsimp only
    rwa [List.countP_append, List.countP_cons, hadds]
  · exact hshows

/-- The server inserts a row. -/
theorem inserted {k tempId : ℕ} {payload : CreateDistributionPayload} {row : SyllabusDistribution}
    (h : m.Follows syllabusId)
    (hcall : m.inFlight[k]? = some (.addDistribution tempId payload .waiting))
    (hfresh : row.id ∉ m.drawn) (hid : m.db.distributions.find row.id = none)
    (hsyllabus : row.syllabusId = syllabusId) :
    ({ m with
      inFlight := m.inFlight.set k (.addDistribution tempId payload (.succeeded row))
      db := insertDistributionIn row m.db
      drawn := m.drawn ++ [row.id] } : Editor).Follows syllabusId := by
  obtain ⟨before, after, hsplit, rfl⟩ := exists_eq_append_cons hcall
  have hcells := cellsOf_insertDistributionIn hid hsyllabus
  have hnone : ∀ a : Ref, m.store.hasId (.uuid row.id) a = false := by
    intro a
    by_contra hhas
    exact hfresh (h.drawn a row.id (by simpa using hhas))
  have hset : m.inFlight.set before.length (.addDistribution tempId payload (.succeeded row)) =
      before ++ .addDistribution tempId payload (.succeeded row) :: after := by
    rw [hsplit, set_append_cons]
  rw [hset]
  refine h.replaced hsplit trivial (fun _ => rfl) (fun u hu => List.mem_append_left _ hu) ?_ ?_ ?_
    ?_
  · intro tempId' payload' row' heq
    cases heq
    rw [hcells]
    exact ⟨by simp, by simp, hnone⟩
  · intro row' hrow' _
    rw [hcells]
    exact List.mem_append_left _ hrow'
  · intro u
    have hheld : (InFlight.addDistribution tempId payload (.succeeded row)).holds u =
        (row.id == u) := rfl
    rw [hcells, countP_concat, hheld]
    rfl
  · intro d hd row' hrow' hid'
    rw [hcells] at hrow'
    rcases List.mem_append.mp hrow' with hrow' | hrow'
    · have hshows := h.shows d hd row' hrow' hid'
      rw [hsplit] at hshows
      exact hshows.replace rfl rfl
    · obtain ⟨a, ha⟩ := List.mem_iff_getElem?.mp hd
      rw [List.mem_singleton.mp hrow'] at hid'
      have hhas := Store.hasId_iff.mpr ⟨d, ha, hid'⟩
      rw [hnone a] at hhas
      cases hhas

/-- The server writes a number of questions. -/
theorem updated {k prevQuestionCount questionCount : ℕ} {u : Uuid} {dist : Ref}
    (h : m.Follows syllabusId)
    (hcall : m.inFlight[k]? = some (.updateDistributionQuestionCount (.uuid u) dist
      prevQuestionCount questionCount .waiting))
    (hlast : m.inFlight.any (·.rejects u) = true ∨ unwritten u (m.inFlight.drop (k + 1)) ≠ [] ∨
      ∀ earlier ∈ (unwritten u (m.inFlight.take k)).getLast?, earlier = questionCount) :
    ({ m with
      inFlight := m.inFlight.set k (.updateDistributionQuestionCount (.uuid u) dist
        prevQuestionCount questionCount (.succeeded ()))
      db := setQuestionCountIn u syllabusId questionCount m.db } : Editor).Follows syllabusId := by
  have hdist : m.store.hasId (.uuid u) dist = true := h.captured _ (List.mem_of_getElem? hcall)
  obtain ⟨before, after, hsplit, rfl⟩ := exists_eq_append_cons hcall
  have hcells := cellsOf_setQuestionCountIn u syllabusId questionCount m.db
  have hset : m.inFlight.set before.length (.updateDistributionQuestionCount (.uuid u) dist
      prevQuestionCount questionCount (.succeeded ())) =
        before ++ .updateDistributionQuestionCount (.uuid u) dist prevQuestionCount questionCount
          (.succeeded ()) :: after := by
    rw [hsplit, set_append_cons]
  rw [hset]
  refine h.replaced hsplit hdist (fun _ => rfl) (fun _ hv => hv) ?_ ?_ ?_ ?_
  · intro tempId payload row heq
    cases heq
  · intro row hrow hnone
    have hne : row.id ≠ u := by
      rintro rfl
      rw [hnone dist] at hdist
      cases hdist
    rw [hcells]
    exact List.mem_map.mpr ⟨row, hrow, if_neg hne⟩
  · intro v
    have hids : ((fun d : SyllabusDistribution => d.id == v) ∘ fun d =>
        if d.id = u then { d with questionCount } else d) = fun d => d.id == v := by
      funext d
      rw [Function.comp_apply]
      split <;> rfl
    rw [hcells, List.countP_map, hids]
    rfl
  · intro d hd row' hrow' hid
    rw [hcells] at hrow'
    obtain ⟨row, hrow, rfl⟩ := List.mem_map.mp hrow'
    by_cases hu : row.id = u
    · -- the row that has been written
      subst hu
      rw [if_pos rfl] at hid ⊢
      have hshows := h.shows d hd row hrow hid
      rw [hsplit] at hshows hlast
      rw [drop_append_cons, take_append_cons] at hlast
      refine ⟨hshows.cell, fun hnone => ?_⟩
      have hbefore : (before ++ .updateDistributionQuestionCount (.uuid row.id) dist
          prevQuestionCount questionCount .waiting :: after).any (·.rejects row.id) = false := by
        rw [List.any_append, List.any_cons] at hnone ⊢
        exact hnone
      rw [hbefore] at hlast
      have hcount := hshows.questionCount hbefore
      unfold expected at hcount ⊢
      dsimp only at hcount ⊢
      rw [hcount, unwritten_append_cons, unwritten_append_cons]
      simp only [InFlight.bringsTo, if_true, Option.toList_some, Option.toList_none,
        List.nil_append]
      exact getLast?_getD_insert (hlast.resolve_left Bool.false_ne_true)
    · rw [if_neg hu] at hid ⊢
      have hshows := h.shows d hd row hrow hid
      rw [hsplit] at hshows
      refine hshows.replace rfl ?_
      simp [InFlight.bringsTo, Ne.symm hu]

/-- The server deletes a row. -/
theorem deleted {k distIndex : ℕ} {u : Uuid} {backupDist : Ref} (h : m.Follows syllabusId)
    (hcall : m.inFlight[k]? = some (.deleteDistribution (.uuid u) distIndex backupDist .waiting)) :
    ({ m with
      inFlight := m.inFlight.set k (.deleteDistribution (.uuid u) distIndex backupDist
        (.succeeded ()))
      db := deleteCellIn u syllabusId m.db } : Editor).Follows syllabusId := by
  have hbackup : m.store.hasId (.uuid u) backupDist = true :=
    h.captured _ (List.mem_of_getElem? hcall)
  obtain ⟨before, after, hsplit, rfl⟩ := exists_eq_append_cons hcall
  have hcells := cellsOf_deleteCellIn u syllabusId m.db
  have hset : m.inFlight.set before.length (.deleteDistribution (.uuid u) distIndex backupDist
      (.succeeded ())) = before ++ .deleteDistribution (.uuid u) distIndex backupDist
        (.succeeded ()) :: after := by
    rw [hsplit, set_append_cons]
  rw [hset]
  refine h.replaced hsplit hbackup (fun _ => rfl) (fun _ hv => hv) ?_ ?_ ?_ ?_
  · intro tempId payload row heq
    cases heq
  · intro row hrow hnone
    have hne : row.id ≠ u := by
      rintro rfl
      rw [hnone backupDist] at hbackup
      cases hbackup
    rw [hcells]
    exact List.mem_filter.mpr ⟨hrow, by simpa using hne⟩
  · intro v
    have hheld : (InFlight.deleteDistribution (.uuid u) distIndex backupDist .waiting).holds v =
        (u == v) := rfl
    have hfreed : (InFlight.deleteDistribution (.uuid u) distIndex backupDist
        (.succeeded ())).holds v = false := rfl
    rw [hcells, List.countP_filter, hheld, hfreed]
    by_cases hv : u = v
    · -- the call has the row in its hands, so that there is no other one
      subst hv
      have hcall' : 0 < m.inFlight.countP (·.holds u) :=
        List.countP_pos_iff.mpr ⟨_, List.mem_of_getElem? hcall, beq_self_eq_true u⟩
      have hcovers := h.covers u
      have hone := countP_cellsOf_le_one m.db syllabusId u
      have hnone : (m.db.cellsOf syllabusId).countP (fun d => d.id == u && d.id != u) = 0 := by
        rw [List.countP_eq_zero]
        intro d _
        cases hd : d.id == u <;> simp [bne, hd]
      rw [hnone, beq_self_eq_true, if_pos rfl, if_neg Bool.false_ne_true]
      omega
    · have hsame : (m.db.cellsOf syllabusId).countP (fun d => d.id == v && d.id != u) =
          (m.db.cellsOf syllabusId).countP (·.id == v) := by
        refine List.countP_congr fun d _ => ?_
        by_cases hd : d.id = v
        · simp [hd, Ne.symm hv]
        · simp [hd]
      rw [hsame, beq_false_of_ne hv]
  · intro d hd row hrow hid
    rw [hcells] at hrow
    have hshows := h.shows d hd row (List.mem_filter.mp hrow).1 hid
    rw [hsplit] at hshows
    exact hshows.replace rfl rfl

/-- An answer arrives to a call that has no part in the invariant any more. -/
theorem dropped {k : ℕ} {call : InFlight} (h : m.Follows syllabusId)
    (hcall : m.inFlight[k]? = some call) (hholds : ∀ u, call.holds u = false)
    (hadds : ∀ now, call.addsAs now = false) (hrejects : ∀ u, call.rejects u = false)
    (hbrings : ∀ u, call.bringsTo u = none) :
    ({ m with inFlight := m.inFlight.eraseIdx k } : Editor).Follows syllabusId := by
  obtain ⟨before, after, hsplit, rfl⟩ := exists_eq_append_cons hcall
  refine h.transfer (fun _ _ => rfl) h.refs (fun _ hmem => .inl (List.mem_of_mem_eraseIdx hmem))
    ?_ ?_ ?_
  · intro u
    rw [hsplit, countP_eraseIdx, hholds]
    rfl
  · intro t
    have htemps := h.temps t
    rw [hsplit, countP_eraseIdx, hadds] at htemps
    rwa [hsplit]
  · intro d hd row hrow hid
    have hshows := h.shows d hd row hrow hid
    rw [hsplit] at hshows
    rw [hsplit, eraseIdx_append_cons]
    exact (StoredDistribution.Shows.erase_iff (hrejects _) (hbrings _)).mp hshows

/-- An answer arrives to an addition that has failed. -/
theorem notAdded {k tempId : ℕ} {payload : CreateDistributionPayload} (h : m.Follows syllabusId)
    (hcall : m.inFlight[k]? = some (.addDistribution tempId payload .failed)) :
    ({ m with
      store := m.store.settle (.addDistribution tempId payload .failed)
      inFlight := m.inFlight.eraseIdx k } : Editor).Follows syllabusId := by
  obtain ⟨before, after, hsplit, rfl⟩ := exists_eq_append_cons hcall
  have hcount : ∀ x, (m.store.settle (.addDistribution tempId payload .failed)).count x =
      if x = .temp tempId then 0 else m.store.count x := by
    intro x
    change (m.store.distributions.filter _).countP (m.store.hasId x) = _
    rw [List.countP_filter]
    split
    · rename_i hx
      rw [List.countP_eq_zero]
      intro a _
      rw [hx]
      cases m.store.hasId (.temp tempId) a <;> simp
    · rename_i hx
      refine List.countP_congr fun a _ => ?_
      by_cases ha : m.store.hasId x a = true
      · have hother : m.store.hasId (.temp tempId) a = false := by
          by_contra htemp
          exact hx (Store.eq_of_hasId ha (by simpa using htemp))
        simp [ha, hother]
      · simp [ha]
  refine h.transfer (fun _ _ => rfl) (fun a ha => h.refs a (List.mem_of_mem_filter ha))
    (fun _ hmem => .inl (List.mem_of_mem_eraseIdx hmem)) ?_ ?_ ?_
  · intro u
    rw [hcount, if_neg (by simp), hsplit, countP_eraseIdx]
    rfl
  · intro t
    have htemps := h.temps t
    rw [hcount]
    split
    · exact Nat.zero_le _
    · rename_i ht
      have hadds : (InFlight.addDistribution tempId payload .failed).addsAs t = false :=
        beq_false_of_ne fun heq => ht (congrArg DistId.temp heq.symm)
      rw [hsplit, countP_eraseIdx, hadds] at htemps
      rwa [hsplit]
  · intro d hd row hrow hid
    have hshows := h.shows d hd row hrow hid
    rw [hsplit] at hshows
    rw [hsplit, eraseIdx_append_cons]
    exact (StoredDistribution.Shows.erase_iff rfl rfl).mp hshows

/-- An answer arrives to an update that has failed. -/
theorem notUpdated {k prevQuestionCount questionCount : ℕ} {distId : DistId} {dist : Ref}
    (h : m.Follows syllabusId)
    (hcall : m.inFlight[k]? = some (.updateDistributionQuestionCount distId dist prevQuestionCount
      questionCount .failed))
    (hlast : ∀ u, distId = .uuid u → (m.inFlight.eraseIdx k).any (·.rejects u) = true ∨
      ∀ row ∈ m.db.cellsOf syllabusId, row.id = u →
        prevQuestionCount = expected u m.inFlight row.questionCount) :
    ({ m with
      store := m.store.setQuestionCount dist prevQuestionCount
      inFlight := m.inFlight.eraseIdx k } : Editor).Follows syllabusId := by
  have hdist : m.store.hasId distId dist = true := h.captured _ (List.mem_of_getElem? hcall)
  obtain ⟨before, after, hsplit, rfl⟩ := exists_eq_append_cons hcall
  refine h.transfer (Store.hasId_setQuestionCount m.store dist prevQuestionCount) ?_
    (fun _ hmem => .inl (List.mem_of_mem_eraseIdx hmem)) ?_ ?_ ?_
  · intro a ha
    change a < (m.store.objects.modify dist _).length
    rw [List.length_modify]
    exact h.refs a ha
  · intro u
    rw [Store.count_setQuestionCount, hsplit, countP_eraseIdx]
    rfl
  · intro t
    have htemps := h.temps t
    rw [hsplit, countP_eraseIdx] at htemps
    rw [Store.count_setQuestionCount, hsplit]
    exact htemps
  · rw [hsplit, eraseIdx_append_cons] at hlast ⊢
    refine h.shows_setQuestionCount hdist ?_ ?_
    · rintro row hrow rfl hnone
      rcases hlast row.id rfl with hany | hprev
      · rw [hnone] at hany
        cases hany
      · have hcount := hprev row hrow rfl
        unfold expected at hcount ⊢
        rw [unwritten_append_cons] at hcount
        rw [unwritten_append]
        exact hcount
    · intro d row hne hshows
      rw [hsplit] at hshows
      refine (StoredDistribution.Shows.erase_iff ?_ ?_).mp hshows
      · cases distId with
        | temp now => rfl
        | uuid v => exact beq_false_of_ne fun heq => hne (congrArg DistId.uuid heq)
      · cases distId <;> rfl

/-- An answer arrives to a deletion that has failed. -/
theorem notDeleted {k distIndex : ℕ} {distId : DistId} {backupDist : Ref}
    (h : m.Follows syllabusId)
    (hcall : m.inFlight[k]? = some (.deleteDistribution distId distIndex backupDist .failed))
    (htemp : ∀ now, distId = .temp now →
      m.store.count (.temp now) < m.inFlight.countP (·.addsAs now)) :
    ({ m with
      store := m.store.settle (.deleteDistribution distId distIndex backupDist .failed)
      inFlight := m.inFlight.eraseIdx k } : Editor).Follows syllabusId := by
  have hbackup : m.store.hasId distId backupDist = true :=
    h.captured _ (List.mem_of_getElem? hcall)
  obtain ⟨before, after, hsplit, rfl⟩ := exists_eq_append_cons hcall
  have hcount : ∀ x, (m.store.settle (.deleteDistribution distId distIndex backupDist
      .failed)).count x = m.store.count x + if distId = x then 1 else 0 := by
    intro x
    have hshown : m.store.distributions.take distIndex ++ m.store.distributions.drop distIndex =
        m.store.distributions := List.take_append_drop ..
    have hsettled : (m.store.settle (.deleteDistribution distId distIndex backupDist
        .failed)).distributions = m.store.distributions.take distIndex ++
          backupDist :: m.store.distributions.drop distIndex := rfl
    rw [Store.count_eq hsettled hbackup]
    congr 1
    unfold Store.count
    conv_rhs => rw [← hshown]
    rw [List.countP_append]
    rfl
  refine h.transfer (fun _ _ => rfl) ?_ (fun _ hmem => .inl (List.mem_of_mem_eraseIdx hmem))
    ?_ ?_ ?_
  · intro a ha
    rcases List.mem_append.mp ha with ha | ha
    · exact h.refs a (List.mem_of_mem_take ha)
    · rcases List.mem_cons.mp ha with rfl | ha
      · exact Store.lt_of_hasId hbackup
      · exact h.refs a (List.mem_of_mem_drop ha)
  · intro u
    have hiff : distId = .uuid u ↔
        (InFlight.deleteDistribution distId distIndex backupDist .failed).holds u = true := by
      cases distId <;> simp [InFlight.holds]
    rw [hcount, if_congr hiff rfl rfl, hsplit, countP_eraseIdx]
    omega
  · intro t
    have htemps := h.temps t
    have hroom := htemp t
    have hadds : (InFlight.deleteDistribution distId distIndex backupDist .failed).addsAs t =
        false := rfl
    rw [hsplit, countP_eraseIdx, hadds, if_neg Bool.false_ne_true] at htemps hroom
    rw [hcount, hsplit]
    split
    · rename_i ht
      have hless := hroom ht
      omega
    · omega
  · intro d hd row hrow hid
    have hshows := h.shows d hd row hrow hid
    rw [hsplit] at hshows
    rw [hsplit, eraseIdx_append_cons]
    exact (StoredDistribution.Shows.erase_iff rfl rfl).mp hshows

/-- Two additions do not answer with the same row. -/
theorem created_ne {before after : List InFlight} {tempId tempId' : ℕ}
    {payload payload' : CreateDistributionPayload} {row row' : SyllabusDistribution}
    (h : m.Follows syllabusId)
    (hsplit : m.inFlight = before ++ .addDistribution tempId payload (.succeeded row) :: after)
    (hother : .addDistribution tempId' payload' (.succeeded row') ∈ before ++ after) :
    row'.id ≠ row.id := by
  intro heq
  have hcall : .addDistribution tempId payload (.succeeded row) ∈ m.inFlight := by
    rw [hsplit]
    exact List.mem_append_right _ (List.mem_cons_self ..)
  have hone := countP_cellsOf_eq_one (h.created tempId payload row hcall).1
  have hcovers := h.covers row.id
  have hthis : (InFlight.addDistribution tempId payload (.succeeded row)).holds row.id = true :=
    beq_self_eq_true _
  rw [hone, hsplit, List.countP_append, List.countP_cons, if_pos hthis] at hcovers
  have hpos : 0 < (before ++ after).countP fun call : InFlight => call.holds row.id :=
    List.countP_pos_iff.mpr ⟨_, hother, by simpa [InFlight.holds] using heq⟩
  rw [List.countP_append] at hpos
  omega

/-- An answer arrives to an addition that has succeeded. -/
theorem added {k tempId : ℕ} {payload : CreateDistributionPayload} {row : SyllabusDistribution}
    (h : m.Follows syllabusId)
    (hcall : m.inFlight[k]? = some (.addDistribution tempId payload (.succeeded row)))
    (hshown : m.store.distributions.any (m.store.hasId (.temp tempId)) = true) :
    ({ m with
      store := m.store.settle (.addDistribution tempId payload (.succeeded row))
      inFlight := m.inFlight.eraseIdx k } : Editor).Follows syllabusId := by
  obtain ⟨hrow, hdrawn, hnone⟩ := h.created tempId payload row (List.mem_of_getElem? hcall)
  obtain ⟨earlier, old, later, hdistributions, htemp, hsettle⟩ :=
    Store.settle_added payload row hshown
  rw [hsettle]
  obtain ⟨before, after, hsplit, rfl⟩ := exists_eq_append_cons hcall
  rw [hsplit, eraseIdx_append_cons]
  have hin : ∀ call, call ∈ before ++ after → call ∈ m.inFlight := by
    intro call hmem
    rw [hsplit]
    simp only [List.mem_append, List.mem_cons] at hmem ⊢
    tauto
  have hrefs : (∀ a ∈ earlier, a < m.store.objects.length) ∧
      ∀ a ∈ later, a < m.store.objects.length := by
    refine ⟨fun a ha => h.refs a ?_, fun a ha => h.refs a ?_⟩
    · rw [hdistributions]
      exact List.mem_append_left _ ha
    · rw [hdistributions]
      exact List.mem_append_right _ (List.mem_cons_of_mem _ ha)
  generalize hstore : (⟨m.store.objects ++ [row.json],
    earlier ++ m.store.objects.length :: later⟩ : Store) = store'
  have hobjects : store'.objects = m.store.objects ++ [row.json] := by rw [← hstore]
  have hshows' : store'.distributions = earlier ++ m.store.objects.length :: later := by
    rw [← hstore]
  have hids := Store.hasId_append hobjects
  have hnew := Store.count_append hobjects hshows' hrefs.1 hrefs.2
  have hold := Store.count_eq hdistributions htemp
  have hcases : ∀ (a : Ref) (u : Uuid), store'.hasId (.uuid u) a = true →
      m.store.hasId (.uuid u) a = true ∨ (a = m.store.objects.length ∧ row.id = u) := by
    intro a u ha
    rw [hids] at ha
    simpa [SyllabusDistribution.json] using ha
  constructor
  · intro a ha
    dsimp only at ha ⊢
    rw [hshows'] at ha
    rw [hobjects, List.length_append]
    rcases List.mem_append.mp ha with ha | ha
    · exact Nat.lt_add_right _ (hrefs.1 a ha)
    · rcases List.mem_cons.mp ha with rfl | ha
      · exact Nat.lt_add_one _
      · exact Nat.lt_add_right _ (hrefs.2 a ha)
  · intro call hmem
    refine (h.captured call (hin call hmem)).mono fun x a ha => ?_
    change store'.hasId x a = true
    rw [hids, ha, Bool.true_or]
  · intro a b u ha hb
    rcases hcases a u ha with ha | ⟨hlast, rfl⟩
    · rcases hcases b u hb with hb | ⟨-, rfl⟩
      · exact h.distinct a b u ha hb
      · rw [hnone a] at ha
        cases ha
    · rcases hcases b row.id hb with hb | ⟨hlast', -⟩
      · rw [hnone b] at hb
        cases hb
      · rw [hlast, hlast']
  · intro a u ha
    rcases hcases a u ha with ha | ⟨-, rfl⟩
    · exact h.drawn a u ha
    · exact hdrawn
  · intro tempId' payload' row' hother
    obtain ⟨hrow', hdrawn', hnone'⟩ := h.created tempId' payload' row' (hin _ hother)
    refine ⟨hrow', hdrawn', fun a => ?_⟩
    by_contra hhas
    rcases hcases a row'.id (by simpa using hhas) with ha | ⟨-, heq⟩
    · rw [hnone' a] at ha
      cases ha
    · exact h.created_ne hsplit hother heq.symm
  · intro u
    have hcovers := h.covers u
    change store'.count (.uuid u) + _ = _
    rw [hold, hsplit, if_neg (by simp)] at hcovers
    have hheld : (InFlight.addDistribution tempId payload (.succeeded row)).holds u =
        (row.id == u) := rfl
    have hiff : row.json.id = .uuid u ↔ (row.id == u) = true := by
      simp [SyllabusDistribution.json]
    rw [hnew, ← hcovers, if_congr hiff rfl rfl]
    simp only [List.countP_append, List.countP_cons, hheld]
    omega
  · intro t
    have htemps := h.temps t
    change store'.count (.temp t) ≤ _
    rw [hold, hsplit] at htemps
    have hadds : (InFlight.addDistribution tempId payload (.succeeded row)).addsAs t =
        (tempId == t) := rfl
    have hiff : DistId.temp tempId = .temp t ↔ (tempId == t) = true := by simp
    rw [if_congr hiff rfl rfl] at htemps
    rw [hnew, if_neg (by simp [SyllabusDistribution.json])]
    simp only [List.countP_append, List.countP_cons, hadds] at htemps ⊢
    omega
  · intro d hd row' hrow' hid
    have hd : d ∈ m.store.objects ++ [row.json] := hobjects ▸ hd
    rcases List.mem_append.mp hd with hd | hd
    · have hshows := h.shows d hd row' hrow' hid
      rw [hsplit] at hshows
      exact (StoredDistribution.Shows.erase_iff rfl rfl).mp hshows
    · -- the row that the server has answered with
      cases List.mem_singleton.mp hd
      have hsame : row = row' := by
        refine Table.eq_of_key_eq (List.mem_filter.mp hrow).1 (List.mem_filter.mp hrow').1 ?_
        exact DistId.uuid.inj hid
      subst hsame
      refine ⟨rfl, fun _ => ?_⟩
      have hnil : unwritten row.id (before ++ after) = [] := by
        refine List.filterMap_eq_nil_iff.mpr fun call hmem => ?_
        exact (h.captured call (hin call hmem)).bringsTo_eq_none hnone
      unfold expected
      rw [hnil]
      rfl

/-- The server comes to a call. -/
theorem written {k : ℕ} {id : Uuid} {call : InFlight} (h : m.Follows syllabusId)
    (hcall : m.inFlight[k]? = some call) (hwaiting : call.isWaiting = true)
    (hfresh : id ∉ m.drawn) (hcond : followsServer syllabusId m (.write k id)) :
    (m.written known syllabusId k id call).Follows syllabusId := by
  unfold Editor.written
  rcases call.write_cases known syllabusId id m.db hwaiting with hwrite |
    ⟨tempId, payload, row, rfl, rfl, hsyllabus, hid, hwrite⟩ |
    ⟨u, dist, prevQuestionCount, questionCount, rfl, hcell, hwrite⟩ |
    ⟨u, distIndex, backupDist, rfl, hwrite⟩
  · rw [hwrite]
    exact (h.fail hcall hwaiting).draw id
  · rw [hwrite]
    exact h.inserted hcall hfresh hid hsyllabus
  · rw [hwrite]
    have hlast := (hcond u dist prevQuestionCount questionCount hcall).resolve_left
      (by simp [hcell])
    exact (h.updated hcall hlast).draw id
  · rw [hwrite]
    exact (h.deleted hcall).draw id

/-- An answer arrives. -/
theorem answered {k : ℕ} {call : InFlight} (h : m.Follows syllabusId)
    (hcall : m.inFlight[k]? = some call) (hwaiting : call.isWaiting = false)
    (hcond : followsServer syllabusId m (.answer k)) :
    ({ m with
      store := m.store.settle call
      inFlight := m.inFlight.eraseIdx k } : Editor).Follows syllabusId := by
  unfold followsServer at hcond
  dsimp only at hcond
  rw [hcall] at hcond
  cases call with
  | addDistribution tempId payload answer =>
    cases answer with
    | waiting => cases hwaiting
    | succeeded row => exact h.added hcall hcond
    | failed => exact h.notAdded hcall
  | updateDistributionQuestionCount distId dist prevQuestionCount questionCount answer =>
    cases answer with
    | waiting => cases hwaiting
    | succeeded response =>
      refine h.dropped hcall (fun _ => rfl) (fun _ => rfl) ?_ ?_
      · intro u
        cases distId <;> rfl
      · intro u
        cases distId <;> rfl
    | failed =>
      refine h.notUpdated hcall ?_
      rintro u rfl
      exact hcond
  | deleteDistribution distId distIndex backupDist answer =>
    cases answer with
    | waiting => cases hwaiting
    | succeeded response =>
      refine h.dropped hcall ?_ (fun _ => rfl) (fun _ => rfl) fun _ => rfl
      intro u
      cases distId <;> rfl
    | failed =>
      refine h.notDeleted hcall ?_
      rintro now rfl
      exact hcond

/-- **Step lemma:** every step that meets the condition leaves a store that follows the server. -/
theorem step {e : StoreEvent} {m' : Editor} (h : m.Follows syllabusId)
    (hcond : followsServer syllabusId m e) (hstep : m.step known syllabusId e = some m') :
    m'.Follows syllabusId := by
  unfold Editor.step at hstep
  cases e with
  | addDistribution now payload =>
    cases hstep
    exact h.addDistribution now payload
  | updateDistributionQuestionCount distId questionCount =>
    cases hstep
    exact h.updateDistributionQuestionCount distId questionCount
  | deleteDistribution distId =>
    cases hstep
    exact h.deleteDistribution distId
  | write k id =>
    dsimp only at hstep
    cases hcall : m.inFlight[k]? with
    | none =>
      rw [hcall] at hstep
      cases hstep
    | some call =>
      rw [hcall] at hstep
      dsimp only at hstep
      split at hstep
      · rename_i hready
        obtain ⟨hwaiting, hfresh⟩ := Bool.and_eq_true_iff.mp hready
        cases hstep
        exact h.written hcall hwaiting (by simpa using hfresh) hcond
      · cases hstep
  | fail k =>
    dsimp only at hstep
    cases hcall : m.inFlight[k]? with
    | none =>
      rw [hcall] at hstep
      cases hstep
    | some call =>
      rw [hcall] at hstep
      dsimp only at hstep
      split at hstep
      · rename_i hwaiting
        cases hstep
        exact h.fail hcall hwaiting
      · cases hstep
  | answer k =>
    dsimp only at hstep
    cases hcall : m.inFlight[k]? with
    | none =>
      rw [hcall] at hstep
      cases hstep
    | some call =>
      rw [hcall] at hstep
      dsimp only at hstep
      split at hstep
      · cases hstep
      · rename_i hwaiting
        cases hstep
        exact h.answered hcall (by simpa using hwaiting) hcond

end Editor.Follows

/-- Fetching the rows of a syllabus shows them. -/
theorem Editor.follows_fetched {syllabusId : Uuid} {summary : List StoredDistribution} {db : Db}
    (h : summary.Perm ((db.cellsOf syllabusId).map (·.json))) :
    (Editor.fetched summary db).Follows syllabusId := by
  have hrow : ∀ d ∈ summary, ∃ row ∈ db.cellsOf syllabusId, row.json = d := fun d hd =>
    List.mem_map.mp (h.mem_iff.mp hd)
  have hids : (summary.map (·.id)).Nodup := by
    have hkeys : ((db.cellsOf syllabusId).map (·.id)).Nodup :=
      db.distributions.nodup.sublist (List.filter_sublist.map _)
    have hperm := h.map fun d : StoredDistribution => d.id
    rw [List.map_map] at hperm
    refine hperm.nodup_iff.mpr ?_
    have hcomp : ((fun d : StoredDistribution => d.id) ∘ fun row : SyllabusDistribution =>
        row.json) = DistId.uuid ∘ fun row : SyllabusDistribution => row.id := rfl
    rw [hcomp, ← List.map_map]
    exact hkeys.map fun _ _ heq => DistId.uuid.inj heq
  have hcount : ∀ x, (Store.fetched summary).count x =
      (db.cellsOf syllabusId).countP fun row => row.json.id == x := by
    intro x
    have hcounted := countP_range (fun d : StoredDistribution => d.id == x) summary
    have hmapped : ((db.cellsOf syllabusId).map (·.json)).countP (·.id == x) =
        (db.cellsOf syllabusId).countP fun row => row.json.id == x := List.countP_map
    rw [← hmapped, ← h.countP_eq, ← hcounted]
    rfl
  constructor
  · intro a ha
    exact List.mem_range.mp ha
  · intro call hcall
    cases hcall
  · intro a b u ha hb
    obtain ⟨d, hd, hdid⟩ := Store.hasId_iff.mp ha
    obtain ⟨e, he, heid⟩ := Store.hasId_iff.mp hb
    have hlt : a < (summary.map (·.id)).length := by
      rw [List.length_map]
      exact (List.getElem?_eq_some_iff.mp hd).1
    refine (List.getElem?_inj hlt hids).mp ?_
    change summary[a]? = some d at hd
    change summary[b]? = some e at he
    rw [List.getElem?_map, List.getElem?_map, hd, he, Option.map_some, Option.map_some, hdid, heid]
  · intro a u ha
    obtain ⟨d, hd, hdid⟩ := Store.hasId_iff.mp ha
    obtain ⟨row, hmem, rfl⟩ := hrow d (List.mem_of_getElem? hd)
    refine List.mem_map.mpr ⟨row, (List.mem_filter.mp hmem).1, ?_⟩
    exact DistId.uuid.inj hdid
  · intro tempId payload row hcall
    cases hcall
  · intro u
    change (Store.fetched summary).count (.uuid u) + 0 = (db.cellsOf syllabusId).countP (·.id == u)
    rw [hcount, Nat.add_zero]
    refine List.countP_congr fun row _ => ?_
    simp [SyllabusDistribution.json]
  · intro t
    change (Store.fetched summary).count (.temp t) ≤ 0
    rw [hcount, Nat.le_zero, List.countP_eq_zero]
    intro row _
    simp [SyllabusDistribution.json]
  · intro d hd row hmem hid
    obtain ⟨row', hmem', rfl⟩ := hrow d hd
    have hsame : row' = row := by
      refine Table.eq_of_key_eq (List.mem_filter.mp hmem').1 (List.mem_filter.mp hmem).1 ?_
      exact DistId.uuid.inj hid
    subst hsame
    exact ⟨rfl, fun _ => rfl⟩

/-- A store that follows the server shows exactly its rows when no call is in flight. -/
theorem Editor.Follows.mem_shown_iff {syllabusId : Uuid} {m : Editor} (h : m.Follows syllabusId)
    (hidle : m.inFlight = []) (d : StoredDistribution) :
    d ∈ m.store.shown ↔ d ∈ (m.db.cellsOf syllabusId).map (·.json) := by
  have hshown : ∀ (a : Ref) (d : StoredDistribution) (row : SyllabusDistribution),
      m.store.objects[a]? = some d → row ∈ m.db.cellsOf syllabusId → d.id = .uuid row.id →
        d = row.json := by
    intro a d row ha hrow hid
    obtain ⟨hcell, hcount⟩ := h.shows d (List.mem_of_getElem? ha) row hrow hid
    rw [hidle] at hcount
    rw [hcell, hcount rfl]
    rfl
  constructor
  · intro hd
    obtain ⟨a, hmem, ha⟩ := List.mem_filterMap.mp hd
    cases hid : d.id with
    | temp now =>
      have htemps := h.temps now
      have hpos : 0 < m.store.count (.temp now) :=
        List.countP_pos_iff.mpr ⟨a, hmem, Store.hasId_iff.mpr ⟨d, ha, hid⟩⟩
      rw [hidle, List.countP_nil] at htemps
      omega
    | uuid u =>
      have hcovers := h.covers u
      have hpos : 0 < m.store.count (.uuid u) :=
        List.countP_pos_iff.mpr ⟨a, hmem, Store.hasId_iff.mpr ⟨d, ha, hid⟩⟩
      rw [hidle, List.countP_nil] at hcovers
      have hrows : 0 < (m.db.cellsOf syllabusId).countP (·.id == u) := by omega
      obtain ⟨row, hrow, hrowId⟩ := List.countP_pos_iff.mp hrows
      have hrowId : row.id = u := by simpa using hrowId
      subst hrowId
      exact List.mem_map.mpr ⟨row, hrow, (hshown a d row ha hrow hid).symm⟩
  · intro hd
    obtain ⟨row, hrow, rfl⟩ := List.mem_map.mp hd
    have hcovers := h.covers row.id
    rw [hidle, List.countP_nil, countP_cellsOf_eq_one hrow] at hcovers
    have hpos : 0 < m.store.count (.uuid row.id) := by omega
    obtain ⟨a, hmem, hhas⟩ := List.countP_pos_iff.mp hpos
    obtain ⟨e, he, hid⟩ := Store.hasId_iff.mp hhas
    refine List.mem_filterMap.mpr ⟨a, hmem, ?_⟩
    rw [he, hshown a e row he hrow hid]

/-- **The store converges to the server** in every run whose steps meet the condition. -/
theorem storeConverges_of_followsServer (known : CatalogId → CatalogId → Bool) :
    StoreConverges known followsServer := by
  intro syllabusId summary db m hfetched hreach hidle d
  have hfollows : m.Follows syllabusId :=
    hreach.invariant (Editor.follows_fetched hfetched) fun s a s' hs hcond hstep =>
      hs.step hcond hstep
  exact hfollows.mem_shown_iff hidle d

/-- A syllabus with one cell of five questions. -/
def oneCell : Db :=
  { Db.provisioned [] with
    syllabuses := Table.empty.insert
      { id := 1, cycleId := 1, courseId := 7, name := "Nuevo Sílabo", templateId := none,
        isActive := true }
    distributions := Table.empty.insert
      { id := 101, syllabusId := 1, templateId := none, weekNumber := 1, topicId := 10,
        subtopicId := 20, questionCount := 5 } }

/-- The cell is set to seven questions and then to nine. The first update fails, and its answer is
the last one to arrive. -/
def overlappingEdits : List StoreEvent :=
  [.updateDistributionQuestionCount (.uuid 101) 7, .updateDistributionQuestionCount (.uuid 101) 9,
    .fail 0, .write 1 500, .answer 1, .answer 0]

/-- The editor when both answers have arrived. -/
def editedTwice : Editor :=
  after (Editor.step (fun _ _ => true) 1) (.fetched ((oneCell.cellsOf 1).map (·.json)) oneCell)
    overlappingEdits

/-- **Two overlapping edits of a cell**: the first one fails and restores the number that the second
one has replaced at the server. -/
theorem not_storeConverges : ¬∀ known, StoreConverges known fun _ _ _ => True := by
  intro h
  have hreach : Reaches (Editor.step (fun _ _ => true) 1) (fun _ _ => True)
      (.fetched ((oneCell.cellsOf 1).map (·.json)) oneCell) editedTwice :=
    reaches_after (by decide +kernel) fun _ _ _ => trivial
  have hsame := h (fun _ _ => true) 1 _ oneCell editedTwice (.refl _) hreach (by decide +kernel)
  have hshown : editedTwice.store.shown.map (·.questionCount) = [5] := by decide +kernel
  have hrows : (editedTwice.db.cellsOf 1).map (·.questionCount) = [9] := by decide +kernel
  obtain ⟨d, hd⟩ : ∃ d, d ∈ editedTwice.store.shown := by
    cases hlist : editedTwice.store.shown with
    | nil =>
      rw [hlist] at hshown
      cases hshown
    | cons d rest => exact ⟨d, List.mem_cons_self ..⟩
  have hfive : d.questionCount = 5 := by
    have hmem := List.mem_map_of_mem (f := fun e : StoredDistribution => e.questionCount) hd
    rw [hshown] at hmem
    exact List.mem_singleton.mp hmem
  obtain ⟨row, hrow, rfl⟩ := List.mem_map.mp ((hsame d).mp hd)
  have hnine : row.questionCount = 9 := by
    have hmem := List.mem_map_of_mem (f := fun e : SyllabusDistribution => e.questionCount) hrow
    rw [hrows] at hmem
    exact List.mem_singleton.mp hmem
  have hcount : row.json.questionCount = row.questionCount := rfl
  omega

end Odiseo.Syllabi
