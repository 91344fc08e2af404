import Mathlib.Data.List.Basic
import Odiseo.Materials.Artifacts
import Odiseo.Text.Split

/-!
# The combined PDF

A callback that completes the last course of a request dispatches a merge, unless the request
counts as finished already. The merge takes the courses that are `COMPLETED`, while courses that
are completed with warnings have finished as well, and it fetches their PDFs before it uploads the
combined one. The combined PDF is complete and current as long as no course becomes complete or is
printed again without a merge after it, and as the last merge has left no course out, has fetched
no PDF that was printed again since, and has not been overwritten by another one.
-/

namespace Odiseo.Materials

open Database Database.Transition

section Addresses

/-- A number before a slash can be read off a text. -/
theorem eq_of_toDigits_append {m n : ℕ} {xs ys : List Char}
    (h : Nat.toDigits 10 m ++ '/' :: xs = Nat.toDigits 10 n ++ '/' :: ys) : m = n ∧ xs = ys := by
  obtain ⟨hdigits, hrest⟩ := Text.append_first_inj (Text.notMem_toDigits (by decide) m)
    (Text.notMem_toDigits (by decide) n) h
  exact ⟨Text.toDigits_inj hdigits, hrest⟩

/-- The address of a combined PDF names its request and which of the three PDFs it is. -/
theorem mergedUrl_inj {t t' : Uuid} {r r' : RequestId} {variant variant' : Variant}
    (h : mergedUrl t r variant = mergedUrl t' r' variant') : r = r' ∧ variant = variant' := by
  have htext : ∀ (t : Uuid) (r : RequestId) (variant : Variant),
      (s!"materials/{t}/merged/{r}/{mergedName variant}").toList =
        "materials/".toList ++ (Nat.toDigits 10 t ++ '/' :: ("merged/".toList ++
          (Nat.toDigits 10 r ++ '/' :: (mergedName variant).toList))) := by
    intro t r variant
    simp only [String.toList_append, Nat.toString_eq_repr, Nat.toList_repr, List.append_assoc]
    rfl
  have hlist := congrArg String.toList (Url.text.inj h)
  rw [htext, htext] at hlist
  obtain ⟨-, hrest⟩ := eq_of_toDigits_append (List.append_cancel_left hlist)
  obtain ⟨hr, hname⟩ := eq_of_toDigits_append (List.append_cancel_left hrest)
  refine ⟨hr, ?_⟩
  have hsame := String.toList_inj.mp hname
  cases variant <;> cases variant' <;> first | rfl | exact absurd hsame (by decide)

end Addresses

/-- All courses of a request, at least two, are completed and have a student PDF. -/
def Site.Complete (w : Site) (r : RequestId) : Prop :=
  2 ≤ (w.db.coursesOf r).length ∧
    ∀ c ∈ w.db.coursesOf r, c.status.successTerminal = true ∧ c.downloadUrl.isSome = true

/-- The combined PDF of a request has an address, and is made up of the student PDFs of all its
courses. -/
def Site.Combined (w : Site) (r : RequestId) (url : Url) : Prop :=
  ∃ q parts, w.db.requests.find r = some q ∧ q.mergedDownloadUrl = some url ∧
    List.Forall₂ (fun c part => c.downloadUrl.bind w.files = some part) (w.db.coursesOf r) parts ∧
      w.files url = some parts.flatten

/-- In the idle states that are reached under a condition, the combined PDF of a complete request
is complete and current. -/
def CombinesAll (orm : Orm) (cond : Site → SiteAction → Prop) : Prop :=
  ∀ catalog w, Reaches (Site.step orm) cond (.start catalog) w → w.Idle →
    ∀ r, w.Complete r → ∃ url, w.Combined r url

/-- A merge of a request waits in the queue, or has read the courses of the request. -/
def Site.MergePending (w : Site) (r : RequestId) : Prop :=
  (∃ tenantId, .mergePdf r tenantId ∈ w.jobs) ∨ ∃ m ∈ w.merges, m.materialRequestId = r

/-- Without a merge on its way, no approval makes a request complete, no callback completes a
request that counts as finished already, and no course of a complete request is printed
differently. The last merge on its way for a complete request has left no course out, has fetched
no student PDF that was printed differently since, and its combined PDF is the one that is there. -/
def keepsCombined (w : Site) : SiteAction → Prop
  | .approve id dto _ => bypasses dto (w.db.coursesOf id) = true →
      (w.db.coursesOf id).length < 2 ∨ w.MergePending id ∨
        ∀ c ∈ w.db.coursesOf id, c.status.successTerminal = true
  | .upload k => ∀ p, w.prints[k]? = some p → w.Complete p.job.materialRequestId →
      w.MergePending p.job.materialRequestId ∨
        ∀ c ∈ w.db.coursesOf p.job.materialRequestId, ∀ url ∈ p.urls,
          c.downloadUrl = some url → w.files url = some [p.print]
  | .report k => ∀ p id, w.prints[k]? = some p → p.job.dist.courseRequestId = some id →
      w.completes p id = true →
        (∀ c ∈ w.db.coursesOf p.job.materialRequestId, c.id ≠ id →
          c.status.successTerminal = true) →
        w.MergePending p.job.materialRequestId ∨
          parentAlreadyFinalized (w.db.requests.find p.job.materialRequestId) = false
  | .finishMerge k => ∀ m, w.merges[k]? = some m → w.Complete m.materialRequestId →
      Site.MergePending { w with merges := w.merges.eraseIdx k } m.materialRequestId ∨
        mergeSources (completedCourses m.courses) .student =
            mergeSources (w.db.coursesOf m.materialRequestId) .student ∧
          (∀ part ∈ m.fetched .student, part.2 = w.files part.1) ∧
            w.files (m.url .student) = m.combined .student
  | _ => True

/-- A merge fetches its sources in their order, and all of those of a combined PDF before it goes
on to the next one. -/
structure Merging.Sound (m : Merging) : Prop where
  fetched : ∀ variant, (m.fetched variant).map Prod.fst <+: m.sources variant
  student : (completedCourses m.courses).length < 2 ∨ .student ∈ m.todo ∨
    (m.fetched .student).map Prod.fst = m.sources .student

/-- A complete request has a current combined PDF, or a merge on its way. -/
structure Site.Merged (w : Site) : Prop where
  sound : w.Sound
  combined : ∀ r, w.Complete r →
    (∃ tenantId, w.Combined r (mergedUrl tenantId r .student)) ∨ w.MergePending r

/-- What holds of the combined PDFs and of the merges in every run that keeps them. -/
structure Site.KeepsMerged (w : Site) : Prop where
  merged : w.Merged
  merges : ∀ m ∈ w.merges, m.Sound

namespace Merging.Sound

variable {m : Merging} {variant : Variant}

/-- A merge that is begun. -/
theorem begin (r : RequestId) (tenantId : Uuid) (courses : List MaterialRequestCourse) :
    (Merging.begin r tenantId courses).Sound where
  fetched := fun _ => List.nil_prefix
  student := by
    by_cases hfew : (completedCourses courses).length < 2
    · exact .inl hfew
    · refine .inr (.inl ?_)
      unfold Merging.begin
      dsimp only
      rw [if_neg hfew]
      exact List.mem_cons_self ..

/-- A source is fetched. -/
theorem fetchPart (h : m.Sound) {url : Url} (htodo : m.todo.head? = some variant)
    (hnext : m.nextSource variant = some url) (file : Option PdfFile) :
    Merging.Sound { m with
      fetched := Function.update m.fetched variant (m.fetched variant ++ [(url, file)]) } := by
  constructor
  · intro other
    by_cases hother : other = variant
    · subst hother
      change (Function.update m.fetched other _ other).map Prod.fst <+: m.sources other
      rw [Function.update_self, List.map_append]
      have hsplit := h.fetched other
      rw [List.prefix_iff_eq_take, List.length_map] at hsplit
      rw [hsplit]
      have hlt : (m.fetched other).length < (m.sources other).length :=
        (List.getElem?_eq_some_iff.mp hnext).1
      have hget : (m.sources other)[(m.fetched other).length]? = some url := hnext
      rw [List.map_singleton, ← (List.getElem?_eq_some_iff.mp hget).2, List.take_append_getElem hlt]
      exact List.take_prefix _ _
    · change (Function.update m.fetched variant _ other).map Prod.fst <+: m.sources other
      rw [Function.update_of_ne hother]
      exact h.fetched other
  · rcases h.student with hfew | hstudent | hdone
    · exact .inl hfew
    · exact .inr (.inl hstudent)
    · by_cases hvariant : variant = .student
      · subst hvariant
        exact .inr (.inl (List.mem_of_head? htodo))
      · refine .inr (.inr ?_)
        change (Function.update m.fetched variant _ .student).map Prod.fst = m.sources .student
        rw [Function.update_of_ne (Ne.symm hvariant)]
        exact hdone

/-- The sources of a combined PDF have all been fetched. -/
theorem fetched_all (h : m.Sound) (hall : m.nextSource variant = none) :
    (m.fetched variant).map Prod.fst = m.sources variant := by
  refine (h.fetched variant).eq_of_length_le ?_
  rw [List.length_map]
  exact List.getElem?_eq_none_iff.mp hall

/-- The merge goes on to the next combined PDF. -/
theorem next (h : m.Sound) {rest : List Variant} (htodo : m.todo = variant :: rest)
    (hall : m.nextSource variant = none) : Merging.Sound { m with todo := rest } := by
  refine ⟨h.fetched, ?_⟩
  rcases h.student with hfew | hstudent | hdone
  · exact .inl hfew
  · rw [htodo, List.mem_cons] at hstudent
    rcases hstudent with rfl | hrest
    · exact .inr (.inr (h.fetched_all hall))
    · exact .inr (.inl hrest)
  · exact .inr (.inr hdone)

end Merging.Sound

/-- **Step:** the merges fetch their sources in order. -/
theorem Site.merges_sound_step {orm : Orm} {w w' : Site} {a : SiteAction}
    (h : ∀ m ∈ w.merges, m.Sound) (hstep : w.step orm a = some w') : ∀ m ∈ w'.merges, m.Sound := by
  have hset : ∀ {k : ℕ} {m' : Merging}, m'.Sound → ∀ x ∈ w.merges.set k m', x.Sound := by
    intro k m' hm' x hx
    rcases List.mem_or_eq_of_mem_set hx with hold | rfl
    · exact h x hold
    · exact hm'
  cases effect_of_step hstep with
  | mergeStarted k stalls r tenantId =>
    intro x hx
    rcases List.mem_append.mp hx with hold | hnew
    · exact h x hold
    · obtain rfl := List.mem_singleton.mp hnew
      exact .begin r tenantId _
  | partFetched k m variant url hm htodo hnext =>
    exact hset ((h m (List.mem_of_getElem? hm)).fetchPart htodo hnext _)
  | mergeUploaded k m variant rest file hm htodo hall =>
    exact hset ((h m (List.mem_of_getElem? hm)).next htodo hall)
  | mergePassed k m variant rest hm htodo hall =>
    exact hset ((h m (List.mem_of_getElem? hm)).next htodo hall)
  | mergeFailed k m hm => exact fun x hx => h x (List.mem_of_mem_eraseIdx hx)
  | mergeSkipped k m hm hfew => exact fun x hx => h x (List.mem_of_mem_eraseIdx hx)
  | merged k m hm htodo => exact fun x hx => h x (List.mem_of_mem_eraseIdx hx)
  | _ => exact h

namespace Site

variable {w w' : Site} {r : RequestId}

/-- The student PDFs of courses whose addresses are the same, with the same files. -/
theorem parts_congr {files files' : Url → Option PdfFile} {f : MaterialRequestCourse →
    MaterialRequestCourse} {courses : List MaterialRequestCourse} {parts : List PdfFile}
    (h : List.Forall₂ (fun c part => c.downloadUrl.bind files = some part) courses parts)
    (hurl : ∀ c ∈ courses, (f c).downloadUrl = c.downloadUrl)
    (hfiles : ∀ c ∈ courses, ∀ url, c.downloadUrl = some url → files' url = files url) :
    List.Forall₂ (fun c part => c.downloadUrl.bind files' = some part) (courses.map f) parts := by
  induction h with
  | nil => exact .nil
  | @cons c part courses parts hpart _ ih =>
    refine .cons ?_ (ih (fun x hx => hurl x (List.mem_cons_of_mem c hx))
      fun x hx => hfiles x (List.mem_cons_of_mem c hx))
    rw [hurl c (List.mem_cons_self ..)]
    cases hc : c.downloadUrl with
    | none =>
      rw [hc] at hpart
      cases hpart
    | some url =>
      rw [hc] at hpart
      exact (hfiles c (List.mem_cons_self ..) url hc).trans hpart

/-- A combined PDF stays current while the student PDFs, its address and its file stay. -/
theorem Combined.transfer {url : Url} (h : w.Combined r url)
    {f : MaterialRequestCourse → MaterialRequestCourse}
    (hcourses : w'.db.coursesOf r = (w.db.coursesOf r).map f)
    (hurl : ∀ c ∈ w.db.coursesOf r, (f c).downloadUrl = c.downloadUrl)
    (hfiles : ∀ c ∈ w.db.coursesOf r, ∀ url, c.downloadUrl = some url →
      w'.files url = w.files url)
    (hfile : w'.files url = w.files url)
    (hrequest : ∀ q, w.db.requests.find r = some q → ∃ q', w'.db.requests.find r = some q' ∧
      q'.mergedDownloadUrl = q.mergedDownloadUrl) : w'.Combined r url := by
  obtain ⟨q, parts, hq, hmerged, hparts, hshown⟩ := h
  obtain ⟨q', hq', hmerged'⟩ := hrequest q hq
  refine ⟨q', parts, hq', hmerged'.trans hmerged, ?_, hfile.trans hshown⟩
  rw [hcourses]
  exact parts_congr hparts hurl hfiles

/-- A request that is complete after its courses have changed in place, but for their student
PDFs, was complete when its courses had succeeded. -/
theorem complete_of_map {f : MaterialRequestCourse → MaterialRequestCourse}
    (h : w'.Complete r) (hcourses : w'.db.coursesOf r = (w.db.coursesOf r).map f)
    (hurl : ∀ c ∈ w.db.coursesOf r, (f c).downloadUrl = c.downloadUrl)
    (hsuccess : ∀ c ∈ w.db.coursesOf r, c.status.successTerminal = true) : w.Complete r := by
  obtain ⟨hlength, hall⟩ := h
  rw [hcourses] at hlength hall
  refine ⟨by simpa using hlength, fun c hc => ⟨hsuccess c hc, ?_⟩⟩
  rw [← hurl c hc]
  exact (hall _ (List.mem_map_of_mem hc)).2

/-- A merge is not lost by a commit. -/
theorem MergePending.commit (h : w.MergePending r) (db : Db) (jobs : List Job) :
    (w.commit db jobs).MergePending r := by
  rcases h with ⟨tenantId, hjob⟩ | hmerge
  · exact .inl ⟨tenantId, List.mem_append_left _ hjob⟩
  · exact .inr hmerge

/-- A commit of a user or of a callback that changes the courses of a request in place, and
completes none of them, keeps the combined PDF or the merge of the request. -/
theorem Merged.commit_kept (h : w.Merged) {db : Db} {jobs : List Job}
    (hrequests : KeepsRequests w.db db) {f : MaterialRequestCourse → MaterialRequestCourse}
    (hcourses : db.coursesOf r = (w.db.coursesOf r).map f)
    (hurl : ∀ c ∈ w.db.coursesOf r, (f c).downloadUrl = c.downloadUrl)
    (hsuccess : ∀ c ∈ w.db.coursesOf r, c.status.successTerminal = true)
    (hcomplete : (w.commit db jobs).Complete r) :
    (∃ tenantId, (w.commit db jobs).Combined r (mergedUrl tenantId r .student)) ∨
      (w.commit db jobs).MergePending r := by
  rcases h.combined r (complete_of_map hcomplete hcourses hurl hsuccess) with
    ⟨tenantId, hcombined⟩ | hpending
  · refine .inl ⟨tenantId, hcombined.transfer hcourses hurl (fun _ _ _ _ => rfl) rfl ?_⟩
    intro q hq
    obtain ⟨q', hq', hmerged, -⟩ := hrequests r q hq
    exact ⟨q', hq', hmerged⟩
  · exact .inr (hpending.commit db jobs)

/-- A call that leaves the courses alone. -/
theorem Merged.untouched (h : w.Merged) {db : Db} (huntouched : Untouched w.db db) :
    (w.commit db []).Merged := by
  refine ⟨h.sound.commit_of_samePdfs huntouched.keepsPlaces (by simp), ?_⟩
  intro r hcomplete
  have hcourses : db.coursesOf r = (w.db.coursesOf r).map id := by
    rw [List.map_id]
    unfold Db.coursesOf
    rw [huntouched.courses]
  refine h.commit_kept huntouched.requests hcourses (fun _ _ => rfl) ?_ hcomplete
  intro c hc
  have hmem : c ∈ db.coursesOf r := by
    rw [hcourses, List.map_id]
    exact hc
  exact (hcomplete.2 c hmem).1

/-- A complete request has a course. -/
theorem Complete.exists_mem (h : w.Complete r) : ∃ c, c ∈ w.db.coursesOf r := by
  refine List.exists_mem_of_length_pos ?_
  have hlength := h.1
  omega

/-- A generation. -/
theorem Merged.created (h : w.Merged) {g : GenerateInputs} {db : Db}
    (hcreated : Created g w.db db) : (w.commit db g.result.jobsToDispatch).Merged := by
  refine ⟨h.sound.commit_of_samePdfs hcreated.keepsPlaces
    fun j hj job hjob => hcreated.sound hj hjob, ?_⟩
  intro r hcomplete
  by_cases hr : r = g.newRequestId
  · -- the courses of the new request are not printed yet
    obtain ⟨c, hc⟩ := hcomplete.exists_mem
    have hstatus := (hcomplete.2 c hc).1
    obtain ⟨hfind, hrequest⟩ := Db.mem_coursesOf.mp hc
    rcases hcreated.courses _ c hfind with hold | ⟨x, -, status, rfl, hopen⟩
    · obtain ⟨q, hq⟩ := (h.sound.courses _ c hold).request
      rw [hrequest, hr, hcreated.fresh] at hq
      cases hq
    · have hstatus : status.successTerminal = true := hstatus
      rw [hopen] at hstatus
      cases hstatus
  · have hcourses : db.coursesOf r = (w.db.coursesOf r).map id := by
      rw [List.map_id]
      exact hcreated.coursesOf r hr
    have hsuccess : ∀ c ∈ w.db.coursesOf r, c.status.successTerminal = true := by
      intro c hc
      have hmem : c ∈ db.coursesOf r := by
        rw [hcreated.coursesOf r hr]
        exact hc
      exact (hcomplete.2 c hmem).1
    have hbefore := complete_of_map hcomplete hcourses (fun _ _ => rfl) hsuccess
    rcases h.combined r hbefore with ⟨tenantId, hcombined⟩ | hpending
    · refine .inl ⟨tenantId, hcombined.transfer hcourses (fun _ _ => rfl)
        (fun _ _ _ _ => rfl) rfl ?_⟩
      intro q hq
      exact ⟨q, (hcreated.others r hr).trans hq, rfl⟩
    · exact .inr (hpending.commit db _)

/-- An approval. -/
theorem Merged.approved (h : w.Merged) {orm : Orm} {id : RequestId} {dto : ApproveReview}
    {ctx : MaterialReviewContext} {result : ApprovalResult} {db : Db}
    (happroved : Approved orm id dto ctx w.db db result)
    (hkeeps : keepsCombined w (.approve id dto ctx)) :
    (w.commit db result.jobsToDispatch).Merged := by
  refine ⟨h.sound.commit_of_samePdfs happroved.keepsPlaces
    fun j hj job hjob => happroved.sound hj hjob, ?_⟩
  intro r hcomplete
  have hcourses := happroved.courses.coursesOf r
  have hurl : ∀ c ∈ w.db.coursesOf r,
      (approvedCourse id dto (w.db.coursesOf id) c).downloadUrl = c.downloadUrl :=
    fun c _ => url_approvedCourse id dto (w.db.coursesOf id) c .student
  have hafter : ∀ c ∈ w.db.coursesOf r,
      (approvedCourse id dto (w.db.coursesOf id) c).status.successTerminal = true := by
    intro c hc
    refine (hcomplete.2 _ ?_).1
    change _ ∈ db.coursesOf r
    rw [hcourses]
    exact List.mem_map_of_mem hc
  by_cases hr : r = id
  · subst hr
    have hof : ∀ c ∈ w.db.coursesOf r, c.materialRequestId = r :=
      fun c hc => (Db.mem_coursesOf.mp hc).2
    obtain ⟨c', hc'⟩ := hcomplete.exists_mem
    have hc' : c' ∈ db.coursesOf r := hc'
    rw [hcourses] at hc'
    obtain ⟨c, hc, -⟩ := List.mem_map.mp hc'
    cases hbypass : bypasses dto (w.db.coursesOf r) with
    | false =>
      have hstatus := hafter c hc
      unfold approvedCourse at hstatus
      rw [if_pos (hof c hc), hbypass] at hstatus
      cases hstatus
    | true =>
      rcases hkeeps hbypass with hfew | hpending | hsuccess
      · have hlength : 2 ≤ (db.coursesOf r).length := hcomplete.1
        rw [hcourses, List.length_map] at hlength
        omega
      · exact .inr (hpending.commit db _)
      · exact h.commit_kept happroved.keepsRequests hcourses hurl hsuccess hcomplete
  · refine h.commit_kept happroved.keepsRequests hcourses hurl ?_ hcomplete
    intro c hc
    have hstatus := hafter c hc
    unfold approvedCourse at hstatus
    rwa [if_neg (by rw [(Db.mem_coursesOf.mp hc).2]; exact hr)] at hstatus

/-- A step on which the database stays and no file of a course or of a combined PDF changes its
content, while merges stay on their way. -/
theorem Merged.quiet (h : w.Merged) (hsound : w'.Sound) (hdb : w'.db = w.db)
    (hfiles : ∀ r, w.Complete r → w.MergePending r ∨
      (∀ c ∈ w.db.coursesOf r, ∀ url, c.downloadUrl = some url → w'.files url = w.files url) ∧
        ∀ tenantId, w'.files (mergedUrl tenantId r .student) =
          w.files (mergedUrl tenantId r .student))
    (hpending : ∀ r, w.MergePending r → w'.MergePending r) : w'.Merged := by
  refine ⟨hsound, ?_⟩
  intro r hcomplete
  have hbefore : w.Complete r := by
    unfold Site.Complete at hcomplete ⊢
    rwa [hdb] at hcomplete
  rcases h.combined r hbefore with ⟨tenantId, hcombined⟩ | hmerge
  · rcases hfiles r hbefore with hmerge | ⟨hcourse, hmerged⟩
    · exact .inr (hpending r hmerge)
    · refine .inl ⟨tenantId, hcombined.transfer ?_ (fun _ _ => rfl) hcourse (hmerged tenantId) ?_⟩
      · rw [hdb, List.map_id']
      · intro q hq
        exact ⟨q, by rw [hdb]; exact hq, rfl⟩
  · exact .inr (hpending r hmerge)

/-- The worker uploads the PDFs of a course. -/
theorem Merged.upload (h : w.Merged) {k : ℕ} {p : Printing} (hp : w.prints[k]? = some p)
    (hkeeps : keepsCombined w (.upload k)) : (w.upload k p).Merged := by
  refine h.quiet (h.sound.upload hp) rfl ?_ fun _ hpending => hpending
  intro r hcomplete
  have hmerged : ∀ tenantId, (w.upload k p).files (mergedUrl tenantId r .student) =
      w.files (mergedUrl tenantId r .student) := by
    intro tenantId
    refine if_neg fun hmem => ?_
    obtain ⟨variant, -, hkey⟩ := object_of_mem_urls hmem
    cases hkey
  by_cases hr : r = p.job.materialRequestId
  · subst hr
    rcases hkeeps p hp hcomplete with hpending | hsame
    · exact .inl hpending
    · refine .inr ⟨?_, hmerged⟩
      intro c hc url hurl
      by_cases hmem : url ∈ p.urls
      · rw [hsame c hc url hmem hurl]
        exact if_pos hmem
      · exact if_neg hmem
  · refine .inr ⟨?_, hmerged⟩
    intro c hc url hurl
    obtain ⟨hfind, hrequest⟩ := Db.mem_coursesOf.mp hc
    have hstudent : c.url .student = some url := hurl
    obtain ⟨key, rfl, hplace⟩ := h.sound.exists_key hfind hstudent
    refine files_upload_of_ne fun hsame => hr ?_
    have hplaces : c.place = p.job.place := hplace.symm.trans hsame
    exact hrequest.symm.trans (congrArg Prod.fst hplaces)

/-- A success of the last open course of a request dispatches a merge, unless the request counts
as finished already. -/
theorem mergePdf_mem_jobsAfter {p : Printing} {id : CourseRequestId} {c : MaterialRequestCourse}
    (hc : w.db.courses.find id = some c) (hignores : ignores c.status p.reported = false)
    (hlength : 2 ≤ (w.db.coursesOf c.materialRequestId).length)
    (hothers : ∀ x ∈ w.db.coursesOf c.materialRequestId, x.id ≠ id →
      x.status.successTerminal = true)
    (hsuccess : p.reported.successTerminal = true)
    (hrequest : ∃ q, w.db.requests.find c.materialRequestId = some q)
    (hopen : parentAlreadyFinalized (w.db.requests.find c.materialRequestId) = false) :
    .mergePdf c.materialRequestId p.job.tenantId ∈
      p.callback.jobsAfter id p.reported w.db := by
  have hcompany : p.callback.companyId = some p.job.tenantId := by
    unfold Printing.callback CourseJob.report
    split
    · rfl
    · unfold CourseJob.reportLoaded
      split <;> rfl
  set prepared := p.callback.prepare p.reported c
    (w.db.usagesOf c.materialRequestId c.courseId) w.db with hprepared
  have hcourses : prepared.coursesOf c.materialRequestId =
      (w.db.coursesOf c.materialRequestId).map fun x =>
        if x.id = c.id then p.callback.change p.reported x else x := coursesOf_prepare ..
  have hall : ∀ x ∈ prepared.coursesOf c.materialRequestId,
      x.status.successTerminal = true := by
    intro x hx
    rw [hcourses] at hx
    obtain ⟨y, hy, rfl⟩ := List.mem_map.mp hx
    by_cases hid : y.id = c.id
    · rw [if_pos hid]
      exact hsuccess
    · rw [if_neg hid]
      exact hothers y hy fun heq => hid (heq.trans (Db.course_id_of_find hc).symm)
  have hfinished : allFinished (prepared.coursesOf c.materialRequestId) = true := by
    unfold allFinished
    rw [List.all_eq_true]
    exact fun x hx => CourseMaterialStatus.finished_of_successTerminal (hall x hx)
  have hrequests : prepared.requests = w.db.requests := prepare_requests ..
  have hmerges : mergesParent (prepared.requests.find c.materialRequestId)
      (prepared.coursesOf c.materialRequestId) = true := by
    have hnone : (prepared.coursesOf c.materialRequestId).any
        (fun x => x.status == .failed) = false := by
      rw [List.any_eq_false]
      intro x hx hfailed
      have hstatus := hall x hx
      rw [beq_iff_eq.mp hfailed] at hstatus
      cases hstatus
    unfold mergesParent
    rw [hnone, hrequests, hopen]
    rw [hcourses, List.length_map]
    simpa using hlength
  obtain ⟨q, hq⟩ := hrequest
  unfold Callback.jobsAfter
  simp only [hc, hignores, Bool.false_eq_true, if_false]
  unfold Callback.mergeJobs
  rw [if_pos, hcompany]
  · simp
  · rw [← hprepared, hfinished, hmerges, hrequests, hq]
    rfl

/-- The report of a course is handled. -/
theorem Merged.reported (h : w.Merged) {k : ℕ} {p : Printing} {id : CourseRequestId}
    (hp : w.prints[k]? = some p) (hid : p.job.dist.courseRequestId = some id)
    (hready : p.prints = true → p.uploaded = true) (hkeeps : keepsCombined w (.report k)) :
    (w.reported k p id).Merged := by
  have hmem : p ∈ w.prints := List.mem_of_getElem? hp
  obtain ⟨c, hc, hplace⟩ := (h.sound.jobs _ (.inr ⟨p, hmem, rfl⟩)).course id hid
  have hcid : c.id = id := Db.course_id_of_find hc
  have hcr : c.materialRequestId = p.job.materialRequestId := congrArg Prod.fst hplace
  set db' := p.callback.after id p.reported w.db with hdb'
  set jobs' := p.callback.jobsAfter id p.reported w.db with hjobs'
  have hcommit : ∀ r, (w.reported k p id).Complete r →
      (∃ tenantId, (w.commit db' jobs').Combined r (mergedUrl tenantId r .student)) ∨
        (w.commit db' jobs').MergePending r := by
    intro r hcomplete
    have hcomplete : (w.commit db' jobs').Complete r := hcomplete
    have hcourses : db'.coursesOf r = (w.db.coursesOf r).map fun x =>
        if x.id = id then p.callback.courseAfter p.reported x else x := coursesOf_after r
    have hafter : ∀ x ∈ w.db.coursesOf r, (if x.id = id then
        p.callback.courseAfter p.reported x else x).status.successTerminal = true := by
      intro x hx
      refine (hcomplete.2 _ ?_).1
      change _ ∈ db'.coursesOf r
      rw [hcourses]
      exact List.mem_map_of_mem hx
    have hothers : ∀ x ∈ w.db.coursesOf r, x.id ≠ id → x.status.successTerminal = true := by
      intro x hx hne
      have hstatus := hafter x hx
      rwa [if_neg hne] at hstatus
    have hrequests := (keeps_after p.callback id p.reported w.db).1
    by_cases hchanges : c.materialRequestId = r ∧ ignores c.status p.reported = false
    · obtain ⟨rfl, hignores⟩ := hchanges
      have hrow : c ∈ w.db.coursesOf c.materialRequestId :=
        Db.mem_coursesOf.mpr ⟨hcid.symm ▸ hc, rfl⟩
      have hsuccess : p.reported.successTerminal = true := by
        have hstatus := hafter c hrow
        rwa [if_pos hcid, Callback.courseAfter,
          if_neg (by rw [hignores]; exact Bool.false_ne_true)] at hstatus
      have hcompletes : w.completes p id = true := by
        unfold Site.completes
        rw [hc, hsuccess]
        simp [hignores]
      have hgiven := hkeeps p id hp hid hcompletes
      rw [← hcr] at hgiven
      rcases hgiven hothers with hpending | hopen
      · exact .inr (hpending.commit db' jobs')
      · have hlength : 2 ≤ (db'.coursesOf c.materialRequestId).length := hcomplete.1
        rw [hcourses, List.length_map] at hlength
        have hjob := mergePdf_mem_jobsAfter hc hignores hlength hothers hsuccess
          (h.sound.courses id c hc).request hopen
        exact .inr (.inl ⟨_, List.mem_append_right _ hjob⟩)
    · -- no course of the request changes
      have hsame : ∀ x ∈ w.db.coursesOf r,
          (if x.id = id then p.callback.courseAfter p.reported x else x) = x := by
        intro x hx
        split
        · rename_i hxid
          obtain ⟨hfind, hxr⟩ := Db.mem_coursesOf.mp hx
          rw [hxid, hc] at hfind
          cases hfind
          unfold Callback.courseAfter
          rw [if_pos]
          by_contra hignores
          exact hchanges ⟨hxr, by simpa using hignores⟩
        · rfl
      refine h.commit_kept hrequests hcourses (fun x hx => by rw [hsame x hx]) ?_ hcomplete
      intro x hx
      have hstatus := hafter x hx
      rwa [hsame x hx] at hstatus
  exact ⟨h.sound.reported hp hid hready, fun r hcomplete => hcommit r hcomplete⟩

/-- What is not erased stays. -/
theorem mem_eraseIdx_of_ne {α : Type} {xs : List α} {k : ℕ} {x y : α} (hx : x ∈ xs)
    (hy : xs[k]? = some y) (hne : x ≠ y) : x ∈ xs.eraseIdx k := by
  rw [List.mem_eraseIdx_iff_getElem?]
  obtain ⟨i, hi⟩ := List.mem_iff_getElem?.mp hx
  refine ⟨i, ?_, hi⟩
  rintro rfl
  rw [hi] at hy
  exact hne (Option.some.inj hy)

/-- The student PDFs of a complete request are all there. -/
theorem Complete.parts (h : w.Complete r) (hsound : w.Sound) :
    List.Forall₂ (fun c part => c.downloadUrl.bind w.files = some part) (w.db.coursesOf r)
      ((mergeSources (w.db.coursesOf r) .student).filterMap w.files) ∧
      (mergeSources (w.db.coursesOf r) .student).length = (w.db.coursesOf r).length := by
  have hcourse : ∀ c ∈ w.db.coursesOf r, ∃ key file, c.url .student = some (.object key) ∧
      w.files (.object key) = some file := by
    intro c hc
    obtain ⟨url, hurl⟩ := Option.isSome_iff_exists.mp (h.2 c hc).2
    have hurl : c.url .student = some url := hurl
    obtain ⟨key, rfl, -, hfile⟩ :=
      (hsound.courses _ c (Db.mem_coursesOf.mp hc).1).url .student url hurl
    obtain ⟨file, hfile⟩ := Option.isSome_iff_exists.mp hfile
    exact ⟨key, file, hurl, hfile⟩
  unfold mergeSources
  generalize w.db.coursesOf r = courses at hcourse
  induction courses with
  | nil => exact ⟨.nil, rfl⟩
  | cons c courses ih =>
    obtain ⟨hparts, hlength⟩ := ih fun x hx => hcourse x (List.mem_cons_of_mem c hx)
    obtain ⟨key, file, hurl, hfile⟩ := hcourse c (List.mem_cons_self ..)
    have hsource : Url.orUndefined (c.url .student) = some (.object key) := by
      rw [hurl]
      rfl
    simp only [List.filterMap_cons, hsource, hfile]
    refine ⟨.cons ?_ hparts, by simp [hlength]⟩
    have hdownload : c.downloadUrl = some (.object key) := hurl
    rw [hdownload]
    exact hfile

/-- A merge of a request that is not the one at hand stays on its way. -/
theorem MergePending.erase {k : ℕ} {m : Merging} (h : w.MergePending r)
    (hm : w.merges[k]? = some m) (hr : r ≠ m.materialRequestId) :
    Site.MergePending { w with merges := w.merges.eraseIdx k } r := by
  rcases h with hjob | ⟨other, hother, hotherr⟩
  · exact .inl hjob
  · refine .inr ⟨other, mem_eraseIdx_of_ne hother hm ?_, hotherr⟩
    rintro rfl
    exact hr hotherr.symm

/-- A merge stays on its way while the worker goes on with it. -/
theorem MergePending.set {k : ℕ} {m m' : Merging} (h : w.MergePending r)
    (hm : w.merges[k]? = some m) (hsame : m'.materialRequestId = m.materialRequestId)
    (files : Url → Option PdfFile) :
    Site.MergePending { w with files := files, merges := w.merges.set k m' } r := by
  rcases h with hjob | ⟨other, hother, hr⟩
  · exact .inl hjob
  · obtain ⟨i, hi⟩ := List.mem_iff_getElem?.mp hother
    by_cases hik : k = i
    · subst hik
      rw [hm] at hi
      cases hi
      refine .inr ⟨m', ?_, hsame.trans hr⟩
      rw [List.mem_iff_getElem?]
      exact ⟨k, List.getElem?_set_self (List.getElem?_eq_some_iff.mp hm).1⟩
    · refine .inr ⟨other, List.mem_iff_getElem?.mpr ⟨i, ?_⟩, hr⟩
      rw [List.getElem?_set_ne hik]
      exact hi

/-- The last merge of a complete request has put together the student PDFs of all its courses. -/
theorem Complete.combined_student (h : w.Complete r) (hsound : w.Sound) {m : Merging}
    (hm : m.Sound) (htodo : m.todo = [])
    (hsources : mergeSources (completedCourses m.courses) .student =
      mergeSources (w.db.coursesOf r) .student)
    (hfetched : ∀ part ∈ m.fetched .student, part.2 = w.files part.1) :
    m.combined .student =
      some ((mergeSources (w.db.coursesOf r) .student).filterMap w.files).flatten := by
  obtain ⟨hparts, hlength⟩ := h.parts hsound
  have htwo := h.1
  have hurls : (m.fetched .student).map Prod.fst = mergeSources (w.db.coursesOf r) .student := by
    rcases hm.student with hfew | htodo' | hdone
    · have hle : (m.sources .student).length ≤ (completedCourses m.courses).length :=
        List.length_filterMap_le _ _
      rw [Merging.sources, hsources] at hle
      omega
    · rw [htodo] at htodo'
      cases htodo'
    · exact hdone.trans hsources
  have hfiles : (m.fetched .student).filterMap Prod.snd =
      (mergeSources (w.db.coursesOf r) .student).filterMap w.files := by
    rw [← hurls, List.filterMap_map]
    exact List.filterMap_congr fun part hpart => hfetched part hpart
  unfold Merging.combined
  dsimp only
  rw [hfiles, if_neg]
  intro hempty
  have hzero := hparts.length_eq
  rw [List.isEmpty_iff.mp hempty, List.length_nil] at hzero
  omega

/-- A merge of too few courses leaves one out, when the request is complete. -/
theorem Merged.skipped (h : w.Merged) {k : ℕ} {m : Merging} (hm : w.merges[k]? = some m)
    (hfew : (completedCourses m.courses).length < 2) (hkeeps : keepsCombined w (.finishMerge k)) :
    Site.Merged { w with merges := w.merges.eraseIdx k } := by
  have hsound : Site.Sound { w with merges := w.merges.eraseIdx k } :=
    h.sound.quiet (quiet_merges _)
  refine ⟨hsound, ?_⟩
  intro r hcomplete
  have hcomplete : w.Complete r := hcomplete
  by_cases hr : r = m.materialRequestId
  · subst hr
    rcases hkeeps m hm hcomplete with hpending | ⟨hsources, -⟩
    · exact .inr hpending
    · have hlength := (hcomplete.parts h.sound).2
      have htwo := hcomplete.1
      have hle : (mergeSources (completedCourses m.courses) .student).length ≤
          (completedCourses m.courses).length := List.length_filterMap_le _ _
      rw [hsources] at hle
      omega
  · rcases h.combined r hcomplete with hcombined | hpending
    · exact .inl hcombined
    · exact .inr (hpending.erase hm hr)

/-- The addresses of the combined PDFs are stored. -/
theorem Merged.stored (h : w.Merged) {k : ℕ} {m : Merging} (hm : w.merges[k]? = some m)
    (hmsound : m.Sound) (htodo : m.todo = []) (hkeeps : keepsCombined w (.finishMerge k)) :
    (({ w with merges := w.merges.eraseIdx k } : Site).commit (m.stored w.db) []).Merged := by
  set stored := ({ w with merges := w.merges.eraseIdx k } : Site).commit (m.stored w.db) []
    with hstored
  have hcourses : ∀ r, stored.db.coursesOf r = (w.db.coursesOf r).map id :=
    fun r => (List.map_id _).symm
  have hpending : ∀ r, Site.MergePending { w with merges := w.merges.eraseIdx k } r →
      stored.MergePending r := fun r hpending => hpending.commit _ _
  refine ⟨(h.sound.quiet (quiet_merges _)).commit_of_samePdfs (keepsPlaces_stored m w.db)
    (by simp), ?_⟩
  intro r hcomplete
  have hcomplete : w.Complete r := hcomplete
  by_cases hr : r = m.materialRequestId
  · subst hr
    rcases hkeeps m hm hcomplete with hother | ⟨hsources, hfetched, hfile⟩
    · exact .inr (hpending _ hother)
    · left
      obtain ⟨c, hc⟩ := hcomplete.exists_mem
      obtain ⟨q, hq⟩ := (h.sound.courses _ c (Db.mem_coursesOf.mp hc).1).request
      rw [(Db.mem_coursesOf.mp hc).2] at hq
      have hfind : stored.db.requests.find m.materialRequestId = some (q.withMerged
          (m.url .student) ((m.combined .keys).map fun _ => m.url .keys)
          ((m.combined .solutions).map fun _ => m.url .solutions)) := by
        change (m.stored w.db).requests.find m.materialRequestId = _
        rw [find_stored, if_pos rfl, hq]
        rfl
      refine ⟨m.tenantId, _, _, hfind, rfl, (hcomplete.parts h.sound).1, ?_⟩
      exact hfile.trans (hcomplete.combined_student h.sound hmsound htodo hsources hfetched)
  · rcases h.combined r hcomplete with ⟨tenantId, hcombined⟩ | hother
    · refine .inl ⟨tenantId, hcombined.transfer (hcourses r) (fun _ _ => rfl)
        (fun _ _ _ _ => rfl) rfl ?_⟩
      intro q hq
      refine ⟨q, ?_, rfl⟩
      change (m.stored w.db).requests.find r = _
      rw [find_stored, if_neg hr]
      exact hq
    · exact .inr (hpending r (hother.erase hm hr))

/-- A combined PDF is uploaded while its merge is on its way. -/
theorem Merged.mergeUploaded (h : w.Merged) {k : ℕ} {m : Merging} (hm : w.merges[k]? = some m)
    (variant : Variant) (rest : List Variant) (file : PdfFile) : Site.Merged { w with
      files := Function.update w.files (m.url variant) (some file)
      merges := w.merges.set k { m with todo := rest } } := by
  have hquiet := w.quiet_mergeUploaded m variant file (w.merges.set k { m with todo := rest })
  refine h.quiet (h.sound.quiet hquiet) rfl ?_ fun r hpending => hpending.set hm (by rfl) _
  intro r hcomplete
  by_cases hr : r = m.materialRequestId
  · exact .inl (.inr ⟨m, List.mem_of_getElem? hm, hr.symm⟩)
  · refine .inr ⟨?_, ?_⟩
    · intro c hc url hurl
      have hstudent : c.url .student = some url := hurl
      obtain ⟨key, rfl, -⟩ := h.sound.exists_key (Db.mem_coursesOf.mp hc).1 hstudent
      exact hquiet.files key
    · intro tenantId
      have hne : mergedUrl tenantId r .student ≠ m.url variant :=
        fun heq => hr (mergedUrl_inj heq).1
      exact Function.update_of_ne hne (some file) w.files

/-- **Step:** a complete request keeps its combined PDF, or a merge is on its way. -/
theorem Merged.step {orm : Orm} {a : SiteAction} {w' : Site} (h : w.Merged)
    (hmerges : ∀ m ∈ w.merges, m.Sound) (hkeeps : keepsCombined w a)
    (hstep : w.step orm a = some w') : w'.Merged := by
  have hsound := h.sound.step hstep
  have hsame : w'.db = w.db → w'.files = w.files →
      (∀ r, w.MergePending r → w'.MergePending r) → w'.Merged := by
    intro hdb hfiles hpending
    refine h.quiet hsound hdb (fun r _ => .inr ⟨?_, ?_⟩) hpending
    · intro c _ url _
      rw [hfiles]
    · intro tenantId
      rw [hfiles]
  cases effect_of_step hstep with
  | refused => exact h
  | created g db' hcreated => exact h.created hcreated
  | reviewed id db' huntouched => exact h.untouched huntouched
  | drafted id dto db' huntouched => exact h.untouched huntouched
  | approved id dto ctx result db' happroved => exact h.approved happroved hkeeps
  | read k i run job course => exact hsame rfl rfl fun _ hpending => hpending
  | uploaded k p hp => exact h.upload hp hkeeps
  | unreported k p => exact hsame rfl rfl fun _ hpending => hpending
  | reported k p id hp hid hready => exact h.reported hp hid hready hkeeps
  | stopped k => exact hsame rfl rfl fun _ hpending => hpending
  | finished k job hjob hmerge =>
    refine hsame rfl rfl ?_
    rintro r (⟨tenantId, hqueued⟩ | hother)
    · exact .inl ⟨tenantId, mem_eraseIdx_of_ne hqueued hjob (hmerge r tenantId).symm⟩
    · exact .inr hother
  | mergeStarted k stalls r tenantId hjob =>
    refine hsame rfl rfl ?_
    rintro other (⟨otherId, hqueued⟩ | ⟨m, hm, hmr⟩)
    · by_cases hr : other = r
      · exact .inr ⟨.begin r tenantId (w.db.coursesOf r), List.mem_append_right _ (by simp),
          hr.symm⟩
      · refine .inl ⟨otherId, ?_⟩
        dsimp only
        split
        · exact hqueued
        · refine mem_eraseIdx_of_ne hqueued hjob fun heq => hr ?_
          cases heq
          rfl
    · exact .inr ⟨m, List.mem_append_left _ hm, hmr⟩
  | partFetched k m variant url hm =>
    exact hsame rfl rfl fun r hpending => hpending.set hm (by rfl) w.files
  | mergeUploaded k m variant rest file hm => exact h.mergeUploaded hm variant rest file
  | mergePassed k m variant rest hm =>
    exact hsame rfl rfl fun r hpending => hpending.set hm (by rfl) w.files
  | mergeFailed k m hm =>
    refine hsame rfl rfl ?_
    intro r hpending
    by_cases hr : r = m.materialRequestId
    · exact .inl ⟨m.tenantId, List.mem_append_right _ (by simp [hr, Merging.job])⟩
    · rcases hpending.erase hm hr with ⟨tenantId, hjob⟩ | hother
      · exact .inl ⟨tenantId, List.mem_append_left _ hjob⟩
      · exact .inr hother
  | mergeSkipped k m hm hfew => exact h.skipped hm hfew hkeeps
  | merged k m hm htodo =>
    exact h.stored hm (hmerges m (List.mem_of_getElem? hm)) htodo hkeeps
  | swept i updatedAt => exact hsame rfl rfl fun _ hpending => hpending
  | redispatched k s r rest =>
    refine hsame rfl rfl ?_
    rintro other (⟨tenantId, hqueued⟩ | hother)
    · exact .inl ⟨tenantId, List.mem_append_left _ hqueued⟩
    · exact .inr hother
  | sweepEnded k => exact hsame rfl rfl fun _ hpending => hpending

end Site

/-- **The combined PDF is complete and current** whenever the site is idle, in every run in which
no step leaves a complete request without a merge that reads all of its courses. -/
theorem combinesAll_of_keepsCombined (orm : Orm) : CombinesAll orm keepsCombined := by
  intro catalog w hreach hidle r hcomplete
  have hmerged : w.KeepsMerged := by
    refine hreach.invariant ?_ fun s a s' hs hkeeps hstep =>
      ⟨hs.merged.step hs.merges hkeeps hstep, Site.merges_sound_step hs.merges hstep⟩
    have hrefl : Reaches (Site.step orm) keepsCombined (.start catalog) (.start catalog) := .refl
    refine ⟨⟨Site.sound_of_reaches hrefl, ?_⟩, by rintro m ⟨⟩⟩
    rintro r ⟨hlength, -⟩
    have hempty : (Site.start catalog).db.coursesOf r = [] := rfl
    rw [hempty] at hlength
    cases hlength
  rcases hmerged.merged.combined r hcomplete with
    ⟨tenantId, hcombined⟩ | ⟨tenantId, hjob⟩ | ⟨m, hm, -⟩
  · exact ⟨_, hcombined⟩
  · rw [hidle.1] at hjob
    cases hjob
  · rw [hidle.2.2] at hm
    cases hm

/-- A generation of two courses, the second of which has a slot without a question. -/
def warnedGeneration : GenerateInputs :=
  { courseSeven false with
    courses := [(⟨7, [], [], none⟩, 10), (⟨8, [], [], none⟩, 11)]
    slots := [(⟨30, 31, "EASY", some 100⟩, 20), (⟨40, 41, "EASY", some 200⟩, 21),
      (⟨40, 41, "EASY", none⟩, 22)] }

/-- The worker prints both courses, and handles the merge. -/
def printAndMerge : List SiteAction :=
  [.generate warnedGeneration, .read 0 0 smoothRun, .upload 0, .report 0, .read 0 1 smoothRun,
    .upload 0, .report 0, .finish 0, .startMerge 0 false, .finishMerge 0]

/-- The site when the merge has been handled. -/
def warnedSite : Site :=
  after (Site.step .typeOrm) (.start ⟨[], [], [], [], [⟨30, 7⟩, ⟨40, 8⟩]⟩) printAndMerge

/-- **A course that is completed with warnings** takes no part in the combined PDF. -/
theorem not_combinesAll : ¬ CombinesAll .typeOrm fun _ _ => True := by
  intro h
  have hreach : Reaches (Site.step .typeOrm) (fun _ _ => True)
      (.start ⟨[], [], [], [], [⟨30, 7⟩, ⟨40, 8⟩]⟩) warnedSite :=
    reaches_after (by decide +kernel) fun _ _ _ => trivial
  have hcomplete : warnedSite.Complete 1 := ⟨by decide +kernel, by decide +kernel⟩
  obtain ⟨url, q, parts, hq, hmerged, -⟩ := h _ warnedSite hreach (by decide +kernel) 1 hcomplete
  have hnone : (warnedSite.db.requests.find 1).bind (·.mergedDownloadUrl) = none := by
    decide +kernel
  rw [hq, Option.bind_some, hmerged] at hnone
  cases hnone

end Odiseo.Materials
