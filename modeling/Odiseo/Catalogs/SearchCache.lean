import Odiseo.Catalogs.UseCase
import Odiseo.Text.Split

/-!
# Searches under composed cache keys

The entries of `getCourses` and `getCourseTopics` under the texts that their keys are put
together to: the version, the tenant, the course and the search, with a placeholder for a
read without a search. The catalog does not change here. A text that is searched for can be
any text, also the placeholder, and then two different reads have one key.
-/

namespace Odiseo.Catalogs

open Database.Transition

/-- `SCHEMA_NAME_PATTERN`. -/
def isSchemaName (name : String) : Bool :=
  match name.toList with
  | [] => false
  | c :: rest =>
    (c.isAlpha || c == '_') && rest.all fun c => c.isAlpha || c.isDigit || c == '_' || c == '-'

/-- The schema of a tenant, `tenantSchema` of the context. -/
structure TenantSchema where
  name : String
  valid : isSchemaName name = true

/-- The numeric id of a course as it stands in a request. -/
structure CourseId where
  text : String
  numeric : text.toList.all Char.isDigit = true

/-- The number that the database reads. -/
def CourseId.value (c : CourseId) : ℕ := c.text.toList.foldl (fun n d => 10 * n + (d.toNat - 48)) 0

/-- A call of `getCourses` or `getCourseTopics`. -/
inductive CatalogRead
  | courses (search : Option String)
  | topics (courseId : CourseId) (search : Option String)

/-- The search of a call. -/
def CatalogRead.search : CatalogRead → Option String
  | .courses search => search
  | .topics _ search => search

/-- The search of a call, where the empty text counts as absent. -/
def CatalogRead.term (r : CatalogRead) : Option String := searchTerm r.search

/-- Two calls list the courses, or the topics of the same course. -/
def CatalogRead.SameList : CatalogRead → CatalogRead → Prop
  | .courses _, .courses _ => True
  | .topics courseId _, .topics courseId' _ => courseId.text = courseId'.text
  | _, _ => False

/-- What the repository returns for a call. -/
def CatalogRead.answer (db : CatalogDb) : CatalogRead → CatalogData
  | .courses search => .courses (db.getCourses (searchTerm search)) db.syncState
  | .topics courseId search => .topics (db.getCourseTopics courseId.value (searchTerm search))

/-- `cacheKey` of a call under a version. -/
def CatalogRead.cacheKey (version : ℕ) (tenantId : TenantSchema) : CatalogRead → String
  | .courses search =>
    "catalogs:" ++ toString version ++ ":courses:" ++ tenantId.name ++ ":" ++
      (searchTerm search).getD "all"
  | .topics courseId search =>
    "catalogs:" ++ toString version ++ ":topics:" ++ tenantId.name ++ ":" ++ courseId.text ++ ":" ++
      (searchTerm search).getD "all"

/-- What becomes of a write to the cache. -/
inductive WriteOutcome
  | landed
  | lost
  /-- The write is given up, and may still take effect later. -/
  | late
  deriving DecidableEq, Repr

/-- What the cache does in a call. -/
structure CacheIo where
  /-- The read of the version is refused or given up. -/
  versionFails : Bool
  /-- The read of the entry is refused or given up. -/
  readFails : Bool
  write : WriteOutcome
  deriving DecidableEq, Repr

/-- What a call has returned. -/
structure ReadResult where
  tenantId : TenantSchema
  read : CatalogRead
  data : CatalogData

/-- The cache and what has been returned from it. -/
structure CacheWorld where
  cache : String → Option CatalogData
  /-- The entries `catalogs:version:<tenant>`. -/
  versions : String → Option ℕ
  /-- Writes that may still take effect. -/
  writes : List (String × CatalogData)
  returned : List ReadResult

namespace CacheWorld

/-- No answer has been stored. -/
def start (versions : String → Option ℕ) : CacheWorld := ⟨fun _ => none, versions, [], []⟩

/-- `getCacheVersion`. -/
def getCacheVersion (w : CacheWorld) (tenantId : TenantSchema) (fails : Bool) : ℕ :=
  if fails then 0 else (w.versions tenantId.name).getD 0

/-- An entry takes effect. -/
def put (w : CacheWorld) (key : String) (data : CatalogData) : CacheWorld :=
  { w with cache := fun k => if k = key then some data else w.cache k }

/-- `cacheManager.set`. -/
def set (w : CacheWorld) (outcome : WriteOutcome) (key : String) (data : CatalogData) :
    CacheWorld :=
  match outcome with
  | .landed => w.put key data
  | .lost => w
  | .late => { w with writes := w.writes ++ [(key, data)] }

/-- `getCourses` and `getCourseTopics`: the entry of the key, else the repository. -/
def perform (db : CatalogDb) (w : CacheWorld) (tenantId : TenantSchema) (r : CatalogRead)
    (io : CacheIo) : CatalogData × CacheWorld :=
  let cacheKey := r.cacheKey (w.getCacheVersion tenantId io.versionFails) tenantId
  match if io.readFails then none else w.cache cacheKey with
  | some cached => (cached, w)
  | none => (r.answer db, w.set io.write cacheKey (r.answer db))

/-- A call or a step of the cache. -/
inductive Event
  | call (tenantId : TenantSchema) (r : CatalogRead) (io : CacheIo)
  /-- An entry is evicted. -/
  | evict (key : String)
  /-- The version of a tenant is evicted. -/
  | evictVersion (name : String)
  /-- A write that was given up takes effect. -/
  | writeLands (write : ℕ)

/-- What an event does, on the databases of the tenants. -/
def step (db : TenantSchema → CatalogDb) (w : CacheWorld) : Event → Option CacheWorld
  | .call tenantId r io =>
    some { (w.perform (db tenantId) tenantId r io).2 with
      returned := w.returned ++ [⟨tenantId, r, (w.perform (db tenantId) tenantId r io).1⟩] }
  | .evict key => some { w with cache := fun k => if k = key then none else w.cache k }
  | .evictVersion name =>
    some { w with versions := fun n => if n = name then none else w.versions n }
  | .writeLands i =>
    (w.writes[i]?).map fun x => { w.put x.1 x.2 with writes := w.writes.eraseIdx i }

/-- **The cache is transparent**: every call has returned what the repository returns for it. -/
def Transparent (db : TenantSchema → CatalogDb) (w : CacheWorld) : Prop :=
  ∀ x ∈ w.returned, x.data = x.read.answer (db x.tenantId)

/-- The cache is transparent in every run whose calls are of some kind. -/
def TransparentFor (db : TenantSchema → CatalogDb)
    (used : TenantSchema → CatalogRead → Prop) : Prop :=
  ∀ versions w,
    Reaches (step db) (fun _ e => ∀ tenantId r io, e = .call tenantId r io → used tenantId r)
      (start versions) w → w.Transparent db

end CacheWorld

/-! ### The keys -/

/-- The text of a number has no colon. -/
theorem colon_notMem_toString (n : ℕ) : ':' ∉ (toString n).toList := by
  rw [Nat.toString_eq_ofList_toDigits, String.toList_ofList]
  exact Text.notMem_toDigits (by decide) n

/-- The name of a schema has no colon. -/
theorem TenantSchema.colon_notMem (t : TenantSchema) : ':' ∉ t.name.toList := by
  intro h
  have hvalid := t.valid
  unfold isSchemaName at hvalid
  split at hvalid
  · cases hvalid
  · rename_i c rest hlist
    rw [hlist] at h
    rw [Bool.and_eq_true, List.all_eq_true] at hvalid
    rcases List.mem_cons.mp h with rfl | hrest
    · exact absurd hvalid.1 (by decide)
    · exact absurd (hvalid.2 _ hrest) (by decide)

/-- The id of a course has no colon. -/
theorem CourseId.colon_notMem (c : CourseId) : ':' ∉ c.text.toList := by
  intro h
  exact absurd (List.all_eq_true.mp c.numeric _ h) (by decide)

/-- What follows the tenant in a key. -/
def CatalogRead.keyRest : CatalogRead → List Char
  | .courses search => ((searchTerm search).getD "all").toList
  | .topics courseId search =>
    courseId.text.toList ++ ':' :: ((searchTerm search).getD "all").toList

/-- The name of the list in a key. -/
def CatalogRead.listName : CatalogRead → List Char
  | .courses _ => "courses".toList
  | .topics _ _ => "topics".toList

/-- The characters of a key. -/
theorem toList_cacheKey (version : ℕ) (tenantId : TenantSchema) (r : CatalogRead) :
    (r.cacheKey version tenantId).toList = "catalogs:".toList ++ ((toString version).toList ++
      ':' :: (r.listName ++ ':' :: (tenantId.name.toList ++ ':' :: r.keyRest))) := by
  have hcolon : ":".toList = [':'] := by decide
  have hcourses : ":courses:".toList = ':' :: ("courses".toList ++ [':']) := by decide
  have htopics : ":topics:".toList = ':' :: ("topics".toList ++ [':']) := by decide
  cases r with
  | courses search =>
    unfold CatalogRead.cacheKey CatalogRead.listName CatalogRead.keyRest
    simp only [String.toList_append, hcolon, hcourses, List.append_assoc, List.cons_append,
      List.nil_append]
  | topics courseId search =>
    unfold CatalogRead.cacheKey CatalogRead.listName CatalogRead.keyRest
    simp only [String.toList_append, hcolon, htopics, List.append_assoc, List.cons_append,
      List.nil_append]

/-- **A key tells the tenant, the list and the search**, up to the placeholder. -/
theorem cacheKey_eq {version version' : ℕ} {tenantId tenantId' : TenantSchema}
    {r r' : CatalogRead} (h : r.cacheKey version tenantId = r'.cacheKey version' tenantId') :
    tenantId = tenantId' ∧ r.SameList r' ∧ r.term.getD "all" = r'.term.getD "all" := by
  have hlist := congrArg String.toList h
  rw [toList_cacheKey, toList_cacheKey] at hlist
  obtain ⟨_, hafter⟩ := Text.append_first_inj (colon_notMem_toString _) (colon_notMem_toString _)
    (List.append_cancel_left hlist)
  have hcolon : ∀ r : CatalogRead, ':' ∉ r.listName := by
    intro r
    cases r with
    | courses search =>
      change ':' ∉ "courses".toList
      decide
    | topics courseId search =>
      change ':' ∉ "topics".toList
      decide
  obtain ⟨hname, hafter⟩ := Text.append_first_inj (hcolon r) (hcolon r') hafter
  obtain ⟨htenant, hrest⟩ :=
    Text.append_first_inj tenantId.colon_notMem tenantId'.colon_notMem hafter
  have hsame : tenantId = tenantId' := by
    cases tenantId
    cases tenantId'
    congr
    exact String.toList_injective htenant
  refine ⟨hsame, ?_⟩
  cases r with
  | courses search =>
    cases r' with
    | courses search' => exact ⟨trivial, String.toList_injective hrest⟩
    | topics courseId' search' =>
      exact absurd hname (by decide : "courses".toList ≠ "topics".toList)
  | topics courseId search =>
    cases r' with
    | courses search' => exact absurd hname (by decide : "topics".toList ≠ "courses".toList)
    | topics courseId' search' =>
      obtain ⟨hid, hterm⟩ :=
        Text.append_first_inj courseId.colon_notMem courseId'.colon_notMem hrest
      exact ⟨String.toList_injective hid, String.toList_injective hterm⟩

/-! ### What a call returns -/

/-- The answer of the repository depends on the list and on the search. -/
theorem answer_congr {r r' : CatalogRead} (hlist : r.SameList r') (hterm : r.term = r'.term)
    (db : CatalogDb) : r.answer db = r'.answer db := by
  cases r with
  | courses search =>
    cases r' with
    | courses search' =>
      have h : searchTerm search = searchTerm search' := hterm
      simp only [CatalogRead.answer, h]
    | topics courseId' search' => exact hlist.elim
  | topics courseId search =>
    cases r' with
    | courses search' => exact hlist.elim
    | topics courseId' search' =>
      have h : searchTerm search = searchTerm search' := hterm
      have hid : courseId.value = courseId'.value := by
        unfold CourseId.value
        rw [(hlist : courseId.text = courseId'.text)]
      simp only [CatalogRead.answer, h, hid]

/-- Listing the same is symmetric. -/
theorem CatalogRead.SameList.symm {r r' : CatalogRead} (h : r.SameList r') : r'.SameList r := by
  cases r <;> cases r' <;> first | exact trivial | exact h.elim | exact Eq.symm h

/-- One of the calls has no search, and the other one searches for the placeholder. -/
theorem term_cases {t t' : Option String} (h : t.getD "all" = t'.getD "all") :
    t = t' ∨ t = none ∧ t' = some "all" ∨ t = some "all" ∧ t' = none := by
  cases t with
  | none =>
    cases t' with
    | none => exact .inl rfl
    | some s => exact .inr (.inl ⟨rfl, congrArg some h.symm⟩)
  | some s =>
    cases t' with
    | none => exact .inr (.inr ⟨congrArg some h, rfl⟩)
    | some s' => exact .inl (congrArg some h)

/-- Under the placeholder the repository returns the same as without a search, for all calls
that are made. -/
def PlaceholderHarmless (db : TenantSchema → CatalogDb)
    (used : TenantSchema → CatalogRead → Prop) : Prop :=
  ∀ tenantId r r', used tenantId r → used tenantId r' → r.SameList r' → r.term = none →
    r'.term = some "all" → r.answer (db tenantId) = r'.answer (db tenantId)

/-- Calls under one key have one answer. -/
theorem PlaceholderHarmless.answer_eq {db : TenantSchema → CatalogDb}
    {used : TenantSchema → CatalogRead → Prop} (h : PlaceholderHarmless db used)
    {version version' : ℕ} {tenantId tenantId' : TenantSchema} {r r' : CatalogRead}
    (hr : used tenantId r) (hr' : used tenantId' r')
    (hkey : r.cacheKey version tenantId = r'.cacheKey version' tenantId') :
    r.answer (db tenantId) = r'.answer (db tenantId') := by
  obtain ⟨rfl, hlist, hterm⟩ := cacheKey_eq hkey
  rcases term_cases hterm with hsame | ⟨hnone, hall⟩ | ⟨hall, hnone⟩
  · exact answer_congr hlist hsame _
  · exact h tenantId r r' hr hr' hlist hnone hall
  · exact (h tenantId r' r hr' hr hlist.symm hnone hall).symm

/-- An entry holds the answer of a call of its key. -/
def EntryOf (db : TenantSchema → CatalogDb) (used : TenantSchema → CatalogRead → Prop)
    (key : String) (data : CatalogData) : Prop :=
  ∃ tenantId r version, used tenantId r ∧ key = r.cacheKey version tenantId ∧
    data = r.answer (db tenantId)

/-- **The invariant**: the entries, also those on their way, are answers, and so is what has
been returned. -/
structure CacheWorld.Sound (db : TenantSchema → CatalogDb)
    (used : TenantSchema → CatalogRead → Prop) (w : CacheWorld) : Prop where
  cache : ∀ key data, w.cache key = some data → EntryOf db used key data
  writes : ∀ x ∈ w.writes, EntryOf db used x.1 x.2
  returned : w.Transparent db

namespace CacheWorld

variable {db : TenantSchema → CatalogDb} {used : TenantSchema → CatalogRead → Prop}
  {w : CacheWorld}

/-- An answer that takes effect keeps the entries answers. -/
theorem Sound.put (h : w.Sound db used) {key : String} {data : CatalogData}
    (hentry : EntryOf db used key data) : (w.put key data).Sound db used where
  cache k d hk := by
    simp only [CacheWorld.put] at hk
    split at hk
    · rename_i heq
      cases hk
      rw [heq]
      exact hentry
    · exact h.cache k d hk
  writes := h.writes
  returned := h.returned

/-- **A call** returns what the repository returns for it, and stores this. -/
theorem Sound.perform (h : w.Sound db used) (hharmless : PlaceholderHarmless db used)
    {tenantId : TenantSchema} {r : CatalogRead} (hused : used tenantId r) (io : CacheIo) :
    (w.perform (db tenantId) tenantId r io).1 = r.answer (db tenantId) ∧
      (w.perform (db tenantId) tenantId r io).2.Sound db used := by
  unfold CacheWorld.perform
  dsimp only
  split
  · rename_i cached hcached
    refine ⟨?_, h⟩
    split at hcached
    · cases hcached
    · obtain ⟨tenantId', r', version', hused', hkey, rfl⟩ := h.cache _ _ hcached
      exact (hharmless.answer_eq hused hused' hkey).symm
  · refine ⟨rfl, ?_⟩
    have hentry : EntryOf db used
        (r.cacheKey (w.getCacheVersion tenantId io.versionFails) tenantId)
        (r.answer (db tenantId)) := ⟨tenantId, r, _, hused, rfl, rfl⟩
    cases hwrite : io.write with
    | landed => exact h.put hentry
    | lost => exact h
    | late =>
      refine ⟨h.cache, ?_, h.returned⟩
      intro x hx
      rcases List.mem_append.mp hx with hx | hx
      · exact h.writes x hx
      · rw [List.mem_singleton.mp hx]
        exact hentry

/-- **Step.** Every event keeps the invariant. -/
theorem Sound.step (h : w.Sound db used) (hharmless : PlaceholderHarmless db used) {e : Event}
    (hcond : ∀ tenantId r io, e = .call tenantId r io → used tenantId r) {w' : CacheWorld}
    (hstep : CacheWorld.step db w e = some w') : w'.Sound db used := by
  cases e with
  | call tenantId r io =>
    obtain ⟨hdata, hsound⟩ := h.perform hharmless (hcond tenantId r io rfl) io
    cases hstep
    refine ⟨hsound.cache, hsound.writes, ?_⟩
    intro x hx
    rcases List.mem_append.mp hx with hx | hx
    · exact h.returned x hx
    · rw [List.mem_singleton.mp hx]
      exact hdata
  | evict key =>
    cases hstep
    refine ⟨?_, h.writes, h.returned⟩
    intro k d hk
    dsimp only at hk
    split at hk
    · cases hk
    · exact h.cache k d hk
  | evictVersion name =>
    cases hstep
    exact ⟨h.cache, h.writes, h.returned⟩
  | writeLands i =>
    obtain ⟨x, hx, hw'⟩ := Option.map_eq_some_iff.mp hstep
    subst hw'
    have hput := h.put (h.writes x (List.mem_of_getElem? hx))
    exact ⟨hput.cache, fun y hy => h.writes y (List.mem_of_mem_eraseIdx hy), hput.returned⟩

/-- Two calls of one list have one key, when one of them has no search and the other one
searches for the placeholder. -/
theorem cacheKey_placeholder {r r' : CatalogRead} (hlist : r.SameList r') (hnone : r.term = none)
    (hall : r'.term = some "all") (version : ℕ) (tenantId : TenantSchema) :
    r.cacheKey version tenantId = r'.cacheKey version tenantId := by
  cases r with
  | courses search =>
    cases r' with
    | courses search' =>
      have h : searchTerm search = none := hnone
      have h' : searchTerm search' = some "all" := hall
      unfold CatalogRead.cacheKey
      dsimp only
      rw [h, h', Option.getD_none, Option.getD_some]
    | topics courseId' search' => exact hlist.elim
  | topics courseId search =>
    cases r' with
    | courses search' => exact hlist.elim
    | topics courseId' search' =>
      have h : searchTerm search = none := hnone
      have h' : searchTerm search' = some "all" := hall
      have hid : courseId.text = courseId'.text := hlist
      unfold CatalogRead.cacheKey
      dsimp only
      rw [h, h', hid, Option.getD_none, Option.getD_some]

/-- The second of two calls under one key returns the answer of the first one. -/
theorem answer_eq_of_transparentFor (h : TransparentFor db used) (tenantId : TenantSchema)
    {r r' : CatalogRead} (hr : used tenantId r) (hr' : used tenantId r') (hlist : r.SameList r')
    (hnone : r.term = none) (hall : r'.term = some "all") :
    r.answer (db tenantId) = r'.answer (db tenantId) := by
  have hkey := cacheKey_placeholder hlist hnone hall 0 tenantId
  let io : CacheIo := ⟨false, false, .landed⟩
  -- The first call stores its answer, and the second one finds it.
  have hfirst : (start fun _ => none).perform (db tenantId) tenantId r io =
      (r.answer (db tenantId),
        (start fun _ => none).put (r.cacheKey 0 tenantId) (r.answer (db tenantId))) := rfl
  have hrun : Database.Transition.run (step db) (start fun _ => none)
      [.call tenantId r io, .call tenantId r' io] =
      some { (start fun _ => none).put (r.cacheKey 0 tenantId) (r.answer (db tenantId)) with
        returned := [⟨tenantId, r, r.answer (db tenantId)⟩,
          ⟨tenantId, r', r.answer (db tenantId)⟩] } := by
    simp only [Database.Transition.run, step, hfirst, Option.bind_some]
    simp [perform, getCacheVersion, start, put, hkey, io]
  have hused : ∀ s : CacheWorld, ∀ e ∈ [Event.call tenantId r io, .call tenantId r' io],
      ∀ tenantId r io, e = .call tenantId r io → used tenantId r := by
    intro _ e he _ _ _ heq
    subst heq
    rcases List.mem_cons.mp he with heq | he
    · cases heq
      exact hr
    · cases List.mem_singleton.mp he
      exact hr'
  exact h _ _ (reaches_of_run hused hrun) ⟨tenantId, r', r.answer (db tenantId)⟩ (by simp)

/-- **The catalog cache is transparent exactly when the placeholder is harmless**: in every run
of calls of some kind, each call returns what the repository returns for it, if and only if no
tenant searches one list both for the placeholder and without a search with different
answers. -/
theorem transparentFor_iff (db : TenantSchema → CatalogDb)
    (used : TenantSchema → CatalogRead → Prop) :
    TransparentFor db used ↔ PlaceholderHarmless db used := by
  constructor
  · intro h tenantId r r' hr hr' hlist hnone hall
    exact answer_eq_of_transparentFor h tenantId hr hr' hlist hnone hall
  · intro hharmless versions w hreach
    have hstart : (start versions).Sound db used :=
      ⟨fun _ _ hk => (Option.some_ne_none _ hk.symm).elim,
        fun _ hx => (List.not_mem_nil hx).elim, fun _ hx => (List.not_mem_nil hx).elim⟩
    exact (hreach.invariant hstart fun s e s' hs hcond hstep =>
      hs.step hharmless hcond hstep).returned

end CacheWorld

/-- A catalog with one topic, whose name does not contain the placeholder. -/
def derivativesCatalog : CatalogDb where
  courses := [⟨7, "Cálculo"⟩]
  topics := [⟨1, 7, "Derivadas", []⟩]
  visibility := []
  syncState := none

/-- The text "7" is numeric. -/
theorem numeric_seven : "7".toList.all Char.isDigit = true := by decide

/-- The id in `/courses/7/topics`. -/
def courseSeven : CourseId := ⟨"7", numeric_seven⟩

/-- A search for "all" returns the topics that were listed without a search. -/
theorem not_transparentFor_all :
    ¬ CacheWorld.TransparentFor (fun _ => derivativesCatalog) fun _ _ => True := by
  intro h
  have hlist : CatalogRead.SameList (.topics courseSeven none) (.topics courseSeven (some "all")) :=
    rfl
  have hsame := CacheWorld.answer_eq_of_transparentFor h ⟨"tenant_a", by decide⟩ trivial trivial
    hlist rfl rfl
  revert hsame
  decide +kernel

end Odiseo.Catalogs
