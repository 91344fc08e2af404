import Odiseo.Syllabi.Clone
import Mathlib.Data.Nat.Find
import Mathlib.Logic.Function.Iterate

/-!
# Searching and scrolling through the cycles

`fetchCycles` of the client's `useAcademicTimeStore`, and `getCycles` of the server that answers it.
One function serves a search, which loads the first page of a term, and a scroll load, which appends
the next page. How the database matches a name with a pattern and how a text is trimmed are
parameters.
-/

namespace Odiseo.Syllabi

open Database

/-- A cycle as the server answers with it. -/
structure CycleItem where
  cycle : Cycle
  weeks : List CycleWeek
  templateCount : ℕ
  deriving DecidableEq, Repr

/-- The identifier of a cycle. -/
def CycleItem.id (item : CycleItem) : Uuid := item.cycle.id

/-- Insert a cycle before the first one that does not start later. -/
def insertByStartDate (cycle : Cycle) : List Cycle → List Cycle
  | [] => [cycle]
  | c :: cycles =>
    if c.startDate ≤ cycle.startDate then cycle :: c :: cycles
    else c :: insertByStartDate cycle cycles

section Server

variable (ilike : String → String → Bool) (trim : String → String)

/-- The name of a cycle is searched for. A blank search is none. -/
def searched (search : String) (cycle : Cycle) : Bool :=
  if search ≠ "" ∧ trim search ≠ "" then ilike cycle.name s!"%{trim search}%" else true

/-- All cycles that a search finds, the latest first. -/
def Db.results (db : Db) (search : String) : List CycleItem :=
  (((db.cycles.filter (searched ilike trim search)).foldr insertByStartDate [])).map fun cycle =>
    ⟨cycle, db.weeksOf cycle.id, (db.templatesOf cycle.id).length⟩

/-- `getCycles`: a page of the cycles that a search finds, and how many there are. -/
def Db.getCycles (db : Db) (limit offset : ℕ) (search : String) : List CycleItem × ℕ :=
  (((db.results ilike trim search).drop offset).take limit, (db.results ilike trim search).length)

end Server

/-- The query parameters of the request. -/
structure CyclesQuery where
  limit : ℕ
  offset : ℕ
  search : Option String

/-- What the client knows as the server. -/
abbrev CyclesApi := CyclesQuery → Except String (List CycleItem × ℕ)

/-- The server answers from its database. -/
def Db.cyclesApi (ilike : String → String → Bool) (trim : String → String) (db : Db) : CyclesApi :=
  fun query => .ok (db.getCycles ilike trim query.limit query.offset (query.search.getD ""))

/-- `useAcademicTimeStore`, as far as it concerns the list of cycles. -/
structure CyclesStore where
  cycles : List CycleItem
  isLoading : Bool
  hasFetched : Bool
  error : Option String
  totalCycles : ℕ
  currentOffset : ℕ
  currentSearch : String
  deriving DecidableEq, Repr

namespace CyclesStore

/-- The store of a new session. -/
def initial : CyclesStore where
  cycles := []
  isLoading := false
  hasFetched := false
  error := none
  totalCycles := 0
  currentOffset := 0
  currentSearch := ""

/-- `limit`. -/
def limit : ℕ := 20

/-- `hasMore`. -/
def hasMore (store : CyclesStore) : Bool := decide (store.cycles.length < store.totalCycles)

/-- The parameters in `url`: an empty search is left out. -/
def query (store : CyclesStore) : CyclesQuery where
  limit := limit
  offset := store.currentOffset
  search := if store.currentSearch ≠ "" then some store.currentSearch else none

/-- `newCycles`: those of a page whose identifiers are not listed yet. -/
def newCycles (store : CyclesStore) (data : List CycleItem) : List CycleItem :=
  data.filter fun c => !store.cycles.any (·.id == c.id)

/-- The store after the answer. -/
def settle (loadMore : Bool) (store : CyclesStore) :
    Except String (List CycleItem × ℕ) → CyclesStore
  | .error message =>
    { store with
      error := some (if message = "" then "Error fetching cycles" else message)
      isLoading := false }
  | .ok (data, total) =>
    { store with
      cycles := if loadMore then store.cycles ++ store.newCycles data else data
      totalCycles := total
      currentOffset := store.currentOffset + data.length
      hasFetched := true
      isLoading := false }

/-- `fetchCycles`, up to its end. -/
def fetchCycles (api : CyclesApi) (loadMore : Bool) (searchStr : Option String)
    (store : CyclesStore) : CyclesStore :=
  if store.isLoading then store
  else
    let targetSearch := searchStr.getD ""
    -- a fresh search implies fresh data
    let loadMore := if targetSearch ≠ store.currentSearch then false else loadMore
    let asked := { store with currentSearch := targetSearch, isLoading := true, error := none }
    let asked := if loadMore then asked else { asked with currentOffset := 0, cycles := [] }
    asked.settle loadMore (api asked.query)

end CyclesStore

/-- The calls of the pages: the search field, and the end of the list coming into view. -/
inductive CyclesCall
  | search (term : String)
  | scroll
  deriving DecidableEq, Repr

namespace CyclesCall

/-- The store after a call. -/
def perform (api : CyclesApi) (store : CyclesStore) : CyclesCall → CyclesStore
  | .search term => store.fetchCycles api false (some term)
  | .scroll => store.fetchCycles api true none

/-- The last searched term after a call. -/
def lastSearched (term : String) : CyclesCall → String
  | .search term' => term'
  | .scroll => term

end CyclesCall

/-- The store after some scroll loads. -/
def scrolls (api : CyclesApi) (n : ℕ) (store : CyclesStore) : CyclesStore :=
  (fun s => CyclesCall.scroll.perform api s)^[n] store

/-- Scroll loads, repeated while there is more, end with some cycles listed. -/
def ScrollsTo (api : CyclesApi) (store : CyclesStore) (results : List CycleItem) : Prop :=
  ∃ n, (∀ m < n, (scrolls api m store).hasMore = true) ∧ (scrolls api n store).hasMore = false ∧
    (scrolls api n store).cycles = results

/-- The store lists the first ones of some results, each once, and scrolling lists them all. -/
structure ListsResults (api : CyclesApi) (store : CyclesStore) (results : List CycleItem) :
    Prop where
  listed : store.cycles <+: results
  nodup : (store.cycles.map (·.id)).Nodup
  scrolled : ScrollsTo api store results

section Property

variable (ilike : String → String → Bool) (trim : String → String) (db : Db)

/-- **Infinite scroll lists the searched cycles**: after each of some calls the store lists the
results of the last searched term. -/
def ListsSearched (store : CyclesStore) (term : String) : List CyclesCall → Prop
  | [] => True
  | call :: calls =>
    ListsResults (db.cyclesApi ilike trim) (call.perform (db.cyclesApi ilike trim) store)
        (db.results ilike trim (call.lastSearched term)) ∧
      ListsSearched (call.perform (db.cyclesApi ilike trim) store) (call.lastSearched term) calls

/-- Each searched term has no more results than a page or finds all cycles, and scroll loads come
only when the last searched term finds all cycles. -/
def ScrollsUnfiltered (term : String) : List CyclesCall → Prop
  | [] => True
  | .search term' :: calls =>
    ((db.results ilike trim term').length ≤ CyclesStore.limit ∨
        db.results ilike trim term' = db.results ilike trim "") ∧
      ScrollsUnfiltered term' calls
  | .scroll :: calls =>
    db.results ilike trim term = db.results ilike trim "" ∧ ScrollsUnfiltered term calls

end Property

section Results

variable {ilike : String → String → Bool} {trim : String → String} {db : Db}

/-- Inserting a cycle by its date keeps all cycles. -/
theorem insertByStartDate_perm (cycle : Cycle) (cycles : List Cycle) :
    (insertByStartDate cycle cycles).Perm (cycle :: cycles) := by
  induction cycles with
  | nil => rfl
  | cons c cycles ih =>
    unfold insertByStartDate
    split
    · rfl
    · exact (ih.cons c).trans (List.Perm.swap cycle c cycles)

/-- The order by dates keeps all cycles. -/
theorem foldr_insertByStartDate_perm (cycles : List Cycle) :
    (cycles.foldr insertByStartDate []).Perm cycles := by
  induction cycles with
  | nil => rfl
  | cons cycle cycles ih => exact (insertByStartDate_perm cycle _).trans (ih.cons cycle)

/-- No cycle is found twice. -/
theorem nodup_results (ilike : String → String → Bool) (trim : String → String) (db : Db)
    (search : String) : ((db.results ilike trim search).map (·.id)).Nodup := by
  have hids : (db.results ilike trim search).map (·.id) =
      ((db.cycles.filter (searched ilike trim search)).foldr insertByStartDate []).map
        (·.id) := by
    unfold Db.results
    rw [List.map_map]
    rfl
  rw [hids]
  refine ((foldr_insertByStartDate_perm _).map (·.id)).nodup_iff.mpr ?_
  exact db.cycles.nodup.sublist (List.filter_sublist.map Cycle.id)

end Results

section Pages

variable {ilike : String → String → Bool} {trim : String → String} {db : Db}

/-- The store lists the first `n` results of its own term. -/
structure Holds (ilike : String → String → Bool) (trim : String → String) (db : Db)
    (store : CyclesStore) (n : ℕ) : Prop where
  idle : store.isLoading = false
  cycles : store.cycles = (db.results ilike trim store.currentSearch).take n
  offset : store.currentOffset = store.cycles.length

/-- The store holds a first part, and knows how many results there are. -/
structure Loaded (ilike : String → String → Bool) (trim : String → String) (db : Db)
    (store : CyclesStore) (search : String) (n : ℕ) : Prop extends Holds ilike trim db store n where
  search_eq : store.currentSearch = search
  total : store.totalCycles = (db.results ilike trim search).length

/-- The server reads the term of the store. -/
theorem cyclesApi_query (store : CyclesStore) :
    db.cyclesApi ilike trim store.query = .ok
      (((db.results ilike trim store.currentSearch).drop store.currentOffset).take
          CyclesStore.limit, (db.results ilike trim store.currentSearch).length) := by
  have hsearch : store.query.search.getD "" = store.currentSearch := by
    unfold CyclesStore.query
    by_cases hempty : store.currentSearch = ""
    · simp [hempty]
    · simp [hempty]
  unfold Db.cyclesApi Db.getCycles
  rw [hsearch]
  rfl

/-- A load that does not append holds the first page of its term. -/
theorem loaded_of_fresh {store : CyclesStore} (hidle : store.isLoading = false) {loadMore : Bool}
    (searchStr : Option String)
    (hfresh : loadMore = false ∨ searchStr.getD "" ≠ store.currentSearch) :
    Loaded ilike trim db (store.fetchCycles (db.cyclesApi ilike trim) loadMore searchStr)
      (searchStr.getD "") CyclesStore.limit := by
  have hload : (if searchStr.getD "" ≠ store.currentSearch then false else loadMore) = false := by
    rcases hfresh with rfl | hne
    · exact ite_self _
    · exact if_pos hne
  unfold CyclesStore.fetchCycles
  simp only [hidle, hload, Bool.false_eq_true, if_false, cyclesApi_query]
  refine ⟨⟨rfl, ?_, ?_⟩, rfl, rfl⟩
  · simp [CyclesStore.settle]
  · simp [CyclesStore.settle]

/-- A search holds the first page of its term. -/
theorem loaded_search {store : CyclesStore} (hidle : store.isLoading = false) (term : String) :
    Loaded ilike trim db ((CyclesCall.search term).perform (db.cyclesApi ilike trim) store) term
      CyclesStore.limit :=
  loaded_of_fresh hidle (some term) (Or.inl rfl)

/-- The offset leaves out what is listed. -/
theorem drop_currentOffset {store : CyclesStore} {n : ℕ} (h : Holds ilike trim db store n) :
    (db.results ilike trim store.currentSearch).drop store.currentOffset =
      (db.results ilike trim store.currentSearch).drop n := by
  rw [h.offset, h.cycles, List.length_take]
  rcases Nat.le_total n (db.results ilike trim store.currentSearch).length with hle | hle
  · rw [Nat.min_eq_left hle]
  · rw [Nat.min_eq_right hle, List.drop_length, List.drop_eq_nil_of_le hle]

/-- The identifiers of the next page are not among those that are listed. -/
theorem newCycles_eq {store : CyclesStore} {n : ℕ} (h : Holds ilike trim db store n)
    (limit : ℕ) :
    store.newCycles (((db.results ilike trim store.currentSearch).drop n).take limit) =
      ((db.results ilike trim store.currentSearch).drop n).take limit := by
  unfold CyclesStore.newCycles
  refine List.filter_eq_self.mpr fun c hc => ?_
  have hnodup := nodup_results ilike trim db store.currentSearch
  rw [← List.take_append_drop n (db.results ilike trim store.currentSearch), List.map_append,
    ← h.cycles] at hnodup
  have hapart := (List.nodup_append.mp hnodup).2.2
  rw [Bool.not_eq_true', List.any_eq_false]
  intro c' hc' hid
  exact hapart c'.id (List.mem_map_of_mem hc') c.id
    (List.mem_map_of_mem (List.mem_of_mem_take hc)) (by simpa using hid)

/-- A scroll load after an empty search appends the next page. -/
theorem loaded_scroll_of_empty {store : CyclesStore} {n : ℕ} (h : Holds ilike trim db store n)
    (hempty : store.currentSearch = "") :
    Loaded ilike trim db (CyclesCall.scroll.perform (db.cyclesApi ilike trim) store) ""
      (n + CyclesStore.limit) := by
  have hquery : db.cyclesApi ilike trim
      { store with currentSearch := "", isLoading := true, error := none }.query = .ok
        (((db.results ilike trim "").drop n).take CyclesStore.limit,
          (db.results ilike trim "").length) := by
    have hdrop := drop_currentOffset h
    rw [hempty] at hdrop
    rw [cyclesApi_query]
    dsimp only
    rw [hdrop]
  have hnew := newCycles_eq h CyclesStore.limit
  have hcycles := h.cycles
  have hoffset := h.offset
  rw [hempty] at hnew hcycles
  have happended : store.cycles ++ ((db.results ilike trim "").drop n).take CyclesStore.limit =
      (db.results ilike trim "").take (n + CyclesStore.limit) := by
    rw [hcycles, List.take_add]
  have hscroll : CyclesCall.scroll.perform (db.cyclesApi ilike trim) store =
      { store with currentSearch := "", isLoading := true, error := none }.settle true (.ok
        (((db.results ilike trim "").drop n).take CyclesStore.limit,
          (db.results ilike trim "").length)) := by
    rw [← hquery]
    unfold CyclesCall.perform CyclesStore.fetchCycles
    simp [h.idle, hempty]
  rw [hscroll]
  have hlisted : store.cycles ++ store.newCycles
      (((db.results ilike trim "").drop n).take CyclesStore.limit) =
        (db.results ilike trim "").take (n + CyclesStore.limit) := by
    rw [hnew, happended]
  refine ⟨⟨rfl, hlisted, ?_⟩, rfl, rfl⟩
  change store.currentOffset + _ = (store.cycles ++ store.newCycles _).length
  rw [hnew, List.length_append, hoffset]

/-- A scroll load after another search starts with the first page of all cycles. -/
theorem loaded_scroll_of_ne {store : CyclesStore} (hidle : store.isLoading = false)
    (hne : store.currentSearch ≠ "") :
    Loaded ilike trim db (CyclesCall.scroll.perform (db.cyclesApi ilike trim) store) ""
      CyclesStore.limit :=
  loaded_of_fresh hidle none (Or.inr hne.symm)

/-- There is more exactly when the first part is not all. -/
theorem hasMore_loaded {store : CyclesStore} {search : String} {n : ℕ}
    (h : Loaded ilike trim db store search n) :
    store.hasMore = true ↔ n < (db.results ilike trim search).length := by
  unfold CyclesStore.hasMore
  rw [decide_eq_true_eq, h.cycles, h.search_eq, h.total, List.length_take]
  omega

/-- Scroll loads go on through all cycles. -/
theorem loaded_scrolls {store : CyclesStore} {n : ℕ} (h : Loaded ilike trim db store "" n) (k : ℕ) :
    Loaded ilike trim db (scrolls (db.cyclesApi ilike trim) k store) ""
      (n + k * CyclesStore.limit) := by
  induction k generalizing store n with
  | zero => simpa [scrolls] using h
  | succ k ih =>
    have hnext := ih (loaded_scroll_of_empty h.toHolds h.search_eq)
    have hsum : n + CyclesStore.limit + k * CyclesStore.limit =
        n + (k + 1) * CyclesStore.limit := by
      rw [Nat.succ_mul]
      omega
    rwa [hsum] at hnext

/-- When scroll loads end, all cycles are listed. -/
theorem cycles_scrolls {store : CyclesStore} {n k : ℕ} (h : Loaded ilike trim db store "" n)
    (hend : (scrolls (db.cyclesApi ilike trim) k store).hasMore = false) :
    (scrolls (db.cyclesApi ilike trim) k store).cycles = db.results ilike trim "" := by
  have hloaded := loaded_scrolls h k
  have hall : (db.results ilike trim "").length ≤ n + k * CyclesStore.limit := by
    by_contra hmore
    rw [(hasMore_loaded hloaded).mpr (by omega)] at hend
    cases hend
  rw [hloaded.cycles, hloaded.search_eq, List.take_of_length_le hall]

/-- Scroll loads through all cycles end with these. -/
theorem scrollsTo_iff {store : CyclesStore} {n : ℕ} (h : Loaded ilike trim db store "" n)
    (results : List CycleItem) :
    ScrollsTo (db.cyclesApi ilike trim) store results ↔ results = db.results ilike trim "" := by
  constructor
  · rintro ⟨k, -, hend, rfl⟩
    exact cycles_scrolls h hend
  · rintro rfl
    have hends : ∃ k, (scrolls (db.cyclesApi ilike trim) k store).hasMore = false := by
      refine ⟨(db.results ilike trim "").length, Bool.eq_false_iff.mpr fun hmore => ?_⟩
      have hlt := (hasMore_loaded (loaded_scrolls h _)).mp hmore
      have hlimit : CyclesStore.limit = 20 := rfl
      rw [hlimit] at hlt
      omega
    refine ⟨Nat.find hends, fun m hm => ?_, Nat.find_spec hends,
      cycles_scrolls h (Nat.find_spec hends)⟩
    simpa using Nat.find_min hends hm

/-- A first part of the results is duplicate-free. -/
theorem nodup_cycles {store : CyclesStore} {n : ℕ} (h : Holds ilike trim db store n) :
    (store.cycles.map (·.id)).Nodup := by
  rw [h.cycles]
  exact (nodup_results ilike trim db store.currentSearch).sublist
    ((List.take_sublist n _).map CycleItem.id)

/-- After a scroll load the results of a term are listed only if it finds all cycles. -/
theorem listsResults_scroll_iff {store : CyclesStore} {n : ℕ} (h : Loaded ilike trim db store "" n)
    (results : List CycleItem) :
    ListsResults (db.cyclesApi ilike trim) store results ↔ results = db.results ilike trim "" := by
  constructor
  · exact fun hlists => (scrollsTo_iff h results).mp hlists.scrolled
  · rintro rfl
    refine ⟨?_, nodup_cycles h.toHolds, (scrollsTo_iff h _).mpr rfl⟩
    rw [h.cycles, h.search_eq]
    exact List.take_prefix n _

/-- The first of some scroll loads comes before the others. -/
theorem scrolls_succ (api : CyclesApi) (n : ℕ) (store : CyclesStore) :
    scrolls api (n + 1) store = scrolls api n (CyclesCall.scroll.perform api store) :=
  rfl

/-- After a search its results are listed only if they fit in a page or are all cycles. -/
theorem listsResults_search_iff {store : CyclesStore} {term : String}
    (h : Loaded ilike trim db store term CyclesStore.limit) :
    ListsResults (db.cyclesApi ilike trim) store (db.results ilike trim term) ↔
      (db.results ilike trim term).length ≤ CyclesStore.limit ∨
        db.results ilike trim term = db.results ilike trim "" := by
  have hnext : Loaded ilike trim db (CyclesCall.scroll.perform (db.cyclesApi ilike trim) store) ""
      (if term = "" then CyclesStore.limit + CyclesStore.limit else CyclesStore.limit) := by
    split
    · rename_i hempty
      exact loaded_scroll_of_empty h.toHolds (h.search_eq.trans hempty)
    · rename_i hne
      exact loaded_scroll_of_ne h.idle (h.search_eq ▸ hne)
  constructor
  · rintro ⟨-, -, k, hmore, hend, hresults⟩
    by_cases hfits : (db.results ilike trim term).length ≤ CyclesStore.limit
    · exact Or.inl hfits
    · right
      cases k with
      | zero =>
        have hpage : store.hasMore = true := (hasMore_loaded h).mpr (by omega)
        rw [scrolls, Function.iterate_zero_apply, hpage] at hend
        cases hend
      | succ k =>
        rw [scrolls_succ] at hend hresults
        rw [← hresults]
        exact cycles_scrolls hnext hend
  · intro hcondition
    refine ⟨?_, nodup_cycles h.toHolds, ?_⟩
    · rw [h.cycles, h.search_eq]
      exact List.take_prefix _ _
    · by_cases hfits : (db.results ilike trim term).length ≤ CyclesStore.limit
      · refine ⟨0, fun m hm => absurd hm (Nat.not_lt_zero m), ?_, ?_⟩
        · refine Bool.eq_false_iff.mpr fun hmore => ?_
          have hlt := (hasMore_loaded h).mp hmore
          omega
        · change store.cycles = _
          rw [h.cycles, h.search_eq, List.take_of_length_le hfits]
      · have hall := hcondition.resolve_left hfits
        obtain ⟨k, hmore, hend, hresults⟩ := (scrollsTo_iff hnext _).mpr hall
        refine ⟨k + 1, fun m hm => ?_, hend, hresults⟩
        cases m with
        | zero => exact (hasMore_loaded h).mpr (by omega)
        | succ m => exact hmore m (by omega)

end Pages

section Calls

variable {ilike : String → String → Bool} {trim : String → String} {db : Db}

/-- The calls list the results from any store that holds a part. -/
theorem listsSearched_iff_of_holds {store : CyclesStore} {n : ℕ}
    (h : Holds ilike trim db store n) (term : String) (calls : List CyclesCall) :
    ListsSearched ilike trim db store term calls ↔ ScrollsUnfiltered ilike trim db term calls := by
  induction calls generalizing store n term with
  | nil => exact Iff.rfl
  | cons call calls ih =>
    cases call with
    | search term' =>
      have hloaded : Loaded ilike trim db _ term' _ := loaded_search h.idle term'
      exact and_congr (listsResults_search_iff hloaded) (ih hloaded.toHolds term')
    | scroll =>
      by_cases hempty : store.currentSearch = ""
      · have hloaded := loaded_scroll_of_empty h hempty
        exact and_congr (listsResults_scroll_iff hloaded _) (ih hloaded.toHolds term)
      · have hloaded : Loaded ilike trim db _ "" _ := loaded_scroll_of_ne h.idle hempty
        exact and_congr (listsResults_scroll_iff hloaded _) (ih hloaded.toHolds term)

/-- **When infinite scroll lists the searched cycles**: exactly when each searched term has at most
a page of results or finds all cycles, and scroll loads come only after terms that find all. -/
theorem listsSearched_iff (ilike : String → String → Bool) (trim : String → String) (db : Db)
    (calls : List CyclesCall) :
    ListsSearched ilike trim db CyclesStore.initial "" calls ↔
      ScrollsUnfiltered ilike trim db "" calls := by
  have hinitial : Holds ilike trim db CyclesStore.initial 0 := ⟨rfl, rfl, rfl⟩
  exact listsSearched_iff_of_holds hinitial "" calls

end Calls

/-- Twenty-one cycles of one name, and a later one of another. -/
def manyCycles : Db :=
  { Db.provisioned [] with
    cycles := ⟨(List.range 22).map fun i =>
        { id := i, name := if i < 21 then "2025" else "2026", year := 2025, startDate := 7 * i,
          endDate := 7 * i + 4, daysPerWeek := 5, totalWeeks := 1, isActive := true },
      by decide +kernel⟩ }

/-- A name that is the whole pattern. -/
def sameName (name pattern : String) : Bool := pattern == s!"%{name}%"

/-- After the search of a name with more cycles than a page, the first scroll load lists all cycles
anew, with the later one at the top. -/
theorem not_listsSearched : ¬∀ (db : Db) (calls : List CyclesCall),
    ListsSearched sameName id db CyclesStore.initial "" calls := by
  intro hall
  have hlisted := (hall manyCycles [.search "2025", .scroll]).2.1.listed
  revert hlisted
  decide +kernel

end Odiseo.Syllabi
