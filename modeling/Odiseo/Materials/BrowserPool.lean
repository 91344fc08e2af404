import Odiseo.Database.Transition
import Mathlib.Data.List.Nodup

/-!
# The browser of the PDF generator

`PdfGeneratorService` keeps one browser for all PDFs. It is launched by the first job that needs it,
the jobs that come while it is being launched wait for the same launch, and a browser that has gone
is replaced by the next job. Each job renders in a context of its own, which it closes whether it
succeeds or not. The jobs overlap at every point where they wait, and the browser may crash at any
moment.
-/

namespace Odiseo.Materials

open Database Database.Transition

/-- A browser process. -/
abbrev BrowserId := ℕ

/-- A promise of `chromium.launch`. -/
abbrev LaunchId := ℕ

/-- A browser context. -/
abbrev ContextId := ℕ

/-- The fields of `PdfGeneratorService`. -/
structure PdfGeneratorService where
  browser : Option BrowserId
  browserLaunch : Option LaunchId
  deriving DecidableEq, Repr

/-- What `getBrowser` returns: a browser, or the promise of one. -/
inductive GotBrowser
  | browser (b : BrowserId)
  | launch (l : LaunchId)
  deriving DecidableEq, Repr

/-- The rest of `getBrowser` when there is no connected browser. -/
def PdfGeneratorService.awaitLaunch (service : PdfGeneratorService) (launch : LaunchId) :
    GotBrowser × PdfGeneratorService :=
  match service.browserLaunch with
  | some l => (.launch l, service)
  | none => (.launch launch, { service with browserLaunch := some launch })

/-- `getBrowser`, with the promise that a call of `chromium.launch` would return. -/
def PdfGeneratorService.getBrowser (service : PdfGeneratorService) (isConnected : BrowserId → Bool)
    (launch : LaunchId) : GotBrowser × PdfGeneratorService :=
  match service.browser with
  | some b => if isConnected b then (.browser b, service) else service.awaitLaunch launch
  | none => service.awaitLaunch launch

/-- How far a run of `generatePdf` has come. -/
inductive Phase
  /-- It waits for the launch of the browser. -/
  | launching (l : LaunchId)
  /-- It has the browser, and asks it for a context. -/
  | launched (b : BrowserId)
  /-- It is in the `try` block. -/
  | rendering (b : BrowserId) (c : ContextId)
  /-- It is in the `finally` block, and waits for `context.close`. -/
  | closing (b : BrowserId) (c : ContextId)
  deriving DecidableEq, Repr

/-- The context of a run. -/
def Phase.context : Phase → Option (BrowserId × ContextId)
  | .rendering b c | .closing b c => some (b, c)
  | _ => none

/-- A run of `generatePdf`. -/
structure PdfRun where
  id : ℕ
  phase : Phase
  deriving DecidableEq, Repr

/-- The service with the processes that it has started. -/
structure BrowserWorld where
  service : PdfGeneratorService
  /-- The launches that have not settled. -/
  launches : List LaunchId
  /-- The browsers that are connected. -/
  connected : List BrowserId
  /-- The contexts that are open. -/
  contexts : List (BrowserId × ContextId)
  runs : List PdfRun
  nextId : ℕ
  deriving DecidableEq, Repr

/-- What happens next. -/
inductive BrowserAction
  /-- A job comes to `getBrowser`. -/
  | getBrowser
  /-- A launch is fulfilled, by a browser that may have disconnected since. -/
  | launched (l : LaunchId) (isConnected : Bool)
  /-- A launch is rejected. -/
  | launchFailed (l : LaunchId)
  /-- A job asks for a context, which may fail. -/
  | newContext (id : ℕ) (succeeds : Bool)
  /-- The `try` block of a job is left, by its result or by an exception. -/
  | left (id : ℕ)
  /-- `context.close` has settled. -/
  | closed (id : ℕ)
  /-- A browser disconnects. -/
  | disconnected (b : BrowserId)
  deriving DecidableEq, Repr

namespace BrowserWorld

/-- The service has just been created. -/
def start : BrowserWorld where
  service := ⟨none, none⟩
  launches := []
  connected := []
  contexts := []
  runs := []
  nextId := 0

/-- The run with an identifier. -/
def find (w : BrowserWorld) (id : ℕ) : Option PdfRun := w.runs.find? (·.id == id)

/-- How far the run with an identifier has come. -/
def phase (w : BrowserWorld) (id : ℕ) : Option Phase := (w.find id).map fun r => r.phase

/-- A run goes on. -/
def goOn (w : BrowserWorld) (id : ℕ) (phase : Phase) : List PdfRun :=
  w.runs.map fun r => if r.id = id then { r with phase } else r

/-- A run ends. -/
def ended (w : BrowserWorld) (id : ℕ) : List PdfRun := w.runs.filter (·.id != id)

/-- The phase of a job that has got a browser, or the promise of one. -/
def phaseOf : GotBrowser → Phase
  | .browser b => .launched b
  | .launch l => .launching l

/-- A job comes to `getBrowser`. The launch that it may start gets the number of the job. -/
def getBrowser (w : BrowserWorld) : BrowserWorld :=
  let got := w.service.getBrowser (fun b => w.connected.contains b) w.nextId
  { w with
    service := got.2
    launches := if got.1 = .launch w.nextId then w.launches ++ [w.nextId] else w.launches
    runs := w.runs ++ [⟨w.nextId, phaseOf got.1⟩]
    nextId := w.nextId + 1 }

/-- A launch is fulfilled: the callback of `then` keeps the browser, and the jobs that wait for it
get it. -/
def launched (w : BrowserWorld) (l : LaunchId) (isConnected : Bool) : BrowserWorld :=
  { w with
    service := ⟨some w.nextId, none⟩
    launches := w.launches.filter (· != l)
    connected := if isConnected then w.connected ++ [w.nextId] else w.connected
    runs := w.runs.map fun r =>
      if r.phase = .launching l then { r with phase := .launched w.nextId } else r
    nextId := w.nextId + 1 }

/-- A launch is rejected: the callback of `catch` forgets it, and the jobs that wait for it fail. -/
def launchFailed (w : BrowserWorld) (l : LaunchId) : BrowserWorld :=
  { w with
    service := { w.service with browserLaunch := none }
    launches := w.launches.filter (· != l)
    runs := w.runs.filter fun r => r.phase != .launching l }

/-- A job asks its browser for a context. -/
def newContext (w : BrowserWorld) (id : ℕ) (b : BrowserId) (succeeds : Bool) : BrowserWorld :=
  if succeeds && w.connected.contains b then
    { w with
      contexts := w.contexts ++ [(b, w.nextId)]
      runs := w.goOn id (.rendering b w.nextId)
      nextId := w.nextId + 1 }
  else { w with runs := w.ended id }

/-- A context is closed. -/
def closed (w : BrowserWorld) (id : ℕ) (b : BrowserId) (c : ContextId) : BrowserWorld :=
  { w with
    contexts := w.contexts.filter (· != (b, c))
    runs := w.ended id }

/-- A browser disconnects: its contexts are gone, and the callback of the event forgets the
browser. -/
def disconnected (w : BrowserWorld) (b : BrowserId) : BrowserWorld :=
  { w with
    service := { w.service with browser := none }
    connected := w.connected.filter (· != b)
    contexts := w.contexts.filter (·.1 != b) }

/-- One step, when it can happen. -/
def step (w : BrowserWorld) : BrowserAction → Option BrowserWorld
  | .getBrowser => some w.getBrowser
  | .launched l isConnected =>
    if l ∈ w.launches then some (w.launched l isConnected) else none
  | .launchFailed l => if l ∈ w.launches then some (w.launchFailed l) else none
  | .newContext id succeeds =>
    match w.phase id with
    | some (.launched b) => some (w.newContext id b succeeds)
    | _ => none
  | .left id =>
    match w.phase id with
    | some (.rendering b c) => some { w with runs := w.goOn id (.closing b c) }
    | _ => none
  | .closed id =>
    match w.phase id with
    | some (.closing b c) => some (w.closed id b c)
    | _ => none
  | .disconnected b => if b ∈ w.connected then some (w.disconnected b) else none

/-- The runs are told apart by their identifiers and by their contexts. -/
structure Distinct (runs : List PdfRun) (nextId : ℕ) : Prop where
  /-- No two jobs share a context. -/
  apart : ∀ r ∈ runs, ∀ r' ∈ runs, ∀ x, r.phase.context = some x → r'.phase.context = some x →
    r = r'
  /-- No two runs share an identifier. -/
  ids : ∀ r ∈ runs, ∀ r' ∈ runs, r.id = r'.id → r = r'
  freshRuns : ∀ r ∈ runs, r.id < nextId
  freshContexts : ∀ r ∈ runs, ∀ x, r.phase.context = some x → x.2 < nextId

/-- What holds at any time. -/
structure Sound (w : BrowserWorld) : Prop where
  /-- The service knows the launch that is under way. -/
  launches : w.launches = w.service.browserLaunch.toList
  /-- A connected browser is the one that the service keeps, and none is being launched. -/
  connected : w.connected = [] ∨
    w.launches = [] ∧ ∃ b, w.service.browser = some b ∧ w.connected = [b]
  /-- A job only waits for a launch that is under way. -/
  waiting : ∀ r ∈ w.runs, ∀ l, r.phase = .launching l → l ∈ w.launches
  /-- A launch that is under way is awaited. -/
  awaited : ∀ l ∈ w.launches, ∃ r ∈ w.runs, r.phase = .launching l
  /-- An open context is one of a connected browser, and some job is going to close it. -/
  contexts : ∀ x ∈ w.contexts, x.1 ∈ w.connected ∧ ∃ r ∈ w.runs, r.phase.context = some x
  distinct : Distinct w.runs w.nextId
  freshLaunches : ∀ l ∈ w.launches, l < w.nextId

variable {w w' : BrowserWorld}

/-- A run that is found. -/
theorem of_phase {id : ℕ} {p : Phase} (h : w.phase id = some p) : ⟨id, p⟩ ∈ w.runs := by
  obtain ⟨r, hr, rfl⟩ := Option.map_eq_some_iff.mp h
  have hid : r.id = id := by simpa using List.find?_some hr
  subst hid
  exact List.mem_of_find?_eq_some hr

/-- The runs when one of them has gone on. -/
theorem mem_goOn {id : ℕ} {p : Phase} {r : PdfRun} (h : r ∈ w.goOn id p) :
    r = ⟨id, p⟩ ∨ r ∈ w.runs ∧ r.id ≠ id := by
  obtain ⟨a, ha, rfl⟩ := List.mem_map.mp h
  by_cases hid : a.id = id
  · left
    simp [hid]
  · right
    simpa [hid] using ha

/-- The others are where they were. -/
theorem mem_goOn_of_ne {id : ℕ} {p : Phase} {r : PdfRun} (h : r ∈ w.runs) (hid : r.id ≠ id) :
    r ∈ w.goOn id p :=
  List.mem_map.mpr ⟨r, h, by simp [hid]⟩

/-- The one that has gone on is there. -/
theorem mem_goOn_self {id : ℕ} {p q : Phase} (h : ⟨id, q⟩ ∈ w.runs) : ⟨id, p⟩ ∈ w.goOn id p :=
  List.mem_map.mpr ⟨_, h, by simp⟩

/-- The runs when one of them has ended. -/
theorem mem_ended {id : ℕ} {r : PdfRun} : r ∈ w.ended id ↔ r ∈ w.runs ∧ r.id ≠ id := by
  simp [ended]

/-- Fewer runs are still distinct. -/
theorem Distinct.subset {runs runs' : List PdfRun} {n : ℕ} (h : Distinct runs n)
    (hsub : runs' ⊆ runs) : Distinct runs' n where
  apart r hr r' hr' := h.apart r (hsub hr) r' (hsub hr')
  ids r hr r' hr' := h.ids r (hsub hr) r' (hsub hr')
  freshRuns r hr := h.freshRuns r (hsub hr)
  freshContexts r hr := h.freshContexts r (hsub hr)

/-- A run of a new identifier and without a context is distinct from the others. -/
theorem Distinct.append {runs : List PdfRun} {n : ℕ} (h : Distinct runs n) {p : Phase}
    (hp : p.context = none) : Distinct (runs ++ [⟨n, p⟩]) (n + 1) where
  apart := by
    intro r hr r' hr' x hx hx'
    rcases List.mem_append.mp hr with hr | hr
    · rcases List.mem_append.mp hr' with hr' | hr'
      · exact h.apart r hr r' hr' x hx hx'
      · obtain rfl := List.mem_singleton.mp hr'
        cases hp.symm.trans hx'
    · obtain rfl := List.mem_singleton.mp hr
      cases hp.symm.trans hx
  ids := by
    intro r hr r' hr' heq
    rcases List.mem_append.mp hr with hmem | hmem <;>
      rcases List.mem_append.mp hr' with hmem' | hmem'
    · exact h.ids r hmem r' hmem' heq
    · obtain rfl := List.mem_singleton.mp hmem'
      exact absurd heq (Nat.ne_of_lt (h.freshRuns r hmem))
    · obtain rfl := List.mem_singleton.mp hmem
      exact absurd heq.symm (Nat.ne_of_lt (h.freshRuns r' hmem'))
    · rw [List.mem_singleton.mp hmem, List.mem_singleton.mp hmem']
  freshRuns := by
    intro r hr
    rcases List.mem_append.mp hr with hr | hr
    · exact Nat.lt_succ_of_lt (h.freshRuns r hr)
    · obtain rfl := List.mem_singleton.mp hr
      exact Nat.lt_succ_self n
  freshContexts := by
    intro r hr x hx
    rcases List.mem_append.mp hr with hr | hr
    · exact Nat.lt_succ_of_lt (h.freshContexts r hr x hx)
    · obtain rfl := List.mem_singleton.mp hr
      cases hp.symm.trans hx

/-- Runs that keep their identifiers and their contexts stay distinct. -/
theorem Distinct.map {runs : List PdfRun} {n : ℕ} (h : Distinct runs n) {f : PdfRun → PdfRun}
    (hid : ∀ r, (f r).id = r.id) (hf : ∀ r, (f r).phase.context = r.phase.context) :
    Distinct (runs.map f) (n + 1) where
  apart := by
    intro r hr r' hr' x hx hx'
    obtain ⟨a, ha, rfl⟩ := List.mem_map.mp hr
    obtain ⟨a', ha', rfl⟩ := List.mem_map.mp hr'
    rw [h.apart a ha a' ha' x (hf a ▸ hx) (hf a' ▸ hx')]
  ids := by
    intro r hr r' hr' heq
    obtain ⟨a, ha, rfl⟩ := List.mem_map.mp hr
    obtain ⟨a', ha', rfl⟩ := List.mem_map.mp hr'
    rw [h.ids a ha a' ha' (by rwa [hid, hid] at heq)]
  freshRuns := by
    intro r hr
    obtain ⟨a, ha, rfl⟩ := List.mem_map.mp hr
    rw [hid a]
    exact Nat.lt_succ_of_lt (h.freshRuns a ha)
  freshContexts := by
    intro r hr x hx
    obtain ⟨a, ha, rfl⟩ := List.mem_map.mp hr
    exact Nat.lt_succ_of_lt (h.freshContexts a ha x (hf a ▸ hx))

/-- A run goes on to a phase whose context no other run has. -/
theorem Distinct.goOn {id n : ℕ} {p q : Phase} (h : Distinct w.runs w.nextId)
    (hmem : ⟨id, q⟩ ∈ w.runs) (hn : w.nextId ≤ n)
    (hp : ∀ x, p.context = some x → x.2 < n ∧
      ∀ r ∈ w.runs, r.phase.context = some x → r.id = id) :
    Distinct (w.goOn id p) n where
  apart := by
    intro r hr r' hr' x hx hx'
    rcases mem_goOn hr with rfl | ⟨hr, hid⟩ <;> rcases mem_goOn hr' with rfl | ⟨hr', hid'⟩
    · rfl
    · exact absurd ((hp x hx).2 r' hr' hx') hid'
    · exact absurd ((hp x hx').2 r hr hx) hid
    · exact h.apart r hr r' hr' x hx hx'
  ids := by
    intro r hr r' hr' heq
    rcases mem_goOn hr with rfl | ⟨hr, hid⟩ <;> rcases mem_goOn hr' with rfl | ⟨hr', hid'⟩
    · rfl
    · exact absurd heq.symm hid'
    · exact absurd heq hid
    · exact h.ids r hr r' hr' heq
  freshRuns := by
    intro r hr
    rcases mem_goOn hr with rfl | ⟨hr, -⟩
    · exact Nat.lt_of_lt_of_le (h.freshRuns ⟨id, q⟩ hmem) hn
    · exact Nat.lt_of_lt_of_le (h.freshRuns r hr) hn
  freshContexts := by
    intro r hr x hx
    rcases mem_goOn hr with rfl | ⟨hr, -⟩
    · exact (hp x hx).1
    · exact Nat.lt_of_lt_of_le (h.freshContexts r hr x hx) hn

/-- What a job finds: the connected browser, a launch that is under way, or neither. -/
theorem getBrowser_cases (h : w.Sound) :
    (∃ p : Phase, p.context = none ∧ (∀ l, p = .launching l → l ∈ w.launches) ∧ w.getBrowser =
      { w with runs := w.runs ++ [⟨w.nextId, p⟩], nextId := w.nextId + 1 }) ∨
    (w.launches = [] ∧ w.connected = [] ∧ w.getBrowser =
      { w with
        service := { w.service with browserLaunch := some w.nextId }
        launches := [w.nextId]
        runs := w.runs ++ [⟨w.nextId, .launching w.nextId⟩]
        nextId := w.nextId + 1 }) := by
  by_cases hc : ∃ b, w.service.browser = some b ∧ b ∈ w.connected
  · obtain ⟨b, hb, hmem⟩ := hc
    refine .inl ⟨.launched b, rfl, (fun l hl => nomatch hl), ?_⟩
    simp [getBrowser, PdfGeneratorService.getBrowser, hb, hmem, phaseOf]
  have hawait : w.service.getBrowser (fun b => w.connected.contains b) w.nextId =
      w.service.awaitLaunch w.nextId := by
    cases hb : w.service.browser with
    | none => simp [PdfGeneratorService.getBrowser, hb]
    | some b =>
      have hmem : b ∉ w.connected := fun hmem => hc ⟨b, hb, hmem⟩
      simp [PdfGeneratorService.getBrowser, hb, hmem]
  cases hl : w.service.browserLaunch with
  | some l =>
    have hmem : l ∈ w.launches := by simp [h.launches, hl]
    have hne : l ≠ w.nextId := Nat.ne_of_lt (h.freshLaunches l hmem)
    have hphase : ∀ l', Phase.launching l = .launching l' → l' ∈ w.launches := by
      intro l' hl'
      cases hl'
      exact hmem
    refine .inl ⟨.launching l, rfl, hphase, ?_⟩
    simp only [getBrowser, hawait, PdfGeneratorService.awaitLaunch, hl, phaseOf]
    simp [hne]
  | none =>
    have hnone : w.launches = [] := by simp [h.launches, hl]
    have hgone : w.connected = [] := by
      rcases h.connected with hgone | ⟨-, b, hb, hone⟩
      · exact hgone
      · exact absurd ⟨b, hb, by simp [hone]⟩ hc
    refine .inr ⟨hnone, hgone, ?_⟩
    simp only [getBrowser, hawait, PdfGeneratorService.awaitLaunch, hl, phaseOf]
    simp [hnone]

/-- A job comes to `getBrowser`. -/
theorem Sound.getBrowser (h : w.Sound) : w.getBrowser.Sound := by
  rcases getBrowser_cases h with ⟨p, hp, hlaunch, hw⟩ | ⟨hnone, hgone, hw⟩ <;> rw [hw]
  · exact {
      launches := h.launches
      connected := h.connected
      waiting := by
        intro r hr l hl
        rcases List.mem_append.mp hr with hr | hr
        · exact h.waiting r hr l hl
        · obtain rfl := List.mem_singleton.mp hr
          exact hlaunch l hl
      awaited := fun l hl => (h.awaited l hl).imp fun r hr => ⟨by simp [hr.1], hr.2⟩
      contexts := fun x hx =>
        ⟨(h.contexts x hx).1, (h.contexts x hx).2.imp fun r hr => ⟨by simp [hr.1], hr.2⟩⟩
      distinct := h.distinct.append hp
      freshLaunches := fun l hl => Nat.lt_succ_of_lt (h.freshLaunches l hl) }
  · have hnoContexts : w.contexts = [] := by
      refine List.eq_nil_iff_forall_not_mem.mpr fun x hx => ?_
      have := (h.contexts x hx).1
      simp [hgone] at this
    exact {
      launches := rfl
      connected := .inl hgone
      waiting := by
        intro r hr l hl
        rcases List.mem_append.mp hr with hr | hr
        · have := h.waiting r hr l hl
          simp [hnone] at this
        · obtain rfl := List.mem_singleton.mp hr
          cases hl
          exact List.mem_singleton_self _
      awaited := by
        intro l hl
        obtain rfl := List.mem_singleton.mp hl
        exact ⟨_, List.mem_append_right _ (List.mem_singleton_self _), rfl⟩
      contexts := by simp [hnoContexts]
      distinct := h.distinct.append rfl
      freshLaunches := by simp }

/-- A launch that is under way is the only one, and no browser is connected. -/
theorem Sound.of_launch (h : w.Sound) {l : LaunchId} (hl : l ∈ w.launches) :
    w.launches = [l] ∧ w.connected = [] ∧ w.contexts = [] := by
  have hone : w.launches = [l] := by
    have hlaunches := h.launches
    cases hs : w.service.browserLaunch with
    | none => simp [hlaunches, hs] at hl
    | some l' =>
      rw [hs] at hlaunches
      rw [hlaunches] at hl ⊢
      rw [List.mem_singleton.mp hl]
      rfl
  have hgone : w.connected = [] := by
    rcases h.connected with hgone | ⟨hnone, -⟩
    · exact hgone
    · simp [hnone] at hl
  refine ⟨hone, hgone, List.eq_nil_iff_forall_not_mem.mpr fun x hx => ?_⟩
  have := (h.contexts x hx).1
  simp [hgone] at this

/-- A launch is fulfilled. -/
theorem Sound.launched (h : w.Sound) {l : LaunchId} (hl : l ∈ w.launches) (isConnected : Bool) :
    (w.launched l isConnected).Sound := by
  obtain ⟨hone, hgone, hnoContexts⟩ := h.of_launch hl
  have hnone : (w.launched l isConnected).launches = [] := by simp [BrowserWorld.launched, hone]
  exact {
    launches := hnone
    connected := by
      cases isConnected with
      | false => exact .inl hgone
      | true => exact .inr ⟨hnone, w.nextId, rfl, by simp [BrowserWorld.launched, hgone]⟩
    waiting := by
      intro r hr l' hl'
      obtain ⟨a, ha, rfl⟩ := List.mem_map.mp hr
      split at hl'
      · cases hl'
      · rename_i hphase
        have hmem := h.waiting a ha l' hl'
        rw [hone] at hmem
        rw [List.mem_singleton.mp hmem] at hl'
        exact absurd hl' hphase
    awaited := by simp [hnone]
    contexts := by simp [BrowserWorld.launched, hnoContexts]
    distinct := by
      refine h.distinct.map (fun r => ?_) fun r => ?_
      · split <;> rfl
      · split
        · rename_i hphase
          rw [hphase]
          rfl
        · rfl
    freshLaunches := by simp [hnone] }

/-- A launch is rejected. -/
theorem Sound.launchFailed (h : w.Sound) {l : LaunchId} (hl : l ∈ w.launches) :
    (w.launchFailed l).Sound := by
  obtain ⟨hone, hgone, hnoContexts⟩ := h.of_launch hl
  have hnone : (w.launchFailed l).launches = [] := by simp [BrowserWorld.launchFailed, hone]
  exact {
    launches := hnone
    connected := .inl hgone
    waiting := by
      intro r hr l' hl'
      obtain ⟨hr, hphase⟩ := List.mem_filter.mp hr
      have hmem := h.waiting r hr l' hl'
      rw [hone] at hmem
      rw [List.mem_singleton.mp hmem] at hl'
      simp [hl'] at hphase
    awaited := by simp [hnone]
    contexts := by simp [BrowserWorld.launchFailed, hnoContexts]
    distinct := h.distinct.subset fun r hr => (List.mem_filter.mp hr).1
    freshLaunches := by simp [hnone] }

/-- A job without a context ends. -/
theorem Sound.without (h : w.Sound) {id : ℕ} {p : Phase} (hmem : ⟨id, p⟩ ∈ w.runs)
    (hp : p.context = none) (hphase : ∀ l, p ≠ .launching l) :
    { w with runs := w.ended id }.Sound where
  launches := h.launches
  connected := h.connected
  waiting r hr := h.waiting r (mem_ended.mp hr).1
  awaited := by
    intro l hl
    obtain ⟨r, hr, hphase'⟩ := h.awaited l hl
    refine ⟨r, mem_ended.mpr ⟨hr, fun hid => ?_⟩, hphase'⟩
    rw [h.distinct.ids r hr _ hmem hid] at hphase'
    exact hphase l hphase'
  contexts := by
    intro x hx
    obtain ⟨hconnected, r, hr, hcontext⟩ := h.contexts x hx
    refine ⟨hconnected, r, mem_ended.mpr ⟨hr, fun hid => ?_⟩, hcontext⟩
    rw [h.distinct.ids r hr _ hmem hid, hp] at hcontext
    cases hcontext
  distinct := h.distinct.subset fun r hr => (mem_ended.mp hr).1
  freshLaunches := h.freshLaunches

/-- A job goes on, without waiting for a launch before or after. -/
theorem Sound.waits_goOn (h : w.Sound) {id : ℕ} {p q : Phase} (hmem : ⟨id, q⟩ ∈ w.runs)
    (hp : ∀ l, p ≠ .launching l) (hq : ∀ l, q ≠ .launching l) :
    (∀ r ∈ w.goOn id p, ∀ l, r.phase = .launching l → l ∈ w.launches) ∧
    (∀ l ∈ w.launches, ∃ r ∈ w.goOn id p, r.phase = .launching l) := by
  constructor
  · intro r hr l hl
    rcases mem_goOn hr with rfl | ⟨hr, -⟩
    · exact absurd hl (hp l)
    · exact h.waiting r hr l hl
  · intro l hl
    obtain ⟨r, hr, hphase⟩ := h.awaited l hl
    refine ⟨r, mem_goOn_of_ne hr fun hid => ?_, hphase⟩
    rw [h.distinct.ids r hr _ hmem hid] at hphase
    exact hq l hphase

/-- A job asks for a context. -/
theorem Sound.newContext (h : w.Sound) {id : ℕ} {b : BrowserId}
    (hmem : ⟨id, .launched b⟩ ∈ w.runs) (succeeds : Bool) :
    (w.newContext id b succeeds).Sound := by
  have hq : ∀ l, Phase.launched b ≠ .launching l := fun l hl => nomatch hl
  rw [BrowserWorld.newContext]
  split
  · rename_i hcond
    have hb : b ∈ w.connected := by simpa using (Bool.and_eq_true_iff.mp hcond).2
    obtain ⟨hwaiting, hawaited⟩ :=
      h.waits_goOn (p := .rendering b w.nextId) hmem (fun l hl => nomatch hl) hq
    exact {
      launches := h.launches
      connected := h.connected
      waiting := hwaiting
      awaited := hawaited
      contexts := by
        intro x hx
        rcases List.mem_append.mp hx with hx | hx
        · obtain ⟨hconnected, r, hr, hcontext⟩ := h.contexts x hx
          refine ⟨hconnected, r, mem_goOn_of_ne hr fun hid => ?_, hcontext⟩
          rw [h.distinct.ids r hr _ hmem hid] at hcontext
          cases hcontext
        · obtain rfl := List.mem_singleton.mp hx
          exact ⟨hb, _, mem_goOn_self hmem, rfl⟩
      distinct := by
        refine h.distinct.goOn hmem (Nat.le_succ _) fun x hx => ?_
        cases hx
        refine ⟨Nat.lt_succ_self _, fun r hr hcontext => ?_⟩
        exact absurd (h.distinct.freshContexts r hr _ hcontext) (Nat.lt_irrefl _)
      freshLaunches := fun l hl => Nat.lt_succ_of_lt (h.freshLaunches l hl) }
  · exact h.without hmem rfl hq

/-- The `try` block of a job is left. -/
theorem Sound.left (h : w.Sound) {id : ℕ} {b : BrowserId} {c : ContextId}
    (hmem : ⟨id, .rendering b c⟩ ∈ w.runs) :
    { w with runs := w.goOn id (.closing b c) }.Sound := by
  obtain ⟨hwaiting, hawaited⟩ :=
    h.waits_goOn (p := .closing b c) hmem (fun l hl => nomatch hl) fun l hl => nomatch hl
  exact {
    launches := h.launches
    connected := h.connected
    waiting := hwaiting
    awaited := hawaited
    contexts := by
      intro x hx
      obtain ⟨hconnected, r, hr, hcontext⟩ := h.contexts x hx
      refine ⟨hconnected, ?_⟩
      by_cases hid : r.id = id
      · rw [h.distinct.ids r hr _ hmem hid] at hcontext
        exact ⟨_, mem_goOn_self hmem, hcontext⟩
      · exact ⟨r, mem_goOn_of_ne hr hid, hcontext⟩
    distinct := by
      refine h.distinct.goOn hmem (Nat.le_refl _) fun x hx => ?_
      cases hx
      refine ⟨h.distinct.freshContexts _ hmem _ rfl, fun r hr hcontext => ?_⟩
      rw [h.distinct.apart r hr _ hmem _ hcontext rfl]
    freshLaunches := h.freshLaunches }

/-- A context is closed. -/
theorem Sound.closed (h : w.Sound) {id : ℕ} {b : BrowserId} {c : ContextId}
    (hmem : ⟨id, .closing b c⟩ ∈ w.runs) : (w.closed id b c).Sound where
  launches := h.launches
  connected := h.connected
  waiting r hr := h.waiting r (mem_ended.mp hr).1
  awaited := by
    intro l hl
    obtain ⟨r, hr, hphase⟩ := h.awaited l hl
    refine ⟨r, mem_ended.mpr ⟨hr, fun hid => ?_⟩, hphase⟩
    rw [h.distinct.ids r hr _ hmem hid] at hphase
    cases hphase
  contexts := by
    intro x hx
    obtain ⟨hx, hne⟩ := List.mem_filter.mp hx
    obtain ⟨hconnected, r, hr, hcontext⟩ := h.contexts x hx
    refine ⟨hconnected, r, mem_ended.mpr ⟨hr, fun hid => ?_⟩, hcontext⟩
    rw [h.distinct.ids r hr _ hmem hid] at hcontext
    cases hcontext
    simp at hne
  distinct := h.distinct.subset fun r hr => (mem_ended.mp hr).1
  freshLaunches := h.freshLaunches

/-- A browser disconnects. -/
theorem Sound.disconnected (h : w.Sound) {b : BrowserId} (hb : b ∈ w.connected) :
    (w.disconnected b).Sound := by
  have hgone : (w.disconnected b).connected = [] := by
    rcases h.connected with hgone | ⟨-, b', -, hone⟩
    · simp [hgone] at hb
    · rw [hone] at hb
      obtain rfl := List.mem_singleton.mp hb
      simp [BrowserWorld.disconnected, hone]
  exact {
    launches := h.launches
    connected := .inl hgone
    waiting := h.waiting
    awaited := h.awaited
    contexts := by
      intro x hx
      obtain ⟨hx, hne⟩ := List.mem_filter.mp hx
      obtain ⟨hconnected, r, hr, hcontext⟩ := h.contexts x hx
      exact ⟨List.mem_filter.mpr ⟨hconnected, hne⟩, r, hr, hcontext⟩
    distinct := h.distinct
    freshLaunches := h.freshLaunches }

/-- What a step keeps. -/
theorem Sound.step (h : w.Sound) {a : BrowserAction} (hs : w.step a = some w') : w'.Sound := by
  cases a with
  | getBrowser =>
    cases hs
    exact h.getBrowser
  | launched l isConnected =>
    simp only [BrowserWorld.step, Option.ite_none_right_eq_some, Option.some.injEq] at hs
    obtain ⟨hl, rfl⟩ := hs
    exact h.launched hl isConnected
  | launchFailed l =>
    simp only [BrowserWorld.step, Option.ite_none_right_eq_some, Option.some.injEq] at hs
    obtain ⟨hl, rfl⟩ := hs
    exact h.launchFailed hl
  | newContext id succeeds =>
    simp only [BrowserWorld.step] at hs
    split at hs
    · rename_i b hphase
      cases hs
      exact h.newContext (of_phase hphase) succeeds
    · cases hs
  | left id =>
    simp only [BrowserWorld.step] at hs
    split at hs
    · rename_i b c hphase
      cases hs
      exact h.left (of_phase hphase)
    · cases hs
  | closed id =>
    simp only [BrowserWorld.step] at hs
    split at hs
    · rename_i b c hphase
      cases hs
      exact h.closed (of_phase hphase)
    · cases hs
  | disconnected b =>
    simp only [BrowserWorld.step, Option.ite_none_right_eq_some, Option.some.injEq] at hs
    obtain ⟨hb, rfl⟩ := hs
    exact h.disconnected hb

/-- A service that has just been created. -/
theorem Sound.start : start.Sound where
  launches := rfl
  connected := .inl rfl
  waiting := by simp [BrowserWorld.start]
  awaited := by simp [BrowserWorld.start]
  contexts := by simp [BrowserWorld.start]
  distinct := ⟨by simp [BrowserWorld.start], by simp [BrowserWorld.start],
    by simp [BrowserWorld.start], by simp [BrowserWorld.start]⟩
  freshLaunches := by simp [BrowserWorld.start]

end BrowserWorld

open BrowserWorld in
/-- **A pool of one:** whatever the order in which jobs come, launches settle, contexts are opened
and closed and browsers crash, there is at most one browser, launched or being launched. A launch is
under way only while a job waits for it, and a job only waits for a launch that is under way. Each
open context is one of the connected browser, and exactly one job has it and is still to close it;
so when the last job has ended none is open. -/
theorem browser_pool_of_one {w : BrowserWorld}
    (hreach : Reaches step (fun _ _ => True) start w) :
    w.launches.length + w.connected.length ≤ 1 ∧
    (∀ l, l ∈ w.launches ↔ ∃ r ∈ w.runs, r.phase = .launching l) ∧
    (∀ x ∈ w.contexts, x.1 ∈ w.connected ∧ ∃! r, r ∈ w.runs ∧ r.phase.context = some x) ∧
    (w.runs = [] → w.launches = [] ∧ w.contexts = []) := by
  have h : w.Sound := hreach.invariant Sound.start fun w a w' h _ hs => h.step hs
  refine ⟨?_, fun l => ⟨h.awaited l, fun ⟨r, hr, hl⟩ => h.waiting r hr l hl⟩, ?_, ?_⟩
  · have hlaunches : w.launches.length ≤ 1 := by
      rw [h.launches]
      exact Option.length_toList_le
    rcases h.connected with hgone | ⟨hnone, b, -, hone⟩
    · simpa [hgone] using hlaunches
    · simp [hnone, hone]
  · intro x hx
    obtain ⟨hconnected, r, hr, hcontext⟩ := h.contexts x hx
    exact ⟨hconnected, r, ⟨hr, hcontext⟩,
      fun r' ⟨hr', hcontext'⟩ => h.distinct.apart r' hr' r hr x hcontext' hcontext⟩
  · intro hruns
    constructor
    · refine List.eq_nil_iff_forall_not_mem.mpr fun l hl => ?_
      obtain ⟨r, hr, -⟩ := h.awaited l hl
      simp [hruns] at hr
    · refine List.eq_nil_iff_forall_not_mem.mpr fun x hx => ?_
      obtain ⟨-, r, hr, -⟩ := h.contexts x hx
      simp [hruns] at hr

/-- Two jobs share a launch, the browser crashes while the second one renders, and a third job
launches another. -/
def crashedPool : List BrowserAction :=
  [.getBrowser, .getBrowser, .launched 0 true, .newContext 0 true, .newContext 1 true, .left 0,
    .closed 0, .disconnected 2, .getBrowser, .launched 5 true, .newContext 5 true]

open BrowserWorld in
/-- The context of the crashed browser is gone, and that of the new one is of the third job. -/
theorem browser_pool_of_one_crashed :
    (after step start crashedPool).connected = [6] ∧
    (after step start crashedPool).contexts = [(6, 7)] ∧
    ∃! r, r ∈ (after step start crashedPool).runs ∧ r.phase.context = some (6, 7) :=
  ⟨by decide, by decide,
    ((browser_pool_of_one (reaches_after (by decide) fun _ _ _ => trivial)).2.2.1 (6, 7)
      (by decide)).2⟩

end Odiseo.Materials
