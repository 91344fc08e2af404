import Odiseo.Database.Protocol

/-!
# Proof outlines

A protocol says what single commits may do. Some conditions on a run look closer: they
speak of a transaction at one point of its program, with what it has read so far. An
outline runs through the whole program of a transaction and uses such a condition at the
statement that it is about; in between, others commit what the protocol allows. It also
says which exceptions may leave a transaction and what holds at its commit.
-/

namespace Database

variable {C σ K E ε α β : Type}

/-- What is assumed and shown of the transactions of a system, point by point. -/
structure Outline (C σ K E ε α : Type) where
  /-- What the condition on the run says when a transaction with the given program left
  runs its next statement. -/
  Pre : Context C σ K E → Program σ K E ε α → Snapshot C σ E α → Prop
  /-- The exceptions that may leave a transaction. -/
  Throws : ε → Prop
  /-- What holds when a transaction commits with an answer. -/
  Post : Context C σ K E → α → Snapshot C σ E α → Prop

namespace Outline

open Protocol

variable (O : Outline C σ K E ε α) (P : Protocol C σ K E α)

/-- The program follows the outline from `s` on, while others commit what the protocol
allows. -/
def Follows : Program σ K E ε α → Context C σ K E → Snapshot C σ E α → Prop
  | .done a, t, s => ∀ s', P.After t.held s s' → P.Inv s' → O.Post t a s'
  | .fail e, _, _ => O.Throws e
  | .statement locks write next, t, s =>
    ∀ s', P.After t.held s s' → P.Inv s' → O.Pre t (.statement locks write next) s' →
      Follows (next (t.view s')) (t.wrote (locks (t.view s')) (write (t.view s'))) s'
  | .enqueue job next, t, s =>
    ∀ s', P.After t.held s s' → P.Inv s' → Follows next (t.added job) s'

variable {O P}

/-- The rule of a `SELECT`. -/
theorem follows_select {f : σ → β} {g : β → Program σ K E ε α} {t : Context C σ K E}
    {s : Snapshot C σ E α}
    (h : ∀ s', P.After t.held s s' → P.Inv s' → O.Pre t ((Program.select f).bind g) s' →
      O.Follows P (g (f (t.view s'))) t s') :
    O.Follows P ((Program.select f).bind g) t s := by
  intro s' hafter hinv hpre
  rw [Context.wrote_select]
  exact h s' hafter hinv hpre

/-- Where the protocol knows nothing of a waiting transaction, any commits of others are
tolerated interference. -/
theorem interferes_of_after (hlocal : ∀ t wants s, P.Local t wants s) {t : Context C σ K E}
    {wants : σ → List K} {s s' : Snapshot C σ E α} (h : P.After t.held s s') :
    P.Interferes t wants s s' :=
  Relation.ReflTransGen.mono (fun _ b hstep => ⟨hstep.1, hstep.2, hlocal t wants b⟩) _ _ h

/-- **A part of a program** that is correct in the protocol, and that no condition speaks
of, leads to what follows it. -/
theorem follows_bind_of_wp (hlocal : ∀ t wants s, P.Local t wants s)
    (hpre : ∀ t locks s, P.Pre t locks s) (hthrows : ∀ e, O.Throws e)
    {p : Program σ K E ε β} {k : β → Program σ K E ε α} {t : Context C σ K E}
    {s : Snapshot C σ E α} (h : P.Wp (fun t b s => O.Follows P (k b) t s) p t s) :
    O.Follows P (p.bind k) t s := by
  induction p generalizing t s with
  | done b => exact h
  | fail e => exact hthrows e
  | statement locks write next ih =>
    intro s' hafter hinv _
    have hwaited : P.Interferes t locks s s' := interferes_of_after hlocal hafter
    exact ih _ (h.2 s' hwaited hinv (hlocal t locks s') (hpre t _ s'))
  | enqueue job next ih =>
    intro s' hafter hinv
    have hwaited : P.Interferes t (fun _ => []) s s' := interferes_of_after hlocal hafter
    exact ih (h.2 s' hwaited hinv (hlocal t _ s'))

/-- **The rest of a program** whose writes all belong to a class that is closed under
composition adds a change of this class. -/
theorem follows_of_writes {W : (σ → σ) → Prop} (hid : W fun db => db)
    (hcomp : ∀ f g, W f → W g → W fun db => g (f db)) (hthrows : ∀ e, O.Throws e)
    {p : Program σ K E ε α} (hp : p.Writes fun _ _ change => W change) {t : Context C σ K E}
    {s : Snapshot C σ E α}
    (hpost : ∀ u a v F, u.Extends t → P.After t.held s v → P.Inv v → W F →
      (∀ db, u.log db = F (t.log db)) → O.Post u a v) : O.Follows P p t s := by
  induction p generalizing t s with
  | done a =>
    exact fun v hafter hinv => hpost t a v _ (.refl t) hafter hinv hid fun _ => rfl
  | fail e => exact hthrows e
  | statement locks write next ih =>
    intro s' hafter _ _
    obtain ⟨hwrite, hnext⟩ := hp (t.view s')
    have hext := t.extends_wrote (locks (t.view s')) (write (t.view s'))
    refine ih _ hnext fun u a v F hu hv hinv hF hlog => ?_
    refine hpost u a v _ (hu.trans hext) (hafter.trans (hv.mono hext.held)) hinv
      (hcomp _ F hwrite hF) fun db => ?_
    rw [hlog, Context.wrote_log]
  | enqueue job next ih =>
    intro s' hafter _
    have hext : (t.added job).Extends t := ⟨rfl, rfl, fun _ h => h⟩
    refine ih hp fun u a v F hu hv hinv hF hlog => ?_
    exact hpost u a v F (hu.trans hext) (hafter.trans (hv.mono hext.held)) hinv hF hlog

/-- A program of a call of which nothing is to be shown. -/
theorem follows_of_post (hthrows : ∀ e, O.Throws e) {p : Program σ K E ε α}
    {t : Context C σ K E} {s : Snapshot C σ E α}
    (hpost : ∀ u a v, u.call = t.call → O.Post u a v) : O.Follows P p t s := by
  induction p generalizing t s with
  | done a => exact fun v _ _ => hpost t a v rfl
  | fail e => exact hthrows e
  | statement locks write next ih => exact fun _ _ _ _ => ih _ hpost
  | enqueue job next ih => exact fun _ _ _ => ih hpost

/-- A program goes on following the outline while others commit. -/
theorem Follows.mono {p : Program σ K E ε α} {t : Context C σ K E} {s s' : Snapshot C σ E α}
    (h : O.Follows P p t s) (hafter : P.After t.held s s') : O.Follows P p t s' := by
  cases p with
  | done a => exact fun s'' hlater => h s'' (hafter.trans hlater)
  | fail e => exact h
  | statement locks write next => exact fun s'' hlater => h s'' (hafter.trans hlater)
  | enqueue job next => exact fun s'' hlater => h s'' (hafter.trans hlater)

variable {m : Machine C σ K E ε α}

variable (O P) in
/-- What has to be shown of an outline: each call that may start follows it, and the
condition on the run implies what it assumes of statements. -/
structure Sound (m : Machine C σ K E ε α) (cond : System C σ K E ε α → Event C → Prop) :
    Prop where
  /-- A call that may start follows the outline. -/
  starts : ∀ (s : System C σ K E ε α) (call : C), P.Consistent m s → cond s (.start call) →
    O.Follows P (m.program call) (Context.opened s.nextId call s.commits.length) s.toSnapshot
  /-- What the condition says of a statement. -/
  pre : ∀ (s : System C σ K E ε α) (t : Transaction C σ K E ε α), P.Consistent m s →
    t ∈ s.active → cond s (.exec t.id) → O.Pre t.toContext t.program s.toSnapshot

variable (O P) in
/-- The system is consistent, and its open transactions follow the outline. -/
structure Outlined (m : Machine C σ K E ε α) (s : System C σ K E ε α) : Prop where
  consistent : P.Consistent m s
  follows : ∀ t ∈ s.active, O.Follows P t.program t.toContext s.toSnapshot

/-- A transaction that follows the outline replaces an open one. -/
theorem follows_replace {s : System C σ K E ε α} {t : Transaction C σ K E ε α}
    (h : ∀ u ∈ s.active, O.Follows P u.program u.toContext s.toSnapshot)
    (ht : O.Follows P t.program t.toContext s.toSnapshot) :
    ∀ u ∈ (s.replace t).active, O.Follows P u.program u.toContext s.toSnapshot := by
  intro u hu
  obtain ⟨v, hv, rfl⟩ := List.mem_map.mp hu
  by_cases hid : v.id = t.id
  · simpa [hid] using ht
  · simpa [hid] using h v hv

variable [DecidableEq K] {cond : System C σ K E ε α → Event C → Prop}

/-- **Step lemma:** a step that meets the condition keeps every open transaction in the
outline. -/
theorem outlined_of_step (hsound : P.Sound m cond) (houtline : O.Sound P m cond)
    {s s' : System C σ K E ε α} {e : Event C} (h : O.Outlined P m s) (hcond : cond s e)
    (hstep : m.step s e = some s') : O.Outlined P m s' := by
  refine ⟨consistent_of_step hsound h.consistent hcond hstep, ?_⟩
  cases Machine.moves_of_step hstep with
  | start call =>
    intro t ht
    rcases List.mem_append.mp ht with ht | ht
    · exact h.follows t ht
    · obtain rfl := List.mem_singleton.mp ht
      exact houtline.starts s call h.consistent hcond
  | commit t a ht hp =>
    obtain ⟨hinv, hguar⟩ := commit_of_consistent hsound h.consistent ht hp hcond
    intro u hu
    obtain ⟨hu, hne⟩ := List.mem_filter.mp hu
    have hid : u.id ≠ t.id := by simpa using hne
    have hdisj : u.held.Disjoint t.held := h.consistent.exclusive u hu t ht hid
    exact (h.follows u hu).mono (.single ⟨⟨t.held, hdisj, hguar⟩, hinv⟩)
  | statement t locks write next ht hp hfree =>
    have hfollows := h.follows t ht
    have hpre := houtline.pre s t h.consistent ht hcond
    rw [hp] at hfollows hpre
    exact follows_replace h.follows (hfollows _ .refl h.consistent.inv hpre)
  | enqueue t job next ht hp =>
    have hfollows := h.follows t ht
    rw [hp] at hfollows
    exact follows_replace h.follows (hfollows _ .refl h.consistent.inv)
  | rollback _ t ht => exact fun u hu => h.follows u (List.mem_filter.mp hu).1

/-- **Run lemma:** in every state that a run under the condition reaches, the open
transactions follow the outline. -/
theorem outlined_of_reaches (hsound : P.Sound m cond) (houtline : O.Sound P m cond)
    {s s' : System C σ K E ε α} (h : O.Outlined P m s) (hreach : m.Reaches cond s s') :
    O.Outlined P m s' := by
  induction hreach with
  | refl => exact h
  | tail _ hstep ih =>
    obtain ⟨e, hcond, hs⟩ := hstep
    exact outlined_of_step hsound houtline ih hcond hs

omit [DecidableEq K] in
/-- Nothing is open in the idle system. -/
theorem outlined_idle {db : σ} (h : P.Inv ⟨db, []⟩) :
    O.Outlined P m (System.idle db : System C σ K E ε α) :=
  ⟨consistent_idle h, fun _ ht => nomatch ht⟩

omit [DecidableEq K] in
/-- What holds at a commit. -/
theorem Outlined.post {s : System C σ K E ε α} (h : O.Outlined P m s)
    {t : Transaction C σ K E ε α} {a : α} (ht : t ∈ s.active) (hp : t.program = .done a) :
    O.Post t.toContext a s.toSnapshot := by
  have hfollows := h.follows t ht
  rw [hp] at hfollows
  exact hfollows _ .refl h.consistent.inv

omit [DecidableEq K] in
/-- Only the exceptions of the outline leave a transaction. -/
theorem Outlined.throws {s : System C σ K E ε α} (h : O.Outlined P m s)
    {t : Transaction C σ K E ε α} {e : ε} (ht : t ∈ s.active) (hp : t.program = .fail e) :
    O.Throws e := by
  have hfollows := h.follows t ht
  rw [hp] at hfollows
  exact hfollows

end Outline

end Database
