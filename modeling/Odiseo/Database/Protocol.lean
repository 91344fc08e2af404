import Odiseo.Database.System
import Mathlib.Data.List.Nodup

/-!
# Rely and guarantee for interleaved transactions

A transaction is verified alone, against everything that the commits of others
may do while it is open. A protocol names the invariant of the committed state,
what a commit may change under the row locks that the committing transaction
holds, and what is known of a transaction while it waits. Row locks are exclusive,
so the commits that a transaction has to tolerate hold none of its own rows.

`Protocol.Wp` runs through the statements of one program and lets the committed
state change before each of them. `Protocol.consistent_of_reaches` turns the
verdicts on the single programs into a statement about every interleaving.
-/

namespace Database

variable {C σ K E ε α β γ : Type}

/-- What the transactions of a system promise to each other. -/
structure Protocol (C σ K E α : Type) where
  /-- What holds of every committed state. -/
  Inv : Snapshot C σ E α → Prop
  /-- What a commit may do to the committed state under the locks it holds. -/
  Guar : List K → Snapshot C σ E α → Snapshot C σ E α → Prop
  /-- What is known of an open transaction whose next statement locks the given rows. -/
  Local : Context C σ K E → (σ → List K) → Snapshot C σ E α → Prop
  /-- What the condition on the run says when a statement with the given locks runs. -/
  Pre : Context C σ K E → List K → Snapshot C σ E α → Prop
  /-- What the condition on the run says when a transaction commits with an answer. -/
  PreCommit : Context C σ K E → α → Snapshot C σ E α → Prop

namespace Protocol

variable (P : Protocol C σ K E α)

/-- One commit of another transaction, as seen by a transaction that waits. -/
def Rely (t : Context C σ K E) (wants : σ → List K) (s s' : Snapshot C σ E α) : Prop :=
  (∃ held, t.held.Disjoint held ∧ P.Guar held s s') ∧ P.Inv s' ∧ P.Local t wants s'

/-- Any number of commits of other transactions. -/
def Interferes (t : Context C σ K E) (wants : σ → List K) :
    Snapshot C σ E α → Snapshot C σ E α → Prop :=
  Relation.ReflTransGen (P.Rely t wants)

/-- Any number of commits under locks that leave the rows `mine` alone. -/
def After (mine : List K) : Snapshot C σ E α → Snapshot C σ E α → Prop :=
  Relation.ReflTransGen fun s s' => (∃ held, mine.Disjoint held ∧ P.Guar held s s') ∧ P.Inv s'

variable {P}

/-- Interference leaves the locked rows alone. -/
theorem Interferes.after {t : Context C σ K E} {wants : σ → List K} {s s' : Snapshot C σ E α}
    (h : P.Interferes t wants s s') : P.After t.held s s' :=
  Relation.ReflTransGen.mono (fun _ _ hstep => ⟨hstep.1, hstep.2.1⟩) _ _ h

/-- Commits that leave many rows alone leave fewer rows alone. -/
theorem After.mono {mine less : List K} (hless : less ⊆ mine) {s s' : Snapshot C σ E α}
    (h : P.After mine s s') : P.After less s s' :=
  Relation.ReflTransGen.mono
    (fun _ _ ⟨⟨held, hdisj, hguar⟩, hinv⟩ =>
      ⟨⟨held, fun _ hk => hdisj (hless hk), hguar⟩, hinv⟩) _ _ h

/-- A relation that is reflexive, transitive and contains every tolerated commit
contains any number of them. -/
theorem After.of_guar {mine : List K} {s s' : Snapshot C σ E α}
    {R : Snapshot C σ E α → Snapshot C σ E α → Prop} (hrefl : ∀ a, R a a)
    (htrans : ∀ a b c, R a b → R b c → R a c)
    (hguar : ∀ held a b, mine.Disjoint held → P.Guar held a b → P.Inv b → R a b)
    (h : P.After mine s s') : R s s' := by
  induction h with
  | refl => exact hrefl s
  | tail _ hstep ih =>
    obtain ⟨⟨held, hdisj, hg⟩, hinv⟩ := hstep
    exact htrans _ _ _ ih (hguar held _ _ hdisj hg hinv)

variable (P)

/-- The program runs correctly from `s` on: before each statement the committed
state may have changed, and at the end `Q` holds. -/
def Wp (Q : Context C σ K E → β → Snapshot C σ E α → Prop) :
    Program σ K E ε β → Context C σ K E → Snapshot C σ E α → Prop
  | .done b, t, s => Q t b s
  | .fail _, t, s => P.Local t (fun _ => []) s
  | .statement locks write next, t, s =>
    P.Local t locks s ∧
    ∀ s', P.Interferes t locks s s' → P.Inv s' → P.Local t locks s' →
      P.Pre t (locks (t.view s')) s' →
      Wp Q (next (t.view s')) (t.wrote (locks (t.view s')) (write (t.view s'))) s'
  | .enqueue job next, t, s =>
    P.Local t (fun _ => []) s ∧
    ∀ s', P.Interferes t (fun _ => []) s s' → P.Inv s' → P.Local t (fun _ => []) s' →
      Wp Q next (t.added job) s'

/-- The transaction may commit: whenever it does, the invariant holds afterwards
and the commit is one that the protocol allows under the locks held. -/
def Commits (m : Machine C σ K E ε α) (t : Context C σ K E) (a : α) (s : Snapshot C σ E α) :
    Prop :=
  P.Local t (fun _ => []) s ∧
  ∀ s', P.Interferes t (fun _ => []) s s' → P.Inv s' → P.Local t (fun _ => []) s' →
    P.PreCommit t a s' →
    P.Inv (s'.commit t a (m.dispatched a)) ∧
    P.Guar t.held s' (s'.commit t a (m.dispatched a))

variable {P}

/-- A sequence is correct when its first part establishes that the second one is. -/
theorem wp_bind (Q : Context C σ K E → γ → Snapshot C σ E α → Prop) (p : Program σ K E ε β)
    (f : β → Program σ K E ε γ) (t : Context C σ K E) (s : Snapshot C σ E α) :
    P.Wp Q (p.bind f) t s ↔ P.Wp (fun t b s => P.Wp Q (f b) t s) p t s := by
  induction p generalizing t s with
  | done b => exact Iff.rfl
  | fail e => exact Iff.rfl
  | statement locks write next ih =>
    simp only [Program.bind, Wp]
    constructor
    · rintro ⟨hlocal, hnext⟩
      exact ⟨hlocal, fun s' hs hi hl hp => (ih _ _ s').mp (hnext s' hs hi hl hp)⟩
    · rintro ⟨hlocal, hnext⟩
      exact ⟨hlocal, fun s' hs hi hl hp => (ih _ _ s').mpr (hnext s' hs hi hl hp)⟩
  | enqueue job next ih =>
    simp only [Program.bind, Wp]
    constructor
    · rintro ⟨hlocal, hnext⟩
      exact ⟨hlocal, fun s' hs hi hl => (ih _ s').mp (hnext s' hs hi hl)⟩
    · rintro ⟨hlocal, hnext⟩
      exact ⟨hlocal, fun s' hs hi hl => (ih _ s').mpr (hnext s' hs hi hl)⟩

/-- The rule of a `SELECT` without locks, with what is known of the waiting transaction. -/
theorem wp_read {Q : Context C σ K E → γ → Snapshot C σ E α → Prop} {f : σ → β}
    {g : β → Program σ K E ε γ} {t : Context C σ K E} {s : Snapshot C σ E α}
    (hlocal : P.Local t (fun _ => []) s)
    (h : ∀ s', P.After t.held s s' → P.Inv s' → P.Local t (fun _ => []) s' →
      P.Wp Q (g (f (t.view s'))) t s') :
    P.Wp Q ((Program.select f).bind g) t s := by
  refine ⟨hlocal, fun s' hs hinv hl _ => ?_⟩
  have hnext := h s' hs.after hinv hl
  rw [Context.wrote_select]
  exact hnext

/-- The rule of a `SELECT` without locks. -/
theorem wp_select {Q : Context C σ K E → γ → Snapshot C σ E α → Prop} {f : σ → β}
    {g : β → Program σ K E ε γ} {t : Context C σ K E} {s : Snapshot C σ E α}
    (hlocal : P.Local t (fun _ => []) s)
    (h : ∀ s', P.After t.held s s' → P.Inv s' → P.Wp Q (g (f (t.view s'))) t s') :
    P.Wp Q ((Program.select f).bind g) t s :=
  wp_read hlocal fun s' hs hinv _ => h s' hs hinv

/-- The rule of a `SELECT ... FOR UPDATE` whose rows do not depend on the database. -/
theorem wp_selectForUpdate {Q : Context C σ K E → γ → Snapshot C σ E α → Prop} {locks : List K}
    {f : σ → β} {g : β → Program σ K E ε γ} {t : Context C σ K E} {s : Snapshot C σ E α}
    (hlocal : P.Local t (fun _ => locks) s)
    (h : ∀ s', P.After t.held s s' → P.Inv s' → P.Local t (fun _ => locks) s' →
      P.Pre t locks s' → P.Wp Q (g (f (t.view s'))) (t.wrote locks fun db => db) s') :
    P.Wp Q ((Program.selectForUpdate (fun _ => locks) f).bind g) t s :=
  ⟨hlocal, fun s' hs hinv hl hp => h s' hs.after hinv hl hp⟩

/-- The rule of a statement that writes. -/
theorem wp_write {Q : Context C σ K E → γ → Snapshot C σ E α → Prop} {locks : σ → List K}
    {change : σ → σ → σ} {f : σ → β} {g : β → Program σ K E ε γ} {t : Context C σ K E}
    {s : Snapshot C σ E α} (hlocal : P.Local t locks s)
    (h : ∀ s', P.After t.held s s' → P.Inv s' → P.Local t locks s' →
      P.Pre t (locks (t.view s')) s' →
      P.Wp Q (g (f (t.view s'))) (t.wrote (locks (t.view s')) (change (t.view s'))) s') :
    P.Wp Q ((Program.write locks change f).bind g) t s :=
  ⟨hlocal, fun s' hs hinv hl hp => h s' hs.after hinv hl hp⟩

/-- The rule of a statement that the database may refuse. -/
theorem wp_attempt {Q : Context C σ K E → γ → Snapshot C σ E α → Prop} {locks : σ → List K}
    {refused : σ → Bool} {change : σ → σ} {error : ε} {g : Unit → Program σ K E ε γ}
    {t : Context C σ K E} {s : Snapshot C σ E α} (hlocal : P.Local t locks s)
    (hrefused : ∀ s', P.Local t locks s' →
      P.Local (t.wrote (locks (t.view s')) fun db => db) (fun _ => []) s')
    (h : ∀ s', P.After t.held s s' → P.Inv s' → P.Local t locks s' →
      P.Pre t (locks (t.view s')) s' → refused (t.view s') = false →
      P.Wp Q (g ()) (t.wrote (locks (t.view s')) change) s') :
    P.Wp Q ((Program.attempt locks refused change error).bind g) t s := by
  rw [Program.attempt, Program.bind_assoc]
  refine wp_write hlocal fun s' hs hinv hl hp => ?_
  cases hr : refused (t.view s') with
  | true => exact hrefused s' hl
  | false => exact h s' hs hinv hl hp hr

/-- A program whose writes all belong to a class that is closed under composition. What
is known of the waiting transaction must not depend on the statement it waits for. -/
theorem wp_of_writes {Q : Context C σ K E → β → Snapshot C σ E α → Prop}
    {W : (σ → σ) → Prop} {Φ : σ → List K → (σ → σ) → Prop}
    (hcomp : ∀ f g, W f → W g → W fun db => g (f db))
    (hlocal : ∀ u u' wants wants' v, Context.Extends u' u → P.Local u wants v →
      P.Local u' wants' v)
    {p : Program σ K E ε β} (hp : p.Writes Φ) {t : Context C σ K E}
    (hΦ : ∀ u v locks change, Context.Extends u t → P.Pre u locks v → Φ (u.view v) locks change →
      W change)
    {s : Snapshot C σ E α} (hinv : P.Inv s) (hknown : P.Local t (fun _ => []) s) (hlog : W t.log)
    (hQ : ∀ u b v, Context.Extends u t → P.After t.held s v → P.Inv v →
      P.Local u (fun _ => []) v → W u.log → Q u b v) : P.Wp Q p t s := by
  induction p generalizing t s with
  | done b => exact hQ t b s (.refl t) .refl hinv hknown hlog
  | fail e => exact hknown
  | statement locks write next ih =>
    refine ⟨hlocal _ _ _ _ _ (.refl t) hknown, fun v hv hinv' hl hpre => ?_⟩
    have hext := t.extends_wrote (locks (t.view v)) (write (t.view v))
    refine ih _ (hp (t.view v)).2 ?_ hinv' (hlocal _ _ _ _ _ hext hl) ?_ ?_
    · exact fun u w locks' change hu => hΦ u w locks' change (hu.trans hext)
    · have hwrite := hΦ t v _ _ (.refl t) hpre (hp (t.view v)).1
      exact hcomp t.log (write (t.view v)) hlog hwrite
    · intro u b w hu hw
      exact hQ u b w (hu.trans hext) (hv.after.trans (hw.mono hext.held))
  | enqueue job next ih =>
    refine ⟨hknown, fun v hv hinv' hl => ?_⟩
    have hext : (t.added job).Extends t := ⟨rfl, rfl, fun _ h => h⟩
    refine ih hp ?_ hinv' (hlocal _ _ _ _ _ hext hl) hlog ?_
    · exact fun u w locks' change hu => hΦ u w locks' change (hu.trans hext)
    · intro u b w hu hw
      exact hQ u b w (hu.trans hext) (hv.after.trans (hw.mono hext.held))

/-- A program each of whose statements writes within the rows that it locks. -/
theorem wp_of_frame {Q : Context C σ K E → β → Snapshot C σ E α → Prop}
    {F : List K → (σ → σ) → Prop} (hlocal : ∀ t wants s, P.Local t wants s)
    (hmono : ∀ held more change, held ⊆ more → F held change → F more change)
    (hcomp : ∀ held f g, F held f → F held g → F held fun db => g (f db))
    {p : Program σ K E ε β} (hp : p.Writes fun _ locks change => F locks change)
    {t : Context C σ K E} {s : Snapshot C σ E α} (hlog : F t.held t.log)
    (hQ : ∀ u b v, u.call = t.call → F u.held u.log → Q u b v) : P.Wp Q p t s := by
  induction p generalizing t s with
  | done b => exact hQ t b s rfl hlog
  | fail e => exact hlocal t _ s
  | statement locks write next ih =>
    refine ⟨hlocal t _ s, fun v _ _ _ _ => ?_⟩
    obtain ⟨hwrite, hnext⟩ := hp (t.view v)
    refine ih _ hnext ?_ hQ
    refine hcomp _ t.log (write (t.view v)) ?_ ?_
    · exact hmono _ _ _ (List.subset_append_left _ _) hlog
    · exact hmono _ _ _ (List.subset_append_right _ _) hwrite
  | enqueue job next ih =>
    exact ⟨hlocal t _ s, fun v _ _ _ => ih hp hlog hQ⟩

variable {m : Machine C σ K E ε α}

/-- A commit may be judged at the moment at which it happens. -/
theorem commits_of_after {t : Context C σ K E} {a : α} {s : Snapshot C σ E α}
    (hlocal : P.Local t (fun _ => []) s)
    (h : ∀ s', P.After t.held s s' → P.Inv s' → P.Local t (fun _ => []) s' → P.PreCommit t a s' →
      P.Inv (s'.commit t a (m.dispatched a)) ∧
      P.Guar t.held s' (s'.commit t a (m.dispatched a))) : P.Commits m t a s :=
  ⟨hlocal, fun s' hs hinv hl hp => h s' hs.after hinv hl hp⟩

/-- What is known of a correct transaction at its next statement. -/
theorem local_of_wp {p : Program σ K E ε α} {t : Context C σ K E} {s : Snapshot C σ E α}
    (h : P.Wp (P.Commits m) p t s) : P.Local t p.wants s := by
  cases p with
  | done a => exact h.1
  | fail e => exact h
  | statement locks write next => exact h.1
  | enqueue job next => exact h.1

/-- A correct transaction stays correct while others commit. -/
theorem wp_of_rely {p : Program σ K E ε α} {t : Context C σ K E} {s s' : Snapshot C σ E α}
    (h : P.Wp (P.Commits m) p t s) (hrely : P.Rely t p.wants s s') :
    P.Wp (P.Commits m) p t s' := by
  cases p with
  | done a => exact ⟨hrely.2.2, fun s'' hs => h.2 s'' (.head hrely hs)⟩
  | fail e => exact hrely.2.2
  | statement locks write next => exact ⟨hrely.2.2, fun s'' hs => h.2 s'' (.head hrely hs)⟩
  | enqueue job next => exact ⟨hrely.2.2, fun s'' hs => h.2 s'' (.head hrely hs)⟩

/-- When at most one element of a list contributes, and at most once, so does the list. -/
theorem countP_flatMap_le_one {f : β → List γ} {p : γ → Bool} {xs : List β} (hnodup : xs.Nodup)
    (hone : ∀ x ∈ xs, (f x).countP p ≤ 1)
    (hunique : ∀ x ∈ xs, ∀ y ∈ xs, (f x).countP p ≠ 0 → (f y).countP p ≠ 0 → x = y) :
    (xs.flatMap f).countP p ≤ 1 := by
  induction xs with
  | nil => simp
  | cons x xs ih =>
    obtain ⟨hfresh, hrest⟩ := List.nodup_cons.mp hnodup
    rw [List.flatMap_cons, List.countP_append]
    by_cases hx : (f x).countP p = 0
    · have h := ih hrest (fun y hy => hone y (List.mem_cons_of_mem x hy)) fun y hy z hz =>
        hunique y (List.mem_cons_of_mem x hy) z (List.mem_cons_of_mem x hz)
      omega
    · -- nobody else contributes
      have hzero : (xs.flatMap f).countP p = 0 := by
        rw [List.countP_eq_zero]
        intro z hz hpz
        obtain ⟨y, hy, hzy⟩ := List.mem_flatMap.mp hz
        have hne : (f y).countP p ≠ 0 := fun h => List.countP_eq_zero.mp h z hzy hpz
        have heq := hunique x (List.mem_cons_self ..) y (List.mem_cons_of_mem x hy) hx hne
        exact hfresh (heq ▸ hy)
      have h := hone x (List.mem_cons_self ..)
      omega

/-- The invariant of a whole system: the committed state is good, every open
transaction is correct, and no row is locked twice. -/
structure Consistent (P : Protocol C σ K E α) (m : Machine C σ K E ε α)
    (s : System C σ K E ε α) : Prop where
  /-- The invariant of the committed state. -/
  inv : P.Inv s.toSnapshot
  /-- Every open transaction runs correctly to its end. -/
  wp : ∀ t ∈ s.active, P.Wp (P.Commits m) t.program t.toContext s.toSnapshot
  /-- Locks are exclusive. -/
  exclusive : ∀ t ∈ s.active, ∀ u ∈ s.active, t.id ≠ u.id → t.held.Disjoint u.held
  /-- Identifiers are distinct. -/
  nodup : (s.active.map fun t => t.id).Nodup
  /-- Identifiers in use are old. -/
  fresh : ∀ t ∈ s.active, t.id < s.nextId

/-- What has to be shown of a machine, a protocol and a condition on its runs:
each call starts a correct transaction, the condition implies what the protocol
assumes of single steps, and a commit keeps what is known of the transactions
that wait. -/
structure Sound (P : Protocol C σ K E α) (m : Machine C σ K E ε α)
    (cond : System C σ K E ε α → Event C → Prop) : Prop where
  /-- A call that may start runs correctly. -/
  starts : ∀ (s : System C σ K E ε α) (call : C), P.Consistent m s → cond s (.start call) →
    P.Wp (P.Commits m) (m.program call) (Context.opened s.nextId call s.commits.length)
      s.toSnapshot
  /-- What the condition says of a statement. -/
  pre : ∀ (s : System C σ K E ε α) (t : Transaction C σ K E ε α) (locks : σ → List K)
    (write : σ → σ → σ) (next : σ → Program σ K E ε α), P.Consistent m s → t ∈ s.active →
    t.program = .statement locks write next → cond s (.exec t.id) →
    P.Pre t.toContext (locks (t.view s.toSnapshot)) s.toSnapshot
  /-- What the condition says of a commit. -/
  preCommit : ∀ (s : System C σ K E ε α) (t : Transaction C σ K E ε α) (a : α),
    P.Consistent m s → t ∈ s.active → t.program = .done a → cond s (.exec t.id) →
    P.PreCommit t.toContext a s.toSnapshot
  /-- A commit keeps what is known of the other transactions. -/
  stable : ∀ (s : System C σ K E ε α) (t u : Transaction C σ K E ε α) (a : α),
    P.Consistent m s → t ∈ s.active → u ∈ s.active → u.id ≠ t.id → t.program = .done a →
    cond s (.exec t.id) → P.Inv (s.toSnapshot.commit t.toContext a (m.dispatched a)) →
    P.Guar t.held s.toSnapshot (s.toSnapshot.commit t.toContext a (m.dispatched a)) →
    P.Local u.toContext u.program.wants (s.toSnapshot.commit t.toContext a (m.dispatched a))

variable {cond : System C σ K E ε α → Event C → Prop}

namespace Consistent

/-- Two open transactions with the same identifier are the same. -/
theorem eq_of_id {s : System C σ K E ε α} (h : P.Consistent m s) {t u : Transaction C σ K E ε α}
    (ht : t ∈ s.active) (hu : u ∈ s.active) (hid : t.id = u.id) : t = u :=
  List.inj_on_of_nodup_map h.nodup ht hu hid

/-- An open transaction is found under its identifier. -/
theorem find_of_mem {s : System C σ K E ε α} (h : P.Consistent m s)
    {t : Transaction C σ K E ε α} (ht : t ∈ s.active) : s.find t.id = some t :=
  System.find_of_nodup h.nodup ht

/-- A job that is only enqueued under the lock of a row is enqueued by at most one of the
open transactions. -/
theorem countP_out_le_one {s : System C σ K E ε α} (h : P.Consistent m s) {p : E → Bool} {k : K}
    (hout : ∀ t ∈ s.active, t.out.countP p = 0 ∨ t.out.countP p = 1 ∧ k ∈ t.held) :
    (s.active.flatMap fun t => t.out).countP p ≤ 1 := by
  refine countP_flatMap_le_one (List.Nodup.of_map _ h.nodup) ?_ ?_
  · intro t ht
    rcases hout t ht with hnone | hone
    · omega
    · omega
  · intro t ht u hu hnt hnu
    have hkt := (hout t ht).resolve_left hnt
    have hku := (hout u hu).resolve_left hnu
    by_contra hne
    have hid : t.id ≠ u.id := fun heq => hne (h.eq_of_id ht hu heq)
    exact h.exclusive t ht u hu hid hkt.2 hku.2

/-- A correct transaction may replace an open one of the same identifier, when it
took no lock that another one holds. -/
theorem replace {s : System C σ K E ε α} (h : P.Consistent m s) {t : Transaction C σ K E ε α}
    (ht : ∃ u ∈ s.active, u.id = t.id)
    (hwp : P.Wp (P.Commits m) t.program t.toContext s.toSnapshot)
    (hheld : ∀ u ∈ s.active, u.id ≠ t.id → t.held.Disjoint u.held) :
    P.Consistent m (s.replace t) where
  inv := h.inv
  wp := by
    intro u hu
    obtain ⟨v, hv, rfl⟩ := List.mem_map.mp hu
    by_cases hid : v.id = t.id
    · simpa [hid] using hwp
    · simpa [hid] using h.wp v hv
  exclusive := by
    intro u hu w hw hne
    obtain ⟨u', hu', rfl⟩ := List.mem_map.mp hu
    obtain ⟨w', hw', rfl⟩ := List.mem_map.mp hw
    by_cases hid : u'.id = t.id <;> by_cases hid' : w'.id = t.id
    · simp [hid, hid'] at hne
    · simpa [hid, hid'] using hheld w' hw' hid'
    · simpa [hid, hid'] using List.disjoint_symm (hheld u' hu' hid)
    · simp only [hid, hid', beq_iff_eq, if_false] at hne ⊢
      exact h.exclusive u' hu' w' hw' hne
  nodup := by
    have hids : (s.replace t).active.map (fun u => u.id) = s.active.map fun u => u.id := by
      simp only [System.replace, List.map_map]
      apply List.map_congr_left
      intro u _
      by_cases hid : u.id = t.id <;> simp [hid]
    rw [hids]
    exact h.nodup
  fresh := by
    obtain ⟨v, hv, hvt⟩ := ht
    intro u hu
    obtain ⟨w, hw, rfl⟩ := List.mem_map.mp hu
    by_cases hid : w.id = t.id
    · simpa [hid, hvt] using h.fresh v hv
    · simpa [hid] using h.fresh w hw

/-- Forgetting a transaction keeps the system consistent. -/
theorem drop {s : System C σ K E ε α} (h : P.Consistent m s) (id : ℕ) :
    P.Consistent m (s.drop id) where
  inv := h.inv
  wp := fun t ht => h.wp t (List.mem_filter.mp ht).1
  exclusive := fun t ht u hu =>
    h.exclusive t (List.mem_filter.mp ht).1 u (List.mem_filter.mp hu).1
  nodup := h.nodup.sublist (List.filter_sublist.map _)
  fresh := fun t ht => h.fresh t (List.mem_filter.mp ht).1

end Consistent

/-- What a commit of an open transaction of a consistent system does. -/
theorem commit_of_consistent (hsound : P.Sound m cond) {s : System C σ K E ε α}
    (h : P.Consistent m s) {t : Transaction C σ K E ε α} {a : α} (ht : t ∈ s.active)
    (hp : t.program = .done a) (hcond : cond s (.exec t.id)) :
    P.Inv (s.toSnapshot.commit t.toContext a (m.dispatched a)) ∧
    P.Guar t.held s.toSnapshot (s.toSnapshot.commit t.toContext a (m.dispatched a)) := by
  have hwp := h.wp t ht
  rw [hp] at hwp
  exact hwp.2 _ .refl h.inv hwp.1 (hsound.preCommit s t a h ht hp hcond)

variable [DecidableEq K]

/-- **Step lemma:** a step that meets the condition keeps the system consistent. -/
theorem consistent_of_step (hsound : P.Sound m cond) {s s' : System C σ K E ε α} {e : Event C}
    (h : P.Consistent m s) (hcond : cond s e) (hstep : m.step s e = some s') :
    P.Consistent m s' := by
  cases Machine.moves_of_step hstep with
  | start call =>
    refine ⟨h.inv, ?_, ?_, ?_, ?_⟩
    · intro t ht
      rcases List.mem_append.mp ht with ht | ht
      · exact h.wp t ht
      · obtain rfl := List.mem_singleton.mp ht
        exact hsound.starts s call h hcond
    · intro t ht u hu hne
      rcases List.mem_append.mp ht with ht | ht <;> rcases List.mem_append.mp hu with hu | hu
      · exact h.exclusive t ht u hu hne
      · obtain rfl := List.mem_singleton.mp hu
        simp
      · obtain rfl := List.mem_singleton.mp ht
        simp
      · obtain rfl := List.mem_singleton.mp ht
        obtain rfl := List.mem_singleton.mp hu
        exact absurd rfl hne
    · simp only [List.map_append, List.map_cons, List.map_nil, List.nodup_append]
      refine ⟨h.nodup, by simp, ?_⟩
      intro i hi j hj
      obtain ⟨t, ht, rfl⟩ := List.mem_map.mp hi
      obtain rfl := List.mem_singleton.mp hj
      exact Nat.ne_of_lt (h.fresh t ht)
    · intro t ht
      rcases List.mem_append.mp ht with ht | ht
      · exact Nat.lt_succ_of_lt (h.fresh t ht)
      · obtain rfl := List.mem_singleton.mp ht
        exact Nat.lt_succ_self _
  | commit t a ht hp =>
    obtain ⟨hinv, hguar⟩ := commit_of_consistent hsound h ht hp hcond
    refine ⟨hinv, ?_, (h.drop t.id).exclusive, (h.drop t.id).nodup, (h.drop t.id).fresh⟩
    intro u hu
    obtain ⟨hu, hne⟩ := List.mem_filter.mp hu
    have hid : u.id ≠ t.id := by simpa using hne
    have hlocal := hsound.stable s t u a h ht hu hid hp hcond hinv hguar
    have hdisj : u.held.Disjoint t.held := h.exclusive u hu t ht hid
    exact wp_of_rely (h.wp u hu) ⟨⟨t.held, hdisj, hguar⟩, hinv, hlocal⟩
  | statement t locks write next ht hp hfree =>
    have hwp := h.wp t ht
    rw [hp] at hwp
    have hpre := hsound.pre s t locks write next h ht hp hcond
    have hnext := hwp.2 _ .refl h.inv hwp.1 hpre
    refine h.replace ⟨t, ht, rfl⟩ hnext ?_
    intro u hu hid k hk hku
    rcases List.mem_append.mp hk with hk | hk
    · exact h.exclusive t ht u hu (fun heq => hid heq.symm) hk hku
    · have hblocked : s.blocked t = true := by
        simp only [System.blocked, hp, Program.wants, List.any_eq_true, Bool.and_eq_true,
          bne_iff_ne]
        exact ⟨u, hu, hid, k, hk, by simpa using hku⟩
      rw [hblocked] at hfree
      cases hfree
  | enqueue t job next ht hp =>
    have hwp := h.wp t ht
    rw [hp] at hwp
    have hnext := hwp.2 _ .refl h.inv hwp.1
    refine h.replace ⟨t, ht, rfl⟩ hnext ?_
    intro u hu hid
    exact h.exclusive t ht u hu (fun heq => hid heq.symm)
  | rollback _ t ht => exact h.drop t.id

/-- **Run lemma:** every state that a run under the condition reaches is consistent. -/
theorem consistent_of_reaches (hsound : P.Sound m cond) {s s' : System C σ K E ε α}
    (h : P.Consistent m s) (hreach : m.Reaches cond s s') : P.Consistent m s' := by
  induction hreach with
  | refl => exact h
  | tail _ hstep ih =>
    obtain ⟨e, hcond, hs⟩ := hstep
    exact consistent_of_step hsound ih hcond hs

omit [DecidableEq K] in
/-- The idle system is consistent when its database is good. -/
theorem consistent_idle {db : σ} (h : P.Inv ⟨db, []⟩) :
    P.Consistent m (System.idle db : System C σ K E ε α) where
  inv := h
  wp := by simp [System.idle]
  exclusive := by simp [System.idle]
  nodup := by simp [System.idle]
  fresh := by simp [System.idle]

/-- A step that meets the condition leaves the committed state as it is, or is a
commit that the protocol allows. -/
theorem guar_of_step (hsound : P.Sound m cond) {s s' : System C σ K E ε α} {e : Event C}
    (h : P.Consistent m s) (hcond : cond s e) (hstep : m.step s e = some s') :
    s'.toSnapshot = s.toSnapshot ∨ ∃ held, P.Guar held s.toSnapshot s'.toSnapshot := by
  cases Machine.moves_of_step hstep with
  | start call => exact .inl rfl
  | commit t a ht hp => exact .inr ⟨t.held, (commit_of_consistent hsound h ht hp hcond).2⟩
  | statement t locks write next ht hp hfree => exact .inl rfl
  | enqueue t job next ht hp => exact .inl rfl
  | rollback _ t ht => exact .inl rfl

section Alone

omit [DecidableEq K]

/-- The protocol of a transaction with nobody else on the database. -/
def alone : Protocol C σ K E α where
  Inv := fun _ => True
  Guar := fun _ _ _ => False
  Local := fun _ _ _ => True
  Pre := fun _ _ _ => True
  PreCommit := fun _ _ _ => True

/-- Nothing happens beside a transaction that runs alone. -/
theorem eq_of_after_alone {mine : List K} {s s' : Snapshot C σ E α}
    (h : (alone : Protocol C σ K E α).After mine s s') : s' = s := by
  induction h with
  | refl => rfl
  | tail _ hstep _ =>
    obtain ⟨⟨_, _, hguar⟩, _⟩ := hstep
    exact hguar.elim

/-- A correct program does what its verdict says when it runs alone. -/
theorem run_of_wp {Q : Context C σ K E → β → Snapshot C σ E α → Prop}
    {p : Program σ K E ε β} {t : Context C σ K E} {s : Snapshot C σ E α}
    (h : (alone : Protocol C σ K E α).Wp Q p t s) {b : β} {db' : σ} {jobs : List E}
    (hrun : p.run (t.log s.db) = .ok (b, db', jobs)) :
    ∃ u, Q u b s ∧ u.log s.db = db' ∧ u.out = t.out ++ jobs := by
  induction p generalizing t jobs with
  | done b' =>
    cases hrun
    exact ⟨t, h, rfl, (List.append_nil _).symm⟩
  | fail e => cases hrun
  | statement locks write next ih =>
    exact ih _ (h.2 s .refl trivial trivial trivial) hrun
  | enqueue job next ih =>
    simp only [Program.run] at hrun
    cases hnext : next.run (t.log s.db) with
    | error e =>
      rw [hnext] at hrun
      cases hrun
    | ok out =>
      obtain ⟨b', db'', more⟩ := out
      rw [hnext] at hrun
      cases hrun
      obtain ⟨u, hQ, hlog, hout⟩ := ih (h.2 s .refl trivial trivial) hnext
      exact ⟨u, hQ, hlog, by simp [hout]⟩

end Alone

end Protocol

end Database
