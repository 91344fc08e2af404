import Mathlib.Logic.Relation
import Mathlib.Data.List.Basic

/-!
# Recursive union queries on a graph

A finite graph is a list of edges. `closure` evaluates the recursive common table
expression that starts from given nodes and follows edges with `UNION` until a
round adds nothing; it finds exactly the nodes that the edges lead to. The rest is
about graphs that gain edges: when that can close a cycle, and which nodes become
reachable.
-/

namespace Database.Graph

variable {α : Type}

/-- There is an edge from `a` to `b`. -/
def Edge (edges : List (α × α)) (a b : α) : Prop := (a, b) ∈ edges

/-- Edges lead from `a` to `b`, in any number of steps. -/
def Leads (edges : List (α × α)) : α → α → Prop := Relation.ReflTransGen (Edge edges)

/-- No node leads back to itself in one or more steps. -/
def Acyclic (edges : List (α × α)) : Prop := ∀ a, ¬Relation.TransGen (Edge edges) a a

section Closure

variable [DecidableEq α]

/-- The rounds of the recursive query. Each round adds the ends of the edges that
start in what has been found; the query stops when there is no such edge left. -/
def closureFrom : ℕ → List (α × α) → List α → List α
  | 0, _, found => found
  | n + 1, edges, found =>
    let used := edges.filter fun e => e.1 ∈ found
    if used.isEmpty then found
    else closureFrom n (edges.filter fun e => e.1 ∉ found) (found ++ used.map Prod.snd)

/-- `WITH RECURSIVE`: the given nodes and all nodes that edges lead to from them. -/
def closure (edges : List (α × α)) (seeds : List α) : List α :=
  closureFrom edges.length edges seeds

/-- A round loses no node: what is led to from the nodes found, along all edges, is led
to from the nodes found after the round along the edges that are left. -/
theorem leads_after_round {edges : List (α × α)} {found : List α} {s x : α} (hs : s ∈ found)
    (h : Leads edges s x) :
    ∃ t ∈ found ++ (edges.filter fun e => e.1 ∈ found).map Prod.snd,
      Leads (edges.filter fun e => e.1 ∉ found) t x := by
  induction h with
  | refl => exact ⟨s, List.mem_append_left _ hs, .refl⟩
  | @tail y z _ hedge ih =>
    obtain ⟨t, ht, hty⟩ := ih
    by_cases hy : y ∈ found
    · refine ⟨z, List.mem_append_right _ ?_, .refl⟩
      exact List.mem_map.mpr ⟨(y, z), List.mem_filter.mpr ⟨hedge, by simpa using hy⟩, rfl⟩
    · exact ⟨t, ht, hty.tail (List.mem_filter.mpr ⟨hedge, by simpa using hy⟩)⟩

/-- A round finds only nodes that edges lead to. -/
theorem leads_of_round {edges : List (α × α)} {found : List α} {t x : α}
    (ht : t ∈ found ++ (edges.filter fun e => e.1 ∈ found).map Prod.snd)
    (h : Leads (edges.filter fun e => e.1 ∉ found) t x) : ∃ s ∈ found, Leads edges s x := by
  have hx : Leads edges t x :=
    Relation.ReflTransGen.mono (fun _ _ hedge => (List.mem_filter.mp hedge).1) _ _ h
  rcases List.mem_append.mp ht with ht | ht
  · exact ⟨t, ht, hx⟩
  · obtain ⟨⟨s, t'⟩, hedge, rfl⟩ := List.mem_map.mp ht
    obtain ⟨hedge, hs⟩ := List.mem_filter.mp hedge
    exact ⟨s, by simpa using hs, .head hedge hx⟩

omit [DecidableEq α] in
/-- Without an edge that starts in what has been found, nothing more is led to. -/
theorem mem_of_leads {edges : List (α × α)} {found : List α}
    (hclosed : ∀ e ∈ edges, e.1 ∉ found) {s x : α} (hs : s ∈ found) (h : Leads edges s x) :
    x ∈ found := by
  induction h with
  | refl => exact hs
  | tail _ hedge ih => exact absurd ih (hclosed _ hedge)

/-- As many rounds as there are edges are enough. -/
theorem mem_closureFrom {n : ℕ} {edges : List (α × α)} {found : List α}
    (hn : edges.length ≤ n) (x : α) :
    x ∈ closureFrom n edges found ↔ ∃ s ∈ found, Leads edges s x := by
  induction n generalizing edges found with
  | zero =>
    obtain rfl : edges = [] := List.length_eq_zero_iff.mp (by omega)
    constructor
    · exact fun h => ⟨x, h, .refl⟩
    · rintro ⟨s, hs, h⟩
      exact mem_of_leads (by simp) hs h
  | succ n ih =>
    simp only [closureFrom]
    split
    · rename_i hnone
      have hclosed : ∀ e ∈ edges, e.1 ∉ found := by simpa using hnone
      constructor
      · exact fun h => ⟨x, h, .refl⟩
      · rintro ⟨s, hs, h⟩
        exact mem_of_leads hclosed hs h
    · rename_i hsome
      have hsplit := List.length_eq_length_filter_add (l := edges) fun e => decide (e.1 ∈ found)
      have hused : (edges.filter fun e => e.1 ∈ found).length ≠ 0 := by
        simpa only [List.isEmpty_iff_length_eq_zero] using hsome
      have hleft : (edges.filter fun e => e.1 ∉ found).length ≤ n := by
        have hnot : (edges.filter fun e => e.1 ∉ found) =
            edges.filter fun e => !decide (e.1 ∈ found) := by simp
        rw [hnot]
        omega
      rw [ih hleft]
      constructor
      · rintro ⟨t, ht, h⟩
        exact leads_of_round ht h
      · rintro ⟨s, hs, h⟩
        exact leads_after_round hs h

/-- The recursive query finds exactly the nodes that edges lead to. -/
theorem mem_closure {edges : List (α × α)} {seeds : List α} {x : α} :
    x ∈ closure edges seeds ↔ ∃ s ∈ seeds, Leads edges s x :=
  mem_closureFrom (Nat.le_refl _) x

end Closure

/-- A graph without further edges is as acyclic as before. -/
theorem Acyclic.mono {edges edges' : List (α × α)} (h : Acyclic edges)
    (hsub : ∀ a b, Edge edges' a b → Edge edges a b) : Acyclic edges' :=
  fun a hcycle => h a (Relation.TransGen.mono hsub _ _ hcycle)

/-- When all new edges start in `n`, a node that does not lead to `n` leads nowhere new. -/
theorem Leads.of_attached {edges edges' : List (α × α)} {n : α}
    (hnew : ∀ a b, Edge edges' a b → Edge edges a b ∨ a = n) {x y : α}
    (hx : ¬Leads edges x n) (h : Leads edges' x y) : Leads edges x y := by
  induction h with
  | refl => exact .refl
  | @tail y z _ hedge ih =>
    rcases hnew y z hedge with hold | rfl
    · exact .tail ih hold
    · exact absurd ih hx

/-- A walk along old and new edges stays on old ones or takes a new one. -/
theorem walk_of_attached {edges edges' : List (α × α)} {n : α}
    (hnew : ∀ a b, Edge edges' a b → Edge edges a b ∨ a = n ∧ ¬Leads edges b n) {x y : α}
    (h : Relation.TransGen (Edge edges') x y) :
    Relation.TransGen (Edge edges) x y ∨
      ∃ b, ¬Leads edges b n ∧ Leads edges' x n ∧ Leads edges' b y := by
  induction h with
  | @single y hedge =>
    rcases hnew x y hedge with hold | ⟨rfl, hb⟩
    · exact .inl (.single hold)
    · exact .inr ⟨y, hb, .refl, .refl⟩
  | @tail y z hwalk hedge ih =>
    rcases hnew y z hedge with hold | ⟨rfl, hb⟩
    · rcases ih with hall | ⟨b, hb, hxn, hby⟩
      · exact .inl (.tail hall hold)
      · exact .inr ⟨b, hb, hxn, .tail hby hedge⟩
    · exact .inr ⟨z, hb, hwalk.to_reflTransGen, .refl⟩

/-- New edges from one node to nodes that do not lead to it close no cycle. -/
theorem Acyclic.attach {edges edges' : List (α × α)} (h : Acyclic edges) {n : α}
    (hnew : ∀ a b, Edge edges' a b → Edge edges a b ∨ a = n ∧ ¬Leads edges b n) :
    Acyclic edges' := by
  intro x hcycle
  rcases walk_of_attached hnew hcycle with hold | ⟨b, hb, hxn, hbx⟩
  · exact h x hold
  · have hbn : Leads edges' b n := hbx.trans hxn
    exact hb (Leads.of_attached (fun a c hedge => (hnew a c hedge).imp_right And.left) hb hbn)

/-- A node that no edge ends in is only led to from itself. -/
theorem eq_of_leads_source {edges : List (α × α)} {n : α} (hnone : ∀ a, ¬Edge edges a n) {x : α}
    (h : Leads edges x n) : x = n := by
  cases h with
  | refl => rfl
  | tail _ hedge => exact absurd hedge (hnone _)

end Database.Graph
