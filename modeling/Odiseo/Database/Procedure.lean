import Odiseo.Database.Program

/-!
# Code that makes calls

A procedure is the tree of the calls that a piece of code makes to the systems around it:
what follows a call depends on the answer, and every call may be answered by an error.
An error leaves the procedure as an exception unless it is caught. What holds for every
run is stated over all answers, so that nothing is assumed about who else uses the
called systems in between.

The parameters are the calls `C` by the type of their answers and the errors `ε`.
-/

namespace Database

/-- A piece of code, as the calls it still has to make. -/
inductive Procedure (C : Type → Type) (ε α : Type) : Type 1
  /-- The code returned. -/
  | done (result : α)
  /-- An exception left the code. -/
  | fail (error : ε)
  /-- One call. -/
  | call {β : Type} (request : C β) (next : Except ε β → Procedure C ε α)

namespace Procedure

variable {C : Type → Type} {ε α β : Type}

/-- Run one procedure, then another that depends on its result. -/
def bind : Procedure C ε α → (α → Procedure C ε β) → Procedure C ε β
  | .done a, f => f a
  | .fail e, _ => .fail e
  | .call request next, f => .call request fun answer => (next answer).bind f

instance : Monad (Procedure C ε) where
  pure := .done
  bind := Procedure.bind

/-- A call whose error is thrown. -/
def perform (request : C β) : Procedure C ε β :=
  .call request fun
    | .ok b => .done b
    | .error e => .fail e

/-- An exception. -/
def throw (e : ε) : Procedure C ε α := .fail e

/-- `try` with its `catch` block. -/
def tryCatch : Procedure C ε α → (ε → Procedure C ε α) → Procedure C ε α
  | .done a, _ => .done a
  | .fail e, handler => handler e
  | .call request next, handler => .call request fun answer => (next answer).tryCatch handler

/-- The body of a loop, for one element after the other. -/
def forEach (body : β → Procedure C ε Unit) : List β → Procedure C ε Unit
  | [] => .done ()
  | x :: xs => (body x).bind fun _ => forEach body xs

@[simp] theorem pure_eq_done (a : α) : (pure a : Procedure C ε α) = .done a := rfl

@[simp] theorem bind_eq (p : Procedure C ε α) (f : α → Procedure C ε β) :
    p >>= f = p.bind f := rfl

/-- Run a procedure whose calls are all answered by one function, and list the calls. -/
def run (answer : ∀ {β : Type}, C β → Except ε β) :
    Procedure C ε α → Except ε α × List (Sigma C)
  | .done a => (.ok a, [])
  | .fail e => (.error e, [])
  | .call request next =>
    let rest := (next (answer request)).run answer
    (rest.1, ⟨_, request⟩ :: rest.2)

/-- Whatever the answers are, as long as `may` allows them, every call satisfies `Φ` and
every result `Ψ`. -/
def Ensures (may : ∀ {β : Type}, C β → Except ε β → Prop) (Φ : ∀ {β : Type}, C β → Prop)
    (Ψ : α → Prop) : Procedure C ε α → Prop
  | .done a => Ψ a
  | .fail _ => True
  | .call request next =>
    Φ request ∧ ∀ answer, may request answer → (next answer).Ensures may Φ Ψ

section Ensures

variable {may : ∀ {β : Type}, C β → Except ε β → Prop} {Φ : ∀ {β : Type}, C β → Prop}

/-- A weaker fact about the result holds as well. -/
theorem Ensures.imp {p : Procedure C ε α} {Ψ Ψ' : α → Prop} (hp : p.Ensures may Φ Ψ)
    (h : ∀ a, Ψ a → Ψ' a) : p.Ensures may Φ Ψ' := by
  induction p with
  | done a => exact h a hp
  | fail e => trivial
  | call request next ih =>
    constructor
    · exact hp.1
    · intro answer hanswer
      exact ih answer (hp.2 answer hanswer)

/-- The calls of a sequence are those of its parts. -/
theorem Ensures.bind {p : Procedure C ε α} {f : α → Procedure C ε β} {Ψ : α → Prop}
    {Χ : β → Prop} (hp : p.Ensures may Φ Ψ) (hf : ∀ a, Ψ a → (f a).Ensures may Φ Χ) :
    (p.bind f).Ensures may Φ Χ := by
  induction p with
  | done a => exact hf a hp
  | fail e => trivial
  | call request next ih =>
    constructor
    · exact hp.1
    · intro answer hanswer
      exact ih answer (hp.2 answer hanswer)

/-- The calls of the first part of a sequence are calls of the sequence. -/
theorem Ensures.of_bind {p : Procedure C ε α} {f : α → Procedure C ε β} {Χ : β → Prop}
    (h : (p.bind f).Ensures may Φ Χ) : p.Ensures may Φ fun _ => True := by
  induction p with
  | done a => trivial
  | fail e => trivial
  | call request next ih =>
    constructor
    · exact h.1
    · intro answer hanswer
      exact ih answer (h.2 answer hanswer)

/-- The calls of a caught procedure are its own and those of the `catch` block. -/
theorem Ensures.tryCatch {p : Procedure C ε α} {handler : ε → Procedure C ε α} {Ψ : α → Prop}
    (hp : p.Ensures may Φ Ψ) (hh : ∀ e, (handler e).Ensures may Φ Ψ) :
    (p.tryCatch handler).Ensures may Φ Ψ := by
  induction p with
  | done a => exact hp
  | fail e => exact hh e
  | call request next ih =>
    constructor
    · exact hp.1
    · intro answer hanswer
      exact ih answer (hp.2 answer hanswer)

/-- One call. -/
theorem ensures_perform {request : C β} {Ψ : β → Prop} (hΦ : Φ request)
    (hΨ : ∀ b, may request (.ok b) → Ψ b) :
    (perform request : Procedure C ε β).Ensures may Φ Ψ := by
  constructor
  · exact hΦ
  · intro answer hanswer
    cases answer with
    | ok b => exact hΨ b hanswer
    | error e => trivial

/-- The calls of a loop are those of its rounds. -/
theorem ensures_forEach {body : β → Procedure C ε Unit} {xs : List β}
    (h : ∀ x ∈ xs, (body x).Ensures may Φ fun _ => True) :
    (forEach body xs).Ensures may Φ fun _ => True := by
  induction xs with
  | nil => trivial
  | cons x xs ih =>
    apply (h x (by simp)).bind
    intro _ _
    apply ih
    intro y hy
    exact h y (List.mem_cons_of_mem x hy)

/-- A run with allowed answers makes only calls that satisfy `Φ`. -/
theorem Ensures.of_run {p : Procedure C ε α} {Ψ : α → Prop} (hp : p.Ensures may Φ Ψ)
    (answer : ∀ {β : Type}, C β → Except ε β)
    (hanswer : ∀ {β : Type} (request : C β), may request (answer request))
    {c : Sigma C} (hc : c ∈ (p.run answer).2) : Φ c.2 := by
  induction p with
  | done a => cases hc
  | fail e => cases hc
  | call request next ih =>
    rcases List.mem_cons.mp hc with rfl | hrest
    · exact hp.1
    · exact ih _ (hp.2 _ (hanswer request)) hrest

end Ensures

end Procedure

end Database
