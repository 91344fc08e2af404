import Odiseo.Database.System

/-!
# Replay of the committed calls

Any number of transactions run interleaved, and yet the committed state can be that of a run in
which the calls happened one after the other, at their commits. The calls act on an abstract state
`τ`: the replay of a history is the effect of its calls in the order of their commits.
-/

namespace Database

variable {C σ K E α τ : Type}

/-- The effects of the committed calls, one after the other. -/
def replay (effect : C → τ → τ) (start : τ) (commits : List (Commit C E α)) : τ :=
  commits.foldl (fun x c => effect c.call x) start

@[simp] theorem replay_nil (effect : C → τ → τ) (start : τ) :
    replay effect start ([] : List (Commit C E α)) = start := rfl

/-- The replay after one more commit. -/
theorem replay_commit (effect : C → τ → τ) (start : τ) (s : Snapshot C σ E α)
    (t : Context C σ K E) (a : α) (after : List E) :
    replay effect start (s.commit t a after).commits =
      effect t.call (replay effect start s.commits) := by
  simp [replay, List.foldl_append]

end Database
