import Mathlib.Data.List.Induction
import Mathlib.Logic.Function.Basic

/-!
# The lock of the scheduled jobs

`RedisDistributedLock`: every replica fires each tick of a job, and the work of the tick is
run by the replica that sets the key of the job in Redis. The key is not deleted when the
work ends, it expires. Time is counted in milliseconds of the clock of Redis.
-/

namespace Odiseo.Locking

/-- A key of Redis that was set with `PX`. -/
structure Entry where
  value : String
  expiresAt : ℕ
  deriving DecidableEq, Repr

/-- The keys of Redis. -/
abbrev Redis := String → Option Entry

/-- No key has been set. -/
def Redis.empty : Redis := fun _ => none

/-- The entry of a key, unless it has expired. -/
def Redis.get (db : Redis) (now : ℕ) (key : String) : Option Entry :=
  (db key).filter fun e => decide (now ≤ e.expiresAt)

/-- `SET key value NX PX px`, which answers with "OK" or null. -/
def Redis.set (db : Redis) (now : ℕ) (key value : String) (px : ℕ) : Option String × Redis :=
  if (db.get now key).isSome then (none, db)
  else (some "OK", Function.update db key (some ⟨value, now + px⟩))

/-- What becomes of a command that is sent to Redis. -/
inductive Link
  | answers
  /-- There is no client, or the command does not arrive. -/
  | unreachable
  /-- The command is performed, but its answer does not come back. -/
  | replyLost
  deriving DecidableEq, Repr

/-- `client.set` with `NX` and `PX`, which may throw. -/
def clientSet (link : Link) (now : ℕ) (key value : String) (px : ℕ) (db : Redis) :
    Except String (Option String) × Redis :=
  match link with
  | .answers => (.ok (db.set now key value px).1, (db.set now key value px).2)
  | .unreachable => (.error "ECONNREFUSED", db)
  | .replyLost => (.error "Socket closed", (db.set now key value px).2)

/-- `KEY_PREFIX`. -/
def keyPrefix : String := "lock:"

/-- `tryAcquire`: an exception counts as a lock that is taken. -/
def tryAcquire (link : Link) (now : ℕ) (key : String) (ttlMs : ℕ) (db : Redis) : Bool × Redis :=
  match clientSet link now (keyPrefix ++ key) "1" ttlMs db with
  | (.ok result, db) => (result.isSome, db)
  | (.error _, db) => (false, db)

/-- `runExclusively`, for a work that changes some state. -/
def runExclusively {σ β : Type} (link : Link) (now : ℕ) (key : String) (ttlMs : ℕ)
    (work : σ → β × σ) (s : Redis × σ) : Option β × Redis × σ :=
  match tryAcquire link now key ttlMs s.1 with
  | (false, db) => (none, db, s.2)
  | (true, db) => (some (work s.2).1, db, (work s.2).2)

/-- A tick that a replica fires: its call of `runExclusively`. -/
structure Call where
  replica : ℕ
  /-- The number of the tick. -/
  tick : ℕ
  key : String
  ttlMs : ℕ
  /-- When the timer of the replica fires and its command reaches Redis. -/
  time : ℕ
  link : Link
  deriving DecidableEq, Repr

/-- A call, whose work writes down which call it was run for. -/
def serve (s : Redis × List Call) (c : Call) : Redis × List Call :=
  (runExclusively c.link c.time c.key c.ttlMs (fun ran => ((), ran ++ [c])) s).2

/-- A run: the calls of all replicas, in the order in which Redis performs them. -/
def run (calls : List Call) : Redis × List Call := calls.foldl serve (Redis.empty, [])

/-- The calls whose work has been run. -/
def executed (calls : List Call) : List Call := (run calls).2

/-- How often the work of a tick of a job has been run. -/
def timesRun (key : String) (tick : ℕ) (ran : List Call) : ℕ :=
  ran.countP fun c => decide (c.key = key) && decide (c.tick = tick)

/-- The calls of a job with an interval and a TTL. Redis performs them in the order of time,
and the timers of the replicas differ by the skew at most. -/
structure Scheduled (key : String) (interval ttlMs skew : ℕ) (calls : List Call) : Prop where
  ordered : calls.Pairwise fun c d => c.time ≤ d.time
  ttl : ∀ c ∈ calls, c.key = key → c.ttlMs = ttlMs
  /-- The replica of one call is not later in its tick by more than the skew than the replica
  of another call in the tick of that one. -/
  skew : ∀ c ∈ calls, ∀ d ∈ calls, c.key = key → d.key = key →
    c.time + d.tick * interval ≤ d.time + c.tick * interval + skew

/-- `LOCK_KEY` of the materials cron. -/
def materialsLockKey : String := "cron:materials:auto-generate"

/-- `LOCK_TTL_MS` of the materials cron. -/
def materialsLockTtlMs : ℕ := 60 * 60 * 1000

/-- `RECONCILIATION_LOCK_KEY`. -/
def reconciliationLockKey : String := "cron:materials:reconciliation-sweep"

/-- `RECONCILIATION_LOCK_TTL_MS`. -/
def reconciliationLockTtlMs : ℕ := 10 * 60 * 1000

/-- `handleCron` of a replica, at midnight of a day. -/
def handleCron (replica day time : ℕ) (link : Link) : Call :=
  ⟨replica, day, materialsLockKey, materialsLockTtlMs, time, link⟩

/-- `handleReconciliationSweepCron` of a replica, every 15 minutes. -/
def handleReconciliationSweepCron (replica quarter time : ℕ) (link : Link) : Call :=
  ⟨replica, quarter, reconciliationLockKey, reconciliationLockTtlMs, time, link⟩

/-! ### What a call does -/

/-- A call whose command fails does not run the work. -/
theorem runExclusively_of_ne {σ β : Type} {link : Link} (h : link ≠ .answers) (now : ℕ)
    (key : String) (ttlMs : ℕ) (work : σ → β × σ) (s : Redis × σ) :
    (runExclusively link now key ttlMs work s).1 = none ∧
      (runExclusively link now key ttlMs work s).2.2 = s.2 := by
  cases link with
  | answers => exact absurd rfl h
  | unreachable => exact ⟨rfl, rfl⟩
  | replyLost => exact ⟨rfl, rfl⟩

/-- A call that does not reach Redis changes nothing. -/
theorem serve_of_unreachable {c : Call} (h : c.link = .unreachable) (s : Redis × List Call) :
    serve s c = s := by
  unfold serve runExclusively tryAcquire clientSet
  rw [h]

/-- A call that finds its key set changes nothing. -/
theorem serve_of_held {c : Call} {s : Redis × List Call}
    (h : (s.1.get c.time (keyPrefix ++ c.key)).isSome = true) : serve s c = s := by
  have hset : s.1.set c.time (keyPrefix ++ c.key) "1" c.ttlMs = (none, s.1) := by
    unfold Redis.set
    rw [if_pos h]
  unfold serve runExclusively tryAcquire clientSet
  rw [hset]
  cases c.link <;> rfl

/-- A call that finds its key free takes it, and runs the work when it hears of that. -/
theorem serve_of_free {c : Call} {s : Redis × List Call} (hlink : c.link ≠ .unreachable)
    (h : (s.1.get c.time (keyPrefix ++ c.key)).isSome = false) :
    serve s c = (Function.update s.1 (keyPrefix ++ c.key) (some ⟨"1", c.time + c.ttlMs⟩),
      if c.link = .answers then s.2 ++ [c] else s.2) := by
  have hset : s.1.set c.time (keyPrefix ++ c.key) "1" c.ttlMs =
      (some "OK", Function.update s.1 (keyPrefix ++ c.key) (some ⟨"1", c.time + c.ttlMs⟩)) := by
    unfold Redis.set
    rw [if_neg (by simp [h])]
  unfold serve runExclusively tryAcquire clientSet
  rw [hset]
  cases hl : c.link with
  | answers => rfl
  | unreachable => exact absurd hl hlink
  | replyLost => rfl

/-- The keys of different jobs are different. -/
theorem keyPrefix_append_ne {key key' : String} (h : key ≠ key') :
    keyPrefix ++ key ≠ keyPrefix ++ key' := by
  intro heq
  apply h
  have hlist : (keyPrefix ++ key).toList = (keyPrefix ++ key').toList := by rw [heq]
  rw [String.toList_append, String.toList_append] at hlist
  exact String.toList_injective (List.append_cancel_left hlist)

/-- A call of another job leaves the key of a job alone, and runs the job as often as before. -/
theorem serve_other {c : Call} {key : String} (hc : c.key ≠ key) (s : Redis × List Call) :
    (serve s c).1 (keyPrefix ++ key) = s.1 (keyPrefix ++ key) ∧
      (∀ d, d.key = key → (d ∈ (serve s c).2 ↔ d ∈ s.2)) ∧
        ∀ tick, timesRun key tick (serve s c).2 = timesRun key tick s.2 := by
  rcases eq_or_ne c.link .unreachable with hlink | hlink
  · rw [serve_of_unreachable hlink]
    exact ⟨rfl, fun _ _ => Iff.rfl, fun _ => rfl⟩
  cases hget : (s.1.get c.time (keyPrefix ++ c.key)).isSome with
  | true =>
    rw [serve_of_held hget]
    exact ⟨rfl, fun _ _ => Iff.rfl, fun _ => rfl⟩
  | false =>
    rw [serve_of_free hlink hget]
    refine ⟨Function.update_of_ne (keyPrefix_append_ne hc).symm _ _, ?_, ?_⟩
    · intro d hd
      have hne : d ≠ c := by
        rintro rfl
        exact hc hd
      dsimp only
      split <;> simp [hne]
    · intro tick
      dsimp only
      split
      · simp [timesRun, hc]
      · rfl

end Odiseo.Locking
