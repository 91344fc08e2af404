import Odiseo.Locking.RedisDistributedLock

/-!
# Every tick is run once

The key that the first call of a tick sets outlives the calls of the other replicas in the same
tick, because the skew is below the TTL, and it has expired when the next tick begins, because
the TTL and the skew together are below the interval.
-/

namespace Odiseo.Locking

/-- A prefix of a run of a job is a run of the job. -/
theorem Scheduled.init {key : String} {interval ttlMs skew : ℕ} {done : List Call} {c : Call}
    (h : Scheduled key interval ttlMs skew (done ++ [c])) :
    Scheduled key interval ttlMs skew done where
  ordered := (List.pairwise_append.mp h.ordered).1
  ttl d hd := h.ttl d (List.mem_append_left _ hd)
  skew d hd e he := h.skew d (List.mem_append_left _ hd) e (List.mem_append_left _ he)

/-- The last call of a run is not earlier than any call before it. -/
theorem Scheduled.le_last {key : String} {interval ttlMs skew : ℕ} {done : List Call} {c : Call}
    (h : Scheduled key interval ttlMs skew (done ++ [c])) {w : Call} (hw : w ∈ done) :
    w.time ≤ c.time :=
  (List.pairwise_append.mp h.ordered).2.2 w hw c (by simp)

/-- Redis holds the key of a job for the call that set it last. -/
structure Held (key : String) (ttlMs : ℕ) (done : List Call) (s : Redis × List Call)
    (w : Call) : Prop where
  mem : w ∈ done
  job : w.key = key
  reached : w.link ≠ .unreachable
  entry : s.1 (keyPrefix ++ key) = some ⟨"1", w.time + ttlMs⟩
  /-- The other calls that reached Redis belong to the same tick or to earlier ones. -/
  latest : ∀ c ∈ done, c.key = key → c.link ≠ .unreachable → c.tick ≤ w.tick

/-- **The invariant of the runs of a job.** -/
structure Guarded (key : String) (ttlMs : ℕ) (done : List Call) (s : Redis × List Call) :
    Prop where
  lock : (s.1 (keyPrefix ++ key) = none ∧
      ∀ c ∈ done, c.key = key → c.link = .unreachable) ∨ ∃ w, Held key ttlMs done s w
  ran : ∀ c ∈ s.2, c.key = key → c ∈ done ∧ c.link = .answers
  /-- No tick is run twice. -/
  once : ∀ tick, timesRun key tick s.2 ≤ 1
  /-- A tick whose calls were all answered is run. -/
  taken : ∀ c ∈ done, c.key = key → c.link ≠ .unreachable →
    (∀ d ∈ done, d.key = key → d.tick = c.tick → d.link = .answers) → timesRun key c.tick s.2 = 1

/-- A tick of which no call has run the work. -/
theorem timesRun_eq_zero {key : String} {tick : ℕ} {ran : List Call}
    (h : ∀ c ∈ ran, c.key = key → c.tick ≠ tick) : timesRun key tick ran = 0 := by
  unfold timesRun
  rw [List.countP_eq_zero]
  intro c hc hcount
  simp only [Bool.and_eq_true, decide_eq_true_eq] at hcount
  exact h c hc hcount.1 hcount.2

/-- One more call that has run the work. -/
theorem timesRun_concat (key : String) (tick : ℕ) (ran : List Call) (c : Call) :
    timesRun key tick (ran ++ [c]) =
      timesRun key tick ran + if c.key = key ∧ c.tick = tick then 1 else 0 := by
  unfold timesRun
  rw [List.countP_append, List.countP_singleton]
  simp only [Bool.and_eq_true, decide_eq_true_eq]

section Step

variable {key : String} {interval ttlMs skew : ℕ} {done : List Call} {c : Call}
  {s : Redis × List Call}

/-- A call that leaves the work and the key of a job as they are keeps the invariant, when the
tick of the call has been served before. -/
theorem Guarded.concat {s' : Redis × List Call} (hinv : Guarded key ttlMs done s)
    (hkey : s'.1 (keyPrefix ++ key) = s.1 (keyPrefix ++ key))
    (hran : ∀ d, d.key = key → (d ∈ s'.2 ↔ d ∈ s.2))
    (htimes : ∀ tick, timesRun key tick s'.2 = timesRun key tick s.2)
    (hserved : c.key = key → c.link ≠ .unreachable →
      ∃ w, Held key ttlMs done s w ∧ w.tick = c.tick) :
    Guarded key ttlMs (done ++ [c]) s' where
  lock := by
    rcases hinv.lock with ⟨hnone, hall⟩ | ⟨w, hw⟩
    · left
      refine ⟨hkey.trans hnone, ?_⟩
      intro d hd hdkey
      rcases List.mem_append.mp hd with hd | hd
      · exact hall d hd hdkey
      · obtain rfl := List.mem_singleton.mp hd
        by_contra hlink
        obtain ⟨w, hw, _⟩ := hserved hdkey hlink
        rw [hw.entry] at hnone
        cases hnone
    · right
      refine ⟨w, List.mem_append_left _ hw.mem, hw.job, hw.reached, hkey.trans hw.entry, ?_⟩
      intro d hd hdkey hlink
      rcases List.mem_append.mp hd with hd | hd
      · exact hw.latest d hd hdkey hlink
      · obtain rfl := List.mem_singleton.mp hd
        obtain ⟨v, hv, htick⟩ := hserved hdkey hlink
        rw [← htick]
        exact hw.latest v hv.mem hv.job hv.reached
  ran d hd hdkey := by
    obtain ⟨hmem, hlink⟩ := hinv.ran d ((hran d hdkey).mp hd) hdkey
    exact ⟨List.mem_append_left _ hmem, hlink⟩
  once tick := by
    rw [htimes]
    exact hinv.once tick
  taken d hd hdkey hlink hall := by
    rw [htimes]
    rcases List.mem_append.mp hd with hd | hd
    · exact hinv.taken d hd hdkey hlink fun e he => hall e (List.mem_append_left _ he)
    · obtain rfl := List.mem_singleton.mp hd
      obtain ⟨w, hw, htick⟩ := hserved hdkey hlink
      rw [← htick]
      refine hinv.taken w hw.mem hw.job hw.reached fun e he hekey hetick => ?_
      exact hall e (List.mem_append_left _ he) hekey (hetick.trans htick)

/-- A call of a new tick that finds the key of its job free keeps the invariant. -/
theorem Guarded.acquire (hinv : Guarded key ttlMs done s) (hkey : c.key = key)
    (httl : c.ttlMs = ttlMs) (hlink : c.link ≠ .unreachable)
    (hfree : (s.1.get c.time (keyPrefix ++ c.key)).isSome = false)
    (hnew : ∀ d ∈ done, d.key = key → d.link ≠ .unreachable → d.tick < c.tick) :
    Guarded key ttlMs (done ++ [c]) (serve s c) := by
  have hfirst : timesRun key c.tick s.2 = 0 := by
    apply timesRun_eq_zero
    intro d hd hdkey
    obtain ⟨hmem, hanswers⟩ := hinv.ran d hd hdkey
    exact Nat.ne_of_lt (hnew d hmem hdkey (by simp [hanswers]))
  rw [serve_of_free hlink hfree]
  refine ⟨.inr ⟨c, by simp, hkey, hlink, ?_, ?_⟩, ?_, ?_, ?_⟩
  · subst hkey
    rw [httl]
    exact Function.update_self _ _ _
  · intro d hd hdkey hdlink
    rcases List.mem_append.mp hd with hd | hd
    · exact Nat.le_of_lt (hnew d hd hdkey hdlink)
    · exact Nat.le_of_eq (congrArg Call.tick (List.mem_singleton.mp hd))
  · intro d hd hdkey
    dsimp only at hd
    split at hd
    · rename_i hanswers
      rcases List.mem_append.mp hd with hd | hd
      · obtain ⟨hmem, hdlink⟩ := hinv.ran d hd hdkey
        exact ⟨List.mem_append_left _ hmem, hdlink⟩
      · obtain rfl := List.mem_singleton.mp hd
        exact ⟨by simp, hanswers⟩
    · obtain ⟨hmem, hdlink⟩ := hinv.ran d hd hdkey
      exact ⟨List.mem_append_left _ hmem, hdlink⟩
  · intro tick
    dsimp only
    split
    · rw [timesRun_concat]
      split
      · rename_i hc
        rw [← hc.2]
        exact Nat.le_of_eq (congrArg (· + 1) hfirst)
      · exact hinv.once tick
    · exact hinv.once tick
  · intro d hd hdkey hdlink hall
    have hcase : d.tick < c.tick ∨ d.tick = c.tick := by
      rcases List.mem_append.mp hd with hd | hd
      · exact .inl (hnew d hd hdkey hdlink)
      · exact .inr (by rw [List.mem_singleton.mp hd])
    rcases hcase with hlt | heq
    · -- An earlier tick: the new call does not count for it.
      have hdone : d ∈ done := by
        rcases List.mem_append.mp hd with hd | hd
        · exact hd
        · rw [List.mem_singleton.mp hd] at hlt
          exact absurd hlt (Nat.lt_irrefl _)
      have hbefore := hinv.taken d hdone hdkey hdlink fun e he => hall e (List.mem_append_left _ he)
      dsimp only
      split
      · rw [timesRun_concat, if_neg (fun h => (Nat.ne_of_lt hlt) h.2.symm), hbefore]
      · exact hbefore
    · have hanswers : c.link = .answers := hall c (by simp) hkey heq.symm
      dsimp only
      rw [if_pos hanswers, timesRun_concat, if_pos ⟨hkey, heq.symm⟩, heq, hfirst]

/-- The key is still held when another replica comes to the tick of the holder, and it is
free when a later tick comes. -/
theorem Scheduled.tick_cases (h : Scheduled key interval ttlMs skew (done ++ [c]))
    (hskew : skew < ttlMs) (hinterval : ttlMs + skew < interval) (hkey : c.key = key) {w : Call}
    (hw : Held key ttlMs done s w) :
    w.tick = c.tick ∧ (s.1.get c.time (keyPrefix ++ c.key)).isSome = true ∨
      w.tick < c.tick ∧ (s.1.get c.time (keyPrefix ++ c.key)).isSome = false := by
  have hget : (s.1.get c.time (keyPrefix ++ c.key)).isSome =
      decide (c.time ≤ w.time + ttlMs) := by
    unfold Redis.get
    rw [hkey, hw.entry]
    by_cases hle : c.time ≤ w.time + ttlMs <;> simp [Option.filter, hle]
  have horder := h.le_last hw.mem
  have hlate := h.skew c (by simp) w (List.mem_append_left _ hw.mem) hkey hw.job
  have hearly := h.skew w (List.mem_append_left _ hw.mem) c (by simp) hw.job hkey
  rcases Nat.lt_trichotomy w.tick c.tick with hlt | heq | hgt
  · right
    refine ⟨hlt, ?_⟩
    have hticks := Nat.mul_le_mul_right interval (Nat.succ_le_of_lt hlt)
    rw [Nat.succ_mul] at hticks
    rw [hget, decide_eq_false_iff_not]
    omega
  · left
    refine ⟨heq, ?_⟩
    rw [heq] at hlate
    rw [hget, decide_eq_true_eq]
    omega
  · -- An earlier tick cannot come after a later one.
    exfalso
    have hticks := Nat.mul_le_mul_right interval (Nat.succ_le_of_lt hgt)
    rw [Nat.succ_mul] at hticks
    omega

/-- **Step.** Every call keeps the invariant of a job. -/
theorem Guarded.serve (hinv : Guarded key ttlMs done s) (hskew : skew < ttlMs)
    (hinterval : ttlMs + skew < interval)
    (h : Scheduled key interval ttlMs skew (done ++ [c])) :
    Guarded key ttlMs (done ++ [c]) (Locking.serve s c) := by
  by_cases hkey : c.key = key
  · rcases eq_or_ne c.link .unreachable with hlink | hlink
    · rw [serve_of_unreachable hlink]
      exact hinv.concat rfl (fun _ _ => Iff.rfl) (fun _ => rfl) fun _ hne => absurd hlink hne
    · have httl := h.ttl c (by simp) hkey
      rcases hinv.lock with ⟨hnone, hall⟩ | ⟨w, hw⟩
      · have hfree : (s.1.get c.time (keyPrefix ++ c.key)).isSome = false := by
          simp [Redis.get, hkey, hnone]
        refine hinv.acquire hkey httl hlink hfree fun d hd hdkey hdlink => ?_
        exact absurd (hall d hd hdkey) hdlink
      · rcases h.tick_cases hskew hinterval hkey hw with ⟨htick, hget⟩ | ⟨htick, hget⟩
        · rw [serve_of_held hget]
          exact hinv.concat rfl (fun _ _ => Iff.rfl) (fun _ => rfl) fun _ _ =>
            ⟨w, hw, htick⟩
        · exact hinv.acquire hkey httl hlink hget fun d hd hdkey hdlink =>
            Nat.lt_of_le_of_lt (hw.latest d hd hdkey hdlink) htick
  · obtain ⟨hsame, hran, htimes⟩ := serve_other hkey s
    exact hinv.concat hsame hran htimes fun h _ => absurd h hkey

end Step

/-- **Run.** A run of a job keeps the invariant. -/
theorem guarded_run {key : String} {interval ttlMs skew : ℕ} {calls : List Call}
    (hskew : skew < ttlMs) (hinterval : ttlMs + skew < interval)
    (h : Scheduled key interval ttlMs skew calls) : Guarded key ttlMs calls (run calls) := by
  induction calls using List.reverseRecOn with
  | nil => exact ⟨.inl ⟨rfl, by simp⟩, by simp [run], by simp [run, timesRun], by simp⟩
  | append_singleton done c ih =>
    have hrun : run (done ++ [c]) = serve (run done) c := by
      simp [run, List.foldl_append]
    rw [hrun]
    exact (ih h.init).serve hskew hinterval h

/-- **Every tick of a job is run exactly once**, for any number of replicas and any run whose
skew, TTL and interval allow it: the work of a tick that was fired is run for exactly one call
when Redis answers the calls of the tick, and it is never run for two. Whatever happens to
the other ticks and jobs, a call whose command fails runs nothing. -/
theorem timesRun_of_scheduled {key : String} {interval ttlMs skew : ℕ} {calls : List Call}
    (hskew : skew < ttlMs) (hinterval : ttlMs + skew < interval)
    (h : Scheduled key interval ttlMs skew calls) :
    (∀ tick, (∃ c ∈ calls, c.key = key ∧ c.tick = tick) →
        (∀ c ∈ calls, c.key = key → c.tick = tick → c.link = .answers) →
          timesRun key tick (executed calls) = 1) ∧
      (∀ tick, timesRun key tick (executed calls) ≤ 1) ∧
      (∀ c ∈ executed calls, c.key = key → c ∈ calls ∧ c.link = .answers) ∧
      ∀ (σ β : Type) (link : Link) (now ttl : ℕ) (name : String) (work : σ → β × σ)
        (s : Redis × σ), link ≠ .answers →
        (runExclusively link now name ttl work s).1 = none ∧
          (runExclusively link now name ttl work s).2.2 = s.2 := by
  have hinv := guarded_run hskew hinterval h
  refine ⟨?_, hinv.once, hinv.ran, ?_⟩
  · rintro tick ⟨c, hc, hkey, rfl⟩ hall
    exact hinv.taken c hc hkey (by simp [hall c hc hkey rfl]) hall
  · intro σ β link now ttl name work s hlink
    exact runExclusively_of_ne hlink now name ttl work s

/-- Two replicas sweep twice, up to a second apart, while the daily cron of one of them runs. -/
def twoSweeps : List Call :=
  [handleReconciliationSweepCron 0 0 1000 .answers, handleCron 1 0 1000 .answers,
    handleReconciliationSweepCron 1 0 2000 .answers,
    handleReconciliationSweepCron 1 1 901500 .answers,
    handleReconciliationSweepCron 0 1 902000 .answers]

/-- Each of the two ticks of the sweep is run once. -/
theorem timesRun_twoSweeps :
    timesRun reconciliationLockKey 0 (executed twoSweeps) = 1 ∧
      timesRun reconciliationLockKey 1 (executed twoSweeps) = 1 := by
  have hscheduled : Scheduled reconciliationLockKey (15 * 60 * 1000) reconciliationLockTtlMs 1000
      twoSweeps := ⟨by decide, by decide, by decide⟩
  have hruns := timesRun_of_scheduled (by decide) (by decide) hscheduled
  exact ⟨hruns.1 0 (by decide) (by decide), hruns.1 1 (by decide) (by decide)⟩

end Odiseo.Locking
