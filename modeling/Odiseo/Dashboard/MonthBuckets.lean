import Odiseo.Dashboard.Service

/-!
# The buckets of a range

`resolveMonthBuckets` walks from the month of the start date to the month of the last
millisecond of the range and gives up after 1200 months. The last millisecond is a day after
the end date, less one: this is the end of the end day when the end date is a midnight.
-/

namespace Odiseo.Dashboard

open Calendar.Gregorian

/-- The bucket of a month. -/
def bucketOf (k : ℤ) : Bucket := ⟨k / 12, k % 12 + 1⟩

/-- The number of the month of a bucket. -/
def Bucket.monthNumber (b : Bucket) : ℤ := 12 * b.year + b.month - 1

/-- The bucket of an instant. -/
def Bucket.contains (b : Bucket) (t : ℤ) : Prop :=
  getUTCFullYear t = b.year ∧ getUTCMonth t + 1 = b.month

/-- The calendar month of a bucket overlaps the time from `start` up to `stop`. -/
def Bucket.Overlaps (b : Bucket) (start stop : ℤ) : Prop :=
  ∃ t, start ≤ t ∧ t < stop ∧ b.contains t

/-- The end of the day of an instant: the first instant of the next day. -/
def endOfDay (t : ℤ) : ℤ := (dayOf t + 1) * msPerDay

/-- **The buckets of a range are exact**: they are the months that overlap the range up to
`stop`, each of them once and in order. -/
def BucketsExact (buckets : List Bucket) (start stop : ℤ) : Prop :=
  (buckets.Pairwise fun b c => b.monthNumber < c.monthNumber) ∧
    ∀ b, b ∈ buckets ↔ b.Overlaps start stop

/-- A bucket is known by the number of its month. -/
theorem bucketOf_monthNumber (b : Bucket) (h : 1 ≤ b.month) (h' : b.month ≤ 12) :
    bucketOf b.monthNumber = b := by
  have hyear : b.monthNumber / 12 = b.year := by
    unfold Bucket.monthNumber
    omega
  have hmonth : b.monthNumber % 12 + 1 = b.month := by
    unfold Bucket.monthNumber
    omega
  unfold bucketOf
  rw [hyear, hmonth]

/-- The month of a bucket has its number. -/
theorem monthNumber_bucketOf (k : ℤ) : (bucketOf k).monthNumber = k := by
  unfold Bucket.monthNumber bucketOf
  dsimp only
  omega

/-- The bucket of an instant is that of its month. -/
theorem contains_iff {b : Bucket} {t : ℤ} : b.contains t ↔ b = bucketOf (monthOf t) := by
  obtain ⟨_, _, hyear, hmonth⟩ := firstDay_monthOf t
  unfold Bucket.contains bucketOf
  rw [hyear, hmonth]
  constructor
  · rintro ⟨hy, hm⟩
    rw [hy, hm]
  · rintro rfl
    exact ⟨rfl, rfl⟩

/-- The months that overlap a range are those from the month of its first instant to the month
of its last one. -/
theorem overlaps_iff {b : Bucket} {start stop : ℤ} (h : start < stop) :
    b.Overlaps start stop ↔
      ∃ k, monthOf start ≤ k ∧ k ≤ monthOf (stop - 1) ∧ b = bucketOf k := by
  constructor
  · rintro ⟨t, hstart, hstop, hb⟩
    exact ⟨monthOf t, monthOf_mono hstart, monthOf_mono (by omega), contains_iff.mp hb⟩
  · rintro ⟨k, hlow, hhigh, rfl⟩
    -- The first instant of the range that lies in the month.
    refine ⟨max start (monthStart k), le_max_left _ _, ?_, ?_⟩
    · obtain ⟨hfirst, _⟩ := monthOf_eq_iff.mp (rfl : monthOf (stop - 1) = monthOf (stop - 1))
      have hle : monthStart k ≤ monthStart (monthOf (stop - 1)) :=
        monthStart_mono hhigh
      omega
    · obtain ⟨_, hnext⟩ := monthOf_eq_iff.mp (rfl : monthOf start = monthOf start)
      have hlt : monthStart k < monthStart (k + 1) := monthStart_lt_iff.mpr (by omega)
      have hle : monthStart (monthOf start + 1) ≤ monthStart (k + 1) :=
        monthStart_mono (by omega)
      have hmonth : monthOf (max start (monthStart k)) = k :=
        monthOf_eq_iff.mpr ⟨le_max_right _ _, by omega⟩
      rw [contains_iff, hmonth]

/-- **The loop** lists the months from the first one to the last one, as far as the iterations
go. -/
theorem bucketLoop_eq (n : ℕ) {year month endYear endMonth : ℤ} (hm : 0 ≤ month ∧ month ≤ 11)
    (hend : 0 ≤ endMonth ∧ endMonth ≤ 11) :
    bucketLoop n year month endYear endMonth =
      (List.range (min n (12 * endYear + endMonth + 1 - (12 * year + month)).toNat)).map
        fun i : ℕ => bucketOf (12 * year + month + i) := by
  induction n generalizing year month with
  | zero => simp [bucketLoop]
  | succ n ih =>
    unfold bucketLoop
    split
    · rename_i hmore
      have hcount : min (n + 1) (12 * endYear + endMonth + 1 - (12 * year + month)).toNat =
          min n (12 * endYear + endMonth + 1 - (12 * year + month + 1)).toNat + 1 := by omega
      have hfirst : bucketOf (12 * year + month) = ⟨year, month + 1⟩ := by
        have hyear : (12 * year + month) / 12 = year := by omega
        have hmonth : (12 * year + month) % 12 = month := by omega
        unfold bucketOf
        rw [hyear, hmonth]
      have hrest : (if month + 1 > 11 then bucketLoop n (year + 1) 0 endYear endMonth
          else bucketLoop n year (month + 1) endYear endMonth) =
          (List.range (min n (12 * endYear + endMonth + 1 - (12 * year + month + 1)).toNat)).map
            fun i : ℕ => bucketOf (12 * year + month + 1 + i) := by
        split
        · rw [ih (by omega)]
          have hnext : 12 * (year + 1) + 0 = 12 * year + month + 1 := by omega
          rw [hnext]
        · rw [ih (by omega), add_assoc (12 * year) month 1]
      rw [hcount, List.range_succ_eq_map, List.map_cons, List.map_map, hrest]
      congr 1
      · simp [hfirst]
      · apply List.map_congr_left
        intro i _
        simp only [Function.comp_apply, Nat.cast_succ]
        congr 1
        omega
    · rename_i hdone
      have hcount : min (n + 1) (12 * endYear + endMonth + 1 - (12 * year + month)).toNat = 0 := by
        omega
      rw [hcount]
      rfl

/-- The buckets of a range whose last day and the day after it are dates. -/
theorem resolveMonthBuckets_eq (now : ℤ) {s e : ℤ} (hs : -maxTime ≤ s) (h : s ≤ e)
    (he : e + msPerDay ≤ maxTime) :
    resolveMonthBuckets now (dateRange (some s) (some e)) =
      (List.range (min 1200 (monthOf (e + msPerDay - 1) + 1 - monthOf s).toNat)).map
        fun i : ℕ => bucketOf (monthOf s + i) := by
  have hday : msPerDay = 24 * 60 * 60 * 1000 := rfl
  have hmono : monthOf s ≤ monthOf (e + msPerDay - 1) := monthOf_mono (by omega)
  obtain ⟨_, _, hyear, hmonth⟩ := firstDay_monthOf s
  obtain ⟨_, _, hendYear, hendMonth⟩ := firstDay_monthOf (e + msPerDay - 1)
  have hloop : bucketLoop 1200 (getUTCFullYear s) (getUTCMonth s)
      (getUTCFullYear (e + msPerDay - 1)) (getUTCMonth (e + msPerDay - 1)) =
      (List.range (min 1200 (monthOf (e + msPerDay - 1) + 1 - monthOf s).toNat)).map
        fun i : ℕ => bucketOf (monthOf s + i) :=
    bucketLoop_eq 1200 (by omega) (by omega)
  have hnext : newDate (e + 24 * 60 * 60 * 1000) = some (e + msPerDay) := by
    unfold newDate
    rw [if_pos (by omega), hday]
  have hlast : newDate (e + msPerDay - 1) = some (e + msPerDay - 1) := by
    unfold newDate
    rw [if_pos (by omega)]
  have hsome : (bucketLoop 1200 (getUTCFullYear s) (getUTCMonth s)
      (getUTCFullYear (e + msPerDay - 1)) (getUTCMonth (e + msPerDay - 1))).isEmpty = false := by
    rw [hloop, List.isEmpty_eq_false_iff, ne_eq, List.map_eq_nil_iff, List.range_eq_nil]
    omega
  unfold resolveMonthBuckets dateRange
  simp only [Option.map_some, hnext, Option.bind_some, hlast, hsome, Bool.false_eq_true, if_false]
  exact hloop

/-- The buckets of a range are in order. -/
theorem pairwise_resolveMonthBuckets (now : ℤ) {s e : ℤ} (hs : -maxTime ≤ s) (h : s ≤ e)
    (he : e + msPerDay ≤ maxTime) :
    (resolveMonthBuckets now (dateRange (some s) (some e))).Pairwise fun b c =>
      b.monthNumber < c.monthNumber := by
  rw [resolveMonthBuckets_eq now hs h he, List.pairwise_map]
  refine List.pairwise_lt_range.imp ?_
  intro i j hij
  rw [monthNumber_bucketOf, monthNumber_bucketOf]
  omega

/-- The buckets of a range are the first 1200 months that overlap it. -/
theorem mem_resolveMonthBuckets (now : ℤ) {s e : ℤ} (hs : -maxTime ≤ s) (h : s ≤ e)
    (he : e + msPerDay ≤ maxTime) (b : Bucket) :
    b ∈ resolveMonthBuckets now (dateRange (some s) (some e)) ↔
      b.Overlaps s (e + msPerDay) ∧ b.monthNumber < monthOf s + 1200 := by
  have hday : 0 < msPerDay := by decide
  rw [resolveMonthBuckets_eq now hs h he, overlaps_iff (by omega), List.mem_map]
  constructor
  · rintro ⟨i, hi, rfl⟩
    rw [List.mem_range] at hi
    refine ⟨⟨monthOf s + i, by omega, by omega, rfl⟩, ?_⟩
    rw [monthNumber_bucketOf]
    omega
  · rintro ⟨⟨k, hlow, hhigh, rfl⟩, hcut⟩
    rw [monthNumber_bucketOf] at hcut
    refine ⟨(k - monthOf s).toNat, ?_, ?_⟩
    · rw [List.mem_range]
      omega
    · have hk : monthOf s + ((k - monthOf s).toNat : ℤ) = k := by omega
      rw [hk]

/-- An end date without a time of day ends with its day. -/
theorem endOfDay_of_midnight {e : ℤ} (h : e % msPerDay = 0) : endOfDay e = e + msPerDay := by
  have hday : msPerDay = 24 * 60 * 60 * 1000 := rfl
  unfold endOfDay dayOf
  rw [hday] at h ⊢
  omega

/-- **The month buckets of a range**, for every start date that is not after the end date, as
far as the day after the end date is a date too: in order and without repetition, the first
1200 months that overlap the time from the start date up to a day after the end date, which is
the end of the end day when the end date has no time of day. -/
theorem resolveMonthBuckets_exact (now : ℤ) {s e : ℤ} (hs : -maxTime ≤ s) (h : s ≤ e)
    (he : e + msPerDay ≤ maxTime) :
    ((resolveMonthBuckets now (dateRange (some s) (some e))).Pairwise fun b c =>
        b.monthNumber < c.monthNumber) ∧
      (∀ b, b ∈ resolveMonthBuckets now (dateRange (some s) (some e)) ↔
          b.Overlaps s (e + msPerDay) ∧ b.monthNumber < monthOf s + 1200) ∧
        (e % msPerDay = 0 → endOfDay e = e + msPerDay) :=
  ⟨pairwise_resolveMonthBuckets now hs h he, mem_resolveMonthBuckets now hs h he,
    endOfDay_of_midnight⟩

/-- The range from 15 January to 5 March 2026. -/
theorem resolveMonthBuckets_quarter :
    1772668800000 + msPerDay ≤ maxTime ∧
      ∀ b, b ∈ resolveMonthBuckets 0 (dateRange (some 1768435200000) (some 1772668800000)) ↔
        b.Overlaps 1768435200000 (1772668800000 + msPerDay) ∧
          b.monthNumber < monthOf 1768435200000 + 1200 :=
  ⟨by decide, (resolveMonthBuckets_exact 0 (by decide) (by decide) (by decide)).2.1⟩

/-- The last month of a range of more than 1200 months is missing. -/
theorem not_bucketsExact_century :
    ¬ BucketsExact (resolveMonthBuckets 0 (dateRange (some (-2208988800000)) (some 946684800000)))
      (-2208988800000) (endOfDay 946684800000) := by
  rintro ⟨_, hexact⟩
  have hend : endOfDay 946684800000 = 946684800000 + msPerDay := by decide
  have hin : (⟨2000, 1⟩ : Bucket).Overlaps (-2208988800000) (endOfDay 946684800000) :=
    ⟨946684800000, by decide, by decide, by decide, by decide⟩
  obtain ⟨_, hcut⟩ := (mem_resolveMonthBuckets 0 (by decide) (by decide) (by decide) _).mp
    ((hexact _).mpr hin)
  revert hcut
  decide

/-- An end date in the afternoon of the last day of a month adds the next month. -/
theorem not_bucketsExact_afternoon :
    ¬ BucketsExact (resolveMonthBuckets 0 (dateRange (some 1769871600000) (some 1769871600000)))
      1769871600000 (endOfDay 1769871600000) := by
  rintro ⟨_, hexact⟩
  have hmem : (⟨2026, 2⟩ : Bucket) ∈
      resolveMonthBuckets 0 (dateRange (some 1769871600000) (some 1769871600000)) := by
    decide +kernel
  obtain ⟨k, _, hhigh, hk⟩ := (overlaps_iff (by decide)).mp ((hexact _).mp hmem)
  have hlast : monthOf (endOfDay 1769871600000 - 1) = 12 * 2026 := by decide
  have hnumber := congrArg Bucket.monthNumber hk
  rw [monthNumber_bucketOf] at hnumber
  have hfebruary : (⟨2026, 2⟩ : Bucket).monthNumber = 12 * 2026 + 1 := by decide
  omega

/-- The day after the last date is no date, and the range falls back to the current month. -/
theorem not_bucketsExact_lastDate :
    ¬ BucketsExact (resolveMonthBuckets 0 (dateRange (some maxTime) (some maxTime))) maxTime
      (endOfDay maxTime) := by
  rintro ⟨_, hexact⟩
  have hmem : (⟨1970, 1⟩ : Bucket) ∈ resolveMonthBuckets 0
      (dateRange (some maxTime) (some maxTime)) := by
    decide +kernel
  obtain ⟨k, hlow, _, hk⟩ := (overlaps_iff (by decide)).mp ((hexact _).mp hmem)
  have hfirst : monthOf maxTime = 12 * 275760 + 8 := by decide
  have hnumber := congrArg Bucket.monthNumber hk
  rw [monthNumber_bucketOf] at hnumber
  have hjanuary : (⟨1970, 1⟩ : Bucket).monthNumber = 12 * 1970 := by decide
  omega

/-- The buckets are not always the months from the start to the end of the end day: a range of
1201 months, an end date with a time of day and the last date there is. -/
theorem resolveMonthBuckets_not_exact :
    ¬ BucketsExact (resolveMonthBuckets 0 (dateRange (some (-2208988800000)) (some 946684800000)))
        (-2208988800000) (endOfDay 946684800000) ∧
      ¬ BucketsExact (resolveMonthBuckets 0 (dateRange (some 1769871600000) (some 1769871600000)))
        1769871600000 (endOfDay 1769871600000) ∧
      ¬ BucketsExact (resolveMonthBuckets 0 (dateRange (some maxTime) (some maxTime))) maxTime
        (endOfDay maxTime) :=
  ⟨not_bucketsExact_century, not_bucketsExact_afternoon, not_bucketsExact_lastDate⟩

end Odiseo.Dashboard
