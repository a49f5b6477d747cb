import Mathlib.Algebra.BigOperators.Group.List.Basic
import Mathlib.Tactic.Ring
import Nulix.Lib.Signed
import Nulix.Rtc.Decode

/-!
# The timestamp

`rtc_get_timestamp` computes the seconds since 1970 by a closed formula. It is compared with the clock of
the calendar, which goes on from the first second of 1970 by a second at a time.
-/

namespace Nulix.Rtc

open Fallible Signed Checked

/-! ## Blocks of days -/

/-- A place in a row of blocks is in one block only. -/
theorem block_unique {length : Nat → Nat} {i j a b : Nat} (left : a < length i) (right : b < length j)
    (same : ((List.range i).map length).sum + a = ((List.range j).map length).sum + b) :
    i = j ∧ a = b := by
  have apart : ∀ {i j a b : Nat}, i < j → a < length i →
      ((List.range i).map length).sum + a < ((List.range j).map length).sum + b := by
    intro i j a b less inside
    induction j, less using Nat.le_induction with
    | base =>
      rw [List.sum_range_succ]
      omega
    | succ j less ih =>
      rw [List.sum_range_succ]
      omega
  rcases Nat.lt_trichotomy i j with less | rfl | more
  · exact absurd same (apart less left).ne
  · exact ⟨rfl, Nat.add_left_cancel same⟩
  · exact absurd same (apart more right).ne'

/-! ## Days since the epoch -/

def yearLength (year : Nat) : Nat := ((List.range 12).map fun m => monthLength year (m + 1)).sum

theorem yearLength_eq (year : Nat) : yearLength year = if isLeap year then 366 else 365 := by
  unfold yearLength
  cases leap : isLeap year <;> simp [List.range_succ, monthLength, leap]

/-- The length of a year, with a term for each part of the leap rule. -/
theorem yearLength_parts (year : Nat) :
    (yearLength year : Int) =
      365 + (if year % 4 = 0 then 1 else 0) - (if year % 100 = 0 then 1 else 0) +
        (if year % 400 = 0 then 1 else 0) := by
  have hundreds : year % 400 = 0 → year % 100 = 0 := by omega
  have fours : year % 100 = 0 → year % 4 = 0 := by omega
  rw [yearLength_eq, isLeap]
  by_cases fourth : year % 4 = 0
  · by_cases century : year % 100 = 0
    · by_cases fourCenturies : year % 400 = 0
      · simp [fourth, century, fourCenturies]
      · simp [fourth, century, fourCenturies]
    · have ordinary := mt hundreds century
      simp [fourth, century, ordinary]
  · have century := mt fours fourth
    have ordinary := mt hundreds century
    simp [fourth, century, ordinary]

/-- The days from the first of January of 1970 to that of the year, counted year by year. -/
def daysBeforeYear (year : Nat) : Nat := ((List.range (year - 1970)).map fun k => yearLength (1970 + k)).sum

theorem daysBeforeYear_succ {year : Nat} (since : 1970 ≤ year) :
    daysBeforeYear (year + 1) = daysBeforeYear year + yearLength year := by
  unfold daysBeforeYear
  rw [Nat.sub_add_comm since, List.sum_range_succ, Nat.add_sub_cancel' since]

/-- The closed formula, with a term for each part of the leap rule. -/
theorem daysBeforeYear_eq {year : Nat} (since : 1970 ≤ year) :
    (daysBeforeYear year : Int) =
      (year - 1970) * 365 + (year - 1969) / 4 - (year - 1901) / 100 + (year - 1601) / 400 := by
  induction year, since using Nat.le_induction with
  | base => rfl
  | succ year since ih =>
    -- each quotient grows in the years of its part
    have fourth : ((year : Int) + 1 - 1969) / 4 = (year - 1969) / 4 + if year % 4 = 0 then 1 else 0 := by
      split <;> omega
    have century : ((year : Int) + 1 - 1901) / 100 =
        (year - 1901) / 100 + if year % 100 = 0 then 1 else 0 := by
      split <;> omega
    have fourCenturies : ((year : Int) + 1 - 1601) / 400 =
        (year - 1601) / 400 + if year % 400 = 0 then 1 else 0 := by
      split <;> omega
    rw [daysBeforeYear_succ since]
    push_cast
    rw [ih, yearLength_parts, fourth, century, fourCenturies]
    ring

namespace DateTime

def daysSinceEpoch (d : DateTime) : Nat := daysBeforeYear d.year + d.daysBefore

/-- The seconds from the first one of 1970 to the date and time. -/
def seconds (d : DateTime) : Nat := d.daysSinceEpoch * 86400 + d.hour * 3600 + d.min * 60 + d.sec

theorem daysBefore_lt (d : DateTime) : d.daysBefore < yearLength d.year := by
  obtain ⟨first, last⟩ := d.dayValid
  obtain ⟨low, high⟩ := d.monValid
  have rest : ∀ n, d.mon ≤ n →
      d.daysBefore < ((List.range n).map fun m => monthLength d.year (m + 1)).sum := by
    intro n enough
    induction n, enough using Nat.le_induction with
    | base =>
      have month : d.mon = d.mon - 1 + 1 := by omega
      rw [month, List.sum_range_succ, ← month, daysBefore]
      omega
    | succ n enough ih =>
      rw [List.sum_range_succ]
      omega
  exact rest 12 high

/-! ## The clock -/

theorem tick_year (d : DateTime) : d.year ≤ d.tick.year := by
  unfold tick
  repeat' split
  all_goals first | exact Nat.le_refl _ | exact Nat.le_succ _

/-- The next second is one second later. -/
theorem tick_seconds {d : DateTime} (since : 1970 ≤ d.year) : d.tick.seconds = d.seconds + 1 := by
  obtain ⟨low, high⟩ := d.monValid
  obtain ⟨first, last⟩ := d.dayValid
  have hours := d.hourValid
  have minutes := d.minValid
  have valid := d.secValid
  have months : ((List.range d.mon).map fun m => monthLength d.year (m + 1)).sum =
      d.daysBefore + (monthLength d.year d.mon - (d.day - 1)) := by
    have month : d.mon = d.mon - 1 + 1 := by omega
    rw [month, List.sum_range_succ, ← month, daysBefore]
    omega
  unfold tick
  split_ifs with sec min hour day mon
  · show d.daysSinceEpoch * 86400 + d.hour * 3600 + d.min * 60 + (d.sec + 1) = _
    rw [seconds]
    omega
  · show d.daysSinceEpoch * 86400 + d.hour * 3600 + (d.min + 1) * 60 + 0 = _
    rw [seconds]
    omega
  · show d.daysSinceEpoch * 86400 + (d.hour + 1) * 3600 + 0 * 60 + 0 = _
    rw [seconds]
    omega
  · show (daysBeforeYear d.year + (((List.range (d.mon - 1)).map fun m => monthLength d.year (m + 1)).sum +
      (d.day + 1 - 1))) * 86400 + 0 * 3600 + 0 * 60 + 0 = _
    rw [seconds, daysSinceEpoch, daysBefore]
    omega
  · show (daysBeforeYear d.year + (((List.range d.mon).map _).sum + 0)) * 86400 + 0 * 3600 + 0 * 60 + 0 = _
    rw [months, seconds, daysSinceEpoch]
    omega
  · have december : d.mon = 12 := by omega
    show (daysBeforeYear (d.year + 1) + 0) * 86400 + 0 * 3600 + 0 * 60 + 0 = _
    rw [december] at months
    rw [daysBeforeYear_succ since, yearLength, months, seconds, daysSinceEpoch]
    rw [december] at day last
    omega

theorem year_le_after (d : DateTime) (n : Nat) : d.year ≤ (d.after n).year := by
  induction n with
  | zero => exact Nat.le_refl _
  | succ n ih =>
    rw [after, Function.iterate_succ_apply', ← after]
    exact ih.trans (tick_year _)

theorem after_seconds {d : DateTime} (since : 1970 ≤ d.year) (n : Nat) :
    (d.after n).seconds = d.seconds + n := by
  induction n with
  | zero => exact (Nat.add_zero d.seconds).symm
  | succ n ih =>
    rw [after, Function.iterate_succ_apply', ← after, tick_seconds (since.trans (d.year_le_after n)), ih,
      Nat.add_assoc]

/-- No two dates and times have the same seconds. -/
theorem eq_of_seconds {d e : DateTime} (since : 1970 ≤ d.year) (since' : 1970 ≤ e.year)
    (same : d.seconds = e.seconds) : d = e := by
  have first := d.dayValid.1
  have first' := e.dayValid.1
  have low := d.monValid.1
  have low' := e.monValid.1
  have inside := d.daysBefore_lt
  have inside' := e.daysBefore_lt
  obtain ⟨days, hour, min, sec⟩ : d.daysSinceEpoch = e.daysSinceEpoch ∧ d.hour = e.hour ∧
      d.min = e.min ∧ d.sec = e.sec := by
    have valid := And.intro d.hourValid (And.intro d.minValid d.secValid)
    have valid' := And.intro e.hourValid (And.intro e.minValid e.secValid)
    unfold seconds at same
    omega
  rw [← Nat.add_sub_cancel' since] at inside
  rw [← Nat.add_sub_cancel' since'] at inside'
  obtain ⟨years, before⟩ := @block_unique (fun k => yearLength (1970 + k)) _ _ _ _ inside inside' days
  have year : d.year = e.year := by omega
  have month : d.day - 1 < monthLength d.year (d.mon - 1 + 1) := by
    rw [Nat.sub_add_cancel low]
    exact lt_of_lt_of_le (Nat.sub_lt first Nat.one_pos) d.dayValid.2
  have month' : e.day - 1 < monthLength d.year (e.mon - 1 + 1) := by
    rw [Nat.sub_add_cancel low', year]
    exact lt_of_lt_of_le (Nat.sub_lt first' Nat.one_pos) e.dayValid.2
  unfold daysBefore at before
  rw [← year] at before
  obtain ⟨mon, day⟩ := @block_unique (fun m => monthLength d.year (m + 1)) _ _ _ _ month month' before
  exact DateTime.ext year (by omega) (by omega) hour min sec

/-- The clock shows the date and time after its seconds. -/
theorem epoch_after_seconds {d : DateTime} (since : 1970 ≤ d.year) : epoch.after d.seconds = d := by
  have seconds := after_seconds (Nat.le_refl epoch.year) d.seconds
  exact eq_of_seconds (year_le_after epoch _) since (seconds.trans (Nat.zero_add _))

end DateTime

/-! ## The computation -/

/-- What `rtc_get_timestamp` makes of the time. -/
def rtcTimestamp (t : RtcTime) : Checked 32 :=
  let epoch : Checked 32 := 0
  let year : Checked 32 := .ofInt t.year - 1900
  let epoch := epoch.addUnsigned (.ofInt t.sec)
  let epoch := epoch.addUnsigned (.ofInt t.min * 60)
  let epoch := epoch.addUnsigned (.ofInt t.hour * 3600)
  let epoch := epoch.addUnsigned (.ofInt t.yday * 86400)
  let epoch := epoch.addUnsigned ((year - 70) * 31536000)
  let epoch := epoch.addUnsigned ((year - 69) / 4 * 86400)
  let epoch := epoch.subUnsigned ((year - 1) / 100 * 86400)
  epoch.addUnsigned ((year + 299) / 400 * 86400)

/-- `rtc_get_timestamp` -/
def rtcGetTimestamp (cmos : Cmos) (fuel : Nat) : Except Stuck (Checked 32) := do
  let t ← rtcReadTime cmos fuel
  return rtcTimestamp t

section Computation

variable {year : Nat} (since : 1970 ≤ year) (fits : year < 2 ^ 31)

include since fits

theorem year_is : (.ofInt year - 1900 : Checked 32).Is (year - 1900) :=
  .sub (by decide) (is_ofInt (by unfold Fits; omega)) (is_ofNat (by decide)) (by unfold Fits; omega)

/-- The quotients of the three parts of the leap rule. -/
theorem quotients_are :
    ((.ofInt year - 1900 - 69) / 4 : Checked 32).Is ((year - 1969) / 4) ∧
      ((.ofInt year - 1900 - 1) / 100 : Checked 32).Is ((year - 1901) / 100) ∧
        ((.ofInt year - 1900 + 299) / 400 : Checked 32).Is ((year - 1601) / 400) := by
  have word : 0 < 32 := by decide
  have from1900 := year_is since fits
  have fourth : (year : Int) - 1900 - 69 = year - 1969 := by omega
  have century : (year : Int) - 1900 - 1 = year - 1901 := by omega
  have fourCenturies : (year : Int) - 1900 + 299 = year - 1601 := by omega
  rw [← fourth, ← century, ← fourCenturies]
  refine ⟨.div word (.sub word from1900 (is_ofNat (by decide)) ?_) (is_ofNat (by decide)) ?_ (by decide),
    .div word (.sub word from1900 (is_ofNat (by decide)) ?_) (is_ofNat (by decide)) ?_ (by decide),
    .div word (.add word from1900 (is_ofNat (by decide)) ?_) (is_ofNat (by decide)) ?_ (by decide)⟩
  all_goals first | omega | (unfold Fits; omega)

end Computation

theorem rtcTimestamp_word {d : DateTime} (since : 1970 ≤ d.year) (fits : d.year < 2 ^ 31) :
    (rtcTimestamp d.rtcTime).word = BitVec.ofNat 32 d.seconds := by
  obtain ⟨fourth, century, fourCenturies⟩ := quotients_are since fits
  have year := (year_is since fits).wraps
  have sum : (rtcTimestamp d.rtcTime).Wraps _ :=
    ((((((((wraps_ofInt 0).addUnsigned (wraps_ofInt d.sec)).addUnsigned
      ((wraps_ofInt d.min).mul (wraps_ofInt 60))).addUnsigned
      ((wraps_ofInt d.hour).mul (wraps_ofInt 3600))).addUnsigned
      ((wraps_ofInt d.daysBefore).mul (wraps_ofInt 86400))).addUnsigned
      ((year.sub (wraps_ofInt 70)).mul (wraps_ofInt 31536000))).addUnsigned
      (fourth.wraps.mul (wraps_ofInt 86400))).subUnsigned
      (century.wraps.mul (wraps_ofInt 86400))).addUnsigned
      (fourCenturies.wraps.mul (wraps_ofInt 86400))
  have days := daysBeforeYear_eq since
  refine (show (rtcTimestamp d.rtcTime).word = BitVec.ofInt 32 _ from sum).trans ?_
  rw [← BitVec.ofInt_natCast]
  congr 1
  unfold DateTime.seconds DateTime.daysSinceEpoch
  omega

/-- **The timestamp is the time of the clock** that counts from the first second of 1970 on, up to
multiples of `2 ^ 32`. -/
theorem rtcTimestamp_eq (d : DateTime) (since : 1970 ≤ d.year) (fits : d.year < 2 ^ 31) :
    DateTime.epoch.after d.seconds = d ∧
      (rtcTimestamp { d.rtcTime with yday := rtcGetYday d.rtcTime }).word = BitVec.ofNat 32 d.seconds := by
  refine ⟨DateTime.epoch_after_seconds since, ?_⟩
  rw [rtcGetYday_eq d d.rtcTime rfl rfl rfl]
  exact rtcTimestamp_word since fits

/-- The leap day of 2000, which the rule of the centuries alone would leave out. -/
theorem rtcTimestamp_eq_leap_day :
    let d : DateTime := ⟨2000, 2, 29, 23, 59, 59, by decide, by decide, by decide, by decide, by decide⟩
    DateTime.epoch.after d.seconds = d ∧
      (rtcTimestamp { d.rtcTime with yday := rtcGetYday d.rtcTime }).word = BitVec.ofNat 32 d.seconds :=
  rtcTimestamp_eq _ (by decide) (by decide)

/-! ## Overflow -/

/-- The product of the years and the seconds of a year is the only one that can overflow. -/
theorem rtcTimestamp_exact_iff {d : DateTime} (since : 1970 ≤ d.year) (fits : d.year < 2 ^ 31) :
    (rtcTimestamp d.rtcTime).exact = true ↔ d.year ≤ 2038 := by
  have word : 0 < 32 := by decide
  have inside := d.daysBefore_lt
  have length : yearLength d.year ≤ 366 := by
    rw [yearLength_eq]
    split <;> decide
  have hours := d.hourValid
  have minutes := d.minValid
  obtain ⟨fourth, century, fourCenturies⟩ := quotients_are since fits
  have day : (86400 : Checked 32).Is 86400 := is_ofNat (by decide)
  have min : (.ofInt d.min * 60 : Checked 32).exact = true :=
    exact_mul_natCast (n := 60) word (by omega) (by decide) (by omega)
  have hour : (.ofInt d.hour * 3600 : Checked 32).exact = true :=
    exact_mul_natCast (n := 3600) word (by omega) (by decide) (by omega)
  have yday : (.ofInt d.daysBefore * 86400 : Checked 32).exact = true :=
    exact_mul_natCast (n := 86400) word (by omega) (by decide) (by omega)
  have years : ((.ofInt d.year - 1900 - 70) * 31536000 : Checked 32).exact = true ↔ d.year ≤ 2038 := by
    refine (exact_mul_iff word (.sub word (year_is since fits) (is_ofNat (by decide)) ?_)
      (is_ofNat (by decide))).trans ?_
    all_goals
      unfold Fits
      omega
  unfold rtcTimestamp addUnsigned subUnsigned DateTime.rtcTime
  simp only [Bool.and_eq_true]
  constructor
  · rintro ⟨⟨⟨⟨-, exact⟩, -⟩, -⟩, -⟩
    exact years.mp exact
  · intro before
    refine ⟨⟨⟨⟨⟨⟨⟨⟨rfl, rfl⟩, min⟩, hour⟩, yday⟩, years.mpr before⟩, ?_⟩, ?_⟩, ?_⟩
    · exact (exact_mul_iff word fourth day).mpr (by unfold Fits; omega)
    · exact (exact_mul_iff word century day).mpr (by unfold Fits; omega)
    · exact (exact_mul_iff word fourCenturies day).mpr (by unfold Fits; omega)

theorem seconds_lt {d : DateTime} (since : 1970 ≤ d.year) (before : d.year ≤ 2038) : d.seconds < 2 ^ 32 := by
  have inside := d.daysBefore_lt
  have days := daysBeforeYear_eq since
  have valid := And.intro d.hourValid (And.intro d.minValid d.secValid)
  rw [yearLength_eq] at inside
  unfold DateTime.seconds DateTime.daysSinceEpoch
  split at inside <;> omega

/-- A call that reads `d` overflows nowhere and returns its seconds, and every call that reads an earlier
time returns less. -/
def TimestampOk (cmos : Cmos) (fuel : Nat) (d : DateTime) : Prop :=
  ∃ timestamp, rtcGetTimestamp cmos fuel = .ok timestamp ∧ timestamp.exact = true ∧
    timestamp.word.toNat = d.seconds ∧
      ∀ (cmos' : Cmos) (fuel' : Nat) (earlier : DateTime) (n : Nat) (timestamp' : Checked 32),
        2022 ≤ earlier.year → 0 < n → earlier.after n = d →
          rtcReadTime cmos' fuel' = .ok earlier.rtcTime →
            rtcGetTimestamp cmos' fuel' = .ok timestamp' → timestamp'.word.toNat < timestamp.word.toNat

theorem rtcGetTimestamp_eq {cmos : Cmos} {fuel : Nat} {d : DateTime}
    (reads : rtcReadTime cmos fuel = .ok d.rtcTime) :
    rtcGetTimestamp cmos fuel = .ok (rtcTimestamp d.rtcTime) := by
  rw [rtcGetTimestamp, reads]
  rfl

theorem toNat_rtcTimestamp {d : DateTime} (since : 1970 ≤ d.year) (before : d.year ≤ 2038) :
    (rtcTimestamp d.rtcTime).word.toNat = d.seconds := by
  rw [rtcTimestamp_word since (by omega), BitVec.toNat_ofNat, Nat.mod_eq_of_lt (seconds_lt since before)]

/-- **The range of the timestamps.** A date and time of those that can be read has its timestamp exactly
up to the year 2038. -/
theorem timestampOk_iff (cmos : Cmos) (fuel : Nat) (d : DateTime)
    (reads : rtcReadTime cmos fuel = .ok d.rtcTime) (atLeast : 2022 ≤ d.year) (atMost : d.year ≤ 2121) :
    TimestampOk cmos fuel d ↔ d.year ≤ 2038 := by
  have since : 1970 ≤ d.year := by omega
  have fits : d.year < 2 ^ 31 := by omega
  constructor
  · rintro ⟨timestamp, returns, exact, -⟩
    rw [rtcGetTimestamp_eq reads] at returns
    rw [← Except.ok.inj returns] at exact
    exact (rtcTimestamp_exact_iff since fits).mp exact
  · intro before
    have right := toNat_rtcTimestamp since before
    refine ⟨_, rtcGetTimestamp_eq reads, (rtcTimestamp_exact_iff since fits).mpr before, right, ?_⟩
    intro cmos' fuel' earlier n timestamp' atLeast' later after reads' returns'
    have since' : 1970 ≤ earlier.year := by omega
    have seconds := DateTime.after_seconds since' n
    have order := DateTime.year_le_after earlier n
    rw [after] at seconds order
    rw [rtcGetTimestamp_eq reads'] at returns'
    rw [← Except.ok.inj returns', toNat_rtcTimestamp since' (order.trans before), right]
    omega

/-- The last second that is right. -/
theorem timestampOk_iff_last :
    let d : DateTime := ⟨2038, 12, 31, 23, 59, 59, by decide, by decide, by decide, by decide, by decide⟩
    TimestampOk (constantCmos 0x06 d) 4 d ↔ d.year ≤ 2038 :=
  timestampOk_iff _ _ _ (by decide) (by decide) (by decide)

/-- The first second that is not. -/
theorem not_timestampOk_2039 :
    ¬∀ (cmos : Cmos) (fuel : Nat) (d : DateTime), rtcReadTime cmos fuel = .ok d.rtcTime →
      2022 ≤ d.year → d.year ≤ 2121 → TimestampOk cmos fuel d := by
  intro right
  let d : DateTime := ⟨2039, 1, 1, 0, 0, 0, by decide, by decide, by decide, by decide, by decide⟩
  have reads : rtcReadTime (constantCmos 0x06 d) 4 = .ok d.rtcTime := by decide
  obtain ⟨timestamp, returns, exact, -⟩ := right (constantCmos 0x06 d) 4 d reads (by decide) (by decide)
  rw [← Except.ok.inj ((rtcGetTimestamp_eq reads).symm.trans returns)] at exact
  revert exact
  decide

end Nulix.Rtc
