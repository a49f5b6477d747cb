import Mathlib.Tactic.IntervalCases
import Nulix.Rtc.Calendar

/-!
# What the driver makes of the registers

The fields are decoded one by one, and each conversion undoes its encoding; only the conversion of twelve
hours to twenty-four misses the hour before one.
-/

namespace Nulix.Rtc

open Fallible

/-! ## Fields -/

/-- A field that is not the hour. -/
def decodeField (regB x : Nat) : Nat := if regB &&& 0x04 = 0 then bcdToBinary x else x

def decodeHour (regB x : Nat) : Nat :=
  let hour := if regB &&& 0x04 = 0 then ((x &&& 0x0F) + (x &&& 0x70) / 16 * 10) ||| (x &&& 0x80) else x
  if regB &&& 0x02 = 0 ∧ hour &&& 0x80 ≠ 0 then ((hour &&& 0x7f) + 12) % 24 else hour

def decodeYear (regB x : Nat) : Nat :=
  let year := decodeField regB x + 2000
  if year < 2022 then year + 100 else year

theorem rtcDecode_eq (regB : Nat) (tm : RtcTime) :
    rtcDecode regB tm =
      let t : RtcTime :=
        { sec := decodeField regB tm.sec
          min := decodeField regB tm.min
          hour := decodeHour regB tm.hour
          day := decodeField regB tm.day
          mon := decodeField regB tm.mon
          year := decodeYear regB tm.year
          yday := tm.yday }
      { t with yday := rtcGetYday t } := by
  unfold rtcDecode decodeHour decodeYear decodeField
  dsimp only
  by_cases digits : regB &&& 0x04 = 0
  · simp only [if_pos digits, rtcConvertBCDtobinary]
    split <;> dsimp only <;> split <;> rfl
  · simp only [if_neg digits]
    split <;> split <;> rfl

theorem and_four_eq_zero (regB : BitVec 8) : regB.toNat &&& 0x04 = 0 ↔ isBinary regB = false := by
  revert regB
  decide +kernel

/-- Every field but the hour is decoded to what was encoded. -/
theorem decodeField_encode (regB : BitVec 8) {x : Nat} (small : x < 100) :
    decodeField regB.toNat (encode (isBinary regB) x).toNat = x := by
  have digits : ∀ x < 100, bcdToBinary (encode false x).toNat = x := by decide +kernel
  unfold decodeField
  cases binary : isBinary regB with
  | false => rw [if_pos ((and_four_eq_zero regB).mpr binary), digits x small]
  | true =>
    rw [if_neg fun none => Bool.false_ne_true (((and_four_eq_zero regB).mp none).symm.trans binary)]
    show (BitVec.ofNat 8 x).toNat = x
    rw [BitVec.toNat_ofNat, Nat.mod_eq_of_lt (by omega)]

/-- The hour too, but for noon and midnight of twelve hours, which change places. -/
theorem decodeHour_encodeHour (regB : BitVec 8) {hour : Nat} (valid : hour < 24) :
    decodeHour regB.toNat (encodeHour (isBinary regB) (is24Hours regB) hour).toNat =
      if is24Hours regB = true ∨ hour % 12 ≠ 0 then hour else 12 - hour := by
  let mode : Bool → Bool → Nat := fun binary hours24 =>
    (if binary then 0x04 else 0) ||| if hours24 then 0x02 else 0
  have modes : ∀ binary hours24, ∀ hour < 24,
      decodeHour (mode binary hours24) (encodeHour binary hours24 hour).toNat =
        if hours24 = true ∨ hour % 12 ≠ 0 then hour else 12 - hour := by decide +kernel
  have bits : ∀ regB : BitVec 8,
      regB.toNat &&& 0x04 = mode (isBinary regB) (is24Hours regB) &&& 0x04 ∧
        regB.toNat &&& 0x02 = mode (isBinary regB) (is24Hours regB) &&& 0x02 := by decide +kernel
  have same : ∀ x, decodeHour regB.toNat x = decodeHour (mode (isBinary regB) (is24Hours regB)) x := by
    intro x
    rw [decodeHour, (bits regB).1, (bits regB).2]
    rfl
  rw [same]
  exact modes _ _ hour valid

theorem decodeYear_encode (regB : BitVec 8) {year : Nat} (atLeast : 2022 ≤ year) (atMost : year ≤ 2121) :
    decodeYear regB.toNat (encode (isBinary regB) (year % 100)).toNat = year := by
  unfold decodeYear
  rw [decodeField_encode regB (Nat.mod_lt _ (by decide))]
  dsimp only
  split <;> omega

/-- The day of the year is the sum of the months before. -/
theorem rtcGetYday_eq (d : DateTime) (t : RtcTime) (day : t.day = d.day) (mon : t.mon = d.mon)
    (year : t.year = d.year) : rtcGetYday t = d.daysBefore := by
  have leap : (t.year % 4 = 0 ∧ (t.year % 400 = 0 ∨ t.year % 100 ≠ 0)) ↔ isLeap d.year = true := by
    rw [year, isLeap, decide_eq_true_iff]
    exact and_congr_right' or_comm
  obtain ⟨low, high⟩ := d.monValid
  have first := d.dayValid.1
  have february : monthLength d.year 2 = if isLeap d.year then 29 else 28 := rfl
  have others : monthLength d.year 1 = 31 ∧ monthLength d.year 3 = 31 ∧ monthLength d.year 4 = 30 ∧
      monthLength d.year 5 = 31 ∧ monthLength d.year 6 = 30 ∧ monthLength d.year 7 = 31 ∧
      monthLength d.year 8 = 31 ∧ monthLength d.year 9 = 30 ∧ monthLength d.year 10 = 31 ∧
      monthLength d.year 11 = 30 := ⟨rfl, rfl, rfl, rfl, rfl, rfl, rfl, rfl, rfl, rfl⟩
  unfold rtcGetYday DateTime.daysBefore
  simp only [leap]
  rw [day, mon]
  generalize monthLength d.year = length at *
  generalize d.mon = m at *
  generalize isLeap d.year = leapYear at *
  cases leapYear <;> simp only [if_true, Bool.false_eq_true, if_false] at february ⊢ <;>
    interval_cases m <;> simp [List.range_succ] <;> omega

/-- The values that the registers hold. -/
def DateTime.raw (d : DateTime) (regB : BitVec 8) : RtcTime where
  sec := (d.register regB cmosRegSec).toNat
  min := (d.register regB cmosRegMin).toNat
  hour := (d.register regB cmosRegHour).toNat
  day := (d.register regB cmosRegDay).toNat
  mon := (d.register regB cmosRegMon).toNat
  year := (d.register regB cmosRegYear).toNat
  yday := 0

theorem DateTime.raw_eq (d : DateTime) (regB : BitVec 8) :
    d.raw regB =
      { sec := (encode (isBinary regB) d.sec).toNat
        min := (encode (isBinary regB) d.min).toNat
        hour := (encodeHour (isBinary regB) (is24Hours regB) d.hour).toNat
        day := (encode (isBinary regB) d.day).toNat
        mon := (encode (isBinary regB) d.mon).toNat
        year := (encode (isBinary regB) (d.year % 100)).toNat
        yday := 0 } := by
  simp [DateTime.raw, DateTime.register, cmosRegSec, cmosRegMin, cmosRegHour, cmosRegDay, cmosRegMon,
    cmosRegYear]

/-- What `rtc_read_time` is to return. -/
def DateTime.rtcTime (d : DateTime) : RtcTime :=
  ⟨d.sec, d.min, d.hour, d.day, d.mon, d.year, d.daysBefore⟩

/-- What it does return. -/
theorem rtcDecode_raw (regB : BitVec 8) (d : DateTime) (atLeast : 2022 ≤ d.year) (atMost : d.year ≤ 2121) :
    rtcDecode regB.toNat (d.raw regB) =
      { d.rtcTime with
        hour := if is24Hours regB = true ∨ d.hour % 12 ≠ 0 then d.hour else 12 - d.hour } := by
  have month := monthLength_bounds d.year d.mon
  obtain ⟨-, lastMonth⟩ := d.monValid
  obtain ⟨-, lastDay⟩ := d.dayValid
  have valid := d.secValid
  have valid' := d.minValid
  have sec : decodeField regB.toNat (encode (isBinary regB) d.sec).toNat = d.sec :=
    decodeField_encode regB (by omega)
  have min : decodeField regB.toNat (encode (isBinary regB) d.min).toNat = d.min :=
    decodeField_encode regB (by omega)
  have day : decodeField regB.toNat (encode (isBinary regB) d.day).toNat = d.day :=
    decodeField_encode regB (by omega)
  have mon : decodeField regB.toNat (encode (isBinary regB) d.mon).toNat = d.mon :=
    decodeField_encode regB (by omega)
  rw [rtcDecode_eq, d.raw_eq]
  dsimp only
  rw [sec, min, day, mon, decodeHour_encodeHour regB d.hourValid, decodeYear_encode regB atLeast atMost,
    rtcGetYday_eq d _ rfl rfl rfl]
  rfl

/-! ## The loop -/

/-- The flag of an update is clear again after every read. -/
def Ready (cmos : Cmos) : Prop := ∀ k, ∃ j, k ≤ j ∧ rtcGetReg cmos cmosRegA j &&& 0x80 = 0

variable {cmos : Cmos}

theorem rtcWait_ready {k j : Nat} (later : k ≤ j) (clear : rtcGetReg cmos cmosRegA j &&& 0x80 = 0) :
    ∃ n enough, ∀ fuel, enough ≤ fuel → rtcWait cmos fuel k = .ok n := by
  obtain ⟨d, rfl⟩ := Nat.exists_eq_add_of_le later
  induction d generalizing k with
  | zero =>
    refine ⟨k + 1, 1, fun fuel enough => ?_⟩
    obtain ⟨fuel, rfl⟩ := Nat.exists_eq_succ_of_ne_zero (Nat.ne_of_gt enough)
    rw [Nat.add_zero] at clear
    rw [rtcWait, if_neg (not_not_intro clear)]
  | succ d ih =>
    by_cases now : rtcGetReg cmos cmosRegA k &&& 0x80 = 0
    · refine ⟨k + 1, 1, fun fuel enough => ?_⟩
      obtain ⟨fuel, rfl⟩ := Nat.exists_eq_succ_of_ne_zero (Nat.ne_of_gt enough)
      rw [rtcWait, if_neg (not_not_intro now)]
    · rw [show k + (d + 1) = k + 1 + d by omega] at clear
      obtain ⟨n, enough, waits⟩ := ih (Nat.le_add_right _ _) clear
      refine ⟨n, enough + 1, fun fuel more => ?_⟩
      obtain ⟨fuel, rfl⟩ := Nat.exists_eq_succ_of_ne_zero (Nat.ne_of_gt (Nat.zero_lt_of_lt more))
      rw [rtcWait, if_pos now]
      exact waits fuel (Nat.le_of_succ_le_succ more)

/-- A pass over registers that do not change. -/
theorem rtcPass_constant {regB : BitVec 8} {d : DateTime} (shows : Shows cmos regB fun _ => d)
    (reads : Nat) (s : RtcLoop) :
    (rtcPass cmos reads s).tm = { d.raw regB with yday := s.tm.yday } := by
  have value : ∀ k, ∀ reg ∈ timeRegisters, rtcGetReg cmos reg k = (d.register regB reg).toNat :=
    fun k reg mem => congrArg BitVec.toNat (shows k reg mem)
  unfold rtcPass
  rw [value _ _ (by decide), value _ _ (by decide), value _ _ (by decide), value _ _ (by decide),
    value _ _ (by decide), value _ _ (by decide)]
  rfl

/-- The first pass is never mistaken for a second one: no date has day 0. -/
theorem raw_day_ne_zero (d : DateTime) (regB : BitVec 8) : (d.raw regB).day ≠ 0 := by
  intro zero
  have month := monthLength_bounds d.year d.mon
  obtain ⟨first, last⟩ := d.dayValid
  rw [d.raw_eq] at zero
  have same : encode (isBinary regB) d.day = encode (isBinary regB) 0 := by
    refine BitVec.eq_of_toNat_eq (zero.trans ?_)
    cases isBinary regB <;> rfl
  have none := encode_injective _ (by omega) (by decide) same
  omega

/-- Registers that do not change are read in two passes. -/
theorem rtcReadTime_constant {regB : BitVec 8} {d : DateTime} (shows : Shows cmos regB fun _ => d)
    (mode : ∀ k, cmos k cmosRegB = regB) (ready : Ready cmos) :
    ∃ enough, ∀ fuel, enough ≤ fuel →
      rtcReadTime cmos fuel = .ok (rtcDecode regB.toNat (d.raw regB)) := by
  obtain ⟨j, later, clear⟩ := ready 0
  obtain ⟨n, enough, waits⟩ := rtcWait_ready later clear
  obtain ⟨j', later', clear'⟩ := ready (n + 6)
  obtain ⟨n', enough', waits'⟩ := rtcWait_ready later' clear'
  refine ⟨enough + enough' + 2, fun fuel more => ?_⟩
  obtain ⟨turns, rfl⟩ : ∃ turns, fuel = turns + 2 := ⟨fuel - 2, by omega⟩
  have first := rtcPass_constant shows n .start
  have second := rtcPass_constant shows n' (rtcPass cmos n .start)
  have goesOn : rtcIsdiff (rtcPass cmos n .start).tm RtcLoop.start.tm = true := by
    rw [first]
    exact decide_eq_true (.inr (.inr (.inr (.inl (raw_day_ne_zero d regB)))))
  have stops : rtcIsdiff (rtcPass cmos n' (rtcPass cmos n .start)).tm (rtcPass cmos n .start).tm = false := by
    rw [second, first]
    simp [rtcIsdiff]
  have loop : rtcReadLoop cmos (turns + 2) (turns + 2) .start =
      .ok (rtcPass cmos n' (rtcPass cmos n .start)) := by
    rw [rtcReadLoop]
    show (rtcWait cmos (turns + 2) 0 >>= _) = _
    rw [waits _ (by omega)]
    show (if rtcIsdiff (rtcPass cmos n .start).tm RtcLoop.start.tm = true then _ else _) = _
    rw [if_pos goesOn, rtcReadLoop]
    show (rtcWait cmos (turns + 2) (n + 6) >>= _) = _
    rw [waits' _ (by omega)]
    show (if rtcIsdiff (rtcPass cmos n' (rtcPass cmos n .start)).tm (rtcPass cmos n .start).tm = true
      then _ else _) = _
    rw [stops, if_neg Bool.false_ne_true]
    rfl
  unfold rtcReadTime
  rw [loop]
  show Except.ok (rtcDecode (cmos _ cmosRegB).toNat _) = _
  rw [mode, second, first]
  rfl

/-! ## The round trip -/

/-- **Decoding undoes encoding**, for every date and time of the hundred years from 2022 on and every
choice of register B, exactly if the registers show 24 hours or the hour is neither noon's nor
midnight's. -/
theorem rtcReadTime_iff (cmos : Cmos) (regB : BitVec 8) (d : DateTime) (atLeast : 2022 ≤ d.year)
    (atMost : d.year ≤ 2121) (shows : Shows cmos regB fun _ => d) (mode : ∀ k, cmos k cmosRegB = regB)
    (ready : Ready cmos) :
    (∃ enough, ∀ fuel, enough ≤ fuel → rtcReadTime cmos fuel = .ok d.rtcTime) ↔
      is24Hours regB = true ∨ d.hour % 12 ≠ 0 := by
  have valid := d.hourValid
  obtain ⟨enough, reads⟩ := rtcReadTime_constant shows mode ready
  rw [rtcDecode_raw regB d atLeast atMost] at reads
  constructor
  · rintro ⟨enough', right⟩
    by_contra wrong
    have same := (reads _ (Nat.le_add_right enough enough')).symm.trans
      (right _ (Nat.le_add_left enough' enough))
    have hour := congrArg RtcTime.hour (Except.ok.inj same)
    dsimp only at hour
    rw [if_neg wrong] at hour
    have twelve : d.hour % 12 = 0 := by
      by_contra other
      exact wrong (.inr other)
    have same' : 12 - d.hour = d.hour := hour
    omega
  · intro right
    refine ⟨enough, fun fuel more => ?_⟩
    rw [reads fuel more, if_pos right]
    rfl

/-- Registers that show `d` and are never updated. -/
def constantCmos (regB : BitVec 8) (d : DateTime) : Cmos :=
  fun _ reg => if reg = cmosRegB then regB else if reg = cmosRegA then 0 else d.register regB reg

theorem constantCmos_shows (regB : BitVec 8) (d : DateTime) :
    Shows (constantCmos regB d) regB (fun _ => d) ∧ (∀ k, constantCmos regB d k cmosRegB = regB) ∧
      Ready (constantCmos regB d) := by
  have idle : (0 : BitVec 8).toNat &&& 0x80 = 0 := by decide
  refine ⟨fun k reg mem => ?_, fun k => if_pos rfl, fun k => ⟨k, Nat.le_refl k, idle⟩⟩
  have other : reg ≠ cmosRegB ∧ reg ≠ cmosRegA := by
    revert reg
    decide
  rw [constantCmos, if_neg other.1, if_neg other.2]

/-- Half past three in the afternoon of a leap day, in decimal digits and twelve hours. -/
theorem rtcReadTime_iff_leap_day :
    let d : DateTime := ⟨2024, 2, 29, 15, 30, 0, by decide, by decide, by decide, by decide, by decide⟩
    (∃ enough, ∀ fuel, enough ≤ fuel → rtcReadTime (constantCmos 0 d) fuel = .ok d.rtcTime) ↔
      is24Hours 0 = true ∨ d.hour % 12 ≠ 0 :=
  rtcReadTime_iff _ 0 _ (by decide) (by decide) (constantCmos_shows _ _).1 (constantCmos_shows _ _).2.1
    (constantCmos_shows _ _).2.2

/-- Half past noon is read as half past midnight. -/
theorem not_rtcReadTime_noon :
    ¬∀ (cmos : Cmos) (regB : BitVec 8) (d : DateTime), 2022 ≤ d.year → d.year ≤ 2121 →
      Shows cmos regB (fun _ => d) → (∀ k, cmos k cmosRegB = regB) → Ready cmos →
        ∃ enough, ∀ fuel, enough ≤ fuel → rtcReadTime cmos fuel = .ok d.rtcTime := by
  intro decodes
  let d : DateTime := ⟨2023, 1, 18, 12, 30, 0, by decide, by decide, by decide, by decide, by decide⟩
  obtain ⟨shows, mode, ready⟩ := constantCmos_shows 0 d
  obtain ⟨enough, right⟩ := decodes _ 0 d (by decide) (by decide) shows mode ready
  obtain ⟨enough', reads⟩ := rtcReadTime_constant shows mode ready
  have same := (reads _ (Nat.le_add_left enough' enough)).symm.trans
    (right _ (Nat.le_add_right enough enough'))
  have hour := congrArg RtcTime.hour (Except.ok.inj same)
  revert hour
  decide

end Nulix.Rtc
