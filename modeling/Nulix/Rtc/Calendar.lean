import Nulix.Rtc.Basic

/-!
# Dates and their registers

The Gregorian calendar, a clock that goes on by a second at a time, and the two independent choices of
register B about the form of the registers: binary or decimal digits, and 24 or 12 hours.
-/

namespace Nulix.Rtc

/-! ## The calendar -/

def isLeap (year : Nat) : Bool := year % 4 = 0 ∧ (year % 100 ≠ 0 ∨ year % 400 = 0)

def monthLength (year : Nat) : Nat → Nat
  | 2 => if isLeap year then 29 else 28
  | 4 | 6 | 9 | 11 => 30
  | _ => 31

theorem monthLength_bounds (year mon : Nat) : 28 ≤ monthLength year mon ∧ monthLength year mon ≤ 31 := by
  unfold monthLength
  split
  · split <;> decide
  all_goals decide

/-- A valid date and time. -/
@[ext] structure DateTime where
  year : Nat
  mon : Nat
  day : Nat
  hour : Nat
  min : Nat
  sec : Nat
  monValid : 1 ≤ mon ∧ mon ≤ 12
  dayValid : 1 ≤ day ∧ day ≤ monthLength year mon
  hourValid : hour < 24
  minValid : min < 60
  secValid : sec < 60

namespace DateTime

/-- The days of the year before the day. -/
def daysBefore (d : DateTime) : Nat :=
  ((List.range (d.mon - 1)).map fun m => monthLength d.year (m + 1)).sum + (d.day - 1)

/-- The next second. -/
def tick (d : DateTime) : DateTime :=
  if sec : d.sec + 1 < 60 then { d with sec := d.sec + 1, secValid := sec }
  else if min : d.min + 1 < 60 then
    { d with sec := 0, secValid := by decide, min := d.min + 1, minValid := min }
  else if hour : d.hour + 1 < 24 then
    { d with
      sec := 0
      secValid := by decide
      min := 0
      minValid := by decide
      hour := d.hour + 1
      hourValid := hour }
  else if day : d.day + 1 ≤ monthLength d.year d.mon then
    { d with
      sec := 0
      secValid := by decide
      min := 0
      minValid := by decide
      hour := 0
      hourValid := by decide
      day := d.day + 1
      dayValid := ⟨Nat.le_add_left 1 d.day, day⟩ }
  else if mon : d.mon + 1 ≤ 12 then
    { sec := 0
      secValid := by decide
      min := 0
      minValid := by decide
      hour := 0
      hourValid := by decide
      day := 1
      dayValid := ⟨Nat.le_refl 1, Nat.le_trans (by decide) (monthLength_bounds _ _).1⟩
      mon := d.mon + 1
      monValid := ⟨Nat.le_add_left 1 d.mon, mon⟩
      year := d.year }
  else
    { sec := 0
      secValid := by decide
      min := 0
      minValid := by decide
      hour := 0
      hourValid := by decide
      day := 1
      dayValid := ⟨Nat.le_refl 1, Nat.le_trans (by decide) (monthLength_bounds _ _).1⟩
      mon := 1
      monValid := by decide
      year := d.year + 1 }

/-- The first second of 1970. -/
def epoch : DateTime := ⟨1970, 1, 1, 0, 0, 0, by decide, by decide, by decide, by decide, by decide⟩

theorem tick_sec (d : DateTime) : d.tick.sec = (d.sec + 1) % 60 := by
  have valid := d.secValid
  by_cases sec : d.sec + 1 < 60
  · rw [tick, dif_pos sec, Nat.mod_eq_of_lt sec]
  · have last : d.sec + 1 = 60 := by omega
    rw [tick, dif_neg sec, last]
    repeat' split
    all_goals rfl

/-- The time after `n` seconds. -/
def after (d : DateTime) (n : Nat) : DateTime := tick^[n] d

theorem after_sec (d : DateTime) (n : Nat) : (d.after n).sec = (d.sec + n) % 60 := by
  induction n with
  | zero => exact (Nat.mod_eq_of_lt d.secValid).symm
  | succ n ih =>
    rw [after, Function.iterate_succ_apply', ← after, tick_sec, ih]
    omega

end DateTime

/-! ## Registers -/

/-- A number below 100 in binary, or as two decimal digits. -/
def encode (binary : Bool) (x : Nat) : BitVec 8 :=
  if binary then .ofNat 8 x else .ofNat 8 (x / 10 * 16 + x % 10)

/-- The hour, from 0 to 23 or from 1 to 12 with a bit for the afternoon. -/
def encodeHour (binary hours24 : Bool) (hour : Nat) : BitVec 8 :=
  if hours24 then encode binary hour
  else encode binary ((hour + 11) % 12 + 1) ||| if 12 ≤ hour then 0x80 else 0

/-- The bit of register B for binary registers. -/
def isBinary (regB : BitVec 8) : Bool := regB.getLsbD 2

/-- The bit of register B for 24 hours. -/
def is24Hours (regB : BitVec 8) : Bool := regB.getLsbD 1

/-- The registers of a date and time in the form that register B chooses. -/
def DateTime.register (d : DateTime) (regB reg : BitVec 8) : BitVec 8 :=
  if reg = cmosRegSec then encode (isBinary regB) d.sec
  else if reg = cmosRegMin then encode (isBinary regB) d.min
  else if reg = cmosRegHour then encodeHour (isBinary regB) (is24Hours regB) d.hour
  else if reg = cmosRegDay then encode (isBinary regB) d.day
  else if reg = cmosRegMon then encode (isBinary regB) d.mon
  else if reg = cmosRegYear then encode (isBinary regB) (d.year % 100)
  else 0

/-- The registers of the time. -/
def timeRegisters : List (BitVec 8) :=
  [cmosRegSec, cmosRegMin, cmosRegHour, cmosRegDay, cmosRegMon, cmosRegYear]

/-- At read `k` the registers show `time k`. Register A, with its flag of an update, may be anything. -/
def Shows (cmos : Cmos) (regB : BitVec 8) (time : Nat → DateTime) : Prop :=
  ∀ k, ∀ reg ∈ timeRegisters, cmos k reg = (time k).register regB reg

theorem encode_injective (binary : Bool) {x y : Nat} (left : x < 100) (right : y < 100)
    (same : encode binary x = encode binary y) : x = y := by
  have word := congrArg BitVec.toNat same
  unfold encode at word
  cases binary with
  | false =>
    simp only [Bool.false_eq_true, if_false, BitVec.toNat_ofNat] at word
    omega
  | true =>
    simp only [if_true, BitVec.toNat_ofNat] at word
    omega

end Nulix.Rtc
