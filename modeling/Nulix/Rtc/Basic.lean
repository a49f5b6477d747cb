import Mathlib.Data.BitVec
import Nulix.Lib.Fallible

/-!
# The real time clock driver

`drivers/rtc/rtc.c`. The registers of the CMOS may change at any time, so that what a read of the data
port gives depends on its place among the reads of the call.
-/

namespace Nulix.Rtc

open Fallible

/-! ## Registers -/

/-- The values of the registers at each read of the data port, which are counted from 0. -/
abbrev Cmos := Nat → BitVec 8 → BitVec 8

def cmosRegSec : BitVec 8 := 0x00
def cmosRegMin : BitVec 8 := 0x02
def cmosRegHour : BitVec 8 := 0x04
def cmosRegDay : BitVec 8 := 0x07
def cmosRegMon : BitVec 8 := 0x08
def cmosRegYear : BitVec 8 := 0x09
def cmosRegA : BitVec 8 := 0x0A
def cmosRegB : BitVec 8 := 0x0B

/-- `rtc_get_reg`, as read number `reads`. -/
def rtcGetReg (cmos : Cmos) (reg : BitVec 8) (reads : Nat) : Nat := (cmos reads reg).toNat

/-! ## Time -/

/-- `struct rtc_time`. Only `yday` can be negative. -/
structure RtcTime where
  sec : Nat
  min : Nat
  hour : Nat
  day : Nat
  mon : Nat
  year : Nat
  yday : Int
  deriving DecidableEq, Repr

/-- `memset(tm, 0, sizeof(struct rtc_time))` -/
def RtcTime.zero : RtcTime := ⟨0, 0, 0, 0, 0, 0, 0⟩

/-- `rtc_isdiff` -/
def rtcIsdiff (tm1 tm2 : RtcTime) : Bool :=
  tm1.sec ≠ tm2.sec ∨ tm1.min ≠ tm2.min ∨ tm1.hour ≠ tm2.hour ∨ tm1.day ≠ tm2.day ∨
    tm1.mon ≠ tm2.mon ∨ tm1.year ≠ tm2.year

/-- `rtc_get_yday` -/
def rtcGetYday (t : RtcTime) : Int :=
  let yday : Int := t.day - 1
  let yday := if t.mon > 1 then yday + 31 else yday
  let yday :=
    if t.mon > 2 then
      if t.year % 4 = 0 ∧ (t.year % 400 = 0 ∨ t.year % 100 ≠ 0) then yday + 29 else yday + 28
    else yday
  let yday := if t.mon > 3 then yday + 31 else yday
  let yday := if t.mon > 4 then yday + 30 else yday
  let yday := if t.mon > 5 then yday + 31 else yday
  let yday := if t.mon > 6 then yday + 30 else yday
  let yday := if t.mon > 7 then yday + 31 else yday
  let yday := if t.mon > 8 then yday + 31 else yday
  let yday := if t.mon > 9 then yday + 30 else yday
  let yday := if t.mon > 10 then yday + 31 else yday
  if t.mon > 11 then yday + 30 else yday

/-- The conversion of a field that has only digits. -/
def bcdToBinary (x : Nat) : Nat := (x &&& 0x0F) + x / 16 * 10

/-- `rtc_convert_BCDtobinary` -/
def rtcConvertBCDtobinary (tm : RtcTime) : RtcTime :=
  { tm with
    sec := bcdToBinary tm.sec
    min := bcdToBinary tm.min
    hour := ((tm.hour &&& 0x0F) + (tm.hour &&& 0x70) / 16 * 10) ||| (tm.hour &&& 0x80)
    day := bcdToBinary tm.day
    mon := bcdToBinary tm.mon
    year := bcdToBinary tm.year }

/-! ## Reading -/

/-- A wait without an end. -/
inductive Stuck
  | updating
  | changing
  deriving DecidableEq, Repr

/-- The variables of the loop, and the number of reads so far. The last field is not in the source: it
records the numbers of the reads of the seconds register, the latest first. -/
structure RtcLoop where
  tm : RtcTime
  reads : Nat
  secReads : List Nat
  deriving DecidableEq, Repr

/-- The wait for the end of an update. It gives the number of the next read. -/
def rtcWait (cmos : Cmos) : Nat → Nat → Except Stuck Nat
  | 0, _ => .error .updating
  | fuel + 1, reads =>
    if rtcGetReg cmos cmosRegA reads &&& 0x80 ≠ 0 then rtcWait cmos fuel (reads + 1)
    else .ok (reads + 1)

/-- The six reads of a pass, the first of them read number `reads`. -/
def rtcPass (cmos : Cmos) (reads : Nat) (s : RtcLoop) : RtcLoop where
  tm :=
    { s.tm with
      sec := rtcGetReg cmos cmosRegSec reads
      min := rtcGetReg cmos cmosRegMin (reads + 1)
      hour := rtcGetReg cmos cmosRegHour (reads + 2)
      day := rtcGetReg cmos cmosRegDay (reads + 3)
      mon := rtcGetReg cmos cmosRegMon (reads + 4)
      year := rtcGetReg cmos cmosRegYear (reads + 5) }
  reads := reads + 6
  secReads := reads :: s.secReads

/-- The loop of `rtc_read_time`, allowed `turns` passes with less than `fuel` reads of register A each. -/
def rtcReadLoop (cmos : Cmos) (fuel : Nat) : Nat → RtcLoop → Except Stuck RtcLoop
  | 0, _ => .error .changing
  | turns + 1, s => do
    let ltm := s.tm
    let reads ← rtcWait cmos fuel s.reads
    let s := rtcPass cmos reads s
    if rtcIsdiff s.tm ltm then rtcReadLoop cmos fuel turns s else return s

def RtcLoop.start : RtcLoop := { tm := .zero, reads := 0, secReads := [] }

/-- What `rtc_read_time` makes of the values of the registers. -/
def rtcDecode (regB : Nat) (tm : RtcTime) : RtcTime :=
  let curyear := 2022
  let tm := if regB &&& 0x04 = 0 then rtcConvertBCDtobinary tm else tm
  let tm :=
    if regB &&& 0x02 = 0 ∧ tm.hour &&& 0x80 ≠ 0 then { tm with hour := ((tm.hour &&& 0x7f) + 12) % 24 }
    else tm
  let tm := { tm with year := tm.year + curyear / 100 * 100 }
  let tm := if tm.year < curyear then { tm with year := tm.year + 100 } else tm
  { tm with yday := rtcGetYday tm }

/-- `rtc_read_time` -/
def rtcReadTime (cmos : Cmos) (fuel : Nat) : Except Stuck RtcTime := do
  let s ← rtcReadLoop cmos fuel fuel .start
  return rtcDecode (rtcGetReg cmos cmosRegB s.reads) s.tm

end Nulix.Rtc
