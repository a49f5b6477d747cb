import Mathlib.Order.Monotone.Basic
import Nulix.Rtc.Decode

/-!
# One instant

A clock that ticks at any moment between the reads. Two passes with the same seconds, less than a minute
apart, have no tick between them, so that all that was read from the first of the two reads of the seconds
to the second is the time of one instant.
-/

namespace Nulix.Rtc

/-- A clock: what it shows at first, and the number of ticks before each read. -/
structure Timeline where
  start : DateTime
  ticks : Nat → Nat
  mono : Monotone ticks

/-- The time at a read. -/
def Timeline.time (clock : Timeline) (k : Nat) : DateTime := clock.start.after (clock.ticks k)

/-- Two times with the same seconds that are less than a minute apart are one time, and so is all between
them. -/
theorem Timeline.time_eq {clock : Timeline} {k n : Nat}
    (close : clock.ticks n < clock.ticks k + 60) (same : (clock.time n).sec = (clock.time k).sec)
    {j : Nat} (after : k ≤ j) (before : j ≤ n) : clock.time j = clock.time k := by
  unfold Timeline.time at same ⊢
  rw [DateTime.after_sec, DateTime.after_sec] at same
  have first := clock.mono after
  have last := clock.mono before
  have equal : clock.ticks j = clock.ticks k := by omega
  rw [equal]

/-! ## Passes -/

variable {cmos : Cmos} {regB : BitVec 8} {time : Nat → DateTime}

/-- The fields that the pass from read `k` on leaves. -/
def passTm (cmos : Cmos) (k : Nat) : RtcTime := (rtcPass cmos k .start).tm

theorem rtcPass_tm {s : RtcLoop} (yday : s.tm.yday = 0) (k : Nat) :
    (rtcPass cmos k s).tm = passTm cmos k := by
  unfold passTm rtcPass
  dsimp only
  rw [yday]
  rfl

theorem rtcGetReg_shows (shows : Shows cmos regB time) (k : Nat) {reg : BitVec 8}
    (mem : reg ∈ timeRegisters) : rtcGetReg cmos reg k = ((time k).register regB reg).toNat :=
  congrArg BitVec.toNat (shows k reg mem)

/-- A pass without a tick reads one time. -/
theorem passTm_eq (shows : Shows cmos regB time) {k : Nat} {d : DateTime}
    (still : ∀ j, k ≤ j → j ≤ k + 5 → time j = d) : passTm cmos k = d.raw regB := by
  have value : ∀ i, i ≤ 5 → ∀ reg ∈ timeRegisters,
      rtcGetReg cmos reg (k + i) = (d.register regB reg).toNat := by
    intro i small reg mem
    rw [rtcGetReg_shows shows (k + i) mem, still (k + i) (by omega) (by omega)]
  have first := value 0 (by decide) cmosRegSec (by decide)
  rw [Nat.add_zero] at first
  unfold passTm rtcPass DateTime.raw
  rw [first, value 1 (by decide) _ (by decide), value 2 (by decide) _ (by decide),
    value 3 (by decide) _ (by decide), value 4 (by decide) _ (by decide),
    value 5 (by decide) _ (by decide)]
  rfl

theorem rtcIsdiff_eq_false {tm1 tm2 : RtcTime} (same : rtcIsdiff tm1 tm2 = false)
    (yday : tm1.yday = tm2.yday) : tm1 = tm2 := by
  have fields := of_decide_eq_false same
  simp only [not_or, ne_eq, not_not] at fields
  obtain ⟨sec, min, hour, day, mon, year⟩ := fields
  cases tm1
  cases tm2
  simp_all

/-- The seconds that a pass finds are those shown at its first read. -/
theorem sec_eq_of_passTm_eq (shows : Shows cmos regB time) {k n : Nat}
    (same : passTm cmos n = passTm cmos k) : (time n).sec = (time k).sec := by
  have valid := (time n).secValid
  have valid' := (time k).secValid
  have read : rtcGetReg cmos cmosRegSec n = rtcGetReg cmos cmosRegSec k := congrArg RtcTime.sec same
  rw [rtcGetReg_shows shows n (by decide), rtcGetReg_shows shows k (by decide)] at read
  exact encode_injective _ (by omega) (by omega) (BitVec.eq_of_toNat_eq read)

/-- No pass finds the fields that `rtc_read_time` starts with. -/
theorem passTm_ne_zero (shows : Shows cmos regB time) (k : Nat) : passTm cmos k ≠ .zero := by
  intro none
  have day : rtcGetReg cmos cmosRegDay (k + 3) = 0 := congrArg RtcTime.day none
  rw [rtcGetReg_shows shows _ (by decide)] at day
  exact raw_day_ne_zero (time (k + 3)) regB day

/-! ## The loop -/

theorem rtcWait_lt {fuel k n : Nat} (waits : rtcWait cmos fuel k = .ok n) : k < n := by
  induction fuel generalizing k with
  | zero => cases waits
  | succ fuel ih =>
    unfold rtcWait at waits
    split at waits
    · exact Nat.lt_of_succ_lt (ih waits)
    · cases waits
      exact Nat.lt_succ_self k

/-- Between two passes: none was made yet, or the last one started at the latest recorded read. -/
inductive BetweenPasses (cmos : Cmos) (s : RtcLoop) : Prop
  | start (tm : s.tm = .zero)
  | pass {k : Nat} {rest : List Nat} (recorded : s.secReads = k :: rest) (ended : k + 6 ≤ s.reads)
      (tm : s.tm = passTm cmos k)

theorem BetweenPasses.yday {s : RtcLoop} (between : BetweenPasses cmos s) : s.tm.yday = 0 := by
  cases between with
  | start tm => rw [tm]; rfl
  | pass recorded ended tm => rw [tm]; rfl

theorem BetweenPasses.next {s : RtcLoop} (between : BetweenPasses cmos s) (n : Nat) :
    BetweenPasses cmos (rtcPass cmos n s) :=
  .pass rfl (Nat.le_refl _) (rtcPass_tm between.yday n)

/-- Two passes in a row that do not differ. -/
theorem BetweenPasses.exit {clock : Timeline} (shows : Shows cmos regB clock.time) {s : RtcLoop}
    (between : BetweenPasses cmos s) {n : Nat} (later : s.reads < n)
    (same : rtcIsdiff (rtcPass cmos n s).tm s.tm = false)
    (close : (rtcPass cmos n s).secReads.IsChain fun later earlier =>
      clock.ticks later < clock.ticks earlier + 60) :
    ∃ k < (rtcPass cmos n s).reads, (rtcPass cmos n s).tm = (clock.time k).raw regB := by
  have equal := rtcIsdiff_eq_false same ((between.next n).yday.trans between.yday.symm)
  rw [rtcPass_tm between.yday] at equal ⊢
  cases between with
  | start tm => exact absurd (equal.trans tm) (passTm_ne_zero shows n)
  | @pass k rest recorded ended tm =>
    rw [tm] at equal
    have next : (rtcPass cmos n s).secReads = n :: k :: rest := congrArg (n :: ·) recorded
    rw [next, List.isChain_cons_cons] at close
    have reads : (rtcPass cmos n s).reads = n + 6 := rfl
    refine ⟨k, by omega, ?_⟩
    rw [equal]
    refine passTm_eq shows fun j after before => ?_
    exact Timeline.time_eq close.1 (sec_eq_of_passTm_eq shows equal) after (by omega)

theorem rtcReadLoop_exit {clock : Timeline} (shows : Shows cmos regB clock.time) (fuel : Nat)
    {turns : Nat} {s s' : RtcLoop} (between : BetweenPasses cmos s)
    (exits : rtcReadLoop cmos fuel turns s = .ok s')
    (close : s'.secReads.IsChain fun later earlier => clock.ticks later < clock.ticks earlier + 60) :
    ∃ k < s'.reads, s'.tm = (clock.time k).raw regB := by
  induction turns generalizing s with
  | zero => cases exits
  | succ turns ih =>
    unfold rtcReadLoop at exits
    cases waits : rtcWait cmos fuel s.reads with
    | error stuck =>
      rw [waits] at exits
      cases exits
    | ok n =>
      rw [waits] at exits
      change (if rtcIsdiff (rtcPass cmos n s).tm s.tm = true then
        rtcReadLoop cmos fuel turns (rtcPass cmos n s) else .ok (rtcPass cmos n s)) = .ok s' at exits
      cases differ : rtcIsdiff (rtcPass cmos n s).tm s.tm with
      | true =>
        rw [differ, if_pos rfl] at exits
        exact ih (between.next n) exits
      | false =>
        rw [differ, if_neg Bool.false_ne_true] at exits
        cases exits
        exact between.exit shows (rtcWait_lt waits) differ close

/-- **No torn reading.** Whatever the moments of the ticks and the flag of an update: where the loop
exits, and no two passes in a row read their seconds a minute or more apart, the six values it holds are
those of the time that the clock showed at one of the reads of the call. -/
theorem rtcReadLoop_snapshot (clock : Timeline) (cmos : Cmos) (regB : BitVec 8)
    (shows : Shows cmos regB clock.time) (fuel turns : Nat) (s : RtcLoop)
    (exits : rtcReadLoop cmos fuel turns .start = .ok s)
    (close : s.secReads.IsChain fun later earlier => clock.ticks later < clock.ticks earlier + 60) :
    ∃ k < s.reads, s.tm = (clock.time k).raw regB :=
  rtcReadLoop_exit shows fuel (.start rfl) exits close

/-- The last second of a year passes between the reads of the hour and the day of the first pass. -/
theorem rtcReadLoop_snapshot_new_year :
    let clock : Timeline :=
      { start := ⟨2023, 12, 31, 23, 59, 59, by decide, by decide, by decide, by decide, by decide⟩
        ticks := fun k => if k < 4 then 0 else 1
        mono := fun i j later => by dsimp only; split <;> split <;> omega }
    let cmos : Cmos := fun k reg => (clock.time k).register 0 reg
    ∃ s, rtcReadLoop cmos 2 4 .start = .ok s ∧
      ∃ k < s.reads, s.tm = (clock.time k).raw 0 := by
  intro clock cmos
  have exits : rtcReadLoop cmos 2 4 .start =
      .ok { tm := (clock.time 8).raw 0, reads := 21, secReads := [15, 8, 1] } := by decide +kernel
  refine ⟨_, exits, rtcReadLoop_snapshot clock cmos 0 (fun _ _ _ => rfl) 2 4 _ exits ?_⟩
  simp only [List.isChain_cons_cons]
  decide

end Nulix.Rtc
