import Nulix.Lib.Positional
import Nulix.Print

/-!
# What `snprintnum` stores

The padding loop runs forwards and the digit loop backwards. Together they store the sign, the zeros and
the digits of the number, cut off where the room ends. The one exception is a negative number in front of
which there is room for the sign only: its padding loop starts at the end of the room and finds no end.
-/

namespace Nulix.Print

open Positional Strings

/-! ## The text of a number -/

def digitChar (d : Nat) : BitVec 8 := digits.getD d 0

def isNegative (issigned : Bool) (n : BitVec 32) : Bool := issigned && n.slt 0

/-- The number that is written in digits. -/
def magnitude (issigned : Bool) (n : BitVec 32) : Nat :=
  if isNegative issigned n then (-n).toNat else n.toNat

def zeros (k : Nat) : Text := List.replicate k 0x30

def sign (issigned : Bool) (n : BitVec 32) : Text := if isNegative issigned n then [0x2d] else []

/-- The zeros and the digits of a number. -/
def padded (base un padding : Nat) : Text :=
  zeros (padding - (digitsOf base un).length) ++ (digitsOf base un).map digitChar

/-- A number in full. -/
def number (base : Nat) (issigned : Bool) (n : BitVec 32) (padding : Nat) : Text :=
  sign issigned n ++ padded base (magnitude issigned n) padding

theorem length_padded (base un padding : Nat) :
    (padded base un padding).length = max padding (digitsOf base un).length := by
  rw [padded, zeros, List.length_append, List.length_replicate, List.length_map]
  omega

/-! ## The loops -/

variable {base : Nat}

theorem basepowFrom_eq (atLeast : 2 ≤ base) :
    ∀ {fuel n : Nat} (len : Nat), (digitsOf base n).length ≤ fuel →
      basepowFrom base fuel n len = len + (digitsOf base n).length := by
  intro fuel
  induction fuel with
  | zero =>
    intro n len bound
    exact absurd (List.eq_nil_of_length_eq_zero (Nat.le_zero.mp bound)) (digitsOf_ne_nil atLeast n)
  | succ fuel ih =>
    intro n len bound
    unfold basepowFrom
    rw [digitsOf_eq atLeast] at bound ⊢
    by_cases single : n / base = 0
    · rw [if_neg (not_not.mpr single), if_pos single]
      rfl
    · rw [if_neg single, List.length_append, List.length_singleton] at bound
      rw [if_pos single, if_neg single, ih (len + 1) (Nat.le_of_succ_le_succ bound),
        List.length_append, List.length_singleton]
      omega

theorem basepow_eq (atLeast : 2 ≤ base) {n : Nat} (word : n < 2 ^ 32) :
    basepow n base = (digitsOf base n).length := by
  have bound : (digitsOf base n).length ≤ 32 :=
    length_digitsOf_le atLeast (by decide) (Nat.lt_of_lt_of_le word (Nat.pow_le_pow_left atLeast 32))
  rw [basepow, basepowFrom_eq atLeast 0 bound, Nat.zero_add]

/-- The padding loop stops where the count meets the size, which it only does from below. -/
theorem snprintnumPad_eq (size turns : Nat) (buf : Nat → BitVec 8) (dst count : Nat) :
    let k := if count < size then min turns (size - count) else turns
    snprintnumPad size turns buf dst count = (store buf dst (zeros k), dst + k, count + k) := by
  induction turns generalizing buf dst count with
  | zero => simp [snprintnumPad, zeros]
  | succ turns ih =>
    have first : ∀ k, store (Function.update buf dst 0x30) (dst + 1) (zeros k) =
        store buf dst (zeros (k + 1)) := by
      intro k
      rw [← store_singleton]
      exact store_append buf dst [0x30] (zeros k)
    unfold snprintnumPad
    by_cases full : count + 1 = size
    · have one : (if count < size then min (turns + 1) (size - count) else turns + 1) = 1 := by
        rw [if_pos (by omega)]
        omega
      rw [one, if_pos full]
      show (Function.update buf dst 0x30, dst + 1, count + 1) = (store buf dst [0x30], dst + 1, count + 1)
      rw [store_singleton]
    · have more : (if count < size then min (turns + 1) (size - count) else turns + 1) =
          (if count + 1 < size then min turns (size - (count + 1)) else turns) + 1 := by
        split <;> split <;> omega
      rw [if_neg full, ih, first, more]
      refine Prod.ext rfl (Prod.ext ?_ ?_) <;> dsimp only <;> omega

/-- A number of one digit. -/
theorem snprintnumDigits_single {un : Nat} (single : un / base = 0) (size dst : Nat)
    (buf : Nat → BitVec 8) (count : Nat) :
    snprintnumDigits size base dst 1 un buf count =
      (store buf dst (([un % base].map digitChar).take (size - count)),
        count + (([un % base].map digitChar).take (size - count)).length) := by
  unfold snprintnumDigits
  dsimp only
  rw [Nat.add_zero, Nat.add_zero]
  by_cases room : count < size
  · have whole : ([un % base].map digitChar).take (size - count) = [digitChar (un % base)] :=
      List.take_of_length_le (by rw [List.map_singleton, List.length_singleton]; omega)
    rw [if_pos room, if_neg (not_not.mpr single), whole, store_singleton]
    rfl
  · have none : size - count = 0 := Nat.sub_eq_zero_of_le (Nat.le_of_not_lt room)
    rw [if_neg room, if_neg (not_not.mpr single), none, List.take_zero, store_nil]
    rfl

/-- The digit loop stores the high digits for which there is room. -/
theorem snprintnumDigits_eq (atLeast : 2 ≤ base) (size dst : Nat) :
    ∀ (un : Nat) (buf : Nat → BitVec 8) (count : Nat),
      let ds := ((digitsOf base un).map digitChar).take (size - count)
      snprintnumDigits size base dst (digitsOf base un).length un buf count =
        (store buf dst ds, count + ds.length) := by
  intro un
  induction un using Nat.strongRecOn with
  | ind un ih =>
    intro buf count
    by_cases single : un / base = 0
    · have digits : digitsOf base un = [un % base] := by rw [digitsOf_eq atLeast, if_pos single]
      rw [digits]
      exact snprintnumDigits_single single size dst buf count
    · have digits : digitsOf base un = digitsOf base (un / base) ++ [un % base] := by
        rw [digitsOf_eq atLeast, if_neg single]
      have smaller : un / base < un :=
        Nat.div_lt_self (Nat.pos_of_ne_zero fun zero => single (by rw [zero, Nat.zero_div])) atLeast
      rw [digits, List.length_append, List.length_singleton, List.map_append, List.map_singleton]
      unfold snprintnumDigits
      dsimp only
      by_cases room : count + (digitsOf base (un / base)).length < size
      · have all : ((digitsOf base (un / base)).map digitChar).take (size - (count + 1)) =
            (digitsOf base (un / base)).map digitChar :=
          List.take_of_length_le (by rw [List.length_map]; omega)
        have all' : ((digitsOf base (un / base)).map digitChar ++ [digitChar (un % base)]).take (size - count) =
            (digitsOf base (un / base)).map digitChar ++ [digitChar (un % base)] :=
          List.take_of_length_le (by rw [List.length_append, List.length_map, List.length_singleton]; omega)
        have stored := store_update buf dst ((digitsOf base (un / base)).map digitChar)
          (digitChar (un % base))
        rw [List.length_map] at stored
        rw [if_pos room, if_pos single, ih _ smaller, all, all']
        refine Prod.ext stored ?_
        rw [List.length_append, List.length_singleton]
        dsimp only
        omega
      · rw [if_neg room, if_pos single, ih _ smaller,
          List.take_append_of_le_length (by rw [List.length_map]; omega)]

/-- Both loops. -/
def snprintnumLoops (buf : Nat → BitVec 8) (dst size count base un padding : Nat) :
    (Nat → BitVec 8) × Nat :=
  let nl := (digitsOf base un).length
  let (buf, dst, count) := snprintnumPad size (padding - nl) buf dst count
  snprintnumDigits size base dst nl un buf count

theorem snprintnumLoops_eq (atLeast : 2 ≤ base) (buf : Nat → BitVec 8) (dst size count un padding : Nat)
    (fits : count < size ∨ padding ≤ (digitsOf base un).length) :
    let t := (padded base un padding).take (size - count)
    snprintnumLoops buf dst size count base un padding = (store buf dst t, count + t.length) := by
  unfold snprintnumLoops padded
  dsimp only
  rw [snprintnumPad_eq]
  generalize turns : padding - (digitsOf base un).length = k
  have stops : (if count < size then min k (size - count) else k) = min k (size - count) := by
    split <;> omega
  have length : (zeros k).length = k := List.length_replicate
  have cut : (zeros k).take (size - count) = zeros (min k (size - count)) := by
    rw [zeros, List.take_replicate, Nat.min_comm]
    rfl
  have left : size - (count + min k (size - count)) = size - count - k := by omega
  have stored := store_append buf dst (zeros (min k (size - count)))
    (((digitsOf base un).map digitChar).take (size - count - k))
  rw [show (zeros (min k (size - count))).length = _ from List.length_replicate] at stored
  rw [stops]
  dsimp only
  rw [snprintnumDigits_eq atLeast, left, List.take_append, length, cut]
  refine Prod.ext stored ?_
  dsimp only
  rw [List.length_append, show (zeros (min k (size - count))).length = _ from List.length_replicate,
    Nat.add_assoc]

/-- Where the padding loop starts at the end of the room it stores all of its zeros behind it. -/
theorem snprintnumLoops_overrun (atLeast : 2 ≤ base) (buf : Nat → BitVec 8) (dst count un padding : Nat) :
    let k := padding - (digitsOf base un).length
    snprintnumLoops buf dst count count base un padding = (store buf dst (zeros k), count + k) := by
  unfold snprintnumLoops
  dsimp only
  rw [snprintnumPad_eq, if_neg (Nat.lt_irrefl count)]
  dsimp only
  rw [snprintnumDigits_eq atLeast, Nat.sub_eq_zero_of_le (Nat.le_add_right _ _), List.take_zero, store_nil]
  rfl

/-! ## The whole function -/

theorem magnitude_lt (issigned : Bool) (n : BitVec 32) : magnitude issigned n < 2 ^ 32 := by
  unfold magnitude
  split <;> exact BitVec.isLt _

/-- The sign and the two loops. -/
theorem snprintnum_loops {buf : Nat → BitVec 8} {dst size padding : Nat} {n : BitVec 32}
    {issigned : Bool} (atLeast : 2 ≤ base) (atMost : base ≤ 16) (room : 0 < size) :
    snprintnum buf dst size n base issigned padding =
      snprintnumLoops (store buf dst (sign issigned n)) (dst + (sign issigned n).length) size
        (sign issigned n).length base (magnitude issigned n) padding := by
  have nl := basepow_eq atLeast (magnitude_lt issigned n)
  have turns : ((padding : Int) - (basepow (magnitude issigned n) base : Int)).toNat =
      padding - (digitsOf base (magnitude issigned n)).length := by
    rw [nl]
    omega
  unfold snprintnum snprintnumLoops
  rw [if_neg (by omega)]
  dsimp only
  rw [← turns, ← nl]
  cases negative : isNegative issigned n with
  | false =>
    have negative' : (issigned && n.slt 0) = false := negative
    simp only [magnitude, sign, negative, negative', Bool.false_eq_true, if_false]
    rw [store_nil]
    rfl
  | true =>
    have negative' : (issigned && n.slt 0) = true := negative
    simp only [magnitude, sign, negative, negative', if_true]
    rw [store_singleton]
    rfl

/-- Where the padding of a negative number begins behind the room. -/
def Overruns (base : Nat) (issigned : Bool) (n : BitVec 32) (padding room : Nat) : Prop :=
  isNegative issigned n = true ∧ room = 1 ∧ (digitsOf base (magnitude issigned n)).length < padding

/-- What fits of the number is stored, from the first character on. -/
theorem snprintnum_eq {buf : Nat → BitVec 8} {dst size padding : Nat} {n : BitVec 32}
    {issigned : Bool} (atLeast : 2 ≤ base) (atMost : base ≤ 16) (room : 0 < size)
    (fits : ¬Overruns base issigned n padding size) :
    let t := (number base issigned n padding).take size
    snprintnum buf dst size n base issigned padding = (store buf dst t, t.length) := by
  have short : (sign issigned n).length ≤ size := by
    unfold sign
    split
    · exact room
    · exact Nat.zero_le _
  have goes : (sign issigned n).length < size ∨
      padding ≤ (digitsOf base (magnitude issigned n)).length := by
    unfold sign
    cases negative : isNegative issigned n with
    | false => exact .inl room
    | true =>
      by_cases one : size = 1
      · exact .inr (Nat.le_of_not_lt fun longer => fits ⟨negative, one, longer⟩)
      · exact .inl (Nat.lt_of_le_of_ne room (Ne.symm one))
  rw [snprintnum_loops atLeast atMost room, snprintnumLoops_eq atLeast _ _ _ _ _ _ goes, number,
    List.take_append, List.take_of_length_le short, store_append]
  exact Prod.ext rfl List.length_append.symm

/-- A negative number that overruns stores its zeros behind the room. -/
theorem snprintnum_overrun (buf : Nat → BitVec 8) (dst : Nat) {size padding : Nat} {n : BitVec 32}
    {issigned : Bool} (atLeast : 2 ≤ base) (atMost : base ≤ 16)
    (overruns : Overruns base issigned n padding size) :
    ∃ k, 0 < k ∧ snprintnum buf dst size n base issigned padding =
      (store buf dst (0x2d :: zeros k), 1 + k) := by
  obtain ⟨negative, rfl, longer⟩ := overruns
  have signed : sign issigned n = [0x2d] := if_pos negative
  refine ⟨_, Nat.sub_pos_of_lt longer, ?_⟩
  rw [snprintnum_loops atLeast atMost (Nat.succ_pos 0), signed]
  refine (snprintnumLoops_overrun atLeast _ _ 1 _ _).trans (Prod.ext ?_ rfl)
  exact store_append buf dst [0x2d] _

end Nulix.Print
