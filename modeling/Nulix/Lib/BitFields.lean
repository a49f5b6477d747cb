import Mathlib.Data.BitVec

/-!
# Fields of a word

A field is cut out of a word by a shift and a mask. Adjacent fields put together are a field again, and
a mask that has all bits of the word does nothing.
-/

namespace BitFields

variable {n v w k : Nat}

/-- `(x >> k) & mask`, stored in a field of `v` bits, with a mask of `w` bits. -/
theorem setWidth_shift_mask (x : BitVec n) :
    ((x >>> k) &&& BitVec.ofNat n (2 ^ w - 1)).setWidth v = (x.extractLsb' k w).setWidth v := by
  apply BitVec.eq_of_getLsbD_eq
  intro i small
  simp only [BitVec.getLsbD_setWidth, BitVec.getLsbD_and, BitVec.getLsbD_ushiftRight,
    BitVec.getLsbD_ofNat, Nat.testBit_two_pow_sub_one, BitVec.getLsbD_extractLsb', small]
  by_cases inside : i < n
  · simp [inside, Bool.and_comm]
  · have zero : x.getLsbD (k + i) = false := BitVec.getLsbD_of_ge x (k + i) (by omega)
    simp [zero]

theorem shift_mask (x : BitVec n) :
    ((x >>> k) &&& BitVec.ofNat n (2 ^ w - 1)).setWidth w = x.extractLsb' k w := by
  rw [setWidth_shift_mask, BitVec.setWidth_eq]

theorem mask (x : BitVec n) : (x &&& BitVec.ofNat n (2 ^ w - 1)).setWidth w = x.extractLsb' 0 w := by
  simpa using shift_mask (k := 0) (w := w) x

/-- A narrow field in the low bits of a wide one. -/
theorem low_of_setWidth (x : BitVec w) (fits : w ≤ v) : (x.setWidth v).extractLsb' 0 w = x := by
  rw [BitVec.extractLsb'_setWidth_of_le (by omega), BitVec.extractLsb'_eq_self]

/-- Above it there is nothing. -/
theorem high_of_setWidth (x : BitVec w) : (x.setWidth v).extractLsb' w k = 0#k := by
  apply BitVec.eq_of_getLsbD_eq
  intro i _
  simp

/-- Setting the bits of `y` changes nothing exactly if they are set. -/
theorem or_eq_left_iff {x y : BitVec n} :
    x ||| y = x ↔ ∀ i, i < n → y.getLsbD i = true → x.getLsbD i = true := by
  constructor
  · intro same i _ isSet
    rw [← same, BitVec.getLsbD_or, isSet, Bool.or_true]
  · intro subset
    apply BitVec.eq_of_getLsbD_eq
    intro i small
    rw [BitVec.getLsbD_or]
    cases isSet : y.getLsbD i with
    | false => exact Bool.or_false _
    | true => rw [subset i small isSet, Bool.or_true]

end BitFields
