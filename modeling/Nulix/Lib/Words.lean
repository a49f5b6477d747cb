import Mathlib.Data.Nat.Bitwise
import Mathlib.Logic.Function.Basic
import Mathlib.Tactic.Linarith

/-!
# Machine words, masks and bits of bytes

`u32` and `u16` reduce a natural number to a word. The first part of the module evaluates the two
mask idioms of C on such words: `x & (a - 1)` and `x & ~(a - 1)` for a power of two `a`. The second
part is an array of bits packed into the bytes of a flat 32-bit address space, least significant
bit first: reading one bit, setting it and clearing it, and what each write does to every other
bit.
-/

namespace Words

/-- Reduction of an unsigned computation to 32 bits. -/
def u32 (x : Nat) : Nat := x % 2 ^ 32

theorem u32_lt (x : Nat) : u32 x < 2 ^ 32 := Nat.mod_lt _ (by decide)

theorem u32_of_lt {x : Nat} (h : x < 2 ^ 32) : u32 x = x := Nat.mod_eq_of_lt h

/-- Unsigned 32-bit subtraction. -/
def sub32 (x y : Nat) : Nat := u32 (u32 x + (2 ^ 32 - u32 y))

theorem sub32_of_le {x y : Nat} (hx : x < 2 ^ 32) (le : y ≤ x) : sub32 x y = x - y := by
  unfold sub32 u32
  omega

/-- Reduction to 16 bits. -/
def u16 (x : Nat) : Nat := x % 2 ^ 16

theorem u16_lt (x : Nat) : u16 x < 2 ^ 16 := Nat.mod_lt _ (by decide)

theorem u16_of_lt {x : Nat} (h : x < 2 ^ 16) : u16 x = x := Nat.mod_eq_of_lt h

/-! ## Power-of-two masks -/

theorem and_lowMask (x k : Nat) : x &&& (2 ^ k - 1) = x % 2 ^ k :=
  Nat.and_two_pow_sub_one_eq_mod x k

/-- Clearing the low `k` bits of a word rounds it down to a multiple of `2 ^ k`. -/
theorem and_highMask {x k : Nat} (hx : x < 2 ^ 32) (hk : k ≤ 32) :
    x &&& (0xffffffff ^^^ (2 ^ k - 1)) = x / 2 ^ k * 2 ^ k := by
  have ones : (0xffffffff : Nat) = 2 ^ 32 - 1 := by norm_num
  apply Nat.eq_of_testBit_eq
  intro i
  rw [ones, Nat.testBit_and, Nat.testBit_xor, Nat.testBit_two_pow_sub_one,
    Nat.testBit_two_pow_sub_one, Nat.testBit_mul_two_pow, Nat.testBit_div_two_pow]
  by_cases high : 32 ≤ i
  · have big : x.testBit i = false :=
      Nat.testBit_lt_two_pow (hx.trans_le (Nat.pow_le_pow_right (by norm_num) high))
    have big' : x.testBit (i - k + k) = false := by
      rw [Nat.sub_add_cancel (hk.trans high)]
      exact big
    simp [big, big']
  · by_cases low : i < k
    · simp [low, show i < 32 by omega]
    · have shift : i - k + k = i := by omega
      simp [low, shift, show i < 32 by omega, show k ≤ i by omega]

/-! ## One bit of a byte -/

/-- Testing a byte against a one-bit mask reads that bit. -/
theorem byte_and_bit_ne_zero (x : BitVec 8) {j : Nat} (hj : j < 8) :
    ((x &&& (1#8 <<< j)) != 0#8) = x.getLsbD j := by
  have masked : x &&& (1#8 <<< j) = if x.getLsbD j then 1#8 <<< j else 0#8 := by
    apply BitVec.eq_of_getLsbD_eq
    intro i hi
    by_cases same : i = j
    · subst same
      split <;> simp_all
    · split <;> simp only [BitVec.getLsbD_and, BitVec.getLsbD_shiftLeft, BitVec.getLsbD_one,
        BitVec.getLsbD_zero] <;> grind
  have nonzero : 1#8 <<< j ≠ 0#8 := by
    intro h
    have := congrArg (·.getLsbD j) h
    simp [hj] at this
  rw [masked]
  cases x.getLsbD j
  · simp
  · simpa using nonzero

theorem getLsbD_or_bit (x : BitVec 8) {i : Nat} (j : Nat) (hi : i < 8) :
    (x ||| (1#8 <<< j)).getLsbD i = (decide (i = j) || x.getLsbD i) := by
  simp only [BitVec.getLsbD_or, BitVec.getLsbD_shiftLeft, BitVec.getLsbD_one]
  grind

theorem getLsbD_andNot_bit (x : BitVec 8) {i : Nat} (j : Nat) (hi : i < 8) :
    (x &&& ~~~(1#8 <<< j)).getLsbD i = (!decide (i = j) && x.getLsbD i) := by
  simp only [BitVec.getLsbD_and, BitVec.getLsbD_not, BitVec.getLsbD_shiftLeft, BitVec.getLsbD_one]
  grind

/-! ## Bit arrays in a byte memory -/

/-- The address of the byte that holds bit `i` of the array at `base`. -/
def byteOf (base i : Nat) : Nat := u32 (base + i / 8)

def readBit (m : Nat → BitVec 8) (base i : Nat) : Bool :=
  (m (byteOf base i) &&& (1#8 <<< (i % 8))) != 0#8

def setBit (m : Nat → BitVec 8) (base i : Nat) : Nat → BitVec 8 :=
  Function.update m (byteOf base i) (m (byteOf base i) ||| (1#8 <<< (i % 8)))

def clearBit (m : Nat → BitVec 8) (base i : Nat) : Nat → BitVec 8 :=
  Function.update m (byteOf base i) (m (byteOf base i) &&& ~~~(1#8 <<< (i % 8)))

/-- Bit `i` of the array at `base` and bit `j` of the array at `base'` are one bit of memory. -/
def SameBit (base i base' j : Nat) : Prop :=
  byteOf base i = byteOf base' j ∧ i % 8 = j % 8

instance (base i base' j : Nat) : Decidable (SameBit base i base' j) :=
  inferInstanceAs (Decidable (_ ∧ _))

theorem readBit_eq (m : Nat → BitVec 8) (base i : Nat) :
    readBit m base i = (m (byteOf base i)).getLsbD (i % 8) :=
  byte_and_bit_ne_zero _ (Nat.mod_lt _ (by decide))

theorem readBit_setBit (m : Nat → BitVec 8) (base i base' j : Nat) :
    readBit (setBit m base i) base' j =
      if SameBit base i base' j then true else readBit m base' j := by
  have hj : j % 8 < 8 := Nat.mod_lt _ (by decide)
  rw [readBit_eq, readBit_eq, setBit]
  by_cases byte : byteOf base i = byteOf base' j
  · simp only [byte, Function.update_self, getLsbD_or_bit _ _ hj, SameBit, true_and]
    by_cases bit : i % 8 = j % 8 <;> simp [bit, eq_comm]
  · rw [Function.update_of_ne (Ne.symm byte), if_neg fun same => byte same.1]

theorem readBit_clearBit (m : Nat → BitVec 8) (base i base' j : Nat) :
    readBit (clearBit m base i) base' j =
      if SameBit base i base' j then false else readBit m base' j := by
  have hj : j % 8 < 8 := Nat.mod_lt _ (by decide)
  rw [readBit_eq, readBit_eq, clearBit]
  by_cases byte : byteOf base i = byteOf base' j
  · simp only [byte, Function.update_self, getLsbD_andNot_bit _ _ hj, SameBit, true_and]
    by_cases bit : i % 8 = j % 8 <;> simp [bit, eq_comm]
  · rw [Function.update_of_ne (Ne.symm byte), if_neg fun same => byte same.1]

/-- Within one array that does not wrap around the address space, only equal indices meet. -/
theorem sameBit_offset {base p q i j : Nat} (hi : p + i / 8 < 2 ^ 32) (hj : q + j / 8 < 2 ^ 32)
    (apart : p + i / 8 ≠ q + j / 8) : ¬ SameBit (u32 (base + p)) i (u32 (base + q)) j := by
  rintro ⟨byte, -⟩
  unfold byteOf u32 at byte
  omega

theorem sameBit_self_iff {base i j : Nat} (hi : i / 8 < 2 ^ 32) (hj : j / 8 < 2 ^ 32) :
    SameBit base i base j ↔ i = j := by
  constructor
  · rintro ⟨byte, bit⟩
    unfold byteOf u32 at byte
    omega
  · rintro rfl
    exact ⟨rfl, rfl⟩

end Words
