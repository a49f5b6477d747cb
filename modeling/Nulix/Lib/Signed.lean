import Mathlib.Data.BitVec
import Mathlib.Data.Int.Order.Basic
import Mathlib.Tactic.Linarith

/-!
# Signed arithmetic

The signed arithmetic of C on words of `w` bits. An operation whose exact result does not fit has no
meaning in C; here it wraps, and the result remembers that it did.
-/

namespace Signed

/-- A word, and whether all signed operations that it was computed by gave their exact results. -/
@[ext] structure Checked (w : Nat) where
  word : BitVec w
  exact : Bool
  deriving DecidableEq, Repr

/-- The numbers of a signed word. -/
def Fits (w : Nat) (v : Int) : Prop := -2 ^ (w - 1) ≤ v ∧ v < 2 ^ (w - 1)

instance (w : Nat) (v : Int) : Decidable (Fits w v) := inferInstanceAs (Decidable (_ ∧ _))

namespace Checked

variable {w : Nat}

/-- A variable or a constant. -/
def ofInt (v : Int) : Checked w := ⟨.ofInt w v, true⟩

instance (n : Nat) : OfNat (Checked w) n := ⟨ofInt n⟩

instance : Add (Checked w) :=
  ⟨fun x y => ⟨x.word + y.word, x.exact && y.exact && !x.word.saddOverflow y.word⟩⟩

instance : Sub (Checked w) :=
  ⟨fun x y => ⟨x.word - y.word, x.exact && y.exact && !x.word.ssubOverflow y.word⟩⟩

instance : Mul (Checked w) :=
  ⟨fun x y => ⟨x.word * y.word, x.exact && y.exact && !x.word.smulOverflow y.word⟩⟩

/-- Division truncates. -/
instance : Div (Checked w) :=
  ⟨fun x y => ⟨x.word.sdiv y.word,
    x.exact && y.exact && !x.word.sdivOverflow y.word && y.word != 0⟩⟩

/-- The sum with an unsigned word, to which the signed one is converted. -/
def addUnsigned (total x : Checked w) : Checked w := ⟨total.word + x.word, total.exact && x.exact⟩

def subUnsigned (total x : Checked w) : Checked w := ⟨total.word - x.word, total.exact && x.exact⟩

/-! ## Values -/

/-- The value up to multiples of `2 ^ w`. -/
def Wraps (x : Checked w) (v : Int) : Prop := x.word = .ofInt w v

/-- The value, without an overflow. -/
def Is (x : Checked w) (v : Int) : Prop := x.exact = true ∧ Fits w v ∧ x.Wraps v

theorem wraps_ofInt (v : Int) : (ofInt v : Checked w).Wraps v := rfl

theorem is_ofInt {v : Int} (fits : Fits w v) : (ofInt v : Checked w).Is v := ⟨rfl, fits, rfl⟩

theorem is_ofNat {n : Nat} (fits : Fits w (OfNat.ofNat n)) :
    (OfNat.ofNat n : Checked w).Is (OfNat.ofNat n) := is_ofInt fits

variable {x y : Checked w} {a b : Int}

theorem Is.wraps (hx : x.Is a) : x.Wraps a := hx.2.2

theorem Wraps.add (hx : x.Wraps a) (hy : y.Wraps b) : (x + y).Wraps (a + b) := by
  show x.word + y.word = _
  rw [hx, hy, BitVec.ofInt_add]

theorem Wraps.sub (hx : x.Wraps a) (hy : y.Wraps b) : (x - y).Wraps (a - b) := by
  show x.word - y.word = _
  rw [hx, hy, Int.sub_eq_add_neg, BitVec.ofInt_add, BitVec.ofInt_neg, BitVec.sub_eq_add_neg]

theorem Wraps.mul (hx : x.Wraps a) (hy : y.Wraps b) : (x * y).Wraps (a * b) := by
  show x.word * y.word = _
  rw [hx, hy, BitVec.ofInt_mul]

theorem Wraps.addUnsigned (hx : x.Wraps a) (hy : y.Wraps b) : (x.addUnsigned y).Wraps (a + b) :=
  hx.add hy

theorem Wraps.subUnsigned (hx : x.Wraps a) (hy : y.Wraps b) : (x.subUnsigned y).Wraps (a - b) :=
  hx.sub hy

/-! ## Exact results -/

theorem Is.toInt (positive : 0 < w) (hx : x.Is a) : x.word.toInt = a := by
  rw [hx.wraps, BitVec.toInt_ofInt_eq_self positive hx.2.1.1 hx.2.1.2]

/-- An operation on exact values is exact if and only if its result fits. -/
theorem exact_iff_of_overflow {overflow : Bool} {v : Int} (hx : x.Is a) (hy : y.Is b)
    (overflows : overflow = decide (v ≥ 2 ^ (w - 1) ∨ v < -2 ^ (w - 1))) :
    (x.exact && y.exact && !overflow) = true ↔ Fits w v := by
  rw [hx.1, hy.1, overflows]
  simp only [Bool.and_self, Bool.true_and, Bool.not_eq_true', decide_eq_false_iff_not, not_or, not_le,
    not_lt, ge_iff_le]
  exact and_comm

theorem exact_sub_iff (positive : 0 < w) (hx : x.Is a) (hy : y.Is b) :
    (x - y).exact = true ↔ Fits w (a - b) := by
  refine exact_iff_of_overflow hx hy ?_
  rw [BitVec.ssubOverflow, hx.toInt positive, hy.toInt positive, Bool.decide_or]

theorem exact_add_iff (positive : 0 < w) (hx : x.Is a) (hy : y.Is b) :
    (x + y).exact = true ↔ Fits w (a + b) := by
  refine exact_iff_of_overflow hx hy ?_
  rw [BitVec.saddOverflow, hx.toInt positive, hy.toInt positive, Bool.decide_or]

theorem exact_mul_iff (positive : 0 < w) (hx : x.Is a) (hy : y.Is b) :
    (x * y).exact = true ↔ Fits w (a * b) := by
  refine exact_iff_of_overflow hx hy ?_
  rw [BitVec.smulOverflow, hx.toInt positive, hy.toInt positive, Bool.decide_or]

/-- The product of two variables or constants that are not negative. -/
theorem exact_mul_natCast (positive : 0 < w) {m n : Nat} (left : m < 2 ^ (w - 1))
    (right : n < 2 ^ (w - 1)) (product : m * n < 2 ^ (w - 1)) :
    (ofInt m * ofInt n : Checked w).exact = true := by
  have fits : ∀ k : Nat, k < 2 ^ (w - 1) → Fits w k := by
    intro k small
    have nonneg : (0 : Int) ≤ 2 ^ (w - 1) := Int.pow_nonneg (by decide)
    exact ⟨by omega, by exact_mod_cast small⟩
  refine (exact_mul_iff positive (is_ofInt (fits m left)) (is_ofInt (fits n right))).mpr ?_
  exact_mod_cast fits _ product

theorem Is.add (positive : 0 < w) (hx : x.Is a) (hy : y.Is b) (fits : Fits w (a + b)) :
    (x + y).Is (a + b) :=
  ⟨(exact_add_iff positive hx hy).mpr fits, fits, hx.wraps.add hy.wraps⟩

theorem Is.sub (positive : 0 < w) (hx : x.Is a) (hy : y.Is b) (fits : Fits w (a - b)) :
    (x - y).Is (a - b) :=
  ⟨(exact_sub_iff positive hx hy).mpr fits, fits, hx.wraps.sub hy.wraps⟩

/-- The quotient of a number that is not negative by a positive one. -/
theorem Is.div (positive : 0 < w) (hx : x.Is a) (hy : y.Is b) (dividend : 0 ≤ a) (divisor : 0 < b) :
    (x / y).Is (a / b) := by
  have small : a / b ≤ a := Int.ediv_le_self b dividend
  have nonneg : 0 ≤ a / b := Int.ediv_nonneg dividend divisor.le
  have low : (-2 ^ (w - 1) : Int) ≤ 0 := Int.neg_nonpos_of_nonneg (Int.pow_nonneg (by decide))
  have fits : Fits w (a / b) := ⟨low.trans nonneg, small.trans_lt hx.2.1.2⟩
  have left := hx.toInt positive
  have right := hy.toInt positive
  have quotient : x.word.sdiv y.word = BitVec.ofInt w (a / b) := by
    refine BitVec.eq_of_toInt_eq ?_
    rw [BitVec.toInt_sdiv, left, right, Int.tdiv_eq_ediv_of_nonneg dividend, BitVec.toInt_ofInt]
  have overflow : x.word.sdivOverflow y.word = false := by
    rw [BitVec.sdivOverflow, left, right, Bool.or_eq_false_iff]
    exact ⟨decide_eq_false fits.2.not_ge, decide_eq_false fits.1.not_gt⟩
  have nonzero : (y.word != 0) = true := by
    refine bne_iff_ne.mpr fun zero => ?_
    rw [zero, BitVec.ofNat_eq_ofNat, BitVec.toInt_zero] at right
    exact divisor.ne right
  refine ⟨?_, fits, quotient⟩
  show (x.exact && y.exact && !x.word.sdivOverflow y.word && y.word != 0) = true
  rw [hx.1, hy.1, overflow, nonzero]
  rfl

end Checked

end Signed
