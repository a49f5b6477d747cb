import Mathlib.Data.List.Induction
import Mathlib.Data.Nat.Digits.Lemmas

/-!
# Positional notation

Numerals as lists of digits, the highest first. `value` reads one by Horner's rule, `digitsOf` writes
one, and `accumulate` is the reader that gives up where the value passes a limit. Its test does not
compute the value it tests: `limit_lt_iff` compares with the quotient and the remainder of the limit.
-/

namespace Positional

variable {b : Nat}

/-! ## Reading -/

def value (b : Nat) (ds : List Nat) : Nat := ds.foldl (fun v d => v * b + d) 0

theorem value_concat (b : Nat) (ds : List Nat) (d : Nat) :
    value b (ds ++ [d]) = value b ds * b + d := by
  rw [value, List.foldl_append]
  rfl

/-- Where the next digit takes a value past the limit. -/
theorem limit_lt_iff (limit : Nat) (v : Nat) {d : Nat} (digit : d < b) :
    limit < v * b + d ↔ limit / b < v ∨ v = limit / b ∧ limit % b < d := by
  have split := Nat.div_add_mod limit b
  have rest : limit % b < b := Nat.mod_lt _ (Nat.zero_lt_of_lt digit)
  rw [Nat.mul_comm] at split
  rcases Nat.lt_trichotomy v (limit / b) with below | same | above
  · have room : (v + 1) * b ≤ limit / b * b := Nat.mul_le_mul_right b below
    rw [Nat.succ_mul] at room
    omega
  · subst same
    omega
  · have past : (limit / b + 1) * b ≤ v * b := Nat.mul_le_mul_right b above
    rw [Nat.succ_mul] at past
    omega

/-- The reader with a limit, from the value `v` read so far; `none` is past the limit. -/
def accumulate (limit b : Nat) (v : Option Nat) (ds : List Nat) : Option Nat :=
  ds.foldl (fun v d => v.bind fun v => if limit < v * b + d then none else some (v * b + d)) v

theorem accumulate_cons (limit b : Nat) (v : Option Nat) (d : Nat) (ds : List Nat) :
    accumulate limit b v (d :: ds) =
      accumulate limit b
        (v.bind fun v => if limit < v * b + d then none else some (v * b + d)) ds := rfl

/-- The values only grow, so that the reader gives up exactly if the whole value is past the limit. -/
theorem accumulate_eq (limit : Nat) (positive : 0 < b) (ds : List Nat) :
    accumulate limit b (some 0) ds = if limit < value b ds then none else some (value b ds) := by
  induction ds using List.reverseRecOn with
  | nil => rfl
  | append_singleton ds d ih =>
    have step : accumulate limit b (some 0) (ds ++ [d]) =
        (accumulate limit b (some 0) ds).bind fun v =>
          if limit < v * b + d then none else some (v * b + d) := by
      rw [accumulate, List.foldl_append]
      rfl
    rw [step, ih, value_concat]
    by_cases past : limit < value b ds
    · have grown : value b ds ≤ value b ds * b := Nat.le_mul_of_pos_right _ positive
      rw [if_pos past, if_pos (by omega)]
      rfl
    · rw [if_neg past]
      rfl

/-! ## Writing -/

def digitsOf (b n : Nat) : List Nat := if n = 0 then [0] else (b.digits n).reverse

/-- The last digit and the digits before it. -/
theorem digitsOf_eq (base : 2 ≤ b) (n : Nat) :
    digitsOf b n = if n / b = 0 then [n % b] else digitsOf b (n / b) ++ [n % b] := by
  by_cases zero : n = 0
  · subst zero
    simp [digitsOf]
  · rw [digitsOf, if_neg zero, Nat.digits_def' base (Nat.pos_of_ne_zero zero), List.reverse_cons]
    by_cases single : n / b = 0
    · rw [if_pos single, single, Nat.digits_zero]
      rfl
    · rw [if_neg single, digitsOf, if_neg single]

theorem digitsOf_ne_nil (base : 2 ≤ b) (n : Nat) : digitsOf b n ≠ [] := by
  rw [digitsOf_eq base]
  split
  · exact List.cons_ne_nil _ _
  · simp

theorem digitsOf_lt (base : 2 ≤ b) (n : Nat) : ∀ d ∈ digitsOf b n, d < b := by
  intro d mem
  rw [digitsOf] at mem
  split at mem
  · rw [List.mem_singleton.mp mem]
    omega
  · exact Nat.digits_lt_base base (List.mem_reverse.mp mem)

/-- A number is not written with a zero in front. -/
theorem head_digitsOf {n d : Nat} {ds : List Nat} (positive : n ≠ 0) (digits : digitsOf b n = d :: ds) :
    d ≠ 0 := by
  rw [digitsOf, if_neg positive, List.reverse_eq_cons_iff] at digits
  have last := Nat.getLast_digit_ne_zero b positive
  simp only [digits, List.getLast_append_singleton] at last
  exact last

/-- What is written is read back. -/
theorem value_digitsOf (base : 2 ≤ b) (n : Nat) : value b (digitsOf b n) = n := by
  induction n using Nat.strongRecOn with
  | ind n ih =>
    have split := Nat.div_add_mod n b
    rw [digitsOf_eq base]
    by_cases single : n / b = 0
    · rw [single, Nat.mul_zero] at split
      rw [if_pos single, value, List.foldl_cons, List.foldl_nil]
      omega
    · have smaller : n / b < n := Nat.div_lt_self (Nat.pos_of_ne_zero fun zero => by simp [zero] at single) base
      rw [if_neg single, value_concat, ih _ smaller, Nat.mul_comm]
      exact split

/-- Zeros in front do not count. -/
theorem value_zeros (b k : Nat) (ds : List Nat) :
    value b (List.replicate k 0 ++ ds) = value b ds := by
  rw [value, List.foldl_append]
  have zeros : (List.replicate k 0).foldl (fun v d => v * b + d) 0 = 0 := by
    induction k with
    | zero => rfl
    | succ k ih => simpa [List.replicate_succ] using ih
  rw [zeros]
  rfl

theorem length_digitsOf_le (base : 2 ≤ b) {n k : Nat} (positive : 0 < k) (bound : n < b ^ k) :
    (digitsOf b n).length ≤ k := by
  rw [digitsOf]
  split
  · exact positive
  · rw [List.length_reverse]
    exact (Nat.digits_length_le_iff base n).mpr bound

end Positional
