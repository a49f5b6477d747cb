import Nulix.Lib.Words

/-!
# Byte memory

The flat 32-bit address space of the kernel as a function from addresses to bytes, and the library
functions that write whole ranges of it.
-/

namespace Nulix

open Words

/-- The contents of memory. Only the addresses below `2 ^ 32` exist. -/
abbrev Mem := Nat → BitVec 8

/-- `memset` (lib/string/mem.c): one byte is stored per turn. -/
def memset (s : Nat) (c : BitVec 8) : Nat → Mem → Mem
  | 0, m => m
  | n + 1, m => memset (u32 (s + 1)) c n (Function.update m (u32 s) c)

/-- Bytes outside the filled range keep their value. -/
theorem memset_outside {c : BitVec 8} {a n : Nat} :
    ∀ {s : Nat} {m : Mem}, (∀ k, k < n → a ≠ u32 (s + k)) → memset s c n m a = m a := by
  induction n with
  | zero => intro s m _; rfl
  | succ n ih =>
    intro s m outside
    unfold memset
    rw [ih, Function.update_of_ne (by simpa using outside 0 (by omega))]
    intro k hk
    have := outside (k + 1) (by omega)
    unfold u32 at this ⊢
    omega

/-- Every byte of the filled range holds the fill value. -/
theorem memset_inside {c : BitVec 8} {k n : Nat} :
    ∀ {s : Nat} {m : Mem}, k < n → memset s c n m (u32 (s + k)) = c := by
  induction n generalizing k with
  | zero => intro s m hk; cases hk
  | succ n ih =>
    intro s m hk
    unfold memset
    by_cases again : ∃ j, j < n ∧ u32 (s + k) = u32 (u32 (s + 1) + j)
    · obtain ⟨j, hj, same⟩ := again
      rw [same]
      exact ih hj
    · push Not at again
      rw [memset_outside again]
      have first : k = 0 := by
        by_contra later
        refine again (k - 1) (by omega) ?_
        unfold u32
        omega
      rw [first, Nat.add_zero, Function.update_self]

end Nulix
