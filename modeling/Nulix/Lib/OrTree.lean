import Mathlib.Data.Nat.Bits
import Mathlib.Order.Interval.Finset.Nat
import Mathlib.Tactic.Linarith

/-!
# Binary trees of disjunctions

Level `0` of the tree is a sequence of leaves; node `i` of level `n + 1` has the children `2 * i`
and `2 * i + 1` of level `n` and carries the disjunction of their bits. `blockOr leaf n i` is that
bit written over the leaves, and `block n i` the set of leaves below the node.
-/

namespace OrTree

/-- The disjunction of the leaves below node `i` of level `n`. -/
def blockOr (leaf : Nat → Bool) : Nat → Nat → Bool
  | 0, i => leaf i
  | n + 1, i => blockOr leaf n (2 * i) || blockOr leaf n (2 * i + 1)

/-- The leaves below node `i` of level `n`. -/
def block (n i : Nat) : Finset Nat := Finset.Ico (i * 2 ^ n) ((i + 1) * 2 ^ n)

theorem mem_block {n i f : Nat} : f ∈ block n i ↔ f / 2 ^ n = i := by
  have pos : 0 < 2 ^ n := Nat.two_pow_pos n
  rw [block, Finset.mem_Ico, ← Nat.le_div_iff_mul_le pos, ← Nat.div_lt_iff_lt_mul pos]
  omega

theorem card_block (n i : Nat) : (block n i).card = 2 ^ n := by
  rw [block, Nat.card_Ico, Nat.succ_mul, Nat.add_sub_cancel_left]

theorem mem_block_succ {n i f : Nat} :
    f ∈ block (n + 1) i ↔ f ∈ block n (2 * i) ∨ f ∈ block n (2 * i + 1) := by
  rw [mem_block, mem_block, mem_block, Nat.pow_succ, ← Nat.div_div_eq_div_mul]
  omega

theorem blockOr_iff {leaf : Nat → Bool} {n i : Nat} :
    blockOr leaf n i = true ↔ ∃ f ∈ block n i, leaf f = true := by
  induction n generalizing i with
  | zero => simp [blockOr, mem_block]
  | succ n ih =>
    simp only [blockOr, Bool.or_eq_true, ih, mem_block_succ, or_and_right, exists_or]

theorem blockOr_eq_false_iff {leaf : Nat → Bool} {n i : Nat} :
    blockOr leaf n i = false ↔ ∀ f ∈ block n i, leaf f = false := by
  rw [← Bool.not_eq_true, blockOr_iff]
  simp

theorem blockOr_congr {leaf leaf' : Nat → Bool} {n i : Nat}
    (agree : ∀ f ∈ block n i, leaf f = leaf' f) : blockOr leaf n i = blockOr leaf' n i := by
  rw [Bool.eq_iff_iff, blockOr_iff, blockOr_iff]
  exact exists_congr fun f => and_congr_right fun hf => by rw [agree f hf]

/-- A leaf below a node of a tree with `width` leaves is one of them. -/
theorem lt_of_mem_block {width n i f : Nat} (hi : i < width / 2 ^ n) (hf : f ∈ block n i) :
    f < width := by
  rw [mem_block] at hf
  subst hf
  by_contra beyond
  exact absurd (Nat.div_le_div_right (not_lt.mp beyond)) (not_le.mpr hi)

/-- The children of an inner node of a tree with `width` leaves are nodes of the level below. -/
theorem child_lt {width n i : Nat} (hi : i < width / 2 ^ (n + 1)) :
    2 * i < width / 2 ^ n ∧ 2 * i + 1 < width / 2 ^ n := by
  rw [Nat.pow_succ, ← Nat.div_div_eq_div_mul] at hi
  omega

/-- A family of levels in which every parent is the disjunction of its children is the tree over
its leaves. -/
theorem eq_blockOr (tree : Nat → Nat → Bool) (height : Nat) {width : Nat}
    (parent : ∀ n, n < height → ∀ i, i < width / 2 ^ (n + 1) →
      tree (n + 1) i = (tree n (2 * i) || tree n (2 * i + 1))) :
    ∀ n, n ≤ height → ∀ i, i < width / 2 ^ n → tree n i = blockOr (tree 0) n i := by
  intro n
  induction n with
  | zero => intro _ i _; rfl
  | succ n ih =>
    intro hn i hi
    obtain ⟨left, right⟩ := child_lt hi
    rw [parent n hn i hi, ih (by omega) _ left, ih (by omega) _ right]
    rfl

end OrTree
