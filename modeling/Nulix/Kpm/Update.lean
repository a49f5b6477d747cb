import Nulix.Kpm.Bits
import Nulix.Lib.OrTree
import Mathlib.Tactic.Ring

/-!
# Updating the orders above a region

`kpm_update_order` walks the blocks of one order that meet a byte region and recomputes their bits
from their children. `kpmUpdateOrder_shows` says so for the record of bits, for a region that
starts anywhere, and `kpmUpdateOrders_tree` that the ten calls in ascending order turn leaves that
changed inside the region only into the tree over the new leaves.
-/

namespace Nulix.Kpm

open Words Fallible OrTree

/-- The size in bytes of a block of order `n`. -/
def blockSize (n : Nat) : Nat := pageSize * 2 ^ n

/-- Block `i` of order `n` has a byte in the region `[base, base + limit)`. -/
def Meets (base limit n i : Nat) : Prop :=
  0 < limit ∧ i * blockSize n < base + limit ∧ base < (i + 1) * blockSize n

instance (base limit n i : Nat) : Decidable (Meets base limit n i) :=
  inferInstanceAs (Decidable (_ ∧ _ ∧ _))

/-- Recompute the blocks of order `n + 1` for which `P` holds. -/
def Bits.updateOrder (s : Bits) (n : Nat) (P : Nat → Prop) [DecidablePred P] : Bits :=
  { s with
    order := fun k i =>
      if k = n + 1 ∧ P i then s.order n (2 * i) || s.order n (2 * i + 1) else s.order k i }

theorem Bits.updateOrder_congr {s : Bits} {n : Nat} {P Q : Nat → Prop} [DecidablePred P]
    [DecidablePred Q] (same : ∀ i, P i ↔ Q i) : s.updateOrder n P = s.updateOrder n Q := by
  simp only [updateOrder, same]

theorem Bits.updateOrder_single (s : Bits) (n j : Nat) :
    s.updateOrder n (· = j) = s.setOrder (n + 1) j (s.order n (2 * j) || s.order n (2 * j + 1)) := by
  simp only [updateOrder, setOrder, Bits.mk.injEq, true_and]
  funext k i
  split
  · rename_i same
    rw [same.2]
  · rfl

/-- Blocks of one order can be recomputed one after the other, since none is a child of another. -/
theorem Bits.updateOrder_updateOrder (s : Bits) (n : Nat) (P Q : Nat → Prop) [DecidablePred P]
    [DecidablePred Q] :
    (s.updateOrder n P).updateOrder n Q = s.updateOrder n fun i => P i ∨ Q i := by
  simp only [updateOrder, Bits.mk.injEq, true_and]
  funext k i
  by_cases level : k = n + 1 <;> by_cases p : P i <;> by_cases q : Q i <;> simp [level, p, q]

theorem Bits.updateOrder_none (s : Bits) (n : Nat) {P : Nat → Prop} [DecidablePred P]
    (none : ∀ i, ¬ P i) : s.updateOrder n P = s := by
  simp [updateOrder, none]

variable {b : Buddy}

namespace Laid

/-- The last frame ends well below 4 GiB. -/
theorem memory_lt (laid : Laid b) : b.nframes * pageSize + 2 ^ 22 ≤ 2 ^ 32 := by
  have multiple := laid.nframes_mod
  have small := laid.nframes_lt
  rw [pageSize]
  omega

theorem pow_dvd (laid : Laid b) {n : Nat} (hn : n < kpmNorders) : 2 ^ n ∣ b.nframes :=
  (Nat.pow_dvd_pow 2 (by simp only [kpmNorders] at hn; omega : n ≤ 10)).trans
    (Nat.dvd_of_mod_eq_zero laid.nframes_mod)

theorem blockSize_le {n : Nat} (hn : n < kpmNorders) : blockSize n ≤ 2 ^ 22 := by
  have : 2 ^ n ≤ 2 ^ 10 :=
    Nat.pow_le_pow_right (by norm_num) (by simp only [kpmNorders] at hn; omega)
  rw [blockSize, pageSize]
  omega

/-- A block that starts below the end of memory is one of its order. -/
theorem block_lt (laid : Laid b) {n i : Nat} (hn : n < kpmNorders)
    (start : i * blockSize n < b.nframes * pageSize) : i < b.nframes / 2 ^ n := by
  have frames : i * 2 ^ n < b.nframes := by
    rw [blockSize, Nat.mul_comm pageSize, ← Nat.mul_assoc] at start
    exact Nat.lt_of_mul_lt_mul_right start
  rw [Nat.lt_div_iff_mul_lt' (laid.pow_dvd hn), Nat.mul_comm]
  exact frames

end Laid

theorem blockSize_pos (n : Nat) : 0 < blockSize n :=
  Nat.mul_pos (by decide) (Nat.two_pow_pos n)

theorem blockSize_eq_pow (n : Nat) : blockSize n = 2 ^ (12 + n) := by
  rw [blockSize, pageSize_pow, Nat.pow_add]

/-! ## One order -/

/-- The two reads give the disjunction of the children, whether or not the second one is made. -/
theorem kpmChildAllocated_shows (laid : Laid b) {n : Nat} (hn : n + 1 < kpmNorders) {m : Mem}
    {s : Bits} (holds : Shows b m s) {i : Nat} (inside : i < b.nframes / 2 ^ (n + 1)) :
    kpmChildAllocated b (n + 1) (2 * i) (2 * i + 1) m =
      .ok (s.order n (2 * i) || s.order n (2 * i + 1)) := by
  obtain ⟨left, right⟩ := child_lt inside
  have readLeft := kpmIsAllocated_shows laid holds (Nat.lt_of_succ_lt hn) left
  have readRight := kpmIsAllocated_shows laid holds (Nat.lt_of_succ_lt hn) right
  rw [kpmChildAllocated, Nat.add_sub_cancel, readLeft, readRight]
  cases s.order n (2 * i) <;> rfl

/-- Writing what was read to the bit of the parent recomputes it. -/
theorem writeParent_shows (laid : Laid b) {n : Nat} (hn : n + 1 < kpmNorders) {m : Mem} {s : Bits}
    (holds : Shows b m s) {i : Nat} (inside : i < b.nframes / 2 ^ (n + 1)) :
    Returns
      ((if (s.order n (2 * i) || s.order n (2 * i + 1)) = true then kpmAllocBit b (n + 1) i
        else kpmFreeBit b (n + 1) i) m)
      fun m' => Shows b m' (s.updateOrder n (· = i)) := by
  split
  · rename_i set
    refine (kpmAllocBit_shows laid holds hn inside).mono fun m' shows => ?_
    rwa [Bits.updateOrder_single, set]
  · rename_i clear
    refine (kpmFreeBit_shows laid holds hn inside).mono fun m' shows => ?_
    rwa [Bits.updateOrder_single, Bool.eq_false_iff.mpr clear]

/-- The start of the next block. -/
theorem Laid.alignNextForce_block (laid : Laid b) {n : Nat} (hn : n < kpmNorders) {base : Nat}
    (below : base < b.nframes * pageSize) :
    alignNextForce base (pageSize * 2 ^ n) = (base / blockSize n + 1) * blockSize n := by
  have room : b.nframes * pageSize + 2 ^ 22 ≤ 2 ^ 32 := laid.memory_lt
  have size : blockSize n ≤ 2 ^ 22 := Laid.blockSize_le hn
  have start : base / blockSize n * blockSize n ≤ base := Nat.div_mul_le_self _ _
  have mask := alignNextForce_pow base (k := 12 + n) (by simp only [kpmNorders] at hn; omega)
  rw [← blockSize_eq_pow, u32_of_lt (x := base) (by omega), u32_of_lt (by omega),
    Nat.add_div_right base (blockSize_pos n)] at mask
  exact mask

/-- One turn recomputes the block that holds `base` and moves on to the start of the next one. -/
theorem kpmUpdateOrderTurn_shows (laid : Laid b) {n : Nat} (hn : n + 1 < kpmNorders) {m : Mem}
    {s : Bits} (holds : Shows b m s) {base : Nat} (below : base < b.nframes * pageSize) :
    Returns (kpmUpdateOrderTurn b (n + 1) (base, m)) fun t =>
      t.1 = (base / blockSize (n + 1) + 1) * blockSize (n + 1) ∧
      Shows b t.2 (s.updateOrder n (· = base / blockSize (n + 1))) := by
  have index : base >>> (n + 1) / pageSize = base / blockSize (n + 1) := by
    rw [Nat.shiftRight_eq_div_pow, Nat.div_div_eq_div_mul, Nat.mul_comm, blockSize]
  have inside : base / blockSize (n + 1) < b.nframes / 2 ^ (n + 1) :=
    laid.block_lt hn ((Nat.div_mul_le_self _ _).trans_lt below)
  obtain ⟨left, right⟩ := child_lt inside
  have few : b.nframes / 2 ^ n ≤ b.nframes := Nat.div_le_self _ _
  have small : b.nframes < 2 ^ 20 := laid.nframes_lt
  have lchild : u32 (base / blockSize (n + 1) * 2) = 2 * (base / blockSize (n + 1)) := by
    rw [Nat.mul_comm, u32_of_lt (by omega)]
  have rchild : u32 (2 * (base / blockSize (n + 1)) + 1) = 2 * (base / blockSize (n + 1)) + 1 :=
    u32_of_lt (by omega)
  unfold kpmUpdateOrderTurn
  simp only [index, lchild, rchild, laid.alignNextForce_block hn below]
  refine Returns.bind_ok (kpmChildAllocated_shows laid hn holds inside) ?_
  exact (writeParent_shows laid hn holds inside).bind fun m' shows => .ok ⟨rfl, shows⟩

/-- The state of the loop of `kpm_update_order` after `t` turns: from the block of `base` on, `t`
blocks are recomputed, the last of which meets the region. -/
structure Recomputed (b : Buddy) (s : Bits) (n base limit t : Nat) (r : Nat × Mem) : Prop where
  position : r.1 = if t = 0 then base else (base / blockSize (n + 1) + t) * blockSize (n + 1)
  visited : 0 < t →
    0 < limit ∧ (base / blockSize (n + 1) + t - 1) * blockSize (n + 1) < base + limit
  shows : Shows b r.2
    (s.updateOrder n fun i => base / blockSize (n + 1) ≤ i ∧ i < base / blockSize (n + 1) + t)

namespace Recomputed

variable {s : Bits} {n base limit t : Nat} {r : Nat × Mem}

/-- Where the next turn is made. -/
theorem block_eq (done : Recomputed b s n base limit t r) :
    r.1 / blockSize (n + 1) = base / blockSize (n + 1) + t := by
  rw [done.position]
  split
  · rename_i zero
    rw [zero]
    rfl
  · exact Nat.mul_div_cancel _ (blockSize_pos (n + 1))

theorem turn (laid : Laid b) (hn : n + 1 < kpmNorders) (inside : base + limit ≤ b.nframes * pageSize)
    (done : Recomputed b s n base limit t r) (continues : r.1 < base + limit) :
    t + 1 < 2 ^ 20 ∧
      Returns (kpmUpdateOrderTurn b (n + 1) r) (Recomputed b s n base limit (t + 1)) := by
  have block := done.block_eq
  have small : b.nframes < 2 ^ 20 := laid.nframes_lt
  have start : (base / blockSize (n + 1) + t) * blockSize (n + 1) ≤ r.1 := by
    rw [← block]
    exact Nat.div_mul_le_self _ _
  have within : base / blockSize (n + 1) + t < b.nframes / 2 ^ (n + 1) := laid.block_lt hn (by omega)
  have few : b.nframes / 2 ^ (n + 1) ≤ b.nframes / 2 :=
    Nat.div_le_div_left (Nat.le_self_pow (by omega) 2) (by decide)
  have turns : t < b.nframes / 2 ^ (n + 1) := Nat.lt_of_le_of_lt (Nat.le_add_left t _) within
  refine ⟨by omega, ?_⟩
  refine (kpmUpdateOrderTurn_shows laid hn done.shows (by omega)).mono fun r' ⟨moved, updated⟩ => ?_
  rw [block] at moved updated
  refine ⟨?_, fun _ => ⟨?_, ?_⟩, ?_⟩
  · rw [moved, if_neg (Nat.succ_ne_zero t), Nat.add_assoc]
  · rcases Nat.eq_zero_or_pos t with rfl | later
    · have position := done.position
      rw [if_pos rfl] at position
      omega
    · exact (done.visited later).1
  · rw [← Nat.add_assoc, Nat.add_sub_cancel]
    exact start.trans_lt continues
  · rw [Bits.updateOrder_updateOrder] at updated
    generalize base / blockSize (n + 1) = first at updated ⊢
    rwa [Bits.updateOrder_congr fun i => show (first ≤ i ∧ i < first + (t + 1)) ↔
      ((first ≤ i ∧ i < first + t) ∨ i = first + t) by omega]

/-- At the end of the loop the blocks visited are those that meet the region. -/
theorem visits (done : Recomputed b s n base limit t r) (finished : base + limit ≤ r.1) (i : Nat) :
    (base / blockSize (n + 1) ≤ i ∧ i < base / blockSize (n + 1) + t) ↔ Meets base limit (n + 1) i := by
  obtain ⟨position, visited, -⟩ := done
  have low : base / blockSize (n + 1) * blockSize (n + 1) ≤ base := Nat.div_mul_le_self _ _
  have high : base < (base / blockSize (n + 1) + 1) * blockSize (n + 1) := by
    rw [Nat.mul_comm]
    exact Nat.lt_mul_div_succ base (blockSize_pos (n + 1))
  generalize base / blockSize (n + 1) = first at *
  constructor
  · rintro ⟨from_first, to_last⟩
    obtain ⟨some, last⟩ := visited (by omega)
    have upper : i * blockSize (n + 1) ≤ (first + t - 1) * blockSize (n + 1) :=
      Nat.mul_le_mul_right _ (by omega)
    have lower : (first + 1) * blockSize (n + 1) ≤ (i + 1) * blockSize (n + 1) :=
      Nat.mul_le_mul_right _ (by omega)
    exact ⟨some, by omega, by omega⟩
  · rintro ⟨some, starts, ends⟩
    have lower : first < i + 1 :=
      Nat.lt_of_mul_lt_mul_right (low.trans_lt ends)
    have upper : i < first + t := by
      rcases Nat.eq_zero_or_pos t with rfl | later
      · rw [if_pos rfl] at position
        omega
      · rw [if_neg (by omega)] at position
        exact Nat.lt_of_mul_lt_mul_right (a := blockSize (n + 1)) (by omega)
    exact ⟨by omega, upper⟩

end Recomputed

/-- The loop of `kpm_update_order` recomputes exactly the blocks that meet the region. -/
theorem kpmUpdateOrder_shows (laid : Laid b) {n : Nat} (hn : n + 1 < kpmNorders) {m : Mem}
    {s : Bits} (holds : Shows b m s) {base limit : Nat}
    (inside : base + limit ≤ b.nframes * pageSize) :
    Returns (kpmUpdateOrder b (n + 1) base limit m) fun m' =>
      Shows b m' (s.updateOrder n (Meets base limit (n + 1))) := by
  have room : b.nframes * pageSize + 2 ^ 22 ≤ 2 ^ 32 := laid.memory_lt
  have stop : u32 (base + limit) = base + limit := u32_of_lt (by omega)
  have init : Recomputed b s n base limit 0 (base, m) := by
    refine ⟨rfl, fun some => absurd some (lt_irrefl 0), ?_⟩
    rwa [Bits.updateOrder_none s n fun i => by omega]
  have turn : ∀ t r, Recomputed b s n base limit t r → decide (r.1 < u32 (base + limit)) = true →
      t + 1 < 2 ^ 20 ∧
        Returns (kpmUpdateOrderTurn b (n + 1) r) (Recomputed b s n base limit (t + 1)) := by
    intro t r done continues
    rw [decide_eq_true_eq, stop] at continues
    exact done.turn laid hn inside continues
  refine (whileLoop_counts _ turn init (Nat.zero_add _) (by decide)).bind ?_
  rintro ⟨here, mem⟩ ⟨t, done, finished⟩
  rw [decide_eq_false_iff_not, stop, not_lt] at finished
  refine .ok ?_
  rw [← Bits.updateOrder_congr (done.visits finished)]
  exact done.shows

/-! ## All orders -/

/-- A block meets a region as soon as one of its frames does. -/
theorem Meets.of_frame {base limit n i f : Nat} (mem : f ∈ block n i) (meets : Meets base limit 0 f) :
    Meets base limit n i := by
  obtain ⟨some, starts, ends⟩ := meets
  rw [block, Finset.mem_Ico] at mem
  have lower : i * 2 ^ n * pageSize ≤ f * pageSize := Nat.mul_le_mul_right _ mem.1
  have upper : (f + 1) * pageSize ≤ (i + 1) * 2 ^ n * pageSize := Nat.mul_le_mul_right _ mem.2
  have left : i * blockSize n = i * 2 ^ n * pageSize := by rw [blockSize]; ring
  have right : (i + 1) * blockSize n = (i + 1) * 2 ^ n * pageSize := by rw [blockSize]; ring
  rw [blockSize, Nat.pow_zero, Nat.mul_one] at starts ends
  exact ⟨some, by omega, by omega⟩

/-- `s'` differs from `s` only in bits of blocks of the orders from 1 on. -/
structure SameLeaves (b : Buddy) (s s' : Bits) : Prop where
  enabled : s'.enabled = s.enabled
  leaves : s'.order 0 = s.order 0
  padding : ∀ n i, n < kpmNorders → b.nframes / 2 ^ n ≤ i → s'.order n i = s.order n i

/-- Updating an order changes bits of its blocks that meet the region only. -/
theorem SameLeaves.updateOrder (laid : Laid b) {s s' : Bits} (same : SameLeaves b s s') {n base limit : Nat}
    (inside : base + limit ≤ b.nframes * pageSize) :
    SameLeaves b s (s'.updateOrder n (Meets base limit (n + 1))) := by
  refine ⟨same.enabled, ?_, fun n' i hn hi => ?_⟩
  · rw [← same.leaves]
    funext i
    simp [Bits.updateOrder]
  · rw [← same.padding n' i hn hi]
    refine if_neg fun bad => ?_
    have start := bad.2.2.1
    rw [← bad.1] at start
    exact absurd (laid.block_lt hn (start.trans_le inside)) (not_lt.mpr hi)

/-- The orders up to `k` are the tree over the leaves `new`, and those above it are still the tree over
the leaves `old`. -/
structure TreeUpTo (b : Buddy) (old new : Nat → Bool) (k : Nat) (s : Bits) : Prop where
  done : ∀ n, n ≤ k → ∀ i, i < b.nframes / 2 ^ n → s.order n i = blockOr new n i
  todo : ∀ n, k < n → n < kpmNorders → ∀ i, i < b.nframes / 2 ^ n → s.order n i = blockOr old n i

/-- The next order is recomputed where the region meets it, and has not changed elsewhere. -/
theorem TreeUpTo.next {s : Bits} {old new : Nat → Bool} {k base limit : Nat}
    (tree : TreeUpTo b old new k s) (order : k + 1 < kpmNorders)
    (changed : ∀ f, f < b.nframes → new f ≠ old f → Meets base limit 0 f) :
    TreeUpTo b old new (k + 1) (s.updateOrder k (Meets base limit (k + 1))) := by
  refine ⟨fun n hn i hi => ?_, fun n hn hn' i hi => ?_⟩
  · rcases Nat.le_or_eq_of_le_succ hn with earlier | rfl
    · rw [← tree.done n earlier i hi]
      exact if_neg fun bad => by omega
    · obtain ⟨left, right⟩ := child_lt hi
      by_cases meets : Meets base limit (k + 1) i
      · have recomputed := tree.done k le_rfl _ left
        have recomputed' := tree.done k le_rfl _ right
        simp only [Bits.updateOrder, true_and, if_pos meets, recomputed, recomputed', blockOr]
      · have kept : blockOr old (k + 1) i = blockOr new (k + 1) i := by
          refine blockOr_congr fun f hf => ?_
          by_contra differs
          exact meets (.of_frame hf (changed f (lt_of_mem_block hi hf) (Ne.symm differs)))
        simp only [Bits.updateOrder, true_and, if_neg meets]
        rw [tree.todo (k + 1) (Nat.lt_succ_self k) order i hi, kept]
  · rw [← tree.todo n (by omega) hn' i hi]
    exact if_neg fun bad => by omega

/-- After leaves changed inside a region only, the updates of orders 1 to 10 over that region make
the orders the tree over the new leaves. -/
theorem kpmUpdateOrders_tree (laid : Laid b) {m : Mem} {s : Bits} (holds : Shows b m s)
    {base limit : Nat} (inside : base + limit ≤ b.nframes * pageSize) {old : Nat → Bool}
    (tree : ∀ n, 0 < n → n < kpmNorders → ∀ i, i < b.nframes / 2 ^ n →
      s.order n i = blockOr old n i)
    (changed : ∀ f, f < b.nframes → s.order 0 f ≠ old f → Meets base limit 0 f) :
    Returns (kpmUpdateOrders b base limit m) fun m' => ∃ s', Shows b m' s' ∧ SameLeaves b s s' ∧
      ∀ n, n < kpmNorders → ∀ i, i < b.nframes / 2 ^ n → s'.order n i = blockOr (s.order 0) n i := by
  have leaves : TreeUpTo b old (s.order 0) 0 s := by
    refine ⟨fun n hn i _ => ?_, tree⟩
    obtain rfl := Nat.le_zero.mp hn
    rfl
  have updates : Returns (kpmUpdateOrders b base limit m) fun m' => ∃ s', Shows b m' s' ∧
      SameLeaves b s s' ∧ TreeUpTo b old (s.order 0) (kpmNorders - 1) s' := by
    refine forRange_returns
      (fun k m' => ∃ s', Shows b m' s' ∧ SameLeaves b s s' ∧ TreeUpTo b old (s.order 0) k s')
      ⟨s, holds, ⟨rfl, rfl, fun _ _ _ _ => rfl⟩, leaves⟩ ?_
    rintro k hk m' ⟨s', shows, same, upTo⟩
    have order : k + 1 < kpmNorders := Nat.add_lt_of_lt_sub hk
    refine (kpmUpdateOrder_shows laid order shows inside).mono fun m'' shows' => ?_
    exact ⟨_, shows', same.updateOrder laid inside, upTo.next order changed⟩
  refine updates.mono ?_
  rintro m' ⟨s', shows, same, upTo⟩
  exact ⟨s', shows, same, fun n hn => upTo.done n (Nat.le_pred_of_lt hn)⟩

end Nulix.Kpm
