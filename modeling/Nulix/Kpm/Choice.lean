import Nulix.Kpm.Tree

/-!
# The choice of the allocator, in bits

What `kpm_alloc` returns, read off the bits of order 0 alone: it fails only when no frame is free,
and otherwise takes the lowest of the largest free blocks that are not above the best fit. That the
search looks at the summary bitmaps and not at these bits is what the tree invariant makes up for.
-/

namespace Nulix.Kpm

open Words Fallible OrTree

/-- Order `o` is the best fit for `size` bytes: the least order whose blocks hold them, or the highest
one if none does. -/
def IsBestFit (size o : Nat) : Prop :=
  (o ≤ 10 ∧ size ≤ 4096 * 2 ^ o ∧ ∀ n, n < o → ¬size ≤ 4096 * 2 ^ n) ∨
    (o = 10 ∧ ∀ n, n ≤ 10 → ¬size ≤ 4096 * 2 ^ n)

/-- Block `i` of order `o` lies in memory, and none of its frames is marked allocated. -/
def FreeBlock (b : Buddy) (m : Mem) (o i : Nat) : Prop :=
  (i + 1) * 2 ^ o ≤ b.nframes ∧ ∀ f ∈ block o i, b.allocated 0 f m = false

/-- Block `i` of order `o` is the lowest of the largest free blocks up to order `best`. -/
structure Chosen (b : Buddy) (m : Mem) (best o i : Nat) : Prop where
  order : o ≤ best
  free : FreeBlock b m o i
  largest : ∀ o', o < o' → o' ≤ best → ∀ i', ¬FreeBlock b m o' i'
  lowest : ∀ i', i' < i → ¬FreeBlock b m o i'

theorem isBestFit_findBestFitOrder {size : Nat} (small : size + 4095 < 2 ^ 32) :
    IsBestFit size (findBestFitOrder size) := by
  obtain ⟨below, enough⟩ := findBestFitOrder_spec small
  have order : findBestFitOrder size ≤ 10 := Nat.lt_succ_iff.mp (findBestFitOrder_lt size)
  have below' : ∀ n, n < findBestFitOrder size → ¬size ≤ 4096 * 2 ^ n :=
    fun n hn => not_le.mpr (below n hn)
  by_cases holds : size ≤ 4096 * 2 ^ findBestFitOrder size
  · exact .inl ⟨order, holds, below'⟩
  · have highest : findBestFitOrder size = 10 := enough.resolve_left holds
    refine .inr ⟨highest, fun n hn => ?_⟩
    rcases Nat.lt_or_eq_of_le hn with lower | rfl
    · exact below' n (by omega)
    · rwa [highest] at holds

variable {b : Buddy} {m : Mem}

theorem block_inside_iff {o i : Nat} : i < b.nframes / 2 ^ o ↔ (i + 1) * 2 ^ o ≤ b.nframes := by
  rw [← Nat.succ_le_iff, Nat.le_div_iff_mul_le (Nat.two_pow_pos o)]

theorem freeBlock_iff (inv : TreeInv b m) {o i : Nat} :
    FreeBlock b m o i ↔ i < b.nframes / 2 ^ o ∧ block o i ⊆ inv.pool.free := by
  rw [FreeBlock, block_inside_iff]
  refine and_congr_right fun inside => forall₂_congr fun f mem => ?_
  have frame : f < b.nframes := lt_of_mem_block (block_inside_iff.mpr inside) mem
  simp [TreeInv.pool, frame]

/-- The choice that the outcome describes on frames is the choice on bits. -/
theorem Grants.chosen (inv : TreeInv b m) {best o i : Nat} {c : KpmChunk}
    (grants : Grants b inv.pool (best + 1) c o i) : Chosen b m best o i := by
  refine ⟨Nat.lt_succ_iff.mp grants.order, (freeBlock_iff inv).mpr ⟨grants.inside, grants.free⟩,
    fun o' above below i' free => ?_, fun i' earlier free => ?_⟩
  · obtain ⟨inside, sub⟩ := (freeBlock_iff inv).mp free
    exact grants.highest o' above (Nat.lt_succ_of_le below) i' inside sub
  · exact grants.lowest i' earlier ((freeBlock_iff inv).mp free).2

/-- Taking a block sets its bits of order 0 and no other one. -/
theorem take_leaves {m' : Mem} (laid : Laid b) (inv : TreeInv b m) {o i : Nat}
    (after : Represents b m' (inv.pool.take (block o i))) {f : Nat}
    (bit : f < 8 * (b.orders 0).size) :
    b.allocated 0 f m' = if f ∈ block o i then true else b.allocated 0 f m := by
  have frame : f < b.nframes := by
    have multiple := laid.nframes_mod
    rw [laid.size_eq 0 (by decide)] at bit
    simp only [Nat.pow_zero, Nat.div_one] at bit
    omega
  rw [after.leaf frame]
  by_cases taken : f ∈ block o i
  · simp [Pool.take, taken]
  · simp [Pool.take, TreeInv.pool, taken, frame]

/-- **What `kpm_alloc` chooses.** -/
theorem kpmAlloc_choice (ek memkb : Nat) {m : Mem} {size : Nat}
    (inv : TreeInv (kpmInitBuddy ek memkb) m) (word : size ≤ 2 ^ 31 - 1) :
    ∃ best, IsBestFit size best ∧
    ∃ r m', kpmAlloc (kpmInitBuddy ek memkb) size m = .ok (r, m') ∧
      (r = none ∧ m' = m ↔ ∀ f, f < (kpmInitBuddy ek memkb).nframes →
        (kpmInitBuddy ek memkb).allocated 0 f m = true) ∧
      (¬(∀ f, f < (kpmInitBuddy ek memkb).nframes →
          (kpmInitBuddy ek memkb).allocated 0 f m = true) →
        ∃ o i, Chosen (kpmInitBuddy ek memkb) m best o i ∧
          r = some { addr := i * (4096 * 2 ^ o), size := 4096 * 2 ^ o } ∧
          ∀ f, f < 8 * ((kpmInitBuddy ek memkb).orders 0).size →
            (kpmInitBuddy ek memkb).allocated 0 f m' =
              if f ∈ block o i then true else (kpmInitBuddy ek memkb).allocated 0 f m) := by
  have laid : Laid (kpmInitBuddy ek memkb) := laid_kpmInitBuddy ek memkb
  generalize kpmInitBuddy ek memkb = b at inv laid ⊢
  refine ⟨findBestFitOrder size, isBestFit_findBestFitOrder (by omega), ?_⟩
  obtain ⟨⟨r, m'⟩, returned, outcome⟩ := kpmAlloc_outcome laid inv.represents size
  refine ⟨r, m', returned, ?_⟩
  cases r with
  | none =>
    have exhausted := outcome.exhausted inv.represents (Nat.succ_pos _)
    have full : ∀ f, f < b.nframes → b.allocated 0 f m = true := by
      intro f hf
      rw [inv.represents.leaf hf, exhausted]
      simp
    exact ⟨iff_of_true ⟨rfl, outcome.1⟩ full, fun some => absurd full some⟩
  | some c =>
    obtain ⟨o, i, grants, after⟩ := outcome
    have chosen := grants.chosen inv
    have some : ¬∀ f, f < b.nframes → b.allocated 0 f m = true := by
      intro full
      have first : i * 2 ^ o ∈ block o i := by
        rw [mem_block]
        exact Nat.mul_div_cancel _ (Nat.two_pow_pos o)
      have set := full _ (lt_of_mem_block grants.inside first)
      rw [chosen.free.2 _ first] at set
      cases set
    refine ⟨iff_of_false (fun failed => nomatch failed.1) some, fun _ => ⟨o, i, chosen, ?_, ?_⟩⟩
    · rw [grants.chunk]
      rfl
    · exact fun f bit => take_leaves laid inv after bit

/-- With the first two pages of a machine with 4 MiB in service, 9000 bytes ask for more than there
is in one block. -/
theorem kpmAlloc_choice_two_pages : ∃ m,
    Represents (kpmInitBuddy 0xC0101000 4096) m ⟨{0, 1}, {0, 1}, Finset.Subset.refl _⟩ ∧
    (¬∀ f, f < (kpmInitBuddy 0xC0101000 4096).nframes →
      (kpmInitBuddy 0xC0101000 4096).allocated 0 f m = true) ∧
    ∃ best, IsBestFit 9000 best ∧
    ∃ r m', kpmAlloc (kpmInitBuddy 0xC0101000 4096) 9000 m = .ok (r, m') ∧
      (r = none ∧ m' = m ↔ ∀ f, f < (kpmInitBuddy 0xC0101000 4096).nframes →
        (kpmInitBuddy 0xC0101000 4096).allocated 0 f m = true) ∧
      (¬(∀ f, f < (kpmInitBuddy 0xC0101000 4096).nframes →
          (kpmInitBuddy 0xC0101000 4096).allocated 0 f m = true) →
        ∃ o i, Chosen (kpmInitBuddy 0xC0101000 4096) m best o i ∧
          r = some { addr := i * (4096 * 2 ^ o), size := 4096 * 2 ^ o } ∧
          ∀ f, f < 8 * ((kpmInitBuddy 0xC0101000 4096).orders 0).size →
            (kpmInitBuddy 0xC0101000 4096).allocated 0 f m' =
              if f ∈ block o i then true
              else (kpmInitBuddy 0xC0101000 4096).allocated 0 f m) := by
  have nframes : (kpmInitBuddy 0xC0101000 4096).nframes = 1024 := by decide
  obtain ⟨m, rep⟩ := exists_two_pages
  refine ⟨m, rep, fun full => ?_, kpmAlloc_choice 0xC0101000 4096 rep.treeInv (by decide)⟩
  have first : 0 < (kpmInitBuddy 0xC0101000 4096).nframes := by
    rw [nframes]
    decide
  have free := (rep.leaf first).symm.trans (full 0 first)
  simp at free

end Nulix.Kpm
