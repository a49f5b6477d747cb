import Nulix.Kpm.Pool

/-!
# Allocating and freeing

What `kpm_alloc` takes from the represented pool and what `kpm_free` puts back. `Grants` states the
choice of the allocator in full: the highest order up to the best fit that has a free block, and the
lowest such block.
-/

namespace Nulix.Kpm

open Words Fallible OrTree

/-! ## Searching a bitmap -/

theorem builtinFfs_cases (x : BitVec 8) :
    (builtinFfs x = 0 ∧ ∀ j, j < 8 → x.getLsbD j = false) ∨
      ∃ j, j < 8 ∧ builtinFfs x = j + 1 ∧ x.getLsbD j = true ∧
        ∀ k, k < j → x.getLsbD k = false := by
  unfold builtinFfs
  split
  · rename_i j found
    rw [List.find?_range_eq_some] at found
    obtain ⟨set, small, first⟩ := found
    exact .inr ⟨j, by simpa using small, rfl, set, fun k hk => by simpa using first k hk⟩
  · rename_i none
    rw [List.find?_range_eq_none] at none
    exact .inl ⟨rfl, fun j hj => by simpa using none j hj⟩

theorem readBit_byte (m : Mem) (bitmap i : Nat) {j : Nat} (hj : j < 8) :
    readBit m bitmap (i * 8 + j) = !(~~~ m (u32 (bitmap + i))).getLsbD j := by
  have byte : (i * 8 + j) / 8 = i := by omega
  have bit : (i * 8 + j) % 8 = j := by omega
  rw [readBit_eq, byteOf, byte, bit]
  simp [hj]

/-- The search returns the index of the first clear bit from byte `i` on, or -1 when there is
none. -/
theorem bitmapFfuFrom_cases (bitmap : Nat) (m : Mem) (left i : Nat) :
    (bitmapFfuFrom bitmap m left i = -1 ∧
        ∀ k, i * 8 ≤ k → k < (i + left) * 8 → readBit m bitmap k = true) ∨
      ∃ k : Nat, bitmapFfuFrom bitmap m left i = k ∧ i * 8 ≤ k ∧ k < (i + left) * 8 ∧
        readBit m bitmap k = false ∧ ∀ l, i * 8 ≤ l → l < k → readBit m bitmap l = true := by
  induction left generalizing i with
  | zero => exact .inl ⟨rfl, fun k low high => by omega⟩
  | succ left ih =>
    -- a bit of byte `i` is its index there
    have here : ∀ k, i * 8 ≤ k → k < i * 8 + 8 →
        readBit m bitmap k = !(~~~ m (u32 (bitmap + i))).getLsbD (k - i * 8) := by
      intro k low high
      rw [← readBit_byte m bitmap i (by omega), Nat.add_sub_cancel' low]
    unfold bitmapFfuFrom
    rcases builtinFfs_cases (~~~ m (u32 (bitmap + i))) with
      ⟨zero, set⟩ | ⟨j, small, found, clear, first⟩
    · rw [zero]
      simp only [ne_eq, not_true_eq_false, if_false]
      have full : ∀ k, i * 8 ≤ k → k < i * 8 + 8 → readBit m bitmap k = true := by
        intro k low high
        rw [here k low high, set _ (by omega)]
        rfl
      rcases ih (i + 1) with ⟨none, rest⟩ | ⟨k, eq, low, high, free, before⟩
      · refine .inl ⟨none, fun k low high => ?_⟩
        by_cases within : k < i * 8 + 8
        · exact full k low within
        · exact rest k (by omega) (by omega)
      · refine .inr ⟨k, eq, by omega, by omega, free, fun l from_i below => ?_⟩
        by_cases within : l < i * 8 + 8
        · exact full l from_i within
        · exact before l (by omega) below
    · rw [found]
      simp only [ne_eq, Nat.add_eq_zero_iff, one_ne_zero, and_false, not_false_eq_true, if_true]
      refine .inr ⟨i * 8 + j, by push_cast; ring, by omega, by omega, ?_, fun l low below => ?_⟩
      · rw [here _ (by omega) (by omega), Nat.add_sub_cancel_left, clear]
        rfl
      · rw [here l low (by omega), first _ (by omega)]
        rfl

/-! ## The choice of the allocator -/

/-- Chunk `c` is block `i` of order `o`, the one `kpm_alloc` picks among the orders below
`norders`. -/
structure Grants (b : Buddy) (p : Pool Nat) (norders : Nat) (c : KpmChunk) (o i : Nat) : Prop where
  order : o < norders
  inside : i < b.nframes / 2 ^ o
  free : block o i ⊆ p.free
  chunk : c = { addr := i * blockSize o, size := blockSize o }
  highest : ∀ o', o < o' → o' < norders → ∀ i', i' < b.nframes / 2 ^ o' → ¬ block o' i' ⊆ p.free
  lowest : ∀ i', i' < i → ¬ block o i' ⊆ p.free

/-- The outcome of the search through the orders below `norders`. -/
def AllocOutcome (b : Buddy) (m : Mem) (p : Pool Nat) (norders : Nat) :
    Option KpmChunk × Mem → Prop
  | (none, m') => m' = m ∧
      ∀ o, o < norders → ∀ i, i < b.nframes / 2 ^ o → ¬ block o i ⊆ p.free
  | (some c, m') => ∃ o i, Grants b p norders c o i ∧ Represents b m' (p.take (block o i))

variable {b : Buddy} {m : Mem} {p : Pool Nat}

/-- The bit of a block is clear exactly when all its frames are free. -/
theorem Represents.clear_iff (rep : Represents b m p) {n i : Nat} (hn : n < kpmNorders)
    (hi : i < b.nframes / 2 ^ n) : b.allocated n i m = false ↔ block n i ⊆ p.free := by
  rw [rep.order n hn i hi, blockOr_eq_false_iff, Finset.subset_iff]
  simp

/-- The search fails only when no frame is free. -/
theorem AllocOutcome.exhausted (rep : Represents b m p) {norders : Nat} (some : 0 < norders) {m' : Mem}
    (outcome : AllocOutcome b m p norders (none, m')) : p.free = ∅ := by
  refine Finset.eq_empty_of_forall_notMem fun f free => ?_
  have bound : f < b.nframes := rep.bound f (p.free_sub free)
  refine outcome.2 0 some f (by simpa using bound) ?_
  simpa [block] using free

theorem pageSize_mul_pow (n : Nat) : pageSize * 2 ^ n = blockSize n := rfl

/-- A block in memory ends in memory. -/
theorem block_end {o i : Nat} (hi : i < b.nframes / 2 ^ o) : i * blockSize o + blockSize o ≤ b.nframes * pageSize := by
  have frames : (i + 1) * 2 ^ o ≤ b.nframes := by
    rw [← Nat.le_div_iff_mul_le (Nat.two_pow_pos o)]
    exact hi
  calc i * blockSize o + blockSize o = (i + 1) * 2 ^ o * pageSize := by
        rw [blockSize]
        ring
    _ ≤ b.nframes * pageSize := Nat.mul_le_mul_right _ frames

/-- The first byte of a block, by frames. -/
theorem block_start (o i : Nat) : i * blockSize o = i * 2 ^ o * 4096 := by
  rw [blockSize, pageSize]
  ring

/-- The first byte after a block, by frames. -/
theorem block_stop (o i : Nat) : i * blockSize o + blockSize o = (i + 1) * 2 ^ o * 4096 := by
  rw [blockSize, pageSize]
  ring

theorem meets_of_mem_block {o i f : Nat} (mem : f ∈ block o i) :
    Meets (i * blockSize o) (blockSize o) 0 f := by
  rw [block, Finset.mem_Ico] at mem
  have lower : i * 2 ^ o * 4096 ≤ f * 4096 := Nat.mul_le_mul_right _ mem.1
  have upper : (f + 1) * 4096 ≤ (i + 1) * 2 ^ o * 4096 := Nat.mul_le_mul_right _ mem.2
  have start := block_start o i
  have stop := block_stop o i
  have page : blockSize 0 = 4096 := rfl
  refine ⟨blockSize_pos o, ?_, ?_⟩ <;> rw [page] <;> omega

/-- The loop of `kpm_alloc` sets the leaves of the frames of a block. -/
theorem takeLoop_shows (laid : Laid b) {o i : Nat} (hi : i < b.nframes / 2 ^ o) (m : Mem) :
    Returns (forRange (fun j => kpmAllocBit b 0 (u32 (u32 (i * 2 ^ o) + j))) (2 ^ o) m) fun m' =>
      Shows b m' ((bitsOf b m).putLeaves (block o i) true) := by
  have small : b.nframes < 2 ^ 20 := laid.nframes_lt
  have frames : i * 2 ^ o + 2 ^ o ≤ b.nframes := by
    rw [← Nat.succ_mul, ← Nat.le_div_iff_mul_le (Nat.two_pow_pos o)]
    exact hi
  rw [block, Nat.succ_mul]
  refine forRange_returns (fun j m' =>
    Shows b m' ((bitsOf b m).putLeaves (Finset.Ico (i * 2 ^ o) (i * 2 ^ o + j)) true)) ?_ ?_
  · rw [Nat.add_zero, Finset.Ico_self]
    simpa [Bits.putLeaves] using shows_bitsOf b m
  · intro j hj m' shows
    have index : u32 (u32 (i * 2 ^ o) + j) = i * 2 ^ o + j := by
      rw [u32_of_lt (x := i * 2 ^ o) (by omega), u32_of_lt (by omega)]
    rw [index, Ico_succ_insert, ← Bits.putLeaves_insert]
    exact kpmAllocBit_shows laid shows (by decide) (by simp only [Nat.pow_zero, Nat.div_one]; omega)

/-- Marking the frames of a free block and updating the orders takes the block from the pool. -/
theorem takeBlock_represents (laid : Laid b) (rep : Represents b m p) {o i : Nat}
    (hi : i < b.nframes / 2 ^ o) :
    Returns (do
      let m ← forRange (fun j => kpmAllocBit b 0 (u32 (u32 (i * 2 ^ o) + j))) (2 ^ o) m
      kpmUpdateOrders b (i * blockSize o) (blockSize o) m)
      fun m' => Represents b m' (p.take (block o i)) := by
  refine (takeLoop_shows laid hi m).bind fun m' shows => ?_
  refine kpmUpdateOrders_represents laid rep shows (block_end hi) ?_ rep.bound ?_ ?_ ?_
  · intro n some j
    simp [Bits.putLeaves, bitsOf, Nat.ne_of_gt some]
  · exact rep.enabled
  · intro f hf
    by_cases taken : f ∈ block o i
    · simp [Bits.putLeaves, Pool.take, taken]
    · simp [Bits.putLeaves, Pool.take, bitsOf, taken, rep.leaf hf]
  · intro f differs
    refine meets_of_mem_block ?_
    by_contra outside
    exact differs (by simp [Pool.take, outside])

/-- An order that has no free block makes no difference. -/
theorem AllocOutcome.skip {o : Nat} {r : Option KpmChunk × Mem} (outcome : AllocOutcome b m p o r)
    (noBlock : ∀ i, i < b.nframes / 2 ^ o → ¬ block o i ⊆ p.free) : AllocOutcome b m p (o + 1) r := by
  rcases r with ⟨_ | c, m'⟩
  · refine ⟨outcome.1, fun o' ho' i hi => ?_⟩
    rcases Nat.lt_succ_iff_lt_or_eq.mp ho' with lower | rfl
    · exact outcome.2 o' lower i hi
    · exact noBlock i hi
  · obtain ⟨o', i, grants, after⟩ := outcome
    refine ⟨o', i, { grants with order := Nat.lt_succ_of_lt grants.order, highest := ?_ }, after⟩
    intro o'' above below i' hi'
    rcases Nat.lt_succ_iff_lt_or_eq.mp below with lower | rfl
    · exact grants.highest o'' above lower i' hi'
    · exact noBlock i' hi'

/-- The search through the orders below `norders` returns, and makes the choice that `Grants`
describes. -/
theorem kpmAllocFrom_outcome (laid : Laid b) (rep : Represents b m p) :
    ∀ norders, norders ≤ kpmNorders →
      Returns (kpmAllocFrom b m norders) (AllocOutcome b m p norders) := by
  intro norders
  induction norders with
  | zero => intro _; exact .ok ⟨rfl, fun o ho => absurd ho (Nat.not_lt_zero o)⟩
  | succ o ih =>
    intro ho
    have room : b.nframes * pageSize + 2 ^ 22 ≤ 2 ^ 32 := laid.memory_lt
    unfold kpmAllocFrom
    rcases bitmapFfuFrom_cases (b.orders o).bitmap m (b.orders o).size 0 with
      ⟨none, full⟩ | ⟨i, found, -, small, clear, before⟩
    · rw [bitmapFfu, none, if_neg (by decide)]
      have noBlock : ∀ i, i < b.nframes / 2 ^ o → ¬ block o i ⊆ p.free := by
        intro i hi
        rw [← rep.clear_iff ho hi, Bool.not_eq_false]
        exact full i (Nat.zero_le _) (by have := laid.block_lt_size ho hi; omega)
      exact (ih (Nat.le_of_succ_le ho)).mono fun r outcome => outcome.skip noBlock
    · rw [bitmapFfu, found, if_pos (Int.natCast_nonneg i)]
      have inside : i < b.nframes / 2 ^ o := by
        by_contra pad
        have set := rep.padding o ho i (not_lt.mp pad) (by omega)
        rw [Buddy.allocated, clear] at set
        cases set
      have stop : i * blockSize o + blockSize o ≤ b.nframes * pageSize := block_end inside
      have lowAddr : i * pageSize ≤ i * blockSize o :=
        Nat.mul_le_mul_left _ (Nat.le_mul_of_pos_right _ (Nat.two_pow_pos o))
      have addr : u32 (u32 (i * pageSize) * 2 ^ o) = i * blockSize o := by
        rw [u32_of_lt (x := i * pageSize) (by omega), Nat.mul_assoc, ← blockSize,
          u32_of_lt (by omega)]
      simp only [Int.toNat_natCast, addr, pageSize_mul_pow]
      have taken := takeBlock_represents laid rep inside
      rw [← bind_assoc]
      refine taken.bind fun m' after => .ok ⟨o, i, ?_, after⟩
      refine ⟨Nat.lt_succ_self o, inside, ?_, rfl, fun o' above below => by omega, ?_⟩
      · rwa [← rep.clear_iff ho inside]
      · intro i' earlier free
        have set := before i' (Nat.zero_le _) earlier
        have clear' := (rep.clear_iff ho (earlier.trans inside)).mpr free
        rw [Buddy.allocated, set] at clear'
        cases clear'

/-! ## The best fit -/

theorem findBestFitOrder_lt (size : Nat) : findBestFitOrder size < kpmNorders := by
  simp only [findBestFitOrder]
  cases found : (List.range kpmNorders).find? fun n =>
      decide (alignNext size pageSize / pageSize ≤ 2 ^ n) with
  | none => decide
  | some n =>
    rw [List.find?_range_eq_some] at found
    simpa using found.2.1

/-- The best-fit order is the least one whose blocks hold `size` bytes, or the highest order if
there is none. -/
theorem findBestFitOrder_spec {size : Nat} (small : size + 4095 < 2 ^ 32) :
    (∀ n, n < findBestFitOrder size → blockSize n < size) ∧
      (size ≤ blockSize (findBestFitOrder size) ∨ findBestFitOrder size = kpmNorders - 1) := by
  have pages := alignNext_pages small
  have fits : ∀ n, (size + 4095) / 4096 ≤ 2 ^ n ↔ size ≤ blockSize n := by
    intro n
    rw [blockSize, pageSize]
    omega
  simp only [findBestFitOrder, pages, fits]
  cases found : (List.range kpmNorders).find? fun n => decide (size ≤ blockSize n) with
  | none =>
    rw [List.find?_range_eq_none] at found
    refine ⟨fun n hn => ?_, .inr rfl⟩
    have large := found n (by simp only [kpmNorders, Option.getD_none] at hn ⊢; omega)
    simpa using large
  | some n =>
    rw [List.find?_range_eq_some] at found
    obtain ⟨enough, -, first⟩ := found
    exact ⟨fun k hk => by simpa using first k hk, .inl (by simpa using enough)⟩

/-- `kpm_alloc` returns for every size, with the choice among the orders up to the best fit. -/
theorem kpmAlloc_outcome (laid : Laid b) (rep : Represents b m p) (size : Nat) :
    Returns (kpmAlloc b size m) (AllocOutcome b m p (findBestFitOrder size + 1)) :=
  kpmAllocFrom_outcome laid rep _ (findBestFitOrder_lt size)

/-! ## Freeing -/

/-- One turn of the loop of `kpm_free`. -/
def freeFrame (b : Buddy) (f : Nat) (m : Mem) : Except Fault Mem := do
  let enabled ← kpmIsEnabled b f m
  if enabled then kpmFreeBit b 0 f m else pure m

theorem kpmFree_aligned {c : KpmChunk} (word : c.addr < 2 ^ 32) (size : c.size + 4095 < 2 ^ 32)
    (aligned : c.addr % 4096 = 0) (m : Mem) :
    kpmFree b c m =
      forRange (fun k => freeFrame b (c.addr / 4096 + k)) ((c.size + 4095) / 4096) m >>=
        kpmUpdateOrders b c.addr c.size := by
  have pages := alignNext_pages size
  rw [kpmFree, isAligned_page word]
  simp only [aligned, decide_true, Bool.not_true, Bool.false_eq_true, if_false, pages]
  rfl

/-- The loop of `kpm_free` clears the leaves of the frames in service among the first `count` of a
region. -/
theorem kpmFreeLoop_shows (laid : Laid b) (rep : Represents b m p) {first count : Nat}
    (inside : first + count ≤ b.nframes) :
    Returns (forRange (fun k => freeFrame b (first + k)) count m) fun m' =>
      Shows b m' ((bitsOf b m).putLeaves (Finset.Ico first (first + count) ∩ p.enabled) false) := by
  refine forRange_returns (fun k m' =>
    Shows b m' ((bitsOf b m).putLeaves (Finset.Ico first (first + k) ∩ p.enabled) false)) ?_ ?_
  · rw [Nat.add_zero, Finset.Ico_self, Finset.empty_inter]
    simpa [Bits.putLeaves] using shows_bitsOf b m
  · intro k hk m' shows
    have frame : first + k < b.nframes := by omega
    have bit : ((bitsOf b m).putLeaves (Finset.Ico first (first + k) ∩ p.enabled) false).enabled
        (first + k) = decide (first + k ∈ p.enabled) := rep.enabled _ frame
    refine Returns.bind_ok (kpmIsEnabled_shows shows frame) ?_
    rw [bit, Ico_succ_insert]
    by_cases service : first + k ∈ p.enabled
    · rw [if_pos (by simpa using service), Finset.insert_inter_of_mem service,
        ← Bits.putLeaves_insert]
      exact kpmFreeBit_shows laid shows (by decide)
        (by simp only [Nat.pow_zero, Nat.div_one]; exact frame)
    · rw [if_neg (by simpa using service), Finset.insert_inter_of_notMem service]
      exact .ok shows

/-- `kpm_free` of an aligned region in memory releases the pages it touches. -/
theorem kpmFree_represents (laid : Laid b) (rep : Represents b m p) {c : KpmChunk}
    (aligned : c.addr % 4096 = 0) (inside : c.addr + c.size ≤ b.nframes * pageSize) :
    Returns (kpmFree b c m) fun m' => Represents b m'
      (p.release (Finset.Ico (c.addr / 4096) (c.addr / 4096 + (c.size + 4095) / 4096))) := by
  have room : b.nframes * pageSize + 2 ^ 22 ≤ 2 ^ 32 := laid.memory_lt
  have multiple : b.nframes * pageSize % 4096 = 0 := Nat.mul_mod_left _ _
  have frames : c.addr / 4096 + (c.size + 4095) / 4096 ≤ b.nframes := by
    rw [pageSize] at inside multiple
    omega
  rw [kpmFree_aligned (by omega) (by omega) aligned]
  refine (kpmFreeLoop_shows laid rep frames).bind fun m' shows => ?_
  refine kpmUpdateOrders_represents laid rep shows inside ?_ rep.bound ?_ ?_ ?_
  · intro n some j
    simp [Bits.putLeaves, bitsOf, Nat.ne_of_gt some]
  · exact rep.enabled
  · intro f hf
    generalize Finset.Ico (c.addr / 4096) (c.addr / 4096 + (c.size + 4095) / 4096) = region
    by_cases freed : f ∈ region ∩ p.enabled
    · simp only [Bits.putLeaves, freed, and_self, if_true, Pool.release, Finset.mem_union]
      simp
    · simp only [Bits.putLeaves, freed, and_false, if_false, Pool.release, Finset.mem_union]
      simp [bitsOf, rep.leaf hf]
  · intro f differs
    refine meets_of_mem aligned ?_
    by_contra outside
    exact differs (by simp [Pool.release, outside])

/-- Freeing a block releases exactly its frames. -/
theorem kpmFree_block (laid : Laid b) (rep : Represents b m p) {o i : Nat}
    (hi : i < b.nframes / 2 ^ o) :
    Returns (kpmFree b { addr := i * blockSize o, size := blockSize o } m) fun m' =>
      Represents b m' (p.release (block o i)) := by
  have addr : i * blockSize o = i * 2 ^ o * 4096 := by
    rw [blockSize, pageSize]
    ring
  have size : blockSize o = 2 ^ o * 4096 := by
    rw [blockSize, pageSize, Nat.mul_comm]
  have frames : Finset.Ico (i * blockSize o / 4096)
      (i * blockSize o / 4096 + (blockSize o + 4095) / 4096) = block o i := by
    rw [block, addr, size, Nat.succ_mul]
    congr 1 <;> omega
  rw [← frames]
  exact kpmFree_represents laid rep (by simp only [addr, Nat.mul_mod_left]) (block_end hi)

end Nulix.Kpm
