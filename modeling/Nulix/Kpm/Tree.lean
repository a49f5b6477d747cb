import Nulix.Kpm.Alloc

/-!
# The buddy tree over whole runs

`TreeInv` is the invariant of the bitmaps in their own terms. It says the same as that the memory
represents some frame pool (`treeInv_iff`), so every operation keeps it by the theorem that carries
the pool through that operation, and so does every run from the freshly filled bitmaps.
-/

namespace Nulix.Kpm

open Words Fallible OrTree

/-- The buddy tree invariant of the bitmaps. -/
structure TreeInv (b : Buddy) (m : Mem) : Prop where
  parent : ∀ n, 1 ≤ n → n ≤ 10 → ∀ i, i < b.nframes / 2 ^ n →
    b.allocated n i m = (b.allocated (n - 1) (2 * i) m || b.allocated (n - 1) (2 * i + 1) m)
  disabled : ∀ f, f < b.nframes → b.enabled f m = false → b.allocated 0 f m = true
  padding : ∀ n, n ≤ 10 → ∀ i, b.nframes / 2 ^ n ≤ i → i < 8 * (b.orders n).size →
    b.allocated n i m = true

variable {b : Buddy} {m : Mem} {p : Pool Nat}

theorem Represents.treeInv (rep : Represents b m p) : TreeInv b m := by
  refine ⟨fun n hn hn' i hi => ?_, fun f hf off => ?_, fun n hn => ?_⟩
  · obtain ⟨k, rfl⟩ := Nat.exists_eq_add_of_le' hn
    obtain ⟨left, right⟩ := child_lt hi
    have order : k + 1 < kpmNorders := Nat.lt_succ_of_le hn'
    rw [Nat.add_sub_cancel, rep.order _ order _ hi, rep.order _ (by omega) _ left,
      rep.order _ (by omega) _ right, blockOr]
  · rw [rep.enabled f hf, decide_eq_false_iff_not] at off
    rw [rep.leaf hf, decide_eq_true_eq]
    exact fun free => off (p.free_sub free)
  · exact rep.padding n (Nat.lt_succ_of_le hn)

/-- The pool whose books the bitmaps keep. -/
def TreeInv.pool (inv : TreeInv b m) : Pool Nat where
  enabled := (Finset.range b.nframes).filter fun f => b.enabled f m = true
  free := (Finset.range b.nframes).filter fun f => b.allocated 0 f m = false
  free_sub := by
    intro f mem
    simp only [Finset.mem_filter, Finset.mem_range] at mem ⊢
    refine ⟨mem.1, ?_⟩
    by_contra off
    rw [inv.disabled f mem.1 (Bool.eq_false_iff.mpr off)] at mem
    cases mem.2

theorem TreeInv.represents (inv : TreeInv b m) : Represents b m inv.pool := by
  refine ⟨fun f mem => ?_, fun f hf => ?_, fun n hn i hi => ?_, fun n hn => ?_⟩
  · simp only [pool, Finset.mem_filter, Finset.mem_range] at mem
    exact mem.1
  · simp [pool, hf]
  · have tree := eq_blockOr (fun n i => b.allocated n i m) 10
      (fun n hn i hi => inv.parent (n + 1) (Nat.succ_pos n) hn i hi) n (Nat.le_of_lt_succ hn) i hi
    rw [tree]
    refine blockOr_congr fun f hf => ?_
    simp [pool, lt_of_mem_block hi hf]
  · exact inv.padding n (Nat.le_of_lt_succ hn)

theorem treeInv_iff : TreeInv b m ↔ ∃ p, Represents b m p :=
  ⟨fun inv => ⟨inv.pool, inv.represents⟩, fun ⟨_, rep⟩ => rep.treeInv⟩

/-- The freshly filled bitmaps keep the books of the empty pool. -/
theorem represents_kpmInitFill (ek memkb : Nat) (m : Mem) :
    Represents (kpmInitBuddy ek memkb) (kpmInitFill ek memkb m) ⟨∅, ∅, Finset.Subset.refl ∅⟩ := by
  have laid : Laid (kpmInitBuddy ek memkb) := laid_kpmInitBuddy ek memkb
  have shows := shows_kpmInitFill ek memkb m
  refine ⟨by simp, fun f hf => ?_, fun n hn i hi => ?_, fun n hn i _ hi => shows.order n hn i hi⟩
  · simpa using shows.enabled f hf
  · rw [shows.order n hn i (laid.block_lt_size hn hi), eq_comm, blockOr_iff]
    exact ⟨i * 2 ^ n, by rw [mem_block]; exact Nat.mul_div_cancel _ (Nat.two_pow_pos n), by simp⟩

/-- A machine with 4 MiB can come to have its first two pages in service and nothing else. -/
theorem exists_two_pages :
    ∃ m, Represents (kpmInitBuddy 0xC0101000 4096) m ⟨{0, 1}, {0, 1}, Finset.Subset.refl _⟩ := by
  have nframes : (kpmInitBuddy 0xC0101000 4096).nframes = 1024 := by decide
  have enables : Returns (kpmEnable (kpmInitBuddy 0xC0101000 4096) 0 8192 _)
      (Represents (kpmInitBuddy 0xC0101000 4096) · _) :=
    kpmEnable_represents (laid_kpmInitBuddy 0xC0101000 4096)
      (represents_kpmInitFill 0xC0101000 4096 fun _ => 0#8) (by decide) (by decide) (Nat.zero_le _)
      (by decide)
  obtain ⟨m, -, rep⟩ := enables
  have pages : regionFrames (kpmInitBuddy 0xC0101000 4096) 0 (8192 / 4096) = {0, 1} := by
    rw [regionFrames, nframes]
    decide
  refine ⟨m, ?_⟩
  simpa only [Pool.enable, pages, Finset.empty_union] using rep

/-! ## Runs -/

/-- A call of the allocator. -/
inductive KpmOp
  | enable (base limit : Nat)
  | disable (base limit : Nat)
  | free (chunk : KpmChunk)
  | alloc (size : Nat)

def KpmOp.run (b : Buddy) : KpmOp → Mem → Except Fault Mem
  | .enable base limit, m => kpmEnable b base limit m
  | .disable base limit, m => kpmDisable b base limit m
  | .free chunk, m => kpmFree b chunk m
  | .alloc size, m => do
    let (_, m) ← kpmAlloc b size m
    pure m

/-- The region of the call, if it has one, lies inside the managed memory. -/
def KpmOp.Inside (b : Buddy) : KpmOp → Prop
  | .enable base limit => base + limit ≤ b.nframes * pageSize
  | .disable base limit => base + limit ≤ b.nframes * pageSize
  | .free chunk => chunk.addr + chunk.size ≤ b.nframes * pageSize
  | .alloc _ => True

/-- Every call on a region inside the managed memory returns, and leaves the books of some pool. A
region that is not page aligned is left alone. -/
theorem KpmOp.run_represents (laid : Laid b) (rep : Represents b m p) (op : KpmOp)
    (inside : op.Inside b) : Returns (op.run b m) fun m' => ∃ p, Represents b m' p := by
  have room : b.nframes * pageSize + 2 ^ 22 ≤ 2 ^ 32 := laid.memory_lt
  have multiple : b.nframes * pageSize % 4096 = 0 := Nat.mul_mod_left _ _
  cases op with
  | enable base limit =>
    simp only [Inside] at inside
    by_cases aligned : base % 4096 = 0
    · exact (kpmEnable_represents laid rep (by omega) aligned (by omega) (by omega)).mono
        fun _ after => ⟨_, after⟩
    · refine ⟨m, ?_, p, rep⟩
      rw [run, kpmEnable, isAligned_page (by omega), decide_eq_false aligned]
      rfl
  | disable base limit =>
    simp only [Inside] at inside
    by_cases aligned : base % 4096 = 0
    · exact (kpmDisable_represents laid rep aligned (by omega) (by omega)).mono
        fun _ after => ⟨_, after⟩
    · refine ⟨m, ?_, p, rep⟩
      rw [run, kpmDisable, isAligned_page (by omega), decide_eq_false aligned]
      rfl
  | free chunk =>
    simp only [Inside] at inside
    by_cases aligned : chunk.addr % 4096 = 0
    · exact (kpmFree_represents laid rep aligned inside).mono fun _ after => ⟨_, after⟩
    · refine ⟨m, ?_, p, rep⟩
      rw [run, kpmFree, isAligned_page (by omega), decide_eq_false aligned]
      rfl
  | alloc size =>
    refine (kpmAlloc_outcome laid rep size).bind ?_
    intro r outcome
    rcases r with ⟨_ | c, m'⟩
    · obtain ⟨rfl, -⟩ := outcome
      exact .ok ⟨p, rep⟩
    · obtain ⟨o, i, -, after⟩ := outcome
      exact .ok ⟨_, after⟩

/-- Every multiple of 1024 below `2 ^ 20` is the frame count of some memory size. -/
theorem kpmInitNframes_surjective {nframes : Nat} (multiple : nframes % 1024 = 0)
    (small : nframes < 2 ^ 20) : kpmInitNframes (nframes * 4) = nframes := by
  rw [kpmInitNframes_eq, u32_of_lt (by omega)]
  omega

/-- **The buddy tree invariant.** Every sequence of calls on regions inside the managed memory runs
to its end from the freshly filled bitmaps, and the tree invariant holds there. -/
theorem kpm_run_treeInv (ek memkb : Nat) (m : Mem) (ops : List KpmOp)
    (inside : ∀ op ∈ ops, op.Inside (kpmInitBuddy ek memkb)) :
    Returns (runAll (KpmOp.run (kpmInitBuddy ek memkb)) ops (kpmInitFill ek memkb m))
      (TreeInv (kpmInitBuddy ek memkb)) := by
  have laid : Laid (kpmInitBuddy ek memkb) := laid_kpmInitBuddy ek memkb
  refine (runAll_returns (fun m => ∃ p, Represents (kpmInitBuddy ek memkb) m p)
    ⟨_, represents_kpmInitFill ek memkb m⟩ ?_).mono fun m' => treeInv_iff.mpr
  intro op mem m' books
  obtain ⟨p, rep⟩ := books
  exact op.run_represents laid rep (inside op mem)

/-- A machine with 16 MiB, one region put into service, an unaligned free and an allocation. -/
theorem kpm_run_treeInv_sixteen_mib :
    Returns (runAll (KpmOp.run (kpmInitBuddy 0xC0101000 16384))
      [.enable 0x2000 0x5800, .free ⟨0x3001, 5⟩, .alloc 9000]
      (kpmInitFill 0xC0101000 16384 fun _ => 0#8)) (TreeInv (kpmInitBuddy 0xC0101000 16384)) := by
  have nframes : (kpmInitBuddy 0xC0101000 16384).nframes = 4096 := by decide
  refine kpm_run_treeInv _ _ _ _ fun op mem => ?_
  simp only [List.mem_cons, List.not_mem_nil, or_false] at mem
  rcases mem with rfl | rfl | rfl <;> simp [KpmOp.Inside, nframes, pageSize]

/-! ## Freeing undoes allocating -/

/-- **Inverse operations.** Freeing the chunk that `kpm_alloc` returned restores the enabled bitmap
and every bit of the eleven order bitmaps. -/
theorem kpmFree_after_kpmAlloc (ek memkb : Nat) {m m' : Mem} {size : Nat} {c : KpmChunk}
    (inv : TreeInv (kpmInitBuddy ek memkb) m)
    (allocated : kpmAlloc (kpmInitBuddy ek memkb) size m = .ok (some c, m')) :
    Returns (kpmFree (kpmInitBuddy ek memkb) c m') fun m'' =>
      (∀ f, f < (kpmInitBuddy ek memkb).nframes →
        (kpmInitBuddy ek memkb).enabled f m'' = (kpmInitBuddy ek memkb).enabled f m) ∧
      ∀ n, n < kpmNorders → ∀ i, i < 8 * ((kpmInitBuddy ek memkb).orders n).size →
        (kpmInitBuddy ek memkb).allocated n i m'' = (kpmInitBuddy ek memkb).allocated n i m := by
  have laid : Laid (kpmInitBuddy ek memkb) := laid_kpmInitBuddy ek memkb
  have outcome := (kpmAlloc_outcome laid inv.represents size).of_eq_ok allocated
  obtain ⟨o, i, grants, taken⟩ := outcome
  rw [grants.chunk]
  refine (kpmFree_block laid taken grants.inside).mono fun m'' after => ?_
  rw [Pool.release_take grants.free] at after
  exact inv.represents.same_bits after

/-- On a machine with 4 MiB, after putting the first two pages into service, an allocation of one
page succeeds and freeing its chunk restores the bitmaps. -/
theorem kpmFree_after_kpmAlloc_four_mib :
    ∃ m m' c, kpmAlloc (kpmInitBuddy 0xC0101000 4096) 4096 m = .ok (some c, m') ∧
      Returns (kpmFree (kpmInitBuddy 0xC0101000 4096) c m') fun m'' =>
        (∀ f, f < (kpmInitBuddy 0xC0101000 4096).nframes →
          (kpmInitBuddy 0xC0101000 4096).enabled f m'' =
            (kpmInitBuddy 0xC0101000 4096).enabled f m) ∧
        ∀ n, n < kpmNorders → ∀ i, i < 8 * ((kpmInitBuddy 0xC0101000 4096).orders n).size →
          (kpmInitBuddy 0xC0101000 4096).allocated n i m'' =
            (kpmInitBuddy 0xC0101000 4096).allocated n i m := by
  have laid : Laid (kpmInitBuddy 0xC0101000 4096) := laid_kpmInitBuddy _ _
  have nframes : (kpmInitBuddy 0xC0101000 4096).nframes = 1024 := by decide
  obtain ⟨m, rep⟩ := exists_two_pages
  obtain ⟨⟨_ | c, m'⟩, allocated, outcome⟩ := kpmAlloc_outcome laid rep 4096
  · exact absurd (by decide) (outcome.2 0 (Nat.succ_pos _) 0 (by rw [nframes]; decide))
  · exact ⟨m, m', c, allocated, kpmFree_after_kpmAlloc _ _ rep.treeInv allocated⟩

end Nulix.Kpm
