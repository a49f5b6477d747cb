import Nulix.Kpm.Update
import Nulix.Lib.Pool

/-!
# The allocator as a pool of page frames

`Represents b m p` says that memory `m` holds the books of the frame pool `p`: the enabled bitmap is
the set of frames in service, the orders are the tree whose leaves are the frames that are not
free, and the padding bits are set. Under it each operation of `kpm.c` on a region inside the
managed memory returns and carries the pool through the abstract operation of that name.
-/

namespace Nulix.Kpm

open Words Fallible OrTree

/-- The allocator in memory `m` keeps the books of `p`. -/
structure Represents (b : Buddy) (m : Mem) (p : Pool Nat) : Prop where
  bound : ∀ f ∈ p.enabled, f < b.nframes
  enabled : ∀ f, f < b.nframes → b.enabled f m = decide (f ∈ p.enabled)
  order : ∀ n, n < kpmNorders → ∀ i, i < b.nframes / 2 ^ n →
    b.allocated n i m = blockOr (fun f => decide (f ∉ p.free)) n i
  padding : ∀ n, n < kpmNorders → ∀ i, b.nframes / 2 ^ n ≤ i → i < 8 * (b.orders n).size →
    b.allocated n i m = true

variable {b : Buddy} {m m' : Mem} {p p' : Pool Nat}

/-- A represented pool is determined by the memory. -/
theorem Represents.unique (left : Represents b m p) (right : Represents b m p') : p = p' := by
  ext f
  · by_cases hf : f < b.nframes
    · have same := (left.enabled f hf).symm.trans (right.enabled f hf)
      simpa using same
    · exact iff_of_false (fun mem => hf (left.bound f mem)) fun mem => hf (right.bound f mem)
  · by_cases hf : f < b.nframes
    · have same := (left.order 0 (by decide) f (by simpa using hf)).symm.trans
        (right.order 0 (by decide) f (by simpa using hf))
      simpa [blockOr, not_iff_not] using same
    · exact iff_of_false (fun mem => hf (left.bound f (p.free_sub mem)))
        fun mem => hf (right.bound f (p'.free_sub mem))

/-- Two memories that represent one pool hold the same bits. -/
theorem Represents.same_bits (left : Represents b m p) (right : Represents b m' p) :
    (∀ f, f < b.nframes → b.enabled f m' = b.enabled f m) ∧
      ∀ n, n < kpmNorders → ∀ i, i < 8 * (b.orders n).size →
        b.allocated n i m' = b.allocated n i m := by
  refine ⟨fun f hf => (right.enabled f hf).trans (left.enabled f hf).symm, fun n hn i hi => ?_⟩
  rcases lt_or_ge i (b.nframes / 2 ^ n) with block | pad
  · exact (right.order n hn i block).trans (left.order n hn i block).symm
  · exact (right.padding n hn i pad hi).trans (left.padding n hn i pad hi).symm

theorem Represents.leaf (rep : Represents b m p) {f : Nat} (hf : f < b.nframes) :
    b.allocated 0 f m = decide (f ∉ p.free) :=
  rep.order 0 (by decide) f (by simpa using hf)

/-! ## Writing runs of frames -/

def Bits.putEnabled (s : Bits) (lot : Finset Nat) (v : Bool) : Bits :=
  { s with enabled := fun f => if f ∈ lot then v else s.enabled f }

def Bits.putLeaves (s : Bits) (lot : Finset Nat) (v : Bool) : Bits :=
  { s with order := fun n i => if n = 0 ∧ i ∈ lot then v else s.order n i }

theorem Bits.putEnabled_insert (s : Bits) (lot : Finset Nat) (v : Bool) (f : Nat) :
    (s.putEnabled lot v).setEnabled f v = s.putEnabled (insert f lot) v := by
  simp only [putEnabled, setEnabled, Bits.mk.injEq, and_true]
  funext g
  by_cases last : g = f <;> simp [last]

theorem Bits.putLeaves_insert (s : Bits) (lot : Finset Nat) (v : Bool) (f : Nat) :
    (s.putLeaves lot v).setOrder 0 f v = s.putLeaves (insert f lot) v := by
  simp only [putLeaves, setOrder, Bits.mk.injEq, true_and]
  funext n i
  by_cases leaf : n = 0 <;> by_cases last : i = f <;> simp [leaf, last]

theorem Bits.put_empty (s : Bits) (v w : Bool) : (s.putEnabled ∅ v).putLeaves ∅ w = s := by
  simp [putEnabled, putLeaves]

theorem Ico_succ_insert (first i : Nat) :
    Finset.Ico first (first + (i + 1)) = insert (first + i) (Finset.Ico first (first + i)) := by
  ext f
  simp only [Finset.mem_Ico, Finset.mem_insert]
  omega

/-- The updates of the orders complete an operation that has already written its leaves: the leaves
of the pool `p'` in place, the orders above still those of `p`. -/
theorem kpmUpdateOrders_represents (laid : Laid b) (rep : Represents b m p) {s : Bits}
    (shows : Shows b m' s) {base limit : Nat} (inside : base + limit ≤ b.nframes * pageSize)
    (above : ∀ n, 0 < n → ∀ i, s.order n i = b.allocated n i m)
    (bound : ∀ f ∈ p'.enabled, f < b.nframes)
    (enabled : ∀ f, f < b.nframes → s.enabled f = decide (f ∈ p'.enabled))
    (leaves : ∀ f, f < b.nframes → s.order 0 f = decide (f ∉ p'.free))
    (changed : ∀ f, ¬ (f ∈ p.free ↔ f ∈ p'.free) → Meets base limit 0 f) :
    Returns (kpmUpdateOrders b base limit m') fun m'' => Represents b m'' p' := by
  have tree : ∀ n, 0 < n → n < kpmNorders → ∀ i, i < b.nframes / 2 ^ n →
      s.order n i = blockOr (fun f => decide (f ∉ p.free)) n i := by
    intro n some hn i hi
    rw [above n some i]
    exact rep.order n hn i hi
  have region : ∀ f, f < b.nframes → s.order 0 f ≠ decide (f ∉ p.free) → Meets base limit 0 f := by
    intro f hf differs
    rw [leaves f hf] at differs
    refine changed f fun same => differs ?_
    rw [decide_eq_decide, not_iff_not, same]
  refine (kpmUpdateOrders_tree laid shows inside tree region).mono ?_
  rintro m'' ⟨s', shows', same, orders⟩
  refine ⟨bound, fun f hf => ?_, fun n hn i hi => ?_, fun n hn i pad hi => ?_⟩
  · rw [shows'.enabled f hf, same.enabled, enabled f hf]
  · rw [shows'.order n hn i (laid.block_lt_size hn hi), orders n hn i hi]
    exact blockOr_congr fun f hf => leaves f (lt_of_mem_block hi hf)
  · rw [shows'.order n hn i hi, same.padding n i hn pad]
    -- order 0 has whole bytes only, so the padding lies in the orders that the leaves left alone
    have some : 0 < n := by
      by_contra zero
      obtain rfl : n = 0 := by omega
      have multiple := laid.nframes_mod
      rw [laid.size_eq 0 hn] at hi
      simp only [Nat.pow_zero, Nat.div_one] at hi pad
      omega
    rw [above n some i]
    exact rep.padding n hn i pad hi

/-- A page of an aligned region meets it. -/
theorem meets_of_mem {base limit f : Nat} (aligned : base % 4096 = 0)
    (mem : f ∈ Finset.Ico (base / 4096) (base / 4096 + (limit + 4095) / 4096)) :
    Meets base limit 0 f := by
  rw [Finset.mem_Ico] at mem
  refine ⟨by omega, ?_, ?_⟩ <;> rw [blockSize, pageSize] <;> omega

/-! ## Enabling and disabling a region -/

/-- The loop of `kpm_enable` and `kpm_disable` marks the first `count` frames from `first` on. -/
theorem markLoop_shows {first count : Nat} (inside : first + count ≤ b.nframes)
    (small : b.nframes < 2 ^ 32) {v : Bool} (turn : Nat → Mem → Except Fault Mem)
    (marks : ∀ f, f < b.nframes → ∀ m s, Shows b m s →
      Returns (turn f m) fun m' => Shows b m' ((s.setEnabled f v).setOrder 0 f (!v))) (m : Mem) :
    Returns (forRange (fun i => turn (u32 (first + i))) count m) fun m' =>
      Shows b m' (((bitsOf b m).putEnabled (Finset.Ico first (first + count)) v).putLeaves
        (Finset.Ico first (first + count)) !v) := by
  refine forRange_returns (fun i m' =>
    Shows b m' (((bitsOf b m).putEnabled (Finset.Ico first (first + i)) v).putLeaves
      (Finset.Ico first (first + i)) !v)) ?_ ?_
  · rw [Nat.add_zero, Finset.Ico_self, Bits.put_empty]
    exact shows_bitsOf b m
  · intro i hi m' shows
    rw [u32_of_lt (by omega)]
    refine (marks _ (by omega) _ _ shows).mono fun m'' next => ?_
    rw [Ico_succ_insert, ← Bits.putLeaves_insert, ← Bits.putEnabled_insert]
    exact next

/-- The common part of `kpm_enable` and `kpm_disable` after the rounding of the limit. -/
def markRange (b : Buddy) (turn : Nat → Mem → Except Fault Mem) (base limit : Nat) (m : Mem) :
    Except Fault Mem := do
  let m ← forRange (fun i => turn (u32 (base / pageSize + i))) (limit / pageSize) m
  kpmUpdateOrders b base limit m

/-- One turn of the loop of `kpm_enable`. -/
def enableFrame (b : Buddy) (f : Nat) (m : Mem) : Except Fault Mem :=
  kpmEnableBit b f m >>= kpmFreeBit b 0 f

/-- One turn of the loop of `kpm_disable`. -/
def disableFrame (b : Buddy) (f : Nat) (m : Mem) : Except Fault Mem :=
  kpmDisableBit b f m >>= kpmAllocBit b 0 f

theorem enableFrame_shows (laid : Laid b) {s : Bits} (shows : Shows b m s) {f : Nat}
    (hf : f < b.nframes) :
    Returns (enableFrame b f m) fun m' => Shows b m' ((s.setEnabled f true).setOrder 0 f false) := by
  refine (kpmEnableBit_shows laid shows hf).bind fun m' shows' => ?_
  exact kpmFreeBit_shows laid shows' (by decide) (by simpa using hf)

theorem disableFrame_shows (laid : Laid b) {s : Bits} (shows : Shows b m s) {f : Nat}
    (hf : f < b.nframes) :
    Returns (disableFrame b f m) fun m' => Shows b m' ((s.setEnabled f false).setOrder 0 f true) := by
  refine (kpmDisableBit_shows laid shows hf).bind fun m' shows' => ?_
  exact kpmAllocBit_shows laid shows' (by decide) (by simpa using hf)

theorem enableFrame_outside {f : Nat} (outside : b.nframes ≤ f) (m : Mem) :
    enableFrame b f m = .error (.enabledFrames f) := by
  rw [enableFrame, kpmEnableBit, Buddy.frameAccess, if_neg (not_lt.mpr outside)]
  rfl

theorem disableFrame_outside {f : Nat} (outside : b.nframes ≤ f) (m : Mem) :
    disableFrame b f m = .error (.enabledFrames f) := by
  rw [disableFrame, kpmDisableBit, Buddy.frameAccess, if_neg (not_lt.mpr outside)]
  rfl

theorem kpmEnable_aligned {base : Nat} (word : base < 2 ^ 32) (aligned : base % 4096 = 0)
    (limit : Nat) (m : Mem) :
    kpmEnable b base limit m =
      markRange b (enableFrame b) base
        (kpmClamp b base (align limit pageSize)) m := by
  rw [kpmEnable, isAligned_page word, decide_eq_true aligned]
  rfl

/-- A limit that is a multiple of the page size is its own rounding. -/
theorem alignNext_whole {limit : Nat} (word : limit < 2 ^ 32) :
    (if (!isAligned limit pageSize) = true then alignNext limit pageSize else limit) =
      alignNext limit pageSize := by
  rw [isAligned_page word]
  split
  · rfl
  · rename_i whole
    simp only [Bool.not_eq_true', Bool.not_eq_false, decide_eq_true_eq] at whole
    rw [alignNext_page, u32_of_lt word, u32_of_lt (by omega)]
    omega

theorem kpmDisable_aligned {base : Nat} (word : base < 2 ^ 32) (aligned : base % 4096 = 0)
    {limit : Nat} (length : limit < 2 ^ 32) (m : Mem) :
    kpmDisable b base limit m =
      markRange b (disableFrame b) base
        (kpmClamp b base (alignNext limit pageSize)) m := by
  rw [kpmDisable, isAligned_page word, decide_eq_true aligned]
  simp only [alignNext_whole length]
  rfl

section

variable {lot : Finset Nat} {f : Nat} {v : Bool}

/-- The enabled bit of a frame, where those of `lot` were given the value `v` and their leaves the
opposite one. -/
theorem Represents.marked_enabled (rep : Represents b m p) (hf : f < b.nframes)
    (enabled : f ∈ p'.enabled ↔ if f ∈ lot then v = true else f ∈ p.enabled) :
    (((bitsOf b m).putEnabled lot v).putLeaves lot !v).enabled f = decide (f ∈ p'.enabled) := by
  by_cases region : f ∈ lot
  · rw [if_pos region] at enabled
    simp [Bits.putLeaves, Bits.putEnabled, region, enabled]
  · rw [if_neg region] at enabled
    simp [Bits.putLeaves, Bits.putEnabled, bitsOf, region, enabled, rep.enabled f hf]

theorem Represents.marked_leaf (rep : Represents b m p) (hf : f < b.nframes)
    (free : f ∈ p'.free ↔ if f ∈ lot then v = true else f ∈ p.free) :
    (((bitsOf b m).putEnabled lot v).putLeaves lot !v).order 0 f = decide (f ∉ p'.free) := by
  by_cases region : f ∈ lot
  · rw [if_pos region] at free
    simp [Bits.putLeaves, region, free]
  · rw [if_neg region] at free
    simp [Bits.putLeaves, Bits.putEnabled, bitsOf, region, free, rep.leaf hf]

end

/-- Marking a region in memory gives its enabled bits the value `v` and its leaves the opposite one, and
the updates of the orders complete the tree. -/
theorem markRegion_represents (laid : Laid b) (rep : Represents b m p) {base limit : Nat}
    (aligned : base % 4096 = 0) (whole : limit % 4096 = 0)
    (inside : base + limit ≤ b.nframes * pageSize) {v : Bool}
    (turn : Nat → Mem → Except Fault Mem)
    (marks : ∀ f, f < b.nframes → ∀ m s, Shows b m s →
      Returns (turn f m) fun m' => Shows b m' ((s.setEnabled f v).setOrder 0 f (!v)))
    (enabled : ∀ f, f ∈ p'.enabled ↔
      if f ∈ Finset.Ico (base / 4096) (base / 4096 + limit / 4096) then v = true
      else f ∈ p.enabled)
    (free : ∀ f, f ∈ p'.free ↔
      if f ∈ Finset.Ico (base / 4096) (base / 4096 + limit / 4096) then v = true
      else f ∈ p.free) :
    Returns (markRange b turn base limit m) fun m' => Represents b m' p' := by
  have small : b.nframes < 2 ^ 20 := laid.nframes_lt
  rw [pageSize] at inside
  have frames : base / pageSize + limit / pageSize ≤ b.nframes := by
    rw [pageSize]
    omega
  refine (markLoop_shows frames (small.trans (by decide)) turn marks m).bind fun m' shows => ?_
  rw [pageSize] at shows
  have inLot : ∀ f, f ∈ Finset.Ico (base / 4096) (base / 4096 + limit / 4096) → f < b.nframes := by
    intro f mem
    rw [Finset.mem_Ico] at mem
    omega
  refine kpmUpdateOrders_represents laid rep shows (by rwa [pageSize]) ?_ ?_ ?_ ?_ ?_
  · intro n some i
    simp [Bits.putLeaves, Bits.putEnabled, bitsOf, Nat.ne_of_gt some]
  · intro f mem
    rw [enabled] at mem
    split at mem
    · rename_i region
      exact inLot f region
    · exact rep.bound f mem
  · exact fun f hf => rep.marked_enabled hf (enabled f)
  · exact fun f hf => rep.marked_leaf hf (free f)
  · intro f differs
    refine meets_of_mem aligned ?_
    by_contra outside
    rw [show (limit + 4095) / 4096 = limit / 4096 by omega] at outside
    exact differs (by rw [free, if_neg outside])

/-- The clamp cuts an aligned region that starts inside memory at its end. -/
theorem kpmClamp_eq (laid : Laid b) {base limit : Nat} (aligned : base % 4096 = 0)
    (whole : limit % 4096 = 0) (start : base ≤ b.nframes * pageSize)
    (nowrap : base + limit < 2 ^ 32) :
    kpmClamp b base limit = min limit (b.nframes * pageSize - base) := by
  have room := laid.memory_lt
  rw [kpmClamp, u32_of_lt nowrap]
  rw [pageSize] at start room ⊢
  split
  · rw [sub32_of_le (by omega) start]
    omega
  · omega

/-- The frames of the region `[base, base + limit)` that lie in memory, with `limit` in pages. -/
def regionFrames (b : Buddy) (base pages : Nat) : Finset Nat :=
  Finset.Ico (base / 4096) (min (base / 4096 + pages) b.nframes)

/-- `kpm_enable` on an aligned region that starts inside memory and does not wrap puts its whole
pages below the last frame into service. -/
theorem kpmEnable_represents (laid : Laid b) (rep : Represents b m p) {base limit : Nat}
    (word : limit < 2 ^ 32) (aligned : base % 4096 = 0) (start : base ≤ b.nframes * pageSize)
    (nowrap : base + limit / 4096 * 4096 < 2 ^ 32) :
    Returns (kpmEnable b base limit m) fun m' =>
      Represents b m' (p.enable (regionFrames b base (limit / 4096))) := by
  have room := laid.memory_lt
  have small : base < 2 ^ 32 := by omega
  rw [kpmEnable_aligned small aligned, align_page word,
    kpmClamp_eq laid aligned (Nat.mul_mod_left _ _) start nowrap]
  rw [pageSize] at start room ⊢
  have frames : regionFrames b base (limit / 4096) = Finset.Ico (base / 4096)
      (base / 4096 + min (limit / 4096 * 4096) (b.nframes * 4096 - base) / 4096) := by
    rw [regionFrames]
    congr 1
    omega
  refine markRegion_represents (v := true) laid rep aligned (by omega) (by rw [pageSize]; omega)
    (enableFrame b) ?_ ?_ ?_
  · exact fun f hf m s shows => enableFrame_shows laid shows hf
  · intro f
    rw [← frames]
    simp only [Pool.enable, Finset.mem_union]
    split <;> simp_all
  · intro f
    rw [← frames]
    simp only [Pool.enable, Finset.mem_union]
    split <;> simp_all

/-- `kpm_disable` on an aligned region that starts inside memory and does not wrap takes every page
it touches below the last frame out of service. -/
theorem kpmDisable_represents (laid : Laid b) (rep : Represents b m p) {base limit : Nat}
    (aligned : base % 4096 = 0) (start : base ≤ b.nframes * pageSize)
    (nowrap : base + (limit + 4095) / 4096 * 4096 < 2 ^ 32) :
    Returns (kpmDisable b base limit m) fun m' =>
      Represents b m' (p.disable (regionFrames b base ((limit + 4095) / 4096))) := by
  have room := laid.memory_lt
  have small : base < 2 ^ 32 := by omega
  have rounded : alignNext limit pageSize = (limit + 4095) / 4096 * 4096 :=
    alignNext_page_of_lt (by omega)
  rw [kpmDisable_aligned small aligned (by omega), rounded,
    kpmClamp_eq laid aligned (Nat.mul_mod_left _ _) start nowrap]
  rw [pageSize] at start room ⊢
  have frames : regionFrames b base ((limit + 4095) / 4096) = Finset.Ico (base / 4096)
      (base / 4096 +
        min ((limit + 4095) / 4096 * 4096) (b.nframes * 4096 - base) / 4096) := by
    rw [regionFrames]
    congr 1
    omega
  refine markRegion_represents (v := false) laid rep aligned (by omega) (by rw [pageSize]; omega)
    (disableFrame b) ?_ ?_ ?_
  · exact fun f hf m s shows => disableFrame_shows laid shows hf
  · intro f
    rw [← frames]
    simp only [Pool.disable, Finset.mem_sdiff]
    split <;> simp_all
  · intro f
    rw [← frames]
    simp only [Pool.disable, Finset.mem_sdiff]
    split <;> simp_all

/-! ## Going past the last frame -/

/-- A loop over the frames from `first` on that goes past the last frame reaches one that is not
there. -/
theorem frameLoop_overruns {body : Nat → Mem → Except Fault Mem} {first count : Nat}
    (below : ∀ i m, first + i < b.nframes → ∃ m', body i m = .ok m')
    (above : ∀ i m, b.nframes ≤ first + i → i ≤ b.nframes →
      body i m = .error (.enabledFrames (first + i)))
    (some : 0 < count) (overruns : b.nframes < first + count) (m : Mem) :
    ∃ f, forRange body count m = .error (.enabledFrames f) := by
  have before : Returns (forRange body (b.nframes - first) m) fun _ => True := by
    refine forRange_returns (fun _ _ => True) trivial fun i hi m _ => ?_
    obtain ⟨m', returned⟩ := below i m (by omega)
    exact ⟨m', returned, trivial⟩
  obtain ⟨m', reached, -⟩ := before
  have fails := above (b.nframes - first) m' (by omega) (Nat.sub_le _ _)
  exact ⟨_, forRange_error (by omega) reached fails⟩

/-- Marking a region that goes on past the last frame leaves the bitmaps. -/
theorem markRange_overruns (small : b.nframes < 2 ^ 20) {base limit : Nat} (word : base < 2 ^ 32)
    (turn : Nat → Mem → Except Fault Mem)
    (below : ∀ f m, f < b.nframes → ∃ m', turn f m = .ok m')
    (above : ∀ f m, b.nframes ≤ f → turn f m = .error (.enabledFrames f))
    (overruns : b.nframes - base / 4096 < limit / 4096) (m : Mem) :
    ∃ f, markRange b turn base limit m = .error (.enabledFrames f) := by
  have index : ∀ i, i ≤ b.nframes → u32 (base / 4096 + i) = base / 4096 + i :=
    fun i hi => u32_of_lt (by omega)
  have inLoop : ∀ i m, base / 4096 + i < b.nframes →
      ∃ m', turn (u32 (base / 4096 + i)) m = .ok m' := by
    intro i m inside
    rw [index i (by omega)]
    exact below _ m inside
  have outOfLoop : ∀ i m, b.nframes ≤ base / 4096 + i → i ≤ b.nframes →
      turn (u32 (base / 4096 + i)) m = .error (.enabledFrames (base / 4096 + i)) := by
    intro i m outside few
    rw [index i few]
    exact above _ m outside
  have some : 0 < limit / 4096 := by omega
  have past : b.nframes < base / 4096 + limit / 4096 := by omega
  obtain ⟨f, stops⟩ := frameLoop_overruns inLoop outOfLoop some past m
  refine ⟨f, ?_⟩
  show forRange (fun i => turn (u32 (base / 4096 + i))) (limit / 4096) m >>= _ = _
  rw [stops]
  rfl

end Nulix.Kpm
