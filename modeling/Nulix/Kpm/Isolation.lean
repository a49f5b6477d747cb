import Nulix.Kpm.Books
import Nulix.Kpm.Boot
import Nulix.Paging

/-!
# The allocator and the rest of memory

Of the memory they are given, the functions of the allocator change the bitmaps and nothing else, on
every path and whatever their arguments are. What else they store to, the header of the structure, the
pointer to it and the chunk of the caller, are variables of the kernel beside that memory. The kernel
runs behind the page tables of `boot_init`, which put its image and the whole structure into the frames
that `kpm_init` reserved, so that none of it is memory that a session has handed out. The frames of the
page tables themselves are reserved by nobody, and a session that runs out of memory has handed them out.
-/

namespace Nulix.Kpm

open Words Fallible PageWalk Paging

/-! ## What the functions store to -/

/-- The memories differ at addresses of `B` only. -/
def SameOutside (B : Set Nat) (m m' : Mem) : Prop := ∀ a, a ∉ B → m' a = m a

/-- The bitmap bytes of all frames and blocks have their addresses in `B`. -/
structure Confined (b : Buddy) (B : Set Nat) : Prop where
  enabled : ∀ f, f < b.nframes → byteOf b.enabledFrames f ∈ B
  order : ∀ n, n < kpmNorders → ∀ i, i < b.nframes / 2 ^ n → byteOf (b.orders n).bitmap i ∈ B

variable {b : Buddy} {B : Set Nat} {m m' : Mem}

theorem SameOutside.update (same : SameOutside B m m') {a : Nat} (inside : a ∈ B) (v : BitVec 8) :
    SameOutside B m (Function.update m' a v) := by
  intro a' outside
  have other : a' ≠ a := fun here => outside (here ▸ inside)
  rw [Function.update_of_ne other]
  exact same a' outside

section Stores

variable (confined : Confined b B)

include confined

theorem kpmAllocBit_outside {n : Nat} (hn : n < kpmNorders) (i : Nat) (same : SameOutside B m m') :
    Ensures (kpmAllocBit b n i m') (SameOutside B m) := by
  unfold kpmAllocBit Buddy.orderAccess
  split
  · exact .ok (same.update (confined.order n hn i ‹_›) _)
  · exact .error _

theorem kpmFreeBit_outside {n : Nat} (hn : n < kpmNorders) (i : Nat) (same : SameOutside B m m') :
    Ensures (kpmFreeBit b n i m') (SameOutside B m) := by
  unfold kpmFreeBit Buddy.orderAccess
  split
  · exact .ok (same.update (confined.order n hn i ‹_›) _)
  · exact .error _

theorem kpmEnableBit_outside (f : Nat) (same : SameOutside B m m') :
    Ensures (kpmEnableBit b f m') (SameOutside B m) := by
  unfold kpmEnableBit Buddy.frameAccess
  split
  · exact .ok (same.update (confined.enabled f ‹_›) _)
  · exact .error _

theorem kpmDisableBit_outside (f : Nat) (same : SameOutside B m m') :
    Ensures (kpmDisableBit b f m') (SameOutside B m) := by
  unfold kpmDisableBit Buddy.frameAccess
  split
  · exact .ok (same.update (confined.enabled f ‹_›) _)
  · exact .error _

/-! ## Orders -/

theorem kpmUpdateOrderTurn_outside {n : Nat} (hn : n < kpmNorders) (r : Nat × Mem)
    (same : SameOutside B m r.2) :
    Ensures (kpmUpdateOrderTurn b n r) fun r' => SameOutside B m r'.2 := by
  unfold kpmUpdateOrderTurn
  refine Ensures.bind (P := fun _ => True) (fun _ _ => trivial) fun allocated _ => ?_
  refine Ensures.bind (P := SameOutside B m) ?_ fun m' same' => .ok same'
  split
  · exact kpmAllocBit_outside confined hn _ same
  · exact kpmFreeBit_outside confined hn _ same

theorem kpmUpdateOrders_outside (base limit : Nat) (same : SameOutside B m m') :
    Ensures (kpmUpdateOrders b base limit m') (SameOutside B m) := by
  refine forRange_ensures (fun i hi m' same => ?_) same
  have order : i + 1 < kpmNorders := Nat.add_lt_of_lt_sub hi
  refine Ensures.bind (P := fun r => SameOutside B m r.2) ?_ fun r same' => .ok same'
  exact whileLoop_ensures (fun r same => kpmUpdateOrderTurn_outside confined order r same) _ same

/-! ## Functions -/

theorem kpmEnable_outside (base limit : Nat) (same : SameOutside B m m') :
    Ensures (kpmEnable b base limit m') (SameOutside B m) := by
  unfold kpmEnable
  split
  · exact .ok same
  · refine (forRange_ensures (fun i _ m' same => ?_) same).bind fun m' same' =>
      kpmUpdateOrders_outside confined _ _ same'
    exact (kpmEnableBit_outside confined _ same).bind fun m' same' =>
      kpmFreeBit_outside confined (by decide) _ same'

theorem kpmDisable_outside (base limit : Nat) (same : SameOutside B m m') :
    Ensures (kpmDisable b base limit m') (SameOutside B m) := by
  unfold kpmDisable
  split
  · exact .ok same
  · refine (forRange_ensures (fun i _ m' same => ?_) same).bind fun m' same' =>
      kpmUpdateOrders_outside confined _ _ same'
    exact (kpmDisableBit_outside confined _ same).bind fun m' same' =>
      kpmAllocBit_outside confined (by decide) _ same'

theorem kpmAllocFrom_outside (same : SameOutside B m m') (norders : Nat) :
    Ensures (kpmAllocFrom b m' norders) fun r => SameOutside B m r.2 := by
  induction norders with
  | zero => exact .ok same
  | succ o ih =>
    unfold kpmAllocFrom
    dsimp only
    split
    · refine (forRange_ensures (fun j _ m' same => ?_) same).bind fun m' same' => ?_
      · exact kpmAllocBit_outside confined (by decide) _ same
      · exact (kpmUpdateOrders_outside confined _ _ same').bind fun m'' same'' => .ok same''
    · exact ih

theorem kpmFree_outside (chunk : KpmChunk) (same : SameOutside B m m') :
    Ensures (kpmFree b chunk m') (SameOutside B m) := by
  unfold kpmFree
  split
  · exact .ok same
  · refine (forRange_ensures (fun k _ m' same => ?_) same).bind fun m' same' =>
      kpmUpdateOrders_outside confined _ _ same'
    refine Ensures.bind (P := fun _ => True) (fun _ _ => trivial) fun enabled _ => ?_
    split
    · exact kpmFreeBit_outside confined (by decide) _ same
    · exact .ok same

theorem kpmInitEntries_outside (entries : List MmapEntry) (same : SameOutside B m m') :
    Ensures (kpmInitEntries b entries m') (SameOutside B m) := by
  induction entries generalizing m' with
  | nil => exact .error _
  | cons entry entries ih =>
    unfold kpmInitEntries
    dsimp only
    split_ifs
    · exact (kpmEnable_outside confined _ _ same).bind fun m' same' => ih same'
    · exact ih same
    · exact .ok same

theorem kpmInitReserve_outside (img : KernelImage) (same : SameOutside B m m') :
    Ensures (kpmInitReserve b img m') (SameOutside B m) := by
  refine (kpmDisable_outside confined _ _ same).bind fun m' same' => ?_
  refine (kpmDisable_outside confined _ _ same').bind fun m' same' => ?_
  exact kpmDisable_outside confined _ _ same'

theorem KpmCall.run_outside (call : KpmCall) (s : Session) (same : SameOutside B m s.mem) :
    Ensures (call.run b s) fun s' => SameOutside B m s'.mem := by
  cases call with
  | alloc size => exact (kpmAllocFrom_outside confined same _).bind fun r same' => .ok same'
  | free k =>
    simp only [run]
    split
    · exact (kpmFree_outside confined _ same).bind fun m' same' => .ok same'
    · exact .ok same

end Stores

/-! ## The bitmaps of an initialised structure -/

/-- The addresses of the bitmaps. -/
def KernelImage.bitmaps (img : KernelImage) (b : Buddy) : Set Nat :=
  Set.Ico (kpmInitAddr img.ek + sizeofBuddy) (kpmInitAddr img.ek + b.size)

/-- The addresses of the kernel image and of the structure, from its header to the end of its
bitmaps. -/
def KernelImage.addresses (img : KernelImage) (b : Buddy) : Set Nat :=
  Set.Ico (kernelVirtOffset + sk) img.ek ∪ Set.Ico (kpmInitAddr img.ek) (kpmInitAddr img.ek + b.size)

section Init

variable {img : KernelImage} {memkb : Nat}
  (fits : kpmInitAddr img.ek + (kpmInitBuddy img.ek memkb).size ≤ 2 ^ 32)

include fits

theorem confined_kpmInitBuddy :
    Confined (kpmInitBuddy img.ek memkb) (img.bitmaps (kpmInitBuddy img.ek memkb)) := by
  have laidOut := kpmInitBuddy_laidOut fits
  have laid := laid_kpmInitBuddy img.ek memkb
  constructor
  case enabled =>
    intro f hf
    have small := laid.nframes_lt
    have inside : (kpmInitBuddy img.ek memkb).enabledFrames + f / 8 ∈
        (kpmInitBuddy img.ek memkb).bitmapBytes 0 := by
      rw [Buddy.bitmapBytes, kpmNbytesFromNbits_eq (by omega), Set.mem_Ico]
      omega
    have mem := laidOut.inside 0 (Nat.zero_le _) inside
    have stop := mem.2
    rw [byteOf, u32_of_lt (by omega)]
    exact mem
  case order =>
    intro n hn i hi
    have mem := laidOut.inside (n + 1) hn (laidOut.room n hn i hi)
    have stop := mem.2
    rw [byteOf, u32_of_lt (by omega)]
    exact mem

theorem kpmInitFill_outside (m : Mem) :
    SameOutside (img.bitmaps (kpmInitBuddy img.ek memkb)) m (kpmInitFill img.ek memkb m) := by
  intro a outside
  have laid := laid_kpmInitBuddy img.ek memkb
  have small := kpmInitNframes_lt memkb
  have size := kpmInitBuddy_size img.ek memkb
  have first : region (kpmInitNframes memkb) 0 ≤ region (kpmInitNframes memkb) kpmNorders :=
    region_mono (Nat.zero_le _)
  obtain ⟨-, total, -⟩ := kpmInitSizes_eq _ small kpmNorders le_rfl
  have bitmap := kpmInitBuddy_bitmap fits (n := 0) (by decide)
  rw [KernelImage.bitmaps, Set.mem_Ico] at outside
  simp only [kpmInitFill]
  rw [memset_outside, memset_outside]
  · intro k hk
    rw [kpmInitBuddy_enabledFrames, u32_of_lt] <;>
      change k < kpmNbytesFromNbits (kpmInitNframes memkb) at hk <;>
      rw [kpmInitNframes_bytes] at hk <;> omega
  · intro k hk
    change k < (kpmInitSizes (kpmInitNframes memkb) kpmNorders).2.1 at hk
    rw [bitmap, u32_of_lt] <;> omega

/-- From before `kpm_init` to any time later. -/
theorem kpm_session_outside {entries : List MmapEntry} {count : Nat} {m m₀ : Mem} {b : Buddy}
    (init : kpmInit img entries count memkb m = .ok (b, m₀)) (calls : List KpmCall) {s : Session}
    (ran : runAll (KpmCall.run b) calls { mem := m₀, held := [] } = .ok s) :
    SameOutside (img.bitmaps b) m s.mem := by
  have confined := confined_kpmInitBuddy fits
  have started : Ensures (kpmInit img entries count memkb m) fun r =>
      r.1 = kpmInitBuddy img.ek memkb ∧ SameOutside (img.bitmaps r.1) m r.2 := by
    refine (kpmInitEntries_outside confined entries (kpmInitFill_outside fits m)).bind fun m' same => ?_
    exact (kpmInitReserve_outside confined img same).bind fun m'' same' => .ok ⟨rfl, same'⟩
  obtain ⟨rfl, same⟩ := started _ init
  exact runAll_ensures (fun call s same => KpmCall.run_outside confined call s same) calls same s ran

end Init

/-! ## Behind the boot page tables -/

variable {img : KernelImage} {entries : List MmapEntry} {count memkb : Nat} {m₀ : Mem} {s : Session}

/-- Where `kpm_init` returns, it has the books of the boot pool. -/
theorem kpmInit_books (held : img.Held (kpmInitBuddy img.ek memkb))
    (init : kpmInit img entries count memkb m = .ok (b, m₀)) :
    b = kpmInitBuddy img.ek memkb ∧ Represents b m₀ (bootPool img b entries) := by
  have ends : ∃ e ∈ entries, e.size = 0 := by
    obtain ⟨m', loop, -⟩ := bind_eq_ok init
    exact kpmInitEntries_ends loop
  obtain ⟨rfl, books⟩ := (kpmInit_represents held ends (kpmInit_fits init)).of_eq_ok init
  exact ⟨rfl, books⟩

/-- A session after `kpm_init` is balanced against the boot pool. -/
theorem balanced_of_ran (held : img.Held (kpmInitBuddy img.ek memkb))
    (init : kpmInit img entries count memkb m = .ok (b, m₀)) {calls : List KpmCall}
    (ran : runAll (KpmCall.run b) calls { mem := m₀, held := [] } = .ok s) :
    s.Balanced b (bootPool img b entries) := by
  obtain ⟨rfl, books⟩ := kpmInit_books held init
  exact (Session.Balanced.runAll (laid_kpmInitBuddy _ _) (.start books) calls).of_eq_ok ran

/-- The structure with its bitmaps lies in the 4 MiB that `boot_init` maps for the kernel. -/
structure KernelImage.Mapped (img : KernelImage) (b : Buddy) : Prop where
  low : kernelVirtOffset ≤ kpmInitAddr img.ek
  high : kpmInitAddr img.ek + b.size ≤ kernelVirtOffset + 2 ^ 22

theorem KernelImage.Mapped.room (mapped : img.Mapped b) : kpmInitAddr img.ek + b.size ≤ 2 ^ 32 := by
  have high := mapped.high
  rw [kernelVirtOffset] at high
  omega

/-- The image ends before the structure. -/
theorem KernelImage.Mapped.ek_le (mapped : img.Mapped b) : img.ek ≤ kpmInitAddr img.ek := by
  have low := mapped.low
  have word := img.word
  have rounded : kpmInitAddr img.ek = u32 (u32 img.ek + 4095) / 4096 * 4096 := alignNext_page img.ek
  rw [u32_of_lt word] at rounded
  rw [rounded, kernelVirtOffset] at low
  rw [rounded]
  unfold u32 at *
  omega

theorem KernelImage.Mapped.addr_eq (mapped : img.Mapped b) :
    kpmInitAddr img.ek = kernelVirtOffset + img.buddyBase := by
  have low := mapped.low
  have high := mapped.high
  rw [kernelVirtOffset] at high
  rw [KernelImage.buddyBase, sub32_of_le (by omega) low]
  omega

/-- The structure begins behind the first MiB. -/
theorem KernelImage.sk_le_buddyBase (img : KernelImage) : sk ≤ img.buddyBase := by
  have above := img.above_sk
  have word := img.word
  have rounded : kpmInitAddr img.ek = u32 (u32 img.ek + 4095) / 4096 * 4096 := alignNext_page img.ek
  rw [u32_of_lt word] at rounded
  rw [KernelImage.buddyBase, rounded]
  rw [kernelVirtOffset, sk] at above
  rw [kernelVirtOffset, sk]
  unfold sub32 u32
  omega

theorem KernelImage.bitmaps_subset (img : KernelImage) (b : Buddy) :
    img.bitmaps b ⊆ img.addresses b :=
  (Set.Ico_subset_Ico_left (Nat.le_add_right _ _)).trans Set.subset_union_right

/-- The page tables put the kernel into its reserved frames. -/
theorem KernelImage.Mapped.walk_reserved (mapped : img.Mapped b) (pm : Mem) {va : Nat}
    (mem : va ∈ img.addresses b) :
    ∃ pa ∈ img.reserved b, walk (bootInit pm).1 (bootInit pm).2 va = some ⟨pa, true, false⟩ := by
  have addr := mapped.addr_eq
  have high := mapped.high
  have image := mapped.ek_le
  have stop := img.stop_eq
  rw [KernelImage.addresses, Set.mem_union, Set.mem_Ico, Set.mem_Ico] at mem
  rw [kernelVirtOffset] at addr high stop mem
  rw [sk] at mem
  have slot : va / 2 ^ 22 = 768 := by omega
  refine ⟨va % 2 ^ 22, ?_, walk_bootInit pm (.inr slot)⟩
  rcases mem with ofImage | ofStructure
  · refine .inl (.inr ?_)
    rw [Set.mem_Ico, sk]
    omega
  · refine .inr ?_
    rw [Set.mem_Ico]
    omega

/-- The page directory and the page table are in none of the reserved frames. -/
theorem KernelImage.pageTables_disjoint_reserved (img : KernelImage) (b : Buddy) :
    Disjoint (Set.Ico pageDirectory (pageTable1 + pageSize)) (img.reserved b) := by
  have low := img.sk_le_buddyBase
  rw [sk] at low
  rw [KernelImage.reserved, Set.disjoint_union_right, Set.disjoint_union_right, Set.Ico_disjoint_Ico,
    Set.Ico_disjoint_Ico, Set.Ico_disjoint_Ico, pageDirectory, pageTable1, pageSize, sk]
  omega

/-- **The allocator stays out of the memory it manages.** On a machine whose buddy structure lies in the
4 MiB that `boot_init` maps for the kernel, `kpm_init` and the calls after it have changed memory in the
bitmaps only. The page tables translate every address of the kernel image and of the structure into the
reserved frames, whatever `boot_init` found in memory, and there lie neither the page tables nor a byte of a
chunk that is held. -/
theorem kpm_writes_reserved (pm : Mem) (held : img.Held (kpmInitBuddy img.ek memkb))
    (mapped : img.Mapped (kpmInitBuddy img.ek memkb))
    (init : kpmInit img entries count memkb m = .ok (b, m₀)) (calls : List KpmCall)
    (ran : runAll (KpmCall.run b) calls { mem := m₀, held := [] } = .ok s) :
    SameOutside (img.bitmaps b) m s.mem ∧ img.bitmaps b ⊆ img.addresses b ∧
    (∀ va ∈ img.addresses b, ∃ pa ∈ img.reserved b,
      walk (bootInit pm).1 (bootInit pm).2 va = some ⟨pa, true, false⟩) ∧
    Disjoint (Set.Ico pageDirectory (pageTable1 + pageSize)) (img.reserved b) ∧
    ∀ c ∈ s.held, Disjoint c.bytes (img.reserved b) := by
  obtain ⟨rfl, -⟩ := kpmInit_books held init
  have balanced := balanced_of_ran held init ran
  refine ⟨kpm_session_outside mapped.room init calls ran, img.bitmaps_subset _,
    fun va mem => mapped.walk_reserved pm mem, img.pageTables_disjoint_reserved _, fun c mem => ?_⟩
  rw [Set.disjoint_left]
  intro x inChunk reserved
  have frame := (mem_framesOf_iff balanced.blocks).mpr ⟨c, mem, inChunk⟩
  have free := balanced.held_free frame
  have unreserved : x / pageSize ∉ img.reservedFrames (kpmInitBuddy img.ek memkb) :=
    (Finset.mem_sdiff.mp free).2
  have bound := balanced.represents.bound _ free
  rw [img.mem_reservedFrames bound, not_not] at unreserved
  have ofFrame : x ∈ frameBytes (x / pageSize) := by
    rw [frameBytes, Set.mem_Ico, pageSize]
    omega
  exact Set.disjoint_left.mp unreserved ofFrame reserved

/-- A machine with 16 MiB whose kernel ends at 0xC0112345. -/
theorem kpm_writes_reserved_sixteen_mib : ∃ b m₀ s,
    kpmInit ⟨0xC0112345, by decide, by decide⟩
      [⟨20, 0x0, 0x9fc00, 1⟩, ⟨20, 0x100000, 0xee0000, 1⟩, ⟨0, 0, 0, 0⟩] 2 16384 (fun _ => 0#8) =
        .ok (b, m₀) ∧
    runAll (KpmCall.run b) [.alloc 5000, .alloc 0x400000, .free 1] { mem := m₀, held := [] } = .ok s ∧
    SameOutside (KernelImage.bitmaps ⟨0xC0112345, by decide, by decide⟩ b) (fun _ => 0#8) s.mem ∧
    KernelImage.bitmaps ⟨0xC0112345, by decide, by decide⟩ b ⊆
      KernelImage.addresses ⟨0xC0112345, by decide, by decide⟩ b ∧
    (∀ va ∈ KernelImage.addresses ⟨0xC0112345, by decide, by decide⟩ b,
      ∃ pa ∈ KernelImage.reserved ⟨0xC0112345, by decide, by decide⟩ b,
        walk (bootInit fun _ => 0xff#8).1 (bootInit fun _ => 0xff#8).2 va = some ⟨pa, true, false⟩) ∧
    Disjoint (Set.Ico pageDirectory (pageTable1 + pageSize))
      (KernelImage.reserved ⟨0xC0112345, by decide, by decide⟩ b) ∧
    ∀ c ∈ s.held, Disjoint c.bytes
      (KernelImage.reserved ⟨0xC0112345, by decide, by decide⟩ b) := by
  have held : KernelImage.Held ⟨0xC0112345, by decide, by decide⟩ (kpmInitBuddy 0xC0112345 16384) :=
    ⟨by decide, by decide⟩
  have returns : Returns (kpmInit _
      [⟨20, 0x0, 0x9fc00, 1⟩, ⟨20, 0x100000, 0xee0000, 1⟩, ⟨0, 0, 0, 0⟩] 2 16384 fun _ => 0#8) _ :=
    kpmInit_represents held ⟨⟨0, 0, 0, 0⟩, by decide, rfl⟩ (by unfold MmapEntry.Fits; decide)
  obtain ⟨⟨b, m₀⟩, init, rfl, books⟩ := returns
  obtain ⟨s, ran, -⟩ := (Session.Balanced.start books).runAll (laid_kpmInitBuddy _ _)
    [.alloc 5000, .alloc 0x400000, .free 1]
  exact ⟨_, m₀, s, init, ran,
    kpm_writes_reserved _ held ⟨by decide, by decide⟩ init _ ran⟩

/-! ## What is handed out in the end -/

/-- The frame of `x` is a whole page of an available entry that begins at a page. -/
def PageOf (entries : List MmapEntry) (x : Nat) : Prop :=
  ∃ e ∈ availableEntries entries, e.addr.toNat % pageSize = 0 ∧ frameBytes (x / pageSize) ⊆ e.bytes

theorem mem_bootPool_iff {x : Nat}
    (low : ∀ e ∈ availableEntries entries, e.addr.toNat + e.len.toNat < 2 ^ 32) :
    x / pageSize ∈ (bootPool img b entries).enabled ↔
      x < b.nframes * pageSize ∧ PageOf entries x ∧
        Disjoint (frameBytes (x / pageSize)) (img.reserved b) := by
  rw [mem_bootPool]
  constructor
  · rintro ⟨e, available, mem, unreserved⟩
    have small : e.addr.toNat < 2 ^ 32 := (Nat.le_add_right _ _).trans_lt (low e available)
    have bound := e.lt_of_mem_frames mem
    refine ⟨?_, ⟨e, available, ?_, e.frameBytes_subset_bytes small mem⟩, unreserved⟩
    · rw [pageSize] at bound ⊢
      omega
    · rw [MmapEntry.frames] at mem
      split at mem
      · rename_i aligned
        rwa [MmapEntry.base, u32_of_lt small] at aligned
      · cases Finset.notMem_empty _ mem
  · rintro ⟨inside, ⟨e, available, aligned, whole⟩, unreserved⟩
    refine ⟨e, available, ?_, unreserved⟩
    have sum := low e available
    have base : e.base = e.addr.toNat := u32_of_lt (by omega)
    have limit : e.limit = e.len.toNat := u32_of_lt (by omega)
    have nonempty : x / pageSize * pageSize < (x / pageSize + 1) * pageSize := by
      rw [pageSize]
      omega
    rw [frameBytes, MmapEntry.bytes, Set.Ico_subset_Ico_iff nonempty] at whole
    rw [pageSize] at *
    rw [MmapEntry.frames, base, if_pos aligned, regionFrames, Finset.mem_Ico, limit]
    omega

/-- **What is handed out in the end.** On a map below 4 GiB, when one of a sequence of allocations after
`kpm_init` fails, the bytes of the chunks held are those of the pages below `nframes` that lie whole in an
available entry beginning at a page and are not reserved. The page directory and the page table that the
processor translates with are among them wherever such an entry covers their pages. -/
theorem kpm_hands_out (held : img.Held (kpmInitBuddy img.ek memkb))
    (low : ∀ e ∈ availableEntries entries, e.addr.toNat + e.len.toNat < 2 ^ 32)
    (init : kpmInit img entries count memkb m = .ok (b, m₀)) (sizes : List Nat)
    (ran : runAll (KpmCall.run b) (sizes.map .alloc) { mem := m₀, held := [] } = .ok s)
    (failed : s.held.length < sizes.length) :
    (∀ x, (∃ c ∈ s.held, x ∈ c.bytes) ↔
      x < b.nframes * pageSize ∧ PageOf entries x ∧
        Disjoint (frameBytes (x / pageSize)) (img.reserved b)) ∧
    ∀ x, pageDirectory ≤ x → x < pageTable1 + pageSize → x < b.nframes * pageSize →
      ((∃ c ∈ s.held, x ∈ c.bytes) ↔ PageOf entries x) := by
  have balanced := balanced_of_ran held init ran
  obtain ⟨rfl, books⟩ := kpmInit_books held init
  obtain ⟨after, new, got, exhausted⟩ :=
    ((Session.Balanced.start books).allocs (laid_kpmInitBuddy _ _) sizes).of_eq_ok ran
  rw [List.append_nil] at got
  have all := exhausted (got ▸ failed)
  have everything : ∀ x, (∃ c ∈ s.held, x ∈ c.bytes) ↔
      x < (kpmInitBuddy img.ek memkb).nframes * pageSize ∧ PageOf entries x ∧
        Disjoint (frameBytes (x / pageSize)) (img.reserved (kpmInitBuddy img.ek memkb)) := by
    intro x
    rw [← mem_bootPool_iff low, ← mem_framesOf_iff balanced.blocks]
    exact ⟨balanced.held_free, fun free => all free⟩
  refine ⟨everything, fun x first last inside => ?_⟩
  rw [everything]
  have pages : frameBytes (x / pageSize) ⊆ Set.Ico pageDirectory (pageTable1 + pageSize) := by
    rw [pageDirectory] at first
    rw [pageTable1, pageSize] at last
    intro y mem
    rw [frameBytes, Set.mem_Ico, pageSize] at mem
    rw [Set.mem_Ico, pageDirectory, pageTable1, pageSize]
    omega
  have unreserved := (img.pageTables_disjoint_reserved (kpmInitBuddy img.ek memkb)).mono_left pages
  exact ⟨fun h => h.2.1, fun page => ⟨inside, page, unreserved⟩⟩

/-- A machine with 16 MiB whose only available pages are those of the page directory and the page table. -/
theorem kpm_hands_out_page_tables : ∃ b m₀ s,
    kpmInit ⟨0xC0112345, by decide, by decide⟩ [⟨20, 0x1000, 0x2000, 1⟩, ⟨0, 0, 0, 0⟩] 1 16384
      (fun _ => 0#8) = .ok (b, m₀) ∧
    runAll (KpmCall.run b) ([1, 1, 1].map .alloc) { mem := m₀, held := [] } = .ok s ∧
    (∀ x, (∃ c ∈ s.held, x ∈ c.bytes) ↔
      x < b.nframes * pageSize ∧ PageOf [⟨20, 0x1000, 0x2000, 1⟩, ⟨0, 0, 0, 0⟩] x ∧
        Disjoint (frameBytes (x / pageSize))
          (KernelImage.reserved ⟨0xC0112345, by decide, by decide⟩ b)) ∧
    ∀ x, pageDirectory ≤ x → x < pageTable1 + pageSize → x < b.nframes * pageSize →
      ((∃ c ∈ s.held, x ∈ c.bytes) ↔ PageOf [⟨20, 0x1000, 0x2000, 1⟩, ⟨0, 0, 0, 0⟩] x) := by
  have held : KernelImage.Held ⟨0xC0112345, by decide, by decide⟩ (kpmInitBuddy 0xC0112345 16384) :=
    ⟨by decide, by decide⟩
  have returns : Returns (kpmInit _ [⟨20, 0x1000, 0x2000, 1⟩, ⟨0, 0, 0, 0⟩] 1 16384 fun _ => 0#8) _ :=
    kpmInit_represents held ⟨⟨0, 0, 0, 0⟩, by decide, rfl⟩ (by unfold MmapEntry.Fits; decide)
  obtain ⟨⟨b, m₀⟩, init, rfl, books⟩ := returns
  obtain ⟨s, ran, balanced⟩ := (Session.Balanced.start books).runAll (laid_kpmInitBuddy _ _)
    ([1, 1, 1].map .alloc)
  have pages : mapFrames (kpmInitBuddy 0xC0112345 16384) [⟨20, 0x1000, 0x2000, 1⟩, ⟨0, 0, 0, 0⟩] =
      {1, 2} := by
    decide
  have few : s.held.length ≤ 2 := by
    refine balanced.length_le.trans ((Finset.card_le_card Finset.sdiff_subset).trans ?_)
    rw [pages]
    decide
  exact ⟨_, m₀, s, init, ran,
    kpm_hands_out held (by decide) init [1, 1, 1] ran (Nat.lt_succ_of_le few)⟩

end Nulix.Kpm
