import Nulix.Kpm.Tree
import Mathlib.Order.CompletePartialOrder
import Mathlib.Order.Interval.Set.Disjoint

/-!
# What `kpm_init` puts into service

The entry table names regions with 64-bit addresses and lengths, of which `kpm_init` passes on the
low halves. `kpmInit_represents` gives the pool after initialisation, the frames of those truncated
regions less the reserved ones, provided that every region fits; `Fits` is exact, a region that does
not fit makes `kpm_enable` leave the bitmaps (`kpmEnable_overruns`).
-/

namespace Nulix.Kpm

open Words Fallible

/-! ## Bytes and frames -/

def frameBytes (f : Nat) : Set Nat := Set.Ico (f * pageSize) ((f + 1) * pageSize)

/-- The physical address of the end of the image. -/
def KernelImage.stop (img : KernelImage) : Nat := sub32 img.ek kernelVirtOffset

/-- The physical address of the buddy structure. -/
def KernelImage.buddyBase (img : KernelImage) : Nat := sub32 (kpmInitAddr img.ek) kernelVirtOffset

/-- Page 0, the kernel image and the buddy structure with its bitmaps. -/
def KernelImage.reserved (img : KernelImage) (b : Buddy) : Set Nat :=
  Set.Ico 0 pageSize ∪ Set.Ico sk img.stop ∪ Set.Ico img.buddyBase (img.buddyBase + b.size)

/-- The machine has the frames that hold the kernel image and the buddy structure. -/
structure KernelImage.Held (img : KernelImage) (b : Buddy) : Prop where
  kernel : img.stop ≤ b.nframes * pageSize
  buddy : img.buddyBase + b.size ≤ b.nframes * pageSize

/-- The frames of the three regions of `kpmInitReserve`. -/
def KernelImage.reservedFrames (img : KernelImage) (b : Buddy) : Finset Nat :=
  regionFrames b 0 1 ∪ regionFrames b sk ((img.stop - sk + 4095) / 4096) ∪
    regionFrames b img.buddyBase ((b.size + 4095) / 4096)

variable {b : Buddy} {m : Mem} {p : Pool Nat} {img : KernelImage}

/-- The frames of an aligned region, rounded up to pages, are those it shares a byte with. -/
theorem mem_regionFrames {base limit f : Nat} (aligned : base % 4096 = 0) (hf : f < b.nframes) :
    f ∈ regionFrames b base ((limit + 4095) / 4096) ↔
      ¬ Disjoint (frameBytes f) (Set.Ico base (base + limit)) := by
  rw [regionFrames, Finset.mem_Ico, frameBytes, pageSize, Set.Ico_disjoint_Ico]
  omega

theorem KernelImage.stop_eq (img : KernelImage) : img.stop = img.ek - kernelVirtOffset := by
  have above := img.above_sk
  exact sub32_of_le img.word (by omega)

theorem KernelImage.sk_le_stop (img : KernelImage) : sk ≤ img.stop := by
  have above := img.above_sk
  rw [img.stop_eq]
  omega

theorem KernelImage.buddyBase_mod (img : KernelImage) : img.buddyBase % 4096 = 0 := by
  have aligned := kpmInitAddr_mod img.ek
  rw [buddyBase, sub32, kernelVirtOffset, u32, u32, u32]
  omega

theorem KernelImage.mem_reservedFrames (img : KernelImage) {f : Nat} (hf : f < b.nframes) :
    f ∈ img.reservedFrames b ↔ ¬ Disjoint (frameBytes f) (img.reserved b) := by
  have kernel : Set.Ico sk img.stop = Set.Ico sk (sk + (img.stop - sk)) := by
    rw [Nat.add_sub_cancel' img.sk_le_stop]
  have page : regionFrames b 0 1 = regionFrames b 0 ((pageSize + 4095) / 4096) := rfl
  rw [reservedFrames, reserved, kernel, Finset.mem_union, Finset.mem_union, page,
    mem_regionFrames rfl hf, mem_regionFrames rfl hf, mem_regionFrames img.buddyBase_mod hf,
    Set.disjoint_union_right, Set.disjoint_union_right, not_and_or, not_and_or, Nat.zero_add]

/-- The last part of `kpm_init` takes the reserved frames out of service. -/
theorem kpmInitReserve_represents (laid : Laid b) (rep : Represents b m p) (held : img.Held b) :
    Returns (kpmInitReserve b img m) fun m' =>
      Represents b m' (p.disable (img.reservedFrames b)) := by
  have room := laid.memory_lt
  have kernel := held.kernel
  have buddy := held.buddy
  have above := img.sk_le_stop
  have size : sub32 (sub32 img.ek kernelVirtOffset) sk = img.stop - sk :=
    sub32_of_le (by rw [← KernelImage.stop]; omega) above
  rw [kpmInitReserve, size, ← KernelImage.buddyBase, KernelImage.reservedFrames,
    ← Pool.disable_disable, ← Pool.disable_disable]
  have first : Returns (kpmDisable b 0 pageSize m) fun m' =>
      Represents b m' (p.disable (regionFrames b 0 1)) :=
    kpmDisable_represents laid rep rfl (Nat.zero_le _) (by decide)
  refine first.bind fun m rep => ?_
  refine (kpmDisable_represents laid rep rfl (by omega) (by omega)).bind fun m rep => ?_
  exact kpmDisable_represents laid rep img.buddyBase_mod (by omega) (by omega)

/-! ## The entry table -/

/-- The entries that `kpm_init` enables. -/
def availableEntries (entries : List MmapEntry) : List MmapEntry :=
  (entries.takeWhile fun e => e.size ≠ 0).filter fun e => e.type = multibootMemoryAvailable

namespace MmapEntry

def bytes (e : MmapEntry) : Set Nat := Set.Ico e.addr.toNat (e.addr.toNat + e.len.toNat)

/-- `(void *)(uintptr_t)entry->addr` -/
def base (e : MmapEntry) : Nat := u32 e.addr.toNat

/-- `(uint32_t)(entry->len)` -/
def limit (e : MmapEntry) : Nat := u32 e.len.toNat

/-- The truncated region, if it is page aligned at all, starts inside memory and ends below
4 GiB. -/
def Fits (b : Buddy) (e : MmapEntry) : Prop :=
  e.base % 4096 = 0 →
    e.base ≤ b.nframes * pageSize ∧ e.base + e.limit / 4096 * 4096 < 2 ^ 32

/-- The frames of the truncated region. -/
def frames (b : Buddy) (e : MmapEntry) : Finset Nat :=
  if e.base % 4096 = 0 then regionFrames b e.base (e.limit / 4096) else ∅

/-- Below 4 GiB nothing is truncated off the address, and at most bytes at the end off the
length. -/
theorem frameBytes_subset_bytes {e : MmapEntry} (low : e.addr.toNat < 2 ^ 32) {f : Nat}
    (mem : f ∈ e.frames b) : frameBytes f ⊆ e.bytes := by
  have base : e.base = e.addr.toNat := u32_of_lt low
  have limit : e.limit ≤ e.len.toNat := Nat.mod_le _ _
  rw [frames] at mem
  split at mem
  · rename_i aligned
    rw [regionFrames, Finset.mem_Ico] at mem
    rw [frameBytes, bytes, pageSize]
    exact Set.Ico_subset_Ico (by omega) (by omega)
  · cases Finset.notMem_empty f mem

end MmapEntry

/-- The frames that the table puts into service. -/
def mapFrames (b : Buddy) (entries : List MmapEntry) : Finset Nat :=
  (availableEntries entries).toFinset.biUnion (MmapEntry.frames b)

theorem mem_mapFrames {entries : List MmapEntry} {f : Nat} :
    f ∈ mapFrames b entries ↔ ∃ e ∈ availableEntries entries, f ∈ e.frames b := by
  simp [mapFrames]

/-- `kpm_enable` on a region that fits. -/
theorem kpmEnable_fits (laid : Laid b) (rep : Represents b m p) {e : MmapEntry}
    (fits : e.Fits b) :
    Returns (kpmEnable b e.base e.limit m) fun m' =>
      Represents b m' (p.enable (e.frames b)) := by
  rw [MmapEntry.frames]
  by_cases aligned : e.base % 4096 = 0
  · obtain ⟨start, nowrap⟩ := fits aligned
    rw [if_pos aligned]
    exact kpmEnable_represents laid rep (u32_lt _) aligned start nowrap
  · rw [if_neg aligned, Pool.enable_empty]
    have word : e.base < 2 ^ 32 := u32_lt _
    refine ⟨m, ?_, rep⟩
    rw [kpmEnable, isAligned_page word, decide_eq_false aligned]
    rfl

/-- The clamp leaves a region that does not fit longer than memory goes on from its base. -/
theorem kpmClamp_overruns (laid : Laid b) {base limit : Nat} (word : base < 2 ^ 32)
    (aligned : base % 4096 = 0) (whole : limit % 4096 = 0) (small : limit < 2 ^ 32)
    (overruns : b.nframes * pageSize < base ∨ 2 ^ 32 ≤ base + limit) :
    b.nframes - base / 4096 < kpmClamp b base limit / 4096 := by
  have room := laid.memory_lt
  rw [pageSize] at room overruns
  rw [kpmClamp, pageSize]
  split
  · rename_i above
    have sub : sub32 (b.nframes * 4096) base = 2 ^ 32 - (base - b.nframes * 4096) := by
      simp only [u32] at above
      simp only [sub32, u32]
      omega
    simp only [u32] at above
    omega
  · rename_i below
    simp only [u32] at below
    omega

/-- On any other region `kpm_enable` goes on past the last frame. -/
theorem kpmEnable_overruns (laid : Laid b) {e : MmapEntry} (overruns : ¬ e.Fits b) :
    ∃ fault, kpmEnable b e.base e.limit m = .error fault := by
  have small := laid.nframes_lt
  have word : e.base < 2 ^ 32 := u32_lt _
  have length : e.limit < 2 ^ 32 := u32_lt _
  obtain ⟨aligned, region⟩ : e.base % 4096 = 0 ∧
      (b.nframes * pageSize < e.base ∨ 2 ^ 32 ≤ e.base + e.limit / 4096 * 4096) := by
    rw [MmapEntry.Fits, Classical.not_imp] at overruns
    refine ⟨overruns.1, ?_⟩
    have := overruns.2
    omega
  have turns := kpmClamp_overruns laid word aligned (Nat.mul_mod_left _ _) (by omega) region
  obtain ⟨f, stops⟩ := markRange_overruns small word (enableFrame b)
    (fun f m inside => (enableFrame_shows laid (shows_bitsOf b m) inside).imp fun _ h => h.1)
    (fun f m outside => enableFrame_outside outside m) turns m
  rw [kpmEnable_aligned word aligned, align_page length]
  exact ⟨_, stops⟩

theorem availableEntries_cons (e : MmapEntry) (entries : List MmapEntry) :
    availableEntries (e :: entries) =
      if e.size = 0 then []
      else if e.type = multibootMemoryAvailable then e :: availableEntries entries
      else availableEntries entries := by
  by_cases last : e.size = 0
  · simp [availableEntries, last]
  · rw [if_neg last, availableEntries, List.takeWhile_cons, if_pos (decide_eq_true last),
      List.filter_cons]
    simp only [decide_eq_true_eq]
    rfl

/-- On a table that ends, the loop calls `kpm_enable` on the available entries, in order. -/
theorem kpmInitEntries_eq {entries : List MmapEntry} (ends : ∃ e ∈ entries, e.size = 0) (m : Mem) :
    kpmInitEntries b entries m =
      runAll (fun e => kpmEnable b e.base e.limit) (availableEntries entries) m := by
  induction entries generalizing m with
  | nil =>
    obtain ⟨e, mem, -⟩ := ends
    cases mem
  | cons e entries ih =>
    unfold kpmInitEntries
    rw [availableEntries_cons]
    by_cases last : e.size = 0
    · simp only [last, ne_eq, not_true_eq_false, if_false, if_true]
      rfl
    · have rest : ∃ e ∈ entries, e.size = 0 := by
        obtain ⟨e', mem, zero⟩ := ends
        rcases List.mem_cons.mp mem with rfl | later
        · exact absurd zero last
        · exact ⟨e', later, zero⟩
      simp only [last, ne_eq, not_false_eq_true, if_true, if_false]
      by_cases available : e.type = multibootMemoryAvailable
      · simp only [available, if_true, runAll]
        exact congrArg (kpmEnable b e.base e.limit m >>= ·) (funext fun m => ih rest m)
      · simp only [available, if_false]
        exact ih rest m

/-- A loop that comes to its end has found an entry of size 0. -/
theorem kpmInitEntries_ends {entries : List MmapEntry} {m' : Mem}
    (returned : kpmInitEntries b entries m = .ok m') : ∃ e ∈ entries, e.size = 0 := by
  induction entries generalizing m with
  | nil => cases returned
  | cons e entries ih =>
    unfold kpmInitEntries at returned
    by_cases last : e.size = 0
    · exact ⟨e, List.mem_cons_self, last⟩
    · rw [if_pos last] at returned
      dsimp only at returned
      split at returned
      all_goals
        obtain ⟨m₁, -, rest⟩ := bind_eq_ok returned
        obtain ⟨e', mem, zero⟩ := ih rest
        exact ⟨e', List.mem_cons_of_mem e mem, zero⟩

/-- Enabling regions that fit puts all their frames into service. -/
theorem kpmEnable_all (laid : Laid b) {regions : List MmapEntry} (fits : ∀ e ∈ regions, e.Fits b)
    (rep : Represents b m p) :
    Returns (runAll (fun e => kpmEnable b e.base e.limit) regions m) fun m' =>
      Represents b m' (p.enable (regions.toFinset.biUnion (MmapEntry.frames b))) := by
  induction regions generalizing m p with
  | nil =>
    rw [List.toFinset_nil, Finset.biUnion_empty, Pool.enable_empty]
    exact .ok rep
  | cons e regions ih =>
    rw [List.toFinset_cons, Finset.biUnion_insert, ← Pool.enable_enable]
    refine (kpmEnable_fits laid rep (fits e List.mem_cons_self)).bind fun m rep => ?_
    exact ih (fun e' mem => fits e' (List.mem_cons_of_mem e mem)) rep

/-- Enabling regions comes to its end only if all of them fit. -/
theorem kpmEnable_all_fits (laid : Laid b) {regions : List MmapEntry} {m' : Mem}
    (rep : Represents b m p)
    (returned : runAll (fun e => kpmEnable b e.base e.limit) regions m = .ok m') :
    ∀ e ∈ regions, e.Fits b := by
  induction regions generalizing m p with
  | nil => nofun
  | cons e regions ih =>
    obtain ⟨m₁, enabled, rest⟩ := bind_eq_ok returned
    have fits : e.Fits b := by
      by_contra overruns
      obtain ⟨fault, stops⟩ := kpmEnable_overruns (m := m) laid overruns
      cases stops.symm.trans enabled
    rw [List.forall_mem_cons]
    exact ⟨fits, ih ((kpmEnable_fits laid rep fits).of_eq_ok enabled) rest⟩

/-- The loop over a table that ends and whose regions fit puts all their frames into service. -/
theorem kpmInitEntries_represents (laid : Laid b) {entries : List MmapEntry}
    (ends : ∃ e ∈ entries, e.size = 0) (fits : ∀ e ∈ availableEntries entries, e.Fits b)
    (rep : Represents b m p) :
    Returns (kpmInitEntries b entries m) fun m' =>
      Represents b m' (p.enable (mapFrames b entries)) := by
  rw [kpmInitEntries_eq ends]
  exact kpmEnable_all laid fits rep

/-- Where the loop comes to its end, every region fits. -/
theorem kpmInitEntries_fits (laid : Laid b) {entries : List MmapEntry} {m' : Mem}
    (rep : Represents b m p) (returned : kpmInitEntries b entries m = .ok m') :
    ∀ e ∈ availableEntries entries, e.Fits b := by
  rw [kpmInitEntries_eq (kpmInitEntries_ends returned)] at returned
  exact kpmEnable_all_fits laid rep returned

/-! ## Initialisation -/

/-- The pool after initialisation: every frame of the table that is not reserved, free. -/
def bootPool (img : KernelImage) (b : Buddy) (entries : List MmapEntry) : Pool Nat where
  enabled := mapFrames b entries \ img.reservedFrames b
  free := mapFrames b entries \ img.reservedFrames b
  free_sub := Finset.Subset.refl _

variable {entries : List MmapEntry} {count memkb : Nat}

/-- **The boot memory map.** On a table that ends and whose regions fit, `kpm_init` returns the
structure with the books of `bootPool`. -/
theorem kpmInit_represents (held : img.Held (kpmInitBuddy img.ek memkb))
    (ends : ∃ e ∈ entries, e.size = 0)
    (fits : ∀ e ∈ availableEntries entries, e.Fits (kpmInitBuddy img.ek memkb)) :
    Returns (kpmInit img entries count memkb m) fun r =>
      r.1 = kpmInitBuddy img.ek memkb ∧
        Represents r.1 r.2 (bootPool img (kpmInitBuddy img.ek memkb) entries) := by
  have laid : Laid (kpmInitBuddy img.ek memkb) := laid_kpmInitBuddy _ _
  have empty := represents_kpmInitFill img.ek memkb m
  unfold kpmInit
  refine (kpmInitEntries_represents laid ends fits empty).bind fun m rep => ?_
  refine (kpmInitReserve_represents laid rep held).bind fun m rep => ?_
  refine .ok ⟨rfl, ?_⟩
  have pool : (Pool.enable ⟨∅, ∅, Finset.Subset.refl ∅⟩
      (mapFrames (kpmInitBuddy img.ek memkb) entries)).disable
        (img.reservedFrames (kpmInitBuddy img.ek memkb)) =
      bootPool img (kpmInitBuddy img.ek memkb) entries := by
    simp [Pool.enable, Pool.disable, bootPool]
  rwa [pool] at rep

/-- Where `kpm_init` returns, every region fits. -/
theorem kpmInit_fits {r : Buddy × Mem} (returned : kpmInit img entries count memkb m = .ok r) :
    ∀ e ∈ availableEntries entries, e.Fits (kpmInitBuddy img.ek memkb) := by
  unfold kpmInit at returned
  cases loop : kpmInitEntries (kpmInitBuddy img.ek memkb) entries (kpmInitFill img.ek memkb m) with
  | error fault =>
    simp only [loop] at returned
    cases returned
  | ok m' => exact kpmInitEntries_fits (laid_kpmInitBuddy _ _) (represents_kpmInitFill _ _ m) loop

end Nulix.Kpm
