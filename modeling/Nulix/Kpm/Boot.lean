import Nulix.Kpm.Init

/-!
# Soundness of the boot memory map

A frame should be in service after `kpm_init` only if it is memory of the machine that nothing else
uses. `BootSound` says so, in terms of the 64-bit regions of the entry table. Because `kpm_init` casts
an address to `uintptr_t` and a length to `uint32_t`, and because `kpm_enable` computes its clamp for
a region that starts inside memory, this depends on the table; `BootGood` is the exact condition.
-/

namespace Nulix.Kpm

open Words Fallible

/-- The whole frame is memory of the machine. -/
def Backed (entries : List MmapEntry) (f : Nat) : Prop :=
  ∃ e ∈ availableEntries entries, frameBytes f ⊆ e.bytes

/-- `kpm_init` returns, having marked only frames below `nframes`, and each frame it marked enabled
is backed and is not part of page 0, the kernel image or the buddy structure. -/
def BootSound (img : KernelImage) (entries : List MmapEntry) (count memkb : Nat) (m : Mem) : Prop :=
  Returns (kpmInit img entries count memkb m) fun r =>
    ∀ f, f < r.1.nframes → r.1.enabled f r.2 = true →
      Backed entries f ∧ Disjoint (frameBytes f) (img.reserved r.1)

/-- Every available region, truncated to 32 bits, fits; and the frames that a region from above
4 GiB names after truncation are reserved or happen to be backed. -/
def BootGood (img : KernelImage) (entries : List MmapEntry) (b : Buddy) : Prop :=
  ∀ e ∈ availableEntries entries, e.Fits b ∧
    (2 ^ 32 ≤ e.addr.toNat →
      ∀ f ∈ e.frames b, Disjoint (frameBytes f) (img.reserved b) → Backed entries f)

variable {b : Buddy} {entries : List MmapEntry} {img : KernelImage}

theorem MmapEntry.lt_of_mem_frames {e : MmapEntry} {f : Nat} (mem : f ∈ e.frames b) :
    f < b.nframes := by
  rw [frames] at mem
  split at mem
  · rw [regionFrames, Finset.mem_Ico] at mem
    omega
  · cases Finset.notMem_empty f mem

/-- A frame is in the boot pool when the table names it and it is not reserved. -/
theorem mem_bootPool {f : Nat} :
    f ∈ (bootPool img b entries).enabled ↔
      ∃ e ∈ availableEntries entries, f ∈ e.frames b ∧ Disjoint (frameBytes f) (img.reserved b) := by
  rw [bootPool, Finset.mem_sdiff, mem_mapFrames]
  constructor
  · rintro ⟨⟨e, available, mem⟩, unreserved⟩
    rw [img.mem_reservedFrames (e.lt_of_mem_frames mem), not_not] at unreserved
    exact ⟨e, available, mem, unreserved⟩
  · rintro ⟨e, available, mem, unreserved⟩
    rw [img.mem_reservedFrames (e.lt_of_mem_frames mem), not_not]
    exact ⟨⟨e, available, mem⟩, unreserved⟩

/-- What is enabled where `kpm_init` returns, on a machine that holds kernel and structure. -/
theorem kpmInit_enabled {count memkb : Nat} {m m' : Mem}
    (held : img.Held (kpmInitBuddy img.ek memkb)) (ends : ∃ e ∈ entries, e.size = 0)
    (returned : kpmInit img entries count memkb m = .ok (b, m')) :
    b = kpmInitBuddy img.ek memkb ∧ ∀ f, f < b.nframes → (b.enabled f m' = true ↔
      ∃ e ∈ availableEntries entries, f ∈ e.frames b ∧
        Disjoint (frameBytes f) (img.reserved b)) := by
  obtain ⟨rfl, books⟩ :=
    (kpmInit_represents held ends (kpmInit_fits returned)).of_eq_ok returned
  refine ⟨rfl, fun f hf => ?_⟩
  rw [books.enabled f hf, decide_eq_true_eq, mem_bootPool]

/-- **Soundness of the boot memory map**, exactly when the table is good. -/
theorem bootSound_iff_bootGood (img : KernelImage) (entries : List MmapEntry) (count memkb : Nat)
    (m : Mem) (held : img.Held (kpmInitBuddy img.ek memkb)) (ends : ∃ e ∈ entries, e.size = 0) :
    BootSound img entries count memkb m ↔ BootGood img entries (kpmInitBuddy img.ek memkb) := by
  constructor
  · rintro ⟨⟨b, m'⟩, returned, sound⟩ e available
    refine ⟨kpmInit_fits returned e available, fun _ f mem unreserved => ?_⟩
    obtain ⟨rfl, enabled⟩ := kpmInit_enabled held ends returned
    have hf := e.lt_of_mem_frames mem
    exact (sound f hf ((enabled f hf).mpr ⟨e, available, mem, unreserved⟩)).1
  · intro good
    have returns : Returns (kpmInit img entries count memkb m) fun r =>
        r.1 = kpmInitBuddy img.ek memkb ∧
          Represents r.1 r.2 (bootPool img (kpmInitBuddy img.ek memkb) entries) :=
      kpmInit_represents held ends fun e available => (good e available).1
    obtain ⟨⟨b, m'⟩, returned, -⟩ := returns
    refine ⟨(b, m'), returned, fun f hf on => ?_⟩
    obtain ⟨rfl, enabled⟩ := kpmInit_enabled held ends returned
    obtain ⟨e, available, mem, unreserved⟩ := (enabled f hf).mp on
    refine ⟨?_, unreserved⟩
    rcases lt_or_ge e.addr.toNat (2 ^ 32) with low | high
    · exact ⟨e, available, e.frameBytes_subset_bytes low mem⟩
    · exact (good e available).2 high f mem unreserved

/-- The map of a PC with 16 MiB. -/
theorem bootSound_iff_bootGood_sixteen_mib :
    BootSound ⟨0xC0112345, by decide, by decide⟩
        [⟨20, 0x0, 0x9fc00, 1⟩, ⟨20, 0x100000, 0xee0000, 1⟩, ⟨0, 0, 0, 0⟩] 2 16384 (fun _ => 0#8) ↔
      BootGood ⟨0xC0112345, by decide, by decide⟩
        [⟨20, 0x0, 0x9fc00, 1⟩, ⟨20, 0x100000, 0xee0000, 1⟩, ⟨0, 0, 0, 0⟩]
        (kpmInitBuddy 0xC0112345 16384) :=
  bootSound_iff_bootGood _ _ _ _ _ ⟨by decide, by decide⟩ ⟨⟨0, 0, 0, 0⟩, by decide, rfl⟩

/-- A machine with 4 MiB managed and one available page just above 4 GiB: the page of the same number
below is put into service. -/
theorem not_bootSound_above_four_gib :
    ¬ BootSound ⟨0xC0112345, by decide, by decide⟩
      [⟨20, 0x100002000, 0x1000, 1⟩, ⟨0, 0, 0, 0⟩] 1 4096 (fun _ => 0#8) := by
  rintro ⟨⟨b, m'⟩, returned, sound⟩
  obtain ⟨rfl, enabled⟩ := kpmInit_enabled ⟨by decide, by decide⟩ ⟨⟨0, 0, 0, 0⟩, by decide, rfl⟩
    returned
  have unreserved : 2 ∉ KernelImage.reservedFrames ⟨0xC0112345, by decide, by decide⟩
      (kpmInitBuddy 0xC0112345 4096) := by decide
  have inMemory : 2 < (kpmInitBuddy 0xC0112345 4096).nframes := by decide
  rw [KernelImage.mem_reservedFrames _ inMemory, not_not] at unreserved
  have on := (enabled 2 inMemory).mpr ⟨_, List.mem_singleton_self _, by decide, unreserved⟩
  obtain ⟨e, available, sub⟩ := (sound 2 inMemory on).1
  obtain rfl := List.mem_singleton.mp available
  have first : 0x2000 ∈ frameBytes 2 := by
    rw [frameBytes, Set.mem_Ico, pageSize]
    omega
  have above := (sub first).1
  exact absurd above (by decide)

end Nulix.Kpm
