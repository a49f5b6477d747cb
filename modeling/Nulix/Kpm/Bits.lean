import Nulix.Kpm.Layout

/-!
# The bitmaps as a record of bits

Under `Laid b` the twelve bitmaps are pairwise disjoint, so what memory holds for the allocator is
a record `Bits` of enabled bits and order bits, and `Shows b m s` says that memory `m` holds `s`.
Every bitmap macro whose index stands for a frame or a block returns, and sets or reads exactly
one bit of the record.
-/

namespace Nulix.Kpm

open Words Fallible

/-- The enabled bit of every frame and the bit of every block of every order. -/
structure Bits where
  enabled : Nat → Bool
  order : Nat → Nat → Bool

def Bits.setEnabled (s : Bits) (i : Nat) (v : Bool) : Bits :=
  { s with enabled := fun j => if j = i then v else s.enabled j }

def Bits.setOrder (s : Bits) (n i : Nat) (v : Bool) : Bits :=
  { s with order := fun k j => if k = n ∧ j = i then v else s.order k j }

/-- Memory `m` holds the bits `s`, the padding bits of the last bytes included. -/
structure Shows (b : Buddy) (m : Mem) (s : Bits) : Prop where
  enabled : ∀ f, f < b.nframes → b.enabled f m = s.enabled f
  order : ∀ n, n < kpmNorders → ∀ i, i < 8 * (b.orders n).size → b.allocated n i m = s.order n i

/-- The bits that memory holds. -/
def bitsOf (b : Buddy) (m : Mem) : Bits where
  enabled f := b.enabled f m
  order n i := b.allocated n i m

theorem shows_bitsOf (b : Buddy) (m : Mem) : Shows b m (bitsOf b m) :=
  ⟨fun _ _ => rfl, fun _ _ _ _ => rfl⟩

variable {b : Buddy}

namespace Laid

/-! ## No two bits of the bitmaps are one bit of memory -/

theorem region_lt (laid : Laid b) {n : Nat} (hn : n ≤ kpmNorders) :
    region b.nframes n < 2 ^ 32 := by
  have bound : region b.nframes n ≤ (n + 1) * ((b.nframes + 7) / 8) := region_le b.nframes n
  have factor : (n + 1) * ((b.nframes + 7) / 8) ≤ 12 * ((b.nframes + 7) / 8) :=
    Nat.mul_le_mul_right _ (by simp only [kpmNorders] at hn; omega)
  have := laid.nframes_lt
  omega

/-- The byte of an order's bit lies before the next order's bitmap. -/
theorem byte_lt_next (laid : Laid b) {n i : Nat} (hn : n < kpmNorders)
    (hi : i < 8 * (b.orders n).size) :
    region b.nframes n + i / 8 < region b.nframes (n + 1) := by
  rw [laid.size_eq n hn] at hi
  have next : region b.nframes (n + 1) = region b.nframes n + (b.nframes / 2 ^ n + 7) / 8 := rfl
  omega

theorem byte_lt (laid : Laid b) {n i : Nat} (hn : n < kpmNorders)
    (hi : i < 8 * (b.orders n).size) : region b.nframes n + i / 8 < 2 ^ 32 :=
  (laid.byte_lt_next hn hi).trans (laid.region_lt hn)

theorem sameBit_orders (laid : Laid b) {n k i j : Nat} (hn : n < kpmNorders) (hk : k < kpmNorders)
    (hi : i < 8 * (b.orders n).size) (hj : j < 8 * (b.orders k).size) :
    SameBit (b.orders n).bitmap i (b.orders k).bitmap j ↔ k = n ∧ j = i := by
  have byteI : region b.nframes n + i / 8 < 2 ^ 32 := laid.byte_lt hn hi
  have byteJ : region b.nframes k + j / 8 < 2 ^ 32 := laid.byte_lt hk hj
  rcases lt_trichotomy n k with before | rfl | after
  · have apart : region b.nframes n + i / 8 < region b.nframes k :=
      (laid.byte_lt_next hn hi).trans_le (region_mono before)
    rw [laid.bitmap_eq n hn, laid.bitmap_eq k hk]
    exact iff_of_false (sameBit_offset byteI byteJ (by omega)) (by omega)
  · rw [sameBit_self_iff (by omega) (by omega)]
    simp [eq_comm]
  · have apart : region b.nframes k + j / 8 < region b.nframes n :=
      (laid.byte_lt_next hk hj).trans_le (region_mono after)
    rw [laid.bitmap_eq n hn, laid.bitmap_eq k hk]
    exact iff_of_false (sameBit_offset byteI byteJ (by omega)) (by omega)

theorem not_sameBit_enabled (laid : Laid b) {n i f : Nat} (hn : n < kpmNorders)
    (hi : i < 8 * (b.orders n).size) (hf : f < b.nframes) :
    ¬ SameBit b.enabledFrames f (b.orders n).bitmap i ∧
      ¬ SameBit (b.orders n).bitmap i b.enabledFrames f := by
  have byteI : region b.nframes n + i / 8 < 2 ^ 32 := laid.byte_lt hn hi
  have first : region b.nframes 0 ≤ region b.nframes n := region_mono (Nat.zero_le n)
  have zero : region b.nframes 0 = (b.nframes + 7) / 8 := rfl
  have small : b.nframes < 2 ^ 20 := laid.nframes_lt
  rw [laid.bitmap_eq n hn]
  constructor
  · rintro ⟨byte, -⟩
    unfold byteOf u32 at byte
    omega
  · rintro ⟨byte, -⟩
    unfold byteOf u32 at byte
    omega

theorem sameBit_enabled (laid : Laid b) {f g : Nat} (hf : f < b.nframes) (hg : g < b.nframes) :
    SameBit b.enabledFrames f b.enabledFrames g ↔ g = f := by
  have small : b.nframes < 2 ^ 20 := laid.nframes_lt
  rw [sameBit_self_iff (by omega) (by omega), eq_comm]

/-- Every block has a bit in the bitmap of its order. -/
theorem block_lt_size (laid : Laid b) {n i : Nat} (hn : n < kpmNorders)
    (hi : i < b.nframes / 2 ^ n) : i < 8 * (b.orders n).size := by
  rw [laid.size_eq n hn]
  omega

end Laid

/-! ## The macros on the record -/

section Macros

variable (laid : Laid b) {m : Mem} {s : Bits} (holds : Shows b m s)

include laid holds

theorem Shows.setOrder {n i : Nat} (hn : n < kpmNorders) (hi : i < b.nframes / 2 ^ n) :
    Shows b (setBit m (b.orders n).bitmap i) (s.setOrder n i true) := by
  have inside : i < 8 * (b.orders n).size := laid.block_lt_size hn hi
  refine ⟨fun f hf => ?_, fun k hk j hj => ?_⟩
  · rw [Buddy.enabled, readBit_setBit, if_neg (laid.not_sameBit_enabled hn inside hf).2]
    exact holds.enabled f hf
  · simp only [Buddy.allocated, readBit_setBit, laid.sameBit_orders hn hk inside hj, Bits.setOrder,
      ← holds.order k hk j hj]

theorem Shows.clearOrder {n i : Nat} (hn : n < kpmNorders) (hi : i < b.nframes / 2 ^ n) :
    Shows b (clearBit m (b.orders n).bitmap i) (s.setOrder n i false) := by
  have inside : i < 8 * (b.orders n).size := laid.block_lt_size hn hi
  refine ⟨fun f hf => ?_, fun k hk j hj => ?_⟩
  · rw [Buddy.enabled, readBit_clearBit, if_neg (laid.not_sameBit_enabled hn inside hf).2]
    exact holds.enabled f hf
  · simp only [Buddy.allocated, readBit_clearBit, laid.sameBit_orders hn hk inside hj, Bits.setOrder,
      ← holds.order k hk j hj]

theorem Shows.setEnabled {f : Nat} (hf : f < b.nframes) :
    Shows b (setBit m b.enabledFrames f) (s.setEnabled f true) := by
  refine ⟨fun g hg => ?_, fun k hk j hj => ?_⟩
  · simp only [Buddy.enabled, readBit_setBit, laid.sameBit_enabled hf hg, Bits.setEnabled,
      ← holds.enabled g hg]
  · rw [Buddy.allocated, readBit_setBit, if_neg (laid.not_sameBit_enabled hk hj hf).1]
    exact holds.order k hk j hj

theorem Shows.clearEnabled {f : Nat} (hf : f < b.nframes) :
    Shows b (clearBit m b.enabledFrames f) (s.setEnabled f false) := by
  refine ⟨fun g hg => ?_, fun k hk j hj => ?_⟩
  · simp only [Buddy.enabled, readBit_clearBit, laid.sameBit_enabled hf hg, Bits.setEnabled,
      ← holds.enabled g hg]
  · rw [Buddy.allocated, readBit_clearBit, if_neg (laid.not_sameBit_enabled hk hj hf).1]
    exact holds.order k hk j hj

theorem kpmAllocBit_shows {n i : Nat} (hn : n < kpmNorders) (hi : i < b.nframes / 2 ^ n) :
    Returns (kpmAllocBit b n i m) fun m' => Shows b m' (s.setOrder n i true) :=
  ⟨_, if_pos hi, holds.setOrder laid hn hi⟩

theorem kpmFreeBit_shows {n i : Nat} (hn : n < kpmNorders) (hi : i < b.nframes / 2 ^ n) :
    Returns (kpmFreeBit b n i m) fun m' => Shows b m' (s.setOrder n i false) :=
  ⟨_, if_pos hi, holds.clearOrder laid hn hi⟩

theorem kpmEnableBit_shows {f : Nat} (hf : f < b.nframes) :
    Returns (kpmEnableBit b f m) fun m' => Shows b m' (s.setEnabled f true) :=
  ⟨_, if_pos hf, holds.setEnabled laid hf⟩

theorem kpmDisableBit_shows {f : Nat} (hf : f < b.nframes) :
    Returns (kpmDisableBit b f m) fun m' => Shows b m' (s.setEnabled f false) :=
  ⟨_, if_pos hf, holds.clearEnabled laid hf⟩

theorem kpmIsAllocated_shows {n i : Nat} (hn : n < kpmNorders) (hi : i < b.nframes / 2 ^ n) :
    kpmIsAllocated b n i m = .ok (s.order n i) := by
  rw [kpmIsAllocated, Buddy.orderAccess, if_pos hi,
    holds.order n hn i (laid.block_lt_size hn hi)]

omit laid in
theorem kpmIsEnabled_shows {f : Nat} (hf : f < b.nframes) :
    kpmIsEnabled b f m = .ok (s.enabled f) := by
  rw [kpmIsEnabled, Buddy.frameAccess, if_pos hf, holds.enabled f hf]

end Macros

/-! ## The freshly filled bitmaps -/

/-- After the two fills of `kpm_init` no frame is enabled and every bit of every order is set, the
padding bits included. -/
theorem shows_kpmInitFill (ek memkb : Nat) (m : Mem) :
    Shows (kpmInitBuddy ek memkb) (kpmInitFill ek memkb m)
      { enabled := fun _ => false, order := fun _ _ => true } := by
  have laid : Laid (kpmInitBuddy ek memkb) := laid_kpmInitBuddy ek memkb
  have small : (kpmInitBuddy ek memkb).nframes < 2 ^ 20 := laid.nframes_lt
  have bytes : kpmNbytesFromNbits (kpmInitBuddy ek memkb).nframes =
      region (kpmInitBuddy ek memkb).nframes 0 := kpmNbytesFromNbits_eq (by omega)
  obtain ⟨-, total, -⟩ :=
    kpmInitSizes_eq (kpmInitBuddy ek memkb).nframes small kpmNorders le_rfl
  have last : region (kpmInitBuddy ek memkb).nframes kpmNorders < 2 ^ 32 := laid.region_lt le_rfl
  have zero : region (kpmInitBuddy ek memkb).nframes 0 =
    ((kpmInitBuddy ek memkb).nframes + 7) / 8 := rfl
  have first := laid.bitmap_eq 0 (by decide)
  refine ⟨fun f hf => ?_, fun n hn i hi => ?_⟩
  · rw [Buddy.enabled, readBit_eq, kpmInitFill, byteOf, memset_outside, memset_inside]
    · simp
    · omega
    · intro k hk
      rw [first]
      unfold u32
      omega
  · have offset : region (kpmInitBuddy ek memkb).nframes n + i / 8 <
        region (kpmInitBuddy ek memkb).nframes kpmNorders :=
      (laid.byte_lt_next hn hi).trans_le (region_mono hn)
    have start : region (kpmInitBuddy ek memkb).nframes 0 ≤
        region (kpmInitBuddy ek memkb).nframes n := region_mono (Nat.zero_le n)
    have position : u32 (((kpmInitBuddy ek memkb).orders n).bitmap + i / 8) =
        u32 (((kpmInitBuddy ek memkb).orders 0).bitmap +
          (region (kpmInitBuddy ek memkb).nframes n + i / 8 -
            region (kpmInitBuddy ek memkb).nframes 0)) := by
      rw [laid.bitmap_eq n hn, first]
      unfold u32
      omega
    have bit : i % 8 < 8 := Nat.mod_lt _ (by decide)
    rw [Buddy.allocated, readBit_eq, kpmInitFill, byteOf, position, memset_inside (by omega)]
    interval_cases i % 8 <;> rfl

end Nulix.Kpm
