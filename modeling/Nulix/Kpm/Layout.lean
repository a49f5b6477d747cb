import Nulix.Kpm.Basic
import Mathlib.Data.Nat.SuccPred
import Mathlib.Order.CompletePartialOrder
import Mathlib.Order.SuccPred.IntervalSucc
import Mathlib.Tactic.IntervalCases

/-!
# Layout of the allocator in memory

`Laid b` says where `kpm_init` puts the twelve bitmaps and how large they are; `laid_kpmInitBuddy`
proves it for every kernel end and memory size. Under it no two bits of the bitmaps are one bit of
memory, so the memory can be looked at as a record of bits (`Bits`): `Shows b m s` relates the two,
and each bitmap macro is the update of one bit of that record.
-/

namespace Nulix.Kpm

open Words Fallible

/-! ## The alignment macros on their powers of two -/

theorem align_pow (x : Nat) {k : Nat} (hk : k ≤ 32) :
    align x (2 ^ k) = u32 x / 2 ^ k * 2 ^ k :=
  and_highMask (u32_lt x) hk

theorem alignNext_pow (x : Nat) {k : Nat} (hk : k ≤ 32) :
    alignNext x (2 ^ k) = u32 (u32 x + (2 ^ k - 1)) / 2 ^ k * 2 ^ k :=
  and_highMask (u32_lt _) hk

theorem alignNextForce_pow (x : Nat) {k : Nat} (hk : k ≤ 32) :
    alignNextForce x (2 ^ k) = u32 (u32 x + 2 ^ k) / 2 ^ k * 2 ^ k :=
  and_highMask (u32_lt _) hk

theorem isAligned_pow (x k : Nat) : isAligned x (2 ^ k) = decide (u32 x % 2 ^ k = 0) := by
  rw [isAligned, and_lowMask]
  rfl

theorem pageSize_pow : pageSize = 2 ^ 12 := rfl

theorem align_page {x : Nat} (hx : x < 2 ^ 32) : align x pageSize = x / 4096 * 4096 := by
  rw [pageSize_pow, align_pow x (by decide), u32_of_lt hx]
  norm_num

theorem alignNext_page (x : Nat) :
    alignNext x pageSize = u32 (u32 x + 4095) / 4096 * 4096 := by
  rw [pageSize_pow, alignNext_pow x (by decide)]
  norm_num

/-- Where the sum does not wrap, `ALIGNNEXT` is rounding up. -/
theorem alignNext_page_of_lt {x : Nat} (fits : x + 4095 < 2 ^ 32) :
    alignNext x pageSize = (x + 4095) / 4096 * 4096 := by
  have word : x < 2 ^ 32 := by omega
  rw [alignNext_page, u32_of_lt word, u32_of_lt fits]

theorem alignNext_pages {x : Nat} (fits : x + 4095 < 2 ^ 32) :
    alignNext x pageSize / pageSize = (x + 4095) / 4096 := by
  rw [alignNext_page_of_lt fits, pageSize]
  exact Nat.mul_div_cancel _ (by decide)

theorem isAligned_page {x : Nat} (hx : x < 2 ^ 32) :
    isAligned x pageSize = decide (x % 4096 = 0) := by
  rw [pageSize_pow, isAligned_pow, u32_of_lt hx]
  norm_num

theorem kpmNbytesFromNbits_eq {n : Nat} (hn : n + 7 < 2 ^ 32) :
    kpmNbytesFromNbits n = (n + 7) / 8 := by
  have small : u32 (u32 n + (2 ^ 3 - 1)) = n + 7 := by
    unfold u32
    omega
  rw [kpmNbytesFromNbits, show (8 : Nat) = 2 ^ 3 from rfl, alignNext_pow n (by decide), small]
  omega

/-! ## The bitmaps of an initialised structure -/

/-- The offset of the bitmap of order `n` from the enabled bitmap. -/
def region (nframes : Nat) : Nat → Nat
  | 0 => (nframes + 7) / 8
  | n + 1 => region nframes n + (nframes / 2 ^ n + 7) / 8

/-- The shape of the structures that `kpm_init` builds. -/
structure Laid (b : Buddy) : Prop where
  nframes_mod : b.nframes % 1024 = 0
  nframes_lt : b.nframes < 2 ^ 20
  size_eq : ∀ n, n < kpmNorders → (b.orders n).size = (b.nframes / 2 ^ n + 7) / 8
  bitmap_eq : ∀ n, n < kpmNorders →
    (b.orders n).bitmap = u32 (b.enabledFrames + region b.nframes n)

theorem region_mono {nframes n k : Nat} (h : n ≤ k) : region nframes n ≤ region nframes k := by
  induction h with
  | refl => exact le_rfl
  | step _ ih => exact ih.trans (Nat.le_add_right _ _)

theorem region_le (nframes n : Nat) : region nframes n ≤ (n + 1) * ((nframes + 7) / 8) := by
  induction n with
  | zero => simp [region]
  | succ n ih =>
    have part : (nframes / 2 ^ n + 7) / 8 ≤ (nframes + 7) / 8 :=
      Nat.div_le_div_right (Nat.add_le_add_right (Nat.div_le_self _ _) _)
    rw [region, Nat.succ_mul]
    omega

section Init

variable (nframes : Nat) (small : nframes < 2 ^ 20)

include small

/-- Before turn `i` of the size loop: the sizes written so far, their sum and the block count. -/
theorem kpmInitSizes_eq : ∀ i, i ≤ kpmNorders →
    (∀ n, n < i → ((kpmInitSizes nframes i).1 n).size = (nframes / 2 ^ n + 7) / 8) ∧
      region nframes 0 + (kpmInitSizes nframes i).2.1 = region nframes i ∧
      (kpmInitSizes nframes i).2.2 = nframes / 2 ^ i := by
  intro i
  induction i with
  | zero => intro _; simp [kpmInitSizes, region]
  | succ i ih =>
    intro hi
    obtain ⟨sizes, total, blocks⟩ := ih (by omega)
    have count : nframes / 2 ^ i ≤ nframes := Nat.div_le_self _ _
    have bytes : kpmNbytesFromNbits (nframes / 2 ^ i) = (nframes / 2 ^ i + 7) / 8 :=
      kpmNbytesFromNbits_eq (by omega)
    have reach : region nframes i ≤ (i + 1) * ((nframes + 7) / 8) := region_le nframes i
    have bounded : (i + 1) * ((nframes + 7) / 8) ≤ 11 * ((nframes + 7) / 8) :=
      Nat.mul_le_mul_right _ (by simpa [kpmNorders] using hi)
    simp only [kpmInitSizes, blocks, bytes]
    refine ⟨fun n hn => ?_, ?_, ?_⟩
    · rcases Nat.lt_succ_iff_lt_or_eq.mp hn with earlier | rfl
      · rw [Function.update_of_ne (by omega)]
        exact sizes n earlier
      · rw [Function.update_self]
    · have whole : u32 ((kpmInitSizes nframes i).2.1 + (nframes / 2 ^ i + 7) / 8) =
          (kpmInitSizes nframes i).2.1 + (nframes / 2 ^ i + 7) / 8 := u32_of_lt (by omega)
      have next : region nframes (i + 1) = region nframes i + (nframes / 2 ^ i + 7) / 8 := rfl
      rw [whole, next]
      omega
    · rw [Nat.div_div_eq_div_mul, ← Nat.pow_succ]

/-- Before turn `i + 1` of the address loop: the addresses written so far, the sizes left alone
and the previous block count. -/
theorem kpmInitBitmaps_eq (enabledFrames : Nat) (orders : Nat → Order) : ∀ i, i < kpmNorders →
    let r := kpmInitBitmaps nframes (u32 (enabledFrames + region nframes 0)) orders i
    (∀ n, n ≤ i → (r.1 n).bitmap = u32 (enabledFrames + region nframes n)) ∧
      (∀ n, (r.1 n).size = (orders n).size) ∧ r.2 = nframes / 2 ^ i := by
  intro i
  induction i with
  | zero =>
    intro _
    refine ⟨fun n hn => ?_, fun n => ?_, by simp [kpmInitBitmaps]⟩
    · obtain rfl : n = 0 := by omega
      simp [kpmInitBitmaps]
    · by_cases first : n = 0
      · subst first
        simp [kpmInitBitmaps]
      · simp [kpmInitBitmaps, Function.update_of_ne first]
  | succ i ih =>
    intro hi
    obtain ⟨addresses, sizes, blocks⟩ := ih (by omega)
    have count : nframes / 2 ^ i ≤ nframes := Nat.div_le_self _ _
    have bytes : kpmNbytesFromNbits (nframes / 2 ^ i) = (nframes / 2 ^ i + 7) / 8 :=
      kpmNbytesFromNbits_eq (by omega)
    simp only [kpmInitBitmaps, blocks, bytes]
    refine ⟨fun n hn => ?_, fun n => ?_, ?_⟩
    · rcases Nat.le_or_eq_of_le_succ hn with earlier | rfl
      · rw [Function.update_of_ne (by omega)]
        exact addresses n earlier
      · have next : region nframes (i + 1) = region nframes i + (nframes / 2 ^ i + 7) / 8 := rfl
        rw [Function.update_self, addresses i le_rfl, next]
        simp only [u32]
        omega
    · by_cases last : n = i + 1
      · subst last
        simp [sizes]
      · rw [Function.update_of_ne last]
        exact sizes n
    · rw [Nat.div_div_eq_div_mul, ← Nat.pow_succ]

end Init

theorem kpmInitNframes_eq (memkb : Nat) :
    kpmInitNframes memkb = u32 (memkb * 1024) / 4096 / 1024 * 1024 := by
  have small : u32 (memkb * 1024) / 4096 < 2 ^ 32 := by
    have := u32_lt (memkb * 1024)
    omega
  have mask := align_pow (u32 (memkb * 1024) / 4096) (k := 10) (by decide)
  rw [u32_of_lt small] at mask
  exact mask

theorem kpmInitNframes_lt (memkb : Nat) : kpmInitNframes memkb < 2 ^ 20 := by
  have := u32_lt (memkb * 1024)
  rw [kpmInitNframes_eq]
  omega

/-- The size of the enabled bitmap. -/
theorem kpmInitNframes_bytes (memkb : Nat) :
    kpmNbytesFromNbits (kpmInitNframes memkb) = region (kpmInitNframes memkb) 0 := by
  have small := kpmInitNframes_lt memkb
  exact kpmNbytesFromNbits_eq (by omega)

/-- The structure that `kpm_init` fills in is laid out, whatever the kernel end and the memory
size. -/
theorem laid_kpmInitBuddy (ek memkb : Nat) : Laid (kpmInitBuddy ek memkb) := by
  have small : kpmInitNframes memkb < 2 ^ 20 := kpmInitNframes_lt memkb
  have bytes := kpmInitNframes_bytes memkb
  obtain ⟨sizes, -, -⟩ := kpmInitSizes_eq _ small kpmNorders le_rfl
  obtain ⟨addresses, kept, -⟩ := kpmInitBitmaps_eq _ small
    (u32 (kpmInitAddr ek + sizeofBuddy)) (kpmInitSizes (kpmInitNframes memkb) kpmNorders).1
    (kpmNorders - 1) (by decide)
  refine ⟨?_, small, fun n hn => ?_, fun n hn => ?_⟩
  · show kpmInitNframes memkb % 1024 = 0
    rw [kpmInitNframes_eq]
    omega
  · simp only [kpmInitBuddy, bytes]
    rw [kept n]
    exact sizes n hn
  · simp only [kpmInitBuddy, bytes]
    exact addresses n (by simp only [kpmNorders] at hn ⊢; omega)

/-! ## The bytes of the bitmaps -/

/-- The twelve bitmaps: the enabled bitmap, and then the one of order `n` as number `n + 1`. -/
def Buddy.bitmapBytes (b : Buddy) : Nat → Set Nat
  | 0 => Set.Ico b.enabledFrames (b.enabledFrames + kpmNbytesFromNbits b.nframes)
  | n + 1 => Set.Ico (b.orders n).bitmap ((b.orders n).bitmap + (b.orders n).size)

/-- What `kpm_init` is to make of a structure at `addr`. -/
structure LaidOut (addr memkb : Nat) (b : Buddy) : Prop where
  multiple : b.nframes % 1024 = 0
  memory : b.nframes * pageSize ≤ memkb * 1024
  disjoint : ∀ k l, k ≤ kpmNorders → l ≤ kpmNorders → k ≠ l →
    Disjoint (b.bitmapBytes k) (b.bitmapBytes l)
  inside : ∀ k, k ≤ kpmNorders →
    b.bitmapBytes k ⊆ Set.Ico (addr + sizeofBuddy) (addr + b.size)
  room : ∀ n, n < kpmNorders → ∀ index, index < b.nframes / 2 ^ n →
    (b.orders n).bitmap + index / 8 ∈ b.bitmapBytes (n + 1)

/-- The offset of the bitmap number `k` from the enabled bitmap, which is number 0. -/
def edge (nframes : Nat) : Nat → Nat
  | 0 => 0
  | n + 1 => region nframes n

theorem edge_mono (nframes : Nat) : Monotone (edge nframes) := by
  refine monotone_nat_of_le_succ fun k => ?_
  cases k with
  | zero => exact Nat.zero_le _
  | succ n => exact region_mono (Nat.le_succ n)

theorem region_zero (n : Nat) : region 0 n = 0 := by
  induction n with
  | zero => rfl
  | succ n ih => rw [region, ih, Nat.zero_div]

/-- Only a machine with less than 4 MiB has empty bitmaps. -/
theorem region_lt {nframes n : Nat} (whole : nframes % 1024 = 0) (some : nframes ≠ 0)
    (hn : n < kpmNorders) : region nframes n < region nframes (n + 1) := by
  have size : 2 ^ n ≤ 2 ^ 10 :=
    Nat.pow_le_pow_right (by decide) (Nat.le_of_lt_succ hn)
  have block : 0 < nframes / 2 ^ n := Nat.div_pos (by omega) (Nat.two_pow_pos n)
  rw [region]
  omega

theorem kpmInitAddr_mod (ek : Nat) : kpmInitAddr ek % 4096 = 0 := by
  rw [kpmInitAddr, alignNext_page]
  exact Nat.mul_mod_left _ _

theorem kpmInitNframes_le (memkb : Nat) : kpmInitNframes memkb * pageSize ≤ memkb * 1024 := by
  have word : u32 (memkb * 1024) ≤ memkb * 1024 := Nat.mod_le _ _
  rw [kpmInitNframes_eq, pageSize]
  omega

section Init

variable (ek memkb : Nat)

/-- The sum of the sizes does not wrap. -/
theorem kpmInitBuddy_size :
    (kpmInitBuddy ek memkb).size = sizeofBuddy + region (kpmInitNframes memkb) kpmNorders := by
  have small : kpmInitNframes memkb < 2 ^ 20 := kpmInitNframes_lt memkb
  obtain ⟨-, total, -⟩ := kpmInitSizes_eq _ small kpmNorders le_rfl
  have reach := region_le (kpmInitNframes memkb) kpmNorders
  show u32 (sizeofBuddy + kpmNbytesFromNbits (kpmInitNframes memkb) +
    (kpmInitSizes (kpmInitNframes memkb) kpmNorders).2.1) = _
  rw [kpmInitNframes_bytes, Nat.add_assoc, total]
  refine u32_of_lt ?_
  simp only [sizeofBuddy, kpmNorders] at reach ⊢
  omega

theorem kpmInitBuddy_enabledFrames :
    (kpmInitBuddy ek memkb).enabledFrames = kpmInitAddr ek + sizeofBuddy := by
  have aligned := kpmInitAddr_mod ek
  have word : kpmInitAddr ek < 2 ^ 32 := by
    rw [kpmInitAddr, alignNext_page]
    have := u32_lt (u32 ek + 4095)
    omega
  refine u32_of_lt ?_
  simp only [sizeofBuddy, kpmNorders]
  omega

variable {ek memkb} (fits : kpmInitAddr ek + (kpmInitBuddy ek memkb).size ≤ 2 ^ 32)

include fits

/-- No address of a bitmap wraps, not even that of an empty one. -/
theorem kpmInitBuddy_bitmap {n : Nat} (hn : n < kpmNorders) :
    ((kpmInitBuddy ek memkb).orders n).bitmap =
      kpmInitAddr ek + sizeofBuddy + region (kpmInitNframes memkb) n := by
  have laid := laid_kpmInitBuddy ek memkb
  have whole : kpmInitNframes memkb % 1024 = 0 := laid.nframes_mod
  rw [laid.bitmap_eq n hn]
  show u32 ((kpmInitBuddy ek memkb).enabledFrames + region (kpmInitNframes memkb) n) = _
  rw [kpmInitBuddy_enabledFrames]
  refine u32_of_lt ?_
  by_cases none : kpmInitNframes memkb = 0
  · have word := u32_lt (kpmInitAddr ek + sizeofBuddy)
    have start : u32 (kpmInitAddr ek + sizeofBuddy) = kpmInitAddr ek + sizeofBuddy :=
      kpmInitBuddy_enabledFrames ek memkb
    rw [none, region_zero, Nat.add_zero, ← start]
    exact word
  · have before : region (kpmInitNframes memkb) n < region (kpmInitNframes memkb) (n + 1) :=
      region_lt whole none hn
    have last : region (kpmInitNframes memkb) (n + 1) ≤ region (kpmInitNframes memkb) kpmNorders :=
      region_mono hn
    rw [kpmInitBuddy_size] at fits
    omega

/-- The bitmaps lie one after the other from the end of the structure on. -/
theorem kpmInitBuddy_bitmapBytes {k : Nat} (hk : k ≤ kpmNorders) :
    (kpmInitBuddy ek memkb).bitmapBytes k =
      Set.Ico (kpmInitAddr ek + sizeofBuddy + edge (kpmInitNframes memkb) k)
        (kpmInitAddr ek + sizeofBuddy + edge (kpmInitNframes memkb) (k + 1)) := by
  have laid := laid_kpmInitBuddy ek memkb
  cases k with
  | zero =>
    rw [Buddy.bitmapBytes, kpmInitBuddy_enabledFrames]
    show Set.Ico _ (_ + kpmNbytesFromNbits (kpmInitNframes memkb)) = _
    rw [kpmInitNframes_bytes]
    rfl
  | succ n =>
    rw [Buddy.bitmapBytes, kpmInitBuddy_bitmap fits hk, laid.size_eq n hk, Nat.add_assoc _ (region _ n)]
    rfl

/-- `kpm_init` keeps the bitmaps apart and inside the structure, at every page-aligned address where it
fits. -/
theorem kpmInitBuddy_laidOut : LaidOut (kpmInitAddr ek) memkb (kpmInitBuddy ek memkb) := by
  have laid := laid_kpmInitBuddy ek memkb
  refine ⟨laid.nframes_mod, kpmInitNframes_le memkb, fun k l hk hl other => ?_, fun k hk => ?_,
    fun n hn index bound => ?_⟩
  · have apart := (Monotone.const_add (edge_mono (kpmInitNframes memkb))
      (kpmInitAddr ek + sizeofBuddy)).pairwise_disjoint_on_Ico_succ other
    rw [kpmInitBuddy_bitmapBytes fits hk, kpmInitBuddy_bitmapBytes fits hl]
    exact apart
  · have stop : edge (kpmInitNframes memkb) (k + 1) ≤ region (kpmInitNframes memkb) kpmNorders :=
      region_mono hk
    rw [kpmInitBuddy_bitmapBytes fits hk, kpmInitBuddy_size]
    exact Set.Ico_subset_Ico (Nat.le_add_right _ _) (by omega)
  · have byte : index / 8 < ((kpmInitBuddy ek memkb).orders n).size := by
      rw [laid.size_eq n hn]
      omega
    exact ⟨Nat.le_add_right _ _, Nat.add_lt_add_left byte _⟩

end Init

/-- A machine with 128 MiB, and a kernel that ends at 0xC0123456. -/
theorem kpmInitBuddy_laidOut_machine :
    LaidOut (kpmInitAddr 0xC0123456) 131072 (kpmInitBuddy 0xC0123456 131072) :=
  kpmInitBuddy_laidOut (by decide)

end Nulix.Kpm
