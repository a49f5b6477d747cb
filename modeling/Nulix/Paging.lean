import Mathlib.Data.BitVec
import Nulix.Kpm.Basic
import Nulix.Lib.PageWalk
import Nulix.Memory

/-!
# The boot page tables

`boot_init` writes a page directory at `0x1000` and a page table at `0x2000`. `BootMapped` is the
address space the processor should then have. Both calls of `memset` clear `PAGE_DIRECTORY_LENGTH`
bytes of the directory, a quarter of its entries, so slots 256 to 1022 but the kernel's keep what
memory held before; `bootInit_mapped_iff` says for which memory this does no harm.
-/

namespace Nulix.Paging

open Words PageWalk Kpm

/-! ## Page entries -/

/-- `struct page_entry` (include/kernel/paging.h). -/
structure PageEntry where
  present : BitVec 1
  writable : BitVec 1
  user : BitVec 1
  writeThrough : BitVec 1
  cacheDisable : BitVec 1
  accessed : BitVec 1
  specific : BitVec 3
  avl3 : BitVec 1
  avl4 : BitVec 1
  avl5 : BitVec 1
  address : BitVec 20

namespace PageEntry

/-- The word that holds the bit-fields, the first one lowest. -/
def word (e : PageEntry) : BitVec 32 :=
  e.address ++ e.avl5 ++ e.avl4 ++ e.avl3 ++ e.specific ++ e.accessed ++ e.cacheDisable ++
    e.writeThrough ++ e.user ++ e.writable ++ e.present

def ofWord (v : BitVec 32) : PageEntry where
  present := v.extractLsb' 0 1
  writable := v.extractLsb' 1 1
  user := v.extractLsb' 2 1
  writeThrough := v.extractLsb' 3 1
  cacheDisable := v.extractLsb' 4 1
  accessed := v.extractLsb' 5 1
  specific := v.extractLsb' 6 3
  avl3 := v.extractLsb' 9 1
  avl4 := v.extractLsb' 10 1
  avl5 := v.extractLsb' 11 1
  address := v.extractLsb' 12 20

@[simp] theorem ofWord_word (e : PageEntry) : ofWord e.word = e := by
  cases e
  simp only [ofWord, word, mk.injEq]
  refine ⟨?_, ?_, ?_, ?_, ?_, ?_, ?_, ?_, ?_, ?_, ?_⟩ <;>
  · apply BitVec.eq_of_getLsbD_eq
    intro i hi
    simp only [BitVec.getLsbD_append, BitVec.getLsbD_extractLsb', hi]
    grind

@[simp] theorem present_word (e : PageEntry) : PageWalk.present e.word = e.present.getLsbD 0 := by
  simp only [PageWalk.present, word, BitVec.getLsbD_append]
  simp

@[simp] theorem writable_word (e : PageEntry) :
    PageWalk.writable e.word = e.writable.getLsbD 0 := by
  simp only [PageWalk.writable, word, BitVec.getLsbD_append]
  simp

@[simp] theorem user_word (e : PageEntry) : PageWalk.user e.word = e.user.getLsbD 0 := by
  simp only [PageWalk.user, word, BitVec.getLsbD_append]
  simp

theorem frameBase_word (e : PageEntry) : frameBase e.word = e.address.toNat * 4096 := by
  have shifted : e.word >>> 12 = e.address.setWidth 32 := by
    apply BitVec.eq_of_getLsbD_eq
    intro i hi
    simp only [word, BitVec.getLsbD_ushiftRight, BitVec.getLsbD_append, BitVec.getLsbD_setWidth]
    grind
  have value := congrArg BitVec.toNat shifted
  rw [BitVec.toNat_ushiftRight, Nat.shiftRight_eq_div_pow, BitVec.toNat_setWidth,
    Nat.mod_eq_of_lt (e.address.isLt.trans (by decide))] at value
  rw [frameBase, ← value]

end PageEntry

/-- An assignment to bit-fields of the entry at `pe`. -/
def setFields (pe : Nat) (f : PageEntry → PageEntry) (m : Mem) : Mem :=
  store32 pe (f (PageEntry.ofWord (load32 m pe))).word m

/-- `page_init` (kernel/memory/paging.c). -/
def pageInit (pe addr : Nat) (w u : BitVec 32) (m : Mem) : Mem :=
  let m := store32 pe 0#32 m
  let m := setFields pe (fun e => { e with present := 1#1 }) m
  let m := setFields pe (fun e => { e with writable := w.setWidth 1 }) m
  let m := setFields pe (fun e => { e with user := u.setWidth 1 }) m
  setFields pe (fun e => { e with address := BitVec.ofNat 20 (u32 addr >>> 12) }) m

/-! ## `boot_init` -/

def pageDirectoryLength : Nat := 1024

def pageTableLength : Nat := pageDirectoryLength

def lastPageEntry : Nat := pageDirectoryLength - 1

/-- The size of a `struct page_entry`. -/
def pageEntrySize : Nat := 4

def pageDirectory : Nat := 0x1000

def pageTable1 : Nat := 0x2000

/-- The loop of `boot_init` over the entries of the page table, from `pindex` for `n` turns. -/
def bootInitTable : Nat → Nat → Mem → Mem
  | _, 0, m => m
  | pindex, n + 1, m =>
    bootInitTable (pindex + 1) n
      (pageInit (pageTable1 + pageEntrySize * pindex) (u32 (pindex * pageSize)) 1 0 m)

/-- `boot_init` (kernel/boot_init.c): memory afterwards, and the directory loaded into `cr3`. -/
def bootInit (m : Mem) : Mem × Nat :=
  let m := memset pageDirectory 0 pageDirectoryLength m
  let m := pageInit (pageDirectory + pageEntrySize * lastPageEntry) pageDirectory 1 0 m
  let m := memset pageDirectory 0 pageDirectoryLength m
  let m := bootInitTable 0 pageTableLength m
  let m := pageInit pageDirectory pageTable1 1 0 m
  let m := pageInit (pageDirectory + pageEntrySize * (kernelVirtOffset >>> 22)) pageTable1 1 0 m
  (m, pageDirectory)

/-- The address space after boot: 4 MiB of memory at `0` and at `0xc0000000`, both writable by the
supervisor alone, and nothing elsewhere below the directory's slot for itself. -/
structure BootMapped (m : Mem) (cr3 : Nat) : Prop where
  identity : ∀ va, va < 2 ^ 22 → walk m cr3 va = some ⟨va, true, false⟩
  kernel : ∀ va, va < 2 ^ 22 → walk m cr3 (0xc0000000 + va) = some ⟨va, true, false⟩
  elsewhere : ∀ va, 2 ^ 22 ≤ va → va < 2 ^ 32 - 2 ^ 22 →
    ¬ (0xc0000000 ≤ va ∧ va < 0xc0000000 + 2 ^ 22) → walk m cr3 va = none

/-! ## What the writes leave in the tables -/

/-- The entry that `page_init` leaves, as a word. -/
def initWord (addr : Nat) (w u : BitVec 32) : BitVec 32 :=
  PageEntry.word
    { present := 1, writable := w.setWidth 1, user := u.setWidth 1, writeThrough := 0,
      cacheDisable := 0, accessed := 0, specific := 0, avl3 := 0, avl4 := 0, avl5 := 0,
      address := BitVec.ofNat 20 (u32 addr >>> 12) }

theorem pageInit_eq (pe addr : Nat) (w u : BitVec 32) (m : Mem) :
    pageInit pe addr w u m = store32 pe (initWord addr w u) m := by
  have zero : PageEntry.ofWord 0#32 = ⟨0, 0, 0, 0, 0, 0, 0, 0, 0, 0, 0⟩ := rfl
  simp only [pageInit, setFields, load32_store32, store32_store32, PageEntry.ofWord_word, zero]
  rfl

theorem present_initWord (addr : Nat) (w u : BitVec 32) : present (initWord addr w u) = true := by
  simp [initWord]

/-- The entries of `boot_init` are writable by the supervisor alone. -/
theorem initWord_rights (addr : Nat) :
    writable (initWord addr 1 0) = true ∧ user (initWord addr 1 0) = false := by
  simp [initWord]

theorem frameBase_initWord {addr : Nat} (w u : BitVec 32) (page : IsPage addr) :
    frameBase (initWord addr w u) = addr := by
  have aligned := page.aligned
  have lt := page.lt
  rw [initWord, PageEntry.frameBase_word, u32_of_lt lt, Nat.shiftRight_eq_div_pow]
  simp only [BitVec.toNat_ofNat]
  omega

variable {m : Mem} {base i j addr : Nat}

theorem entry_pageInit {w u : BitVec 32} {base' : Nat} (page : IsPage base) (page' : IsPage base')
    (hi : i < 1024) (hj : j < 1024) :
    entry (pageInit (base + pageEntrySize * i) addr w u m) base' j =
      if base' = base ∧ j = i then initWord addr w u else entry m base' j := by
  rw [pageInit_eq]
  exact entry_store32 _ page page' hi hj

/-- A length of `PAGE_DIRECTORY_LENGTH` bytes is a quarter of the directory. -/
theorem entry_memset (page : IsPage base) (hj : j < 1024) :
    entry (memset pageDirectory 0 pageDirectoryLength m) base j =
      if base = pageDirectory ∧ j < 256 then 0#32 else entry m base j := by
  have aligned := page.aligned
  have lt := page.lt
  split
  · rename_i low
    have cleared : ∀ k, k < 4 →
        memset pageDirectory 0 pageDirectoryLength m (u32 (base + 4 * j + k)) = 0 := by
      intro k hk
      rw [low.1, Nat.add_assoc]
      exact memset_inside (by unfold pageDirectoryLength; omega)
    have last := cleared 0 (by decide)
    rw [Nat.add_zero] at last
    rw [entry, load32, cleared 3 (by decide), cleared 2 (by decide), cleared 1 (by decide), last]
    rfl
  · rename_i high
    apply entry_congr
    intro k hk
    apply memset_outside
    intro l hl
    unfold pageDirectory pageDirectoryLength at *
    unfold u32
    omega

theorem pageDirectory_isPage : IsPage pageDirectory := ⟨rfl, by decide⟩

theorem pageTable1_isPage : IsPage pageTable1 := ⟨rfl, by decide⟩

theorem entry_bootInitTable (page : IsPage base) (hj : j < 1024) {n : Nat} :
    ∀ {pindex : Nat} {m : Mem}, pindex + n ≤ 1024 →
      entry (bootInitTable pindex n m) base j =
        if base = pageTable1 ∧ pindex ≤ j ∧ j < pindex + n then initWord (4096 * j) 1 0
        else entry m base j := by
  induction n with
  | zero =>
    intro pindex m _
    rw [if_neg (by omega)]
    rfl
  | succ n ih =>
    intro pindex m room
    rw [bootInitTable, ih (by omega), entry_pageInit pageTable1_isPage page (by omega) hj]
    have addr : u32 (pindex * pageSize) = 4096 * pindex := by
      unfold u32 pageSize
      omega
    rw [addr]
    grind

/-- Every entry of every table once `boot_init` has returned. -/
theorem entry_bootInit (m : Mem) (page : IsPage base) (hj : j < 1024) :
    entry (bootInit m).1 base j =
      if base = pageDirectory then
        if j = 0 ∨ j = 768 then initWord pageTable1 1 0
        else if j < 256 then 0
        else if j = 1023 then initWord pageDirectory 1 0
        else entry m base j
      else if base = pageTable1 then initWord (4096 * j) 1 0
      else entry m base j := by
  have first : ∀ m' : Mem, entry (pageInit pageDirectory pageTable1 1 0 m') base j =
      if base = pageDirectory ∧ j = 0 then initWord pageTable1 1 0 else entry m' base j :=
    fun _ => entry_pageInit (i := 0) pageDirectory_isPage page (by decide) hj
  have slot : kernelVirtOffset >>> 22 = 768 := rfl
  have last : lastPageEntry = 1023 := rfl
  have apart : pageTable1 ≠ pageDirectory := by decide
  simp only [bootInit, slot, last]
  rw [entry_pageInit pageDirectory_isPage page (by decide) hj, first,
    entry_bootInitTable page hj (by decide), entry_memset page hj,
    entry_pageInit pageDirectory_isPage page (by decide) hj, entry_memset page hj]
  unfold pageTableLength pageDirectoryLength
  grind

/-! ## The address space after boot -/

variable {d va : Nat}

/-- The two slots that name the page table map the first 4 MiB of memory. -/
theorem walk_bootInit (m : Mem) (slot : va / 2 ^ 22 = 0 ∨ va / 2 ^ 22 = 768) :
    walk (bootInit m).1 pageDirectory va = some ⟨va % 2 ^ 22, true, false⟩ := by
  have ht : va / 2 ^ 12 % 2 ^ 10 < 1024 := Nat.mod_lt _ (by decide)
  have pde : entry (bootInit m).1 pageDirectory (va / 2 ^ 22) = initWord pageTable1 1 0 := by
    rw [entry_bootInit m pageDirectory_isPage (by omega), if_pos rfl, if_pos slot]
  have pte : entry (bootInit m).1 pageTable1 (va / 2 ^ 12 % 2 ^ 10) =
      initWord (4096 * (va / 2 ^ 12 % 2 ^ 10)) 1 0 := by
    rw [entry_bootInit m pageTable1_isPage ht, if_neg (by decide), if_pos rfl]
  have frame : IsPage (4096 * (va / 2 ^ 12 % 2 ^ 10)) := ⟨Nat.mul_mod_right _ _, by omega⟩
  have offset : 4096 * (va / 2 ^ 12 % 2 ^ 10) + va % 2 ^ 12 = va % 2 ^ 22 := by omega
  simp only [walk, pde, frameBase_initWord 1 0 pageTable1_isPage, pte, present_initWord,
    frameBase_initWord 1 0 frame, initWord_rights, offset, Bool.and_self, if_true]

/-- `memset` does clear the slots below 256. -/
theorem slotEmpty_cleared (m : Mem) (positive : d ≠ 0) (low : d < 256) :
    SlotEmpty (bootInit m).1 pageDirectory d := by
  intro isPresent
  rw [entry_bootInit m pageDirectory_isPage (by omega), if_pos rfl, if_neg (by omega),
    if_pos low] at isPresent
  cases isPresent

/-- The directory slots that `boot_init` neither clears nor writes. -/
def StaleSlot (d : Nat) : Prop := 256 ≤ d ∧ d < 1023 ∧ d ≠ 768

/-- What memory holds as entry `d` of the directory leads to no page: it is not present, or it names
a table that is none of the two that `boot_init` fills and has no present entry. -/
def Harmless (m : Mem) (d : Nat) : Prop :=
  present (entry m pageDirectory d) = true →
    frameBase (entry m pageDirectory d) ≠ pageDirectory ∧
    frameBase (entry m pageDirectory d) ≠ pageTable1 ∧
    ∀ t, t < 1024 → present (entry m (frameBase (entry m pageDirectory d)) t) = false

theorem slotEmpty_stale (m : Mem) (stale : StaleSlot d) :
    SlotEmpty (bootInit m).1 pageDirectory d ↔ Harmless m d := by
  obtain ⟨low, high, kernel⟩ := stale
  have kept : entry (bootInit m).1 pageDirectory d = entry m pageDirectory d := by
    rw [entry_bootInit m pageDirectory_isPage (by omega), if_pos rfl, if_neg (by omega),
      if_neg (by omega), if_neg (by omega)]
  have page := frameBase_isPage (entry m pageDirectory d)
  unfold SlotEmpty Harmless
  rw [kept]
  apply imp_congr_right
  intro isPresent
  constructor
  · intro empty
    have ne : frameBase (entry m pageDirectory d) ≠ pageDirectory := by
      intro same
      have zero := empty 0 (by decide)
      rw [entry_bootInit m page (by decide), if_pos same, if_pos (Or.inl rfl),
        present_initWord] at zero
      cases zero
    have ne' : frameBase (entry m pageDirectory d) ≠ pageTable1 := by
      intro same
      have zero := empty 0 (by decide)
      rw [entry_bootInit m page (by decide), if_neg ne, if_pos same, present_initWord] at zero
      cases zero
    refine ⟨ne, ne', ?_⟩
    intro t ht
    have absent := empty t ht
    rwa [entry_bootInit m page ht, if_neg ne, if_neg ne'] at absent
  · rintro ⟨ne, ne', empty⟩ t ht
    rw [entry_bootInit m page ht, if_neg ne, if_neg ne']
    exact empty t ht

/-- The address space is as intended exactly when no slot left uncleared led to a page. -/
theorem bootInit_mapped_iff (m : Mem) :
    BootMapped (bootInit m).1 (bootInit m).2 ↔ ∀ d, StaleSlot d → Harmless m d := by
  have cr3 : (bootInit m).2 = pageDirectory := rfl
  rw [cr3]
  constructor
  · intro mapped d stale
    rw [← slotEmpty_stale m stale, slotEmpty_iff]
    obtain ⟨low, high, kernel⟩ := stale
    intro va slot
    exact mapped.elsewhere va (by omega) (by omega) (by omega)
  · intro harmless
    constructor
    case identity =>
      intro va low
      rw [walk_bootInit m (by omega), Nat.mod_eq_of_lt low]
    case kernel =>
      intro va low
      have offset : (0xc0000000 + va) % 2 ^ 22 = va := by omega
      rw [walk_bootInit m (by omega), offset]
    case elsewhere =>
      intro va identity last kernel
      have empty : SlotEmpty (bootInit m).1 pageDirectory (va / 2 ^ 22) := by
        rcases Nat.lt_or_ge (va / 2 ^ 22) 256 with low | high
        · exact slotEmpty_cleared m (by omega) low
        · have stale : StaleSlot (va / 2 ^ 22) := ⟨high, by omega, by omega⟩
          exact (slotEmpty_stale m stale).mpr (harmless _ stale)
      exact slotEmpty_iff.mp empty va rfl

/-- Memory that is clear but for entry 256 of the directory to be, which names the page table. -/
def staleMemory : Mem := store32 0x1400 0x2001#32 fun _ => 0#8

/-- On `staleMemory` the processor finds a page at `0x40000000`. -/
theorem not_bootMapped_stale :
    ¬ BootMapped (bootInit staleMemory).1 (bootInit staleMemory).2 := by
  intro mapped
  have stale : StaleSlot 256 := ⟨by decide, by decide, by decide⟩
  have empty : SlotEmpty (bootInit staleMemory).1 pageDirectory 256 :=
    slotEmpty_iff.mpr fun va slot => mapped.elsewhere va (by omega) (by omega) (by omega)
  have left : entry staleMemory pageDirectory 256 = 0x2001#32 := load32_store32 _ _ _
  have harmless := (slotEmpty_stale staleMemory stale).mp empty
  unfold Harmless at harmless
  rw [left] at harmless
  exact (harmless rfl).2.1 rfl

end Nulix.Paging
