import Nulix.Lib.Fallible
import Nulix.Memory

/-!
# The kernel physical memory allocator

The buddy allocator of `kernel/memory/kpm.c`. Its bitmaps live in the byte memory of the machine,
at the addresses that `kpmInit` writes into the buddy structure; sizes, addresses and indices are
`size_t`, that is natural numbers reduced with `u32` wherever the C computation can wrap.

An access to a bitmap bit that stands for no frame or block, and a loop that goes round the whole
address space, have no meaning worth following: both stop the model with a `Fault`.
-/

namespace Nulix.Kpm

open Words Fallible

/-! ## Constants and alignment macros -/

def pageSize : Nat := 4096

def kpmNorders : Nat := 11

def kernelVirtOffset : Nat := 0xC0000000

/-- The linker symbol `sk`: `. = 0x00100000` in `arch/i386/linker.ld`. -/
def sk : Nat := 0x00100000

/-- `ALIGN` -/
def align (size a : Nat) : Nat := u32 size &&& (0xffffffff ^^^ (a - 1))

/-- `ALIGNNEXT` -/
def alignNext (size a : Nat) : Nat := u32 (u32 size + (a - 1)) &&& (0xffffffff ^^^ (a - 1))

/-- `ALIGNNEXTFORCE` -/
def alignNextForce (size a : Nat) : Nat := u32 (u32 size + a) &&& (0xffffffff ^^^ (a - 1))

/-- `ISALIGNED` -/
def isAligned (size a : Nat) : Bool := (u32 size &&& (a - 1)) == 0

/-- `KPM_NBYTES_FROM_NBITS` -/
def kpmNbytesFromNbits (n : Nat) : Nat := alignNext n 8 / 8

/-! ## Data -/

/-- `struct order`: the address of a bitmap and its size in bytes. -/
structure Order where
  bitmap : Nat
  size : Nat

/-- `struct buddy`. The entries of `orders` from `kpmNorders` on do not exist. -/
structure Buddy where
  nframes : Nat
  size : Nat
  enabledFrames : Nat
  orders : Nat → Order

/-- `sizeof(buddy_t)` on i386: three words and eleven two-word orders. -/
def sizeofBuddy : Nat := 4 + 4 + 4 + kpmNorders * 8

/-- `struct kpm_chunk` -/
structure KpmChunk where
  addr : Nat
  size : Nat
  deriving DecidableEq, Repr

/-- `struct multiboot_mmap_entry`, whose address and length are 64-bit. -/
structure MmapEntry where
  size : BitVec 32
  addr : BitVec 64
  len : BitVec 64
  type : BitVec 32
  deriving DecidableEq, Repr

def multibootMemoryAvailable : BitVec 32 := 1

/-- The linked kernel image: the symbol `ek` is a 32-bit address that does not lie below the virtual
address of `sk`. -/
structure KernelImage where
  ek : Nat
  above_sk : kernelVirtOffset + sk ≤ ek
  word : ek < 2 ^ 32

/-- What stops the model. -/
inductive Fault
  /-- A bit of the bitmap of `order` that stands for no block. -/
  | bitmap (order index : Nat)
  /-- A bit of the enabled bitmap that stands for no frame. -/
  | enabledFrames (index : Nat)
  /-- The entry table runs on past the memory given for it. -/
  | mmap
  /-- A loop that never ends. -/
  | diverges
  deriving DecidableEq, Repr

/-! ## Bitmap macros -/

namespace Buddy

/-- Guard of the accesses to bit `index` of the bitmap of `order`. -/
def orderAccess {α : Type} (b : Buddy) (order index : Nat) (result : α) : Except Fault α :=
  if index < b.nframes / 2 ^ order then .ok result else .error (.bitmap order index)

/-- Guard of the accesses to bit `index` of the enabled bitmap. -/
def frameAccess {α : Type} (b : Buddy) (index : Nat) (result : α) : Except Fault α :=
  if index < b.nframes then .ok result else .error (.enabledFrames index)

/-- What `KPM_IS_ALLOCATED` reads. -/
def allocated (b : Buddy) (order index : Nat) (m : Mem) : Bool :=
  readBit m (b.orders order).bitmap index

/-- What `KPM_IS_ENABLED` reads. -/
def enabled (b : Buddy) (index : Nat) (m : Mem) : Bool :=
  readBit m b.enabledFrames index

end Buddy

variable (b : Buddy)

/-- `KPM_ALLOC` -/
def kpmAllocBit (order index : Nat) (m : Mem) : Except Fault Mem :=
  b.orderAccess order index (setBit m (b.orders order).bitmap index)

/-- `KPM_FREE` -/
def kpmFreeBit (order index : Nat) (m : Mem) : Except Fault Mem :=
  b.orderAccess order index (clearBit m (b.orders order).bitmap index)

/-- `KPM_IS_ALLOCATED` -/
def kpmIsAllocated (order index : Nat) (m : Mem) : Except Fault Bool :=
  b.orderAccess order index (b.allocated order index m)

/-- `KPM_ENABLE` -/
def kpmEnableBit (index : Nat) (m : Mem) : Except Fault Mem :=
  b.frameAccess index (setBit m b.enabledFrames index)

/-- `KPM_DISABLE` -/
def kpmDisableBit (index : Nat) (m : Mem) : Except Fault Mem :=
  b.frameAccess index (clearBit m b.enabledFrames index)

/-- `KPM_IS_ENABLED` -/
def kpmIsEnabled (index : Nat) (m : Mem) : Except Fault Bool :=
  b.frameAccess index (b.enabled index m)

/-! ## Updating the orders -/

/-- The condition of `kpm_update_order`: `||` does not read the right child of an allocated left
one. -/
def kpmChildAllocated (n lchildIndex rchildIndex : Nat) (m : Mem) : Except Fault Bool := do
  let left ← kpmIsAllocated b (n - 1) lchildIndex m
  if left then pure true else kpmIsAllocated b (n - 1) rchildIndex m

/-- One turn of the loop of `kpm_update_order`, on its `base` and the memory. -/
def kpmUpdateOrderTurn (n : Nat) : Nat × Mem → Except Fault (Nat × Mem)
  | (base, m) => do
    let index := (base >>> n) / pageSize
    let lchildIndex := u32 (index * 2)
    let rchildIndex := u32 (lchildIndex + 1)
    let allocated ← kpmChildAllocated b n lchildIndex rchildIndex m
    let m ← (if allocated then kpmAllocBit b n index else kpmFreeBit b n index) m
    pure (alignNextForce base (pageSize * 2 ^ n), m)

/-- `kpm_update_order`. A region has at most `2 ^ 20` pages and `base` moves on by at least two of
them per turn, so a loop with more turns has wrapped around and goes on for ever. -/
def kpmUpdateOrder (n base limit : Nat) (m : Mem) : Except Fault Mem := do
  let stop := u32 (base + limit)
  let (_, m) ← whileLoop .diverges (fun s => decide (s.1 < stop)) (kpmUpdateOrderTurn b n) (2 ^ 20)
    (base, m)
  pure m

/-- `for (size_t n = 1; n < KPM_NORDERS; n++) kpm_update_order(n, base, limit);` -/
def kpmUpdateOrders (base limit : Nat) (m : Mem) : Except Fault Mem :=
  forRange (fun i => kpmUpdateOrder b (i + 1) base limit) (kpmNorders - 1) m

/-! ## Enabling and disabling regions -/

/-- The clamp that `kpm_enable` and `kpm_disable` share: a region whose end lies above the last
frame is cut at it. -/
def kpmClamp (base limit : Nat) : Nat :=
  if u32 (base + limit) / pageSize > b.nframes then sub32 (b.nframes * pageSize) base else limit

/-- `kpm_enable` -/
def kpmEnable (base limit : Nat) (m : Mem) : Except Fault Mem :=
  if !isAligned base pageSize then pure m
  else do
    let limit := align limit pageSize
    let baseIndex := base / pageSize
    let limit := kpmClamp b base limit
    let m ← forRange (fun i m => do
      let m ← kpmEnableBit b (u32 (baseIndex + i)) m
      kpmFreeBit b 0 (u32 (baseIndex + i)) m) (limit / pageSize) m
    kpmUpdateOrders b base limit m

/-- `kpm_disable` -/
def kpmDisable (base limit : Nat) (m : Mem) : Except Fault Mem :=
  if !isAligned base pageSize then pure m
  else do
    let limit := if !isAligned limit pageSize then alignNext limit pageSize else limit
    let baseIndex := base / pageSize
    let limit := kpmClamp b base limit
    let m ← forRange (fun i m => do
      let m ← kpmDisableBit b (u32 (baseIndex + i)) m
      kpmAllocBit b 0 (u32 (baseIndex + i)) m) (limit / pageSize) m
    kpmUpdateOrders b base limit m

/-! ## Asking about an address -/

/-- `kpm_isenabled` -/
def kpmIsenabled (addr : Nat) (m : Mem) : Except Fault Bool := kpmIsEnabled b (addr / pageSize) m

/-- `kpm_isalloc` -/
def kpmIsalloc (addr : Nat) (m : Mem) : Except Fault Bool := kpmIsAllocated b 0 (addr / pageSize) m

/-! ## Allocating and freeing -/

/-- `find_best_fit_order` -/
def findBestFitOrder (size : Nat) : Nat :=
  let nframes := alignNext size pageSize / pageSize
  ((List.range kpmNorders).find? fun n => decide (nframes ≤ 2 ^ n)).getD (kpmNorders - 1)

/-- `__builtin_ffs` on a byte: one more than the index of its least significant set bit, or 0. -/
def builtinFfs (x : BitVec 8) : Nat :=
  match (List.range 8).find? fun i => x.getLsbD i with
  | some i => i + 1
  | none => 0

/-- The loop of `bitmap_ffu` from byte `i` on, with so many bytes to go. -/
def bitmapFfuFrom (bitmap : Nat) (m : Mem) : Nat → Nat → Int
  | 0, _ => -1
  | left + 1, i =>
    let ffu := builtinFfs (~~~ m (u32 (bitmap + i)))
    if ffu ≠ 0 then ffu + i * 8 - 1 else bitmapFfuFrom bitmap m left (i + 1)

/-- `bitmap_ffu` -/
def bitmapFfu (bitmap size : Nat) (m : Mem) : Int := bitmapFfuFrom bitmap m size 0

/-- The loop of `kpm_alloc` over the orders below `norders`, from the highest down. The result is
the chunk that was filled in (return value 0), or `none` (return value -1). -/
def kpmAllocFrom (m : Mem) : Nat → Except Fault (Option KpmChunk × Mem)
  | 0 => pure (none, m)
  | o + 1 =>
    let i := bitmapFfu (b.orders o).bitmap (b.orders o).size m
    if 0 ≤ i then do
      let framesPerBlock := 2 ^ o
      let baseIndex := u32 (i.toNat * framesPerBlock)
      let m ← forRange (fun j => kpmAllocBit b 0 (u32 (baseIndex + j))) framesPerBlock m
      let chunk : KpmChunk :=
        { addr := u32 (u32 (i.toNat * pageSize) * framesPerBlock)
          size := pageSize * framesPerBlock }
      let m ← kpmUpdateOrders b chunk.addr chunk.size m
      pure (some chunk, m)
    else kpmAllocFrom m o

/-- `kpm_alloc` -/
def kpmAlloc (size : Nat) (m : Mem) : Except Fault (Option KpmChunk × Mem) :=
  kpmAllocFrom b m (findBestFitOrder size + 1)

/-- `kpm_free`. The frame numbers are page numbers of 32-bit addresses, so their sum does not
wrap. -/
def kpmFree (chunk : KpmChunk) (m : Mem) : Except Fault Mem :=
  if !isAligned chunk.addr pageSize then pure m
  else do
    let firstFrameIndex := chunk.addr / pageSize
    let nframes := alignNext chunk.size pageSize / pageSize
    let m ← forRange (fun k m => do
      let enabled ← kpmIsEnabled b (firstFrameIndex + k) m
      if enabled then kpmFreeBit b 0 (firstFrameIndex + k) m else pure m) nframes m
    kpmUpdateOrders b chunk.addr chunk.size m

/-! ## Initialisation -/

/-- The loop of `kpm_init` over the sizes, before turn `i`: the orders, `total_orders_size` and
`nblocks`. -/
def kpmInitSizes (nframes : Nat) : Nat → (Nat → Order) × Nat × Nat
  | 0 => (fun _ => { bitmap := 0, size := 0 }, 0, nframes)
  | i + 1 =>
    let (orders, totalOrdersSize, nblocks) := kpmInitSizes nframes i
    let orderSize := kpmNbytesFromNbits nblocks
    (Function.update orders i { orders i with size := orderSize },
      u32 (totalOrdersSize + orderSize), nblocks / 2)

/-- The loop of `kpm_init` over the bitmap addresses, before turn `i + 1`: the orders and
`prev_nblocks`. -/
def kpmInitBitmaps (nframes first : Nat) (orders : Nat → Order) : Nat → (Nat → Order) × Nat
  | 0 => (Function.update orders 0 { orders 0 with bitmap := first }, nframes)
  | i + 1 =>
    let (orders, prevNblocks) := kpmInitBitmaps nframes first orders i
    (Function.update orders (i + 1)
      { orders (i + 1) with
        bitmap := u32 ((orders i).bitmap + kpmNbytesFromNbits prevNblocks) }, prevNblocks / 2)

/-- The number of frames `kpm_init` manages. -/
def kpmInitNframes (memkb : Nat) : Nat := align (u32 (memkb * 1024) / pageSize) 1024

/-- The address `kpm_init` gives the buddy structure. -/
def kpmInitAddr (ek : Nat) : Nat := alignNext ek pageSize

/-- The buddy structure as `kpm_init` fills it in. -/
def kpmInitBuddy (ek memkb : Nat) : Buddy :=
  let buddy := kpmInitAddr ek
  let nframes := kpmInitNframes memkb
  let enabledFramesSize := kpmNbytesFromNbits nframes
  let (orders, totalOrdersSize, _) := kpmInitSizes nframes kpmNorders
  let enabledFrames := u32 (buddy + sizeofBuddy)
  { nframes := nframes
    size := u32 (sizeofBuddy + enabledFramesSize + totalOrdersSize)
    enabledFrames := enabledFrames
    orders := (kpmInitBitmaps nframes (u32 (enabledFrames + enabledFramesSize)) orders
      (kpmNorders - 1)).1 }

/-- The two `memset` calls of `kpm_init`: no frame is enabled and every bit of every order is set.
One fill covers the eleven order bitmaps, which lie one after the other. -/
def kpmInitFill (ek memkb : Nat) (m : Mem) : Mem :=
  let b := kpmInitBuddy ek memkb
  let m := memset b.enabledFrames 0x00#8 (kpmNbytesFromNbits b.nframes) m
  memset (b.orders 0).bitmap 0xff#8 (kpmInitSizes b.nframes kpmNorders).2.1 m

/-- The loop of `kpm_init` over the entry table, which ends at an entry of size 0. The list is what
memory holds from the table on. -/
def kpmInitEntries : List MmapEntry → Mem → Except Fault Mem
  | [], _ => .error .mmap
  | entry :: entries, m =>
    if entry.size ≠ 0 then do
      let m ← if entry.type = multibootMemoryAvailable then
          kpmEnable b (u32 entry.addr.toNat) (u32 entry.len.toNat) m
        else pure m
      kpmInitEntries entries m
    else pure m

/-- The three regions that `kpm_init` takes out of service at its end. -/
def kpmInitReserve (img : KernelImage) (m : Mem) : Except Fault Mem := do
  let m ← kpmDisable b 0 pageSize m
  let m ← kpmDisable b sk (sub32 (sub32 img.ek kernelVirtOffset) sk) m
  kpmDisable b (sub32 (kpmInitAddr img.ek) kernelVirtOffset) b.size m

/-- `kpm_init`. The entry count is not read. -/
def kpmInit (img : KernelImage) (entries : List MmapEntry) (_count memkb : Nat) (m : Mem) :
    Except Fault (Buddy × Mem) := do
  let b := kpmInitBuddy img.ek memkb
  let m := kpmInitFill img.ek memkb m
  let m ← kpmInitEntries b entries m
  let m ← kpmInitReserve b img m
  pure (b, m)

end Nulix.Kpm
