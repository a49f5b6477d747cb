import Mathlib.Logic.Function.Basic
import Nulix.Lib.BitFields

/-!
# The global descriptor table

`gdt_set_gate` (kernel/gdt.c) splits the base of a segment over three fields of its descriptor and the
limit over two, of which the second also takes the flags. The granularity argument carries the flags in
its high nibble and is put into that field whole, so that what its low nibble has set is set in the limit.
-/

namespace Nulix.Gdt

open BitFields

/-! ## Descriptors -/

/-- `t_gdt_entry` -/
structure GdtEntry where
  limitLow : BitVec 16
  baseLow : BitVec 16
  baseMiddle : BitVec 8
  access : BitVec 8
  granularity : BitVec 8
  baseHigh : BitVec 8
  deriving DecidableEq

/-- The table at `GDT_BASE_ADDRESS`. -/
abbrev Table := Nat → GdtEntry

/-- `gdt_set_gate` -/
def gdtSetGate (num : Nat) (base limit : BitVec 32) (access gran : BitVec 8) (gdt : Table) : Table :=
  let e := gdt num
  let e := { e with baseLow := (base &&& 0xFFFF).setWidth 16 }
  let e := { e with baseMiddle := ((base >>> 16) &&& 0xFF).setWidth 8 }
  let e := { e with baseHigh := ((base >>> 24) &&& 0xFF).setWidth 8 }
  let e := { e with limitLow := (limit &&& 0xFFFF).setWidth 16 }
  let e := { e with granularity := ((limit >>> 16) &&& 0x0F).setWidth 8 }
  let e := { e with granularity := e.granularity ||| (gran &&& 0xFF) }
  let e := { e with access := access }
  Function.update gdt num e

namespace GdtEntry

/-! ## What the processor reads from a descriptor -/

def base (e : GdtEntry) : BitVec 32 := e.baseHigh ++ e.baseMiddle ++ e.baseLow

def limit (e : GdtEntry) : BitVec 20 := e.granularity.extractLsb' 0 4 ++ e.limitLow

def flags (e : GdtEntry) : BitVec 4 := e.granularity.extractLsb' 4 4

end GdtEntry

section

variable (num : Nat) (base : BitVec 32) (limit : BitVec 20) (access gran : BitVec 8) (gdt : Table)

theorem gdtSetGate_other {k : Nat} (other : k ≠ num) (limit : BitVec 32) :
    gdtSetGate num base limit access gran gdt k = gdt k :=
  Function.update_of_ne other _ _

/-- The granularity field of a descriptor. -/
theorem gdtSetGate_granularity :
    (gdtSetGate num base (limit.setWidth 32) access gran gdt num).granularity =
      (limit.extractLsb' 16 4).setWidth 8 ||| gran := by
  have top : ((limit.setWidth 32 >>> 16) &&& 0x0F).setWidth 8 =
      ((limit.setWidth 32).extractLsb' 16 4).setWidth 8 := setWidth_shift_mask (w := 4) _
  unfold gdtSetGate
  rw [Function.update_self]
  show ((limit.setWidth 32 >>> 16) &&& 0x0F).setWidth 8 ||| (gran &&& BitVec.allOnes 8) = _
  rw [top, BitVec.extractLsb'_setWidth_of_le (by decide), BitVec.and_allOnes]

/-- The base is split and put together again. -/
theorem gdtSetGate_base (limit : BitVec 32) :
    (gdtSetGate num base limit access gran gdt num).base = base := by
  have high : ((base >>> 24) &&& 0xFF).setWidth 8 = base.extractLsb' 24 8 := shift_mask (w := 8) base
  have middle : ((base >>> 16) &&& 0xFF).setWidth 8 = base.extractLsb' 16 8 := shift_mask (w := 8) base
  have low : (base &&& 0xFFFF).setWidth 16 = base.extractLsb' 0 16 := mask (w := 16) base
  have upper : base.extractLsb' 24 8 ++ base.extractLsb' 16 8 = base.extractLsb' 16 16 :=
    BitVec.extractLsb'_append_extractLsb'_eq_extractLsb' rfl
  have whole : base.extractLsb' 16 16 ++ base.extractLsb' 0 16 = base.extractLsb' 0 32 :=
    BitVec.extractLsb'_append_extractLsb'_eq_extractLsb' rfl
  unfold gdtSetGate GdtEntry.base
  rw [Function.update_self]
  simp only [high, middle, low]
  rw [upper, whole, BitVec.extractLsb'_eq_self]

/-- The top of the limit has the bits of both. -/
theorem gdtSetGate_limit :
    (gdtSetGate num base (limit.setWidth 32) access gran gdt num).limit =
      (limit.extractLsb' 16 4 ||| gran.extractLsb' 0 4) ++ limit.extractLsb' 0 16 := by
  have low : (limit.setWidth 32 &&& 0xFFFF).setWidth 16 = (limit.setWidth 32).extractLsb' 0 16 := mask (w := 16) _
  unfold GdtEntry.limit
  rw [gdtSetGate_granularity, BitVec.extractLsb'_or, low_of_setWidth _ (by decide)]
  unfold gdtSetGate
  rw [Function.update_self]
  simp only [low]
  rw [BitVec.extractLsb'_setWidth_of_le (by decide)]

theorem gdtSetGate_flags :
    (gdtSetGate num base (limit.setWidth 32) access gran gdt num).flags = gran.extractLsb' 4 4 := by
  unfold GdtEntry.flags
  rw [gdtSetGate_granularity, BitVec.extractLsb'_or, high_of_setWidth, BitVec.zero_or]

/-- What a descriptor is to hold. -/
structure Faithful (base : BitVec 32) (limit : BitVec 20) (access gran : BitVec 8) (e : GdtEntry) :
    Prop where
  base : e.base = base
  limit : e.limit = limit
  access : e.access = access
  flags : e.flags = gran.extractLsb' 4 4

theorem gdtSetGate_faithful_iff :
    Faithful base limit access gran (gdtSetGate num base (limit.setWidth 32) access gran gdt num) ↔
      ∀ i, i < 4 → gran.getLsbD i = true → limit.getLsbD (16 + i) = true := by
  have whole : limit.extractLsb' 16 4 ++ limit.extractLsb' 0 16 = limit.extractLsb' 0 20 :=
    BitVec.extractLsb'_append_extractLsb'_eq_extractLsb' rfl
  have nibble : limit.extractLsb' 16 4 ||| gran.extractLsb' 0 4 = limit.extractLsb' 16 4 ↔
      ∀ i, i < 4 → gran.getLsbD i = true → limit.getLsbD (16 + i) = true := by
    rw [or_eq_left_iff]
    simp +contextual
  rw [← nibble]
  constructor
  · intro faithful
    have same := faithful.limit
    rw [gdtSetGate_limit] at same
    have top := congrArg (BitVec.extractLsb' 16 4) same
    rwa [BitVec.extractLsb'_append_eq_left] at top
  · intro subset
    refine ⟨gdtSetGate_base num base access gran gdt _, ?_, ?_, gdtSetGate_flags num base limit access gran gdt⟩
    · rw [gdtSetGate_limit, subset, whole, BitVec.extractLsb'_eq_self]
    · unfold gdtSetGate
      rw [Function.update_self]

end

/-! ## The segments of the kernel -/

/-- The `GDT_*_ACCESS` macros, cast to `uint8_t`: of the flags that an access word is put together from,
those that belong to the granularity field are cut off. -/
def segAccess (priv segType : BitVec 32) : BitVec 8 :=
  let descType : BitVec 32 := 1 <<< 0x04
  let pres : BitVec 32 := 1 <<< 0x07
  let savl : BitVec 32 := 0 <<< 0x0C
  let long : BitVec 32 := 0 <<< 0x0D
  let size : BitVec 32 := 1 <<< 0x0E
  let gran : BitVec 32 := 1 <<< 0x0F
  (descType ||| pres ||| savl ||| long ||| size ||| gran ||| (priv &&& 0x03) <<< 0x05 |||
    segType).setWidth 8

def gdtBaseAddress : BitVec 32 := 0x800
def gdtSize : Nat := 0x6
def gdtKernelLimit : BitVec 20 := 0xFFFF
def gdtUserLimit : BitVec 20 := 0xFFFF
def gdtGranBase : BitVec 8 := 0xCF
def gdtBaseSegment : BitVec 32 := 0x0

def gdtKernelCodeAccess : BitVec 8 := segAccess 0 0x0A
def gdtKernelDataAccess : BitVec 8 := segAccess 0 0x02
def gdtKernelStackAccess : BitVec 8 := segAccess 0 0x06
def gdtUserCodeAccess : BitVec 8 := segAccess 3 0x0A
def gdtUserDataAccess : BitVec 8 := segAccess 3 0x02
def gdtUserStackAccess : BitVec 8 := segAccess 3 0x06

/-- The values that the comments of gdt_internal.h give. -/
example : [gdtKernelCodeAccess, gdtKernelDataAccess, gdtKernelStackAccess, gdtUserCodeAccess,
    gdtUserDataAccess, gdtUserStackAccess] = [0x9A, 0x92, 0x96, 0xFA, 0xF2, 0xF6] := by decide

/-- `t_gdt_ptr` -/
structure GdtPtr where
  limit : BitVec 16
  base : BitVec 32

/-- `gdt_init`, up to the call of `gdt_flush` that loads the table. -/
def gdtInit (gdt : Table) : Table × GdtPtr :=
  let gdtp : GdtPtr := { limit := .ofNat 16 (8 * gdtSize), base := gdtBaseAddress }
  let kernelLimit := gdtKernelLimit.setWidth 32
  let userLimit := gdtUserLimit.setWidth 32
  let gdt := gdtSetGate 0 0 0 0 0 gdt
  let gdt := gdtSetGate 1 gdtBaseSegment kernelLimit gdtKernelCodeAccess gdtGranBase gdt
  let gdt := gdtSetGate 2 gdtBaseSegment kernelLimit gdtKernelDataAccess gdtGranBase gdt
  let gdt := gdtSetGate 3 gdtBaseSegment kernelLimit gdtKernelStackAccess gdtGranBase gdt
  let gdt := gdtSetGate 4 gdtBaseSegment userLimit gdtUserCodeAccess gdtGranBase gdt
  let gdt := gdtSetGate 5 gdtBaseSegment userLimit gdtUserDataAccess gdtGranBase gdt
  let gdt := gdtSetGate 6 gdtBaseSegment userLimit gdtUserStackAccess gdtGranBase gdt
  (gdt, gdtp)

/-- Every segment has the largest limit there is, and not the one it was given. -/
theorem gdtInit_limit (gdt : Table) {num : Nat} (notNull : num ≠ 0) (bound : num ≤ 6) :
    ((gdtInit gdt).1 num).limit = 0xFFFFF := by
  have wide : (BitVec.extractLsb' 16 4 gdtKernelLimit ||| gdtGranBase.extractLsb' 0 4) ++
      gdtKernelLimit.extractLsb' 0 16 = 0xFFFFF := by decide
  unfold gdtInit
  rcases (show num = 1 ∨ num = 2 ∨ num = 3 ∨ num = 4 ∨ num = 5 ∨ num = 6 by omega) with
    rfl | rfl | rfl | rfl | rfl | rfl
  all_goals
    simp (disch := decide) only [gdtSetGate_other]
    exact (gdtSetGate_limit _ _ _ _ _ _).trans wide

/-- The code segment of the kernel, as `gdt_init` writes it. -/
theorem not_faithful_kernelCode :
    ¬ Faithful gdtBaseSegment gdtKernelLimit gdtKernelCodeAccess gdtGranBase
      (gdtSetGate 1 gdtBaseSegment (gdtKernelLimit.setWidth 32) gdtKernelCodeAccess gdtGranBase
        (fun _ => ⟨0, 0, 0, 0, 0, 0⟩) 1) :=
  fun faithful => absurd faithful.limit (by decide)

end Nulix.Gdt
