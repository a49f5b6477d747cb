import Nulix.Kernel.Tables
import Nulix.Paging
import Nulix.Print

/-!
# Reports

What the kernel prints about itself: the parts of the builtin `info` (builtins/info.c) and the frame that an
exception handler prints (kernel/isr.c).
-/

namespace Nulix.Kernel

open Gdt Kpm PageWalk Paging Print Screen Words

/-- `t_int_frame`, and its address. -/
structure IntFrame where
  address : BitVec 32
  eip : BitVec 32
  cs : BitVec 32
  flags : BitVec 32
  sp : BitVec 32
  ss : BitVec 32

/-- What the machine and the linker decide: the registers in the order in which `info_registers` reads them,
the bounds of the stack, the frames of interrupts, the addresses of the handlers, and the memory that
`boot_init` finds. -/
structure Hardware where
  register : Nat → BitVec 32
  stackTop : BitVec 32
  stackBottom : BitVec 32
  frame : IntFrame
  errorCode : BitVec 32
  handlers : Handlers
  boot : Mem

variable (hw : Hardware)

/-- The processor finds a page at the address. What `boot_init` left in its directory from the time before
counts as it was then. -/
def Hardware.Maps (addr : Nat) : Prop := (walk (bootInit hw.boot).1 (bootInit hw.boot).2 addr).isSome = true

instance (addr : Nat) : Decidable (hw.Maps addr) := inferInstanceAs (Decidable (_ = true))

/-- `kprintf(format, value)` -/
def printValue (format : String) (value : BitVec 32) (c : Console) : Console :=
  kprintf (text format) [.int value] c

/-! ## `info` -/

/-- The formats of `info_registers`. -/
def registerFormats : List String :=
  [ "eax : %8p\n", "ebx : %8p\n", "ecx : %8p\n", "edx : %8p\n", "cs : %8p\n", "ds : %8p\n",
    "es : %8p\n", "gs : %8p\n", "ss : %8p\n", "esi : %8p\n", "edi : %8p\n", "ebp : %8p\n",
    "eip : %8p\n", "esp : %8p\n", "eflags : %b\n", "cr0 : %8b\n", "cr3 : %8p\n" ]

/-- `info_registers` -/
def infoRegisters (c : Console) : Console :=
  registerFormats.zipIdx.foldl (fun c f => printValue f.1 (hw.register f.2) c) c

/-- `info_idt` -/
def infoIdt (idtp : IdtPtr) (c : Console) : Console :=
  let c := kprintf (text "INFO IDT\n") [] c
  let c := kprintf (text "Base:  %8p | Limit: %8p\n") [.int idtp.base, .int (idtp.limit.setWidth 32)] c
  printValue "Size = %u bytes\n" (.ofNat 32 (8 * 256)) c

/-- A turn of the loop of `info_buddy_print_order`. -/
def infoBuddyByte (b : Buddy) (m : Mem) (order : Nat) (oldcolor : BitVec 8) (i : Nat) (c : Console) :
    Console :=
  let c := if i % 32 = 0 then printValue "\n%4x  " (.ofNat 32 i) c else c
  let val := m (u32 ((b.orders order).bitmap + i))
  let c :=
    if val = 0 then kprintf (text "  ") [] (c.onCurrent (sbSetBg .white))
    else if val = 0xff then kprintf (text "  ") [] (c.onCurrent (sbSetBg .red))
    else printValue "%2x" (val.setWidth 32) (c.onCurrent (sbSetBg .brown))
  c.onCurrent (sbSetColor oldcolor)

/-- `info_buddy_print_order` -/
def infoBuddyPrintOrder (b : Buddy) (m : Mem) (order : Nat) (c : Console) : Console :=
  let oldcolor := c.getColor
  let size := (b.orders order).size
  let c := kprintf (text "order %u(size of %u)\n") [.int (.ofNat 32 order), .int (.ofNat 32 size)] c
  let c := (List.range size).foldl (fun c i => infoBuddyByte b m order oldcolor i c) c
  let c := c.onCurrent (sbSetColor oldcolor)
  kprintf (text "\n") [] c

/-- `info_buddy`. The structure lies where `addr` says. -/
def infoBuddy (addr : Nat) (b : Buddy) (m : Mem) (order : Int) (c : Console) : Console :=
  let c := kprintf (text "INFO BUDDY\n") [] c
  let c := printValue "buddy address:        %p\n" (.ofNat 32 addr) c
  let c := printValue "buddy size:           %u KB\n" (.ofNat 32 (b.size / 1024)) c
  let c := printValue "orders address:       %p\n" (.ofNat 32 (b.orders 0).bitmap) c
  let c := printValue "frame number:         %x\n" (.ofNat 32 b.nframes) c
  let c := printValue "memory size:          %u KB\n" (.ofNat 32 (b.nframes * 4)) c
  if order ≥ 0 then infoBuddyPrintOrder b m order.toNat c else c

/-- `info_stack` -/
def infoStack (c : Console) : Console :=
  let c := kprintf (text "INFO STACK\n") [] c
  let c := kprintf (text "Top:   %8p | Bottom : %8p\n") [.int hw.stackTop, .int hw.stackBottom] c
  printValue "Size = %d bytes\n" (hw.stackTop - hw.stackBottom) c

/-- A turn of the loop of `info_gdt`. -/
def infoGdtEntry (e : GdtEntry) (c : Console) : Console :=
  let c := printValue "%4p      " (e.baseLow.setWidth 32) c
  let c := printValue "%4p      " (e.baseMiddle.setWidth 32) c
  let c := printValue "%4p      " (e.baseHigh.setWidth 32) c
  let c := printValue "%4p      " (e.limitLow.setWidth 32) c
  let c := printValue "%4p      " (e.granularity.setWidth 32) c
  let c := printValue "%4p      " (e.access.setWidth 32) c
  kprintf (text "\n") [] c

/-- `info_gdt`. It takes the size of a pointer for that of an entry. -/
def infoGdt (gdtp : GdtPtr) (m : Mem) (c : Console) : Console :=
  let c := kprintf (text "INFO GDT\n") [] c
  let c := kprintf (text "Base:  %8p | Limit: %8p\n") [.int gdtp.base, .int (gdtp.limit.setWidth 32)] c
  let c := printValue "Size = %u bytes\n" (.ofNat 32 (4 * gdtSize)) c
  let c := kprintf (text "BASE LOW    BASE MID    BASE HIGH   LIMIT LOW   GRAN        ACC\n") [] c
  (List.range gdtSize).foldl (fun c i => infoGdtEntry (tableAt m gdtBaseAddress.toNat i) c) c

/-! ## Exceptions -/

/-- `print_int_frame` -/
def printIntFrame (errcode : Option (BitVec 32)) (c : Console) : Console :=
  let c := printValue "frame interupt: %p\n" hw.frame.address c
  let c := printValue "     eip: %x\n" hw.frame.eip c
  let c := printValue "      cs: %x\n" hw.frame.cs c
  let c := printValue "     flg: %x\n" hw.frame.flags c
  let c := printValue "      sp: %x\n" hw.frame.sp c
  let c := printValue "      ss: %x\n" hw.frame.ss c
  match errcode with
  | some errcode => printValue "     err: %x\n" errcode c
  | none => c

/-- `divide_error_handler` -/
def divideErrorHandler (c : Console) : Console :=
  printIntFrame hw none (kprintf (text "DIVIDE ERROR\n") [] c)

/-- `overflow_handler` -/
def overflowHandler (c : Console) : Console :=
  printIntFrame hw none (kprintf (text "OVERFLOW\n") [] c)

/-- `double_fault_handler`, up to its `hlt`. Interrupts are off there, so that it does not go on. -/
def doubleFaultHandler (c : Console) : Console :=
  printIntFrame hw (some hw.errorCode) (kprintf (text "DOUBLE FAULT\n") [] c)

/-! ## The screen that is printed to -/

/-- The same buffer is current, of the same number of buffers. -/
structure Stays (c c' : Console) : Prop where
  current : c'.screens.sbCurrent = c.screens.sbCurrent
  count : c'.screens.sbNbscreen = c.screens.sbNbscreen

section Stays

variable {c c' : Console}

theorem Stays.refl (c : Console) : Stays c c := ⟨rfl, rfl⟩

theorem Stays.onCurrent (stays : Stays c c') (f : Display → Display) : Stays c (c'.onCurrent f) :=
  ⟨stays.current, stays.count⟩

theorem Stays.kprintf (stays : Stays c c') (fmt : Text) (ap : List VaArg) :
    Stays c (kprintf fmt ap c') := ⟨stays.current, stays.count⟩

theorem Stays.printValue (stays : Stays c c') (format : String) (value : BitVec 32) :
    Stays c (printValue format value c') := stays.kprintf _ _

/-- A loop whose turns print to the current screen. -/
theorem Stays.foldl {α : Type} {turn : Console → α → Console}
    (turns : ∀ x c', Stays c c' → Stays c (turn c' x)) (stays : Stays c c') (xs : List α) :
    Stays c (xs.foldl turn c') := by
  induction xs generalizing c' with
  | nil => exact stays
  | cons x xs ih => exact ih (turns x c' stays)

theorem Stays.infoRegisters (stays : Stays c c') : Stays c (infoRegisters hw c') :=
  stays.foldl (fun f _ stays => stays.printValue f.1 _) _

theorem Stays.infoIdt (stays : Stays c c') (idtp : IdtPtr) : Stays c (infoIdt idtp c') :=
  ((stays.kprintf _ _).kprintf _ _).printValue _ _

theorem Stays.infoBuddyByte (stays : Stays c c') (b : Buddy) (m : Mem) (order : Nat)
    (oldcolor : BitVec 8) (i : Nat) : Stays c (infoBuddyByte b m order oldcolor i c') := by
  unfold Kernel.infoBuddyByte
  have offset : Stays c (if i % 32 = 0 then Kernel.printValue "\n%4x  " (.ofNat 32 i) c' else c') := by
    split
    · exact stays.printValue _ _
    · exact stays
  dsimp only
  generalize (if i % 32 = 0 then Kernel.printValue "\n%4x  " (.ofNat 32 i) c' else c') = c'' at offset
  refine Stays.onCurrent ?_ _
  split_ifs
  · exact (offset.onCurrent _).kprintf _ _
  · exact (offset.onCurrent _).kprintf _ _
  · exact (offset.onCurrent _).printValue _ _

theorem Stays.infoBuddy (stays : Stays c c') (addr : Nat) (b : Buddy) (m : Mem) (order : Int) :
    Stays c (infoBuddy addr b m order c') := by
  have header := stays.kprintf (text "INFO BUDDY\n") []
  have values := ((((header.printValue "buddy address:        %p\n" (.ofNat 32 addr)).printValue
    "buddy size:           %u KB\n" (.ofNat 32 (b.size / 1024))).printValue
    "orders address:       %p\n" (.ofNat 32 (b.orders 0).bitmap)).printValue
    "frame number:         %x\n" (.ofNat 32 b.nframes)).printValue
    "memory size:          %u KB\n" (.ofNat 32 (b.nframes * 4))
  unfold Kernel.infoBuddy
  dsimp only
  split
  · exact ((Stays.foldl (fun i _ stays => stays.infoBuddyByte b m _ _ i) (values.kprintf _ _) _).onCurrent
      _).kprintf _ _
  · exact values

theorem Stays.infoStack (stays : Stays c c') : Stays c (infoStack hw c') :=
  ((stays.kprintf _ _).kprintf _ _).printValue _ _

theorem Stays.infoGdt (stays : Stays c c') (gdtp : GdtPtr) (m : Mem) : Stays c (infoGdt gdtp m c') := by
  refine Stays.foldl (fun i c' stays => ?_) ((((stays.kprintf _ _).kprintf _ _).printValue _ _).kprintf _ _) _
  exact ((((((stays.printValue _ _).printValue _ _).printValue _ _).printValue _ _).printValue _
    _).printValue _ _).kprintf _ _

theorem Stays.printIntFrame (stays : Stays c c') (errcode : Option (BitVec 32)) :
    Stays c (printIntFrame hw errcode c') := by
  have values := (((((stays.printValue "frame interupt: %p\n" hw.frame.address).printValue
    "     eip: %x\n" hw.frame.eip).printValue "      cs: %x\n" hw.frame.cs).printValue
    "     flg: %x\n" hw.frame.flags).printValue "      sp: %x\n" hw.frame.sp).printValue
    "      ss: %x\n" hw.frame.ss
  cases errcode with
  | none => exact values
  | some errcode => exact values.printValue _ _

theorem Stays.divideErrorHandler (stays : Stays c c') : Stays c (divideErrorHandler hw c') :=
  (stays.kprintf _ _).printIntFrame hw none

theorem Stays.overflowHandler (stays : Stays c c') : Stays c (overflowHandler hw c') :=
  (stays.kprintf _ _).printIntFrame hw none

end Stays

end Nulix.Kernel
