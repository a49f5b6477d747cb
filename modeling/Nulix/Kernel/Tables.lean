import Nulix.Gdt
import Nulix.Lib.Strings
import Nulix.Memory

/-!
# The descriptor tables

`gdt_init` (kernel/gdt.c) and `idt_init` (kernel/idt.c) write their tables into page 0, the gates from
address 0 on and the segments from `GDT_BASE_ADDRESS` on. Most gates are left as they were found. What the
processor makes of a vector is read off the bytes of both tables.
-/

namespace Nulix.Kernel

open BitFields Gdt Strings

/-! ## Segments -/

/-- The two bytes of a word, the low one first. -/
def bytes16 (w : BitVec 16) : List (BitVec 8) := [w.extractLsb' 0 8, w.extractLsb' 8 8]

/-- `t_gdt_entry`, which is packed. -/
def entryBytes (e : GdtEntry) : List (BitVec 8) :=
  bytes16 e.limitLow ++ bytes16 e.baseLow ++ [e.baseMiddle, e.access, e.granularity, e.baseHigh]

/-- The entry in memory from `a` on. -/
def entryAt (m : Mem) (a : Nat) : GdtEntry where
  limitLow := m (a + 1) ++ m (a + 0)
  baseLow := m (a + 3) ++ m (a + 2)
  baseMiddle := m (a + 4)
  access := m (a + 5)
  granularity := m (a + 6)
  baseHigh := m (a + 7)

/-- The table that begins at `base`. -/
def tableAt (m : Mem) (base : Nat) : Table := fun num => entryAt m (base + 8 * num)

/-- `gdt_set_gate`, on the table at `GDT_BASE_ADDRESS`. -/
def gdtSetGateAt (num : Nat) (base limit : BitVec 32) (access gran : BitVec 8) (m : Mem) : Mem :=
  let gdt := gdtSetGate num base limit access gran (tableAt m gdtBaseAddress.toNat)
  store m (gdtBaseAddress.toNat + 8 * num) (entryBytes (gdt num))

/-- `gdt_init`, up to the call of `gdt_flush`. -/
def gdtInitAt (m : Mem) : Mem × GdtPtr :=
  let gdtp : GdtPtr := { limit := .ofNat 16 (8 * gdtSize), base := gdtBaseAddress }
  let kernelLimit := gdtKernelLimit.setWidth 32
  let userLimit := gdtUserLimit.setWidth 32
  let m := gdtSetGateAt 0 0 0 0 0 m
  let m := gdtSetGateAt 1 gdtBaseSegment kernelLimit gdtKernelCodeAccess gdtGranBase m
  let m := gdtSetGateAt 2 gdtBaseSegment kernelLimit gdtKernelDataAccess gdtGranBase m
  let m := gdtSetGateAt 3 gdtBaseSegment kernelLimit gdtKernelStackAccess gdtGranBase m
  let m := gdtSetGateAt 4 gdtBaseSegment userLimit gdtUserCodeAccess gdtGranBase m
  let m := gdtSetGateAt 5 gdtBaseSegment userLimit gdtUserDataAccess gdtGranBase m
  let m := gdtSetGateAt 6 gdtBaseSegment userLimit gdtUserStackAccess gdtGranBase m
  (m, gdtp)

/-! ## Gates -/

/-- `t_idt_entry` -/
structure IdtEntry where
  baseLow : BitVec 16
  selector : BitVec 16
  zero : BitVec 8
  typeAttributes : BitVec 8
  baseHigh : BitVec 16
  deriving DecidableEq

def IdtEntry.bytes (e : IdtEntry) : List (BitVec 8) :=
  bytes16 e.baseLow ++ bytes16 e.selector ++ [e.zero, e.typeAttributes] ++ bytes16 e.baseHigh

/-- The address of `idt`. -/
def idt : Nat := 0x0

/-- The gate in memory from `a` on. -/
def gateAt (m : Mem) (a : Nat) : IdtEntry where
  baseLow := m (a + 1) ++ m (a + 0)
  selector := m (a + 3) ++ m (a + 2)
  zero := m (a + 4)
  typeAttributes := m (a + 5)
  baseHigh := m (a + 7) ++ m (a + 6)

/-- `idt_set_descriptor` -/
def idtSetDescriptor (idtIndex : BitVec 8) (isrAddr : BitVec 32) (flags : BitVec 8) (m : Mem) : Mem :=
  let descriptor : IdtEntry :=
    { baseLow := (isrAddr &&& 0xFFFF).setWidth 16
      selector := 0x08
      zero := 0
      typeAttributes := flags
      baseHigh := (isrAddr >>> 16).setWidth 16 }
  store m (idt + 8 * idtIndex.toNat) descriptor.bytes

/-- `TRAP_GATE_FLAGS` -/
def trapGateFlags : BitVec 8 := 0x8F

/-- `INT_GATE_FLAGS` -/
def intGateFlags : BitVec 8 := 0x8E

/-- The addresses of the handlers of kernel/isr.c. -/
structure Handlers where
  divideErrorHandler : BitVec 32
  overflowHandler : BitVec 32
  doubleFaultHandler : BitVec 32
  timerHandler : BitVec 32
  keyboardHandler : BitVec 32

/-- The calls of `idt_set_descriptor`, in their order. -/
def Handlers.descriptors (h : Handlers) : List (BitVec 8 × BitVec 32 × BitVec 8) :=
  [ (0, h.divideErrorHandler, trapGateFlags),
    (4, h.overflowHandler, trapGateFlags),
    (8, h.doubleFaultHandler, trapGateFlags),
    (32, h.timerHandler, intGateFlags),
    (33, h.keyboardHandler, intGateFlags) ]

/-- A sequence of calls of `idt_set_descriptor`. -/
def setDescriptors (ds : List (BitVec 8 × BitVec 32 × BitVec 8)) (m : Mem) : Mem :=
  ds.foldl (fun m d => idtSetDescriptor d.1 d.2.1 d.2.2 m) m

/-- `t_idt_ptr` -/
structure IdtPtr where
  limit : BitVec 16
  base : BitVec 32

/-- `idt_init`, up to the instruction `lidt`. -/
def idtInit (h : Handlers) (m : Mem) : Mem × IdtPtr :=
  (setDescriptors h.descriptors m, { limit := .ofNat 16 (8 * 256), base := .ofNat 32 idt })

/-! ## What the processor reads -/

/-- The offset that a gate leads to. -/
def IdtEntry.offset (e : IdtEntry) : BitVec 32 := e.baseHigh ++ e.baseLow

/-- A present gate of an interrupt or a trap, for 32-bit code. -/
def IdtEntry.Present (e : IdtEntry) : Prop :=
  e.typeAttributes.getLsbD 7 = true ∧ (e.typeAttributes &&& 0x1E) = 0x0E

instance (e : IdtEntry) : Decidable e.Present := inferInstanceAs (Decidable (_ ∧ _))

/-- A present code segment. -/
def IsCode (e : GdtEntry) : Prop := e.access.getLsbD 7 = true ∧ (e.access &&& 0x18) = 0x18

instance (e : GdtEntry) : Decidable (IsCode e) := inferInstanceAs (Decidable (_ ∧ _))

/-- Where the processor goes on after an interrupt with the vector `v`: through the gate of the vector and
the code segment that the gate selects. -/
def delivers (m : Mem) (idtp : IdtPtr) (gdtp : GdtPtr) (v : Nat) : Option (BitVec 32) :=
  let gate := gateAt m (idtp.base.toNat + 8 * v)
  let num := gate.selector.toNat / 8
  let segment := tableAt m gdtp.base.toNat num
  if 8 * v + 7 ≤ idtp.limit.toNat ∧ gate.Present ∧
      8 * num + 7 ≤ gdtp.limit.toNat ∧ IsCode segment then
    some (segment.base + gate.offset)
  else none

/-! ## Entries in memory -/

theorem append_bytes16 (w : BitVec 16) : w.extractLsb' 8 8 ++ w.extractLsb' 0 8 = w := by
  have whole : w.extractLsb' 8 8 ++ w.extractLsb' 0 8 = w.extractLsb' 0 16 :=
    BitVec.extractLsb'_append_extractLsb'_eq_extractLsb' rfl
  rw [whole, BitVec.extractLsb'_eq_self]

theorem length_entryBytes (e : GdtEntry) : (entryBytes e).length = 8 := rfl

theorem IdtEntry.length_bytes (e : IdtEntry) : e.bytes.length = 8 := rfl

/-- An entry of the one table that was stored is read back. -/
theorem entryAt_store (m : Mem) (a : Nat) (e : GdtEntry) : entryAt (store m a (entryBytes e)) a = e := by
  have byte (i : Nat) (inside : i < 8) : store m a (entryBytes e) (a + i) = (entryBytes e)[i] :=
    store_inside m a inside
  unfold entryAt
  rw [byte 0 (by decide), byte 1 (by decide), byte 2 (by decide), byte 3 (by decide), byte 4 (by decide),
    byte 5 (by decide), byte 6 (by decide), byte 7 (by decide)]
  show GdtEntry.mk (e.limitLow.extractLsb' 8 8 ++ e.limitLow.extractLsb' 0 8)
    (e.baseLow.extractLsb' 8 8 ++ e.baseLow.extractLsb' 0 8) e.baseMiddle e.access e.granularity
    e.baseHigh = e
  rw [append_bytes16, append_bytes16]

/-- And one of the other. -/
theorem gateAt_store (m : Mem) (a : Nat) (e : IdtEntry) : gateAt (store m a e.bytes) a = e := by
  have byte (i : Nat) (inside : i < 8) : store m a e.bytes (a + i) = e.bytes[i] :=
    store_inside m a inside
  unfold gateAt
  rw [byte 0 (by decide), byte 1 (by decide), byte 2 (by decide), byte 3 (by decide), byte 4 (by decide),
    byte 5 (by decide), byte 6 (by decide), byte 7 (by decide)]
  show IdtEntry.mk (e.baseLow.extractLsb' 8 8 ++ e.baseLow.extractLsb' 0 8)
    (e.selector.extractLsb' 8 8 ++ e.selector.extractLsb' 0 8) e.zero e.typeAttributes
    (e.baseHigh.extractLsb' 8 8 ++ e.baseHigh.extractLsb' 0 8) = e
  rw [append_bytes16, append_bytes16, append_bytes16]

/-- The memories have the same eight bytes from `a` on. -/
def SameEntry (m m' : Mem) (a : Nat) : Prop := ∀ i, i < 8 → m' (a + i) = m (a + i)

variable {m m' : Mem} {a : Nat}

theorem SameEntry.entryAt (same : SameEntry m m' a) : entryAt m' a = entryAt m a := by
  unfold Kernel.entryAt
  rw [same 0 (by decide), same 1 (by decide), same 2 (by decide), same 3 (by decide), same 4 (by decide),
    same 5 (by decide), same 6 (by decide), same 7 (by decide)]

theorem SameEntry.gateAt (same : SameEntry m m' a) : gateAt m' a = gateAt m a := by
  unfold Kernel.gateAt
  rw [same 0 (by decide), same 1 (by decide), same 2 (by decide), same 3 (by decide), same 4 (by decide),
    same 5 (by decide), same 6 (by decide), same 7 (by decide)]

/-- A store of eight bytes elsewhere. -/
theorem sameEntry_store {p : Nat} {l : List (BitVec 8)} (length : l.length = 8)
    (apart : a + 8 ≤ p ∨ p + 8 ≤ a) : SameEntry m (store m p l) a := by
  intro i inside
  rcases apart with before | after
  · exact store_of_lt (by omega)
  · exact store_of_le (by omega)

/-! ## The segments -/

theorem tableAt_gdtSetGateAt (num : Nat) (base limit : BitVec 32) (access gran : BitVec 8) (m : Mem) :
    tableAt (gdtSetGateAt num base limit access gran m) gdtBaseAddress.toNat =
      gdtSetGate num base limit access gran (tableAt m gdtBaseAddress.toNat) := by
  funext k
  by_cases here : k = num
  · subst here
    exact entryAt_store m _ _
  · have apart : gdtBaseAddress.toNat + 8 * k + 8 ≤ gdtBaseAddress.toNat + 8 * num ∨
        gdtBaseAddress.toNat + 8 * num + 8 ≤ gdtBaseAddress.toNat + 8 * k := by
      omega
    have kept : tableAt (gdtSetGateAt num base limit access gran m) gdtBaseAddress.toNat k =
        tableAt m gdtBaseAddress.toNat k := (sameEntry_store rfl apart).entryAt
    rw [kept, gdtSetGate, Function.update_of_ne here]

/-- The table in memory is the one that `gdtInit` makes of what was there. -/
theorem tableAt_gdtInitAt (m : Mem) :
    tableAt (gdtInitAt m).1 gdtBaseAddress.toNat = (gdtInit (tableAt m gdtBaseAddress.toNat)).1 := by
  simp only [gdtInitAt, gdtInit, tableAt_gdtSetGateAt]

theorem gdtSetGateAt_outside {num : Nat} (inside : num ≤ 6) (base limit : BitVec 32)
    (access gran : BitVec 8) {m : Mem} {x : Nat} (outside : x < 0x800 ∨ 0x838 ≤ x) :
    gdtSetGateAt num base limit access gran m x = m x := by
  have table : gdtBaseAddress.toNat = 0x800 := rfl
  rw [gdtSetGateAt, table]
  rcases outside with before | after
  · exact store_of_lt (by omega)
  · exact store_of_le (by rw [length_entryBytes]; omega)

theorem gdtInitAt_outside {x : Nat} (outside : x < 0x800 ∨ 0x838 ≤ x) (m : Mem) :
    (gdtInitAt m).1 x = m x := by
  simp (disch := first | decide | exact outside) only [gdtInitAt, gdtSetGateAt_outside]

/-- Segment 1 is a code segment over all addresses. -/
theorem gdtInit_code (gdt : Table) :
    IsCode ((gdtInit gdt).1 1) ∧ ((gdtInit gdt).1 1).base = 0 := by
  unfold gdtInit
  simp (disch := decide) only [gdtSetGate_other]
  refine ⟨?_, gdtSetGate_base _ _ _ _ _ _⟩
  unfold gdtSetGate
  rw [Function.update_self]
  show gdtKernelCodeAccess.getLsbD 7 = true ∧ gdtKernelCodeAccess &&& 0x18 = 0x18
  decide

/-! ## The gates -/

/-- The gate that `idt_set_descriptor` makes. -/
def gateOf (isrAddr : BitVec 32) (flags : BitVec 8) : IdtEntry where
  baseLow := (isrAddr &&& 0xFFFF).setWidth 16
  selector := 0x08
  zero := 0
  typeAttributes := flags
  baseHigh := (isrAddr >>> 16).setWidth 16

/-- The address is split and put together again. -/
theorem offset_gateOf (isrAddr : BitVec 32) (flags : BitVec 8) : (gateOf isrAddr flags).offset = isrAddr := by
  have low : (isrAddr &&& 0xFFFF).setWidth 16 = isrAddr.extractLsb' 0 16 := mask (w := 16) isrAddr
  have high : (isrAddr >>> 16).setWidth 16 = isrAddr.extractLsb' 16 16 := rfl
  have whole : isrAddr.extractLsb' 16 16 ++ isrAddr.extractLsb' 0 16 = isrAddr.extractLsb' 0 32 :=
    BitVec.extractLsb'_append_extractLsb'_eq_extractLsb' rfl
  rw [IdtEntry.offset, gateOf, low, high, whole, BitVec.extractLsb'_eq_self]

theorem idtSetDescriptor_outside {idtIndex : BitVec 8} (isrAddr : BitVec 32) (flags : BitVec 8) {x : Nat}
    (outside : x < 8 * idtIndex.toNat ∨ 8 * idtIndex.toNat + 8 ≤ x) (m : Mem) :
    idtSetDescriptor idtIndex isrAddr flags m x = m x := by
  rw [idtSetDescriptor, idt]
  rcases outside with before | after
  · exact store_of_lt (by omega)
  · exact store_of_le (by rw [IdtEntry.length_bytes]; omega)

section Descriptors

variable {ds : List (BitVec 8 × BitVec 32 × BitVec 8)}

theorem setDescriptors_outside {x : Nat} (outside : ∀ d ∈ ds, x / 8 ≠ d.1.toNat) (m : Mem) :
    setDescriptors ds m x = m x := by
  induction ds generalizing m with
  | nil => rfl
  | cons d ds ih =>
    have first := outside d List.mem_cons_self
    exact (ih (fun d' mem => outside d' (List.mem_cons_of_mem d mem)) _).trans
      (idtSetDescriptor_outside _ _ (by omega) m)

/-- Gates with different indices do not touch each other. -/
theorem gateAt_setDescriptors (apart : ds.Pairwise fun d d' => d.1 ≠ d'.1)
    {d : BitVec 8 × BitVec 32 × BitVec 8} (mem : d ∈ ds) (m : Mem) :
    gateAt (setDescriptors ds m) (idt + 8 * d.1.toNat) = gateOf d.2.1 d.2.2 := by
  induction ds generalizing m with
  | nil => cases mem
  | cons d' ds ih =>
    obtain ⟨first, rest⟩ := List.pairwise_cons.mp apart
    rcases List.mem_cons.mp mem with rfl | later
    · have kept : SameEntry (idtSetDescriptor d.1 d.2.1 d.2.2 m)
          (setDescriptors ds (idtSetDescriptor d.1 d.2.1 d.2.2 m)) (idt + 8 * d.1.toNat) := by
        intro i inside
        refine setDescriptors_outside (fun d' mem same => first d' mem ?_) _
        refine BitVec.eq_of_toNat_eq ?_
        rw [idt] at same
        omega
      exact kept.gateAt.trans (gateAt_store m _ _)
    · exact ih rest later _

end Descriptors

variable (h : Handlers)

theorem descriptors_apart : h.descriptors.Pairwise fun d d' => d.1 ≠ d'.1 := by
  simp [Handlers.descriptors]

/-- The vectors that have a gate. -/
def vectors : List Nat := [0, 4, 8, 32, 33]

theorem mem_vectors {d : BitVec 8 × BitVec 32 × BitVec 8} (mem : d ∈ h.descriptors) :
    d.1.toNat ∈ vectors ∧ (d.2.2 = trapGateFlags ∨ d.2.2 = intGateFlags) := by
  simp only [Handlers.descriptors, List.mem_cons, List.not_mem_nil, or_false] at mem
  rcases mem with rfl | rfl | rfl | rfl | rfl <;> simp [vectors]

/-! ## Delivery -/

/-- The gates end where the segments begin. -/
theorem idtInit_outside {x : Nat} (outside : x / 8 ∉ vectors) (m : Mem) : (idtInit h m).1 x = m x := by
  exact setDescriptors_outside (fun d mem same => outside (same ▸ (mem_vectors h mem).1)) m

/-- Both tables, with the segments first. -/
def initDescriptorTables (m : Mem) : Mem × GdtPtr × IdtPtr :=
  let (m, gdtp) := gdtInitAt m
  let (m, idtp) := idtInit h m
  (m, gdtp, idtp)

theorem segment_initDescriptorTables (m : Mem) :
    tableAt (initDescriptorTables h m).1 gdtBaseAddress.toNat 1 =
      (gdtInit (tableAt m gdtBaseAddress.toNat)).1 1 := by
  have kept : SameEntry (gdtInitAt m).1 (initDescriptorTables h m).1 (gdtBaseAddress.toNat + 8 * 1) := by
    intro i inside
    refine idtInit_outside h ?_ _
    have table : gdtBaseAddress.toNat = 0x800 := rfl
    have small : ∀ v ∈ vectors, v < 34 := by decide
    exact fun mem => absurd (small _ mem) (by omega)
  have entry : tableAt (initDescriptorTables h m).1 gdtBaseAddress.toNat 1 =
      tableAt (gdtInitAt m).1 gdtBaseAddress.toNat 1 := kept.entryAt
  rw [entry, tableAt_gdtInitAt]

/-- Every vector with a gate leads to its handler, whatever memory held before. -/
theorem delivers_handler (m : Mem) {d : BitVec 8 × BitVec 32 × BitVec 8} (mem : d ∈ h.descriptors) :
    delivers (initDescriptorTables h m).1 (initDescriptorTables h m).2.2
      (initDescriptorTables h m).2.1 d.1.toNat = some d.2.1 := by
  obtain ⟨vector, flags⟩ := mem_vectors h mem
  obtain ⟨code, base⟩ := gdtInit_code (tableAt m gdtBaseAddress.toNat)
  have gate : gateAt (initDescriptorTables h m).1 (idt + 8 * d.1.toNat) = gateOf d.2.1 d.2.2 :=
    gateAt_setDescriptors (descriptors_apart h) mem _
  have small : ∀ v ∈ vectors, v < 34 := by decide
  have number := small _ vector
  have present : (gateOf d.2.1 d.2.2).Present := by
    rcases flags with trap | int
    · rw [trap]
      exact (by decide : trapGateFlags.getLsbD 7 = true ∧ trapGateFlags &&& 0x1E = 0x0E)
    · rw [int]
      exact (by decide : intGateFlags.getLsbD 7 = true ∧ intGateFlags &&& 0x1E = 0x0E)
  have idtp : (initDescriptorTables h m).2.2 = ⟨.ofNat 16 (8 * 256), .ofNat 32 idt⟩ := rfl
  have gdtp : (initDescriptorTables h m).2.1 = ⟨.ofNat 16 (8 * gdtSize), gdtBaseAddress⟩ := rfl
  have start : (BitVec.ofNat 32 idt).toNat = idt := rfl
  have selected : (gateOf d.2.1 d.2.2).selector.toNat / 8 = 1 :=
    (by decide : (0x08 : BitVec 16).toNat / 8 = 1)
  have limits : (BitVec.ofNat 16 (8 * 256)).toNat = 2048 ∧ (BitVec.ofNat 16 (8 * gdtSize)).toNat = 48 :=
    ⟨rfl, rfl⟩
  unfold delivers
  simp only [idtp, gdtp, start, gate, selected, limits, segment_initDescriptorTables]
  rw [if_pos ⟨by omega, present, by decide, code⟩, base, offset_gateOf, zero_add]

/-! ## The string at address 0 -/

/-- The string that a null pointer points to. -/
def nullText (m : Mem) : List (BitVec 8) := contents m (2 ^ 32)

/-- The bytes of a gate that was set. -/
theorem setDescriptors_first (m : Mem) {i : Nat} (inside : i < 8) :
    (initDescriptorTables h m).1 i = (gateOf h.divideErrorHandler trapGateFlags).bytes[i] := by
  have later : ∀ d ∈ h.descriptors.tail, i / 8 ≠ d.1.toNat := by
    rw [Nat.div_eq_of_lt inside]
    simp [Handlers.descriptors]
  have first : (initDescriptorTables h m).1 i =
      idtSetDescriptor 0 h.divideErrorHandler trapGateFlags (gdtInitAt m).1 i :=
    setDescriptors_outside later _
  have byte := store_inside (l := (gateOf h.divideErrorHandler trapGateFlags).bytes) (gdtInitAt m).1 idt inside
  rw [first, ← byte, idt, Nat.zero_add]
  rfl

/-- The high byte of a selector is zero. -/
theorem initDescriptorTables_third (m : Mem) : (initDescriptorTables h m).1 3 = 0 := by
  rw [setDescriptors_first h m (by decide)]
  exact (by decide : (0x08 : BitVec 16).extractLsb' 8 8 = 0)

/-- The first gate begins with the low half of the address of `divide_error_handler`, and its selector
ends the string. -/
theorem nullText_eq (m : Mem) :
    nullText (initDescriptorTables h m).1 =
      ([h.divideErrorHandler.extractLsb' 0 8, h.divideErrorHandler.extractLsb' 8 8, 0x08] :
        List (BitVec 8)).takeWhile (· ≠ 0) := by
  have low : (h.divideErrorHandler &&& 0xFFFF).setWidth 16 = h.divideErrorHandler.extractLsb' 0 16 :=
    mask (w := 16) _
  have byte (i : Nat) (inside : i < 8) := setDescriptors_first h m inside
  have selector : bytes16 0x08 = [0x08, 0] := by decide
  have bytes : (gateOf h.divideErrorHandler trapGateFlags).bytes =
      [h.divideErrorHandler.extractLsb' 0 8, h.divideErrorHandler.extractLsb' 8 8, 0x08, 0] ++
        ([0, trapGateFlags] ++ bytes16 ((h.divideErrorHandler >>> 16).setWidth 16)) := by
    simp only [IdtEntry.bytes, gateOf, low, selector]
    simp [bytes16]
  simp only [bytes] at byte
  have zero := initDescriptorTables_third h m
  have three : List.range 3 = [0, 1, 2] := rfl
  rw [nullText, contents_of_zero zero (by decide), contents, three, List.map_cons, List.map_cons,
    List.map_singleton, byte 0 (by decide), byte 1 (by decide), byte 2 (by decide)]
  rfl

/-- **The descriptor tables.** Whatever memory held before: each of the five vectors leads through its gate
and the code segment to its handler; the rest of memory, the other gates with it, is as it was; and the
string at address 0 is what the address of `divide_error_handler` makes it. -/
theorem initDescriptorTables_ok (m : Mem) :
    (∀ d ∈ h.descriptors, delivers (initDescriptorTables h m).1 (initDescriptorTables h m).2.2
      (initDescriptorTables h m).2.1 d.1.toNat = some d.2.1) ∧
    (∀ x, x / 8 ∉ vectors → x < 0x800 ∨ 0x838 ≤ x → (initDescriptorTables h m).1 x = m x) ∧
    nullText (initDescriptorTables h m).1 =
      ([h.divideErrorHandler.extractLsb' 0 8, h.divideErrorHandler.extractLsb' 8 8, 0x08] :
        List (BitVec 8)).takeWhile (· ≠ 0) := by
  refine ⟨fun d mem => delivers_handler h m mem, fun x gates segments => ?_, nullText_eq h m⟩
  exact (idtInit_outside h gates _).trans (gdtInitAt_outside segments m)

end Nulix.Kernel
