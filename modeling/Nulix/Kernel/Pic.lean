import Nulix.Kernel.Tables

/-!
# The interrupt controllers

`kernel/pic_8259.c` programs the two controllers through their ports: a command port and a data port each.
`Controller` is what such a controller does with what it is sent. The second one is behind line 2 of the
first one, so that both have to hear of the end of a request on lines 8 to 15.
-/

namespace Nulix.Kernel

/-! ## Controllers -/

/-- What a controller takes the next byte on its data port for. -/
inductive PicStage
  | ready | icw2 | icw3 | icw4
  deriving DecidableEq, Repr

/-- A controller. Bit `i` of `inService` is set while a request on line `i` is not completed. -/
structure Controller where
  stage : PicStage
  icw1 : BitVec 8
  offset : BitVec 8
  mask : BitVec 8
  inService : BitVec 8
  deriving DecidableEq, Repr

namespace Controller

/-- A byte on the command port: the first word of an initialization, or the end of an interrupt, which
completes the request of the highest priority. -/
def command (val : BitVec 8) (c : Controller) : Controller :=
  if val.getLsbD 4 then { c with stage := .icw2, icw1 := val, mask := 0, inService := 0 }
  else if val = 0x20 then { c with inService := c.inService &&& (c.inService - 1) }
  else c

/-- A byte on the data port: the next word of an initialization, or the mask. -/
def data (val : BitVec 8) (c : Controller) : Controller :=
  let last : PicStage := if c.icw1.getLsbD 0 then .icw4 else .ready
  match c.stage with
  | .ready => { c with mask := val }
  | .icw2 => { c with offset := val &&& 0xF8, stage := if c.icw1.getLsbD 1 then last else .icw3 }
  | .icw3 => { c with stage := last }
  | .icw4 => { c with stage := .ready }

/-- The line is not masked, and nothing of its priority or a higher one is in service. -/
def Accepts (c : Controller) (line : Nat) : Prop :=
  c.stage = .ready ∧ c.mask.getLsbD line = false ∧ ∀ i, i ≤ line → c.inService.getLsbD i = false

instance (c : Controller) (line : Nat) : Decidable (c.Accepts line) :=
  inferInstanceAs (Decidable (_ ∧ _ ∧ _))

def serve (line : Nat) (c : Controller) : Controller :=
  { c with inService := c.inService ||| .twoPow 8 line }

end Controller

/-! ## Ports -/

structure Pics where
  pic1 : Controller
  pic2 : Controller
  deriving DecidableEq, Repr

/-- `PIC1` -/
def pic1 : Nat := 0x20

/-- `PIC2` -/
def pic2 : Nat := 0xA0

/-- `port_write_u8` on the ports of the controllers. -/
def portWriteU8 (port : Nat) (val : BitVec 8) (s : Pics) : Pics :=
  if port = pic1 then { s with pic1 := s.pic1.command val }
  else if port = pic1 + 1 then { s with pic1 := s.pic1.data val }
  else if port = pic2 then { s with pic2 := s.pic2.command val }
  else if port = pic2 + 1 then { s with pic2 := s.pic2.data val }
  else s

/-- `port_read_u8` on a data port. -/
def portReadU8 (port : Nat) (s : Pics) : BitVec 8 := if port = pic1 + 1 then s.pic1.mask else s.pic2.mask

/-- The port and the bit that `irq_clear_mask` finds for a line. -/
def irqPort (irqId : Nat) : Nat × Nat := if irqId < 8 then (pic1 + 1, irqId) else (pic2 + 1, irqId - 8)

/-- `irq_clear_mask` -/
def irqClearMask (irqId : Nat) (s : Pics) : Pics :=
  let (port, irqId) := irqPort irqId
  portWriteU8 port (portReadU8 port s &&& ~~~.ofNat 8 (1 <<< irqId)) s

/-- `ICW1` -/
def icw1 : BitVec 8 := 0x11

/-- `ICW4` -/
def icw4 : BitVec 8 := 0x01

/-- `IRQ_TM` -/
def irqTm : Nat := 0

/-- `IRQ_KB` -/
def irqKb : Nat := 1

/-- `pic_8259_init` -/
def pic8259Init (offset1 offset2 : BitVec 8) (s : Pics) : Pics :=
  let s := portWriteU8 pic1 icw1 s
  let s := portWriteU8 pic2 icw1 s
  let s := portWriteU8 (pic1 + 1) offset1 s
  let s := portWriteU8 (pic2 + 1) offset2 s
  let s := portWriteU8 (pic1 + 1) 4 s
  let s := portWriteU8 (pic2 + 1) 2 s
  let s := portWriteU8 (pic1 + 1) icw4 s
  let s := portWriteU8 (pic2 + 1) icw4 s
  let s := portWriteU8 (pic1 + 1) 0xFF s
  let s := portWriteU8 (pic2 + 1) 0xFF s
  let s := irqClearMask irqTm s
  irqClearMask irqKb s

/-- `PIC_EOI` -/
def picEoi : BitVec 8 := 0x20

/-- `pic_8259_eoi` -/
def pic8259Eoi (irqId : Nat) (s : Pics) : Pics :=
  let s := if irqId > 8 then portWriteU8 pic2 picEoi s else s
  portWriteU8 pic1 picEoi s

/-! ## Requests -/

/-- A request on one of the sixteen lines: the vector that the processor is given, if it is given one. A
request to the second controller takes line 2 of the first one. -/
def Pics.request (irqId : Nat) (s : Pics) : Option (BitVec 8 × Pics) :=
  if irqId < 8 then
    if s.pic1.Accepts irqId then
      some (s.pic1.offset + .ofNat 8 irqId, { s with pic1 := s.pic1.serve irqId })
    else none
  else
    if s.pic2.Accepts (irqId - 8) ∧ s.pic1.Accepts 2 then
      some (s.pic2.offset + .ofNat 8 (irqId - 8),
        { pic1 := s.pic1.serve 2, pic2 := s.pic2.serve (irqId - 8) })
    else none

/-- Nothing is in service. -/
def Pics.Idle (s : Pics) : Prop := s.pic1.inService = 0 ∧ s.pic2.inService = 0

/-- The end of the only request in service. -/
theorem command_serve {c : Controller} (idle : c.inService = 0) {line : Nat} (inside : line < 8) :
    (c.serve line).command picEoi = c := by
  obtain ⟨stage, first, offset, mask, inService⟩ := c
  cases idle
  have cleared : ∀ line : Fin 8, ((0#8 ||| BitVec.twoPow 8 line) &&&
      ((0#8 ||| BitVec.twoPow 8 line) - 1)) = 0#8 := by decide
  have none := cleared ⟨line, inside⟩
  simpa [Controller.serve, Controller.command, picEoi] using none

/-- A request in service at the second controller, to which nothing was sent. -/
theorem serve_ne {c : Controller} (idle : c.inService = 0) {line : Nat} (inside : line < 8) :
    c.serve line ≠ c := by
  intro same
  have bits := congrArg (fun c => c.inService.getLsbD line) same
  rw [Controller.serve, idle] at bits
  simp [inside] at bits

/-- **The end of an interrupt.** Where nothing else is in service, `pic_8259_eoi` completes every request
that the controllers pass on to the processor, apart from one on line 8. -/
theorem pic8259Eoi_completes_iff {s s' : Pics} (idle : s.Idle) {irqId : Nat} (line : irqId < 16)
    {v : BitVec 8} (requested : s.request irqId = some (v, s')) :
    pic8259Eoi irqId s' = s ↔ irqId ≠ 8 := by
  obtain ⟨idle1, idle2⟩ := idle
  obtain ⟨c1, c2⟩ := s
  unfold Pics.request at requested
  by_cases first : irqId < 8
  · rw [if_pos first] at requested
    split at requested
    · cases requested
      refine iff_of_true ?_ (by omega)
      have only : ¬irqId > 8 := by omega
      rw [pic8259Eoi, if_neg only]
      show Pics.mk ((c1.serve irqId).command picEoi) c2 = _
      rw [command_serve idle1 first]
    · cases requested
  · rw [if_neg first] at requested
    split at requested
    · cases requested
      have slave : irqId - 8 < 8 := by omega
      by_cases lowest : irqId = 8
      · subst lowest
        refine iff_of_false ?_ (not_not_intro rfl)
        intro same
        exact serve_ne idle2 slave (congrArg Pics.pic2 same)
      · refine iff_of_true ?_ lowest
        have both : irqId > 8 := by omega
        rw [pic8259Eoi, if_pos both]
        show Pics.mk ((c1.serve 2).command picEoi) ((c2.serve (irqId - 8)).command picEoi) = _
        rw [command_serve idle1 (by decide), command_serve idle2 slave]
    · cases requested

/-- A request on line 8 where no line is masked: the second controller is not told of its end. -/
theorem pic8259Eoi_completes_iff_line_eight :
    let s : Pics := ⟨⟨.ready, icw1, 0x20, 0, 0⟩, ⟨.ready, icw1, 0x28, 0, 0⟩⟩
    ∃ s', s.request 8 = some (0x28, s') ∧ (pic8259Eoi 8 s' = s ↔ 8 ≠ 8) := by
  refine ⟨⟨⟨.ready, icw1, 0x20, 0, 4⟩, ⟨.ready, icw1, 0x28, 0, 1⟩⟩, by decide, ?_⟩
  exact pic8259Eoi_completes_iff ⟨rfl, rfl⟩ (by decide) (v := 0x28) (by decide)

/-! ## After the initialization -/

section

variable (val : BitVec 8) (s : Pics)

@[simp] theorem portWriteU8_command1 : portWriteU8 pic1 val s = { s with pic1 := s.pic1.command val } := rfl

@[simp] theorem portWriteU8_data1 : portWriteU8 (pic1 + 1) val s = { s with pic1 := s.pic1.data val } := rfl

@[simp] theorem portWriteU8_command2 : portWriteU8 pic2 val s = { s with pic2 := s.pic2.command val } := rfl

@[simp] theorem portWriteU8_data2 : portWriteU8 (pic2 + 1) val s = { s with pic2 := s.pic2.data val } := rfl

end

/-- The words of an initialization, and a mask. -/
theorem data_initialized (offset cascade mask : BitVec 8) (c : Controller) :
    (((((c.command icw1).data offset).data cascade).data icw4).data mask) =
      ⟨.ready, icw1, offset &&& 0xF8, mask, 0⟩ := by
  simp [Controller.command, Controller.data, icw1]

/-- Whatever the controllers were doing, the timer and the keyboard are what they pass on. -/
theorem pic8259Init_eq (offset1 offset2 : BitVec 8) (s : Pics) :
    pic8259Init offset1 offset2 s =
      { pic1 := ⟨.ready, icw1, offset1 &&& 0xF8, 0xFC, 0⟩
        pic2 := ⟨.ready, icw1, offset2 &&& 0xF8, 0xFF, 0⟩ } := by
  simp only [pic8259Init, portWriteU8_command1, portWriteU8_command2, portWriteU8_data1,
    portWriteU8_data2, data_initialized]
  simp [irqClearMask, irqPort, irqTm, irqKb, portReadU8, Controller.data]

/-- `PIC1_OFFSET` -/
def pic1Offset : BitVec 8 := 0x20

/-- `PIC2_OFFSET` -/
def pic2Offset : BitVec 8 := 0x28

/-- The controllers as `init_descriptor_tables` leaves them. -/
def started (s : Pics) : Pics := pic8259Init pic1Offset pic2Offset s

/-- A request, and the call of `pic_8259_eoi` in its handler if the processor is given it. -/
def Pics.complete (s : Pics) (irqId : Nat) : Pics :=
  match s.request irqId with
  | some (_, s) => pic8259Eoi irqId s
  | none => s

/-- The lines with a handler, and their handlers. -/
def Handlers.lines (h : Handlers) : List (Nat × BitVec 32) :=
  [(irqTm, h.timerHandler), (irqKb, h.keyboardHandler)]

theorem request_started (s : Pics) (irqId : Fin 16) :
    (started s).request irqId =
      if irqId.val = irqTm ∨ irqId.val = irqKb then
        some (0x20 + .ofNat 8 irqId, { started s with pic1 := (started s).pic1.serve irqId })
      else none := by
  rw [started, pic8259Init_eq]
  revert irqId
  decide +kernel

/-- A request that was completed leaves no trace. -/
theorem complete_started (s : Pics) (irqId : Fin 16) : (started s).complete irqId = started s := by
  rw [started, pic8259Init_eq]
  revert irqId
  decide +kernel

theorem foldl_complete_started (irqs : List (Fin 16)) (s : Pics) :
    irqs.foldl (fun s irqId => s.complete irqId) (started s) = started s := by
  induction irqs with
  | nil => rfl
  | cons first irqs ih =>
    rw [List.foldl_cons, complete_started]
    exact ih

/-- The controllers, in front of a processor that leads each vector to its handler. -/
theorem requests_delivered (h : Handlers) (s : Pics) (irqs : List (Fin 16)) (irqId : Fin 16)
    {delivered : Nat → Option (BitVec 32)} (leads : ∀ d ∈ h.descriptors, delivered d.1.toNat = some d.2.1) :
    let after := irqs.foldl (fun s irqId => s.complete irqId) (started s)
    (after.request irqId ≠ none ↔ ∃ isr, (irqId.val, isr) ∈ h.lines) ∧
    ∀ isr, (irqId.val, isr) ∈ h.lines → ∃ v s', after.request irqId = some (v, s') ∧
      delivered v.toNat = some isr ∧ pic8259Eoi irqId s' = after := by
  have lines : ∀ isr, (irqId.val, isr) ∈ h.lines ↔
      irqId.val = irqTm ∧ isr = h.timerHandler ∨ irqId.val = irqKb ∧ isr = h.keyboardHandler := by
    intro isr
    simp [Handlers.lines]
  dsimp only
  rw [foldl_complete_started]
  constructor
  · rw [request_started]
    simp only [lines]
    split_ifs with line
    · refine iff_of_true nofun ?_
      rcases line with tm | kb
      · exact ⟨_, .inl ⟨tm, rfl⟩⟩
      · exact ⟨_, .inr ⟨kb, rfl⟩⟩
    · refine iff_of_false (not_not_intro rfl) ?_
      rintro ⟨isr, ⟨tm, -⟩ | ⟨kb, -⟩⟩
      · exact line (.inl tm)
      · exact line (.inr kb)
  · intro isr mem
    have completed := complete_started s irqId
    have requested := request_started s irqId
    rw [lines] at mem
    rw [if_pos (mem.imp And.left And.left)] at requested
    rw [Pics.complete, requested] at completed
    refine ⟨_, _, requested, ?_, completed⟩
    rcases mem with ⟨tm, rfl⟩ | ⟨kb, rfl⟩
    · rw [tm]
      exact leads (32, h.timerHandler, intGateFlags) (by simp [Handlers.descriptors])
    · rw [kb]
      exact leads (33, h.keyboardHandler, intGateFlags) (by simp [Handlers.descriptors])

/-- **Interrupts.** Whatever memory and the controllers held before `init_descriptor_tables`, and after any
sequence of requests to the controllers: they pass on those of the timer and of the keyboard and no
others. Either leads the processor to its handler, and the handler ends what it began. -/
theorem interrupts_delivered (h : Handlers) (m : Mem) (s : Pics) (irqs : List (Fin 16)) (irqId : Fin 16) :
    let after := irqs.foldl (fun s irqId => s.complete irqId) (started s)
    (after.request irqId ≠ none ↔ ∃ isr, (irqId.val, isr) ∈ h.lines) ∧
    ∀ isr, (irqId.val, isr) ∈ h.lines → ∃ v s', after.request irqId = some (v, s') ∧
      delivers (initDescriptorTables h m).1 (initDescriptorTables h m).2.2
        (initDescriptorTables h m).2.1 v.toNat = some isr ∧
      pic8259Eoi irqId s' = after :=
  requests_delivered h s irqs irqId fun _ mem => delivers_handler h m mem

end Nulix.Kernel
