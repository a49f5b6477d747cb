import Nulix.Kernel.Pic
import Nulix.Kernel.Reports
import Nulix.Nsh.Alloc
import Nulix.Nsh.Builtins
import Nulix.Nsh.Hexdump
import Nulix.Nsh.Session

/-!
# The kernel

`kernel_main` (kernel/kernel.c) and what it runs for ever: the loop of `nsh` on the keyboard, with the
builtins on the globals of all subsystems. The input is the sequence of answers that the keyboard
controller gives to `KBD_poll`; where it ends, the kernel is waiting. Interrupts change none of these
globals.
-/

namespace Nulix.Kernel

open Effects Fallible Keyboard Kpm Nsh Print Screen Words

/-! ## State -/

/-- Where the model ends: the kernel stops, or it leaves what its tables define. -/
inductive Stop
  /-- A lookup behind the end of a table of the keyboard. -/
  | keyboard (e : OutOfTable)
  | shell (e : Stuck)
  /-- An access of the allocator outside its bitmaps. -/
  | kpm (e : Fault)
  | strto (e : Std.StrtoFault)
  /-- No page at an address that is read. The descriptor table has no gate for it. -/
  | pageFault
  /-- The `hlt` of `double_fault_handler`, after what it prints. -/
  | doubleFault (console : Console)

/-- The globals, the event of `nsh` and the memory that the allocator and the descriptor tables are in. The
shell, its screens and the header of the structure lie beside that memory. The last field is not in the
source: it records what was sent to the ports by `reboot` and `poweroff`, the latest first. -/
structure Globals where
  shell : Shell
  evt : KbdEvent
  kbd : KbdState
  getkeymapentry : Option Layout
  gdtp : Gdt.GdtPtr
  idtp : IdtPtr
  buddyAddr : Nat
  buddy : Buddy
  mem : Mem
  sent : List (Nat × Nat)

namespace Globals

def onConsole (f : Console → Console) (k : Globals) : Globals :=
  { k with shell := { k.shell with console := f k.shell.console } }

/-- The string `argv[j]`. -/
def argv (k : Globals) (j : Nat) : Text :=
  match k.shell.nshCmd j with
  | some p => k.shell.word p
  | none => nullText k.mem

end Globals

/-! ## Builtins -/

variable (hw : Hardware)

/-- What the operations of the builtins do. -/
def handle : (op : BuiltinOp) → Globals → Except Stop (op.Answer × Globals)
  | .argv j, k => .ok (k.argv j, k)
  | .kprintf fmt ap, k => .ok ((), k.onConsole (kprintf fmt ap))
  | .screens op, k => .ok ((), k.onConsole fun c => { c with screens := op.run c.screens })
  | .allocLoop size, k => do
    -- every turn that goes on takes a frame
    let (result, s) ← (allocLoop k.buddy (k.buddy.nframes + 1) size
      { mem := k.mem, console := k.shell.console, chunk := ⟨0, 0⟩, obtained := [] }).mapError .kpm
    return (result, { k with mem := s.mem, shell := { k.shell with console := s.console } })
  | .kpmFree chunk, k => do
    let m ← (kpmFree k.buddy chunk k.mem).mapError .kpm
    return ((), { k with mem := m })
  | .hxPrint base size, k =>
    if ∀ i, i < size → hw.Maps (u32 (base + i)) then .ok ((), k.onConsole (hxPrint k.mem base size))
    else .error .pageFault
  | .infoGdt, k => .ok ((), k.onConsole (infoGdt k.gdtp k.mem))
  | .infoStack, k => .ok ((), k.onConsole (infoStack hw))
  | .infoIdt, k => .ok ((), k.onConsole (infoIdt k.idtp))
  | .infoRegisters, k => .ok ((), k.onConsole (infoRegisters hw))
  | .infoBuddy order, k => .ok ((), k.onConsole (infoBuddy k.buddyAddr k.buddy k.mem order))
  | .kbdSetkeymap layout, k => .ok ((), { k with getkeymapentry := some layout })
  | .int n, k =>
    if n = 0 then .ok ((), k.onConsole (divideErrorHandler hw))
    else if n = 4 then .ok ((), k.onConsole (overflowHandler hw))
    else .error (.doubleFault (doubleFaultHandler hw k.shell.console))
  | .waitInput, k => .ok ((), k)
  | .portWriteU8 port value, k => .ok ((), { k with sent := (port, value.toNat) :: k.sent })
  | .portWriteU16 port value, k => .ok ((), { k with sent := (port, value.toNat) :: k.sent })
  -- interrupts are on, and the next one ends it
  | .hlt, k => .ok ((), k)
  | .fault e, _ => .error (.strto e)

/-- The loop of `nsh_execcmd`, and the message after it. -/
def nshExeccmdFrom (word : Text) (k : Globals) : List Builtin → Except Stop Globals
  | [] => .ok (k.onConsole (kprintf (text "nsh: %s: command not found\n") [.str word]))
  | b :: bs =>
    if strcmp word (b.name.getD (nullText k.mem)) = 0 then
      match b.exec with
      | some f => do
        let (_, k) ← (f.program k.shell.nshCmdnarg).run (handle hw) k
        return k
      | none => .error (.shell .nullCall)
    else nshExeccmdFrom word k bs

/-- `nsh_execcmd` -/
def nshExeccmd (k : Globals) : Except Stop Globals :=
  match k.shell.nshCmd 0 with
  | none => .ok k
  | some p => nshExeccmdFrom hw (k.shell.word p) k builtin

/-- `nsh_addchar`. No character but that of the enter key calls a builtin. -/
def nshAddchar (c : BitVec 8) (k : Globals) : Except Stop Globals :=
  if c = 0x0a then do
    let s := (k.shell.onCurrent sbScrollDown).print (text "\n") []
    let k ←
      if s.nshBufindex ≠ 0 then do
        let s ← (nshCreatecmd s).mapError .shell
        nshExeccmd hw { k with shell := s }
      else .ok { k with shell := s }
    return { k with shell := nshNewline k.shell }
  else do
    let s ← (Nsh.nshAddchar { atNull := nullText k.mem, exec := fun _ _ _ s => .ok s } c
      k.shell).mapError .shell
    return { k with shell := s }

/-! ## The keyboard -/

/-- What the keyboard controller answers to one `KBD_poll`: its status, and the byte that is read next if the
status says that there is one. -/
structure Poll where
  status : BitVec 8
  data : BitVec 8

/-- `KBD_poll` -/
def kbdPoll (p : Poll) : BitVec 8 := p.status &&& 1

/-- `KBD_geteventbytype`: the polls that are left, if an event of the type came. -/
def kbdGeteventbytype (type : KbdEventtype) :
    List Poll → Globals → Except Stop (Option (List Poll) × Globals)
  | [], k => .ok (none, k)
  | p :: ps, k =>
    if kbdPoll p = 0 then kbdGeteventbytype type ps k
    else do
      let (r, evt, kbd) ← (kbdGetevent p.data k.evt k.kbd).mapError .keyboard
      let k := { k with evt := evt, kbd := kbd }
      if r = 0 ∧ evt.type = type then return (some ps, k) else kbdGeteventbytype type ps k

/-! ## The shell -/

/-- The cases of `nsh_shortcut`. -/
def shortcutKey : KbdKeycode → ShortcutKey
  | .keyCursorUp => .cursorUp
  | .keyCursorDown => .cursorDown
  | .keyPageDown => .pageDown
  | .keyPageUp => .pageUp
  | _ => .other

/-- The loop of `nsh` behind `KBD_geteventbytype`. -/
def nshTurn (k : Globals) : Except Stop Globals := do
  let c ← (kbdGetchar (k.getkeymapentry.map Layout.keymap) k.evt k.kbd.modifiers).mapError .keyboard
  if c ≠ 0 then nshAddchar hw c k
  else return { k with shell := nshShortcut (shortcutKey k.evt.key) k.shell }

/-- The loop of `nsh`. Every turn but the last takes a poll. -/
def nshLoop : Nat → List Poll → Globals → Except Stop Globals
  | 0, _, k => .ok k
  | fuel + 1, ps, k => do
    let (rest, k) ← kbdGeteventbytype .keyPressed ps k
    match rest with
    | none => return k
    | some ps => do
      let k ← nshTurn hw k
      nshLoop fuel ps k

/-- `nsh` -/
def nsh (ps : List Poll) (k : Globals) : Except Stop Globals :=
  nshLoop hw (ps.length + 1) ps { k with shell := nshNewline k.shell }

/-! ## The start -/

/-- `NBSCREENBUF` -/
def nbscreenbuf : Nat := 2

/-- A call on a buffer that is not loaded yet. -/
def onBuffer (i : Nat) (f : Display → Display) (s : Screens) : Screens :=
  { { s with sbCurrent := i }.onCurrent f with sbCurrent := s.sbCurrent }

/-- The loop of `kernel_main` over the screen buffers, and `sb_load`. -/
def initScreens (sb : Int → Screenbuf) (vga : Vga) : Screens :=
  let s : Screens := { sb := sb, sbCurrent := 0, sbNbscreen := nbscreenbuf, vga := vga }
  let s := (List.range nbscreenbuf).foldl (fun s i =>
    let s := onBuffer i (fun d => { d with sb := sbInit d.sb }) s
    onBuffer i (sbPutstr (text "Welcome to nulix-2.0.1\n")) s) s
  { s with sbCurrent := 0 }.onCurrent sbLoad

/-- What `kernel_main` finds. -/
structure Found where
  mem : Mem
  pics : Pics
  sb : Int → Screenbuf
  vga : Vga
  evt : KbdEvent

/-- `kernel_main`, for as long as there are polls: the controllers and the globals. -/
def kernelMain (img : KernelImage) (entries : List MmapEntry) (count memkb : Nat) (found : Found)
    (ps : List Poll) : Except Stop (Pics × Globals) := do
  let pics := started found.pics
  let (m, gdtp, idtp) := initDescriptorTables hw.handlers found.mem
  let (b, m) ← (kpmInit img entries count memkb m).mapError .kpm
  let k ← nsh hw ps
    { shell := .start (initScreens found.sb found.vga)
      evt := found.evt
      kbd := kbdSt
      -- `KBD_initialize`
      getkeymapentry := some .us104
      gdtp := gdtp
      idtp := idtp
      buddyAddr := kpmInitAddr img.ek
      buddy := b
      mem := m
      sent := [] }
  return (pics, k)

/-! ## One poll after the other -/

/-- What one poll does, wherever the kernel waits for it. -/
def pollTurn (p : Poll) (k : Globals) : Except Stop Globals :=
  if kbdPoll p = 0 then .ok k
  else do
    let (r, evt, kbd) ← (kbdGetevent p.data k.evt k.kbd).mapError .keyboard
    let k := { k with evt := evt, kbd := kbd }
    if r = 0 ∧ evt.type = .keyPressed then nshTurn hw k else return k

/-- The loop of `nsh` and the one in `KBD_geteventbytype` are one loop over the polls. -/
theorem nshLoop_eq {ps : List Poll} {fuel : Nat} (enough : ps.length < fuel) (k : Globals) :
    nshLoop hw fuel ps k = runAll (pollTurn hw) ps k := by
  induction ps generalizing fuel k with
  | nil =>
    obtain ⟨fuel, rfl⟩ := Nat.exists_eq_succ_of_ne_zero (Nat.ne_of_gt enough)
    rfl
  | cons p ps ih =>
    obtain ⟨fuel, rfl⟩ := Nat.exists_eq_succ_of_ne_zero (Nat.ne_of_gt (Nat.zero_lt_of_lt enough))
    have fewer : ps.length < fuel := Nat.lt_of_succ_lt_succ enough
    have again : ∀ k, nshLoop hw (fuel + 1) ps k = runAll (pollTurn hw) ps k :=
      ih (Nat.lt_succ_of_lt fewer)
    unfold nshLoop kbdGeteventbytype runAll pollTurn
    split
    · exact again k
    · rw [bind_assoc, bind_assoc]
      refine bind_congr fun r => ?_
      obtain ⟨r, evt, kbd⟩ := r
      dsimp only
      split
      · show nshTurn hw _ >>= _ = nshTurn hw _ >>= _
        exact bind_congr fun k => ih fewer k
      · exact again _

theorem nsh_eq (ps : List Poll) (k : Globals) :
    nsh hw ps k = runAll (pollTurn hw) ps { k with shell := nshNewline k.shell } :=
  nshLoop_eq hw (Nat.lt_succ_self _) _

end Nulix.Kernel
