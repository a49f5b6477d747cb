import Nulix.Keyboard.Keymaps
import Nulix.Kpm.Basic
import Nulix.Lib.Effects
import Nulix.Nsh.Basic
import Nulix.Std.Basic

/-!
# The builtin functions

The functions of `kernel/nsh/builtins`, as programs that ask for the strings of `argv` and for the services
of the kernel. Every access of `argv` in the source is an operation of its own.
-/

namespace Nulix.Nsh

open Effects Keyboard Kpm Nulix.Std Print Screen

/-! ## Operations -/

inductive BuiltinOp
  /-- The string `argv[j]`. -/
  | argv (j : Nat)
  | kprintf (fmt : Text) (ap : List VaArg)
  | screens (op : ScreensOp)
  | allocLoop (size : Nat)
  | kpmFree (chunk : KpmChunk)
  | hxPrint (base size : Nat)
  | infoGdt
  | infoStack
  | infoIdt
  | infoRegisters
  | infoBuddy (order : Int)
  | kbdSetkeymap (layout : Layout)
  /-- The instruction `int`. -/
  | int (n : Nat)
  /-- The wait of `reboot` until the input buffer of the controller is empty. -/
  | waitInput
  | portWriteU8 (port : Nat) (value : BitVec 8)
  | portWriteU16 (port : Nat) (value : BitVec 16)
  | hlt
  /-- What stops a parser. -/
  | fault (e : StrtoFault)

abbrev BuiltinOp.Answer : BuiltinOp → Type
  | argv _ => Text
  | allocLoop _ => Int
  | fault _ => Empty
  | _ => Unit

abbrev BuiltinM := Prog BuiltinOp BuiltinOp.Answer

namespace Builtin

def call (op : BuiltinOp) : BuiltinM op.Answer := Prog.call op

def argv (j : Nat) : BuiltinM Text := call (.argv j)

def kprintf (fmt : Text) (ap : List VaArg) : BuiltinM Unit := call (.kprintf fmt ap)

/-- A call on `sb_current`. -/
def onCurrent (op : SbOp) : BuiltinM Unit := call (.screens (.current op))

/-- A call of a parser on a string: its result and the index that it stores in `ptr`. -/
def parsed (result : Except StrtoFault (BitVec 32 × Nat)) : BuiltinM (BitVec 32 × Nat) :=
  match result with
  | .ok r => pure r
  | .error e => do
    let none : Empty ← call (.fault e)
    none.elim

/-- `!strcmp(argv[j], s)` -/
def argvIs (j : Nat) (s : Text) : BuiltinM Bool := do
  let w ← argv j
  return strcmp w s = 0

/-! ## Memory -/

/-- `alloc` -/
def alloc (argc : Int) : BuiltinM Int := do
  if argc < 2 then
    kprintf (text "Usage: alloc size\n") []
    return -1
  else
    let w ← argv 1
    let (size, ptr) ← parsed (strtol w 0)
    if w.getD ptr 0 ≠ 0 ∨ size.slt 0 then
      kprintf (text "alloc: Size not well formatted.\n") []
      return -1
    else
      kprintf (text "Asked for allocation of %d bytes\n") [.int size]
      let result : Int ← call (.allocLoop size.toNat)
      if result = -1 then
        kprintf (text "Failed to allocate memory area.\n") []
        return 0
      else return 0

/-- `kpm_free(&chunk); return 0;` -/
def freeChunk (chunk : KpmChunk) : BuiltinM Int := do
  call (.kpmFree chunk)
  return 0

/-- `free`, from its third test on. -/
def freeSized (addr : BitVec 32) : BuiltinM Int := do
  let w ← argv 2
  let (size, ptr) ← parsed (strtol w 0)
  if w.getD ptr 0 ≠ 0 ∨ size.slt 0 then
    kprintf (text "free: Size not well formatted.\n") []
    return -1
  else freeChunk { addr := addr.toNat, size := size.toNat }

/-- `free` -/
def free (argc : Int) : BuiltinM Int := do
  if argc < 2 then
    kprintf (text "Usage: free size\n") []
    return -1
  else
    let w ← argv 1
    let (addr, ptr) ← parsed (strtol w 0)
    if w.getD ptr 0 ≠ 0 then
      kprintf (text "free: Address not well formatted.\n") []
      return -1
    else
      let w ← argv 1
      if w.getD 0 0 = 0x2d then
        kprintf (text "free: Address not well formatted.\n") []
        return -1
      else freeSized addr

/-- `hexdump` -/
def hexdump (argc : Int) : BuiltinM Int := do
  if argc < 3 then
    kprintf (text "Usage: hexdump address size\n") []
    return -1
  else
    let w ← argv 1
    let (addr, ptr) ← parsed (strtoul w 0)
    if w.getD ptr 0 ≠ 0 then
      kprintf (text "hexdump: Address not well formated.\n") []
      return -1
    else
      let w ← argv 2
      let (size, ptr) ← parsed (strtoul w 0)
      if w.getD ptr 0 ≠ 0 then
        kprintf (text "hexdump: Size not well formated.\n") []
        return -1
      else
        call (.hxPrint addr.toNat size.toNat)
        return 0

/-! ## Information -/

/-- `info buddy` -/
def infoBuddy (argc : Int) : BuiltinM Int := do
  if argc > 2 then
    let w ← argv 2
    let (order, ptr) ← parsed (strtol w 0)
    if w.getD ptr 0 ≠ 0 ∨ order.slt 0 ∨ order.toInt ≥ kpmNorders then
      kprintf (text "info: order number not formatted correctly\n") []
      return -1
    else
      call (.infoBuddy order.toInt)
      return 0
  else
    call (.infoBuddy (-1))
    return 0

/-- `info` -/
def info (argc : Int) : BuiltinM Int := do
  if argc < 2 then
    kprintf (text "Usage: info [gdt/idt/stack/buddy/registers]\n") []
    return -1
  else if ← argvIs 1 (text "gdt") then
    call .infoGdt
    return 0
  else if ← argvIs 1 (text "stack") then
    call .infoStack
    return 0
  else if ← argvIs 1 (text "buddy") then infoBuddy argc
  else if ← argvIs 1 (text "idt") then
    call .infoIdt
    return 0
  else if ← argvIs 1 (text "registers") then
    call .infoRegisters
    return 0
  else
    let w ← argv 1
    kprintf (text "info: '%s' doesn't exist.\n") [.str w]
    return -1

/-- The loop of `help` over the commands and their descriptions. -/
def helpFrom : List (Option Text × Text) → BuiltinM Int
  | [] => return 0
  | (none, _) :: _ => return 0
  | (some name, description) :: rest => do
    kprintf (text "-> %s: %s\n") [.str name, .str description]
    helpFrom rest

/-- The descriptions of the entries of `builtin`, as far as they have one. -/
def descriptions : List Text :=
  [ text "Reboot the machine",
    text "Power-off the machine",
    text "Alias of 'poweroff'",
    text "Switch keyboard layout",
    text "Change the screen buffer color",
    text "Allocate a memory area",
    text "Free a given memory area",
    text "Print some information about system",
    text "Clear the screen buffer",
    text "Dump a memory zone",
    text "Switch to next screen buffer",
    text "Switch to prev screen buffer",
    text "Print help",
    text "Raise an interrupt" ]

/-- `help` -/
def help : BuiltinM Int := do
  kprintf (text "KFS - available commands:\n") []
  helpFrom ((builtin.map Builtin.name).zip descriptions)

/-! ## Screens -/

def colors : List (Text × SbColor) :=
  [ (text "black", .black),
    (text "blue", .blue),
    (text "green", .green),
    (text "cyan", .cyan),
    (text "red", .red),
    (text "magenta", .magenta),
    (text "brown", .brown),
    (text "lightgrey", .lightGrey),
    (text "darkgrey", .darkGrey),
    (text "lightblue", .lightBlue),
    (text "lightgreen", .lightGreen),
    (text "lightcyan", .lightCyan),
    (text "lightred", .lightRed),
    (text "lightmagenta", .lightMagenta),
    (text "lightbrown", .lightBrown),
    (text "white", .white) ]

/-- The loops of `color`, and the message after them. -/
def colorFrom (set : SbColor → SbOp) : List (Text × SbColor) → BuiltinM Int
  | [] => do
    let w ← argv 2
    kprintf (text "color: '%s' unknown color.\n") [.str w]
    return -1
  | (name, color) :: rest => do
    let w ← argv 2
    if strcmp name w = 0 then
      onCurrent (set color)
      return 0
    else colorFrom set rest

def colorUsage : BuiltinM Int := do
  kprintf (text "Usage: color fg/bg COLOR\n") []
  kprintf (text "       color reset\n") []
  return -1

/-- `color` -/
def color (argc : Int) : BuiltinM Int := do
  if argc < 2 then colorUsage
  else if ← argvIs 1 (text "reset") then
    onCurrent (.setColor sbDflColor)
    return -1
  else if argc < 3 then colorUsage
  else if ← argvIs 1 (text "fg") then colorFrom .setFg colors
  else if ← argvIs 1 (text "bg") then colorFrom .setBg colors
  else
    let w ← argv 1
    kprintf (text "color: '%s' unknown command.\n") [.str w]
    return -1

/-- `clear` -/
def clear : BuiltinM Int := do
  onCurrent .clear
  return 0

/-- `next` -/
def next : BuiltinM Int := do
  call (.screens .next)
  return 0

/-- `prev` -/
def prev : BuiltinM Int := do
  call (.screens .prev)
  return 0

/-! ## Devices -/

/-- The layouts of `keymap`, before the null entry. -/
def layouts : List (Text × Layout) := [(text "us", .us104), (text "fr", .fr)]

/-- The loop of `keymap list`. -/
def keymapList : List (Text × Layout) → BuiltinM Int
  | [] => return -1
  | (name, _) :: rest => do
    kprintf (text "- %s\n") [.str name]
    keymapList rest

/-- The other loop of `keymap`, and the message after it. -/
def keymapFrom : List (Text × Layout) → BuiltinM Int
  | [] => do
    let w ← argv 1
    kprintf (text "keymap: Layout '%s' not found.\n") [.str w]
    return -1
  | (name, layout) :: rest => do
    if ← argvIs 1 name then
      call (.kbdSetkeymap layout)
      return 0
    else keymapFrom rest

/-- `keymap` -/
def keymap (argc : Int) : BuiltinM Int := do
  if argc < 2 then
    kprintf (text "Usage: keymap LAYOUT\n") []
    kprintf (text "       keymap list\n") []
    return -1
  else if ← argvIs 1 (text "list") then
    kprintf (text "Layout:\n") []
    keymapList layouts
  else keymapFrom layouts

/-- `interrupt` -/
def interrupt (argc : Int) : BuiltinM Int := do
  if argc < 2 then
    kprintf (text "Usage: interrupt int\n") []
    return -1
  else
    let w ← argv 1
    let (interrupt, ptr) ← parsed (strtol w 0)
    if w.getD ptr 0 ≠ 0 then
      kprintf (text "interrupt: interrupt number not well formated.\n") []
      return -1
    else if interrupt = 0 ∨ interrupt = 4 ∨ interrupt = 8 then
      call (.int interrupt.toNat)
      return 0
    else
      kprintf (text "interrupt: interrupt number '%d' not implemented.\n") [.int interrupt]
      return 0

/-- `PS2_STATUS_COMMAND_PORT` -/
def ps2StatusCommandPort : Nat := 0x64

/-- `CPU_RESET` -/
def cpuReset : BitVec 8 := 0xFE

/-- `reboot` -/
def reboot : BuiltinM Int := do
  call .waitInput
  call (.portWriteU8 ps2StatusCommandPort cpuReset)
  call .hlt
  return 0

/-- `poweroff` -/
def poweroff : BuiltinM Int := do
  call (.portWriteU16 0x604 0x2000)
  call .hlt
  return 0

end Builtin

/-- The function that an entry of `builtin` points to, called with `argc`. -/
def BuiltinFn.program (argc : Int) : BuiltinFn → BuiltinM Int
  | reboot => Builtin.reboot
  | poweroff => Builtin.poweroff
  | keymap => Builtin.keymap argc
  | color => Builtin.color argc
  | alloc => Builtin.alloc argc
  | free => Builtin.free argc
  | info => Builtin.info argc
  | clear => Builtin.clear
  | hexdump => Builtin.hexdump argc
  | next => Builtin.next
  | prev => Builtin.prev
  | help => Builtin.help
  | interrupt => Builtin.interrupt argc

end Nulix.Nsh
