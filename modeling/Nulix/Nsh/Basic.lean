import Nulix.Lib.Fallible
import Nulix.Print

/-!
# The shell

The line editor, the tokenizer and the command dispatch of `kernel/nsh/nsh.c`. A pointer into
`nsh_buf` is its distance from the start of the buffer. The functions that the builtin table points to
are a parameter, like the bytes at address 0, where the name of the last table entry points.
-/

namespace Nulix.Nsh

open Fallible Print Screen Strings

/-! ## The builtin table -/

/-- `NSH_BUFSIZE` -/
def nshBufsize : Nat := 1024

/-- The functions that `builtin` points to. -/
inductive BuiltinFn
  | reboot | poweroff | keymap | color | alloc | free | info | clear | hexdump | next | prev | help
  | interrupt
  deriving DecidableEq, Repr

/-- `struct builtin`. A null pointer is `none`. -/
structure Builtin where
  name : Option Text
  exec : Option BuiltinFn

def builtin : List Builtin :=
  [ ⟨text "reboot", BuiltinFn.reboot⟩,
    ⟨text "poweroff", BuiltinFn.poweroff⟩,
    ⟨text "exit", BuiltinFn.poweroff⟩,
    ⟨text "keymap", BuiltinFn.keymap⟩,
    ⟨text "color", BuiltinFn.color⟩,
    ⟨text "alloc", BuiltinFn.alloc⟩,
    ⟨text "free", BuiltinFn.free⟩,
    ⟨text "info", BuiltinFn.info⟩,
    ⟨text "clear", BuiltinFn.clear⟩,
    ⟨text "hexdump", BuiltinFn.hexdump⟩,
    ⟨text "next", BuiltinFn.next⟩,
    ⟨text "prev", BuiltinFn.prev⟩,
    ⟨text "help", BuiltinFn.help⟩,
    ⟨text "interrupt", BuiltinFn.interrupt⟩,
    ⟨none, none⟩ ]

/-! ## State -/

/-- The globals of the shell, and the console it prints to. -/
structure Shell where
  nshBuf : Nat → BitVec 8
  nshCmd : Nat → Option Nat
  nshCmdnarg : Nat
  nshBufindex : Nat
  console : Console

/-- The globals as the kernel starts, on `screens`. -/
def Shell.start (screens : Screens) : Shell where
  nshBuf := fun _ => 0
  nshCmd := fun _ => none
  nshCmdnarg := 0
  nshBufindex := 0
  console := { screens := screens, printed := [] }

/-- What stops the shell. -/
inductive Stuck
  /-- A loop of `nsh_createcmd` that makes no progress. -/
  | createcmd
  /-- An access of `nsh_createcmd` outside `nsh_buf` or `nsh_cmd`. -/
  | bounds
  /-- The call of a null function pointer. -/
  | nullCall
  deriving DecidableEq, Repr

/-- What the shell relies on: the string at address 0 and the builtin functions, called with `argc` and
`argv`. -/
structure Machine where
  atNull : Text
  exec : BuiltinFn → Nat → (Nat → Option Nat) → Shell → Except Stuck Shell

namespace Shell

def print (fmt : Text) (ap : List VaArg) (s : Shell) : Shell :=
  { s with console := kprintf fmt ap s.console }

def onCurrent (f : Display → Display) (s : Shell) : Shell :=
  { s with console := s.console.onCurrent f }

end Shell

/-! ## Prompt -/

/-- `nsh_prompt` -/
def nshPrompt (s : Shell) : Shell :=
  let oldcolor := s.console.getColor
  let s := s.onCurrent (sbSetFg .lightBlue)
  let s := s.print (text "nsh$ ") []
  s.onCurrent (sbSetColor oldcolor)

/-- `sizeof(char *)` -/
def sizeofPointer : Nat := 4

/-- `nsh_newline`. The second `memset` is given a number of bytes. -/
def nshNewline (s : Shell) : Shell :=
  let s := { s with nshBuf := fun i => if i < nshBufsize then 0 else s.nshBuf i }
  let s := { s with nshCmd := fun i => if i < nshBufsize / 2 / sizeofPointer then none else s.nshCmd i }
  nshPrompt { s with nshBufindex := 0, nshCmdnarg := 0 }

/-! ## Commands -/

/-- The cursors of `nsh_createcmd`. -/
structure Createcmd where
  ibuf : Nat
  icmd : Nat
  shell : Shell

/-- `nsh_buf[i]`, inside the array. -/
def Shell.bufAt (s : Shell) (i : Nat) : Except Stuck (BitVec 8) :=
  if i < nshBufsize then .ok (s.nshBuf i) else .error .bounds

/-- `nsh_buf[i] = c`, inside the array. -/
def Shell.setBuf (i : Nat) (c : BitVec 8) (s : Shell) : Except Stuck Shell :=
  if i < nshBufsize then .ok { s with nshBuf := Function.update s.nshBuf i c } else .error .bounds

/-- The number of entries of `nsh_cmd`. -/
def nshCmdsize : Nat := nshBufsize / 2 + 1

/-- `nsh_cmd[i] = nsh_buf + p`, inside the array. -/
def Shell.setCmd (i p : Nat) (s : Shell) : Except Stuck Shell :=
  if i < nshCmdsize then .ok { s with nshCmd := Function.update s.nshCmd i (some p) }
  else .error .bounds

/-- A loop of `nsh_createcmd` that moves `ibuf` on. Inside the buffer it makes at most `NSH_BUFSIZE`
turns. -/
def createcmdSkip (continues : BitVec 8 → Bool) : Nat → Createcmd → Except Stuck Createcmd
  | 0, _ => .error .createcmd
  | fuel + 1, t => do
    let c ← t.shell.bufAt t.ibuf
    if continues c then createcmdSkip continues fuel { t with ibuf := t.ibuf + 1 } else return t

/-- The character is in a word: no space and not the end of the string. -/
def inWord (c : BitVec 8) : Bool := c ≠ 0x20 ∧ c ≠ 0

def isSpace (c : BitVec 8) : Bool := c = 0x20

/-- The body of the outer loop of `nsh_createcmd`. -/
def createcmdTurn (t : Createcmd) : Except Stuck Createcmd := do
  let c ← t.shell.bufAt t.ibuf
  if inWord c then
    let shell ← t.shell.setCmd t.icmd t.ibuf
    createcmdSkip inWord (nshBufsize + 1) { t with icmd := t.icmd + 1, shell := shell }
  else if isSpace c then
    let shell ← t.shell.setBuf t.ibuf 0
    createcmdSkip isSpace (nshBufsize + 1) { t with ibuf := t.ibuf + 1, shell := shell }
  else return t

/-- `nsh_createcmd` -/
def nshCreatecmd (s : Shell) : Except Stuck Shell := do
  let t ← whileLoop .createcmd (fun t => t.ibuf < t.shell.nshBufindex) createcmdTurn (nshBufsize + 1)
    { ibuf := 0, icmd := 0, shell := s }
  return { t.shell with nshCmdnarg := t.icmd }

/-- `strcmp` (lib/string/str.c) -/
def strcmp : Text → Text → Int
  | c1 :: s1, c2 :: s2 => if c1 = c2 then strcmp s1 s2 else c1.toInt - c2.toInt
  | s1, s2 => (s1.headD 0).toInt - (s2.headD 0).toInt

/-- The string at `p`, up to the end of the buffer. -/
def Shell.word (s : Shell) (p : Nat) : Text := contents (fun i => s.nshBuf (p + i)) (nshBufsize - p)

/-- The loop of `nsh_execcmd`, and the message after it. -/
def nshExeccmdFrom (machine : Machine) (word : Text) (s : Shell) : List Builtin → Except Stuck Shell
  | [] => .ok (s.print (text "nsh: %s: command not found\n") [.str word])
  | b :: bs =>
    if strcmp word (b.name.getD machine.atNull) = 0 then
      match b.exec with
      | some f => machine.exec f s.nshCmdnarg s.nshCmd s
      | none => .error .nullCall
    else nshExeccmdFrom machine word s bs

/-- `nsh_execcmd`. Its loop runs over the whole table, the last entry included. -/
def nshExeccmd (machine : Machine) (s : Shell) : Except Stuck Shell :=
  match s.nshCmd 0 with
  | none => .ok s
  | some p => nshExeccmdFrom machine (s.word p) s builtin

/-! ## Input -/

/-- The first loop of the completion, on the pointers `p` and `q`. -/
def nshMatch (buf : Nat → BitVec 8) : Nat → Text → Nat × Text
  | p, [] => (p, [])
  | p, c :: q => if buf p ≠ 0 ∧ buf p = c then nshMatch buf (p + 1) q else (p, c :: q)

/-- `nsh_buf[nsh_bufindex++] = c` -/
def Shell.append (c : BitVec 8) (s : Shell) : Shell :=
  { s with nshBuf := Function.update s.nshBuf s.nshBufindex c, nshBufindex := s.nshBufindex + 1 }

/-- The last loop of the completion. -/
def nshFill : Text → Shell → Shell
  | [], s => s
  | c :: q, s => if s.nshBufindex < nshBufsize then nshFill q (s.append c) else s

/-- The body of the completion, for one builtin name. -/
def nshComplete (name : Text) (s : Shell) : Shell :=
  let (p, q) := nshMatch s.nshBuf 0 name
  if s.nshBuf p = 0 ∧ q ≠ [] then nshFill q (s.print (text "%s") [.str q]) else s

/-- The completion, which stops at the entry without a name. -/
def nshCompletions : List Builtin → Shell → Shell
  | [], s => s
  | b :: bs, s =>
    match b.name with
    | none => s
    | some name => nshCompletions bs (nshComplete name s)

/-- `nsh_addchar` -/
def nshAddchar (machine : Machine) (c : BitVec 8) (s : Shell) : Except Stuck Shell := do
  let s := s.onCurrent sbScrollDown
  if c = 0x0a then
    let s := s.print (text "\n") []
    let s ←
      if s.nshBufindex ≠ 0 then
        let s ← nshCreatecmd s
        nshExeccmd machine s
      else .ok s
    return nshNewline s
  else if c = 0x08 then
    if s.nshBufindex > 0 then
      let s := { s with nshBufindex := s.nshBufindex - 1 }
      let s := { s with nshBuf := Function.update s.nshBuf s.nshBufindex 0 }
      return s.print (text "\x08") []
    else return s
  else if c = 0x09 then
    if s.nshBufindex = 0 then return s else return nshCompletions builtin s
  else if s.nshBufindex < nshBufsize - 1 then
    return (s.append c).print (text "%c") [.int (c.signExtend 32)]
  else return s

end Nulix.Nsh
