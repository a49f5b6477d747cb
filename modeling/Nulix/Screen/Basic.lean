import Nulix.Lib.Words
import Mathlib.Logic.Function.Basic

/-!
# The screen buffer

The circular buffer of `kernel/screenbuf.c` and the VGA text display that shows a window of it. A
pointer into `buf` is its distance from `buf` in cells, and the cells around `buf` are part of the
model, so that a store outside the buffer is a store to some other cell and not an error.
-/

namespace Nulix.Screen

open Words

/-! ## Constants -/

abbrev Cell := BitVec 16

def vgaWidth : Int := 80

def vgaHeight : Int := 25

def sbHeight : Int := vgaHeight * 8

def tabsize : Nat := 4

inductive SbColor
  | black | blue | green | cyan | red | magenta | brown | lightGrey
  | darkGrey | lightBlue | lightGreen | lightCyan | lightRed | lightMagenta | lightBrown | white
  deriving DecidableEq, Repr

/-- The value of the enumerator. -/
def SbColor.value : SbColor → BitVec 8
  | black => 0 | blue => 1 | green => 2 | cyan => 3 | red => 4 | magenta => 5 | brown => 6
  | lightGrey => 7 | darkGrey => 8 | lightBlue => 9 | lightGreen => 10 | lightCyan => 11
  | lightRed => 12 | lightMagenta => 13 | lightBrown => 14 | white => 15

/-- `SB_DFL_COLOR` -/
def sbDflColor : BitVec 8 := SbColor.black.value <<< 4 ||| SbColor.white.value

/-- `SB_WHITESPACE` -/
def sbWhitespace : Cell := sbDflColor.setWidth 16 <<< 8

/-- `SB_CURSOR_PORT1` -/
def sbCursorPort1 : Nat := 0x3D4

/-- `SB_CURSOR_PORT2` -/
def sbCursorPort2 : Nat := 0x3D5

/-! ## State -/

/-- `struct screenbuf`. Its `endbuf` is `endbuf` below from `sb_init` on. The last field is not in
the source: it records, since `sb_init`, every index that was written through
`cursor + cursor_offset`. -/
structure Screenbuf where
  top : Int
  viewport : Int
  cursor : Int
  cursorOffset : Nat
  color : BitVec 8
  loaded : Bool
  buf : Int → Cell
  stored : List Int

/-- The pointer one past the last cell of `buf`. -/
def endbuf : Int := vgaWidth * sbHeight

/-- The display: the cells from `VGA_PTR` on, the registers of the cursor controller with its index
register, and the bytes sent to the two cursor ports, the latest first. -/
structure Vga where
  cells : Int → Cell
  index : BitVec 8
  regs : BitVec 8 → BitVec 8
  sent : List (Nat × BitVec 8)

/-- A screen buffer as it is in zeroed memory. -/
def Screenbuf.zero : Screenbuf where
  top := 0
  viewport := 0
  cursor := 0
  cursorOffset := 0
  color := 0
  loaded := false
  buf := fun _ => 0
  stored := []

def Vga.zero : Vga where
  cells := fun _ => 0
  index := 0
  regs := fun _ => 0
  sent := []

/-- A screen buffer and the display. -/
structure Display where
  sb : Screenbuf
  vga : Vga

/-! ## The hardware cursor -/

/-- `port_write_u8` on the cursor ports: the first one selects a register, the second one sets it. -/
def portWriteU8 (port : Nat) (val : BitVec 8) (vga : Vga) : Vga :=
  let vga := { vga with sent := (port, val) :: vga.sent }
  if port = sbCursorPort1 then { vga with index := val }
  else if port = sbCursorPort2 then
    { vga with regs := Function.update vga.regs vga.index val }
  else vga

/-- `port_read_u8` on the second cursor port. -/
def portReadU8 (vga : Vga) : BitVec 8 := vga.regs vga.index

def cursorEnable (vga : Vga) : Vga :=
  let vga := portWriteU8 sbCursorPort1 0x0a vga
  let cstart := portReadU8 vga &&& 0xc0
  let vga := portWriteU8 sbCursorPort2 (cstart ||| 0) vga
  let vga := portWriteU8 sbCursorPort1 0x0b vga
  let cend := portReadU8 vga &&& 0xe0
  portWriteU8 sbCursorPort2 (cend ||| 15) vga

def cursorDisable (vga : Vga) : Vga :=
  portWriteU8 sbCursorPort2 0x20 (portWriteU8 sbCursorPort1 0x0a vga)

/-- `cursor_update`. Its parameter is a `uint32_t`. -/
def cursorUpdate (pos : Int) (vga : Vga) : Vga :=
  let word : Nat := (pos % 2 ^ 32).toNat
  if word < vgaWidth * sbHeight then
    let vga := cursorEnable vga
    let vga := portWriteU8 sbCursorPort1 0x0f vga
    let vga := portWriteU8 sbCursorPort2 (BitVec.ofNat 8 (word &&& 0xff)) vga
    let vga := portWriteU8 sbCursorPort1 0x0e vga
    portWriteU8 sbCursorPort2 (BitVec.ofNat 8 ((word >>> 8) &&& 0xff)) vga
  else cursorDisable vga

/-! ## Cells and pointers -/

def abs (x : Int) : Int := if x < 0 then -x else x

/-- `sb_memset` -/
def sbMemset (ptr : Int) (word : Cell) : Nat → (Int → Cell) → Int → Cell
  | 0, cells => cells
  | n + 1, cells => sbMemset (ptr + 1) word n (Function.update cells ptr word)

/-- `memcpy` of `n` cells. -/
def memcpyCells (dst : Int → Cell) (dstPtr : Int) (src : Int → Cell) (srcPtr : Int) (n : Nat) :
    Int → Cell :=
  fun i => if dstPtr ≤ i ∧ i < dstPtr + n then src (srcPtr + (i - dstPtr)) else dst i

/-- `sb_diff` -/
def sbDiff (a b : Int) : Int := if a ≤ b then b - a else endbuf - a + b

/-- `sb_ldiff`. C division truncates. -/
def sbLdiff (a b : Int) : Int := (sbDiff a b).tdiv vgaWidth

/-- The first loop of `sb_addline`. -/
def sbAddlineDown : Nat → Int → Int
  | 0, newpos => newpos
  | fuel + 1, newpos => if endbuf ≤ newpos then sbAddlineDown fuel (newpos - endbuf) else newpos

/-- The second loop of `sb_addline`. -/
def sbAddlineUp : Nat → Int → Int
  | 0, newpos => newpos
  | fuel + 1, newpos => if newpos < 0 then sbAddlineUp fuel (newpos + endbuf) else newpos

/-- `sb_addline`. Each loop moves the pointer by `endbuf` cells per turn, so it makes no more turns
than the pointer is cells away from `buf`. -/
def sbAddline (a n : Int) : Int :=
  let newpos := a + n * vgaWidth
  let newpos := sbAddlineDown newpos.natAbs newpos
  sbAddlineUp newpos.natAbs newpos

/-! ## Showing a buffer -/

/-- `sb_init` -/
def sbInit (sb : Screenbuf) : Screenbuf :=
  let sb := { sb with top := 0, viewport := 0, cursor := 0, cursorOffset := 0 }
  let sb := { sb with buf := sbMemset 0 sbWhitespace endbuf.toNat sb.buf }
  let sb := { sb with color := sbDflColor, loaded := false, stored := [] }
  { sb with buf := sbMemset 0 sbWhitespace endbuf.toNat sb.buf }

/-- The copying loop of `sb_sync`, before turn `i`. -/
def sbSyncRows (sb : Screenbuf) (cells : Int → Cell) : Nat → Int → Cell
  | 0 => cells
  | i + 1 => memcpyCells (sbSyncRows sb cells i) (i * vgaWidth) sb.buf (sbAddline sb.viewport i)
      vgaWidth.toNat

/-- `sb_sync` -/
def sbSync (d : Display) : Display :=
  if d.sb.loaded then
    let vga := { d.vga with cells := sbSyncRows d.sb d.vga.cells vgaHeight.toNat }
    let pos := sbDiff d.sb.viewport d.sb.cursor + d.sb.cursorOffset
    { d with vga := cursorUpdate pos vga }
  else d

def sbLoad (d : Display) : Display := sbSync { d with sb := { d.sb with loaded := true } }

def sbUnload (d : Display) : Display := { d with sb := { d.sb with loaded := false } }

/-! ## Colors -/

def sbSetColor (color : BitVec 8) (d : Display) : Display :=
  { d with sb := { d.sb with color := color } }

def sbSetFg (fg : SbColor) (d : Display) : Display :=
  { d with sb := { d.sb with color := (d.sb.color &&& 0xf0) ||| (fg.value &&& 0x0f) } }

def sbSetBg (bg : SbColor) (d : Display) : Display :=
  { d with sb := { d.sb with color := ((bg.value <<< 4) &&& 0xf0) ||| (d.sb.color &&& 0x0f) } }

def sbGetColor (d : Display) : BitVec 8 := d.sb.color

/-! ## Scrolling -/

def sbScrollTop (d : Display) : Display :=
  sbSync { d with sb := { d.sb with viewport := d.sb.top } }

def sbScrollDown (d : Display) : Display :=
  if sbLdiff d.sb.viewport d.sb.cursor > vgaHeight then
    sbSync { d with sb :=
      { d.sb with viewport := d.sb.cursor - vgaWidth * (vgaHeight - 1) } }
  else d

/-- The `lines_room` of `sb_scroll`. -/
def sbLinesRoom (sb : Screenbuf) (n : Int) : Int :=
  if n < 0 then sbLdiff sb.top sb.viewport
  else sbLdiff sb.viewport sb.cursor - (vgaHeight - 1)

def sbScroll (n : Int) (d : Display) : Display :=
  if sbLinesRoom d.sb n ≥ abs n then
    sbSync { d with sb := { d.sb with viewport := sbAddline d.sb.viewport n } }
  else if n < 0 then sbScrollTop d
  else sbScrollDown d

/-! ## Writing -/

/-- `*(sb->cursor + sb->cursor_offset) = word` -/
def Screenbuf.store (sb : Screenbuf) (word : Cell) : Screenbuf :=
  { sb with
    buf := Function.update sb.buf (sb.cursor + sb.cursorOffset) word
    stored := (sb.cursor + sb.cursorOffset) :: sb.stored }

/-- `cursor_offset++`, on an unsigned short. -/
def Screenbuf.incOffset (sb : Screenbuf) : Screenbuf :=
  { sb with cursorOffset := u16 (sb.cursorOffset + 1) }

/-- `cursor_offset--` -/
def Screenbuf.decOffset (sb : Screenbuf) : Screenbuf :=
  { sb with cursorOffset := u16 (sb.cursorOffset + (2 ^ 16 - 1)) }

/-- `sb_write_word` -/
def sbWriteWord (word : Cell) (d : Display) : Display :=
  let sb := d.sb.store word
  if sb.loaded then
    let diff := sbDiff sb.viewport sb.cursor
    if diff.tdiv vgaWidth < vgaHeight then
      { sb := sb
        vga := { d.vga with
          cells := Function.update d.vga.cells (diff + sb.cursorOffset) word } }
    else { d with sb := sb }
  else { d with sb := sb }

/-- The first three statements of `sb_crlf`. -/
def Screenbuf.openRow (sb : Screenbuf) : Screenbuf :=
  let sb := { sb with cursorOffset := 0, cursor := sbAddline sb.cursor 1 }
  { sb with buf := sbMemset sb.cursor sbWhitespace vgaWidth.toNat sb.buf }

/-- The first conditional of `sb_crlf`. -/
def sbCrlfTop (d : Display) : Display :=
  if d.sb.cursor = d.sb.top then
    let d := if d.sb.viewport = d.sb.top then
        sbSync { d with sb := { d.sb with viewport := sbAddline d.sb.top 1 } }
      else d
    { d with sb := { d.sb with top := sbAddline d.sb.top 1 } }
  else d

/-- `sb_crlf` -/
def sbCrlf (d : Display) : Display :=
  let d := sbCrlfTop { d with sb := d.sb.openRow }
  if sbLdiff d.sb.viewport d.sb.cursor = vgaHeight then sbScroll 1 d else d

/-- The loop of `sb_backspace`, which makes at most `VGA_WIDTH` turns. -/
def sbBackspaceSkip : Nat → Screenbuf → Screenbuf
  | 0, sb => sb
  | fuel + 1, sb =>
    if sb.cursorOffset < vgaWidth ∧ sb.buf (sb.cursor + sb.cursorOffset) ≠ sbWhitespace then
      sbBackspaceSkip fuel sb.incOffset
    else sb

/-- The conditional of `sb_backspace` after its early return: at column 0 the cursor goes back to the
end of the row before. -/
def sbBackspaceRow (d : Display) : Display :=
  if d.sb.cursorOffset = 0 then
    let d := if d.sb.viewport = d.sb.cursor then sbScroll (-1) d else d
    let sb := { d.sb with cursorOffset := 0, cursor := sbAddline d.sb.cursor (-1) }
    { d with sb := sbBackspaceSkip vgaWidth.toNat sb }
  else d

/-- `sb_backspace` -/
def sbBackspace (d : Display) : Display :=
  if d.sb.cursorOffset = 0 ∧ d.sb.cursor = d.sb.top then d
  else
    let d := sbBackspaceRow d
    sbWriteWord sbWhitespace { d with sb := d.sb.decOffset }

/-- The cell of character code `c` in the current color. -/
def Screenbuf.cell (sb : Screenbuf) (c : Cell) : Cell := c ||| sb.color.setWidth 16 <<< 8

/-- The loop of `sb_tabulation`. The offset goes through all residues modulo `TABSIZE`, so it makes
at most `TABSIZE` turns. -/
def sbTabulationLoop : Nat → Display → Display
  | 0, d => d
  | fuel + 1, d =>
    let d := sbWriteWord (d.sb.cell 0) d
    let d := { d with sb := d.sb.incOffset }
    if d.sb.cursorOffset % tabsize ≠ 0 ∧ d.sb.cursorOffset < vgaWidth then
      sbTabulationLoop fuel d
    else d

/-- `sb_tabulation` -/
def sbTabulation (d : Display) : Display :=
  let d := sbTabulationLoop tabsize d
  if d.sb.cursorOffset = vgaWidth then sbCrlf d else d

/-- `(uint16_t)(c) | (uint16_t)(sb->color << 8)`, where `char` is signed. -/
def sbRegularCell (sb : Screenbuf) (c : BitVec 8) : Cell := sb.cell (c.signExtend 16)

/-- `sb_regular` -/
def sbRegular (c : BitVec 8) (d : Display) : Display :=
  let sb := (d.sb.store (sbRegularCell d.sb c)).incOffset
  let d := if sb.loaded then
      let diff := sbDiff sb.viewport sb.cursor
      { sb := sb
        vga := { d.vga with
          cells := memcpyCells d.vga.cells (diff + sb.cursorOffset - 1) sb.buf
            (sb.cursor + sb.cursorOffset - 1) 1 } }
    else { d with sb := sb }
  if d.sb.cursorOffset = vgaWidth then sbCrlf d else d

/-- The switch of `sb_putchar`. -/
def sbPutcharSwitch (c : BitVec 8) (d : Display) : Display :=
  if c = 0x0a then sbCrlf d
  else if c = 0x09 then sbTabulation d
  else if c = 0x08 then sbBackspace d
  else sbRegular c d

/-- `sb_putchar` -/
def sbPutchar (c : BitVec 8) (d : Display) : Display :=
  let d := sbPutcharSwitch c d
  let newpos := sbDiff d.sb.viewport d.sb.cursor + d.sb.cursorOffset
  { d with vga := cursorUpdate newpos d.vga }

/-- `sb_putstr`, on the characters before the terminating zero. -/
def sbPutstr : List (BitVec 8) → Display → Display
  | [], d => d
  | c :: s, d => sbPutstr s (sbPutchar c d)

/-- `sb_clear` -/
def sbClear (d : Display) : Display :=
  let sb := { d.sb with top := 0, viewport := 0, cursor := 0, cursorOffset := 0 }
  sbSync { d with sb := { sb with buf := sbMemset 0 sbWhitespace endbuf.toNat sb.buf } }

end Nulix.Screen
