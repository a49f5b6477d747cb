import Nulix.Screen.Basic
import Nulix.Lib.Runs
import Mathlib.Tactic.SplitIfs

/-!
# What the screen operations do to the buffer

The evaluation of the pointer arithmetic, and for every operation of `screenbuf.c` one equation that
gives the screen buffer after it in terms of the one before. None of them mentions the display, and
the three kinds of state that the operations act on separate: scrolling moves only the viewport,
storing a character changes one cell, and a new row moves the pointers.
-/

namespace Nulix.Screen

open Words

@[simp] theorem vgaWidth_eq : vgaWidth = 80 := rfl

@[simp] theorem vgaHeight_eq : vgaHeight = 25 := rfl

@[simp] theorem endbuf_eq : endbuf = 16000 := rfl

theorem endbuf_toNat : endbuf.toNat = 16000 := rfl

theorem vgaHeight_toNat : vgaHeight.toNat = 25 := rfl

/-! ## Pointers -/

theorem sbAddlineDown_eq {fuel : Nat} {p : Int} (enough : p.natAbs ≤ fuel) :
    sbAddlineDown fuel p = if 0 ≤ p then p % 16000 else p := by
  induction fuel generalizing p with
  | zero =>
    obtain rfl : p = 0 := by omega
    rfl
  | succ fuel ih =>
    unfold sbAddlineDown
    rw [endbuf_eq]
    split_ifs with above nonneg
    · rw [ih (by omega), if_pos (by omega)]
      omega
    · omega
    · omega
    · rfl

theorem sbAddlineUp_eq {fuel : Nat} {p : Int} (enough : p.natAbs ≤ fuel) (below : p < 16000) :
    sbAddlineUp fuel p = p % 16000 := by
  induction fuel generalizing p with
  | zero =>
    obtain rfl : p = 0 := by omega
    rfl
  | succ fuel ih =>
    unfold sbAddlineUp
    rw [endbuf_eq]
    split_ifs with negative
    · by_cases last : -16000 ≤ p
      · -- one more turn leaves the pointer inside the buffer
        cases fuel with
        | zero =>
          simp only [sbAddlineUp]
          omega
        | succ fuel =>
          rw [sbAddlineUp, if_neg (by omega)]
          omega
      · rw [ih (by omega) (by omega)]
        omega
    · omega

/-- `sb_addline` goes `n` rows on around the buffer. -/
theorem sbAddline_eq (a n : Int) : sbAddline a n = (a + n * 80) % 16000 := by
  rw [sbAddline, vgaWidth_eq, sbAddlineDown_eq le_rfl, sbAddlineUp_eq le_rfl]
  · split_ifs <;> omega
  · split_ifs <;> omega

theorem sbLdiff_of_nonneg {a b : Int} (nonneg : 0 ≤ sbDiff a b) :
    sbLdiff a b = sbDiff a b / 80 := by
  rw [sbLdiff, vgaWidth_eq, Int.tdiv_eq_ediv_of_nonneg nonneg]

/-! ## Cells -/

theorem sbMemset_apply (ptr : Int) (word : Cell) (n : Nat) (cells : Int → Cell) (i : Int) :
    sbMemset ptr word n cells i = if ptr ≤ i ∧ i < ptr + n then word else cells i := by
  induction n generalizing ptr cells with
  | zero =>
    rw [sbMemset, if_neg (by omega)]
  | succ n ih =>
    rw [sbMemset, ih, Function.update_apply]
    push_cast
    split_ifs <;> first | rfl | omega

theorem sbInit_buf (sb : Screenbuf) {i : Int} (low : 0 ≤ i) (high : i < 16000) :
    (sbInit sb).buf i = sbWhitespace := by
  rw [sbInit, endbuf_toNat]
  dsimp only
  rw [sbMemset_apply, if_pos ⟨low, by omega⟩]

/-! ## The hardware cursor -/

@[simp] theorem portWriteU8_cells (port : Nat) (val : BitVec 8) (vga : Vga) :
    (portWriteU8 port val vga).cells = vga.cells := by
  unfold portWriteU8
  split_ifs <;> rfl

@[simp] theorem cursorEnable_cells (vga : Vga) : (cursorEnable vga).cells = vga.cells := by
  simp only [cursorEnable, portWriteU8_cells]

@[simp] theorem cursorDisable_cells (vga : Vga) : (cursorDisable vga).cells = vga.cells := by
  simp only [cursorDisable, portWriteU8_cells]

@[simp] theorem cursorUpdate_cells (pos : Int) (vga : Vga) :
    (cursorUpdate pos vga).cells = vga.cells := by
  simp only [cursorUpdate]
  split
  · simp only [portWriteU8_cells, cursorEnable_cells]
  · exact cursorDisable_cells vga

/-! ## Scrolling -/

@[simp] theorem sbSync_sb (d : Display) : (sbSync d).sb = d.sb := by
  unfold sbSync
  split_ifs <;> rfl

/-- The viewport after `sb_scroll_down`. -/
def Screenbuf.bottom (sb : Screenbuf) : Int :=
  if sbLdiff sb.viewport sb.cursor > 25 then sb.cursor - 1920 else sb.viewport

/-- The viewport after `sb_scroll`. -/
def Screenbuf.scrolled (sb : Screenbuf) (n : Int) : Int :=
  if sbLinesRoom sb n ≥ abs n then sbAddline sb.viewport n
  else if n < 0 then sb.top
  else sb.bottom

@[simp] theorem sbScrollTop_sb (d : Display) :
    (sbScrollTop d).sb = { d.sb with viewport := d.sb.top } := by
  rw [sbScrollTop, sbSync_sb]

@[simp] theorem sbScrollDown_sb (d : Display) :
    (sbScrollDown d).sb = { d.sb with viewport := d.sb.bottom } := by
  unfold sbScrollDown Screenbuf.bottom
  rw [vgaHeight_eq]
  split_ifs
  · rw [sbSync_sb]
    rfl
  · rfl

@[simp] theorem sbScroll_sb (n : Int) (d : Display) :
    (sbScroll n d).sb = { d.sb with viewport := d.sb.scrolled n } := by
  unfold sbScroll Screenbuf.scrolled
  split_ifs
  · rw [sbSync_sb]
  · exact sbScrollTop_sb d
  · exact sbScrollDown_sb d

@[simp] theorem sbLoad_sb (d : Display) : (sbLoad d).sb = { d.sb with loaded := true } := by
  rw [sbLoad, sbSync_sb]

/-! ## New rows -/

theorem openRow_eq (sb : Screenbuf) :
    sb.openRow =
      { sb with
        cursorOffset := 0
        cursor := sbAddline sb.cursor 1
        buf := sbMemset (sbAddline sb.cursor 1) sbWhitespace 80 sb.buf } := rfl

/-- The viewport after `sb_crlf`, which moved the cursor to the row at `cursor`. -/
def Screenbuf.crlfViewport (sb : Screenbuf) (cursor : Int) : Int :=
  let viewport := if cursor = sb.top ∧ sb.viewport = sb.top then sbAddline sb.top 1 else sb.viewport
  if sbLdiff viewport cursor = 25 then sbAddline viewport 1 else viewport

/-- The buffer after `sb_crlf`, which moved the cursor to the row at `cursor`. -/
def Screenbuf.newRow (sb : Screenbuf) (cursor : Int) : Screenbuf :=
  { sb with
    cursorOffset := 0
    cursor := cursor
    buf := sbMemset cursor sbWhitespace 80 sb.buf
    top := if cursor = sb.top then sbAddline sb.top 1 else sb.top
    viewport := sb.crlfViewport cursor }

theorem sbScroll_one_room {sb : Screenbuf} (room : sbLdiff sb.viewport sb.cursor = 25) :
    sb.scrolled 1 = sbAddline sb.viewport 1 := by
  rw [Screenbuf.scrolled, if_pos]
  rw [sbLinesRoom, if_neg (by decide), room]
  decide

theorem sbCrlf_sb (d : Display) : (sbCrlf d).sb = d.sb.newRow (sbAddline d.sb.cursor 1) := by
  have top : (sbCrlfTop { d with sb := d.sb.openRow }).sb =
      { d.sb.openRow with
        top := if sbAddline d.sb.cursor 1 = d.sb.top then sbAddline d.sb.top 1 else d.sb.top
        viewport :=
          if sbAddline d.sb.cursor 1 = d.sb.top ∧ d.sb.viewport = d.sb.top then
            sbAddline d.sb.top 1
          else d.sb.viewport } := by
    unfold sbCrlfTop
    by_cases full : sbAddline d.sb.cursor 1 = d.sb.top
    · by_cases shown : d.sb.viewport = d.sb.top
      · simp only [Screenbuf.openRow, full, shown, if_true, and_self, sbSync_sb]
      · simp only [Screenbuf.openRow, full, shown, if_true, if_false, and_false]
    · simp only [Screenbuf.openRow, full, if_false, false_and]
  have cursor : d.sb.openRow.cursor = sbAddline d.sb.cursor 1 := rfl
  unfold sbCrlf
  simp only [top, vgaHeight_eq, cursor]
  by_cases below : sbLdiff
      (if sbAddline d.sb.cursor 1 = d.sb.top ∧ d.sb.viewport = d.sb.top then
        sbAddline d.sb.top 1 else d.sb.viewport) (sbAddline d.sb.cursor 1) = 25
  · rw [if_pos below, sbScroll_sb, sbScroll_one_room (by rw [top]; exact below), top]
    simp only [Screenbuf.newRow, Screenbuf.crlfViewport, Screenbuf.openRow, below, if_true]
    rfl
  · rw [if_neg below, top]
    simp only [Screenbuf.newRow, Screenbuf.crlfViewport, Screenbuf.openRow, below, if_false]
    rfl

/-! ## Characters -/

@[simp] theorem store_viewport (sb : Screenbuf) (word : Cell) :
    (sb.store word).viewport = sb.viewport := rfl

@[simp] theorem store_cursor (sb : Screenbuf) (word : Cell) :
    (sb.store word).cursor = sb.cursor := rfl

@[simp] theorem store_cursorOffset (sb : Screenbuf) (word : Cell) :
    (sb.store word).cursorOffset = sb.cursorOffset := rfl

@[simp] theorem store_loaded (sb : Screenbuf) (word : Cell) :
    (sb.store word).loaded = sb.loaded := rfl

@[simp] theorem incOffset_loaded (sb : Screenbuf) : sb.incOffset.loaded = sb.loaded := rfl

@[simp] theorem decOffset_loaded (sb : Screenbuf) : sb.decOffset.loaded = sb.loaded := by
  unfold Screenbuf.decOffset
  rfl

@[simp] theorem sbWriteWord_sb (word : Cell) (d : Display) :
    (sbWriteWord word d).sb = d.sb.store word := by
  unfold sbWriteWord
  dsimp only
  split_ifs <;> rfl

/-- `sb_crlf` when the row is full. -/
def Screenbuf.wrap (sb : Screenbuf) : Screenbuf :=
  if sb.cursorOffset = 80 then sb.newRow (sbAddline sb.cursor 1) else sb

theorem sbCrlf_if_sb (d : Display) :
    (if (d.sb.cursorOffset : Int) = vgaWidth then sbCrlf d else d).sb = d.sb.wrap := by
  have same : (d.sb.cursorOffset : Int) = vgaWidth ↔ d.sb.cursorOffset = 80 := by
    rw [vgaWidth_eq]
    omega
  simp only [same, Screenbuf.wrap]
  split_ifs
  · exact sbCrlf_sb d
  · rfl

theorem sbRegular_sb (c : BitVec 8) (d : Display) :
    (sbRegular c d).sb = ((d.sb.store (sbRegularCell d.sb c)).incOffset).wrap := by
  unfold sbRegular
  rw [sbCrlf_if_sb]
  split_ifs <;> rfl

/-- The loop of `sb_tabulation` on the buffer. -/
def Screenbuf.tabLoop : Nat → Screenbuf → Screenbuf
  | 0, sb => sb
  | fuel + 1, sb =>
    let sb := (sb.store (sb.cell 0)).incOffset
    if sb.cursorOffset % 4 ≠ 0 ∧ sb.cursorOffset < 80 then tabLoop fuel sb else sb

theorem tabLoop_eq (fuel : Nat) (sb : Screenbuf) :
    ∃ offset buf stored, sb.tabLoop fuel =
      { sb with cursorOffset := offset, buf := buf, stored := stored } := by
  induction fuel generalizing sb with
  | zero => exact ⟨sb.cursorOffset, sb.buf, sb.stored, rfl⟩
  | succ fuel ih =>
    rw [Screenbuf.tabLoop]
    split_ifs
    · obtain ⟨offset, buf, stored, written⟩ := ih (sb.store (sb.cell 0)).incOffset
      exact ⟨offset, buf, stored, written⟩
    · exact ⟨_, _, _, rfl⟩

theorem sbTabulationLoop_sb (fuel : Nat) (d : Display) :
    (sbTabulationLoop fuel d).sb = d.sb.tabLoop fuel := by
  induction fuel generalizing d with
  | zero => rfl
  | succ fuel ih =>
    simp only [sbTabulationLoop, Screenbuf.tabLoop, tabsize, sbWriteWord_sb, vgaWidth_eq,
      Nat.cast_lt_ofNat]
    split_ifs
    · rw [ih]
    · rfl

theorem sbTabulation_sb (d : Display) : (sbTabulation d).sb = (d.sb.tabLoop 4).wrap := by
  unfold sbTabulation
  rw [sbCrlf_if_sb, sbTabulationLoop_sb]
  rfl

/-- The search stops at the first blank cell, or at the end of the row. -/
theorem sbBackspaceSkip_spec (fuel : Nat) (sb : Screenbuf)
    (enough : 80 ≤ sb.cursorOffset + fuel) (column : sb.cursorOffset ≤ 80) :
    ∃ offset, sbBackspaceSkip fuel sb = { sb with cursorOffset := offset } ∧
      sb.cursorOffset ≤ offset ∧ offset ≤ 80 ∧
      (∀ i, sb.cursorOffset ≤ i → i < offset → sb.buf (sb.cursor + i) ≠ sbWhitespace) ∧
      (offset < 80 → sb.buf (sb.cursor + offset) = sbWhitespace) := by
  induction fuel generalizing sb with
  | zero => exact ⟨sb.cursorOffset, rfl, le_rfl, column, by omega, by omega⟩
  | succ fuel ih =>
    unfold sbBackspaceSkip
    rw [vgaWidth_eq]
    split_ifs with goesOn
    · obtain ⟨inRow, filled⟩ := goesOn
      have next : sb.incOffset.cursorOffset = sb.cursorOffset + 1 := u16_of_lt (by omega)
      obtain ⟨offset, skipped, from_next, limit, before, stop⟩ :=
        ih sb.incOffset (by omega) (by omega)
      refine ⟨offset, skipped, by omega, limit, fun i low high => ?_, stop⟩
      rcases Nat.eq_or_lt_of_le low with rfl | later
      · exact filled
      · exact before i (by omega) high
    · refine ⟨sb.cursorOffset, rfl, le_rfl, column, by omega, fun inRow => ?_⟩
      by_contra filled
      exact goesOn ⟨by omega, filled⟩

/-- The buffer after the cursor went back to the end of the row before. -/
def Screenbuf.rowBack (sb : Screenbuf) : Screenbuf :=
  if sb.cursorOffset = 0 then
    sbBackspaceSkip 80
      { sb with
        viewport := if sb.viewport = sb.cursor then sb.scrolled (-1) else sb.viewport
        cursorOffset := 0
        cursor := sbAddline sb.cursor (-1) }
  else sb

/-- At column 0 the cursor goes back to the first blank cell of the row before, or to its end. -/
theorem rowBack_start {sb : Screenbuf} (start : sb.cursorOffset = 0) :
    ∃ offset : Nat,
      sb.rowBack =
        { sb with
          viewport := if sb.viewport = sb.cursor then sb.scrolled (-1) else sb.viewport
          cursor := sbAddline sb.cursor (-1)
          cursorOffset := offset } ∧
      offset ≤ 80 ∧
      (∀ i : Nat, i < offset → sb.buf (sbAddline sb.cursor (-1) + i) ≠ sbWhitespace) ∧
      (offset < 80 → sb.buf (sbAddline sb.cursor (-1) + offset) = sbWhitespace) := by
  obtain ⟨offset, skipped, -, limit, before, stop⟩ := sbBackspaceSkip_spec 80
    { sb with
      viewport := if sb.viewport = sb.cursor then sb.scrolled (-1) else sb.viewport
      cursorOffset := 0
      cursor := sbAddline sb.cursor (-1) } le_rfl (Nat.zero_le _)
  refine ⟨offset, ?_, limit, fun i early => before i (Nat.zero_le _) early, stop⟩
  rw [Screenbuf.rowBack, if_pos start, skipped]

@[simp] theorem rowBack_loaded (sb : Screenbuf) : sb.rowBack.loaded = sb.loaded := by
  by_cases start : sb.cursorOffset = 0
  · obtain ⟨offset, back, -⟩ := rowBack_start start
    rw [back]
  · rw [Screenbuf.rowBack, if_neg start]

theorem sbBackspaceRow_sb (d : Display) : (sbBackspaceRow d).sb = d.sb.rowBack := by
  unfold sbBackspaceRow Screenbuf.rowBack
  by_cases column : d.sb.cursorOffset = 0
  · by_cases shown : d.sb.viewport = d.sb.cursor
    · simp only [column, shown, if_true, sbScroll_sb]
      rfl
    · simp only [column, shown, if_true, if_false]
      rfl
  · simp only [column, if_false]

theorem sbBackspace_sb (d : Display) :
    (sbBackspace d).sb =
      if d.sb.cursorOffset = 0 ∧ d.sb.cursor = d.sb.top then d.sb
      else d.sb.rowBack.decOffset.store sbWhitespace := by
  unfold sbBackspace
  split_ifs
  · rfl
  · rw [sbWriteWord_sb, sbBackspaceRow_sb]

theorem sbClear_sb (d : Display) :
    (sbClear d).sb =
      { d.sb with
        top := 0, viewport := 0, cursor := 0, cursorOffset := 0
        buf := sbMemset 0 sbWhitespace 16000 d.sb.buf } := by
  rw [sbClear, sbSync_sb, endbuf_toNat]

theorem sbPutchar_eq (c : BitVec 8) (d : Display) :
    sbPutchar c d =
      { sb := (sbPutcharSwitch c d).sb
        vga := cursorUpdate (sbDiff (sbPutcharSwitch c d).sb.viewport (sbPutcharSwitch c d).sb.cursor +
          (sbPutcharSwitch c d).sb.cursorOffset) (sbPutcharSwitch c d).vga } := rfl

/-- The buffer after `sb_putchar`. -/
def Screenbuf.putchar (c : BitVec 8) (sb : Screenbuf) : Screenbuf :=
  if c = 0x0a then sb.newRow (sbAddline sb.cursor 1)
  else if c = 0x09 then (sb.tabLoop 4).wrap
  else if c = 0x08 then
    if sb.cursorOffset = 0 ∧ sb.cursor = sb.top then sb
    else sb.rowBack.decOffset.store sbWhitespace
  else ((sb.store (sbRegularCell sb c)).incOffset).wrap

theorem sbPutchar_sb (c : BitVec 8) (d : Display) : (sbPutchar c d).sb = d.sb.putchar c := by
  rw [sbPutchar_eq]
  unfold sbPutcharSwitch Screenbuf.putchar
  split_ifs with newline tab erase start
  · exact sbCrlf_sb d
  · exact sbTabulation_sb d
  · rw [sbBackspace_sb, if_pos start]
  · rw [sbBackspace_sb, if_neg start]
  · exact sbRegular_sb c d

/-! ## Operations -/

/-- A call of the screen buffer interface. -/
inductive SbOp
  | putchar (c : BitVec 8)
  | scroll (n : Int)
  | scrollTop
  | scrollDown
  | load
  | unload
  | clear
  | setColor (color : BitVec 8)
  | setFg (fg : SbColor)
  | setBg (bg : SbColor)

def SbOp.run : SbOp → Display → Display
  | putchar c => sbPutchar c
  | scroll n => sbScroll n
  | scrollTop => sbScrollTop
  | scrollDown => sbScrollDown
  | load => sbLoad
  | unload => sbUnload
  | clear => sbClear
  | setColor color => sbSetColor color
  | setFg fg => sbSetFg fg
  | setBg bg => sbSetBg bg

/-- What an operation does to the buffer. The display has no part in it. -/
def SbOp.onBuffer : SbOp → Screenbuf → Screenbuf
  | putchar c, sb => sb.putchar c
  | scroll n, sb => { sb with viewport := sb.scrolled n }
  | scrollTop, sb => { sb with viewport := sb.top }
  | scrollDown, sb => { sb with viewport := sb.bottom }
  | load, sb => { sb with loaded := true }
  | unload, sb => { sb with loaded := false }
  | clear, sb =>
    { sb with
      top := 0, viewport := 0, cursor := 0, cursorOffset := 0
      buf := sbMemset 0 sbWhitespace 16000 sb.buf }
  | setColor color, sb => { sb with color := color }
  | setFg fg, sb => { sb with color := (sb.color &&& 0xf0) ||| (fg.value &&& 0x0f) }
  | setBg bg, sb => { sb with color := ((bg.value <<< 4) &&& 0xf0) ||| (sb.color &&& 0x0f) }

theorem SbOp.run_sb (op : SbOp) (d : Display) : (op.run d).sb = op.onBuffer d.sb := by
  cases op with
  | putchar c => exact sbPutchar_sb c d
  | scroll n => exact sbScroll_sb n d
  | scrollTop => exact sbScrollTop_sb d
  | scrollDown => exact sbScrollDown_sb d
  | load => exact sbLoad_sb d
  | clear => exact sbClear_sb d
  | unload | setColor | setFg | setBg => rfl

/-- A run of operations on a buffer that `sb_init` has just initialised. -/
def sbRun (sb : Screenbuf) (vga : Vga) (ops : List SbOp) : Display :=
  Runs.run SbOp.run ops { sb := sbInit sb, vga := vga }

/-- What does not depend on the column and the cells, and is kept by a new row and by going back a row, is
kept by every character. -/
theorem putchar_keeps {P : Screenbuf → Prop}
    (cells : ∀ {sb : Screenbuf} (offset : Nat) (buf : Int → Cell) (stored : List Int), P sb →
      P { sb with cursorOffset := offset, buf := buf, stored := stored })
    (newRow : ∀ {sb : Screenbuf}, P sb → P (sb.newRow (sbAddline sb.cursor 1)))
    (rowBack : ∀ {sb : Screenbuf}, P sb → ¬(sb.cursorOffset = 0 ∧ sb.cursor = sb.top) → P sb.rowBack)
    (c : BitVec 8) {sb : Screenbuf} (kept : P sb) : P (sb.putchar c) := by
  have wrap : ∀ {sb : Screenbuf}, P sb → P sb.wrap := by
    intro sb kept
    unfold Screenbuf.wrap
    split_ifs
    · exact newRow kept
    · exact kept
  have store : ∀ {sb : Screenbuf} (word : Cell), P sb → P (sb.store word) := fun _ kept =>
    cells _ _ _ kept
  unfold Screenbuf.putchar
  split_ifs with newline tab erase start
  · exact newRow kept
  · obtain ⟨offset, buf, stored, written⟩ := tabLoop_eq 4 sb
    rw [written]
    exact wrap (cells offset buf stored kept)
  · exact kept
  · refine store sbWhitespace ?_
    unfold Screenbuf.decOffset
    exact cells _ _ _ (rowBack kept start)
  · exact wrap (cells _ _ _ (store (sbRegularCell sb c) kept))

theorem putchar_loaded (c : BitVec 8) (sb : Screenbuf) : (sb.putchar c).loaded = sb.loaded := by
  refine putchar_keeps (P := fun next => next.loaded = sb.loaded) ?_ ?_ ?_ c rfl
  · exact fun _ _ _ same => same
  · exact fun same => same
  · exact fun same _ => (rowBack_loaded _).trans same

/-- Only `sb_load` and `sb_unload` change the loaded flag. -/
theorem run_loaded {op : SbOp} (notLoad : op ≠ .load) (notUnload : op ≠ .unload) (d : Display) :
    (op.run d).sb.loaded = d.sb.loaded := by
  rw [SbOp.run_sb]
  cases op with
  | putchar c => exact putchar_loaded c d.sb
  | load => exact absurd rfl notLoad
  | unload => exact absurd rfl notUnload
  | scroll | scrollTop | scrollDown | clear | setColor | setFg | setBg => rfl

theorem sbRun_concat (sb : Screenbuf) (vga : Vga) (ops : List SbOp) (op : SbOp) :
    sbRun sb vga (ops ++ [op]) = op.run (sbRun sb vga ops) := by
  rw [sbRun, Runs.run_append]
  rfl

end Nulix.Screen
