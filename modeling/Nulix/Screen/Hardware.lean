import Nulix.Screen.Rows

/-!
# The hardware cursor

`cursor_update` is called with the cell of the cursor counted from the viewport, at every redraw and
after every character. It compares the cell with the size of the buffer and not with that of the window,
so that the cursor of a row below the window stays enabled. `CellFits` says for which cells the test comes
to the right answer, and `CursorFits` which operations lead to such a cell, from whatever state of the
buffer and of the display.
-/

namespace Nulix.Screen

open Words Runs

/-! ## The registers -/

/-- Bit 5 of the cursor start register disables the cursor. -/
def Vga.cursorEnabled (vga : Vga) : Prop := vga.regs 0x0a &&& 0x20 = 0

/-- The cell in the two location registers. -/
def Vga.cursorPos (vga : Vga) : Nat := (vga.regs 0x0e).toNat * 256 + (vga.regs 0x0f).toNat

/-- The cursor row is one of the 25 rows from the viewport on. -/
def CursorShown (sb : Screenbuf) : Prop := circular sb.viewport sb.cursor / vgaWidth < vgaHeight

/-- The cursor is enabled exactly if its row is displayed, and then it is at its cell. -/
def CursorAgrees (d : Display) : Prop :=
  (d.vga.cursorEnabled ↔ CursorShown d.sb) ∧
    (d.vga.cursorEnabled →
      (d.vga.cursorPos : Int) = circular d.sb.viewport d.sb.cursor + d.sb.cursorOffset)

/-! ## The condition -/

/-- The test of `cursor_update` is right about a cursor whose row begins `cell` cells after the viewport:
if that row is in the window, the column does not lead out of the buffer, and if it is not, it does. -/
def CellFits (cell : Int) (column : Nat) : Prop :=
  if cell < vgaWidth * vgaHeight then cell + column < vgaWidth * sbHeight
  else cell < vgaWidth * sbHeight ∧ vgaWidth * sbHeight ≤ cell + column

/-- The column after a character other than a new line or a backspace, before a full row is left. -/
def columnAfter (c : BitVec 8) (column : Nat) : Nat :=
  if c = 0x09 ∧ column < vgaWidth then (column / tabsize + 1) * tabsize else u16 (column + 1)

/-- The row after the cursor comes to be in the window. -/
def NewRowFits (sb : Screenbuf) : Prop :=
  sbLdiff sb.viewport (sbAddline sb.cursor 1) ≤ vgaHeight ∧
    ¬(sb.viewport = sb.top ∧ sbAddline sb.cursor 1 = sb.top)

/-- `sb_scroll_down` either jumps to where the cursor is in the last row, or does nothing. -/
def BottomFits (d : Display) : Prop :=
  if sbLdiff d.sb.viewport d.sb.cursor > vgaHeight then
    CellFits (vgaWidth * (vgaHeight - 1)) d.sb.cursorOffset
  else CursorAgrees d

/-- The operation leads to a cell that fits. -/
def CursorFits : SbOp → Display → Prop
  | .putchar c, d =>
    if c = 0x0a ∨ columnAfter c d.sb.cursorOffset = vgaWidth then NewRowFits d.sb
    else CellFits (sbDiff d.sb.viewport d.sb.cursor) (columnAfter c d.sb.cursorOffset)
  | .scroll n, d =>
    if n < 0 then
      if -n ≤ sbLdiff d.sb.top d.sb.viewport then
        CellFits ((sbDiff d.sb.viewport d.sb.cursor - n * vgaWidth) % endbuf) d.sb.cursorOffset
      else CellFits (sbDiff d.sb.top d.sb.cursor) d.sb.cursorOffset
    else if n + (vgaHeight - 1) ≤ sbLdiff d.sb.viewport d.sb.cursor then
      CellFits ((sbDiff d.sb.viewport d.sb.cursor - n * vgaWidth) % endbuf) d.sb.cursorOffset
    else BottomFits d
  | .scrollTop, d => CellFits (sbDiff d.sb.top d.sb.cursor) d.sb.cursorOffset
  | .scrollDown, d => BottomFits d
  | _, _ => True

instance (vga : Vga) : Decidable vga.cursorEnabled := inferInstanceAs (Decidable (_ = _))

instance (sb : Screenbuf) : Decidable (CursorShown sb) := inferInstanceAs (Decidable (_ < _))

instance (d : Display) : Decidable (CursorAgrees d) := inferInstanceAs (Decidable ((_ ↔ _) ∧ (_ → _)))

instance (cell : Int) (column : Nat) : Decidable (CellFits cell column) :=
  inferInstanceAs (Decidable (ite _ _ _))

instance (sb : Screenbuf) : Decidable (NewRowFits sb) := inferInstanceAs (Decidable (_ ∧ _))

instance (d : Display) : Decidable (BottomFits d) := inferInstanceAs (Decidable (ite _ _ _))

instance decidableCursorFits : (op : SbOp) → (d : Display) → Decidable (CursorFits op d)
  | .putchar _, _ => inferInstanceAs (Decidable (ite _ _ _))
  | .scroll _, _ => inferInstanceAs (Decidable (ite _ (ite _ _ _) (ite _ _ _)))
  | .scrollTop, _ => inferInstanceAs (Decidable (CellFits _ _))
  | .scrollDown, d => inferInstanceAs (Decidable (BottomFits d))
  | .load, _ | .unload, _ | .clear, _ | .setColor _, _ | .setFg _, _ | .setBg _, _ => isTrue trivial

/-- A character or a scroll. -/
def SbOp.Moves : SbOp → Prop
  | .putchar c => c ≠ 0x08
  | .scroll _ | .scrollTop | .scrollDown => True
  | _ => False

variable {sb : Screenbuf} {d : Display}

/-! ## Updating the cursor -/

/-- Selecting a register and setting it. -/
theorem select_set (reg val : BitVec 8) (vga : Vga) :
    (portWriteU8 sbCursorPort2 val (portWriteU8 sbCursorPort1 reg vga)).regs =
      Function.update vga.regs reg val := rfl

/-- Enabling the cursor clears bit 5 of the start register, and leaves the location registers alone. -/
theorem cursorEnable_regs (vga : Vga) :
    (cursorEnable vga).regs =
      Function.update (Function.update vga.regs 0x0a (vga.regs 0x0a &&& 0xc0 ||| 0)) 0x0b
        (vga.regs 0x0b &&& 0xe0 ||| 15) := rfl

/-- Any cell of the buffer enables the cursor. -/
theorem cursorUpdate_regs {pos : Int} (low : 0 ≤ pos) (high : pos < 16000) (vga : Vga) :
    (cursorUpdate pos vga).cursorEnabled ∧ ((cursorUpdate pos vga).cursorPos : Int) = pos := by
  obtain ⟨cell, rfl⟩ := Int.eq_ofNat_of_zero_le low
  have word : ((cell : Int) % 2 ^ 32).toNat = cell := by omega
  have inside : (cell : Int) < vgaWidth * sbHeight := high
  have regs : (cursorUpdate cell vga).regs =
      Function.update (Function.update (cursorEnable vga).regs 0x0f (.ofNat 8 (cell &&& 0xff))) 0x0e
        (.ofNat 8 ((cell >>> 8) &&& 0xff)) := by
    rw [cursorUpdate, word]
    dsimp only
    rw [if_pos inside, select_set, select_set]
  have bytes : cell &&& 0xff = cell % 256 ∧ (cell >>> 8) &&& 0xff = cell / 256 % 256 :=
    ⟨Nat.and_two_pow_sub_one_eq_mod cell 8, by
      rw [Nat.shiftRight_eq_div_pow]
      exact Nat.and_two_pow_sub_one_eq_mod (cell / 256) 8⟩
  constructor
  · have cleared : ∀ start : BitVec 8, (start &&& 0xc0 ||| 0) &&& 0x20 = 0 := by
      intro start
      have kept : start &&& 0xc0 ||| 0 = start &&& 0xc0 := BitVec.or_zero
      rw [kept, BitVec.and_assoc]
      exact BitVec.and_zero
    rw [Vga.cursorEnabled, regs, cursorEnable_regs]
    exact cleared _
  · have positions : (cursorUpdate cell vga).cursorPos = cell / 256 % 256 * 256 + cell % 256 := by
      rw [Vga.cursorPos, regs, bytes.1, bytes.2]
      show (BitVec.ofNat 8 (cell / 256 % 256)).toNat * 256 + (BitVec.ofNat 8 (cell % 256)).toNat = _
      rw [BitVec.toNat_ofNat, BitVec.toNat_ofNat]
      omega
    rw [positions]
    omega

/-- A cell past the buffer disables it. -/
theorem cursorUpdate_disables {pos : Int} (past : 16000 ≤ pos) (word : pos < 2 ^ 32) (vga : Vga) :
    ¬(cursorUpdate pos vga).cursorEnabled := by
  have cell : ((pos % 2 ^ 32).toNat : Int) = pos := by omega
  have outside : ¬pos < vgaWidth * sbHeight := not_lt.mpr past
  rw [cursorUpdate]
  dsimp only
  rw [cell, if_neg outside, Vga.cursorEnabled, cursorDisable, select_set, Function.update_self]
  decide

/-- What `cursor_update` needs to be right, whatever the registers were. -/
theorem cursorAgrees_cursorUpdate (ok : PointersOk sb) (word : sb.cursorOffset < 2 ^ 16) (vga : Vga) :
    CursorAgrees
        { sb := sb, vga := cursorUpdate (sbDiff sb.viewport sb.cursor + sb.cursorOffset) vga } ↔
      CellFits (sbDiff sb.viewport sb.cursor) sb.cursorOffset := by
  have distance := ok.sbDiff_viewport
  have nonneg := circular_nonneg sb.viewport sb.cursor
  have bound : circular sb.viewport sb.cursor < 16000 := Int.emod_lt_of_pos _ (by decide)
  have window : vgaWidth * vgaHeight = 2000 := rfl
  have whole : vgaWidth * sbHeight = 16000 := rfl
  unfold CursorAgrees CursorShown CellFits
  dsimp only
  rw [window, whole, vgaWidth_eq, vgaHeight_eq]
  by_cases inside : sbDiff sb.viewport sb.cursor + sb.cursorOffset < 16000
  · obtain ⟨enabled, position⟩ := cursorUpdate_regs (by omega) inside vga
    rw [position]
    simp only [enabled, true_iff, true_imp_iff]
    split_ifs <;> omega
  · have disabled := cursorUpdate_disables (not_lt.mp inside) (by omega) vga
    simp only [disabled, false_iff, false_imp_iff, and_true]
    split_ifs <;> omega

/-- Redrawing a loaded buffer from the row at `p` on. -/
theorem cursorAgrees_sbSync (ok : PointersOk d.sb) (word : d.sb.cursorOffset < 2 ^ 16)
    (loaded : d.sb.loaded = true) {p : Int} (row : RowOrBelow p) :
    CursorAgrees (sbSync { d with sb := { d.sb with viewport := p } }) ↔
      CellFits (sbDiff p d.sb.cursor) d.sb.cursorOffset := by
  have moved : PointersOk { d.sb with viewport := p } := ⟨ok.top, row, ok.cursor⟩
  rw [sbSync, if_pos loaded]
  exact cursorAgrees_cursorUpdate moved word _

/-! ## Columns -/

/-- The tabulation loop stops at the next tabulation. -/
theorem tabLoop_cursorOffset (fuel : Nat) (inRow : sb.cursorOffset < 80)
    (enough : 4 ≤ sb.cursorOffset % 4 + fuel) :
    (sb.tabLoop fuel).cursorOffset = (sb.cursorOffset / 4 + 1) * 4 := by
  induction fuel generalizing sb with
  | zero => omega
  | succ fuel ih =>
    have next : (sb.store (sb.cell 0)).incOffset.cursorOffset = sb.cursorOffset + 1 :=
      u16_of_lt (by rw [store_cursorOffset]; omega)
    rw [Screenbuf.tabLoop]
    split_ifs with again
    · rw [next] at again
      rw [ih (by omega) (by omega), next]
      omega
    · rw [next] at again ⊢
      omega

/-- Past the end of the row it makes one turn. -/
theorem tabLoop_past (fuel : Nat) (past : 80 ≤ sb.cursorOffset) (word : sb.cursorOffset < 2 ^ 16) :
    (sb.tabLoop (fuel + 1)).cursorOffset = u16 (sb.cursorOffset + 1) := by
  have next : (sb.store (sb.cell 0)).incOffset.cursorOffset = u16 (sb.cursorOffset + 1) := rfl
  rw [Screenbuf.tabLoop, if_neg]
  · exact next
  · rw [next, u16]
    omega

theorem tabLoop_columnAfter (word : sb.cursorOffset < 2 ^ 16) :
    (sb.tabLoop 4).cursorOffset = columnAfter 0x09 sb.cursorOffset := by
  rw [columnAfter, tabsize, vgaWidth_eq]
  by_cases inRow : sb.cursorOffset < 80
  · rw [if_pos ⟨rfl, by omega⟩]
    exact tabLoop_cursorOffset 4 inRow (by omega)
  · rw [if_neg (by omega)]
    exact tabLoop_past 3 (by omega) word

/-- What a character other than a new line or a backspace leads to, before a full row is left. -/
theorem putchar_written {c : BitVec 8} (inRow : c ≠ 0x0a) (noErase : c ≠ 0x08)
    (word : sb.cursorOffset < 2 ^ 16) :
    ∃ offset buf stored, offset = columnAfter c sb.cursorOffset ∧ sb.putchar c =
      ({ sb with cursorOffset := offset, buf := buf, stored := stored } : Screenbuf).wrap := by
  by_cases tab : c = 0x09
  · obtain ⟨offset, buf, stored, looped⟩ := tabLoop_eq 4 sb
    have column := (congrArg Screenbuf.cursorOffset looped).symm.trans (tabLoop_columnAfter word)
    refine ⟨offset, buf, stored, by rw [tab]; exact column, ?_⟩
    rw [Screenbuf.putchar, if_neg inRow, if_pos tab, looped]
  · have written := (sb.store (sbRegularCell sb c)).incOffset
    refine ⟨u16 (sb.cursorOffset + 1), (sb.store (sbRegularCell sb c)).buf,
      (sb.store (sbRegularCell sb c)).stored, ?_, ?_⟩
    · rw [columnAfter, if_neg fun both => tab both.1]
    · rw [Screenbuf.putchar, if_neg inRow, if_neg tab, if_neg noErase]
      rfl

/-! ## Operations -/

theorem cellFits_newRow (ok : PointersOk sb) :
    CellFits (sbDiff (sb.newRow (sbAddline sb.cursor 1)).viewport (sbAddline sb.cursor 1)) 0 ↔
      NewRowFits sb := by
  have next := onRow_sbAddline ok.cursor 1
  obtain ⟨top, viewport, cursor⟩ := ok
  have window : ∀ cell : Int, CellFits cell 0 ↔ cell < 2000 := by
    intro cell
    rw [CellFits, show vgaWidth * vgaHeight = 2000 from rfl, show vgaWidth * sbHeight = 16000 from rfl]
    split_ifs <;> omega
  have rows : sbLdiff sb.viewport (sbAddline sb.cursor 1) =
      sbDiff sb.viewport (sbAddline sb.cursor 1) / 80 := by
    refine sbLdiff_of_nonneg ?_
    rw [onRow_iff] at next
    rw [rowOrBelow_iff] at viewport
    rw [sbDiff, endbuf_eq]
    split_ifs <;> omega
  rw [onRow_iff] at top next
  rw [rowOrBelow_iff] at viewport
  rw [window, NewRowFits, rows, vgaHeight_eq]
  show sbDiff (sb.crlfViewport (sbAddline sb.cursor 1)) (sbAddline sb.cursor 1) < 2000 ↔ _
  rw [Screenbuf.crlfViewport]
  by_cases moved : sbAddline sb.cursor 1 = sb.top ∧ sb.viewport = sb.top
  · -- the viewport goes on with the top, and the cursor is on the last row of the ring
    have around : sbDiff (sbAddline sb.top 1) sb.top = 15920 := by
      rw [sbDiff, endbuf_eq, sbAddline_eq]
      split_ifs <;> omega
    have far : sbLdiff (sbAddline sb.top 1) sb.top ≠ 25 := by
      rw [sbLdiff_of_nonneg (by omega), around]
      decide
    rw [if_pos moved, moved.1, if_neg far, around]
    exact iff_of_false (by decide) fun fits => fits.2 ⟨moved.2, rfl⟩
  · have kept : ¬(sb.viewport = sb.top ∧ sbAddline sb.cursor 1 = sb.top) := fun both => moved both.symm
    rw [if_neg moved, rows]
    split_ifs with last
    · have follows : sbDiff (sbAddline sb.viewport 1) (sbAddline sb.cursor 1) = 1920 := by
        rw [sbDiff, endbuf_eq] at last
        rw [sbDiff, endbuf_eq, sbAddline_eq sb.viewport]
        split_ifs at last ⊢ <;> omega
      exact iff_of_true (by omega) ⟨last.le, kept⟩
    · rw [and_iff_left kept]
      omega

theorem cellFits_wrap (ok : PointersOk sb) :
    CellFits (sbDiff sb.wrap.viewport sb.wrap.cursor) sb.wrap.cursorOffset ↔
      if sb.cursorOffset = 80 then NewRowFits sb
      else CellFits (sbDiff sb.viewport sb.cursor) sb.cursorOffset := by
  rw [Screenbuf.wrap]
  split_ifs
  · exact cellFits_newRow ok
  · exact Iff.rfl

theorem cellFits_putchar {c : BitVec 8} (ok : PointersOk d.sb) (word : d.sb.cursorOffset < 2 ^ 16)
    (noErase : c ≠ 0x08) :
    CellFits (sbDiff (d.sb.putchar c).viewport (d.sb.putchar c).cursor) (d.sb.putchar c).cursorOffset ↔
      CursorFits (.putchar c) d := by
  rw [CursorFits]
  by_cases newline : c = 0x0a
  · rw [if_pos (.inl newline), Screenbuf.putchar, if_pos newline]
    exact cellFits_newRow ok
  · obtain ⟨offset, buf, stored, column, put⟩ := putchar_written newline noErase word
    have full : (offset : Int) = vgaWidth ↔ offset = 80 := by
      rw [vgaWidth_eq]
      omega
    have kept : PointersOk { d.sb with cursorOffset := offset, buf := buf, stored := stored } :=
      ok.congr rfl rfl rfl
    rw [put, cellFits_wrap kept, ← column]
    simp only [newline, false_or, full]
    rfl

/-- Scrolling by rows there is room for. -/
theorem sbDiff_moved (ok : PointersOk sb) (n : Int) :
    sbDiff (sbAddline sb.viewport n) sb.cursor =
      (sbDiff sb.viewport sb.cursor - n * vgaWidth) % endbuf := by
  obtain ⟨-, viewport, cursor⟩ := ok
  rw [onRow_iff] at cursor
  rw [rowOrBelow_iff] at viewport
  rw [sbDiff, sbDiff, endbuf_eq, vgaWidth_eq, sbAddline_eq]
  split_ifs <;> omega

theorem cursorAgrees_scrollDown (ok : PointersOk d.sb) (word : d.sb.cursorOffset < 2 ^ 16)
    (loaded : d.sb.loaded = true) : CursorAgrees (sbScrollDown d) ↔ BottomFits d := by
  have jumped := ok.rowOrBelow_bottom
  have cursor := ok.cursor
  rw [Screenbuf.bottom] at jumped
  rw [onRow_iff] at cursor
  unfold sbScrollDown BottomFits
  rw [vgaHeight_eq]
  split_ifs at jumped ⊢
  · have diff : sbDiff (d.sb.cursor - 1920) d.sb.cursor = 1920 := by
      rw [sbDiff, if_pos (by omega)]
      omega
    have jump := cursorAgrees_sbSync ok word loaded jumped
    rw [diff] at jump
    exact jump
  · exact Iff.rfl

theorem cursorAgrees_scroll (ok : PointersOk d.sb) (word : d.sb.cursorOffset < 2 ^ 16)
    (loaded : d.sb.loaded = true) (n : Int) :
    CursorAgrees (sbScroll n d) ↔ CursorFits (.scroll n) d := by
  have moved := cursorAgrees_sbSync ok word loaded (ok.viewport.sbAddline n).rowOrBelow
  rw [sbDiff_moved ok] at moved
  rw [sbScroll, sbLinesRoom, CursorFits]
  by_cases up : n < 0
  · have room : abs n = -n := if_pos up
    simp only [if_pos up, room]
    split_ifs
    · exact moved
    · exact cursorAgrees_sbSync ok word loaded ok.top.rowOrBelow
  · have room : sbLdiff d.sb.viewport d.sb.cursor - (vgaHeight - 1) ≥ abs n ↔
        n + (vgaHeight - 1) ≤ sbLdiff d.sb.viewport d.sb.cursor := by
      rw [abs, if_neg up]
      omega
    simp only [if_neg up, room]
    split_ifs
    · exact moved
    · exact cursorAgrees_scrollDown ok word loaded

/-! ## Runs -/

/-- What every run keeps of a buffer: the pointers are on rows, and the offset is an unsigned short. -/
structure CellOk (sb : Screenbuf) : Prop where
  pointers : PointersOk sb
  word : sb.cursorOffset < 2 ^ 16

theorem columnAfter_lt (c : BitVec 8) (column : Nat) : columnAfter c column < 2 ^ 16 := by
  have word := u16_lt (column + 1)
  rw [columnAfter, vgaWidth_eq, tabsize]
  split_ifs <;> omega

theorem wrap_lt (word : sb.cursorOffset < 2 ^ 16) : sb.wrap.cursorOffset < 2 ^ 16 := by
  rw [Screenbuf.wrap]
  split_ifs
  · exact Nat.two_pow_pos 16
  · exact word

theorem putchar_lt (c : BitVec 8) (word : sb.cursorOffset < 2 ^ 16) :
    (sb.putchar c).cursorOffset < 2 ^ 16 := by
  by_cases newline : c = 0x0a
  · rw [Screenbuf.putchar, if_pos newline]
    exact Nat.two_pow_pos 16
  · by_cases erase : c = 0x08
    · subst erase
      rw [Screenbuf.putchar, if_neg newline, if_neg (by decide), if_pos rfl]
      split_ifs
      · exact word
      · exact u16_lt _
    · obtain ⟨offset, buf, stored, column, put⟩ := putchar_written newline erase word
      rw [put]
      exact wrap_lt (by rw [column]; exact columnAfter_lt c _)

theorem CellOk.run (op : SbOp) (ok : CellOk d.sb) : CellOk (op.run d).sb := by
  refine ⟨ok.pointers.run op, ?_⟩
  rw [SbOp.run_sb]
  cases op with
  | putchar c => exact putchar_lt c ok.word
  | clear => exact Nat.two_pow_pos 16
  | scroll | scrollTop | scrollDown | load | unload | setColor | setFg | setBg => exact ok.word

theorem cellOk_sbRun (sb : Screenbuf) (vga : Vga) (ops : List SbOp) : CellOk (sbRun sb vga ops).sb :=
  run_invariant (fun d => CellOk d.sb) (fun op _ d _ ok => CellOk.run (d := d) op ok) (guarded_true ops _)
    ⟨⟨onRow_zero, onRow_zero.rowOrBelow, onRow_zero⟩, Nat.two_pow_pos 16⟩

/-- A character or a scroll, from whatever state of the display. -/
theorem CellOk.cursorAgrees_run {op : SbOp} (ok : CellOk d.sb) (loaded : d.sb.loaded = true)
    (moves : op.Moves) : CursorAgrees (op.run d) ↔ CursorFits op d := by
  obtain ⟨pointers, word⟩ := ok
  cases op with
  | putchar c =>
    have noErase : c ≠ 0x08 := moves
    have after : PointersOk (d.sb.putchar c) := pointers.putchar c
    have small : (d.sb.putchar c).cursorOffset < 2 ^ 16 := putchar_lt c word
    have same : (sbPutcharSwitch c d).sb = d.sb.putchar c :=
      (congrArg Display.sb (sbPutchar_eq c d)).symm.trans (sbPutchar_sb c d)
    have update := cursorAgrees_cursorUpdate after small (sbPutcharSwitch c d).vga
    rw [← same] at update
    exact update.trans (by rw [same]; exact cellFits_putchar pointers word noErase)
  | scroll n => exact cursorAgrees_scroll pointers word loaded n
  | scrollTop => exact cursorAgrees_sbSync pointers word loaded pointers.top.rowOrBelow
  | scrollDown => exact cursorAgrees_scrollDown pointers word loaded
  | load | unload | clear | setColor | setFg | setBg => exact moves.elim

theorem SbOp.Moves.keeps_loaded {op : SbOp} (moves : op.Moves) (d : Display) :
    (op.run d).sb.loaded = d.sb.loaded := by
  refine run_loaded ?_ ?_ d <;> rintro rfl <;> exact moves

/-- **The hardware cursor.** From every loaded buffer and every state of the display, the hardware cursor
agrees with the window after each operation of a sequence exactly if each of them leads to a cell that
fits. -/
theorem cursorAgrees_after_each_iff (sb : Screenbuf) (vga vga' : Vga) (before ops : List SbOp)
    (loaded : (sbRun sb vga before).sb.loaded = true) (moves : ∀ op ∈ ops, op.Moves) :
    (∀ earlier op later, ops = earlier ++ op :: later →
        CursorAgrees (run SbOp.run (earlier ++ [op]) { sbRun sb vga before with vga := vga' })) ↔
      Guarded SbOp.run CursorFits ops { sbRun sb vga before with vga := vga' } := by
  symm
  refine guarded_iff_forall_prefix (fun d => CellOk d.sb ∧ d.sb.loaded = true) CursorAgrees ?_ ?_
    ⟨cellOk_sbRun sb vga before, loaded⟩
  · intro op mem d ⟨ok, on⟩
    exact ⟨ok.run op, ((moves op mem).keeps_loaded d).trans on⟩
  · intro op mem d ⟨ok, on⟩
    exact (ok.cursorAgrees_run on (moves op mem)).symm

/-- 25 new rows, a letter and a row after it, and a backspace that goes back to the letter. -/
def letterErased : List SbOp :=
  .load :: List.replicate 25 (.putchar 0x0a) ++ [.putchar 0x41, .putchar 0x0a, .putchar 0x08]

/-- From there the viewport goes up a row and, with a new one, down again. -/
theorem cursorAgrees_after_each_iff_up_and_down :
    (sbRun .zero .zero letterErased).sb.viewport = 160 ∧
      (run SbOp.run [.scroll (-1)] { sbRun .zero .zero letterErased with vga := .zero }).sb.viewport =
        80 ∧
      Guarded SbOp.run CursorFits [.scroll (-1), .putchar 0x42, .putchar 0x0a]
        { sbRun .zero .zero letterErased with vga := .zero } ∧
      ((∀ earlier op later,
          [.scroll (-1), .putchar 0x42, .putchar 0x0a] = earlier ++ op :: later →
            CursorAgrees (run SbOp.run (earlier ++ [op])
              { sbRun .zero .zero letterErased with vga := .zero })) ↔
        Guarded SbOp.run CursorFits [.scroll (-1), .putchar 0x42, .putchar 0x0a]
          { sbRun .zero .zero letterErased with vga := .zero }) := by
  refine ⟨by decide +kernel, by decide +kernel, ?_,
    cursorAgrees_after_each_iff .zero .zero .zero letterErased _ (by decide +kernel) ?_⟩
  · refine ⟨?_, ?_, ?_, trivial⟩ <;> decide +kernel
  · simp [SbOp.Moves]

/-- After 25 new rows and one row back up, the cursor is enabled on the row past the window. -/
theorem not_cursorAgrees_twenty_five_rows :
    ¬∀ (sb : Screenbuf) (vga vga' : Vga) (before ops : List SbOp),
      (sbRun sb vga before).sb.loaded = true → (∀ op ∈ ops, op.Moves) →
        ∀ earlier op later, ops = earlier ++ op :: later →
          CursorAgrees (run SbOp.run (earlier ++ [op]) { sbRun sb vga before with vga := vga' }) := by
  intro agrees
  have on : (sbRun .zero .zero (.load :: List.replicate 25 (.putchar 0x0a))).sb.loaded = true := by
    decide +kernel
  have both := agrees .zero .zero (sbRun .zero .zero (.load :: List.replicate 25 (.putchar 0x0a))).vga
    _ [.scroll (-1)] on (by simp [SbOp.Moves]) [] _ [] rfl
  revert both
  decide +kernel

end Nulix.Screen
