import Nulix.Screen.Pointers

/-!
# The cursor stays on its row

Every character is stored through `cursor + cursor_offset`. `CursorOk` says that the offset is a column
and that all stores so far fell into the buffer. A backspace at column 0 looks for the end of the row
before; when that row starts with a blank cell the search ends at column 0 and the decrement that
follows wraps around. `EraseFits` is the condition under which this does not happen.
-/

namespace Nulix.Screen

open Words Runs

/-- The cursor is on a row, its offset is at most `limit` and every recorded store is in the
buffer. -/
structure CursorWithin (limit : Nat) (sb : Screenbuf) : Prop where
  cursor : OnRow sb.cursor
  offset : sb.cursorOffset ≤ limit
  stored : ∀ i ∈ sb.stored, 0 ≤ i ∧ i < endbuf

/-- Between operations the offset is a column. -/
def CursorOk (sb : Screenbuf) : Prop := CursorWithin 79 sb

/-- A backspace that goes back to the row before finds that row not blank. -/
def EraseFits (op : SbOp) (d : Display) : Prop :=
  op = .putchar 0x08 → d.sb.cursorOffset = 0 → d.sb.cursor ≠ d.sb.top →
    d.sb.buf (sbAddline d.sb.cursor (-1)) ≠ sbWhitespace

variable {sb : Screenbuf}

theorem CursorWithin.congr {limit : Nat} (within : CursorWithin limit sb) {sb' : Screenbuf}
    (cursor : sb'.cursor = sb.cursor) (offset : sb'.cursorOffset = sb.cursorOffset)
    (stored : sb'.stored = sb.stored) : CursorWithin limit sb' := by
  constructor
  · rw [cursor]
    exact within.cursor
  · rw [offset]
    exact within.offset
  · rw [stored]
    exact within.stored

/-- A store at a column is a store in the buffer. -/
theorem CursorOk.store (ok : CursorOk sb) (word : Cell) : CursorOk (sb.store word) := by
  obtain ⟨cursor, offset, stored⟩ := ok
  refine ⟨cursor, offset, fun i mem => ?_⟩
  rcases List.mem_cons.mp mem with rfl | mem
  · rw [onRow_iff] at cursor
    rw [endbuf_eq]
    omega
  · exact stored i mem

theorem CursorOk.incOffset (ok : CursorOk sb) : CursorWithin 80 sb.incOffset := by
  obtain ⟨cursor, offset, stored⟩ := ok
  refine ⟨cursor, ?_, stored⟩
  rw [Screenbuf.incOffset]
  dsimp only
  rw [u16_of_lt (by omega)]
  omega

theorem CursorWithin.decOffset (within : CursorWithin 80 sb) (some : 0 < sb.cursorOffset) :
    CursorOk sb.decOffset := by
  obtain ⟨cursor, offset, stored⟩ := within
  unfold Screenbuf.decOffset
  refine ⟨cursor, ?_, stored⟩
  rw [u16]
  dsimp only
  omega

theorem CursorWithin.newRow {limit : Nat} (within : CursorWithin limit sb) :
    CursorOk (sb.newRow (sbAddline sb.cursor 1)) :=
  ⟨onRow_sbAddline within.cursor 1, Nat.zero_le _, within.stored⟩

theorem CursorWithin.wrap (within : CursorWithin 80 sb) : CursorOk sb.wrap := by
  unfold Screenbuf.wrap
  split_ifs with full
  · exact within.newRow
  · have offset := within.offset
    exact ⟨within.cursor, by omega, within.stored⟩

/-- The tabulation loop stores at columns only, since it stops at the end of the row. -/
theorem CursorOk.tabLoop (fuel : Nat) (ok : CursorOk sb) : CursorWithin 80 (sb.tabLoop fuel) := by
  induction fuel generalizing sb with
  | zero => exact ⟨ok.cursor, ok.offset.trans (by omega), ok.stored⟩
  | succ fuel ih =>
    have next := (ok.store (sb.cell 0)).incOffset
    rw [Screenbuf.tabLoop]
    split_ifs with again
    · exact ih ⟨next.cursor, by omega, next.stored⟩
    · exact next

theorem CursorOk.rowBack (ok : CursorOk sb)
    (fits : sb.cursorOffset = 0 → sb.buf (sbAddline sb.cursor (-1)) ≠ sbWhitespace) :
    CursorWithin 80 sb.rowBack ∧ 0 < sb.rowBack.cursorOffset := by
  by_cases column : sb.cursorOffset = 0
  · obtain ⟨offset, back, limit, -, stop⟩ := rowBack_start column
    rw [back]
    refine ⟨⟨onRow_sbAddline ok.cursor (-1), limit, ok.stored⟩, ?_⟩
    -- an offset of 0 would be that of a blank first cell
    apply Nat.pos_of_ne_zero
    rintro rfl
    apply fits column
    simpa using stop
  · rw [Screenbuf.rowBack, if_neg column]
    exact ⟨⟨ok.cursor, ok.offset.trans (by omega), ok.stored⟩, Nat.pos_of_ne_zero column⟩

theorem CursorOk.putchar {c : BitVec 8} {d : Display} (ok : CursorOk d.sb)
    (fits : EraseFits (.putchar c) d) : CursorOk (d.sb.putchar c) := by
  unfold Screenbuf.putchar
  split_ifs with newline tab erase start
  · exact ok.newRow
  · exact (ok.tabLoop 4).wrap
  · exact ok
  · obtain ⟨within, some⟩ := ok.rowBack fun column => fits (by rw [erase]) column
      fun same => start ⟨column, same⟩
    exact (within.decOffset some).store sbWhitespace
  · exact (ok.store (sbRegularCell d.sb c)).incOffset.wrap

/-- One operation. Only characters move the cursor. -/
theorem CursorOk.run {op : SbOp} {d : Display} (ok : CursorOk d.sb) (fits : EraseFits op d) :
    CursorOk (op.run d).sb := by
  rw [SbOp.run_sb]
  cases op with
  | putchar c => exact CursorOk.putchar ok fits
  | clear => exact ⟨onRow_zero, Nat.zero_le _, ok.stored⟩
  | scroll | scrollTop | scrollDown | load | unload | setColor | setFg | setBg =>
    exact CursorWithin.congr ok rfl rfl rfl

theorem cursorOk_sbInit (sb : Screenbuf) : CursorOk (sbInit sb) :=
  ⟨onRow_zero, Nat.zero_le _, fun _ mem => nomatch mem⟩

/-- **The cursor in bounds.** In every run whose backspaces fit, the offset is a column and every
character was stored in the buffer. -/
theorem cursorOk_sbRun (sb : Screenbuf) (vga : Vga) (ops : List SbOp)
    (fits : Guarded SbOp.run EraseFits ops { sb := sbInit sb, vga := vga }) :
    CursorOk (sbRun sb vga ops).sb :=
  run_invariant (fun d => CursorOk d.sb) (fun _ _ _ fits ok => CursorOk.run ok fits) fits
    (cursorOk_sbInit sb)

/-- A run that fills a row, goes on to the next one and comes back. -/
theorem cursorOk_sbRun_full_row :
    CursorOk (sbRun .zero .zero
      (List.replicate 80 (.putchar 0x41) ++ [.putchar 0x08, .scroll (-1), .clear])).sb := by
  apply cursorOk_sbRun
  have row : ∀ n d, Guarded SbOp.run EraseFits (List.replicate n (.putchar 0x41)) d := by
    intro n
    induction n with
    | zero => exact fun _ => trivial
    | succ n ih => exact fun d => ⟨fun erases => absurd erases (by simp), ih _⟩
  refine guarded_append (row 80 _) ⟨fun _ _ _ => ?_, nofun, nofun, trivial⟩
  decide +kernel

/-- A backspace that does not fit stores outside the buffer. -/
theorem not_cursorOk_of_not_eraseFits {op : SbOp} {d : Display} (misses : ¬ EraseFits op d) :
    ¬ CursorOk (op.run d).sb := by
  unfold EraseFits at misses
  push Not at misses
  obtain ⟨rfl, column, below, blank⟩ := misses
  intro ok
  have offset := ok.offset
  have erased : (SbOp.run (.putchar 0x08) d).sb = d.sb.rowBack.decOffset.store sbWhitespace := by
    rw [SbOp.run_sb]
    show d.sb.putchar 0x08 = _
    rw [Screenbuf.putchar, if_neg (by decide), if_neg (by decide), if_pos rfl,
      if_neg fun start => below start.2]
  have back : d.sb.rowBack.cursorOffset = 0 := by
    obtain ⟨offset, wentBack, -, before, -⟩ := rowBack_start column
    rw [wentBack]
    by_contra moved
    have filled := before 0 (Nat.pos_of_ne_zero moved)
    simp only [Nat.cast_zero, add_zero] at filled
    exact filled blank
  rw [erased, Screenbuf.store, Screenbuf.decOffset] at offset
  dsimp only at offset
  rw [back] at offset
  exact absurd offset (by decide)

/-- A new row and a backspace: the row before is blank. -/
theorem not_cursorOk_empty_row :
    ¬ CursorOk (sbRun .zero .zero [.putchar 0x0a, .putchar 0x08]).sb := by
  have row : (sbRun .zero .zero [.putchar 0x0a]).sb = (sbInit .zero).newRow 80 := by
    show (sbPutchar 0x0a _).sb = _
    rw [sbPutchar_sb, Screenbuf.putchar, if_pos rfl]
    rfl
  have top : (sbInit .zero).top = 0 := rfl
  have blank : (sbInit .zero).buf 0 = sbWhitespace := sbInit_buf _ le_rfl (by decide)
  have misses : ¬ EraseFits (.putchar 0x08) (sbRun .zero .zero [.putchar 0x0a]) := by
    intro fits
    have filled := fits rfl
    rw [row, Screenbuf.newRow] at filled
    simp only [top, sbAddline_eq, sbMemset_apply] at filled
    simp [blank] at filled
  have last := sbRun_concat .zero .zero [.putchar 0x0a] (.putchar 0x08)
  rw [List.singleton_append] at last
  rw [last]
  exact not_cursorOk_of_not_eraseFits misses

end Nulix.Screen
