import Nulix.Screen.Pointers

/-!
# Bringing the cursor into view

`PointersOk` is what every run keeps of the pointers, whatever it scrolls by and wherever it jumps to:
they are at the start of rows, top and cursor in the buffer, and the viewport there or at most 24 rows
below it. From such a state `sb_scroll_down` brings the cursor into the window, unless the cursor is on
the row just past it: the jump is made from a distance of 26 rows on, and the window has 25.
-/

namespace Nulix.Screen

open Runs

/-- The pointer is at the start of a row of the buffer, or of one of the 24 rows below it. -/
def RowOrBelow (p : Int) : Prop :=
  -(vgaWidth * (vgaHeight - 1)) ≤ p ∧ p < endbuf ∧ p % vgaWidth = 0

structure PointersOk (sb : Screenbuf) : Prop where
  top : OnRow sb.top
  viewport : RowOrBelow sb.viewport
  cursor : OnRow sb.cursor

/-- The cursor is on one of the 25 rows from the viewport on, and what is written in its row comes to
the display. -/
structure InView (sb : Screenbuf) : Prop where
  distance : circular sb.viewport sb.cursor / vgaWidth ≤ vgaHeight - 1
  shown : ∀ column : Nat, column < vgaWidth →
    0 ≤ sbDiff sb.viewport sb.cursor + column ∧
      sbDiff sb.viewport sb.cursor + column < vgaWidth * vgaHeight

variable {sb : Screenbuf}

/-! ## Rows -/

theorem rowOrBelow_iff {p : Int} : RowOrBelow p ↔ -1920 ≤ p ∧ p < 16000 ∧ p % 80 = 0 := Iff.rfl

theorem OnRow.rowOrBelow {p : Int} (row : OnRow p) : RowOrBelow p := by
  rw [onRow_iff] at row
  rw [rowOrBelow_iff]
  omega

theorem RowOrBelow.sbAddline {p : Int} (row : RowOrBelow p) (n : Int) :
    OnRow (sbAddline p n) := by
  rw [rowOrBelow_iff] at row
  rw [onRow_iff, sbAddline_eq]
  omega

/-! ## The operations -/

namespace PointersOk

theorem congr (ok : PointersOk sb) {sb' : Screenbuf} (top : sb'.top = sb.top)
    (viewport : sb'.viewport = sb.viewport) (cursor : sb'.cursor = sb.cursor) :
    PointersOk sb' := by
  constructor
  · rw [top]
    exact ok.top
  · rw [viewport]
    exact ok.viewport
  · rw [cursor]
    exact ok.cursor

theorem rowOrBelow_bottom (ok : PointersOk sb) : RowOrBelow sb.bottom := by
  have cursor := ok.cursor
  unfold Screenbuf.bottom
  split_ifs
  · rw [onRow_iff] at cursor
    rw [rowOrBelow_iff]
    omega
  · exact ok.viewport

/-- Scrolling by any number of rows. -/
theorem rowOrBelow_scrolled (ok : PointersOk sb) (n : Int) : RowOrBelow (sb.scrolled n) := by
  unfold Screenbuf.scrolled
  split_ifs
  · exact (ok.viewport.sbAddline n).rowOrBelow
  · exact ok.top.rowOrBelow
  · exact ok.rowOrBelow_bottom

theorem newRow (ok : PointersOk sb) : PointersOk (sb.newRow (sbAddline sb.cursor 1)) := by
  have second := onRow_sbAddline ok.top 1
  have shown : RowOrBelow (if sbAddline sb.cursor 1 = sb.top ∧ sb.viewport = sb.top then
      sbAddline sb.top 1 else sb.viewport) := by
    split_ifs
    · exact second.rowOrBelow
    · exact ok.viewport
  simp only [Screenbuf.newRow, Screenbuf.crlfViewport]
  refine ⟨?_, ?_, onRow_sbAddline ok.cursor 1⟩
  · dsimp only
    split_ifs
    · exact second
    · exact ok.top
  · dsimp only
    split_ifs at shown ⊢
    · exact (shown.sbAddline 1).rowOrBelow
    · exact shown
    · exact (shown.sbAddline 1).rowOrBelow
    · exact shown

theorem rowBack (ok : PointersOk sb) : PointersOk sb.rowBack := by
  by_cases column : sb.cursorOffset = 0
  · obtain ⟨offset, back, -⟩ := rowBack_start column
    rw [back]
    refine ⟨ok.top, ?_, onRow_sbAddline ok.cursor (-1)⟩
    dsimp only
    split_ifs
    · exact ok.rowOrBelow_scrolled (-1)
    · exact ok.viewport
  · rw [Screenbuf.rowBack, if_neg column]
    exact ok

theorem putchar (ok : PointersOk sb) (c : BitVec 8) : PointersOk (sb.putchar c) := by
  refine putchar_keeps (P := PointersOk) (fun _ _ _ ok => ?_) PointersOk.newRow ?_ c ok
  · exact ok.congr rfl rfl rfl
  · exact fun ok _ => ok.rowBack

/-- One operation. -/
theorem run (op : SbOp) {d : Display} (ok : PointersOk d.sb) : PointersOk (op.run d).sb := by
  rw [SbOp.run_sb]
  cases op with
  | putchar c => exact ok.putchar c
  | scroll n => exact ⟨ok.top, ok.rowOrBelow_scrolled n, ok.cursor⟩
  | scrollTop => exact ⟨ok.top, ok.top.rowOrBelow, ok.cursor⟩
  | scrollDown => exact ⟨ok.top, ok.rowOrBelow_bottom, ok.cursor⟩
  | clear => exact ⟨onRow_zero, onRow_zero.rowOrBelow, onRow_zero⟩
  | load | unload | setColor | setFg | setBg => exact ok.congr rfl rfl rfl

end PointersOk

/-- Every run keeps the pointers on rows. -/
theorem pointersOk_sbRun (sb : Screenbuf) (vga : Vga) (ops : List SbOp) :
    PointersOk (sbRun sb vga ops).sb :=
  run_invariant (fun d => PointersOk d.sb) (fun op _ d _ ok => PointersOk.run (d := d) op ok)
    (guarded_true ops _) ⟨onRow_zero, onRow_zero.rowOrBelow, onRow_zero⟩

/-! ## Scrolling down -/

/-- The code's distance is the circular one, or a whole buffer more when the cursor went around and left
a viewport below the buffer behind. -/
theorem PointersOk.sbDiff_viewport (ok : PointersOk sb) :
    sbDiff sb.viewport sb.cursor = circular sb.viewport sb.cursor ∨
      sbDiff sb.viewport sb.cursor = circular sb.viewport sb.cursor + 16000 ∧
        circular sb.viewport sb.cursor ≤ 1840 := by
  obtain ⟨-, viewport, cursor⟩ := ok
  rw [rowOrBelow_iff] at viewport
  rw [onRow_iff] at cursor
  rw [sbDiff, circular_eq, endbuf_eq]
  split_ifs <;> omega

theorem PointersOk.sbLdiff_viewport (ok : PointersOk sb) :
    sbLdiff sb.viewport sb.cursor = sbDiff sb.viewport sb.cursor / 80 := by
  have diff := ok.sbDiff_viewport
  have nonneg := circular_nonneg sb.viewport sb.cursor
  exact sbLdiff_of_nonneg (by omega)

theorem PointersOk.circular_mod (ok : PointersOk sb) :
    circular sb.viewport sb.cursor % 80 = 0 := by
  obtain ⟨-, viewport, cursor⟩ := ok
  rw [rowOrBelow_iff] at viewport
  rw [onRow_iff] at cursor
  rw [circular_eq]
  omega

/-- The viewport that `sb_scroll_down` jumps to is 24 rows above the cursor. -/
theorem inView_jump (ok : PointersOk sb) : InView { sb with viewport := sb.cursor - 1920 } := by
  have cursor := ok.cursor
  rw [onRow_iff] at cursor
  have diff : sbDiff (sb.cursor - 1920) sb.cursor = 1920 := by
    rw [sbDiff, if_pos (by omega)]
    omega
  constructor
  · simp only [circular_eq, vgaWidth_eq, vgaHeight_eq]
    omega
  · intro column inRow
    simp only [diff, vgaWidth_eq, vgaHeight_eq] at inRow ⊢
    omega

/-- A cursor that the code finds at most 24 rows past the viewport is in view. -/
theorem PointersOk.inView (ok : PointersOk sb) (near : sbDiff sb.viewport sb.cursor ≤ 1920) :
    InView sb := by
  have diff := ok.sbDiff_viewport
  have nonneg := circular_nonneg sb.viewport sb.cursor
  constructor
  · rw [vgaWidth_eq, vgaHeight_eq]
    omega
  · intro column inRow
    rw [vgaWidth_eq] at inRow
    rw [vgaWidth_eq, vgaHeight_eq]
    omega

theorem PointersOk.inView_bottom_iff (ok : PointersOk sb) :
    InView { sb with viewport := sb.bottom } ↔ circular sb.viewport sb.cursor ≠ 2000 := by
  have diff := ok.sbDiff_viewport
  have rows := ok.sbLdiff_viewport
  have whole := ok.circular_mod
  have nonneg := circular_nonneg sb.viewport sb.cursor
  unfold Screenbuf.bottom
  split_ifs with far
  · refine ⟨fun _ => ?_, fun _ => inView_jump ok⟩
    omega
  · constructor
    · intro inView past
      have distance := inView.distance
      rw [past] at distance
      exact absurd distance (by decide)
    · intro other
      exact ok.inView (by omega)

/-- **Scrolling down.** In every state that a run reaches, `sb_scroll_down` brings the cursor into view
if and only if the cursor was not exactly `VGA_HEIGHT` rows past the viewport. -/
theorem sbScrollDown_inView_iff (sb : Screenbuf) (vga : Vga) (ops : List SbOp) :
    InView (sbScrollDown (sbRun sb vga ops)).sb ↔
      circular (sbRun sb vga ops).sb.viewport (sbRun sb vga ops).sb.cursor ≠
        vgaWidth * vgaHeight := by
  rw [sbScrollDown_sb]
  exact (pointersOk_sbRun sb vga ops).inView_bottom_iff

/-- After 25 new rows and one row back up, the cursor is on the row past the window, and stays
there. -/
theorem not_sbScrollDown_inView_twenty_five_rows :
    ¬ InView (sbScrollDown (sbRun .zero .zero
      (List.replicate 25 (.putchar 0x0a) ++ [.scroll (-1)]))).sb := by
  intro inView
  have distance : circular (sbScrollDown (sbRun .zero .zero
      (List.replicate 25 (.putchar 0x0a) ++ [.scroll (-1)]))).sb.viewport
      (sbScrollDown (sbRun .zero .zero
        (List.replicate 25 (.putchar 0x0a) ++ [.scroll (-1)]))).sb.cursor / vgaWidth = 25 := by
    decide +kernel
  have within := inView.distance
  rw [distance] at within
  exact absurd within (by decide)

end Nulix.Screen
