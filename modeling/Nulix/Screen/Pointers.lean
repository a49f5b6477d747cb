import Nulix.Screen.Frame

/-!
# The ring pointers

`top`, `viewport` and `cursor` go around the ring of rows by different rules. `RingOk` says that each
of them is a row of the buffer and that the viewport lies on the way from the top to the cursor. Of
all operations only the jump of `sb_scroll_down` can break it, because it computes the viewport
without the wrap helper; `JumpFits` is the condition under which it does not.
-/

namespace Nulix.Screen

open Runs

/-- The pointer is at the start of a row of the buffer. -/
def OnRow (p : Int) : Prop := 0 ≤ p ∧ p < endbuf ∧ p % vgaWidth = 0

/-- The number of cells from `a` forward to `b` around the ring. -/
def circular (a b : Int) : Int := (b - a) % endbuf

structure RingOk (sb : Screenbuf) : Prop where
  top : OnRow sb.top
  viewport : OnRow sb.viewport
  cursor : OnRow sb.cursor
  between : circular sb.top sb.viewport ≤ circular sb.top sb.cursor

/-- `sb_scroll_down`, if it moves the viewport at all, does so where the 24 rows above the cursor do
not cross the start of the buffer. -/
def JumpFits (op : SbOp) (d : Display) : Prop :=
  op = .scrollDown → sbLdiff d.sb.viewport d.sb.cursor > vgaHeight →
    vgaWidth * (vgaHeight - 1) ≤ d.sb.cursor

/-- The operation, if it is a scroll, moves by one row. -/
def SbOp.ByOne (op : SbOp) : Prop := ∀ n, op = .scroll n → n = 1 ∨ n = -1

variable {sb : Screenbuf}

/-! ## Distances -/

theorem abs_one : abs 1 = 1 := rfl

theorem abs_neg_one : abs (-1) = 1 := rfl

theorem onRow_iff {p : Int} : OnRow p ↔ 0 ≤ p ∧ p < 16000 ∧ p % 80 = 0 := Iff.rfl

theorem onRow_zero : OnRow 0 := ⟨le_rfl, by decide, rfl⟩

theorem circular_eq (a b : Int) : circular a b = (b - a) % 16000 := rfl

theorem circular_nonneg (a b : Int) : 0 ≤ circular a b := by
  rw [circular_eq]
  omega

theorem circular_self (a : Int) : circular a a = 0 := by
  rw [circular_eq]
  omega

theorem sbLdiff_rows {a b : Int} (left : OnRow a) (right : OnRow b) :
    sbLdiff a b = circular a b / 80 := by
  rw [onRow_iff] at left right
  have diff : sbDiff a b = circular a b := by
    rw [sbDiff, circular_eq, endbuf_eq]
    split_ifs <;> omega
  rw [sbLdiff_of_nonneg, diff]
  rw [diff, circular_eq]
  omega

theorem onRow_sbAddline {p : Int} (row : OnRow p) (n : Int) : OnRow (sbAddline p n) := by
  rw [onRow_iff] at row ⊢
  rw [sbAddline_eq]
  omega

/-! ## The operations -/

theorem RingOk.congr (ok : RingOk sb) {sb' : Screenbuf} (top : sb'.top = sb.top)
    (viewport : sb'.viewport = sb.viewport) (cursor : sb'.cursor = sb.cursor) : RingOk sb' := by
  constructor
  · rw [top]
    exact ok.top
  · rw [viewport]
    exact ok.viewport
  · rw [cursor]
    exact ok.cursor
  · rw [top, viewport, cursor]
    exact ok.between

theorem RingOk.scrollTop (ok : RingOk sb) : RingOk { sb with viewport := sb.top } := by
  refine ⟨ok.top, ok.top, ok.cursor, ?_⟩
  simp only [circular_eq]
  omega

theorem RingOk.bottom (ok : RingOk sb)
    (fits : sbLdiff sb.viewport sb.cursor > 25 → 1920 ≤ sb.cursor) :
    RingOk { sb with viewport := sb.bottom } := by
  have rows := sbLdiff_rows ok.viewport ok.cursor
  obtain ⟨top, viewport, cursor, between⟩ := ok
  unfold Screenbuf.bottom
  split_ifs with far
  · have room := fits far
    rw [rows] at far
    simp only [onRow_iff, circular_eq] at top viewport cursor between far ⊢
    refine ⟨top, ?_, cursor, ?_⟩
    · rw [onRow_iff]
      dsimp only
      omega
    · simp only [circular_eq]
      omega
  · exact ⟨top, viewport, cursor, between⟩

/-- Scrolling by one row does not come to the jump of `sb_scroll_down`. -/
theorem RingOk.scrolled (ok : RingOk sb) {n : Int} (one : n = 1 ∨ n = -1) :
    RingOk { sb with viewport := sb.scrolled n } := by
  have above := sbLdiff_rows ok.top ok.viewport
  have below := sbLdiff_rows ok.viewport ok.cursor
  have moved := onRow_sbAddline ok.viewport n
  unfold Screenbuf.scrolled
  split_ifs with room up
  · obtain ⟨top, viewport, cursor, between⟩ := ok
    refine ⟨top, moved, cursor, ?_⟩
    rw [sbLinesRoom, above, below, vgaHeight_eq] at room
    simp only [onRow_iff, circular_eq, sbAddline_eq] at top viewport cursor between room ⊢
    rcases one with rfl | rfl
    · rw [if_neg (by decide), abs_one] at room
      omega
    · rw [if_pos (by decide), abs_neg_one] at room
      omega
  · exact ok.scrollTop
  · refine ok.bottom fun far => ?_
    obtain rfl : n = 1 := by omega
    rw [sbLinesRoom, if_neg up, vgaHeight_eq, abs_one] at room
    omega

theorem RingOk.newRow (ok : RingOk sb) : RingOk (sb.newRow (sbAddline sb.cursor 1)) := by
  have next := onRow_sbAddline ok.cursor 1
  have second := onRow_sbAddline ok.top 1
  obtain ⟨top, viewport, cursor, between⟩ := ok
  have shown : OnRow (if sbAddline sb.cursor 1 = sb.top ∧ sb.viewport = sb.top then
      sbAddline sb.top 1 else sb.viewport) := by
    split_ifs
    · exact second
    · exact viewport
  have rows := sbLdiff_rows shown next
  simp only [Screenbuf.newRow, Screenbuf.crlfViewport]
  refine ⟨?_, ?_, next, ?_⟩
  · dsimp only
    split_ifs
    · exact second
    · exact top
  · dsimp only
    split_ifs at shown ⊢
    · exact onRow_sbAddline shown 1
    · exact shown
    · exact onRow_sbAddline shown 1
    · exact shown
  · simp only [rows]
    simp only [onRow_iff, circular_eq, sbAddline_eq] at *
    split_ifs at * <;> omega

/-- The row before exists unless the cursor is at the top, and the viewport is moved to it if it was
on the row of the cursor. -/
theorem RingOk.rowBack (ok : RingOk sb)
    (below : ¬ (sb.cursorOffset = 0 ∧ sb.cursor = sb.top)) : RingOk sb.rowBack := by
  have scrolls := ok.scrolled (n := -1) (.inr rfl)
  have back := onRow_sbAddline ok.cursor (-1)
  have above := sbLdiff_rows ok.top ok.viewport
  by_cases column : sb.cursorOffset = 0
  · have apart : sb.cursor ≠ sb.top := fun same => below ⟨column, same⟩
    obtain ⟨offset, wentBack, -⟩ := rowBack_start column
    obtain ⟨top, viewport, cursor, between⟩ := ok
    rw [wentBack]
    split_ifs with shown
    · refine ⟨top, scrolls.viewport, back, ?_⟩
      have moved : sb.scrolled (-1) = sbAddline sb.viewport (-1) := by
        rw [Screenbuf.scrolled, if_pos]
        rw [sbLinesRoom, if_pos (by decide), above]
        rw [abs_neg_one]
        simp only [onRow_iff, circular_eq] at *
        omega
      simp only [moved, sbAddline_eq, circular_eq, onRow_iff] at *
      omega
    · refine ⟨top, viewport, back, ?_⟩
      simp only [sbAddline_eq, circular_eq, onRow_iff] at *
      omega
  · rw [Screenbuf.rowBack, if_neg column]
    exact ok

theorem RingOk.putchar (ok : RingOk sb) (c : BitVec 8) : RingOk (sb.putchar c) := by
  refine putchar_keeps (P := RingOk) (fun _ _ _ ok => ?_) RingOk.newRow RingOk.rowBack c ok
  exact ok.congr rfl rfl rfl

/-- One operation. -/
theorem RingOk.run {op : SbOp} {d : Display} (ok : RingOk d.sb) (one : op.ByOne)
    (fits : JumpFits op d) : RingOk (op.run d).sb := by
  rw [SbOp.run_sb]
  cases op with
  | putchar c => exact ok.putchar c
  | scroll n => exact ok.scrolled (one n rfl)
  | scrollTop => exact ok.scrollTop
  | scrollDown => exact ok.bottom (fits rfl)
  | clear => exact ⟨onRow_zero, onRow_zero, onRow_zero, le_rfl⟩
  | load | unload | setColor | setFg | setBg => exact ok.congr rfl rfl rfl

theorem ringOk_sbInit (sb : Screenbuf) : RingOk (sbInit sb) :=
  ⟨onRow_zero, onRow_zero, onRow_zero, le_rfl⟩

/-- **The ring pointers.** In every run whose jumps fit, the pointers are rows of the buffer with the
viewport between the top and the cursor. -/
theorem ringOk_sbRun (sb : Screenbuf) (vga : Vga) (ops : List SbOp)
    (one : ∀ op ∈ ops, op.ByOne)
    (fits : Guarded SbOp.run JumpFits ops { sb := sbInit sb, vga := vga }) :
    RingOk (sbRun sb vga ops).sb :=
  run_invariant (fun d => RingOk d.sb)
    (fun op mem _ fits ok => RingOk.run ok (one op mem) fits) fits (ringOk_sbInit sb)

/-- A run with a jump that moves the viewport, after 30 rows. -/
theorem ringOk_sbRun_thirty_rows :
    RingOk (sbRun .zero .zero
      (List.replicate 30 (.putchar 0x0a) ++ [.scrollTop, .scrollDown, .scroll 1])).sb := by
  apply ringOk_sbRun
  · intro op mem n isScroll
    simp only [List.mem_append, List.mem_replicate, List.mem_cons, List.not_mem_nil, or_false]
      at mem
    rcases mem with ⟨-, rfl⟩ | rfl | rfl | rfl <;> cases isScroll
    exact .inl rfl
  · have rows : ∀ n d, (Guarded SbOp.run JumpFits (List.replicate n (.putchar 0x0a)) d) := by
      intro n
      induction n with
      | zero => exact fun _ => trivial
      | succ n ih => exact fun d => ⟨nofun, ih _⟩
    refine guarded_append (rows 30 _) ⟨nofun, fun _ _ => ?_, nofun, trivial⟩
    decide +kernel

/-- After 200 new rows the cursor is back on the first row of the buffer; from the top, the jump to
the bottom then leaves the buffer. -/
theorem not_ringOk_two_hundred_rows :
    ¬ RingOk (sbRun .zero .zero
      (List.replicate 200 (.putchar 0x0a) ++ [.scrollTop, .scrollDown])).sb := by
  intro ok
  have viewport : (sbRun .zero .zero
      (List.replicate 200 (.putchar 0x0a) ++ [.scrollTop, .scrollDown])).sb.viewport = -1920 := by
    decide +kernel
  have inside := ok.viewport.1
  rw [viewport] at inside
  omega

end Nulix.Screen
