import Nulix.Screen.Rows
import Nulix.Screen.Window

/-!
# Scrolling many rows at once

`sb_scroll` either moves the viewport by the rows it is given or, where there is not so much room, goes
to the top or to the bottom. One row at a time the viewport moves by what room there is. The two agree
upwards always, and downwards where the jump to the bottom is made and does not cross the start of the
buffer.
-/

namespace Nulix.Screen

/-- The same viewport and, of a loaded buffer, the same 25 rows on the display. -/
structure SameView (d d' : Display) : Prop where
  viewport : d.sb.viewport = d'.sb.viewport
  window : d.sb.loaded = true → ∀ j, 0 ≤ j → j < vgaWidth * vgaHeight → d.vga.cells j = d'.vga.cells j

/-- Scrolling down by `n` rows, if there are not so many, does not start with the cursor on the row just
past the window, and jumps only where the 24 rows above the cursor do not cross the start of the
buffer. -/
def ClampFits (n : Int) (sb : Screenbuf) : Prop :=
  0 < n → sbLinesRoom sb n < n →
    sbLdiff sb.viewport sb.cursor ≠ vgaHeight ∧
      (sbLdiff sb.viewport sb.cursor > vgaHeight → vgaWidth * (vgaHeight - 1) ≤ sb.cursor)

variable {sb : Screenbuf} {d : Display}

/-! ## Room -/

/-- The rows above the viewport. -/
def Screenbuf.above (sb : Screenbuf) : Nat := (circular sb.top sb.viewport / 80).toNat

/-- The rows that the viewport can go down before the cursor is on the last one of the window. -/
def Screenbuf.below (sb : Screenbuf) : Nat := (circular sb.viewport sb.cursor / 80 - 24).toNat

/-- The buffer with its viewport moved by `n` rows. -/
def Screenbuf.moved (sb : Screenbuf) (n : Int) : Screenbuf :=
  { sb with viewport := sbAddline sb.viewport n }

theorem moved_zero (viewport : OnRow sb.viewport) : sb.moved 0 = sb := by
  have same : sbAddline sb.viewport 0 = sb.viewport := by
    rw [onRow_iff] at viewport
    rw [sbAddline_eq]
    omega
  rw [Screenbuf.moved, same]

theorem moved_moved (sb : Screenbuf) (m n : Int) : (sb.moved m).moved n = sb.moved (m + n) := by
  have same : sbAddline (sbAddline sb.viewport m) n = sbAddline sb.viewport (m + n) := by
    rw [sbAddline_eq, sbAddline_eq, sbAddline_eq]
    omega
  exact congrArg (fun viewport => { sb with viewport := viewport }) same

/-- Moving up takes from the rows above. -/
theorem above_moved (top : OnRow sb.top) (viewport : OnRow sb.viewport) {m : Nat}
    (room : m ≤ sb.above) : (sb.moved (-m)).above = sb.above - m := by
  rw [Screenbuf.above] at room ⊢
  rw [Screenbuf.above, Screenbuf.moved]
  dsimp only
  rw [onRow_iff] at top viewport
  rw [circular_eq] at room ⊢
  rw [circular_eq, sbAddline_eq]
  omega

/-- Moving down takes from the rows below. -/
theorem below_moved (viewport : OnRow sb.viewport) (cursor : OnRow sb.cursor) {m : Nat}
    (room : m ≤ sb.below) : (sb.moved m).below = sb.below - m := by
  rw [Screenbuf.below] at room ⊢
  rw [Screenbuf.below, Screenbuf.moved]
  dsimp only
  rw [onRow_iff] at viewport cursor
  rw [circular_eq] at room ⊢
  rw [circular_eq, sbAddline_eq]
  omega

theorem sbLinesRoom_up {n : Int} (up : n < 0) (top : OnRow sb.top) (viewport : OnRow sb.viewport) :
    sbLinesRoom sb n = sb.above := by
  have nonneg := circular_nonneg sb.top sb.viewport
  rw [sbLinesRoom, if_pos up, sbLdiff_rows top viewport, Screenbuf.above]
  omega

theorem sbLinesRoom_down {n : Int} (down : 0 < n) (viewport : OnRow sb.viewport)
    (cursor : OnRow sb.cursor) : sbLinesRoom sb n = circular sb.viewport sb.cursor / 80 - 24 := by
  rw [sbLinesRoom, if_neg (Int.not_lt.mpr down.le), sbLdiff_rows viewport cursor, vgaHeight_eq]
  rfl

theorem abs_down {n : Int} (down : 0 < n) : abs n = n := by
  rw [abs, if_neg (Int.not_lt.mpr down.le)]

/-- Going up as far as there is room. -/
theorem scrolled_up {n : Int} (up : n < 0) (top : OnRow sb.top) (viewport : OnRow sb.viewport) :
    { sb with viewport := sb.scrolled n } = sb.moved (-(min n.natAbs sb.above : Nat)) := by
  have magnitude : abs n = n.natAbs := by
    rw [abs, if_pos up]
    omega
  rw [Screenbuf.moved, Screenbuf.scrolled, sbLinesRoom_up up top viewport, magnitude, if_pos up]
  congr 1
  split_ifs with room
  · congr 1
    omega
  · -- all the rows above the viewport are up to the top
    rw [min_eq_right (by omega), Screenbuf.above]
    rw [onRow_iff] at top viewport
    rw [sbAddline_eq, circular_eq]
    omega

/-- Going down one row. -/
theorem scrolled_one (viewport : OnRow sb.viewport) (cursor : OnRow sb.cursor) :
    { sb with viewport := sb.scrolled 1 } = sb.moved (min 1 sb.below : Nat) := by
  have rows := sbLdiff_rows viewport cursor
  rw [Screenbuf.scrolled, sbLinesRoom_down (by decide) viewport cursor, abs_one,
    if_neg (by decide : ¬ (1 : Int) < 0), Screenbuf.below, Screenbuf.bottom, rows]
  by_cases room : circular sb.viewport sb.cursor / 80 - 24 ≥ 1
  · have one : min 1 (circular sb.viewport sb.cursor / 80 - 24).toNat = 1 := by omega
    rw [if_pos room, one]
    rfl
  · have none : min 1 (circular sb.viewport sb.cursor / 80 - 24).toNat = 0 := by omega
    rw [if_neg room, if_neg (by omega), none]
    exact (moved_zero viewport).symm

/-! ## Row by row -/

/-- One row up, again and again. -/
theorem iterate_up (k : Nat) (top : OnRow d.sb.top) (viewport : OnRow d.sb.viewport) :
    ((sbScroll (-1))^[k] d).sb = d.sb.moved (-(min k d.sb.above : Nat)) := by
  induction k with
  | zero =>
    rw [Nat.zero_min]
    exact (moved_zero viewport).symm
  | succ k ih =>
    have moved := onRow_sbAddline viewport (-(min k d.sb.above : Nat))
    have left := above_moved top viewport (Nat.min_le_right k d.sb.above)
    have step := @scrolled_up (d.sb.moved _) (-1) (by decide) top moved
    rw [Function.iterate_succ_apply', sbScroll_sb, ih, step, left, moved_moved]
    congr 1
    omega

/-- One row down, again and again. -/
theorem iterate_down (k : Nat) (viewport : OnRow d.sb.viewport) (cursor : OnRow d.sb.cursor) :
    ((sbScroll 1)^[k] d).sb = d.sb.moved (min k d.sb.below : Nat) := by
  induction k with
  | zero =>
    rw [Nat.zero_min]
    exact (moved_zero viewport).symm
  | succ k ih =>
    have moved := onRow_sbAddline viewport (min k d.sb.below : Nat)
    have left := below_moved viewport cursor (Nat.min_le_right k d.sb.below)
    have step := @scrolled_one (d.sb.moved _) moved cursor
    rw [Function.iterate_succ_apply', sbScroll_sb, ih, step, left, moved_moved]
    congr 1
    omega

/-! ## The display -/

/-- Two displays that show the same window. -/
theorem SameView.of_shown {d' : Display} (moved : d.sb = d'.sb) (shown : Synced d) (shown' : Synced d') :
    SameView d d' := by
  refine ⟨by rw [moved], fun loaded j low high => ?_⟩
  rw [shown loaded j low high, shown' (by rw [← moved]; exact loaded) j low high, moved]

/-- A scroll that has room redraws the window. -/
theorem synced_sbScroll {n : Int} (moves : n < 0 ∨ abs n ≤ sbLinesRoom d.sb n) :
    Synced (sbScroll n d) := by
  unfold sbScroll
  split_ifs with room up
  · exact synced_sbSync _
  · exact synced_sbScrollTop d
  · exact absurd (moves.resolve_left up) room

theorem synced_iterate {n : Int} (k : Nat) (synced : Synced d) : Synced ((sbScroll n)^[k] d) := by
  induction k with
  | zero => exact synced
  | succ k ih =>
    rw [Function.iterate_succ_apply']
    exact ih.scroll n

theorem synced_iterate_succ {n : Int} {k : Nat} (moves : n < 0 ∨ abs n ≤ sbLinesRoom d.sb n)
    (some : k ≠ 0) : Synced ((sbScroll n)^[k] d) := by
  obtain ⟨k, rfl⟩ := Nat.exists_eq_succ_of_ne_zero some
  exact synced_iterate k (synced_sbScroll moves)

/-- Without room, and with the cursor not past the row behind the window, scrolling down does
nothing. -/
theorem sbScroll_stays {n : Int} (down : 0 < n) (full : sbLinesRoom d.sb n < n)
    (near : sbLdiff d.sb.viewport d.sb.cursor ≤ vgaHeight) : sbScroll n d = d := by
  rw [sbScroll, abs_down down, if_neg (Int.not_le.mpr full), if_neg (Int.not_lt.mpr down.le), sbScrollDown,
    if_neg (Int.not_lt.mpr near)]

/-! ## All rows at once -/

/-- Scrolling by `n` rows as `|n|` calls that scroll by one. -/
def sbScrollRows (n : Int) (d : Display) : Display := (sbScroll n.sign)^[n.natAbs] d

theorem sameView_up {n : Int} (up : n < 0) (top : OnRow d.sb.top) (viewport : OnRow d.sb.viewport) :
    SameView (sbScroll n d) (sbScrollRows n d) := by
  have rows := iterate_up n.natAbs top viewport
  have synced : Synced ((sbScroll (-1))^[n.natAbs] d) :=
    synced_iterate_succ (.inl (by decide)) (by omega)
  rw [sbScrollRows, Int.sign_eq_neg_one_of_neg up]
  refine .of_shown ?_ (synced_sbScroll (.inl up)) synced
  rw [sbScroll_sb, scrolled_up up top viewport, rows]

/-- Down one row at a time. -/
theorem sbScrollRows_down {n : Int} (down : 0 < n) (viewport : OnRow d.sb.viewport)
    (cursor : OnRow d.sb.cursor) :
    (sbScrollRows n d).sb = d.sb.moved (min n.natAbs d.sb.below : Nat) := by
  rw [sbScrollRows, Int.sign_eq_one_of_pos down]
  exact iterate_down n.natAbs viewport cursor

theorem synced_sbScrollRows_down {n : Int} (down : 0 < n) (room : 1 ≤ sbLinesRoom d.sb 1) :
    Synced (sbScrollRows n d) := by
  rw [sbScrollRows, Int.sign_eq_one_of_pos down]
  exact synced_iterate_succ (.inr room) (by omega)

/-- Down where there is room. -/
theorem sameView_room {n : Int} (down : 0 < n) (viewport : OnRow d.sb.viewport)
    (cursor : OnRow d.sb.cursor) (enough : n ≤ sbLinesRoom d.sb n) :
    SameView (sbScroll n d) (sbScrollRows n d) := by
  have room := sbLinesRoom_down down viewport cursor
  have room' := sbLinesRoom_down (n := 1) (by decide) viewport cursor
  have all : min n.natAbs d.sb.below = n.natAbs := by
    rw [Screenbuf.below]
    omega
  refine .of_shown ?_ (synced_sbScroll (.inr ?_)) (synced_sbScrollRows_down down ?_)
  · rw [sbScrollRows_down down viewport cursor, all, sbScroll_sb, Screenbuf.scrolled, abs_down down,
      if_pos enough, Screenbuf.moved, Int.natAbs_of_nonneg down.le]
  · rw [abs_down down]
    exact enough
  · omega

/-- Down where the cursor is in the window: nothing moves. -/
theorem sameView_near {n : Int} (down : 0 < n) (viewport : OnRow d.sb.viewport)
    (cursor : OnRow d.sb.cursor) (near : sbLdiff d.sb.viewport d.sb.cursor < vgaHeight) :
    SameView (sbScroll n d) (sbScrollRows n d) := by
  have distance := sbLdiff_rows viewport cursor
  have stays : ∀ m, 0 < m → sbScroll m d = d := by
    intro m down
    have room := sbLinesRoom_down down viewport cursor
    refine sbScroll_stays down ?_ near.le
    rw [vgaHeight_eq] at near
    omega
  have still : sbScrollRows n d = d := by
    rw [sbScrollRows, Int.sign_eq_one_of_pos down]
    exact Function.iterate_fixed (stays 1 (by decide)) _
  rw [stays n down, still]
  exact ⟨rfl, fun _ _ _ _ => rfl⟩

/-- The bottom is where the viewport is once it went down by all rows below it, if the viewport is moved to
the bottom and does not cross the start of the buffer. -/
theorem bottom_eq_moved_iff (viewport : OnRow sb.viewport) (cursor : OnRow sb.cursor)
    (past : vgaHeight ≤ sbLdiff sb.viewport sb.cursor) :
    sb.bottom = (sb.moved sb.below).viewport ↔
      vgaHeight < sbLdiff sb.viewport sb.cursor ∧ vgaWidth * (vgaHeight - 1) ≤ sb.cursor := by
  have distance := sbLdiff_rows viewport cursor
  rw [Screenbuf.moved, Screenbuf.below, Screenbuf.bottom]
  dsimp only
  rw [distance, vgaHeight_eq] at past
  rw [distance, vgaWidth_eq, vgaHeight_eq, sbAddline_eq]
  rw [onRow_iff] at viewport cursor
  rw [circular_eq] at past ⊢
  split_ifs <;> omega

/-- Down to the bottom from where the cursor is past the window. -/
theorem sameView_clamped_iff {n : Int} (down : 0 < n) (viewport : OnRow d.sb.viewport)
    (cursor : OnRow d.sb.cursor) (full : sbLinesRoom d.sb n < n)
    (past : vgaHeight ≤ sbLdiff d.sb.viewport d.sb.cursor) :
    SameView (sbScroll n d) (sbScrollRows n d) ↔
      vgaHeight < sbLdiff d.sb.viewport d.sb.cursor ∧ vgaWidth * (vgaHeight - 1) ≤ d.sb.cursor := by
  have room := sbLinesRoom_down down viewport cursor
  have distance := sbLdiff_rows viewport cursor
  have jumps := bottom_eq_moved_iff viewport cursor past
  have moved := sbScrollRows_down down viewport cursor
  have all : min n.natAbs d.sb.below = d.sb.below := by
    rw [Screenbuf.below]
    omega
  have scrolls : sbScroll n d = sbScrollDown d := by
    rw [sbScroll, abs_down down, if_neg (Int.not_le.mpr full), if_neg (Int.not_lt.mpr down.le)]
  rw [all] at moved
  rw [← jumps, scrolls]
  constructor
  · intro same
    have viewports := same.viewport
    rw [sbScrollDown_sb, moved] at viewports
    exact viewports
  · intro bottom
    have far := (jumps.mp bottom).1
    rw [distance, vgaHeight_eq] at past
    refine .of_shown ?_ ?_ (synced_sbScrollRows_down down ?_)
    · rw [sbScrollDown_sb, bottom, moved]
      rfl
    · rw [sbScrollDown, if_pos far]
      exact synced_sbSync _
    · rw [sbLinesRoom_down (by decide) viewport cursor]
      omega

theorem sameView_down_iff {n : Int} (down : 0 < n) (viewport : OnRow d.sb.viewport)
    (cursor : OnRow d.sb.cursor) : SameView (sbScroll n d) (sbScrollRows n d) ↔ ClampFits n d.sb := by
  unfold ClampFits
  rcases lt_or_ge (sbLinesRoom d.sb n) n with full | room
  · rcases lt_or_ge (sbLdiff d.sb.viewport d.sb.cursor) vgaHeight with near | past
    · exact iff_of_true (sameView_near down viewport cursor near) fun _ _ => ⟨near.ne, fun far => by omega⟩
    · rw [sameView_clamped_iff down viewport cursor full past]
      constructor
      · exact fun ⟨far, high⟩ _ _ => ⟨far.ne', fun _ => high⟩
      · intro fits
        obtain ⟨other, high⟩ := fits down full
        have far := lt_of_le_of_ne past other.symm
        exact ⟨far, high far⟩
  · exact iff_of_true (sameView_room down viewport cursor room) fun _ full => absurd room (Int.not_le.mpr full)

/-- **Scrolling row by row.** From every state that a run reaches with the viewport inside the buffer,
scrolling by `n` rows and scrolling `|n|` times by one row leave the same view exactly if the clamped
case fits. -/
theorem sbScroll_additive_iff (sb : Screenbuf) (vga : Vga) (ops : List SbOp) (n : Int) (some : n ≠ 0)
    (low : 0 ≤ (sbRun sb vga ops).sb.viewport) :
    SameView (sbScroll n (sbRun sb vga ops)) (sbScrollRows n (sbRun sb vga ops)) ↔
      ClampFits n (sbRun sb vga ops).sb := by
  obtain ⟨top, below, cursor⟩ := pointersOk_sbRun sb vga ops
  have viewport : OnRow (sbRun sb vga ops).sb.viewport := ⟨low, below.2.1, below.2.2⟩
  rcases Int.lt_trichotomy n 0 with up | none | down
  · refine iff_of_true (sameView_up up top viewport) fun down => ?_
    exact absurd up (Int.lt_asymm down)
  · exact absurd none some
  · exact sameView_down_iff down viewport cursor

/-- From the top of thirty rows, down by more rows than there are. -/
theorem sbScroll_additive_iff_thirty_rows :
    SameView
        (sbScroll 9 (sbRun .zero .zero (List.replicate 30 (.putchar 0x0a) ++ [.scrollTop])))
        (sbScrollRows 9 (sbRun .zero .zero (List.replicate 30 (.putchar 0x0a) ++ [.scrollTop]))) ↔
      ClampFits 9 (sbRun .zero .zero (List.replicate 30 (.putchar 0x0a) ++ [.scrollTop])).sb :=
  sbScroll_additive_iff .zero .zero _ 9 (by decide) (by decide +kernel)

/-- After 25 new rows and one row back up, the cursor is on the row past the window: by two rows the
viewport does not move, by one row and another one it does. -/
theorem not_sameView_twenty_five_rows :
    ¬∀ (sb : Screenbuf) (vga : Vga) (ops : List SbOp) (n : Int), 1 ≤ n.natAbs → n.natAbs ≤ 200 →
      0 ≤ (sbRun sb vga ops).sb.viewport → (sbRun sb vga ops).sb.viewport < endbuf →
        SameView (sbScroll n (sbRun sb vga ops)) (sbScrollRows n (sbRun sb vga ops)) := by
  intro additive
  have same := additive .zero .zero (List.replicate 25 (.putchar 0x0a) ++ [.scroll (-1)]) 2 (by decide)
    (by decide) (by decide +kernel) (by decide +kernel)
  have viewport := same.viewport
  revert viewport
  decide +kernel

end Nulix.Screen
