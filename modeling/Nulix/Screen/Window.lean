import Nulix.Screen.Pointers

/-!
# The window on the display

`Shown` says that the display shows the 25 rows of the ring from the viewport on. The operations keep
it in four different ways: by a full redraw, by writing one cell to the display, by writing one cell
under a guard, and, in `sb_crlf`, by doing nothing. The last is right only because of what else is
known of a buffer, `ViewOk`: the window never reaches past the cursor into old rows.
-/

namespace Nulix.Screen

open Words

/-- The display shows the 25 rows from the viewport on. -/
def Shown (d : Display) : Prop :=
  ∀ j, 0 ≤ j → j < vgaWidth * vgaHeight →
    d.vga.cells j = d.sb.buf (sbAddline d.sb.viewport (j / vgaWidth) + j % vgaWidth)

/-- What the screen operations other than a backspace keep true of a buffer. The viewport is a row of
the buffer, or it was left below it by a jump to the bottom; it is on the way from the top to the
cursor, at the top or 24 rows above the cursor at least; and the rows past the cursor are blank. -/
structure ViewOk (limit : Nat) (sb : Screenbuf) : Prop where
  top : OnRow sb.top
  cursor : OnRow sb.cursor
  offset : sb.cursorOffset ≤ limit
  viewport : OnRow sb.viewport ∨ sb.viewport = sb.cursor - 1920 ∧ sb.cursor < 1920
  between : circular sb.top sb.viewport ≤ circular sb.top sb.cursor
  follows : circular sb.top sb.viewport = 0 ∨
    circular sb.top sb.viewport + 1920 ≤ circular sb.top sb.cursor
  blank : ∀ p, OnRow p → circular sb.top sb.cursor < circular sb.top p →
    ∀ j, 0 ≤ j → j < 80 → sb.buf (p + j) = sbWhitespace

variable {limit : Nat} {sb sb' : Screenbuf} {d : Display}

/-! ## Distances -/

theorem onRow_sbAddline_of_mod {p : Int} (rows : p % 80 = 0) (n : Int) :
    OnRow (sbAddline p n) := by
  rw [onRow_iff, sbAddline_eq]
  omega

theorem circular_le {a b : Int} (left : OnRow a) (right : OnRow b) : circular a b ≤ 15920 := by
  rw [onRow_iff] at left right
  rw [circular_eq]
  omega

theorem eq_of_circular {a b : Int} (left : OnRow a) (right : OnRow b) (zero : circular a b = 0) :
    b = a := by
  rw [onRow_iff] at left right
  rw [circular_eq] at zero
  omega

theorem circular_both (a b : Int) : circular (sbAddline a 1) (sbAddline b 1) = circular a b := by
  rw [circular_eq, circular_eq, sbAddline_eq, sbAddline_eq]
  omega

theorem circular_around (a : Int) : circular (sbAddline a 1) a = 15920 := by
  rw [circular_eq, sbAddline_eq]
  omega

theorem circular_full {a b : Int} (full : sbAddline b 1 = a) : circular a b = 15920 := by
  rw [sbAddline_eq] at full
  rw [circular_eq]
  omega

theorem circular_next {a b : Int} (left : OnRow a) (rows : b % 80 = 0)
    (below : sbAddline b 1 ≠ a) : circular a (sbAddline b 1) = circular a b + 80 := by
  rw [onRow_iff] at left
  rw [sbAddline_eq] at below
  rw [circular_eq, circular_eq, sbAddline_eq]
  omega

theorem circular_next_top {a b : Int} (left : OnRow a) (rows : b % 80 = 0)
    (some : circular a b ≠ 0) : circular (sbAddline a 1) b = circular a b - 80 := by
  rw [onRow_iff] at left
  rw [circular_eq] at some
  rw [circular_eq, circular_eq, sbAddline_eq]
  omega

namespace ViewOk

/-- A viewport below the buffer is as far from the cursor as the pointers say. -/
theorem sbDiff_viewport (ok : ViewOk limit sb) :
    sbDiff sb.viewport sb.cursor =
      circular sb.top sb.cursor - circular sb.top sb.viewport := by
  obtain ⟨top, cursor, -, viewport, between, -, -⟩ := ok
  simp only [onRow_iff, circular_eq] at *
  rw [sbDiff, endbuf_eq]
  split_ifs <;> omega

theorem sbLdiff_viewport (ok : ViewOk limit sb) :
    sbLdiff sb.viewport sb.cursor =
      (circular sb.top sb.cursor - circular sb.top sb.viewport) / 80 := by
  have between := ok.between
  rw [sbLdiff_of_nonneg, ok.sbDiff_viewport]
  rw [ok.sbDiff_viewport]
  omega

theorem sbLdiff_top (ok : ViewOk limit sb) :
    sbLdiff sb.top sb.viewport = circular sb.top sb.viewport / 80 := by
  obtain ⟨top, cursor, -, viewport, between, -, -⟩ := ok
  have diff : sbDiff sb.top sb.viewport = circular sb.top sb.viewport := by
    simp only [onRow_iff, circular_eq] at *
    rw [sbDiff, endbuf_eq]
    split_ifs <;> omega
  rw [sbLdiff_of_nonneg, diff]
  rw [diff, circular_eq]
  omega

/-! ## The ring -/

theorem mono {limit' : Nat} (ok : ViewOk limit sb) (le : sb.cursorOffset ≤ limit') :
    ViewOk limit' sb :=
  { ok with offset := le }

theorem congr (ok : ViewOk limit sb) (top : sb'.top = sb.top)
    (viewport : sb'.viewport = sb.viewport) (cursor : sb'.cursor = sb.cursor)
    (offset : sb'.cursorOffset = sb.cursorOffset) (buf : sb'.buf = sb.buf) :
    ViewOk limit sb' := by
  obtain ⟨_, _, _, _, _, _, _⟩ := ok
  constructor <;> simp only [top, viewport, cursor, offset, buf] <;> assumption

end ViewOk

theorem viewOk_blank (top : sb.top = 0) (viewport : sb.viewport = 0) (cursor : sb.cursor = 0)
    (offset : sb.cursorOffset = 0)
    (blank : ∀ i, 0 ≤ i → i < 16000 → sb.buf i = sbWhitespace) : ViewOk limit sb := by
  constructor
  · rw [top]
    exact onRow_zero
  · rw [cursor]
    exact onRow_zero
  · rw [offset]
    exact Nat.zero_le _
  · rw [viewport]
    exact .inl onRow_zero
  · rw [top, viewport, cursor]
  · rw [top, viewport]
    exact .inl rfl
  · intro p row _ j low high
    rw [onRow_iff] at row
    exact blank _ (by omega) (by omega)

namespace ViewOk

/-- A viewport that is a row on the way from top to cursor, and far enough from it. -/
theorem withViewport (ok : ViewOk limit sb) {v : Int}
    (row : OnRow v ∨ v = sb.cursor - 1920 ∧ sb.cursor < 1920)
    (between : circular sb.top v ≤ circular sb.top sb.cursor)
    (follows : circular sb.top v = 0 ∨ circular sb.top v + 1920 ≤ circular sb.top sb.cursor) :
    ViewOk limit { sb with viewport := v } :=
  { ok with viewport := row, between := between, follows := follows }

theorem scrollTop (ok : ViewOk limit sb) : ViewOk limit { sb with viewport := sb.top } := by
  have start := circular_self sb.top
  have nonneg := circular_nonneg sb.top sb.cursor
  exact ok.withViewport (.inl ok.top) (start.trans_le nonneg) (.inl start)

theorem bottom (ok : ViewOk limit sb) : ViewOk limit { sb with viewport := sb.bottom } := by
  have rows := ok.sbLdiff_viewport
  unfold Screenbuf.bottom
  split_ifs with far
  · rw [rows] at far
    obtain ⟨top, cursor, -, viewport, between, follows, -⟩ := id ok
    simp only [onRow_iff, circular_eq] at *
    refine ok.withViewport ?_ ?_ ?_
    · rw [onRow_iff]
      omega
    · simp only [circular_eq]
      omega
    · simp only [circular_eq]
      omega
  · exact ok

/-- Scrolling by any number of rows. -/
theorem scrolled (ok : ViewOk limit sb) (n : Int) :
    ViewOk limit { sb with viewport := sb.scrolled n } := by
  have above := ok.sbLdiff_top
  have below := ok.sbLdiff_viewport
  unfold Screenbuf.scrolled
  split_ifs with room up
  · obtain ⟨top, cursor, -, viewport, between, follows, -⟩ := id ok
    rw [sbLinesRoom, above, below, vgaHeight_eq, abs] at room
    simp only [onRow_iff, circular_eq] at *
    refine ok.withViewport ?_ ?_ ?_
    · rw [onRow_iff, sbAddline_eq]
      omega
    · rw [sbAddline_eq]
      simp only [circular_eq]
      split_ifs at room <;> omega
    · rw [sbAddline_eq]
      simp only [circular_eq]
      split_ifs at room <;> omega
  · exact ok.scrollTop
  · exact ok.bottom

/-- A store at a column of the cursor's row. -/
theorem store (ok : ViewOk 79 sb) (word : Cell) : ViewOk 80 (sb.store word).incOffset := by
  have offset := ok.offset
  obtain ⟨top, cursor, -, viewport, between, follows, blank⟩ := ok
  refine ⟨top, cursor, ?_, viewport, between, follows, fun p row far j low high => ?_⟩
  · show u16 (sb.cursorOffset + 1) ≤ 80
    rw [u16_of_lt (by omega)]
    omega
  · show Function.update sb.buf (sb.cursor + sb.cursorOffset) word (p + j) = sbWhitespace
    have other : p + j ≠ sb.cursor + sb.cursorOffset := by
      intro same
      have rows : p = sb.cursor := by
        rw [onRow_iff] at row cursor
        omega
      rw [rows] at far
      exact lt_irrefl _ far
    rw [Function.update_of_ne other]
    exact blank p row far j low high

/-- Unless `sb_crlf` moves the viewport off the row it takes, the distance to the cursor grows by
one row. -/
theorem sbLdiff_next (ok : ViewOk limit sb)
    (kept : ¬ (sbAddline sb.cursor 1 = sb.top ∧ sb.viewport = sb.top)) :
    sbLdiff sb.viewport (sbAddline sb.cursor 1) =
      (circular sb.top sb.cursor - circular sb.top sb.viewport) / 80 + 1 := by
  obtain ⟨top, cursor, -, viewport, between, follows, -⟩ := ok
  have diff : sbDiff sb.viewport (sbAddline sb.cursor 1) =
      circular sb.top sb.cursor - circular sb.top sb.viewport + 80 := by
    simp only [onRow_iff, circular_eq, sbAddline_eq] at *
    rw [sbDiff, endbuf_eq]
    split_ifs <;> omega
  rw [sbLdiff_of_nonneg, diff]
  · omega
  · rw [diff]
    omega

theorem crlfViewport_kept (ok : ViewOk limit sb)
    (kept : ¬ (sbAddline sb.cursor 1 = sb.top ∧ sb.viewport = sb.top)) :
    sb.crlfViewport (sbAddline sb.cursor 1) =
      if (circular sb.top sb.cursor - circular sb.top sb.viewport) / 80 = 24 then
        sbAddline sb.viewport 1
      else sb.viewport := by
  rw [Screenbuf.crlfViewport, if_neg kept, ok.sbLdiff_next kept]
  congr 1
  rw [eq_iff_iff]
  omega

theorem crlfViewport_moved (ok : ViewOk limit sb) (full : sbAddline sb.cursor 1 = sb.top)
    (first : sb.viewport = sb.top) :
    sb.crlfViewport (sbAddline sb.cursor 1) = sbAddline sb.top 1 := by
  have second := onRow_sbAddline ok.top 1
  have rows := sbLdiff_rows second ok.top
  have far : circular (sbAddline sb.top 1) sb.top = 15920 := by
    have top := ok.top
    simp only [onRow_iff, circular_eq, sbAddline_eq] at *
    omega
  rw [Screenbuf.crlfViewport, if_pos (c := _ ∧ _) ⟨full, first⟩, full, rows, far, if_neg (by decide)]

/-- A viewport below the buffer is 24 rows above the cursor. -/
theorem row_or_above (ok : ViewOk limit sb) :
    OnRow sb.viewport ∨ circular sb.top sb.viewport + 1920 = circular sb.top sb.cursor := by
  rcases ok.viewport with row | ⟨below, near⟩
  · exact .inl row
  · have between := ok.between
    rw [below] at between ⊢
    simp only [circular_eq] at *
    omega

theorem viewport_mod (ok : ViewOk limit sb) : sb.viewport % 80 = 0 := by
  have cursor := ok.cursor
  rw [onRow_iff] at cursor
  rcases ok.viewport with row | ⟨below, near⟩
  · exact row.2.2
  · omega

/-- The row after the cursor in a full buffer, where the oldest row is given up. -/
theorem newRow_full (ok : ViewOk limit sb) (full : sbAddline sb.cursor 1 = sb.top) :
    ViewOk 79 (sb.newRow (sbAddline sb.cursor 1)) := by
  have second := onRow_sbAddline ok.top 1
  have moved := onRow_sbAddline_of_mod ok.viewport_mod 1
  have row := ok.row_or_above
  have between := ok.between
  have follows := ok.follows
  have last := circular_full full
  have around : circular (sbAddline sb.top 1) sb.top = 15920 := circular_around sb.top
  -- no row lies past the new cursor
  have none : ∀ p, OnRow p → circular (sbAddline sb.top 1) sb.top <
      circular (sbAddline sb.top 1) p → ∀ j, 0 ≤ j → j < 80 →
        sbMemset sb.top sbWhitespace 80 sb.buf (p + j) = sbWhitespace := by
    intro p row far
    have bound := circular_le second row
    omega
  by_cases first : sb.viewport = sb.top
  · rw [Screenbuf.newRow, ok.crlfViewport_moved full first, full, if_pos rfl]
    have start := circular_self (sbAddline sb.top 1)
    refine ⟨second, ok.top, Nat.zero_le _, .inl second, ?_, .inl start, none⟩
    dsimp only
    omega
  · have kept : ¬ (sbAddline sb.cursor 1 = sb.top ∧ sb.viewport = sb.top) :=
      fun both => first both.2
    have view := ok.crlfViewport_kept kept
    rw [full] at view
    have some : circular sb.top sb.viewport ≠ 0 := by
      intro zero
      have on := row.resolve_right (by omega)
      exact first (eq_of_circular ok.top on zero)
    have less := circular_next_top ok.top ok.viewport_mod some
    rw [Screenbuf.newRow, full, view, if_pos rfl]
    split_ifs with scrolls
    · have back : circular (sbAddline sb.top 1) (sbAddline sb.viewport 1) =
          circular sb.top sb.viewport := circular_both sb.top sb.viewport
      refine ⟨second, ok.top, Nat.zero_le _, .inl moved, ?_, ?_, none⟩
      · dsimp only
        omega
      · dsimp only
        omega
    · refine ⟨second, ok.top, Nat.zero_le _, .inl (row.resolve_right (by omega)), ?_, ?_, none⟩
      · dsimp only
        omega
      · dsimp only
        omega

/-- The row after the cursor where there is room for one. -/
theorem newRow_room (ok : ViewOk limit sb) (full : sbAddline sb.cursor 1 ≠ sb.top) :
    ViewOk 79 (sb.newRow (sbAddline sb.cursor 1)) := by
  have next := onRow_sbAddline ok.cursor 1
  have moved := onRow_sbAddline_of_mod ok.viewport_mod 1
  have row := ok.row_or_above
  have between := ok.between
  have follows := ok.follows
  have kept : ¬ (sbAddline sb.cursor 1 = sb.top ∧ sb.viewport = sb.top) := fun both => full both.1
  have grown := circular_next ok.top ok.cursor.2.2 full
  have blank : ∀ p, OnRow p → circular sb.top (sbAddline sb.cursor 1) < circular sb.top p →
      ∀ j, 0 ≤ j → j < 80 →
        sbMemset (sbAddline sb.cursor 1) sbWhitespace 80 sb.buf (p + j) = sbWhitespace := by
    intro p row far j low high
    rw [sbMemset_apply]
    split_ifs
    · rfl
    · exact ok.blank p row (by omega) j low high
  rw [Screenbuf.newRow, ok.crlfViewport_kept kept, if_neg full]
  split_ifs with scrolls
  · have below : sbAddline sb.viewport 1 ≠ sb.top := by
      intro same
      have far := circular_full same
      have bound := circular_le ok.top ok.cursor
      omega
    have more := circular_next ok.top ok.viewport_mod below
    refine ⟨ok.top, next, Nat.zero_le _, .inl moved, ?_, ?_, blank⟩
    · dsimp only
      omega
    · dsimp only
      omega
  · refine ⟨ok.top, next, Nat.zero_le _, .inl (row.resolve_right (by omega)), ?_, ?_, blank⟩
    · dsimp only
      omega
    · dsimp only
      omega

/-- The row after the cursor. -/
theorem newRow (ok : ViewOk limit sb) : ViewOk 79 (sb.newRow (sbAddline sb.cursor 1)) := by
  by_cases full : sbAddline sb.cursor 1 = sb.top
  · exact ok.newRow_full full
  · exact ok.newRow_room full

end ViewOk

/-! ## The display -/

/-- A loaded buffer is shown. -/
def Synced (d : Display) : Prop := d.sb.loaded = true → Shown d

theorem sbSyncRows_apply (sb : Screenbuf) (cells : Int → Cell) (n : Nat) (j : Int) :
    sbSyncRows sb cells n j =
      if 0 ≤ j ∧ j < 80 * n then sb.buf (sbAddline sb.viewport (j / 80) + j % 80)
      else cells j := by
  induction n with
  | zero =>
    rw [sbSyncRows, if_neg (by omega)]
  | succ n ih =>
    rw [sbSyncRows, memcpyCells, ih, vgaWidth_eq]
    push_cast
    by_cases here : (n : Int) * 80 ≤ j ∧ j < n * 80 + 80
    · have row : j / 80 = n := by omega
      have column : j - n * 80 = j % 80 := by omega
      rw [if_pos (by omega), if_pos (by omega), row, column]
    · rw [if_neg (by omega)]
      split_ifs <;> first | rfl | omega

/-- A full redraw shows the buffer. -/
theorem synced_sbSync (d : Display) : Synced (sbSync d) := by
  intro loaded j low high
  rw [sbSync_sb] at loaded ⊢
  have cells : (sbSync d).vga.cells = sbSyncRows d.sb d.vga.cells 25 := by
    rw [sbSync, if_pos loaded]
    simp only [cursorUpdate_cells, vgaHeight_toNat]
  rw [cells, sbSyncRows_apply, if_pos ⟨low, by simpa using high⟩]
  rfl

theorem Shown.congr (shown : Shown d) {d' : Display} (cells : d'.vga.cells = d.vga.cells)
    (viewport : d'.sb.viewport = d.sb.viewport) (buf : d'.sb.buf = d.sb.buf) : Shown d' := by
  unfold Shown
  rw [cells, viewport, buf]
  exact shown

theorem synced_sbScrollTop (d : Display) : Synced (sbScrollTop d) :=
  synced_sbSync _

theorem Synced.scrollDown (synced : Synced d) : Synced (sbScrollDown d) := by
  unfold sbScrollDown
  split_ifs
  · exact synced_sbSync _
  · exact synced

theorem Synced.scroll (synced : Synced d) (n : Int) : Synced (sbScroll n d) := by
  unfold sbScroll
  split_ifs
  · exact synced_sbSync _
  · exact synced_sbScrollTop d
  · exact synced.scrollDown

/-- The cell of the window at the cursor is the one that the display updates write. -/
theorem ViewOk.window_cell (ok : ViewOk 79 sb) {j : Int} (low : 0 ≤ j) (high : j < 2000) :
    sbAddline sb.viewport (j / 80) + j % 80 = sb.cursor + sb.cursorOffset ↔
      j = sbDiff sb.viewport sb.cursor + sb.cursorOffset := by
  have rows := ok.viewport_mod
  have offset := ok.offset
  have cursor := ok.cursor
  have viewport := ok.viewport
  simp only [onRow_iff] at cursor viewport
  rw [sbDiff, endbuf_eq, sbAddline_eq]
  split_ifs <;> omega

/-- A character and its cell on the display. Past the window the display need not be written. -/
theorem Shown.store (shown : Shown d) (ok : ViewOk 79 d.sb) {word : Cell} {d' : Display}
    (sb : d'.sb = (d.sb.store word).incOffset)
    (written : ∀ j, 0 ≤ j → j < 2000 → d'.vga.cells j =
      if j = sbDiff d.sb.viewport d.sb.cursor + d.sb.cursorOffset then word else d.vga.cells j) :
    Shown d' := by
  intro j low high
  rw [sb, written j low high]
  show _ = Function.update d.sb.buf (d.sb.cursor + d.sb.cursorOffset) word
    (sbAddline d.sb.viewport (j / 80) + j % 80)
  rw [Function.update_apply]
  simp only [ok.window_cell low high]
  split_ifs
  · rfl
  · exact shown j low high

/-- What the invariants say together. -/
structure Visible (limit : Nat) (d : Display) : Prop where
  view : ViewOk limit d.sb
  synced : Synced d

theorem sbWriteWord_cells {word : Cell} (loaded : d.sb.loaded = true) :
    (sbWriteWord word d).vga.cells =
      if (sbDiff d.sb.viewport d.sb.cursor).tdiv 80 < 25 then
        Function.update d.vga.cells (sbDiff d.sb.viewport d.sb.cursor + d.sb.cursorOffset) word
      else d.vga.cells := by
  simp only [sbWriteWord, store_loaded, loaded, if_true, store_viewport, store_cursor,
    store_cursorOffset, vgaWidth_eq, vgaHeight_eq]
  by_cases near : (sbDiff d.sb.viewport d.sb.cursor).tdiv 80 < 25
  · simp only [near, if_true]
  · simp only [near, if_false]

theorem Visible.writeWord (visible : Visible 79 d) (word : Cell) :
    Visible 80 { sb := (d.sb.store word).incOffset, vga := (sbWriteWord word d).vga } := by
  have view := visible.view
  refine ⟨view.store word, fun loaded => ?_⟩
  have on : d.sb.loaded = true := loaded
  refine (visible.synced on).store view rfl fun j low high => ?_
  have diff := view.sbDiff_viewport
  have between := view.between
  dsimp only
  rw [sbWriteWord_cells on, Int.tdiv_eq_ediv_of_nonneg (by omega)]
  split_ifs with near here here
  · rw [here, Function.update_self]
  · rw [Function.update_of_ne here]
  · omega
  · rfl

theorem Visible.congr (visible : Visible limit d) {d' : Display} (sb : d'.sb = d.sb)
    (cells : d'.vga.cells = d.vga.cells) : Visible limit d' := by
  constructor
  · rw [sb]
    exact visible.view
  · intro loaded
    rw [sb] at loaded
    exact (visible.synced loaded).congr cells (by rw [sb]) (by rw [sb])

/-! ## New rows -/

/-- Where `sb_crlf` neither redraws nor moves the viewport, the window does not contain the row that it
clears, or contains it blank. -/
theorem ViewOk.window_newRow (ok : ViewOk limit sb)
    (kept : ¬ (sbAddline sb.cursor 1 = sb.top ∧ sb.viewport = sb.top)) {j : Int} (low : 0 ≤ j)
    (high : j < 2000) :
    sbMemset (sbAddline sb.cursor 1) sbWhitespace 80 sb.buf
        (sbAddline sb.viewport (j / 80) + j % 80) =
      sb.buf (sbAddline sb.viewport (j / 80) + j % 80) := by
  have row := onRow_sbAddline_of_mod ok.viewport_mod (j / 80)
  have next := onRow_sbAddline ok.cursor 1
  rw [sbMemset_apply]
  split_ifs with cleared
  · have same : sbAddline sb.viewport (j / 80) = sbAddline sb.cursor 1 := by
      simp only [onRow_iff] at row next
      omega
    have notFull : sbAddline sb.cursor 1 ≠ sb.top := by
      -- the window would reach around the ring to the top
      intro full
      have last := circular_full full
      have follows := ok.follows
      have some : circular sb.top sb.viewport ≠ 0 := by
        intro zero
        have on := ok.row_or_above.resolve_right (by omega)
        exact kept ⟨full, eq_of_circular ok.top on zero⟩
      rw [full, sbAddline_eq] at same
      simp only [circular_eq] at *
      omega
    have grown := circular_next ok.top ok.cursor.2.2 notFull
    rw [same]
    exact (ok.blank _ next (by omega) (j % 80) (by omega) (by omega)).symm
  · rfl

theorem synced_sbCrlfTop (visible : Visible limit d) :
    Synced (sbCrlfTop { d with sb := d.sb.openRow }) := by
  have cleared : ¬ (sbAddline d.sb.cursor 1 = d.sb.top ∧ d.sb.viewport = d.sb.top) →
      Synced { d with sb := d.sb.openRow } := by
    intro kept loaded j low high
    have shown := visible.synced loaded j low high
    have window := visible.view.window_newRow kept low high
    rw [openRow_eq]
    simp only [vgaWidth_eq] at shown ⊢
    rw [window]
    exact shown
  unfold sbCrlfTop
  rw [openRow_eq] at cleared ⊢
  dsimp only
  by_cases full : sbAddline d.sb.cursor 1 = d.sb.top
  · rw [if_pos full]
    by_cases first : d.sb.viewport = d.sb.top
    · rw [if_pos first]
      intro loaded
      exact (synced_sbSync _ loaded).congr rfl rfl rfl
    · rw [if_neg first]
      intro loaded
      exact (cleared (fun both => first both.2) loaded).congr rfl rfl rfl
  · rw [if_neg full]
    exact cleared fun both => full both.1

theorem Visible.crlf (visible : Visible limit d) : Visible 79 (sbCrlf d) := by
  refine ⟨?_, ?_⟩
  · rw [sbCrlf_sb]
    exact visible.view.newRow
  · have top := synced_sbCrlfTop visible
    unfold sbCrlf
    dsimp only
    split_ifs
    · exact top.scroll 1
    · exact top

theorem Visible.wrap (visible : Visible 80 d) :
    Visible 79 (if (d.sb.cursorOffset : Int) = vgaWidth then sbCrlf d else d) := by
  split_ifs with full
  · exact visible.crlf
  · have offset := visible.view.offset
    rw [vgaWidth_eq] at full
    exact ⟨visible.view.mono (by omega), visible.synced⟩

/-! ## Operations -/

theorem Visible.tabulationLoop (fuel : Nat) (visible : Visible 79 d) :
    Visible 80 (sbTabulationLoop fuel d) := by
  induction fuel generalizing d with
  | zero => exact ⟨visible.view.mono (visible.view.offset.trans (by omega)), visible.synced⟩
  | succ fuel ih =>
    have next := visible.writeWord (d.sb.cell 0)
    rw [sbTabulationLoop, sbWriteWord_sb]
    dsimp only
    split_ifs with again
    · rw [vgaWidth_eq] at again
      exact ih ⟨next.view.mono (by dsimp only; omega), next.synced⟩
    · exact next

theorem Visible.regular (visible : Visible 79 d) (c : BitVec 8) : Visible 79 (sbRegular c d) := by
  have view := visible.view
  have offset := view.offset
  have column : (d.sb.store (sbRegularCell d.sb c)).incOffset.cursorOffset =
      d.sb.cursorOffset + 1 := u16_of_lt (Nat.lt_of_le_of_lt (Nat.succ_le_succ offset) (by decide))
  unfold sbRegular
  dsimp only
  refine Visible.wrap ?_
  split_ifs with loaded
  · refine ⟨view.store _, fun _ => (visible.synced loaded).store view rfl fun j low high => ?_⟩
    -- one cell is copied, the one just stored
    have copied : (d.sb.store (sbRegularCell d.sb c)).incOffset.buf
        (d.sb.cursor + d.sb.cursorOffset) = sbRegularCell d.sb c := Function.update_self ..
    show memcpyCells d.vga.cells (sbDiff d.sb.viewport d.sb.cursor +
      (d.sb.store (sbRegularCell d.sb c)).incOffset.cursorOffset - 1)
      (d.sb.store (sbRegularCell d.sb c)).incOffset.buf
      (d.sb.cursor + (d.sb.store (sbRegularCell d.sb c)).incOffset.cursorOffset - 1) 1 j = _
    rw [memcpyCells, column]
    push_cast
    split_ifs with here there there
    · refine Eq.trans (congrArg _ ?_) copied
      omega
    · omega
    · omega
    · rfl
  · exact ⟨view.store _, fun on => absurd on loaded⟩

theorem Visible.putchar {c : BitVec 8} (visible : Visible 79 d) (noErase : c ≠ 0x08) :
    Visible 79 (sbPutchar c d) := by
  have written : Visible 79 (sbPutcharSwitch c d) := by
    unfold sbPutcharSwitch
    split_ifs
    · exact visible.crlf
    · exact (visible.tabulationLoop tabsize).wrap
    · exact visible.regular c
  rw [sbPutchar_eq]
  refine written.congr ?_ ?_
  · dsimp only
  · simp only [cursorUpdate_cells]

/-- The operations other than a character. -/
theorem ViewOk.run {op : SbOp} (ok : ViewOk 79 d.sb)
    (prints : ∀ c, op ≠ .putchar c) : ViewOk 79 (op.run d).sb := by
  rw [SbOp.run_sb]
  cases op with
  | putchar c => exact absurd rfl (prints c)
  | scroll n => exact ok.scrolled n
  | scrollTop => exact ok.scrollTop
  | scrollDown => exact ok.bottom
  | clear =>
    refine viewOk_blank rfl rfl rfl rfl fun i low high => ?_
    dsimp only [SbOp.onBuffer]
    rw [sbMemset_apply, if_pos ⟨low, by omega⟩]
  | load | unload | setColor | setFg | setBg => exact ok.congr rfl rfl rfl rfl rfl

theorem Synced.run {op : SbOp} (synced : Synced d) (prints : ∀ c, op ≠ .putchar c) :
    Synced (op.run d) := by
  cases op with
  | putchar c => exact absurd rfl (prints c)
  | scroll n => exact synced.scroll n
  | scrollTop => exact synced_sbScrollTop d
  | scrollDown => exact synced.scrollDown
  | load | clear => exact synced_sbSync _
  | unload => exact nofun
  | setColor | setFg | setBg => exact fun on => (synced on).congr rfl rfl rfl

/-- One operation. -/
theorem Visible.run {op : SbOp} (visible : Visible 79 d)
    (noErase : op ≠ .putchar 0x08) : Visible 79 (op.run d) := by
  cases op with
  | putchar c => exact visible.putchar fun same => noErase (by rw [same])
  | scroll | scrollTop | scrollDown | load | unload | clear | setColor | setFg | setBg =>
    exact ⟨visible.view.run nofun, visible.synced.run nofun⟩

end Nulix.Screen
