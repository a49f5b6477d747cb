import Nulix.Screen.Pointers
import Nulix.Lib.Ring
import Mathlib.Logic.Function.Iterate

/-!
# The screen buffer as a terminal

`Terminal` is what the screen buffer is for: a list of rows that only grows, the last of them under
construction. `Mirrors` relates a buffer to a terminal, the rows of the ring from top to cursor being
the latest 200 rows of the terminal. Every operation but the backspace keeps the two in step, as long
as a character is stored in the current color; `sb_regular` sign-extends the character, so this fails
for a character from `0x80` on (`ColorKept`).
-/

namespace Nulix.Screen

open Words Runs Ring

/-! ## The terminal -/

abbrev Row := Fin 80 → Cell

def Row.blank : Row := fun _ => sbWhitespace

/-- The finished rows, oldest first, the row of the cursor, and the column and the color of the next
character. -/
structure Terminal where
  rows : List Row
  row : Row
  column : Fin 80
  color : BitVec 8

namespace Terminal

/-- The whole text. -/
def text (t : Terminal) : List Row := t.rows ++ [t.row]

def start : Terminal where
  rows := []
  row := Row.blank
  column := 0
  color := sbDflColor

def newline (t : Terminal) : Terminal :=
  { t with rows := t.text, row := Row.blank, column := 0 }

/-- Write one cell; a full row is left at once. -/
def put (cell : Cell) (t : Terminal) : Terminal :=
  let t := { t with row := Function.update t.row t.column cell }
  if inRow : (t.column : Nat) + 1 < 80 then { t with column := ⟨t.column + 1, inRow⟩ } else t.newline

/-- The cell of a character: its code below the color. -/
def cell (t : Terminal) (c : BitVec 8) : Cell := c.setWidth 16 ||| t.color.setWidth 16 <<< 8

/-- Write NUL cells up to the next multiple of 4. -/
def tab (t : Terminal) : Terminal := (put (t.cell 0))^[4 - t.column % 4] t

def putchar (c : BitVec 8) (t : Terminal) : Terminal :=
  if c = 0x0a then t.newline
  else if c = 0x09 then t.tab
  else t.put (t.cell c)

/-- An operation of the screen buffer. Moving the window does not concern the terminal. -/
def step : SbOp → Terminal → Terminal
  | .putchar c, t => t.putchar c
  | .clear, t => { start with color := t.color }
  | .setColor color, t => { t with color := color }
  | .setFg fg, t => { t with color := (t.color &&& 0xf0) ||| (fg.value &&& 0x0f) }
  | .setBg bg, t => { t with color := ((bg.value <<< 4) &&& 0xf0) ||| (t.color &&& 0x0f) }
  | .scroll _, t | .scrollTop, t | .scrollDown, t | .load, t | .unload, t => t

end Terminal

/-! ## Rows of the ring -/

/-- The row of cells from `p` on. -/
def Screenbuf.rowAt (sb : Screenbuf) (p : Int) : Row := fun j => sb.buf (p + j)

/-- The rows of the ring, read circularly from top to cursor. -/
def Screenbuf.ringRows (sb : Screenbuf) : List Row :=
  (List.range ((circular sb.top sb.cursor / vgaWidth).toNat + 1)).map fun i : Nat =>
    sb.rowAt (sbAddline sb.top i)

/-- Row number `r` of the buffer. -/
def Screenbuf.slot (sb : Screenbuf) (r : Nat) : Row := sb.rowAt (80 * r)

/-- The buffer holds the latest rows of the terminal, with the cursor on the last one. -/
structure Mirrors (sb : Screenbuf) (t : Terminal) : Prop where
  rows : ∃ a n : Nat, a < 200 ∧ n < 200 ∧ sb.top = 80 * a ∧ sb.cursor = 80 * ahead 200 a n ∧
    Recent sb.slot 200 a (n + 1) t.text
  column : sb.cursorOffset = t.column
  color : sb.color = t.color

/-- A printable character has its top bit clear, unless the color covers the sign bits anyway. -/
def ColorKept (op : SbOp) (d : Display) : Prop :=
  ∀ c, op = .putchar c → c ≠ 0x0a → c ≠ 0x09 → c.msb = false ∨ d.sb.color = 0xff

variable {sb sb' : Screenbuf} {t : Terminal}

theorem Mirrors.congr (mirrors : Mirrors sb t) (top : sb'.top = sb.top)
    (cursor : sb'.cursor = sb.cursor) (column : sb'.cursorOffset = sb.cursorOffset)
    (color : sb'.color = sb.color) (buf : sb'.buf = sb.buf) : Mirrors sb' t := by
  have slot : sb'.slot = sb.slot := by
    funext r j
    rw [Screenbuf.slot, Screenbuf.rowAt, buf]
    rfl
  constructor
  · rw [top, cursor, slot]
    exact mirrors.rows
  · rw [column]
    exact mirrors.column
  · rw [color]
    exact mirrors.color

/-- What the invariant says about the rows of the ring, from the top to the cursor. -/
theorem Mirrors.ringRows (mirrors : Mirrors sb t) :
    sb.ringRows = t.text.drop (t.text.length - 200) := by
  obtain ⟨a, n, ha, hn, top, cursor, recent⟩ := mirrors.rows
  have count : (circular sb.top sb.cursor / vgaWidth).toNat = n := by
    rw [circular_eq, top, cursor, vgaWidth_eq, ahead]
    split_ifs <;> omega
  have rows : sb.ringRows = contents sb.slot 200 a (n + 1) := by
    rw [Screenbuf.ringRows, count, contents]
    apply List.map_congr_left
    intro i mem
    have hi : i < n + 1 := List.mem_range.mp mem
    rw [Screenbuf.slot, sbAddline_eq, top]
    congr 1
    unfold ahead
    split_ifs <;> omega
  have all := recent.count
  have last : t.text.length - (n + 1) = t.text.length - 200 := by omega
  rw [rows, recent.holds, last]

/-- A buffer of blank cells with the pointers at its start is an empty terminal. -/
theorem mirrors_blank {color : BitVec 8} (top : sb.top = 0) (cursor : sb.cursor = 0)
    (column : sb.cursorOffset = 0) (colored : sb.color = color)
    (blank : ∀ i, 0 ≤ i → i < 16000 → sb.buf i = sbWhitespace) :
    Mirrors sb { Terminal.start with color := color } := by
  refine ⟨⟨0, 0, by decide, by decide, top, cursor, rfl, ?_⟩, column, colored⟩
  have row : sb.slot 0 = Row.blank := by
    funext j
    have hj : (j : Nat) < 80 := j.isLt
    exact blank _ (by omega) (by omega)
  show [sb.slot 0] = [Row.blank]
  rw [row]

/-! ## New rows and characters -/

/-- A new row changes the slot that it takes only. -/
theorem slot_newRow (sb : Screenbuf) {next : Nat} (row : sbAddline sb.cursor 1 = 80 * next) (r : Nat) :
    (sb.newRow (sbAddline sb.cursor 1)).slot r = if r = next then Row.blank else sb.slot r := by
  funext j
  have hj : (j : Nat) < 80 := j.isLt
  rw [Screenbuf.slot, Screenbuf.rowAt, Screenbuf.newRow, row]
  dsimp only
  rw [sbMemset_apply]
  by_cases new : r = next
  · rw [if_pos new, if_pos (by omega)]
    rfl
  · rw [if_neg new, if_neg (by omega)]
    rfl

/-- The slot after that of the cursor. -/
theorem sbAddline_ahead {p : Int} {a n : Nat} (ha : a < 200) (hn : n < 200)
    (row : p = 80 * ahead 200 a n) : sbAddline p 1 = 80 * ahead 200 a ((n + 1) % 200) := by
  rw [sbAddline_eq, row]
  unfold ahead
  split_ifs <;> omega

section

variable {a n : Nat}

/-- While the ring is not full, the new row takes the slot behind the rows. -/
theorem newRow_room (ha : a < 200) (room : n + 1 < 200) (top : sb.top = 80 * a)
    (cursor : sb.cursor = 80 * ahead 200 a n) (recent : Recent sb.slot 200 a (n + 1) t.text) :
    (sb.newRow (sbAddline sb.cursor 1)).top = 80 * a ∧
      sbAddline sb.cursor 1 = 80 * ahead 200 a (n + 1) ∧
      Recent (sb.newRow (sbAddline sb.cursor 1)).slot 200 a (n + 1 + 1) t.newline.text := by
  have next := sbAddline_ahead ha (by omega) cursor
  rw [Nat.mod_eq_of_lt room] at next
  have slots := slot_newRow sb next
  have apart : ∀ i, i < n + 1 → ahead 200 a i ≠ ahead 200 a (n + 1) :=
    fun i hi same => (Nat.ne_of_lt hi) (ahead_inj ha (by omega) room same)
  have below : sbAddline sb.cursor 1 ≠ sb.top := by
    rw [next, top]
    have other := apart 0 (Nat.succ_pos n)
    unfold ahead at other ⊢
    split_ifs at other ⊢ <;> omega
  refine ⟨?_, next, ?_⟩
  · rw [Screenbuf.newRow]
    dsimp only
    rw [if_neg below, top]
  · show Recent _ _ _ _ (t.text ++ [Row.blank])
    refine recent.push room ?_ fun i hi => ?_
    · rw [slots, if_pos rfl]
    · rw [slots, if_neg (apart i hi)]

/-- In a full ring, the new row takes the slot of the oldest one. -/
theorem newRow_full (ha : a < 200) (top : sb.top = 80 * a) (cursor : sb.cursor = 80 * ahead 200 a 199)
    (recent : Recent sb.slot 200 a 200 t.text) :
    (sb.newRow (sbAddline sb.cursor 1)).top = 80 * ahead 200 a 1 ∧
      sbAddline sb.cursor 1 = 80 * ahead 200 (ahead 200 a 1) 199 ∧
      Recent (sb.newRow (sbAddline sb.cursor 1)).slot 200 (ahead 200 a 1) 200 t.newline.text := by
  have next := sbAddline_ahead ha (by decide) cursor
  have first : ahead 200 a ((199 + 1) % 200) = a := by
    unfold ahead
    split_ifs <;> omega
  rw [first] at next
  have slots := slot_newRow sb next
  have full : sbAddline sb.cursor 1 = sb.top := by rw [next, top]
  refine ⟨?_, ?_, ?_⟩
  · simp only [Screenbuf.newRow, full, if_true, sbAddline_eq, top]
    unfold ahead
    split_ifs <;> omega
  · rw [ahead_ahead ha (by decide), next]
    unfold ahead
    split_ifs <;> omega
  · show Recent _ _ _ _ (t.text ++ [Row.blank])
    refine recent.push_full ha ?_ fun i some hi => ?_
    · rw [slots, if_pos rfl]
    · have other : ahead 200 a i ≠ a := by
        unfold ahead
        split_ifs <;> omega
      rw [slots, if_neg other]

end

/-- `sb_crlf` opens a blank row, in place of the oldest one when the ring is full. -/
theorem Mirrors.newRow (mirrors : Mirrors sb t) :
    Mirrors (sb.newRow (sbAddline sb.cursor 1)) t.newline := by
  obtain ⟨a, n, ha, hn, top, cursor, recent⟩ := mirrors.rows
  refine ⟨?_, rfl, mirrors.color⟩
  rcases Nat.lt_or_ge (n + 1) 200 with room | full
  · exact ⟨a, n + 1, ha, room, newRow_room ha room top cursor recent⟩
  · obtain rfl : n = 199 := by omega
    exact ⟨ahead 200 a 1, 199, ahead_lt ha (by decide), by decide, newRow_full ha top cursor recent⟩

/-- Storing a cell at the cursor replaces it in the last row. -/
theorem Mirrors.store (mirrors : Mirrors sb t) (word : Cell) :
    Mirrors (sb.store word) { t with row := Function.update t.row t.column word } := by
  obtain ⟨a, n, ha, hn, top, cursor, recent⟩ := mirrors.rows
  have last : sb.slot (ahead 200 a n) = t.row := recent.last
  have slots : ∀ r : Nat, (sb.store word).slot r =
      if r = ahead 200 a n then Function.update t.row t.column word else sb.slot r := by
    intro r
    funext j
    have hj : (j : Nat) < 80 := j.isLt
    have column := t.column.isLt
    rw [Screenbuf.slot, Screenbuf.rowAt, Screenbuf.store]
    dsimp only
    rw [Function.update_apply, cursor, mirrors.column]
    by_cases here : r = ahead 200 a n
    · rw [if_pos here, Function.update_apply, ← last, here]
      have same : (80 * (ahead 200 a n : Int) + j = 80 * (ahead 200 a n : Int) + t.column) ↔
          j = t.column := by
        rw [Fin.ext_iff]
        omega
      simp only [same]
      rfl
    · rw [if_neg here, if_neg (by omega)]
      rfl
  refine ⟨⟨a, n, ha, hn, top, cursor, ?_⟩, mirrors.column, mirrors.color⟩
  refine recent.replace_last ?_ fun i hi => ?_
  · rw [slots, if_pos rfl]
  · have other : ahead 200 a i ≠ ahead 200 a n :=
      fun same => (Nat.ne_of_lt hi) (ahead_inj ha (by omega) hn same)
    rw [slots, if_neg other]

/-- A cell is stored, the offset moves on, and a full row is left. -/
theorem Mirrors.put (mirrors : Mirrors sb t) (word : Cell) :
    Mirrors ((sb.store word).incOffset).wrap (t.put word) := by
  have stored := mirrors.store word
  have column := t.column.isLt
  have offset : (sb.store word).incOffset.cursorOffset = t.column + 1 := by
    show u16 (sb.cursorOffset + 1) = _
    rw [mirrors.column, u16_of_lt (by omega)]
  unfold Screenbuf.wrap Terminal.put
  dsimp only
  split_ifs with full inRow inRow
  · omega
  · exact stored.newRow
  · exact ⟨stored.rows, offset, stored.color⟩
  · omega

/-- `sb_tabulation`: the last cell of the loop is the one that may fill the row. -/
theorem Mirrors.tabLoop (fuel : Nat) (mirrors : Mirrors sb t)
    (enough : 4 - t.column % 4 ≤ fuel) :
    Mirrors (sb.tabLoop fuel).wrap ((Terminal.put (t.cell 0))^[4 - t.column % 4] t) := by
  induction fuel generalizing sb t with
  | zero => omega
  | succ fuel ih =>
    have word : sb.cell 0 = t.cell 0 := by
      rw [Screenbuf.cell, Terminal.cell, mirrors.color]
      rfl
    have column := t.column.isLt
    have offset : (sb.store (sb.cell 0)).incOffset.cursorOffset = t.column + 1 := by
      show u16 (sb.cursorOffset + 1) = _
      rw [mirrors.column, u16_of_lt (by omega)]
    have next := mirrors.put (sb.cell 0)
    rw [Screenbuf.tabLoop, offset]
    split_ifs with again
    · -- the cell did not fill the row, and the loop goes on from there
      have within : ((sb.store (sb.cell 0)).incOffset).wrap = (sb.store (sb.cell 0)).incOffset := by
        rw [Screenbuf.wrap, if_neg (by omega)]
      have put : t.put (t.cell 0) =
          { t with
            row := Function.update t.row t.column (t.cell 0)
            column := ⟨t.column + 1, by omega⟩ } := by
        rw [Terminal.put]
        dsimp only
        rw [dif_pos (by omega)]
      rw [within, word] at next
      have steps : 4 - ((t.put (t.cell 0)).column : Nat) % 4 + 1 = 4 - (t.column : Nat) % 4 := by
        rw [put]
        dsimp only
        omega
      have color : (t.put (t.cell 0)).cell 0 = t.cell 0 := by
        rw [put]
        rfl
      have rest := ih next (by omega)
      rw [color] at rest
      rw [← steps, Function.iterate_succ_apply, word]
      exact rest
    · have last : 4 - (t.column : Nat) % 4 = 1 := by omega
      rw [last, Function.iterate_one, ← word]
      exact next

/-- A character is stored as the terminal writes it exactly when its color is kept. -/
theorem sbRegularCell_iff (sb : Screenbuf) (c : BitVec 8) :
    sbRegularCell sb c = c.setWidth 16 ||| sb.color.setWidth 16 <<< 8 ↔
      c.msb = false ∨ sb.color = 0xff := by
  rw [sbRegularCell, Screenbuf.cell]
  cases sign : c.msb with
  | false =>
    rw [BitVec.signExtend_eq_setWidth_of_msb_false sign]
    simp
  | true =>
    have ones : ∀ i, i < 8 → (0xff : BitVec 8).getLsbD i = true := by decide
    -- the sign fills the upper byte, so the color decides whether that shows
    have high : ∀ i, i < 8 →
        ((c.signExtend 16 ||| sb.color.setWidth 16 <<< 8).getLsbD (8 + i) =
          (c.setWidth 16 ||| sb.color.setWidth 16 <<< 8).getLsbD (8 + i) ↔
            sb.color.getLsbD i = true) := by
      intro i hi
      have word : 8 + i < 16 := by omega
      simp [BitVec.getLsbD_signExtend, sign, word]
    constructor
    · intro same
      refine .inr (BitVec.eq_of_getLsbD_eq fun i hi => ?_)
      rw [(high i hi).mp (by rw [same]), ones i hi]
    · intro kept
      have full : sb.color = 0xff := kept.resolve_left (by decide)
      apply BitVec.eq_of_getLsbD_eq
      intro i hi
      rcases Nat.lt_or_ge i 8 with low | above
      · simp [BitVec.getElem_signExtend, hi, low]
      · obtain ⟨k, rfl⟩ := Nat.exists_eq_add_of_le above
        apply (high k (by omega)).mpr
        rw [full, ones k (by omega)]

theorem Mirrors.putchar {c : BitVec 8} {d : Display} (mirrors : Mirrors d.sb t) (noErase : c ≠ 0x08)
    (kept : ColorKept (.putchar c) d) : Mirrors (d.sb.putchar c) (t.putchar c) := by
  unfold Screenbuf.putchar Terminal.putchar
  split_ifs with newline tab
  · exact mirrors.newRow
  · exact mirrors.tabLoop 4 (Nat.sub_le _ _)
  · have word : sbRegularCell d.sb c = t.cell c := by
      rw [(sbRegularCell_iff d.sb c).mpr (kept c rfl newline tab), mirrors.color]
      rfl
    rw [word]
    exact mirrors.put (t.cell c)

theorem Mirrors.run {op : SbOp} {d : Display} (mirrors : Mirrors d.sb t)
    (noErase : op ≠ .putchar 0x08) (kept : ColorKept op d) :
    Mirrors (op.run d).sb (t.step op) := by
  rw [SbOp.run_sb]
  cases op with
  | putchar c => exact mirrors.putchar (fun same => noErase (by rw [same])) kept
  | scroll | scrollTop | scrollDown | load | unload => exact mirrors.congr rfl rfl rfl rfl rfl
  | clear =>
    refine mirrors_blank rfl rfl rfl mirrors.color fun i low high => ?_
    dsimp only [SbOp.onBuffer]
    rw [sbMemset_apply, if_pos ⟨low, by omega⟩]
  | setColor color => exact ⟨mirrors.rows, mirrors.column, rfl⟩
  | setFg fg =>
    refine ⟨mirrors.rows, mirrors.column, ?_⟩
    show _ = (t.color &&& 0xf0) ||| (fg.value &&& 0x0f)
    rw [← mirrors.color]
    rfl
  | setBg bg =>
    refine ⟨mirrors.rows, mirrors.column, ?_⟩
    show _ = ((bg.value <<< 4) &&& 0xf0) ||| (t.color &&& 0x0f)
    rw [← mirrors.color]
    rfl

/-- **Scrollback fidelity.** In every run without backspaces in which characters keep their color,
the rows of the ring are the latest 200 rows of the terminal, and the cursor is in its column. -/
theorem ringRows_sbRun (sb : Screenbuf) (vga : Vga) (ops : List SbOp)
    (noErase : ∀ op ∈ ops, op ≠ .putchar 0x08)
    (kept : Guarded SbOp.run ColorKept ops { sb := sbInit sb, vga := vga }) :
    (sbRun sb vga ops).sb.ringRows =
        (run Terminal.step ops .start).text.drop ((run Terminal.step ops .start).text.length - 200) ∧
      (sbRun sb vga ops).sb.cursorOffset = (run Terminal.step ops .start).column := by
  have starts : Mirrors (sbInit sb) .start :=
    mirrors_blank rfl rfl rfl rfl fun i low high => sbInit_buf sb low high
  have mirrors : Mirrors (sbRun sb vga ops).sb (run Terminal.step ops .start) :=
    run_simulation (fun d t => Mirrors d.sb t)
      (fun op mem _ _ kept mirrors => mirrors.run (noErase op mem) kept) kept starts
  exact ⟨mirrors.ringRows, mirrors.column⟩

/-- A run with a tab, a new row, a change of color and a jump. -/
theorem ringRows_sbRun_hello :
    (sbRun .zero .zero [.putchar 0x68, .putchar 0x09, .setFg .red, .putchar 0x69, .putchar 0x0a,
        .scrollDown]).sb.ringRows =
        (run Terminal.step [.putchar 0x68, .putchar 0x09, .setFg .red, .putchar 0x69, .putchar 0x0a,
          .scrollDown] .start).text.drop ((run Terminal.step [.putchar 0x68, .putchar 0x09,
            .setFg .red, .putchar 0x69, .putchar 0x0a, .scrollDown] .start).text.length - 200) ∧
      (sbRun .zero .zero [.putchar 0x68, .putchar 0x09, .setFg .red, .putchar 0x69, .putchar 0x0a,
        .scrollDown]).sb.cursorOffset =
        (run Terminal.step [.putchar 0x68, .putchar 0x09, .setFg .red, .putchar 0x69, .putchar 0x0a,
          .scrollDown] .start).column := by
  have ascii : ∀ {c : BitVec 8} {d : Display}, c.msb = false → ColorKept (.putchar c) d := by
    intro c d clear c' same _ _
    cases same
    exact .inl clear
  refine ringRows_sbRun _ _ _ (by simp) ⟨ascii (by decide), ascii (by decide), nofun,
    ascii (by decide), ascii (by decide), nofun, trivial⟩

/-- The character `0x80` comes out with its color bits set. -/
theorem not_ringRows_sbRun_high_character :
    (sbRun .zero .zero [.putchar 0x80]).sb.ringRows ≠
      (run Terminal.step [.putchar 0x80] .start).text.drop
        ((run Terminal.step [.putchar 0x80] .start).text.length - 200) := by
  intro same
  have first := congrArg (List.map fun row => row 0) same
  exact absurd first (by decide +kernel)

end Nulix.Screen
