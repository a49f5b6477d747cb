import Nulix.Screen.Rows
import Mathlib.Data.List.GetD
import Mathlib.Data.List.Induction

/-!
# Backspace undoes typing

A `Line` is what the user of the screen buffer has in mind when he corrects his typing: a list of
cells that grows and shrinks at its end, laid out over as many rows as it needs. `Holds` relates a
buffer to a line: its rows read as the cells of the line followed by blanks, and the cursor is behind
them. Typing and erasing keep the two in step, across the ends of rows and around the ring, because no
cell of the line is blank; scrolling does not concern the line.
-/

namespace Nulix.Screen

open Words Runs

/-! ## The line -/

/-- The cells of a line and the number of rows that it has come to so far. -/
structure Line where
  cells : List Cell
  rows : Nat

namespace Line

def type (cell : Cell) (l : Line) : Line where
  cells := l.cells ++ [cell]
  rows := max l.rows ((l.cells.length + 1) / 80 + 1)

def erase (l : Line) : Line := { l with cells := l.cells.dropLast }

/-- What the screen buffer stores for a character in the given color. -/
def cell (color : BitVec 8) (c : BitVec 8) : Cell := c.signExtend 16 ||| color.setWidth 16 <<< 8

/-- An operation of the screen buffer. Only characters concern the line. -/
def step (color : BitVec 8) : SbOp → Line → Line
  | .putchar c, l => if c = 0x08 then l.erase else l.type (cell color c)
  | _, l => l

/-- A character that is stored as it is. -/
def Plain (c : BitVec 8) : Prop := c ≠ 0x0a ∧ c ≠ 0x09 ∧ c ≠ 0x08 ∧ c ≠ 0

/-- A backspace has something to erase, and a character is plain and leaves the line shorter than the
ring. -/
def Fits (op : SbOp) (l : Line) : Prop :=
  op = .putchar 0x08 ∧ l.cells ≠ [] ∨
    ∃ c, op = .putchar c ∧ Plain c ∧ l.cells.length + 1 < 16000

end Line

/-- The operation moves the window only. -/
def SbOp.scrolls : SbOp → Bool
  | .scroll _ | .scrollTop | .scrollDown => true
  | _ => false

/-- Cell number `i` of the rows from `base` on, read row after row around the ring. -/
def lineCell (base : Int) (i : Nat) : Int := sbAddline base (i / 80 : Nat) + (i % 80 : Nat)

/-- The rows of the buffer from `base` on hold the line, with the cursor behind its last cell. -/
structure Holds (base : Int) (color : BitVec 8) (l : Line) (sb : Screenbuf) : Prop where
  top : OnRow sb.top
  cursor : sb.cursor = sbAddline base (l.cells.length / 80 : Nat)
  offset : sb.cursorOffset = l.cells.length % 80
  color : sb.color = color
  reads : ∀ i, i < 80 * l.rows → sb.buf (lineCell base i) = l.cells.getD i sbWhitespace
  filled : ∀ word ∈ l.cells, word ≠ sbWhitespace
  inside : l.cells.length < 80 * l.rows
  rows : l.rows ≤ 200
  below : 80 * (l.cells.length / 80 : Nat) ≤ circular sb.top sb.cursor

variable {base : Int} {color : BitVec 8} {l : Line} {sb : Screenbuf} {d : Display}

/-! ## Cells of a line -/

theorem lineCell_eq (base : Int) (i : Nat) :
    lineCell base i = (base + (i / 80 : Nat) * 80) % 16000 + (i % 80 : Nat) := by
  rw [lineCell, sbAddline_eq]

theorem lineCell_inj (row : OnRow base) {i j : Nat} (hi : i < 16000) (hj : j < 16000) :
    lineCell base i = lineCell base j ↔ i = j := by
  rw [onRow_iff] at row
  rw [lineCell_eq, lineCell_eq]
  omega

/-- The cells of one row. -/
theorem lineCell_mem_row (row : OnRow base) {i q : Nat} (hi : i < 16000) (hq : q < 200) :
    (sbAddline base q ≤ lineCell base i ∧ lineCell base i < sbAddline base q + 80) ↔
      i / 80 = q := by
  rw [onRow_iff] at row
  rw [lineCell_eq, sbAddline_eq]
  omega

/-- Clearing row number `q`. -/
theorem sbMemset_lineCell (row : OnRow base) (cells : Int → Cell) {i q : Nat} (hi : i < 16000)
    (hq : q < 200) :
    sbMemset (sbAddline base q) sbWhitespace 80 cells (lineCell base i) =
      if i / 80 = q then sbWhitespace else cells (lineCell base i) := by
  have here := lineCell_mem_row row hi hq
  rw [sbMemset_apply]
  push_cast
  simp only [here]

/-- A new row is one row farther from the top, except in a full ring, where the top moves on too. -/
theorem circular_newRow {top cursor : Int} (onTop : OnRow top) (onCursor : OnRow cursor) :
    circular (if sbAddline cursor 1 = top then sbAddline top 1 else top) (sbAddline cursor 1) =
      min (circular top cursor + 80) 15920 := by
  simp only [onRow_iff, circular_eq, sbAddline_eq] at onTop onCursor ⊢
  split_ifs <;> omega

theorem Line.setWidth_cell (color c : BitVec 8) : (Line.cell color c).setWidth 8 = c := by
  apply BitVec.eq_of_getLsbD_eq
  intro i hi
  have word : i < 16 := by omega
  simp only [Line.cell, BitVec.getLsbD_setWidth, BitVec.getLsbD_or, BitVec.getLsbD_signExtend,
    BitVec.getLsbD_shiftLeft]
  simp [hi, word]

/-- The code of a plain character shows in the low byte of its cell. -/
theorem Line.cell_ne {c : BitVec 8} (plain : Line.Plain c) : Line.cell color c ≠ sbWhitespace := by
  intro blank
  have code := Line.setWidth_cell color c
  rw [blank] at code
  exact plain.2.2.2 code.symm

theorem Line.length_type (word : Cell) : (l.type word).cells.length = l.cells.length + 1 :=
  List.length_append

theorem Line.getD_type (word : Cell) (i : Nat) :
    (l.type word).cells.getD i sbWhitespace =
      if i = l.cells.length then word else l.cells.getD i sbWhitespace := by
  show (l.cells ++ [word]).getD i sbWhitespace = _
  rcases Nat.lt_trichotomy i l.cells.length with before | rfl | after
  · rw [if_neg before.ne, List.getD_append _ _ _ _ before]
  · rw [if_pos rfl, List.getD_append_right _ _ _ _ le_rfl, Nat.sub_self]
    rfl
  · rw [if_neg after.ne', List.getD_eq_default _ _ after.le, List.getD_eq_default]
    rw [List.length_append, List.length_singleton]
    omega

theorem Line.getD_erase (i : Nat) :
    l.erase.cells.getD i sbWhitespace =
      if i = l.cells.length - 1 then sbWhitespace else l.cells.getD i sbWhitespace := by
  show l.cells.dropLast.getD i sbWhitespace = _
  rcases Nat.lt_trichotomy i (l.cells.length - 1) with before | rfl | after
  · rw [if_neg before.ne, List.getD_eq_getElem?_getD, List.getD_eq_getElem?_getD,
      List.getElem?_dropLast, if_pos before]
  · rw [if_pos rfl, List.getD_eq_default]
    rw [List.length_dropLast]
  · rw [if_neg after.ne', List.getD_eq_default, List.getD_eq_default]
    · omega
    · rw [List.length_dropLast]
      omega

/-! ## The operations -/

namespace Holds

/-- Within the line, the buffer has no blank cell. -/
theorem reads_ne (holds : Holds base color l sb) {i : Nat} (hi : i < l.cells.length) :
    sb.buf (lineCell base i) ≠ sbWhitespace := by
  have inside := holds.inside
  rw [holds.reads i (by omega), List.getD_eq_getElem _ _ hi]
  exact holds.filled _ (List.getElem_mem hi)

theorem onRow (row : OnRow base) (holds : Holds base color l sb) : OnRow sb.cursor := by
  rw [holds.cursor]
  exact onRow_sbAddline row _

/-- Moving the window. -/
theorem withViewport (holds : Holds base color l sb) (viewport : Int) :
    Holds base color l { sb with viewport := viewport } := by
  obtain ⟨top, cursor, offset, color, reads, filled, inside, rows, below⟩ := holds
  exact ⟨top, cursor, offset, color, reads, filled, inside, rows, below⟩

theorem scrolls (holds : Holds base color l d.sb) {op : SbOp} (silent : op.scrolls = true) :
    Holds base color l (op.run d).sb := by
  rw [SbOp.run_sb]
  cases op with
  | scroll | scrollTop | scrollDown => exact holds.withViewport _
  | putchar | load | unload | clear | setColor | setFg | setBg => cases silent

/-- The position of the next character. -/
theorem position (holds : Holds base color l sb) :
    sb.cursor + sb.cursorOffset = lineCell base l.cells.length := by
  rw [holds.cursor, holds.offset, lineCell]

/-- A cell stored there belongs to the line from then on. -/
theorem reads_store (row : OnRow base) (holds : Holds base color l sb) (word : Cell) {i : Nat}
    (hi : i < 80 * l.rows) :
    (sb.store word).buf (lineCell base i) = (l.type word).cells.getD i sbWhitespace := by
  have inside := holds.inside
  have rows := holds.rows
  have here : lineCell base i = lineCell base l.cells.length ↔ i = l.cells.length :=
    lineCell_inj row (by omega) (by omega)
  show Function.update sb.buf (sb.cursor + sb.cursorOffset) word (lineCell base i) = _
  rw [holds.position, Function.update_apply, Line.getD_type, holds.reads i hi]
  simp only [here]

theorem filled_type (holds : Holds base color l sb) {word : Cell} (ink : word ≠ sbWhitespace) :
    ∀ other ∈ (l.type word).cells, other ≠ sbWhitespace := by
  intro other mem
  rcases List.mem_append.mp mem with old | new
  · exact holds.filled other old
  · rw [List.mem_singleton.mp new]
    exact ink

/-- A character that does not fill its row. -/
theorem type_room (row : OnRow base) (holds : Holds base color l sb) {word : Cell}
    (ink : word ≠ sbWhitespace) (room : l.cells.length % 80 < 79) :
    Holds base color (l.type word) (sb.store word).incOffset := by
  have inside := holds.inside
  have count := Line.length_type (l := l) word
  have touched : (l.type word).rows = l.rows := by
    simp only [Line.type]
    omega
  have same : (l.cells.length + 1) / 80 = l.cells.length / 80 := by omega
  constructor
  · exact holds.top
  · rw [count, same]
    exact holds.cursor
  · show u16 (sb.cursorOffset + 1) = _
    rw [count, holds.offset, u16_of_lt (by omega)]
    omega
  · exact holds.color
  · intro i hi
    rw [touched] at hi
    exact holds.reads_store row word hi
  · exact holds.filled_type ink
  · rw [count, touched]
    omega
  · rw [touched]
    exact holds.rows
  · rw [count, same]
    exact holds.below

/-- A character that fills its row; the cursor goes on to the next one. -/
theorem type_full (row : OnRow base) (holds : Holds base color l sb) {word : Cell}
    (ink : word ≠ sbWhitespace) (full : l.cells.length % 80 = 79)
    (short : l.cells.length + 1 < 16000) :
    Holds base color (l.type word)
      ((sb.store word).incOffset.newRow (sbAddline sb.cursor 1)) := by
  have inside := holds.inside
  have rows := holds.rows
  have count := Line.length_type (l := l) word
  have touched : (l.type word).rows = max l.rows ((l.cells.length + 1) / 80 + 1) := rfl
  have next : (l.cells.length + 1) / 80 = l.cells.length / 80 + 1 := by omega
  have cursor : sbAddline sb.cursor 1 = sbAddline base ((l.cells.length + 1) / 80 : Nat) := by
    rw [holds.cursor, next, sbAddline_eq, sbAddline_eq, sbAddline_eq]
    push_cast
    omega
  have below := holds.below
  constructor
  · show OnRow (if sbAddline sb.cursor 1 = sb.top then sbAddline sb.top 1 else sb.top)
    split_ifs
    · exact onRow_sbAddline holds.top 1
    · exact holds.top
  · rw [count]
    exact cursor
  · show 0 = _
    rw [count]
    omega
  · exact holds.color
  · intro i hi
    rw [touched] at hi
    show sbMemset (sbAddline sb.cursor 1) sbWhitespace 80 (sb.store word).buf (lineCell base i) = _
    rw [cursor, sbMemset_lineCell row _ (by omega) (by omega)]
    split_ifs with here
    · rw [List.getD_eq_default _ _ (by omega)]
    · exact holds.reads_store row word (by omega)
  · exact holds.filled_type ink
  · rw [count, touched]
    omega
  · rw [touched]
    omega
  · show _ ≤ circular (if sbAddline sb.cursor 1 = sb.top then sbAddline sb.top 1 else sb.top)
      (sbAddline sb.cursor 1)
    rw [count, circular_newRow holds.top (holds.onRow row)]
    omega

/-- Typing a character. -/
theorem type (row : OnRow base) (holds : Holds base color l d.sb) {c : BitVec 8}
    (plain : Line.Plain c) (short : l.cells.length + 1 < 16000) :
    Holds base color (l.type (Line.cell color c)) (sbPutchar c d).sb := by
  have ink : Line.cell color c ≠ sbWhitespace := Line.cell_ne plain
  have word : sbRegularCell d.sb c = Line.cell color c := by
    rw [sbRegularCell, Screenbuf.cell, Line.cell, holds.color]
  have offset : (d.sb.store (Line.cell color c)).incOffset.cursorOffset =
      l.cells.length % 80 + 1 := by
    show u16 (d.sb.cursorOffset + 1) = _
    rw [holds.offset, u16_of_lt (by omega)]
  obtain ⟨newline, tab, erase, -⟩ := plain
  rw [sbPutchar_sb, Screenbuf.putchar, if_neg newline, if_neg tab, if_neg erase, word,
    Screenbuf.wrap, offset]
  split_ifs with full
  · exact holds.type_full row ink (by omega) short
  · exact holds.type_room row ink (by omega)

/-- The cursor goes back behind the last cell of the line, which may be the end of the row before. -/
theorem rowBack_eq (holds : Holds base color l sb) (some : l.cells ≠ []) :
    ∃ viewport, sb.rowBack =
      { sb with
        viewport := viewport
        cursor := sbAddline base ((l.cells.length - 1) / 80 : Nat)
        cursorOffset := (l.cells.length - 1) % 80 + 1 } := by
  have pos := List.length_pos_iff.mpr some
  have cursor := holds.cursor
  have offset := holds.offset
  by_cases start : sb.cursorOffset = 0
  · have back : sbAddline sb.cursor (-1) = sbAddline base ((l.cells.length - 1) / 80 : Nat) := by
      have before : l.cells.length / 80 = (l.cells.length - 1) / 80 + 1 := by omega
      rw [cursor, before, sbAddline_eq, sbAddline_eq, sbAddline_eq]
      push_cast
      omega
    obtain ⟨offset', wentBack, limit, -, stop⟩ := rowBack_start start
    -- the row before belongs to the line as a whole, so the search runs to its end
    have all : offset' = (l.cells.length - 1) % 80 + 1 := by
      by_contra early
      have inLine := holds.reads_ne (i := (l.cells.length - 1) / 80 * 80 + offset') (by omega)
      apply inLine
      rw [← stop (by omega), lineCell, back]
      congr 3 <;> omega
    rw [wentBack, all, back]
    exact ⟨_, rfl⟩
  · have same : (l.cells.length - 1) / 80 = l.cells.length / 80 := by omega
    have column : (l.cells.length - 1) % 80 + 1 = sb.cursorOffset := by omega
    rw [Screenbuf.rowBack, if_neg start, same, column, ← cursor]
    exact ⟨sb.viewport, rfl⟩

/-- At column 0 there is a row of the line above, so the cursor is not at the top. -/
theorem not_at_top (holds : Holds base color l sb) (some : l.cells ≠ []) :
    ¬(sb.cursorOffset = 0 ∧ sb.cursor = sb.top) := by
  have pos := List.length_pos_iff.mpr some
  have below := holds.below
  rintro ⟨start, atTop⟩
  rw [holds.offset] at start
  rw [atTop, circular_self] at below
  omega

theorem putchar_erase (holds : Holds base color l sb) (some : l.cells ≠ []) :
    ∃ viewport, sb.putchar 0x08 =
      { sb with
        viewport := viewport
        cursor := sbAddline base ((l.cells.length - 1) / 80 : Nat)
        cursorOffset := (l.cells.length - 1) % 80
        buf := Function.update sb.buf (lineCell base (l.cells.length - 1)) sbWhitespace
        stored := lineCell base (l.cells.length - 1) :: sb.stored } := by
  obtain ⟨viewport, back⟩ := holds.rowBack_eq some
  have column : u16 ((l.cells.length - 1) % 80 + 1 + (2 ^ 16 - 1)) = (l.cells.length - 1) % 80 := by
    rw [u16]
    omega
  rw [Screenbuf.putchar, if_neg (by decide), if_neg (by decide), if_pos rfl,
    if_neg (holds.not_at_top some), back]
  unfold Screenbuf.decOffset Screenbuf.store
  simp only [column]
  exact ⟨viewport, rfl⟩

/-- Erasing the last cell. -/
theorem erase (row : OnRow base) (holds : Holds base color l d.sb) (some : l.cells ≠ []) :
    Holds base color l.erase (sbPutchar 0x08 d).sb := by
  have pos := List.length_pos_iff.mpr some
  have inside := holds.inside
  have rows := holds.rows
  have below := holds.below
  have count : l.erase.cells.length = l.cells.length - 1 := List.length_dropLast
  have touched : l.erase.rows = l.rows := rfl
  obtain ⟨viewport, erased⟩ := holds.putchar_erase some
  rw [sbPutchar_sb, erased]
  constructor
  · exact holds.top
  · rw [count]
  · rw [count]
  · exact holds.color
  · intro i hi
    rw [touched] at hi
    have here : lineCell base i = lineCell base (l.cells.length - 1) ↔ i = l.cells.length - 1 :=
      lineCell_inj row (by omega) (by omega)
    dsimp only
    rw [Function.update_apply, Line.getD_erase, holds.reads i hi]
    simp only [here]
  · exact fun word mem => holds.filled word (List.dropLast_subset _ mem)
  · rw [count, touched]
    omega
  · exact rows
  · have top := holds.top
    have base := row
    have cursor := holds.cursor
    rw [count]
    simp only [cursor, onRow_iff, circular_eq, sbAddline_eq] at top base below ⊢
    omega

/-- One visible operation. -/
theorem step (row : OnRow base) (holds : Holds base color l d.sb) {op : SbOp} (fits : Line.Fits op l) :
    Holds base color (Line.step color op l) (op.run d).sb := by
  rcases fits with ⟨rfl, some⟩ | ⟨c, rfl, plain, short⟩
  · exact holds.erase row some
  · show Holds base color (if c = 0x08 then l.erase else l.type (Line.cell color c)) (sbPutchar c d).sb
    rw [if_neg plain.2.2.1]
    exact holds.type row plain short

end Holds

/-- **Line editing.** A run of scrolls and of operations that fit keeps the buffer and the line in
step. -/
theorem holds_run (row : OnRow base) (ops : List SbOp)
    (fits : Guarded (Line.step color) Line.Fits (ops.filter fun op => !op.scrolls) l)
    (holds : Holds base color l d.sb) :
    Holds base color (Runs.run (Line.step color) (ops.filter fun op => !op.scrolls) l)
      (Runs.run SbOp.run ops d).sb :=
  run_weak_simulation SbOp.scrolls (fun (d : Display) l => Holds base color l d.sb)
    (fun _ silent _ _ holds => holds.scrolls silent)
    (fun _ _ _ _ fits holds => holds.step row fits) fits holds

/-! ## Typing and erasing a text -/

namespace Line

theorem guarded_type {s : List (BitVec 8)} (plain : ∀ c ∈ s, Plain c)
    (short : l.cells.length + s.length < 16000) :
    Guarded (step color) Fits (s.map .putchar) l := by
  induction s generalizing l with
  | nil => trivial
  | cons c s ih =>
    obtain ⟨first, rest⟩ := List.forall_mem_cons.mp plain
    rw [List.length_cons] at short
    refine ⟨.inr ⟨c, rfl, first, by omega⟩, ?_⟩
    show Guarded (step color) Fits _ (if c = 0x08 then l.erase else l.type (cell color c))
    rw [if_neg first.2.2.1]
    exact ih rest (by rw [length_type]; omega)

theorem run_type {s : List (BitVec 8)} (plain : ∀ c ∈ s, Plain c) :
    (Runs.run (step color) (s.map .putchar) l).cells = l.cells ++ s.map (cell color) := by
  induction s generalizing l with
  | nil => exact (List.append_nil l.cells).symm
  | cons c s ih =>
    obtain ⟨first, rest⟩ := List.forall_mem_cons.mp plain
    show (Runs.run (step color) (s.map .putchar)
      (if c = 0x08 then l.erase else l.type (cell color c))).cells = _
    rw [if_neg first.2.2.1, ih rest, List.map_cons]
    show (l.cells ++ [cell color c]) ++ s.map (cell color) = _
    rw [List.append_assoc, List.singleton_append]

theorem guarded_erase {n : Nat} (enough : n ≤ l.cells.length) :
    Guarded (step color) Fits (List.replicate n (.putchar 0x08)) l := by
  induction n generalizing l with
  | zero => trivial
  | succ n ih =>
    refine ⟨.inl ⟨rfl, List.length_pos_iff.mp (by omega)⟩, ih ?_⟩
    show n ≤ l.cells.dropLast.length
    rw [List.length_dropLast]
    omega

theorem run_erase (cells gone : List Cell) (rows : Nat) :
    Runs.run (step color) (List.replicate gone.length (.putchar 0x08))
      { cells := cells ++ gone, rows := rows } = { cells := cells, rows := rows } := by
  induction gone using List.reverseRecOn with
  | nil =>
    rw [List.append_nil]
    rfl
  | append_singleton gone word ih =>
    have last : (cells ++ (gone ++ [word])).dropLast = cells ++ gone := by
      rw [← List.append_assoc, List.dropLast_concat]
    rw [List.length_append, List.length_singleton]
    show Runs.run (step color) (List.replicate gone.length (.putchar 0x08))
      { cells := (cells ++ (gone ++ [word])).dropLast, rows := rows } = _
    rw [last]
    exact ih

end Line

/-- Typing a text, with scrolls. -/
theorem Holds.type_text (row : OnRow base) (holds : Holds base color l d.sb) {s : List (BitVec 8)}
    (plain : ∀ c ∈ s, Line.Plain c) (short : l.cells.length + s.length < 16000) {ops : List SbOp}
    (types : ops.filter (fun op => !op.scrolls) = s.map .putchar) :
    ∃ rows, Holds base color { cells := l.cells ++ s.map (Line.cell color), rows := rows }
      (Runs.run SbOp.run ops d).sb := by
  have fits : Guarded (Line.step color) Line.Fits (ops.filter fun op => !op.scrolls) l := by
    rw [types]
    exact Line.guarded_type plain short
  have typed := holds_run row ops fits holds
  rw [types] at typed
  refine ⟨(Runs.run (Line.step color) (s.map .putchar) l).rows, ?_⟩
  rw [← Line.run_type plain]
  exact typed

/-- Erasing it, with scrolls. -/
theorem Holds.erase_text (row : OnRow base) {cells gone : List Cell} {rows : Nat}
    (holds : Holds base color { cells := cells ++ gone, rows := rows } d.sb) {ops : List SbOp}
    (erases : ops.filter (fun op => !op.scrolls) = List.replicate gone.length (.putchar 0x08)) :
    Holds base color { cells := cells, rows := rows } (Runs.run SbOp.run ops d).sb := by
  have fits : Guarded (Line.step color) Line.Fits (ops.filter fun op => !op.scrolls)
      { cells := cells ++ gone, rows := rows } := by
    rw [erases]
    apply Line.guarded_erase
    rw [List.length_append]
    omega
  have erased := holds_run row ops fits holds
  rw [erases, Line.run_erase] at erased
  exact erased

/-- The cursor is at column `k` of a row that ends there. -/
structure EndsAt (k : Nat) (sb : Screenbuf) : Prop where
  inRow : k < 80
  column : sb.cursorOffset = k
  filled : ∀ j : Nat, j < k → sb.buf (sb.cursor + j) ≠ sbWhitespace
  blank : ∀ j : Nat, k ≤ j → j < 80 → sb.buf (sb.cursor + j) = sbWhitespace

theorem lineCell_of_lt (row : OnRow base) {j : Nat} (hj : j < 80) : lineCell base j = base + j := by
  rw [onRow_iff] at row
  rw [lineCell_eq]
  omega

/-- The first `k` cells of the row of the cursor, as a line. -/
def Screenbuf.rowLine (sb : Screenbuf) (k : Nat) : Line where
  cells := (List.range k).map fun j : Nat => sb.buf (sb.cursor + j)
  rows := 1

theorem length_rowLine (sb : Screenbuf) (k : Nat) : (sb.rowLine k).cells.length = k := by
  rw [Screenbuf.rowLine, List.length_map, List.length_range]

theorem EndsAt.holds {k : Nat} (ends : EndsAt k sb) (ok : PointersOk sb) :
    Holds sb.cursor sb.color (sb.rowLine k) sb := by
  have row := ok.cursor
  have inRow := ends.inRow
  have first : k / 80 = 0 := by omega
  constructor
  · exact ok.top
  · rw [length_rowLine, first, sbAddline_eq]
    rw [onRow_iff] at row
    omega
  · rw [length_rowLine, ends.column]
    omega
  · rfl
  · intro i (hi : i < 80 * 1)
    rw [lineCell_of_lt row (by omega)]
    rcases Nat.lt_or_ge i k with before | after
    · rw [List.getD_eq_getElem _ _ (by rw [length_rowLine]; exact before)]
      simp only [Screenbuf.rowLine, List.getElem_map, List.getElem_range]
    · rw [List.getD_eq_default _ _ (by rw [length_rowLine]; exact after)]
      exact ends.blank i after (by omega)
  · intro word mem
    obtain ⟨j, hj, rfl⟩ := List.mem_map.mp mem
    exact ends.filled j (List.mem_range.mp hj)
  · rw [length_rowLine]
    exact inRow
  · exact Nat.one_le_ofNat
  · rw [length_rowLine, first]
    exact circular_nonneg sb.top sb.cursor

/-- **Backspace undoes typing.** From a row that ends at column `k`, typing a text stores it in the cells
from there on, row after row; as many backspaces blank these cells again and bring the cursor back,
whatever is scrolled meanwhile. -/
theorem backspaces_undo_typing (sb : Screenbuf) (vga : Vga) (ops typing erasing : List SbOp) (k : Nat)
    (s : List (BitVec 8)) (ends : EndsAt k (sbRun sb vga ops).sb) (short : s.length ≤ 1023)
    (plain : ∀ c ∈ s, Line.Plain c)
    (types : typing.filter (fun op => !op.scrolls) = s.map .putchar)
    (erases : erasing.filter (fun op => !op.scrolls) = List.replicate s.length (.putchar 0x08)) :
    let before := (sbRun sb vga ops).sb
    let typed := (sbRun sb vga (ops ++ typing)).sb
    let after := (sbRun sb vga (ops ++ typing ++ erasing)).sb
    (∀ i c, s[i]? = some c → typed.buf (lineCell before.cursor (k + i)) = sbRegularCell before c) ∧
      after.cursor = before.cursor ∧ after.cursorOffset = k ∧
      (∀ i, i < s.length → after.buf (lineCell before.cursor (k + i)) = sbWhitespace) ∧
      ∀ j : Nat, j < k → after.buf (before.cursor + j) = before.buf (before.cursor + j) := by
  intro before typed after
  have ok := pointersOk_sbRun sb vga ops
  have row : OnRow before.cursor := ok.cursor
  have inRow := ends.inRow
  have count := length_rowLine before k
  have start : Holds before.cursor before.color (before.rowLine k) before := ends.holds ok
  obtain ⟨rows, middle⟩ := start.type_text (d := sbRun sb vga ops) row plain (by omega) types
  rw [sbRun, ← run_append, ← sbRun] at middle
  have last := middle.erase_text (d := sbRun sb vga (ops ++ typing)) row
    (by rw [List.length_map]; exact erases)
  rw [sbRun, ← run_append, ← sbRun] at last
  have room : k + s.length < 80 * rows := by
    have inside := middle.inside
    rw [List.length_append, List.length_map, count] at inside
    exact inside
  refine ⟨fun i c char => ?_, ?_, ?_, fun i hi => ?_, fun j hj => ?_⟩
  · obtain ⟨hi, -⟩ := List.getElem?_eq_some_iff.mp char
    rw [middle.reads (k + i) (by dsimp only; omega), List.getD_append_right _ _ _ _ (by omega),
      count, Nat.add_sub_cancel_left, List.getD_eq_getElem?_getD, List.getElem?_map, char]
    rfl
  · have cursor : after.cursor = sbAddline before.cursor ((before.rowLine k).cells.length / 80 : Nat) :=
      last.cursor
    rw [count, Nat.div_eq_of_lt inRow, sbAddline_eq, Nat.cast_zero] at cursor
    rw [onRow_iff] at row
    omega
  · have column : after.cursorOffset = (before.rowLine k).cells.length % 80 := last.offset
    rw [count, Nat.mod_eq_of_lt inRow] at column
    exact column
  · rw [last.reads (k + i) (by dsimp only; omega)]
    exact List.getD_eq_default _ _ (by dsimp only; omega)
  · have here := last.reads j (by dsimp only; omega)
    rw [lineCell_of_lt row (by omega)] at here
    rw [here, List.getD_eq_getElem _ _ (by rw [count]; exact hj)]
    simp only [Screenbuf.rowLine, List.getElem_map, List.getElem_range]

/-- Behind a prompt of one character, a text that goes on to the next row. -/
theorem backspaces_undo_typing_two_rows :
    let after := (sbRun .zero .zero ([.putchar 0x3e] ++
      (List.replicate 80 (.putchar 0x41) ++ [.scroll (-1), .scrollTop]) ++
      (.scrollDown :: List.replicate 80 (.putchar 0x08)))).sb
    after.cursor = 0 ∧ after.cursorOffset = 1 := by
  have prompt : (sbRun .zero .zero [.putchar 0x3e]).sb =
      ((sbInit .zero).store 0x0f3e).incOffset := by
    show (sbPutchar 0x3e { sb := sbInit .zero, vga := .zero }).sb = _
    rw [sbPutchar_sb, Screenbuf.putchar, if_neg (by decide), if_neg (by decide), if_neg (by decide),
      Screenbuf.wrap, if_neg (by decide)]
    rfl
  have ends : EndsAt 1 (sbRun .zero .zero [.putchar 0x3e]).sb := by
    rw [prompt]
    refine ⟨by decide, rfl, fun j first => ?_, fun j low high => ?_⟩
    · obtain rfl : j = 0 := by omega
      show Function.update (sbInit .zero).buf 0 (0x0f3e : Cell) 0 ≠ sbWhitespace
      rw [Function.update_self]
      decide
    · show Function.update (sbInit .zero).buf 0 (0x0f3e : Cell) (0 + j) = sbWhitespace
      rw [Function.update_of_ne (by omega)]
      exact sbInit_buf _ (by omega) (by omega)
  have plain : ∀ c ∈ List.replicate 80 (0x41 : BitVec 8), Line.Plain c := by
    intro c mem
    rw [List.eq_of_mem_replicate mem]
    exact ⟨by decide, by decide, by decide, by decide⟩
  obtain ⟨-, cursor, column, -⟩ := backspaces_undo_typing .zero .zero [.putchar 0x3e]
    (List.replicate 80 (.putchar 0x41) ++ [.scroll (-1), .scrollTop])
    (.scrollDown :: List.replicate 80 (.putchar 0x08)) 1 (List.replicate 80 0x41) ends
    (by rw [List.length_replicate]; decide) plain
    (by rw [List.filter_append, List.filter_replicate, List.map_replicate]; rfl)
    (by rw [List.filter_cons, List.filter_replicate, List.length_replicate]; rfl)
  refine ⟨?_, column⟩
  rw [cursor, prompt]
  rfl

end Nulix.Screen
