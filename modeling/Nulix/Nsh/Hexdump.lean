import Nulix.Memory
import Nulix.Print.RoundTrip

/-!
# The dump of `hexdump`

`builtins/hexdump.c` prints memory in lines of sixteen bytes: the address, the bytes in hexadecimal and the
bytes as characters. The memory that it reads is taken to be another one than that of the screens that it
writes to.
-/

namespace Nulix.Nsh

open Nulix.Std Positional Print Screen Words

/-! ## Lines -/

/-- `NBYTES_LINE` -/
def nbytesLine : Nat := 16

/-- `C_ACTIVE` -/
def cActive : SbColor := .lightRed

/-- `C_INACTIVE` -/
def cInactive : SbColor := .white

/-- `C_NONPRINT` -/
def cNonprint : SbColor := .white

/-- The variables of the loops of `hx_printline`. -/
structure HxLoop where
  i : Nat
  nb : Int
  console : Console

/-- A turn of the loop of the hexadecimal columns. -/
def hxColumn (m : Mem) (base : Nat) (s : HxLoop) : HxLoop :=
  let c := s.console
  let c := if s.i % 2 = 0 then kprintf (text " ") [] c else c
  let c :=
    if s.nb > 0 then
      let byte := m (u32 (base + s.i))
      let c := c.onCurrent (sbSetFg (if byte ≠ 0 then cActive else cInactive))
      let c := kprintf (text "%2x") [.int (byte.setWidth 32)] c
      c.onCurrent (sbSetFg cInactive)
    else kprintf (text "  ") [] c
  { i := s.i + 1, nb := s.nb - 1, console := c }

/-- A turn of the loop of the characters. -/
def hxChar (m : Mem) (base : Nat) (s : HxLoop) : HxLoop :=
  let c := s.console
  let c :=
    if s.nb > 0 then
      let byte := m (u32 (base + s.i))
      let (byte, c) :=
        if byte = 0 then (0x2e, c.onCurrent (sbSetFg cInactive))
        else if byte.toNat < 32 ∨ byte.toNat > 127 then (0x2e, c.onCurrent (sbSetFg cNonprint))
        else (byte, c.onCurrent (sbSetFg cActive))
      let c := kprintf (text "%c") [.int (byte.setWidth 32)] c
      c.onCurrent (sbSetFg cInactive)
    else kprintf (text " ") [] c
  { i := s.i + 1, nb := s.nb - 1, console := c }

/-- `for (int i = 0, nb = (int)nbytes; i < NBYTES_LINE; i++, nb--)` -/
def hxLoop (turn : HxLoop → HxLoop) (nbytes : Nat) (c : Console) : Console :=
  (turn^[nbytesLine] { i := 0, nb := nbytes, console := c }).console

/-- `hx_printline` -/
def hxPrintline (m : Mem) (base nbytes : Nat) (c : Console) : Console :=
  let c := kprintf (text "%8p: ") [.int (.ofNat 32 base)] c
  let c := hxLoop (hxColumn m base) nbytes c
  let c := c.onCurrent (sbSetFg cInactive)
  let c := kprintf (text "  |") [] c
  let c := hxLoop (hxChar m base) nbytes c
  kprintf (text "|\n") [] c

/-- The loop of `hx_print`: what is left of `base` and `size`. -/
def hxLines (m : Mem) (base size : Nat) (c : Console) : Nat × Nat × Console :=
  if size ≥ nbytesLine then
    hxLines m (u32 (base + nbytesLine)) (size - nbytesLine) (hxPrintline m base nbytesLine c)
  else (base, size, c)
termination_by size
decreasing_by
  unfold nbytesLine at *
  omega

/-- `hx_print` -/
def hxPrint (m : Mem) (base size : Nat) (c : Console) : Console :=
  let color := c.getColor
  let c := c.onCurrent (sbSetColor sbDflColor)
  let c := c.onCurrent (sbSetFg cInactive)
  let (base, size, c) := hxLines m base size c
  let c := if size ≠ 0 then hxPrintline m base size c else c
  c.onCurrent (sbSetColor color)

/-! ## Reading a dump -/

/-- A number written in lower case hexadecimal digits only. -/
def readHex (t : Text) : Option Nat :=
  if (digitRun 16 t).length = t.length then some (value 16 (digitRun 16 t)) else none

/-- The address at the start of a line: `0x` and eight digits. -/
def readAddress (line : Text) : Option Nat :=
  if line.take 2 = text "0x" then readHex ((line.drop 2).take 8) else none

/-- The sixteen columns of a line, of two characters each: every second one is behind a blank. -/
def columns (line : Text) : List Text :=
  (List.range nbytesLine).map fun i => (line.drop (13 + 2 * i + i / 2)).take 2

/-- The byte of a column. -/
def readByte (column : Text) : Option (BitVec 8) := (readHex column).map (.ofNat 8)

/-- The lines are a dump of `size` bytes from `base` on. -/
structure IsDump (m : Mem) (base size : Nat) (lines : List Text) : Prop where
  count : lines.length = (size + 15) / 16
  length : ∀ line ∈ lines, line.length = 72
  oneLine : ∀ line ∈ lines, 0x0a ∉ line
  address : ∀ j line, lines[j]? = some line → readAddress line = some (base + 16 * j)
  bytes : ((lines.flatMap columns).take size).map readByte =
    (List.range size).map fun k => some (m (base + k))
  blanks : (lines.flatMap columns).drop size = List.replicate (16 * lines.length - size) (text "  ")

/-! ## Hexadecimal numbers -/

section

variable (n : BitVec 32) {padding : Nat}

theorem number_hex (padding : Nat) :
    number 16 false n padding = (paddedDigits 16 n.toNat padding).map digitChar := by
  rw [number, sign, magnitude, padded_eq]
  rfl

theorem number_hex_ne (padding : Nat) : ∀ c ∈ number 16 false n padding, c ≠ 0 ∧ c ≠ 0x0a := by
  have digits : ∀ d < 16, digitChar d ≠ 0 ∧ digitChar d ≠ 0x0a := by decide
  rw [number_hex]
  intro c mem
  obtain ⟨d, digit, rfl⟩ := List.mem_map.mp mem
  exact digits d (paddedDigits_lt (by decide) d digit)

/-- A number with enough padding has as many digits. -/
theorem length_number_hex (positive : 0 < padding) (short : n.toNat < 16 ^ padding) :
    (number 16 false n padding).length = padding := by
  have digits : (digitsOf 16 n.toNat).length ≤ padding := length_digitsOf_le (by decide) positive short
  rw [length_number]
  show 0 + max padding (digitsOf 16 n.toNat).length = padding
  omega

theorem readHex_number (padding : Nat) : readHex (number 16 false n padding) = some n.toNat := by
  have run : digitRun 16 ((paddedDigits 16 n.toNat padding).map digitChar) = paddedDigits 16 n.toNat padding :=
    digitRun_digitChar (Nat.le_refl 16) (paddedDigits_lt (by decide))
  rw [number_hex, readHex, run, List.length_map, if_pos rfl, value_paddedDigits (by decide)]

end

/-! ## What is printed -/

/-- The digits of a byte. -/
def byteText (byte : BitVec 8) : Text := number 16 false (byte.setWidth 32) 2

/-- The character that stands for a byte. -/
def shownChar (byte : BitVec 8) : BitVec 8 :=
  if byte = 0 ∨ byte.toNat < 32 ∨ byte.toNat > 127 then 0x2e else byte

/-- A turn of the first loop, with the blank in front of every second column. -/
def columnText (m : Mem) (base i : Nat) (filled : Bool) : Text :=
  (if i % 2 = 0 then text " " else []) ++ if filled then byteText (m (u32 (base + i))) else text "  "

def charText (m : Mem) (base i : Nat) (filled : Bool) : Text :=
  if filled then [shownChar (m (u32 (base + i)))] else text " "

/-- The start of a line. -/
def lineAddress (base : Nat) : Text := 0x30 :: 0x78 :: (number 16 false (.ofNat 32 base) 8 ++ text ": ")

/-- The text of a line, without the end of the line. -/
def lineText (m : Mem) (base nbytes : Nat) : Text :=
  lineAddress base ++ (((List.range 16).flatMap fun i => columnText m base i (i < nbytes)) ++
    (text "  |" ++ (((List.range 16).flatMap fun i => charText m base i (i < nbytes)) ++ text "|")))

theorem toNat_byte (byte : BitVec 8) : (byte.setWidth 32).toNat = byte.toNat := by
  rw [BitVec.toNat_setWidth, Nat.mod_eq_of_lt (Nat.lt_trans byte.isLt (by decide))]

theorem length_byteText (byte : BitVec 8) : (byteText byte).length = 2 :=
  length_number_hex _ (by decide) (by rw [toNat_byte]; exact byte.isLt)

theorem kprintfText_byte (byte : BitVec 8) :
    kprintfText (text "%2x") [.int (byte.setWidth 32)] = byteText byte := by
  have whole : expansion 0 [.conversion (some 2) .hexadecimal] [.int (byte.setWidth 32)] = byteText byte :=
    List.append_nil _
  rw [← whole]
  refine kprintfText_items [.conversion (some 2) .hexadecimal] ?_ ?_
  · rw [whole, length_byteText]
    decide
  · rw [whole]
    exact fun c mem => (number_hex_ne _ 2 c mem).1

theorem kprintfText_shown {byte : BitVec 8} (nonzero : byte ≠ 0) :
    kprintfText (text "%c") [.int (byte.setWidth 32)] = [byte] := by
  have narrowed : (byte.setWidth 32).setWidth 8 = byte := by
    rw [BitVec.setWidth_setWidth_of_le byte (by decide), BitVec.setWidth_eq]
  have whole : expansion 0 [.conversion none .character] [.int (byte.setWidth 32)] = [byte] := by
    show [(byte.setWidth 32).setWidth 8] ++ [] = [byte]
    rw [narrowed, List.append_nil]
  rw [← whole]
  refine kprintfText_items [.conversion none .character] ?_ ?_
  · rw [whole, List.length_singleton]
    decide
  · rw [whole]
    simpa using nonzero

theorem length_address (base : Nat) : (number 16 false (.ofNat 32 base) 8).length = 8 :=
  length_number_hex _ (by decide) (BitVec.isLt _)

theorem length_lineAddress (base : Nat) : (lineAddress base).length = 12 := by
  rw [lineAddress, List.length_cons, List.length_cons, List.length_append, length_address]
  rfl

theorem kprintfText_address (base : Nat) :
    kprintfText (text "%8p: ") [.int (.ofNat 32 base)] = lineAddress base := by
  have ordinary : ∀ c ∈ text ": ", c ≠ 0x25 ∧ c ≠ 0 := by decide
  have format : text "%8p: " = formatText (.conversion (some 8) .pointer :: (literals _ ordinary ++ [])) := rfl
  have whole : expansion 0 (.conversion (some 8) .pointer :: (literals _ ordinary ++ []))
      [.int (.ofNat 32 base)] = lineAddress base := by
    rw [expansion, expansion_literals]
    rfl
  rw [format, ← whole]
  apply kprintfText_items
  · rw [whole, length_lineAddress]
    decide
  · rw [whole, lineAddress]
    simp only [List.forall_mem_cons, List.forall_mem_append]
    exact ⟨by decide, by decide, fun c mem => (number_hex_ne _ 8 c mem).1, fun c mem => (ordinary c mem).2⟩

/-! ## The loops -/

theorem kprintf_literal {fmt : Text} (literal : ∀ c ∈ fmt, c ≠ 0x25 ∧ c ≠ 0) (fits : fmt.length < bufsize)
    (c : Console) : (kprintf fmt [] c).printed = c.printed ++ fmt := by
  show c.printed ++ kprintfText fmt [] = _
  rw [kprintfText_literal (fun d mem => (literal d mem).1) (fun d mem => (literal d mem).2) fits]

/-- A loop prints the texts of its sixteen turns. -/
theorem hxLoop_printed {turn : HxLoop → HxLoop} {field : Nat → Bool → Text}
    (next : ∀ s, (turn s).i = s.i + 1 ∧ (turn s).nb = s.nb - 1 ∧
      (turn s).console.printed = s.console.printed ++ field s.i (0 < s.nb)) (nbytes : Nat) (c : Console) :
    (hxLoop turn nbytes c).printed =
      c.printed ++ (List.range 16).flatMap fun i => field i (i < nbytes) := by
  have turns : ∀ k, let s := turn^[k] { i := 0, nb := nbytes, console := c }
      s.i = k ∧ s.nb = (nbytes : Int) - k ∧
        s.console.printed = c.printed ++ (List.range k).flatMap fun i => field i (i < nbytes) := by
    intro k
    induction k with
    | zero => exact ⟨rfl, (Int.sub_zero _).symm, (List.append_nil _).symm⟩
    | succ k ih =>
      obtain ⟨i, nb, printed⟩ := ih
      dsimp only at i nb printed ⊢
      rw [Function.iterate_succ_apply']
      obtain ⟨i', nb', printed'⟩ := next (turn^[k] { i := 0, nb := nbytes, console := c })
      have filled : (0 < (nbytes : Int) - k) = (k < nbytes) := propext (by omega)
      refine ⟨by rw [i', i], by rw [nb', nb]; omega, ?_⟩
      rw [printed', printed, i, nb, List.range_succ, List.flatMap_append, List.flatMap_singleton,
        List.append_assoc]
      simp only [filled]
  exact (turns 16).2.2

variable (m : Mem) (base : Nat)

theorem hxColumn_next (s : HxLoop) :
    (hxColumn m base s).i = s.i + 1 ∧ (hxColumn m base s).nb = s.nb - 1 ∧
      (hxColumn m base s).console.printed =
        s.console.printed ++ columnText m base s.i (0 < s.nb) := by
  refine ⟨rfl, rfl, ?_⟩
  have blank : (if s.i % 2 = 0 then kprintf (text " ") [] s.console else s.console).printed =
      s.console.printed ++ if s.i % 2 = 0 then text " " else [] := by
    split
    · exact kprintf_literal (by decide) (by decide) _
    · exact (List.append_nil _).symm
  unfold hxColumn columnText
  dsimp only
  rw [← List.append_assoc, ← blank]
  by_cases more : s.nb > 0
  · rw [if_pos more, decide_eq_true more, if_pos rfl, ← kprintfText_byte]
    rfl
  · rw [if_neg more, decide_eq_false more, if_neg Bool.false_ne_true]
    exact kprintf_literal (by decide) (by decide) _

theorem hxChar_next (s : HxLoop) :
    (hxChar m base s).i = s.i + 1 ∧ (hxChar m base s).nb = s.nb - 1 ∧
      (hxChar m base s).console.printed = s.console.printed ++ charText m base s.i (0 < s.nb) := by
  refine ⟨rfl, rfl, ?_⟩
  unfold hxChar charText
  dsimp only
  by_cases more : s.nb > 0
  · rw [if_pos more, decide_eq_true more, if_pos rfl]
    generalize m (u32 (base + s.i)) = byte
    unfold shownChar
    by_cases zero : byte = 0
    · rw [if_pos zero, if_pos (.inl zero), ← kprintfText_shown (by decide)]
      rfl
    · by_cases strange : byte.toNat < 32 ∨ byte.toNat > 127
      · rw [if_neg zero, if_pos strange, if_pos (.inr strange), ← kprintfText_shown (by decide)]
        rfl
      · rw [if_neg zero, if_neg strange, if_neg (not_or_intro zero strange), ← kprintfText_shown zero]
        rfl
  · rw [if_neg more, decide_eq_false more, if_neg Bool.false_ne_true]
    exact kprintf_literal (by decide) (by decide) _

/-- `hx_printline` prints the line. -/
theorem hxPrintline_printed (nbytes : Nat) (c : Console) :
    (hxPrintline m base nbytes c).printed = c.printed ++ (lineText m base nbytes ++ text "\n") := by
  have address : (kprintf (text "%8p: ") [.int (.ofNat 32 base)] c).printed = c.printed ++ lineAddress base :=
    congrArg (c.printed ++ ·) (kprintfText_address base)
  have bar : text "|\n" = text "|" ++ text "\n" := rfl
  unfold hxPrintline lineText
  dsimp only
  rw [kprintf_literal (by decide) (by decide), hxLoop_printed (hxChar_next m base),
    kprintf_literal (by decide) (by decide)]
  show (hxLoop (hxColumn m base) nbytes _).printed ++ _ ++ _ ++ _ = _
  rw [hxLoop_printed (hxColumn_next m base), address, bar]
  simp only [List.append_assoc]

/-! ## Whole dumps -/

variable {m base} {size : Nat}

/-- The lines of a dump: all but the last one are full. -/
def dumpLines (m : Mem) (base size : Nat) : List Text :=
  (List.range ((size + 15) / 16)).map fun j => lineText m (base + 16 * j) (min 16 (size - 16 * j))

/-- The loop of `hx_print` prints the full lines and leaves the rest. -/
theorem hxLines_eq (inside : base + size < 2 ^ 32) (c : Console) :
    ∃ c', hxLines m base size c = (base + 16 * (size / 16), size % 16, c') ∧
      c'.printed = c.printed ++
        (List.range (size / 16)).flatMap fun j => lineText m (base + 16 * j) 16 ++ text "\n" := by
  induction size using Nat.strongRecOn generalizing base c with
  | ind size ih =>
    unfold hxLines
    by_cases full : size ≥ nbytesLine
    · have sixteen : nbytesLine = 16 := rfl
      rw [if_pos full, sixteen, u32_of_lt (by omega)]
      obtain ⟨c', rest, printed⟩ := @ih (size - 16) (by omega) (base + 16) (by omega)
        (hxPrintline m base 16 c)
      have lines : size / 16 = (size - 16) / 16 + 1 := by omega
      refine ⟨c', ?_, ?_⟩
      · rw [rest]
        refine Prod.ext ?_ (Prod.ext ?_ rfl) <;> dsimp only <;> omega
      · rw [printed, hxPrintline_printed, lines, List.range_succ_eq_map, List.flatMap_cons,
          List.flatMap_map, List.append_assoc]
        have shift : ∀ j, base + 16 + 16 * j = base + 16 * (j + 1) := fun j => by omega
        simp only [shift, Nat.mul_zero, Nat.add_zero, Nat.succ_eq_add_one]
    · have less : size < 16 := Nat.lt_of_not_le full
      rw [if_neg full, Nat.div_eq_of_lt less, Nat.mod_eq_of_lt less]
      exact ⟨c, rfl, (List.append_nil _).symm⟩

theorem hxPrint_printed (inside : base + size < 2 ^ 32) (c : Console) :
    (hxPrint m base size c).printed =
      c.printed ++ (dumpLines m base size).flatMap fun line => line ++ text "\n" := by
  obtain ⟨c', rest, printed⟩ := hxLines_eq (m := m) inside
    ((c.onCurrent (sbSetColor sbDflColor)).onCurrent (sbSetFg cInactive))
  have full : (List.range (size / 16)).map (fun j => lineText m (base + 16 * j) (min 16 (size - 16 * j))) =
      (List.range (size / 16)).map fun j => lineText m (base + 16 * j) 16 := by
    refine List.map_congr_left fun j mem => ?_
    have before := List.mem_range.mp mem
    rw [Nat.min_eq_left (by omega)]
  unfold hxPrint dumpLines
  dsimp only
  rw [rest]
  dsimp only
  by_cases more : size % 16 ≠ 0
  · have lines : (size + 15) / 16 = size / 16 + 1 := by omega
    have last : min 16 (size - 16 * (size / 16)) = size % 16 := by omega
    rw [if_pos more, lines, List.range_succ, List.map_append, full, List.map_singleton, last]
    show (hxPrintline m (base + 16 * (size / 16)) (size % 16) c').printed = _
    rw [hxPrintline_printed, printed, List.flatMap_append, List.flatMap_map, List.flatMap_singleton,
      List.append_assoc]
    rfl
  · have lines : (size + 15) / 16 = size / 16 := by omega
    rw [if_neg more, lines, full, List.flatMap_map]
    exact printed

theorem hxPrint_getColor (c : Console) : (hxPrint m base size c).getColor = c.getColor := by
  have restored : ∀ (color : BitVec 8) (c : Console), (c.onCurrent (sbSetColor color)).getColor = color := by
    intro color c
    show sbGetColor (c.screens.onCurrent (sbSetColor color)).display = color
    rw [ScreensOk.display_onCurrent]
    rfl
  unfold hxPrint
  exact restored _ _

/-! ## One line read back -/

/-- The text of a column without the blank in front of it. -/
def cellText (m : Mem) (base nbytes i : Nat) : Text :=
  if i < nbytes then byteText (m (u32 (base + i))) else text "  "

theorem length_cellText (nbytes i : Nat) : (cellText m base nbytes i).length = 2 := by
  unfold cellText
  split
  · exact length_byteText _
  · rfl

theorem columnText_eq (nbytes i : Nat) :
    columnText m base i (i < nbytes) =
      (if i % 2 = 0 then text " " else []) ++ cellText m base nbytes i := by
  unfold columnText cellText
  simp only [decide_eq_true_eq]

/-- The width of the first columns. -/
theorem length_columns (nbytes k : Nat) :
    ((List.range k).flatMap fun i => columnText m base i (i < nbytes)).length = 2 * k + (k + 1) / 2 := by
  induction k with
  | zero => rfl
  | succ k ih =>
    rw [List.range_succ, List.flatMap_append, List.flatMap_singleton, List.length_append, ih,
      columnText_eq, List.length_append, length_cellText]
    split
    · show _ + (1 + 2) = _
      omega
    · show _ + (0 + 2) = _
      omega

theorem length_chars (nbytes k : Nat) :
    ((List.range k).flatMap fun i => charText m base i (i < nbytes)).length = k := by
  induction k with
  | zero => rfl
  | succ k ih =>
    rw [List.range_succ, List.flatMap_append, List.flatMap_singleton, List.length_append, ih]
    unfold charText
    split <;> rfl

theorem length_lineText (nbytes : Nat) : (lineText m base nbytes).length = 72 := by
  unfold lineText
  simp only [List.length_append, length_lineAddress, length_columns, length_chars]
  rfl

theorem lineText_ne_newline (nbytes : Nat) : 0x0a ∉ lineText m base nbytes := by
  have column : ∀ i, 0x0a ∉ columnText m base i (i < nbytes) := by
    intro i mem
    rw [columnText_eq] at mem
    rcases List.mem_append.mp mem with blank | cell
    · revert blank
      split <;> decide
    · revert cell
      unfold cellText
      split
      · exact fun digit => (number_hex_ne _ 2 _ digit).2 rfl
      · decide
  have char : ∀ i, 0x0a ∉ charText m base i (i < nbytes) := by
    have shown : ∀ byte, shownChar byte ≠ 0x0a := by
      intro byte
      unfold shownChar
      split
      · decide
      · next plain =>
        rintro rfl
        exact plain (.inr (.inl (by decide)))
    intro i mem
    revert mem
    unfold charText
    split
    · exact fun mem => shown _ (List.mem_singleton.mp mem).symm
    · decide
  have address : 0x0a ∉ number 16 false (.ofNat 32 base) 8 := fun digit => (number_hex_ne _ 8 _ digit).2 rfl
  unfold lineText lineAddress
  simp only [List.mem_append, List.mem_cons, List.mem_flatMap, not_or, not_exists, not_and]
  exact ⟨⟨by decide, by decide, address, by decide⟩, fun i _ => column i, by decide, fun i _ => char i,
    by decide⟩

theorem readAddress_lineText (word : base < 2 ^ 32) (nbytes : Nat) :
    readAddress (lineText m base nbytes) = some base := by
  have digits := length_address base
  unfold lineText
  generalize (List.range 16).flatMap _ ++ _ = rest
  have split : lineAddress base ++ rest =
      text "0x" ++ (number 16 false (.ofNat 32 base) 8 ++ (text ": " ++ rest)) := by
    rw [← List.append_assoc (number 16 false (.ofNat 32 base) 8)]
    rfl
  have marker : (text "0x").length = 2 := rfl
  rw [readAddress, split, List.take_left' marker, if_pos rfl, List.drop_left' marker,
    List.take_left' digits, readHex_number, BitVec.toNat_ofNat, Nat.mod_eq_of_lt word]

theorem flatMap_range_split {α : Type} (f : Nat → List α) {i n : Nat} (inside : i < n) :
    ∃ rest, (List.range n).flatMap f = (List.range i).flatMap f ++ (f i ++ rest) := by
  obtain ⟨k, rfl⟩ : ∃ k, n = i + 1 + k := Nat.exists_eq_add_of_le inside
  rw [List.range_add, List.flatMap_append, List.range_succ, List.flatMap_append, List.flatMap_singleton,
    List.append_assoc]
  exact ⟨_, rfl⟩

/-- The columns are where they are looked for. -/
theorem columns_lineText (nbytes : Nat) :
    columns (lineText m base nbytes) = (List.range 16).map (cellText m base nbytes) := by
  refine List.map_congr_left fun i mem => ?_
  have inside : i < 16 := List.mem_range.mp mem
  obtain ⟨rest, range⟩ := flatMap_range_split (fun i => columnText m base i (i < nbytes)) inside
  have before := @length_columns m base nbytes i
  have width := @length_cellText m base nbytes i
  unfold lineText
  rw [range, columnText_eq]
  generalize (List.range i).flatMap _ = first at before
  have blank : (if i % 2 = 0 then text " " else []).length = 1 - i % 2 := by
    rcases Nat.mod_two_eq_zero_or_one i with even | odd
    · rw [if_pos even, even]
      rfl
    · rw [if_neg (by omega), odd]
      rfl
  generalize (if i % 2 = 0 then text " " else []) = space at blank
  have offset : (lineAddress base ++ (first ++ space)).length = 13 + 2 * i + i / 2 := by
    rw [List.length_append, List.length_append, length_lineAddress, before, blank]
    omega
  have split : ∀ tail, lineAddress base ++ (first ++ ((space ++ cellText m base nbytes i) ++ rest) ++ tail) =
      (lineAddress base ++ (first ++ space)) ++ (cellText m base nbytes i ++ (rest ++ tail)) := by
    intro tail
    simp only [List.append_assoc]
  rw [split, List.drop_left' offset, List.take_left' width]

/-! ## A dump read back -/

/-- The bytes of a dump, one after the other. -/
theorem flatMap_blocks {α : Type} (f : Nat → α) (k n : Nat) :
    ((List.range n).flatMap fun j => (List.range k).map fun i => f (k * j + i)) =
      (List.range (k * n)).map f := by
  induction n with
  | zero => rfl
  | succ n ih =>
    rw [List.range_succ, List.flatMap_append, ih, List.flatMap_singleton, Nat.mul_succ, List.range_add,
      List.map_append, List.map_map]
    rfl

theorem readByte_byteText (byte : BitVec 8) : readByte (byteText byte) = some byte := by
  rw [readByte, byteText, readHex_number, toNat_byte, Option.map_some, BitVec.ofNat_toNat,
    BitVec.setWidth_eq]

/-- All columns of a dump, in order. -/
theorem columns_dumpLines (inside : base + size < 2 ^ 32) :
    (dumpLines m base size).flatMap columns = (List.range (16 * ((size + 15) / 16))).map fun k =>
      if k < size then byteText (m (base + k)) else text "  " := by
  rw [← flatMap_blocks, dumpLines, List.flatMap_map]
  refine List.flatMap_congr fun j mem => ?_
  rw [columns_lineText]
  refine List.map_congr_left fun i mem' => ?_
  have column := List.mem_range.mp mem'
  have filled : i < min 16 (size - 16 * j) ↔ 16 * j + i < size := by omega
  unfold cellText
  simp only [filled]
  split
  · rw [u32_of_lt (by omega), Nat.add_assoc]
  · rfl

theorem length_dumpLines : (dumpLines m base size).length = (size + 15) / 16 := by
  rw [dumpLines, List.length_map, List.length_range]

/-- They are those of the bytes, and then blank ones. -/
theorem columns_dumpLines_append (inside : base + size < 2 ^ 32) :
    (dumpLines m base size).flatMap columns =
      (List.range size).map (fun k => byteText (m (base + k))) ++
        List.replicate (16 * (dumpLines m base size).length - size) (text "  ") := by
  obtain ⟨k, rest⟩ : ∃ k, 16 * ((size + 15) / 16) = size + k :=
    ⟨16 * ((size + 15) / 16) - size, by omega⟩
  have blanks : List.replicate k (text "  ") = (List.range k).map fun _ => text "  " := by
    rw [List.map_const', List.length_range]
  rw [columns_dumpLines inside, length_dumpLines, rest, Nat.add_sub_cancel_left, List.range_add,
    List.map_append, List.map_map, blanks]
  congr 1
  · exact List.map_congr_left fun k mem => if_pos (List.mem_range.mp mem)
  · exact List.map_congr_left fun i _ => if_neg (Nat.not_lt.mpr (Nat.le_add_right size i))

theorem isDump_dumpLines (inside : base + size < 2 ^ 32) : IsDump m base size (dumpLines m base size) := by
  have line : ∀ line ∈ dumpLines m base size, ∃ base' nbytes, line = lineText m base' nbytes := by
    intro line mem
    obtain ⟨j, -, rfl⟩ := List.mem_map.mp mem
    exact ⟨_, _, rfl⟩
  have split := columns_dumpLines_append (m := m) inside
  have width : ((List.range size).map fun k => byteText (m (base + k))).length = size := by
    rw [List.length_map, List.length_range]
  refine ⟨length_dumpLines, fun l mem => ?_, fun l mem => ?_, fun j l at_ => ?_, ?_, ?_⟩
  · obtain ⟨base', nbytes, rfl⟩ := line l mem
    exact length_lineText nbytes
  · obtain ⟨base', nbytes, rfl⟩ := line l mem
    exact lineText_ne_newline nbytes
  · obtain ⟨inRange, rfl⟩ := List.getElem?_eq_some_iff.mp at_
    rw [length_dumpLines] at inRange
    simp only [dumpLines, List.getElem_map, List.getElem_range]
    exact readAddress_lineText (by omega) _
  · rw [split, List.take_left' width, List.map_map]
    exact List.map_congr_left fun k _ => readByte_byteText _
  · rw [split, List.drop_left' width]

/-- **A dump shows the bytes that were asked for.** The lines that `hx_print` prints are one for every
sixteen bytes and for the rest, each with its address, and their columns read back are the bytes of memory
and then blanks. The colour is the one of before. -/
theorem hxPrint_isDump (m : Mem) (base size : Nat) (inside : base + size < 2 ^ 32) (c : Console) :
    (∃ lines, (hxPrint m base size c).printed = c.printed ++ lines.flatMap (fun line => line ++ text "\n") ∧
      IsDump m base size lines) ∧ (hxPrint m base size c).getColor = c.getColor :=
  ⟨⟨dumpLines m base size, hxPrint_printed inside c, isDump_dumpLines inside⟩, hxPrint_getColor c⟩

/-- Twenty bytes below the end of memory: a full line and one with four bytes. -/
theorem hxPrint_isDump_twenty :
    let m : Mem := fun a => .ofNat 8 a
    let c : Console := ⟨.boot (fun _ => .zero) 2 .zero, []⟩
    (∃ lines, (hxPrint m 0xffffff00 20 c).printed = c.printed ++ lines.flatMap (fun line => line ++ text "\n") ∧
      IsDump m 0xffffff00 20 lines) ∧ (hxPrint m 0xffffff00 20 c).getColor = c.getColor :=
  hxPrint_isDump _ _ _ (by decide) _

end Nulix.Nsh
