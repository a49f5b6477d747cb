import Nulix.Keyboard.Basic

/-!
# The keymaps

The layouts of `kernel/keyboard/keymaps` and `KBD_getchar`, which looks an event up in the table of the
layout that is set.
-/

namespace Nulix.Keyboard

open Fallible

/-! ## Tables -/

/-- `struct kbd_keymap_entry` -/
structure KbdKeymapEntry where
  flags : BitVec 8
  reg : BitVec 8
  shift : BitVec 8
  altgr : BitVec 8
  deriving DecidableEq, Repr

def noMod : BitVec 8 := 0b100
def capslock : BitVec 8 := 0b010
def numlock : BitVec 8 := 0b001

/-- The value of an enumerator. -/
def KbdKeycode.value (key : KbdKeycode) : Nat := key.ctorIdx

/-- A table of `0xFF` entries written with designators; what has none is 0. -/
def keymapOf (rows : List (KbdKeycode × KbdKeymapEntry)) : List KbdKeymapEntry :=
  rows.foldl (fun table row => table.set row.1.value row.2) (List.replicate 0xFF ⟨0, 0, 0, 0⟩)

/-- A character of the source. -/
local instance codeOfChar : Coe Char (BitVec 8) := ⟨fun c => .ofNat 8 c.toNat⟩

/-- The table of US104_getkeymapentry. -/
def us104Keymap : List KbdKeymapEntry :=
  keymapOf [
    (.keyEscape, ⟨noMod, 0x1B, 0, 0⟩), (.key1, ⟨0, '1', '!', '1'⟩), (.key2, ⟨0, '2', '@', '2'⟩),
    (.key3, ⟨0, '3', '#', '3'⟩), (.key4, ⟨0, '4', '$', '4'⟩), (.key5, ⟨0, '5', '%', '5'⟩),
    (.key6, ⟨0, '6', '^', '6'⟩), (.key7, ⟨0, '7', '&', '7'⟩), (.key8, ⟨0, '8', '*', '8'⟩),
    (.key9, ⟨0, '9', '(', '9'⟩), (.key0, ⟨0, '0', ')', '0'⟩), (.keyDash, ⟨0, '-', '_', 0⟩),
    (.keyEqual, ⟨0, '=', '+', 0⟩), (.keyBackspace, ⟨noMod, 0x08, 0, 0⟩),
    (.keyTab, ⟨noMod, 0x09, 0, 0⟩), (.keyQ, ⟨capslock, 'q', 'Q', 0⟩),
    (.keyW, ⟨capslock, 'w', 'W', 0⟩), (.keyE, ⟨capslock, 'e', 'E', 0⟩),
    (.keyR, ⟨capslock, 'r', 'R', 0⟩), (.keyT, ⟨capslock, 't', 'T', 0⟩),
    (.keyY, ⟨capslock, 'y', 'Y', 0⟩), (.keyU, ⟨capslock, 'u', 'U', 0⟩),
    (.keyI, ⟨capslock, 'i', 'I', 0⟩), (.keyO, ⟨capslock, 'o', 'O', 0⟩),
    (.keyP, ⟨capslock, 'p', 'P', 0⟩), (.keyOpeningSquareBracket, ⟨0, '[', 0x7B, 0⟩),
    (.keyClosingSquareBracket, ⟨0, ']', 0x7D, 0⟩), (.keyEnter, ⟨noMod, 0x0A, 0, 0⟩),
    (.keyA, ⟨capslock, 'a', 'A', 0⟩), (.keyS, ⟨capslock, 's', 'S', 0⟩),
    (.keyD, ⟨capslock, 'd', 'D', 0⟩), (.keyF, ⟨capslock, 'f', 'F', 0⟩),
    (.keyG, ⟨capslock, 'g', 'G', 0⟩), (.keyH, ⟨capslock, 'h', 'H', 0⟩),
    (.keyJ, ⟨capslock, 'j', 'J', 0⟩), (.keyK, ⟨capslock, 'k', 'K', 0⟩),
    (.keyL, ⟨capslock, 'l', 'L', 0⟩), (.keyColon, ⟨0, ';', ':', 0⟩),
    (.keySingleQuote, ⟨0, 0x27, 0x22, 0⟩), (.keyBacktick, ⟨0, 0x60, '~', 0⟩),
    (.keyBackslash, ⟨0, 0x5C, '|', 0⟩), (.keyZ, ⟨capslock, 'z', 'Z', 0⟩),
    (.keyX, ⟨capslock, 'x', 'X', 0⟩), (.keyC, ⟨capslock, 'c', 'C', 0⟩),
    (.keyV, ⟨capslock, 'v', 'V', 0⟩), (.keyB, ⟨capslock, 'b', 'B', 0⟩),
    (.keyN, ⟨capslock, 'n', 'N', 0⟩), (.keyM, ⟨capslock, 'm', 'M', 0⟩),
    (.keyComma, ⟨0, ',', '<', 0⟩), (.keyDot, ⟨0, '.', '>', 0⟩), (.keySlash, ⟨0, '/', '?', 0⟩),
    (.keyKeypadWildcard, ⟨noMod, '*', 0, 0⟩), (.keySpace, ⟨noMod, ' ', 0, 0⟩),
    (.keyKeypad7, ⟨numlock ||| noMod, '7', 0, 0⟩), (.keyKeypad8, ⟨numlock ||| noMod, '8', 0, 0⟩),
    (.keyKeypad9, ⟨numlock ||| noMod, '9', 0, 0⟩), (.keyKeypadDash, ⟨noMod, '-', 0, 0⟩),
    (.keyKeypad4, ⟨numlock ||| noMod, '4', 0, 0⟩), (.keyKeypad5, ⟨numlock ||| noMod, '5', 0, 0⟩),
    (.keyKeypad6, ⟨numlock ||| noMod, '6', 0, 0⟩), (.keyKeypadPlus, ⟨noMod, '+', 0, 0⟩),
    (.keyKeypad1, ⟨numlock ||| noMod, '1', 0, 0⟩), (.keyKeypad2, ⟨numlock ||| noMod, '2', 0, 0⟩),
    (.keyKeypad3, ⟨numlock ||| noMod, '3', 0, 0⟩), (.keyKeypad0, ⟨numlock ||| noMod, '0', 0, 0⟩),
    (.keyKeypadDot, ⟨noMod, '.', 0, 0⟩), (.keyKeypadEnter, ⟨noMod, 0x0A, 0, 0⟩),
    (.keyKeypadSlash, ⟨noMod, '/', 0, 0⟩)]

/-- The table of FR_getkeymapentry. -/
def frKeymap : List KbdKeymapEntry :=
  keymapOf [
    (.keyEscape, ⟨noMod, 0x1B, 0, 0⟩), (.key1, ⟨0, '&', '1', 0⟩), (.key2, ⟨0, 'e', '2', '~'⟩),
    (.key3, ⟨0, 0x22, '3', '#'⟩), (.key4, ⟨0, 0x27, '4', 0x7B⟩), (.key5, ⟨0, '(', '5', '['⟩),
    (.key6, ⟨0, '-', '6', '|'⟩), (.key7, ⟨0, 'e', '7', 0x60⟩), (.key8, ⟨0, '_', '8', 0x5C⟩),
    (.key9, ⟨0, 'c', '9', '^'⟩), (.key0, ⟨0, 'a', '0', '@'⟩), (.keyDash, ⟨0, ')', 0, ']'⟩),
    (.keyEqual, ⟨0, '=', '+', 0x7D⟩), (.keyBackspace, ⟨noMod, 0x08, 0, 0⟩),
    (.keyTab, ⟨noMod, 0x09, 0, 0⟩), (.keyQ, ⟨capslock, 'a', 'A', 0⟩),
    (.keyW, ⟨capslock, 'z', 'Z', 0⟩), (.keyE, ⟨capslock, 'e', 'E', 0⟩),
    (.keyR, ⟨capslock, 'r', 'R', 0⟩), (.keyT, ⟨capslock, 't', 'T', 0⟩),
    (.keyY, ⟨capslock, 'y', 'Y', 0⟩), (.keyU, ⟨capslock, 'u', 'U', 0⟩),
    (.keyI, ⟨capslock, 'i', 'I', 0⟩), (.keyO, ⟨capslock, 'o', 'O', 0⟩),
    (.keyP, ⟨capslock, 'p', 'P', 0⟩), (.keyOpeningSquareBracket, ⟨0, 0, 0, 0⟩),
    (.keyClosingSquareBracket, ⟨0, '$', 0, 0⟩), (.keyEnter, ⟨noMod, 0x0A, 0, 0⟩),
    (.keyA, ⟨capslock, 'q', 'Q', 0⟩), (.keyS, ⟨capslock, 's', 'S', 0⟩),
    (.keyD, ⟨capslock, 'd', 'D', 0⟩), (.keyF, ⟨capslock, 'f', 'F', 0⟩),
    (.keyG, ⟨capslock, 'g', 'G', 0⟩), (.keyH, ⟨capslock, 'h', 'H', 0⟩),
    (.keyJ, ⟨capslock, 'j', 'J', 0⟩), (.keyK, ⟨capslock, 'k', 'K', 0⟩),
    (.keyL, ⟨capslock, 'l', 'L', 0⟩), (.keyColon, ⟨0, 'm', 'M', 0⟩),
    (.keySingleQuote, ⟨0, 0, '%', 0⟩), (.keyBacktick, ⟨0, 0, 0, 0⟩),
    (.keyBackslash, ⟨0, 0, '*', 0⟩), (.keyZ, ⟨capslock, 'w', 'W', 0⟩),
    (.keyX, ⟨capslock, 'x', 'X', 0⟩), (.keyC, ⟨capslock, 'c', 'C', 0⟩),
    (.keyV, ⟨capslock, 'v', 'V', 0⟩), (.keyB, ⟨capslock, 'b', 'B', 0⟩),
    (.keyN, ⟨capslock, 'n', 'N', 0⟩), (.keyM, ⟨capslock, ',', '?', 0⟩),
    (.keyComma, ⟨0, ';', '.', 0⟩), (.keyDot, ⟨0, ':', '/', 0⟩), (.keySlash, ⟨0, '!', 0, 0⟩),
    (.keyKeypadWildcard, ⟨noMod, '*', 0, 0⟩), (.keySpace, ⟨noMod, ' ', 0, 0⟩),
    (.keyKeypad7, ⟨numlock ||| noMod, '7', 0, 0⟩), (.keyKeypad8, ⟨numlock ||| noMod, '8', 0, 0⟩),
    (.keyKeypad9, ⟨numlock ||| noMod, '9', 0, 0⟩), (.keyKeypadDash, ⟨noMod, '-', 0, 0⟩),
    (.keyKeypad4, ⟨numlock ||| noMod, '4', 0, 0⟩), (.keyKeypad5, ⟨numlock ||| noMod, '5', 0, 0⟩),
    (.keyKeypad6, ⟨numlock ||| noMod, '6', 0, 0⟩), (.keyKeypadPlus, ⟨noMod, '+', 0, 0⟩),
    (.keyKeypad1, ⟨numlock ||| noMod, '1', 0, 0⟩), (.keyKeypad2, ⟨numlock ||| noMod, '2', 0, 0⟩),
    (.keyKeypad3, ⟨numlock ||| noMod, '3', 0, 0⟩), (.keyKeypad0, ⟨numlock ||| noMod, '0', 0, 0⟩),
    (.keyKeypadDot, ⟨noMod, '.', 0, 0⟩), (.keyKeypadEnter, ⟨noMod, 0x0A, 0, 0⟩),
    (.keyKeypadSlash, ⟨noMod, '/', 0, 0⟩)]

/-- The layouts. -/
inductive Layout
  | us104 | fr
  deriving DecidableEq, Repr

/-- The table of `US104_getkeymapentry` or `FR_getkeymapentry`. -/
def Layout.keymap : Layout → List KbdKeymapEntry
  | .us104 => us104Keymap
  | .fr => frKeymap

/-! ## Characters -/

def keymapAt (keymap : List KbdKeymapEntry) (key : KbdKeycode) : Except OutOfTable KbdKeymapEntry :=
  match keymap[key.value]? with
  | some ent => .ok ent
  | none => .error .lookup

/-- `KBD_getchar`, with the table of the layout that is set, if any. -/
def kbdGetchar (keymap : Option (List KbdKeymapEntry)) (evt : KbdEvent) (mod : KbdModifiers) :
    Except OutOfTable (BitVec 8) :=
  match keymap with
  | none => .ok 0
  | some keymap => do
    let ent ← keymapAt keymap evt.key
    if ent.reg = 0 then return 0
    if ent.flags &&& 0b100 ≠ 0 then return ent.reg
    if mod.ralt ≠ 0 then return ent.altgr
    if mod.capslock ≠ 0 ∧ ent.flags &&& 0b010 ≠ 0 then
      return if mod.lshift ||| mod.rshift ≠ 0 then ent.reg else ent.shift
    return if mod.lshift ||| mod.rshift ≠ 0 then ent.shift else ent.reg

theorem length_keymapOf (rows : List (KbdKeycode × KbdKeymapEntry)) : (keymapOf rows).length = 0xFF := by
  unfold keymapOf
  generalize filled : List.replicate 0xFF (⟨0, 0, 0, 0⟩ : KbdKeymapEntry) = table
  have length : table.length = 0xFF := by rw [← filled, List.length_replicate]
  clear filled
  induction rows generalizing table with
  | nil => exact length
  | cons row rows ih => exact ih _ ((List.length_set ..).trans length)

theorem value_lt (key : KbdKeycode) : key.value < 0xFF := by
  cases key <;> decide

/-- Every key has an entry in every table of `0xFF` entries. -/
theorem keymapAt_returns {keymap : List KbdKeymapEntry} (length : keymap.length = 0xFF)
    (key : KbdKeycode) : ∃ ent, keymapAt keymap key = .ok ent := by
  have inside : key.value < keymap.length := length.symm ▸ value_lt key
  exact ⟨keymap[key.value], by rw [keymapAt, List.getElem?_eq_getElem inside]⟩

/-- Every event has a character, or none, whatever the modifiers. -/
theorem kbdGetchar_returns {keymap : List KbdKeymapEntry} (length : keymap.length = 0xFF) (evt : KbdEvent)
    (mod : KbdModifiers) : ∃ c, kbdGetchar (some keymap) evt mod = .ok c := by
  obtain ⟨ent, found⟩ := keymapAt_returns length evt.key
  unfold kbdGetchar
  simp only [found, bind, Except.bind]
  repeat' split
  all_goals exact ⟨_, rfl⟩

end Nulix.Keyboard
