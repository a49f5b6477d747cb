import Nulix.Lib.Fallible

/-!
# The keyboard

The keyboard driver of `kernel/keyboard/keyboard.c` with the scancode tables of
`kernel/keyboard/scancodes.c`. `kbdGetevent` takes the byte that the PS/2 data port gives; a lookup
behind the end of a table reads memory that the driver says nothing about, and stops the model.
-/

namespace Nulix.Keyboard

open Fallible

/-! ## Events and keycodes -/

/-- `enum kbd_eventtype` -/
inductive KbdEventtype
  | keyPressed | keyReleased
  deriving DecidableEq, Repr

/-- `enum kbd_keycode` -/
inductive KbdKeycode
  | unknown | keyEscape | key1 | key2 | key3 | key4 | key5 | key6 | key7 | key8 | key9 | key0
  | keyDash | keyEqual | keyBackspace | keyTab | keyQ | keyW | keyE | keyR | keyT | keyY | keyU
  | keyI | keyO | keyP | keyOpeningSquareBracket | keyClosingSquareBracket | keyEnter
  | keyLeftCtrl | keyA | keyS | keyD | keyF | keyG | keyH | keyJ | keyK | keyL | keyColon
  | keySingleQuote | keyBacktick | keyLeftShift | keyBackslash | keyZ | keyX | keyC | keyV | keyB
  | keyN | keyM | keyComma | keyDot | keySlash | keyRightShift | keyKeypadWildcard | keyLeftAlt
  | keySpace | keyCapsLock | keyF1 | keyF2 | keyF3 | keyF4 | keyF5 | keyF6 | keyF7 | keyF8 | keyF9
  | keyF10 | keyNumlock | keyScrolllock | keyKeypad7 | keyKeypad8 | keyKeypad9 | keyKeypadDash
  | keyKeypad4 | keyKeypad5 | keyKeypad6 | keyKeypadPlus | keyKeypad1 | keyKeypad2 | keyKeypad3
  | keyKeypad0 | keyKeypadDot | keyF11 | keyF12 | keyMultimediaPreviousTrack
  | keyMultimediaNextTrack | keyKeypadEnter | keyRightCtrl | keyMultimediaMute
  | keyMultimediaCalculator | keyMultimediaPlay | keyMultimediaStop | keyMultimediaVolumeDown
  | keyMultimediaVolumeUp | keyMultimediaHomeWww | keyKeypadSlash | keyRightAlt | keyHome
  | keyCursorUp | keyPageUp | keyCursorLeft | keyCursorRight | keyEnd | keyCursorDown
  | keyPageDown | keyInsert | keyDelete | keyLeftGui | keyRightGui | keyApps | keyAcpiPower
  | keyAcpiSleep | keyAcpiWake | keyMultimediaWwwSearch | keyMultimediaWwwFavorites
  | keyMultimediaWwwRefresh | keyMultimediaWwwStop | keyMultimediaWwwForward
  | keyMultimediaWwwBack | keyMultimediaMyComputer | keyMultimediaEmail | keyMultimediaMediaSelect
  deriving DecidableEq, Repr

/-- `struct kbd_event` -/
structure KbdEvent where
  type : KbdEventtype
  key : KbdKeycode
  deriving DecidableEq, Repr

/-- A table written with designators: each entry is the first index of a row of keycodes, and what
no row covers is `UNKNOWN`. -/
def designated (rows : List (Nat × List KbdKeycode)) : List KbdKeycode :=
  rows.foldl (fun table row =>
    table ++ List.replicate (row.1 - table.length) .unknown ++ row.2) []

/-- `kbd_reg_keycodes` -/
def kbdRegKeycodes : List KbdKeycode :=
  designated [
    (0x01, [
        .keyEscape, .key1, .key2, .key3, .key4, .key5, .key6, .key7, .key8, .key9, .key0,
        .keyDash, .keyEqual, .keyBackspace, .keyTab, .keyQ, .keyW, .keyE, .keyR, .keyT, .keyY,
        .keyU, .keyI, .keyO, .keyP, .keyOpeningSquareBracket, .keyClosingSquareBracket, .keyEnter,
        .keyLeftCtrl, .keyA, .keyS, .keyD, .keyF, .keyG, .keyH, .keyJ, .keyK, .keyL, .keyColon,
        .keySingleQuote, .keyBacktick, .keyLeftShift, .keyBackslash, .keyZ, .keyX, .keyC, .keyV,
        .keyB, .keyN, .keyM, .keyComma, .keyDot, .keySlash, .keyRightShift, .keyKeypadWildcard,
        .keyLeftAlt, .keySpace, .keyCapsLock, .keyF1, .keyF2, .keyF3, .keyF4, .keyF5, .keyF6,
        .keyF7, .keyF8, .keyF9, .keyF10, .keyNumlock, .keyScrolllock, .keyKeypad7, .keyKeypad8,
        .keyKeypad9, .keyKeypadDash, .keyKeypad4, .keyKeypad5, .keyKeypad6, .keyKeypadPlus,
        .keyKeypad1, .keyKeypad2, .keyKeypad3, .keyKeypad0, .keyKeypadDot]),
    (0x57, [.keyF11, .keyF12])]

/-- `kbd_ext_keycodes` -/
def kbdExtKeycodes : List KbdKeycode :=
  designated [
    (0x10, [.keyMultimediaPreviousTrack]),
    (0x19, [.keyMultimediaNextTrack]),
    (0x1C, [.keyKeypadEnter, .keyRightCtrl]),
    (0x20, [.keyMultimediaMute, .keyMultimediaCalculator, .keyMultimediaPlay]),
    (0x24, [.keyMultimediaStop]),
    (0x2E, [.keyMultimediaVolumeDown]),
    (0x30, [.keyMultimediaVolumeUp]),
    (0x32, [.keyMultimediaHomeWww]),
    (0x35, [.keyKeypadSlash]),
    (0x38, [.keyRightAlt]),
    (0x47, [.keyHome, .keyCursorUp, .keyPageUp]),
    (0x4B, [.keyCursorLeft]),
    (0x4D, [.keyCursorRight]),
    (0x4F, [.keyEnd, .keyCursorDown, .keyPageDown, .keyInsert, .keyDelete]),
    (0x5B, [.keyLeftGui, .keyRightGui, .keyApps, .keyAcpiPower, .keyAcpiSleep]),
    (0x63, [.keyAcpiWake]),
    (0x65, [
        .keyMultimediaWwwSearch, .keyMultimediaWwwFavorites, .keyMultimediaWwwRefresh,
        .keyMultimediaWwwStop, .keyMultimediaWwwForward, .keyMultimediaWwwBack,
        .keyMultimediaMyComputer, .keyMultimediaEmail, .keyMultimediaMediaSelect])]

/-! ## The state of the keyboard -/

/-- `struct kbd_modifiers`: signed fields of one bit, that is 0 or -1. -/
structure KbdModifiers where
  lshift : BitVec 1
  rshift : BitVec 1
  capslock : BitVec 1
  lctrl : BitVec 1
  rctrl : BitVec 1
  lalt : BitVec 1
  ralt : BitVec 1
  numlock : BitVec 1
  deriving DecidableEq, Repr

/-- `kbd_st`, without its keymap. -/
structure KbdState where
  modifiers : KbdModifiers
  ext : Int
  deriving DecidableEq, Repr

/-- `kbd_st` as the kernel starts: `{0}`. -/
def kbdSt : KbdState := ⟨⟨0, 0, 0, 0, 0, 0, 0, 0⟩, 0⟩

/-- What a field of one bit keeps of an `int`. -/
def bitField (value : Int) : BitVec 1 := BitVec.ofInt 1 value

/-- The `int` that `evt->type == type` is. -/
def isType (evt : KbdEvent) (type : KbdEventtype) : Int := if evt.type = type then 1 else 0

/-- The operator `!` of C. -/
def cNot (value : Int) : Int := if value = 0 then 1 else 0

/-- `set_modifiers`, on the modifiers of `kbd_st`. Setting the LED of a lock does nothing. -/
def setModifiers (evt : KbdEvent) (m : KbdModifiers) : KbdModifiers :=
  match evt.key with
  | .keyLeftShift => { m with lshift := bitField (isType evt .keyPressed) }
  | .keyRightShift => { m with rshift := bitField (isType evt .keyPressed) }
  | .keyCapsLock =>
    if evt.type = .keyReleased then { m with capslock := bitField (cNot m.capslock.toInt) } else m
  | .keyNumlock =>
    if evt.type = .keyReleased then { m with numlock := bitField (cNot m.numlock.toInt) } else m
  | .keyLeftCtrl => { m with lctrl := bitField (isType evt .keyPressed) }
  | .keyRightCtrl => { m with rctrl := bitField (isType evt .keyPressed) }
  | .keyLeftAlt => { m with lalt := bitField (isType evt .keyPressed) }
  | .keyRightAlt => { m with ralt := bitField (isType evt .keyPressed) }
  | _ => m

/-- The lookup of a keycode was behind the end of its table. -/
inductive OutOfTable
  | lookup
  deriving DecidableEq, Repr

def keycodeAt (table : List KbdKeycode) (sc : BitVec 8) : Except OutOfTable KbdKeycode :=
  match table[sc.toNat]? with
  | some key => .ok key
  | none => .error .lookup

/-- What `KBD_getevent` does with a byte that is not `0xE0`. -/
def kbdKeyevent (sc : BitVec 8) (st : KbdState) : Except OutOfTable (Int × KbdEvent × KbdState) := do
  let type := if sc > 0x80 then KbdEventtype.keyReleased else .keyPressed
  let sc := if sc > 0x80 then sc - 0x80 else sc
  let key ← keycodeAt (if st.ext ≠ 0 then kbdExtKeycodes else kbdRegKeycodes) sc
  let evt : KbdEvent := ⟨type, key⟩
  return (if key = .unknown then -1 else 0, evt, ⟨setModifiers evt st.modifiers, 0⟩)

/-- `KBD_getevent`: the byte read, the event as it was and is, and the state. -/
def kbdGetevent (sc : BitVec 8) (evt : KbdEvent) (st : KbdState) :
    Except OutOfTable (Int × KbdEvent × KbdState) :=
  if sc = 0xE0 then
    if st.ext ≠ 0 then .ok (-1, evt, st) else .ok (-2, evt, { st with ext := 1 })
  else kbdKeyevent sc st

/-- One byte of a stream: the code that `KBD_getevent` returns is dropped. -/
def kbdRead (sc : BitVec 8) (s : KbdEvent × KbdState) : Except OutOfTable (KbdEvent × KbdState) := do
  let (_, s) ← kbdGetevent sc s.1 s.2
  return s

/-- `KBD_getevent` on every byte of a stream, with one event structure for all calls. -/
def kbdReadAll (bytes : List (BitVec 8)) (s : KbdEvent × KbdState) :
    Except OutOfTable (KbdEvent × KbdState) :=
  runAll kbdRead bytes s

end Nulix.Keyboard
