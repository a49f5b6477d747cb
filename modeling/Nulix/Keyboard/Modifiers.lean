import Nulix.Keyboard.Basic
import Nulix.Lib.History

/-!
# Modifiers and the history of the keyboard

A stream of scancode bytes is a series of key events, with an `0xE0` under way or not. The modifiers
and the prefix state of the driver are views of that history: a held key shows its last event, a lock
the parity of its releases.
-/

namespace Nulix.Keyboard

open Fallible History

/-! ## Key events -/

/-- A key of the first scancode set: with or without the prefix `0xE0`, and its code. -/
structure Key where
  ext : Bool
  code : Nat
  deriving DecidableEq, Repr

/-- A byte that is not a prefix, after a prefix or not. -/
structure KeyEvent where
  ext : Bool
  byte : BitVec 8
  deriving DecidableEq, Repr

def KeyEvent.released (e : KeyEvent) : Bool := 0x80 < e.byte.toNat

def KeyEvent.key (e : KeyEvent) : Key :=
  ⟨e.ext, if e.released then e.byte.toNat - 0x80 else e.byte.toNat⟩

/-- The key events of a stream, and whether it ends in a prefix. -/
structure Stream where
  events : List KeyEvent
  prefixed : Bool

def Stream.read (v : Stream) (byte : BitVec 8) : Stream :=
  if byte = 0xE0 then { v with prefixed := true }
  else { events := v.events ++ [⟨v.prefixed, byte⟩], prefixed := false }

def stream (bytes : List (BitVec 8)) : Stream :=
  bytes.foldl Stream.read { events := [], prefixed := false }

theorem stream_concat (bytes : List (BitVec 8)) (byte : BitVec 8) :
    stream (bytes ++ [byte]) = (stream bytes).read byte := by
  unfold stream
  rw [List.foldl_append]
  rfl

/-- Repeated prefixes are one. -/
theorem stream_prefixed (bytes : List (BitVec 8)) :
    (stream bytes).prefixed = true ↔ bytes.getLast? = some 0xE0 := by
  induction bytes using List.reverseRecOn with
  | nil => simp [stream]
  | append_singleton bytes byte =>
    rw [stream_concat, List.getLast?_concat, Option.some.injEq]
    unfold Stream.read
    split
    · next isPrefix => simp [isPrefix]
    · next other => simpa using other

/-! ## The keys of the modifiers -/

/-- The modifiers that are set while their key is held. -/
inductive Held
  | lshift | rshift | lctrl | rctrl | lalt | ralt
  deriving DecidableEq, Repr

/-- The modifiers that their key turns on and off. -/
inductive Lock
  | capslock | numlock
  deriving DecidableEq, Repr

def Held.key : Held → Key
  | .lshift => ⟨false, 0x2A⟩
  | .rshift => ⟨false, 0x36⟩
  | .lctrl => ⟨false, 0x1D⟩
  | .rctrl => ⟨true, 0x1D⟩
  | .lalt => ⟨false, 0x38⟩
  | .ralt => ⟨true, 0x38⟩

def Lock.key : Lock → Key
  | .capslock => ⟨false, 0x3A⟩
  | .numlock => ⟨false, 0x45⟩

def Held.field (m : KbdModifiers) : Held → BitVec 1
  | .lshift => m.lshift
  | .rshift => m.rshift
  | .lctrl => m.lctrl
  | .rctrl => m.rctrl
  | .lalt => m.lalt
  | .ralt => m.ralt

def Lock.field (m : KbdModifiers) : Lock → BitVec 1
  | .capslock => m.capslock
  | .numlock => m.numlock

/-- A field is set where C takes it for true. -/
def IsSet (field : BitVec 1) : Prop := field.toInt ≠ 0

/-- The last event of the key was a press. -/
def LastPressed (k : Key) (events : List KeyEvent) : Prop :=
  ∃ e, (events.filter fun e => e.key = k).getLast? = some e ∧ e.released = false

def releases (k : Key) (events : List KeyEvent) : Nat :=
  events.countP fun e => e.key = k && e.released

/-! ## One event -/

def Held.keycode : Held → KbdKeycode
  | .lshift => .keyLeftShift
  | .rshift => .keyRightShift
  | .lctrl => .keyLeftCtrl
  | .rctrl => .keyRightCtrl
  | .lalt => .keyLeftAlt
  | .ralt => .keyRightAlt

def Lock.keycode : Lock → KbdKeycode
  | .capslock => .keyCapsLock
  | .numlock => .keyNumlock

/-- The table that `KBD_getevent` looks a key up in. -/
def tableOf (ext : Bool) : List KbdKeycode := if ext then kbdExtKeycodes else kbdRegKeycodes

/-- What the tables make of a key event. -/
def KeyEvent.lookup (e : KeyEvent) : KbdEvent where
  type := if e.released then .keyReleased else .keyPressed
  key := (tableOf e.ext).getD e.key.code .unknown

def isModifier (key : KbdKeycode) : Bool :=
  key ∈ [.keyLeftShift, .keyRightShift, .keyCapsLock, .keyNumlock, .keyLeftCtrl, .keyRightCtrl,
    .keyLeftAlt, .keyRightAlt]

/-- Where the tables have a modifier. -/
def modifiersOf (ext : Bool) : List (KbdKeycode × Nat) :=
  if ext then [(.keyRightCtrl, 0x1D), (.keyRightAlt, 0x38)]
  else [(.keyLeftCtrl, 0x1D), (.keyLeftShift, 0x2A), (.keyRightShift, 0x36), (.keyLeftAlt, 0x38),
    (.keyCapsLock, 0x3A), (.keyNumlock, 0x45)]

theorem modifiersOf_eq (ext : Bool) :
    (tableOf ext).zipIdx.filter (fun entry => isModifier entry.1) = modifiersOf ext := by
  cases ext <;> decide +kernel

theorem lookup_modifier {key : KbdKeycode} (modifier : isModifier key = true) (e : KeyEvent) :
    e.lookup.key = key ↔ (key, e.key.code) ∈ modifiersOf e.ext := by
  have known : key ≠ .unknown := by
    rintro rfl
    cases modifier
  have entry : e.lookup.key = key ↔ (tableOf e.ext)[e.key.code]? = some key := by
    unfold KeyEvent.lookup
    rw [List.getD_eq_getElem?_getD]
    cases (tableOf e.ext)[e.key.code]? with
    | none => simpa using known.symm
    | some other => simp
  rw [entry, ← modifiersOf_eq, List.mem_filter, List.mem_zipIdx_iff_getElem?]
  simp [modifier]

theorem Held.lookup_key (k : Held) (e : KeyEvent) : e.lookup.key = k.keycode ↔ e.key = k.key := by
  obtain ⟨ext, byte⟩ := e
  cases k <;> rw [lookup_modifier rfl] <;> cases ext <;>
    simp [modifiersOf, Held.keycode, Held.key, KeyEvent.key]

theorem Lock.lookup_key (k : Lock) (e : KeyEvent) : e.lookup.key = k.keycode ↔ e.key = k.key := by
  obtain ⟨ext, byte⟩ := e
  cases k <;> rw [lookup_modifier rfl] <;> cases ext <;>
    simp [modifiersOf, Lock.keycode, Lock.key, KeyEvent.key]

theorem isSet_pressed (evt : KbdEvent) :
    IsSet (bitField (isType evt .keyPressed)) ↔ evt.type = .keyPressed := by
  obtain ⟨type, key⟩ := evt
  cases type <;> simp [IsSet, bitField, isType]

theorem isSet_not (field : BitVec 1) : IsSet (bitField (cNot field.toInt)) ↔ ¬IsSet field := by
  revert field
  unfold IsSet
  decide

theorem setModifiers_held (evt : KbdEvent) (m : KbdModifiers) (k : Held) :
    k.field (setModifiers evt m) =
      if evt.key = k.keycode then bitField (isType evt .keyPressed) else k.field m := by
  unfold setModifiers
  split <;> cases k <;> simp_all [Held.field, Held.keycode] <;> split <;> rfl

theorem setModifiers_lock (evt : KbdEvent) (m : KbdModifiers) (k : Lock) :
    k.field (setModifiers evt m) =
      if evt.key = k.keycode ∧ evt.type = .keyReleased then bitField (cNot (k.field m).toInt)
      else k.field m := by
  unfold setModifiers
  split <;> cases k <;> simp_all [Lock.field, Lock.keycode] <;> split <;> rfl

/-! ## One byte -/

/-- The modifiers after a series of key events. -/
def modifiersAfter (events : List KeyEvent) : KbdModifiers :=
  events.foldl (fun m e => setModifiers e.lookup m) kbdSt.modifiers

/-- The state of the driver is the view of the stream read. -/
def Tracks (v : Stream) (s : KbdEvent × KbdState) : Prop :=
  s.2.modifiers = modifiersAfter v.events ∧ (s.2.ext ≠ 0 ↔ v.prefixed = true)

/-- The code that the driver looks up is that of the key. -/
theorem kbdKeyevent_code (ext : Bool) (sc : BitVec 8) :
    (if sc > 0x80 then sc - 0x80 else sc).toNat = (KeyEvent.key ⟨ext, sc⟩).code := by
  have release : sc > 0x80 ↔ 0x80 < sc.toNat := BitVec.lt_def
  unfold KeyEvent.key KeyEvent.released
  by_cases released : 0x80 < sc.toNat
  · rw [if_pos (release.mpr released), BitVec.toNat_sub_of_le (BitVec.le_of_lt (release.mpr released))]
    simp [released]
  · rw [if_neg (release.not.mpr released)]
    simp [released]

/-- What `KBD_getevent` makes of a byte is the event of the tables. -/
theorem kbdKeyevent_returned {sc : BitVec 8} {st : KbdState} {r : Int × KbdEvent × KbdState} {ext : Bool}
    (prefixed : st.ext ≠ 0 ↔ ext = true) (returned : kbdKeyevent sc st = .ok r) :
    r = (if (KeyEvent.lookup ⟨ext, sc⟩).key = .unknown then -1 else 0, KeyEvent.lookup ⟨ext, sc⟩,
      ⟨setModifiers (KeyEvent.lookup ⟨ext, sc⟩) st.modifiers, 0⟩) := by
  have table : (if st.ext ≠ 0 then kbdExtKeycodes else kbdRegKeycodes) = tableOf ext := by
    simp only [prefixed, tableOf]
  have type : (if sc > 0x80 then KbdEventtype.keyReleased else .keyPressed) =
      (KeyEvent.lookup ⟨ext, sc⟩).type := by
    have release : sc > 0x80 ↔ 0x80 < sc.toNat := BitVec.lt_def
    simp only [KeyEvent.lookup, KeyEvent.released, release, decide_eq_true_eq]
  unfold kbdKeyevent at returned
  obtain ⟨key, found, assigned⟩ := bind_eq_ok returned
  have looked : key = (KeyEvent.lookup ⟨ext, sc⟩).key := by
    rw [table, keycodeAt, kbdKeyevent_code ext sc] at found
    unfold KeyEvent.lookup
    rw [List.getD_eq_getElem?_getD]
    cases entry : (tableOf ext)[(KeyEvent.key ⟨ext, sc⟩).code]? with
    | none =>
      rw [entry] at found
      cases found
    | some other =>
      rw [entry] at found
      cases found
      rfl
  rw [type, looked] at assigned
  cases assigned
  rfl

theorem kbdKeyevent_state {sc : BitVec 8} {st st' : KbdState} {r : Int} {evt : KbdEvent}
    {ext : Bool} (prefixed : st.ext ≠ 0 ↔ ext = true)
    (returned : kbdKeyevent sc st = .ok (r, evt, st')) :
    st' = ⟨setModifiers (KeyEvent.lookup ⟨ext, sc⟩) st.modifiers, 0⟩ := by
  cases kbdKeyevent_returned prefixed returned
  rfl

/-- What one byte read does to the stream, it does to the state. -/
theorem Tracks.read {v : Stream} {s s' : KbdEvent × KbdState} {sc : BitVec 8} (tracks : Tracks v s)
    (returned : kbdRead sc s = .ok s') : Tracks (v.read sc) s' := by
  obtain ⟨modifiers, prefixed⟩ := tracks
  obtain ⟨⟨r, evt, st⟩, read, assigned⟩ := bind_eq_ok returned
  cases assigned
  unfold kbdGetevent at read
  unfold Stream.read
  by_cases isPrefix : sc = 0xE0
  · rw [if_pos isPrefix] at read ⊢
    split at read
    · next again =>
      cases read
      exact ⟨modifiers, iff_of_true again rfl⟩
    · cases read
      exact ⟨modifiers, iff_of_true Int.one_ne_zero rfl⟩
  · rw [if_neg isPrefix] at read ⊢
    have state := kbdKeyevent_state prefixed read
    subst state
    refine ⟨?_, by simp⟩
    change setModifiers _ s.2.modifiers = modifiersAfter (v.events ++ [_])
    rw [modifiers, modifiersAfter, modifiersAfter, List.foldl_append]
    rfl

theorem tracks_readAll {bytes : List (BitVec 8)} {evt : KbdEvent} {s : KbdEvent × KbdState}
    (ran : kbdReadAll bytes (evt, kbdSt) = .ok s) : Tracks (stream bytes) s := by
  have step : ∀ sc v s s', Tracks v s → kbdRead sc s = .ok s' → Tracks (v.read sc) s' :=
    fun _ _ _ _ tracks returned => tracks.read returned
  have init : Tracks { events := [], prefixed := false } (evt, kbdSt) := ⟨rfl, by simp [kbdSt]⟩
  exact runAll_simulates Tracks step init ran

/-! ## Whole streams -/

theorem held_after (k : Held) (events : List KeyEvent) :
    IsSet (k.field (modifiersAfter events)) ↔ LastPressed k.key events := by
  have written : ∀ m (e : KeyEvent), k.field (setModifiers e.lookup m) =
      if decide (e.key = k.key) then bitField (isType e.lookup .keyPressed) else k.field m := by
    intro m e
    rw [setModifiers_held]
    simp only [k.lookup_key, decide_eq_true_eq]
  unfold modifiersAfter LastPressed
  rw [view_latest (fun m => k.field m) _ _ written]
  cases last : (events.filter fun e => e.key = k.key).getLast? with
  | none => cases k <;> simp [IsSet, Held.field, kbdSt]
  | some e => simp [isSet_pressed, KeyEvent.lookup]

theorem lock_after (k : Lock) (events : List KeyEvent) :
    IsSet (k.field (modifiersAfter events)) ↔ Odd (releases k.key events) := by
  have type (e : KeyEvent) : e.lookup.type = .keyReleased ↔ e.released = true := by
    simp [KeyEvent.lookup]
  have step (m) (e : KeyEvent) := setModifiers_lock e.lookup m k
  simp only [k.lookup_key, type] at step
  apply view_parity fun m => IsSet (k.field m)
  · intro m e kept
    rw [step, if_neg (by simpa using kept)]
  · intro m e toggled
    rw [step, if_pos (by simpa using toggled), isSet_not]
  · cases k <;> simp [IsSet, Lock.field, kbdSt]

/-- The modifiers and the prefix state after any stream of bytes: what is held shows the last event of
its key, a lock the number of releases of its key, and an event of another key changes neither. -/
theorem modifiers_of_stream {bytes : List (BitVec 8)} {evt : KbdEvent} {s : KbdEvent × KbdState}
    (inRange : kbdReadAll bytes (evt, kbdSt) = .ok s) :
    (∀ k : Held, IsSet (k.field s.2.modifiers) ↔ LastPressed k.key (stream bytes).events) ∧
    (∀ k : Lock, IsSet (k.field s.2.modifiers) ↔ Odd (releases k.key (stream bytes).events)) ∧
    (∀ sc s' e, kbdRead sc s = .ok s' →
      (stream (bytes ++ [sc])).events = (stream bytes).events ++ [e] →
      (∀ k : Held, e.key ≠ k.key → k.field s'.2.modifiers = k.field s.2.modifiers) ∧
      (∀ k : Lock, e.key ≠ k.key → k.field s'.2.modifiers = k.field s.2.modifiers)) ∧
    (s.2.ext ≠ 0 ↔ bytes.getLast? = some 0xE0) := by
  have tracks := tracks_readAll inRange
  refine ⟨fun k => ?_, fun k => ?_, fun sc s' e read event => ?_, ?_⟩
  · rw [tracks.1, held_after]
  · rw [tracks.1, lock_after]
  · have next := tracks.read read
    rw [← stream_concat] at next
    have changed : s'.2.modifiers = setModifiers e.lookup s.2.modifiers := by
      rw [next.1, event, tracks.1, modifiersAfter, List.foldl_append]
      rfl
    rw [changed]
    constructor
    · intro k other
      rw [setModifiers_held, if_neg ((k.lookup_key e).not.mpr other)]
    · intro k other
      rw [setModifiers_lock, if_neg fun both => other ((k.lookup_key e).mp both.1)]
  · rw [tracks.2, stream_prefixed]

/-- Left shift and caps lock pressed, caps lock released, and a fake shift behind two prefixes. -/
theorem modifiers_of_stream_fakeShift :
    ∃ s, kbdReadAll [0x2A, 0x3A, 0xBA, 0xE0, 0xE0, 0xB6] (⟨.keyPressed, .unknown⟩, kbdSt) = .ok s ∧
      (∀ k : Held, IsSet (k.field s.2.modifiers) ↔
        LastPressed k.key (stream [0x2A, 0x3A, 0xBA, 0xE0, 0xE0, 0xB6]).events) ∧
      s.2.modifiers = ⟨1, 0, 1, 0, 0, 0, 0, 0⟩ :=
  have ran : kbdReadAll [0x2A, 0x3A, 0xBA, 0xE0, 0xE0, 0xB6] (⟨.keyPressed, .unknown⟩, kbdSt) =
      .ok (⟨.keyReleased, .unknown⟩, ⟨⟨1, 0, 1, 0, 0, 0, 0, 0⟩, 0⟩) := rfl
  ⟨_, ran, (modifiers_of_stream ran).1, rfl⟩

end Nulix.Keyboard
