import Nulix.Keyboard.Range

/-!
# Typing

What a stream of bytes types on a layout. The driver keeps the modifiers in the fields of `kbd_st`; here the
keys that are held or locked are read off the stream, and the character of a key is that of its entry under
them. Over whole streams: which texts can be typed on a layout at all.
-/

namespace Nulix.Keyboard

open Fallible

/-! ## The meaning of a byte -/

/-- The character of an entry under the keys held. -/
def KbdKeymapEntry.char (ent : KbdKeymapEntry) (shift caps altgr : Bool) : BitVec 8 :=
  if ent.reg = 0 then 0
  else if ent.flags &&& noMod ≠ 0 then ent.reg
  else if altgr then ent.altgr
  else if shift ^^ (caps && ent.flags &&& capslock ≠ 0) then ent.shift
  else ent.reg

def Layout.entry (layout : Layout) (key : KbdKeycode) : KbdKeymapEntry :=
  layout.keymap.getD key.value ⟨0, 0, 0, 0⟩

namespace Stream

variable (v : Stream)

/-- The key is held at the end of the stream. -/
def holds (k : Held) : Bool :=
  (v.events.filter fun e => e.key = k.key).getLast?.any fun e => !e.released

/-- The lock is on at the end of the stream. -/
def locks (k : Lock) : Bool := releases k.key v.events % 2 = 1

/-- The key that the next byte presses, if it presses one that the tables know. -/
def pressed (byte : BitVec 8) : Option KbdKeycode :=
  let e : KeyEvent := ⟨v.prefixed, byte⟩
  if byte = 0xE0 ∨ e.released = true ∨ e.lookup.key = .unknown then none else some e.lookup.key

/-- The character of a key at the end of the stream. -/
def char (layout : Layout) (key : KbdKeycode) : BitVec 8 :=
  (layout.entry key).char (v.holds .lshift || v.holds .rshift) (v.locks .capslock) (v.holds .ralt)

/-- What the next byte types. -/
def types (layout : Layout) (byte : BitVec 8) : List (BitVec 8) :=
  match v.pressed byte with
  | some key => if (v.read byte).char layout key ≠ 0 then [(v.read byte).char layout key] else []
  | none => []

end Stream

/-! ## The driver -/

section

variable {v : Stream}

theorem Stream.holds_iff (k : Held) : v.holds k = true ↔ LastPressed k.key v.events := by
  unfold holds LastPressed
  cases (v.events.filter fun e => e.key = k.key).getLast? with
  | none => simp
  | some e => simp

theorem Stream.locks_iff (k : Lock) : v.locks k = true ↔ Odd (releases k.key v.events) := by
  rw [locks, decide_eq_true_iff, Nat.odd_iff]

variable {evt : KbdEvent} {st : KbdState} {sc : BitVec 8}

theorem isSet_iff (field : BitVec 1) : IsSet field ↔ field ≠ 0 := by
  revert field
  unfold IsSet
  decide

theorem Tracks.start (evt : KbdEvent) : Tracks { events := [], prefixed := false } (evt, kbdSt) :=
  ⟨rfl, by simp [kbdSt]⟩

/-- The fields of a tracked state, as C takes them. -/
theorem Tracks.held (tracks : Tracks v (evt, st)) (k : Held) :
    k.field st.modifiers ≠ 0 ↔ v.holds k = true := by
  rw [Stream.holds_iff, ← held_after, ← tracks.1]
  exact (isSet_iff _).symm

theorem Tracks.locked (tracks : Tracks v (evt, st)) (k : Lock) :
    k.field st.modifiers ≠ 0 ↔ v.locks k = true := by
  rw [Stream.locks_iff, ← lock_after, ← tracks.1]
  exact (isSet_iff _).symm

/-- `KBD_getevent` has the events of the stream: it returns 0 with a press exactly where a known key is
pressed. -/
theorem Tracks.getevent (tracks : Tracks v (evt, st)) (known : KnownByte v.prefixed sc) :
    Returns (kbdGetevent sc evt st) fun r => Tracks (v.read sc) r.2 ∧
      ∀ key, v.pressed sc = some key ↔ r.1 = 0 ∧ r.2.1.type = .keyPressed ∧ r.2.1.key = key := by
  obtain ⟨⟨r, evt', st'⟩, read⟩ := (kbdGetevent_returns_iff evt tracks.2).mpr known
  have tracked : kbdRead sc (evt, st) = .ok (evt', st') := by
    rw [kbdRead, read]
    rfl
  refine ⟨_, read, tracks.read tracked, fun key => ?_⟩
  unfold kbdGetevent at read
  unfold Stream.pressed
  by_cases isPrefix : sc = 0xE0
  · rw [if_pos isPrefix] at read
    rw [if_pos (.inl isPrefix)]
    refine iff_of_false nofun ?_
    rintro ⟨zero, -⟩
    split at read
    · cases read
      cases zero
    · cases read
      cases zero
  · rw [if_neg isPrefix] at read
    cases kbdKeyevent_returned tracks.2 read
    dsimp only
    by_cases released : (KeyEvent.mk v.prefixed sc).released = true
    · have type : (KeyEvent.lookup ⟨v.prefixed, sc⟩).type = .keyReleased := if_pos released
      rw [if_pos (.inr (.inl released)), type]
      exact iff_of_false nofun fun pressed => nomatch pressed.2.1
    · have type : (KeyEvent.lookup ⟨v.prefixed, sc⟩).type = .keyPressed := if_neg released
      rw [type]
      by_cases unknown : (KeyEvent.lookup ⟨v.prefixed, sc⟩).key = .unknown
      · rw [if_pos (.inr (.inr unknown)), if_pos unknown]
        exact iff_of_false nofun fun pressed => nomatch pressed.1
      · rw [if_neg (not_or.mpr ⟨isPrefix, not_or.mpr ⟨released, unknown⟩⟩), if_neg unknown]
        simp

theorem Layout.keymapAt_entry (layout : Layout) (key : KbdKeycode) :
    keymapAt layout.keymap key = .ok (layout.entry key) := by
  have inside : key.value < layout.keymap.length := layout.length_keymap ▸ value_lt key
  rw [keymapAt, entry, List.getD_eq_getElem?_getD, List.getElem?_eq_getElem inside]
  rfl

/-- `KBD_getchar` has the character of the stream. -/
theorem Tracks.getchar (tracks : Tracks v (evt, st)) (layout : Layout) :
    kbdGetchar (some layout.keymap) evt st.modifiers = .ok (v.char layout evt.key) := by
  have either : ∀ a b : BitVec 1, a ||| b ≠ 0 ↔ a ≠ 0 ∨ b ≠ 0 := by decide
  have shift : st.modifiers.lshift ||| st.modifiers.rshift ≠ 0 ↔
      (v.holds .lshift || v.holds .rshift) = true := by
    rw [either, Bool.or_eq_true, ← tracks.held .lshift, ← tracks.held .rshift]
    rfl
  have altgr : st.modifiers.ralt ≠ 0 ↔ v.holds .ralt = true := tracks.held .ralt
  have caps : st.modifiers.capslock ≠ 0 ↔ v.locks .capslock = true := tracks.locked .capslock
  unfold kbdGetchar Stream.char KbdKeymapEntry.char
  dsimp only
  rw [layout.keymapAt_entry]
  simp only [shift, altgr, caps]
  generalize layout.entry evt.key = ent
  generalize (v.holds .lshift || v.holds .rshift) = shift
  generalize v.locks .capslock = caps
  show (if ent.reg = 0 then Except.ok 0
    else if ent.flags &&& noMod ≠ 0 then .ok ent.reg
    else if v.holds .ralt = true then .ok ent.altgr
    else if caps = true ∧ ent.flags &&& capslock ≠ 0 then
      .ok (if shift = true then ent.reg else ent.shift)
    else .ok (if shift = true then ent.shift else ent.reg)) = _
  simp only [← apply_ite Except.ok]
  refine congrArg _ (if_congr Iff.rfl rfl (if_congr Iff.rfl rfl (if_congr Iff.rfl rfl ?_)))
  by_cases effect : ent.flags &&& capslock ≠ 0
  · rw [decide_eq_true effect, Bool.and_true]
    simp only [and_iff_left effect]
    cases shift <;> cases caps <;> rfl
  · rw [if_neg fun both => effect both.2, decide_eq_false effect, Bool.and_false, Bool.xor_false]

end

/-! ## Whole streams -/

/-- One byte in the loop of `nsh`, as the keyboard sees it: the character of a press, if it has one. -/
def kbdTypeByte (layout : Layout) (sc : BitVec 8) (s : KbdEvent × KbdState) :
    Except OutOfTable (List (BitVec 8) × KbdEvent × KbdState) := do
  let (r, evt, st) ← kbdGetevent sc s.1 s.2
  if r = 0 ∧ evt.type = .keyPressed then
    let c ← kbdGetchar (some layout.keymap) evt st.modifiers
    return (if c ≠ 0 then [c] else [], evt, st)
  else return ([], evt, st)

/-- The loop of `nsh` on a stream and one layout: the characters, and the state at the end. -/
def kbdTypeStream (layout : Layout) :
    List (BitVec 8) → KbdEvent × KbdState → Except OutOfTable (List (BitVec 8) × KbdEvent × KbdState)
  | [], s => .ok ([], s)
  | sc :: bytes, s => do
    let (typed, s) ← kbdTypeByte layout sc s
    let (rest, s) ← kbdTypeStream layout bytes s
    return (typed ++ rest, s)

section

variable {layout : Layout} {v : Stream}

/-- What a byte types is what the stream says. -/
theorem Tracks.typeByte {sc : BitVec 8} {s : KbdEvent × KbdState}
    {r : List (BitVec 8) × KbdEvent × KbdState} (tracks : Tracks v s)
    (returned : kbdTypeByte layout sc s = .ok r) : r.1 = v.types layout sc ∧ Tracks (v.read sc) r.2 := by
  obtain ⟨⟨code, evt, st⟩, read, rest⟩ := bind_eq_ok returned
  have known := (kbdGetevent_returns_iff s.1 tracks.2).mp ⟨_, read⟩
  obtain ⟨tracks', pressed⟩ := (tracks.getevent known).of_eq_ok read
  dsimp only at tracks' pressed rest
  unfold Stream.types
  split at rest
  · next press =>
    obtain ⟨c, char, assigned⟩ := bind_eq_ok rest
    rw [tracks'.getchar] at char
    cases char
    cases assigned
    rw [(pressed evt.key).mpr ⟨press.1, press.2, rfl⟩]
    exact ⟨rfl, tracks'⟩
  · next other =>
    cases rest
    have none : v.pressed sc = none := by
      refine Option.eq_none_iff_forall_ne_some.mpr fun key press => other ?_
      obtain ⟨zero, type, -⟩ := (pressed key).mp press
      exact ⟨zero, type⟩
    rw [none]
    exact ⟨rfl, tracks'⟩

end

/-! ## The texts of a layout -/

/-- The characters that a layout has: all that are printable, and those of the keys escape, backspace, tab
and enter. On the French one `<` and `>` are missing, and `%`, whose key has no character without shift. -/
def Layout.Typeable (layout : Layout) (c : BitVec 8) : Prop :=
  (c ∈ ([0x1B, 0x08, 0x09, 0x0A] : List (BitVec 8)) ∨ 0x20 ≤ c.toNat ∧ c.toNat ≤ 0x7E) ∧
    (layout = .fr → c ∉ ([0x25, 0x3C, 0x3E] : List (BitVec 8)))

instance (layout : Layout) : DecidablePred layout.Typeable := fun _ =>
  inferInstanceAs (Decidable (_ ∧ (_ → _)))

theorem entry_typeable (layout : Layout) : ∀ ent ∈ layout.keymap, ∀ shift caps altgr,
    ent.char shift caps altgr = 0 ∨ layout.Typeable (ent.char shift caps altgr) := by
  cases layout <;> decide +kernel

/-- A key alone, with shift and with the right alt key. -/
def strokes : List (List (BitVec 8)) :=
  (List.range 0x59).flatMap fun code =>
    [[.ofNat 8 code, .ofNat 8 (code + 0x80)],
      [0x2A, .ofNat 8 code, .ofNat 8 (code + 0x80), 0xAA],
      [0xE0, 0x38, .ofNat 8 code, .ofNat 8 (code + 0x80), 0xE0, 0xB8]]

/-- The character of a stroke that types one and leaves no key held, after a release of the left shift
key. -/
def strokeChar (layout : Layout) (bytes : List (BitVec 8)) : Nat :=
  match kbdTypeStream layout bytes (⟨.keyReleased, .keyLeftShift⟩, kbdSt) with
  | .ok ([c], _, st) => if st = kbdSt then c.toNat else 0
  | _ => 0

theorem typeable_strokes (layout : Layout) :
    ∀ c, layout.Typeable c → c.toNat ∈ strokes.map (strokeChar layout) := by
  cases layout <;> decide +kernel

section

variable {layout : Layout} {v : Stream}

theorem exists_stroke {c : BitVec 8} (typeable : layout.Typeable c) :
    ∃ bytes evt, kbdTypeStream layout bytes (⟨.keyReleased, .keyLeftShift⟩, kbdSt) =
      .ok ([c], evt, kbdSt) := by
  have some : c.toNat ≠ 0 := by
    rintro zero
    rw [show c = 0 from BitVec.eq_of_toNat_eq zero] at typeable
    cases layout <;> revert typeable <;> decide
  obtain ⟨bytes, -, types⟩ := List.mem_map.mp (typeable_strokes layout c typeable)
  unfold strokeChar at types
  split at types
  · next typed =>
    split at types
    · next rest =>
      rw [rest, BitVec.eq_of_toNat_eq types] at typed
      exact ⟨bytes, _, typed⟩
    · exact absurd types.symm some
  · exact absurd types.symm some

theorem kbdTypeStream_append (bytes bytes' : List (BitVec 8)) (s : KbdEvent × KbdState) :
    kbdTypeStream layout (bytes ++ bytes') s = do
      let (typed, s) ← kbdTypeStream layout bytes s
      let (rest, s) ← kbdTypeStream layout bytes' s
      return (typed ++ rest, s) := by
  induction bytes generalizing s with
  | nil =>
    show _ = kbdTypeStream layout bytes' s >>= pure
    rw [bind_pure]
    rfl
  | cons sc bytes ih =>
    simp only [List.cons_append, kbdTypeStream, ih, bind_assoc, pure_bind, List.append_assoc]

/-- One stroke after the other. -/
theorem exists_stream {l : List (BitVec 8)} (typeable : ∀ c ∈ l, layout.Typeable c) (evt : KbdEvent) :
    ∃ bytes evt', kbdTypeStream layout bytes (evt, kbdSt) = .ok (l, evt', kbdSt) := by
  induction l generalizing evt with
  | nil => exact ⟨[], evt, rfl⟩
  | cons c l ih =>
    obtain ⟨bytes, evt₁, first⟩ := exists_stroke (typeable c List.mem_cons_self)
    obtain ⟨bytes', evt₂, rest⟩ := ih (fun d mem => typeable d (List.mem_cons_of_mem c mem)) evt₁
    refine ⟨0xAA :: bytes ++ bytes', evt₂, ?_⟩
    have released : kbdTypeStream layout (0xAA :: bytes) (evt, kbdSt) = .ok ([c], evt₁, kbdSt) := by
      rw [kbdTypeStream]
      show kbdTypeStream layout bytes (⟨.keyReleased, .keyLeftShift⟩, kbdSt) >>= _ = _
      rw [first]
      rfl
    rw [kbdTypeStream_append, released]
    show kbdTypeStream layout bytes' (evt₁, kbdSt) >>= _ = _
    rw [rest]
    rfl

/-- A byte types a character of an entry, or nothing. -/
theorem types_cases (v : Stream) (layout : Layout) (sc : BitVec 8) :
    v.types layout sc = [] ∨ ∃ c, v.types layout sc = [c] ∧ c ≠ 0 ∧ layout.Typeable c := by
  unfold Stream.types
  split
  · next key _ =>
    split
    · next some =>
      have inside : key.value < layout.keymap.length := layout.length_keymap ▸ value_lt key
      have entry : layout.entry key ∈ layout.keymap := by
        rw [Layout.entry, List.getD_eq_getElem?_getD, List.getElem?_eq_getElem inside]
        exact List.getElem_mem inside
      exact .inr ⟨_, rfl, some, (entry_typeable layout _ entry _ _ _).resolve_left some⟩
    · exact .inl rfl
  · exact .inl rfl

theorem kbdTypeStream_typeable {bytes : List (BitVec 8)} {s : KbdEvent × KbdState} (tracks : Tracks v s)
    {r : List (BitVec 8) × KbdEvent × KbdState} (typed : kbdTypeStream layout bytes s = .ok r) :
    ∀ c ∈ r.1, layout.Typeable c := by
  induction bytes generalizing v s r with
  | nil =>
    cases typed
    exact fun c mem => nomatch mem
  | cons sc bytes ih =>
    obtain ⟨⟨now, s₁⟩, first, rest⟩ := bind_eq_ok typed
    obtain ⟨⟨later, s₂⟩, second, assigned⟩ := bind_eq_ok rest
    cases assigned
    obtain ⟨types, tracks'⟩ := tracks.typeByte first
    dsimp only at types
    intro c mem
    rcases List.mem_append.mp mem with here | there
    · rw [types] at here
      rcases types_cases v layout sc with silent | ⟨d, one, -, typeable⟩
      · rw [silent] at here
        cases here
      · rw [one] at here
        rw [List.mem_singleton.mp here]
        exact typeable
    · exact ih tracks' second c there

end

/-- **What can be typed.** From the start of the kernel, whatever the event holds, there is a stream of bytes
that types a text on a layout if and only if the layout has all of its characters. -/
theorem kbdTypeStream_iff (layout : Layout) (evt : KbdEvent) (l : List (BitVec 8)) :
    (∃ bytes s, kbdTypeStream layout bytes (evt, kbdSt) = .ok (l, s)) ↔ ∀ c ∈ l, layout.Typeable c := by
  constructor
  · rintro ⟨bytes, s, typed⟩
    exact kbdTypeStream_typeable (.start evt) typed
  · intro typeable
    obtain ⟨bytes, evt', typed⟩ := exists_stream typeable evt
    exact ⟨bytes, _, typed⟩

end Nulix.Keyboard
