import Nulix.Keyboard.Keymaps
import Nulix.Keyboard.Modifiers

/-!
# The lookups of the keyboard

`KBD_getevent` indexes two tables of different lengths with any byte that the controller sends, and
`KBD_getchar` indexes the table of a layout with any key that comes of it. The second index is always in
range, the first for some bytes only.
-/

namespace Nulix.Keyboard

open Fallible

/-! ## Typing -/

theorem Layout.length_keymap (layout : Layout) : layout.keymap.length = 0xFF := by
  cases layout <;> exact length_keymapOf _

/-- One byte, and the layout that is set: an event that is available is passed to `KBD_getchar`. -/
def kbdType (typed : Layout × BitVec 8) (s : KbdEvent × KbdState) :
    Except OutOfTable (KbdEvent × KbdState) := do
  let (r, evt, st) ← kbdGetevent typed.2 s.1 s.2
  if r = 0 then
    let _ ← kbdGetchar (some typed.1.keymap) evt st.modifiers
  return (evt, st)

/-! ## One byte -/

/-- A prefix, or the byte of a key, pressed or released, that the table has: `0x59` codes without a
prefix, `0x6E` after one. -/
def KnownByte (ext : Bool) (byte : BitVec 8) : Prop :=
  let codes := if ext then 0x6E else 0x59
  byte = 0xE0 ∨ byte.toNat < codes ∨ 0x80 < byte.toNat ∧ byte.toNat < 0x80 + codes

instance (ext : Bool) (byte : BitVec 8) : Decidable (KnownByte ext byte) :=
  inferInstanceAs (Decidable (_ ∨ _ ∨ _ ∧ _))

theorem length_tableOf (ext : Bool) : (tableOf ext).length = if ext then 0x6E else 0x59 := by
  cases ext <;> decide +kernel

theorem knownByte_iff (ext : Bool) {byte : BitVec 8} (key : byte ≠ 0xE0) :
    KnownByte ext byte ↔ (KeyEvent.key ⟨ext, byte⟩).code < (tableOf ext).length := by
  have codes : (tableOf ext).length < 0x80 := by
    rw [length_tableOf]
    split <;> decide
  unfold KnownByte
  rw [← length_tableOf]
  dsimp only
  rw [or_iff_right key]
  unfold KeyEvent.key KeyEvent.released
  dsimp only
  by_cases released : 0x80 < byte.toNat
  · rw [if_pos (decide_eq_true released)]
    omega
  · rw [if_neg (by simpa using released)]
    omega

theorem keycodeAt_returns_iff (table : List KbdKeycode) (sc : BitVec 8) :
    (∃ key, keycodeAt table sc = .ok key) ↔ sc.toNat < table.length := by
  unfold keycodeAt
  constructor
  · rintro ⟨key, found⟩
    by_contra outside
    rw [List.getElem?_eq_none (Nat.le_of_not_lt outside)] at found
    cases found
  · intro inside
    exact ⟨table[sc.toNat], by rw [List.getElem?_eq_getElem inside]⟩

theorem kbdGetevent_returns_iff {ext : Bool} {sc : BitVec 8} (evt : KbdEvent) {st : KbdState}
    (prefixed : st.ext ≠ 0 ↔ ext = true) :
    (∃ r, kbdGetevent sc evt st = .ok r) ↔ KnownByte ext sc := by
  unfold kbdGetevent
  by_cases isPrefix : sc = 0xE0
  · rw [if_pos isPrefix]
    refine iff_of_true ?_ (.inl isPrefix)
    split
    · exact ⟨_, rfl⟩
    · exact ⟨_, rfl⟩
  · have table : (if st.ext ≠ 0 then kbdExtKeycodes else kbdRegKeycodes) = tableOf ext := by
      simp only [prefixed, tableOf]
    rw [if_neg isPrefix, knownByte_iff ext isPrefix, ← kbdKeyevent_code, ← keycodeAt_returns_iff]
    unfold kbdKeyevent
    rw [table]
    constructor
    · rintro ⟨r, returned⟩
      obtain ⟨key, found, -⟩ := bind_eq_ok returned
      exact ⟨key, found⟩
    · rintro ⟨key, found⟩
      dsimp only
      rw [found]
      exact ⟨_, rfl⟩

/-- The lookup of the character adds no condition. -/
theorem kbdType_returns_iff {ext : Bool} {typed : Layout × BitVec 8} {s : KbdEvent × KbdState}
    (prefixed : s.2.ext ≠ 0 ↔ ext = true) :
    (∃ s', kbdType typed s = .ok s') ↔ KnownByte ext typed.2 := by
  rw [← kbdGetevent_returns_iff s.1 prefixed]
  unfold kbdType
  constructor
  · rintro ⟨s', returned⟩
    obtain ⟨r, read, -⟩ := bind_eq_ok returned
    exact ⟨r, read⟩
  · rintro ⟨⟨r, evt, st⟩, read⟩
    obtain ⟨c, found⟩ := kbdGetchar_returns typed.1.length_keymap evt st.modifiers
    refine ⟨(evt, st), ?_⟩
    rw [read]
    show (if r = 0 then kbdGetchar _ evt st.modifiers >>= _ else _) = _
    rw [found]
    exact ite_self _

theorem kbdRead_of_kbdType {typed : Layout × BitVec 8} {s s' : KbdEvent × KbdState}
    (returned : kbdType typed s = .ok s') : kbdRead typed.2 s = .ok s' := by
  obtain ⟨⟨r, evt, st⟩, read, rest⟩ := bind_eq_ok returned
  unfold kbdRead
  rw [read]
  dsimp only at rest
  split at rest
  · obtain ⟨c, -, rest⟩ := bind_eq_ok rest
    exact rest
  · exact rest

/-! ## Whole streams -/

/-- **The lookups of a stream are all in range** exactly if each byte is one of a key that its table has:
after a prefix the table of the extended keys, else that of the regular ones. -/
theorem kbdTypeAll_iff (typed : List (Layout × BitVec 8)) (evt : KbdEvent) :
    (∃ s, runAll kbdType typed (evt, kbdSt) = .ok s) ↔
      ∀ before c after, typed = before ++ c :: after →
        KnownByte ((before.map Prod.snd).getLast? = some 0xE0) c.2 := by
  have keeps : ∀ (c : Layout × BitVec 8) v s s', Tracks v s → kbdType c s = .ok s' → Tracks (v.read c.2) s' :=
    fun _ _ _ _ tracks returned => tracks.read (kbdRead_of_kbdType returned)
  have exact : ∀ (c : Layout × BitVec 8) v s, Tracks v s →
      ((∃ s', kbdType c s = .ok s') ↔ KnownByte v.prefixed c.2) :=
    fun _ _ _ tracks => kbdType_returns_iff tracks.2
  have init : Tracks { events := [], prefixed := false } (evt, kbdSt) := ⟨rfl, by simp [kbdSt]⟩
  rw [runAll_ok_iff Tracks keeps exact init]
  have state : ∀ before : List (Layout × BitVec 8),
      (before.foldl (fun v c => v.read c.2) { events := [], prefixed := false } : Stream).prefixed =
        decide ((before.map Prod.snd).getLast? = some 0xE0) := by
    intro before
    have last := stream_prefixed (before.map Prod.snd)
    rw [stream, List.foldl_map] at last
    exact Bool.eq_iff_iff.mpr (last.trans decide_eq_true_iff.symm)
  simp only [state]

/-- The first byte of the Pause key is behind the table of the regular keys. -/
theorem not_kbdTypeAll_pause :
    ¬∀ (typed : List (Layout × BitVec 8)) (evt : KbdEvent),
      ∃ s, runAll kbdType typed (evt, kbdSt) = .ok s := by
  intro inRange
  obtain ⟨s, ran⟩ := inRange [(.us104, 0xE1), (.us104, 0x1D), (.us104, 0x45), (.us104, 0xE1),
    (.us104, 0x9D), (.us104, 0xC5)] ⟨.keyPressed, .unknown⟩
  cases ran

end Nulix.Keyboard
