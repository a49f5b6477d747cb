import Nulix.Kpm.Supply
import Nulix.Nsh.Arguments

/-!
# Commands

What a line means to the kernel: a `Command`, read off its words, and what the command does to the resources
of the kernel. Nothing is printed here, there are no buffers, and the allocator is its pool.
-/

namespace Nulix.Kernel

open Fallible Keyboard Kpm Nsh Nulix.Std Print Words

/-! ## Meaning -/

/-- What a line asks for, apart from what it prints. -/
inductive Command
  | nothing
  /-- The commands that end the machine write to a port. -/
  | send (port value : Nat)
  | layout (layout : Layout)
  | next
  | prev
  | alloc (size : Nat)
  | free (chunk : KpmChunk)
  /-- Memory is shown. -/
  | dump (addr size : Nat)
  | doubleFault
  | nullCall
  deriving DecidableEq

/-- The number that a whole string is, clamped to the range of `long`. -/
def number (w : Text) : Option Int :=
  let (v, e) := clamped (-2 ^ 31) (2 ^ 31 - 1) (numeral true 0 w)
  if e = w.length then some v else none

/-- The number that a whole string is, clamped to the range of `unsigned long`. -/
def unsigned (w : Text) : Option Nat :=
  let (v, e) := clamped 0 (2 ^ 32 - 1) (numeral false 0 w)
  if e = w.length then some v.toNat else none

/-- The character that a parser stops at is the terminating zero exactly at the end of the string. -/
theorem getD_clamped {w : Text} (nonzero : ∀ c ∈ w, c ≠ 0) (lo hi : Int) (minus : Bool) :
    w.getD (clamped lo hi (numeral minus 0 w)).2 0 = 0 ↔
      (clamped lo hi (numeral minus 0 w)).2 = w.length := by
  have inside : (clamped lo hi (numeral minus 0 w)).2 ≤ w.length := by
    cases found : numeral minus 0 w with
    | none => exact Nat.zero_le _
    | some numeral => exact numeral_le found
  rcases Nat.lt_or_eq_of_le inside with before | stop
  · rw [List.getD_eq_getElem w 0 before]
    exact iff_of_false (nonzero _ (List.getElem_mem before)) before.ne
  · rw [stop]
    exact iff_of_true (List.getD_eq_default w 0 (Nat.le_refl _)) rfl

theorem strtol_number {w : Text} (nonzero : ∀ c ∈ w, c ≠ 0) :
    Returns (strtol w 0) fun r => number w = if w.getD r.2 0 ≠ 0 then none else some r.1.toInt := by
  refine (strto_signed limits32 w (.inl rfl)).mono fun r parsed => ?_
  have stops := getD_clamped nonzero (-2 ^ 31) (2 ^ 31 - 1) true
  rw [← parsed] at stops
  simp only [number, ← parsed, ite_not, stops]

theorem strtoul_unsigned {w : Text} (nonzero : ∀ c ∈ w, c ≠ 0) :
    Returns (strtoul w 0) fun r => unsigned w = if w.getD r.2 0 ≠ 0 then none else some r.1.toNat := by
  refine (strto_unsigned limits32 w (.inl rfl)).mono fun r parsed => ?_
  have stops := getD_clamped nonzero 0 (2 ^ 32 - 1) false
  rw [← parsed] at stops
  simp only [unsigned, ← parsed, ite_not, stops, Int.toNat_natCast]

/-- A number that is not negative. -/
def count (w : Text) : Option Nat :=
  match number w with
  | some v => if v < 0 then none else some v.toNat
  | none => none

theorem strtol_count {w : Text} (nonzero : ∀ c ∈ w, c ≠ 0) :
    Returns (strtol w 0) fun r =>
      count w = if w.getD r.2 0 ≠ 0 ∨ r.1.slt 0 = true then none else some r.1.toNat := by
  refine (strtol_number nonzero).mono fun r isNumber => ?_
  have negative : r.1.slt 0 = true ↔ r.1.toInt < 0 := by simp [BitVec.slt]
  rw [count, isNumber]
  by_cases rest : w.getD r.2 0 ≠ 0
  · rw [if_pos rest, if_pos (.inl rest)]
  · have positive : ¬r.1.toInt < 0 → r.1.toInt.toNat = r.1.toNat := by
      have bound := r.1.isLt
      rw [BitVec.toInt_eq_toNat_cond]
      split <;> omega
    rw [if_neg rest]
    by_cases minus : r.1.toInt < 0
    · rw [if_pos (.inr (negative.mpr minus))]
      exact if_pos minus
    · rw [if_neg (not_or.mpr ⟨rest, negative.not.mpr minus⟩), ← positive minus]
      exact if_neg minus

/-- An address as a number of `long`, and back. -/
theorem address_toInt (addr : BitVec 32) : (addr.toInt % 2 ^ 32).toNat = addr.toNat := by
  have back : (BitVec.ofInt 32 addr.toInt).toNat = _ := BitVec.toNat_ofInt addr.toInt
  rw [BitVec.ofInt_toInt] at back
  exact back.symm

/-- The command of a builtin function called with these strings. -/
def commandOf (argc : Nat) (arg : Nat → Text) : BuiltinFn → Command
  | .reboot => .send Builtin.ps2StatusCommandPort Builtin.cpuReset.toNat
  | .poweroff => .send 0x604 0x2000
  | .next => .next
  | .prev => .prev
  | .keymap =>
    if argc < 2 ∨ arg 1 = text "list" then .nothing
    else
      match Builtin.layouts.find? fun l => l.1 = arg 1 with
      | some (_, layout) => .layout layout
      | none => .nothing
  | .alloc =>
    if argc < 2 then .nothing
    else
      match count (arg 1) with
      | some size => .alloc size
      | none => .nothing
  | .free =>
    if argc < 2 ∨ (arg 1).head? = some 0x2d then .nothing
    else
      match number (arg 1), count (arg 2) with
      | some addr, some size => .free { addr := (addr % 2 ^ 32).toNat, size := size }
      | _, _ => .nothing
  | .interrupt =>
    if argc < 2 then .nothing else if number (arg 1) = some 8 then .doubleFault else .nothing
  | .hexdump =>
    if argc < 3 then .nothing
    else
      match unsigned (arg 1), unsigned (arg 2) with
      | some addr, some size => .dump addr size
      | _, _ => .nothing
  | .color | .info | .clear | .help => .nothing

/-- The command of a line with these words, `null` being the string at address 0: what a missing argument
reads, and a word that is taken for the name of the last entry of `builtin`. -/
def command (null : Text) (ws : List Text) : Command :=
  match ws with
  | [] => .nothing
  | w :: _ =>
    match commands.find? fun b => b.name = some w with
    | some b =>
      match b.exec with
      | some f => commandOf ws.length (fun j => ws.getD j null) f
      | none => .nullCall
    | none => if w = null then .nullCall else .nothing

/-! ## Effects -/

/-- What commands work on: the layout of the keyboard, the index of the screen, the pool of the allocator
and what was sent to the ports, the latest first. -/
structure Resources where
  layout : Layout
  screen : Int
  pool : Pool Nat
  sent : List (Nat × Nat)

/-- The number of screens. -/
def screens : Int := 2

theorem exists_emod_screens (i : Int) : 0 ≤ i % screens ∧ i % screens < screens :=
  ⟨Int.emod_nonneg i (by decide), Int.emod_lt_of_pos i (by decide)⟩

namespace Command

/-- The effect of a command on a machine with so many frames. -/
def effect (nframes : Nat) (v : Resources) : Command → Resources
  | send port value => { v with sent := (port, value) :: v.sent }
  | layout l => { v with layout := l }
  | next => { v with screen := (v.screen + 1) % screens }
  | prev => { v with screen := (v.screen - 1) % screens }
  | alloc size => { v with pool := obtain nframes (nframes + 1) size v.pool }
  | free chunk => { v with pool := freed v.pool chunk }
  | nothing | dump _ _ | doubleFault | nullCall => v

/-- The kernel goes on after the command, on a machine that maps the addresses `maps`: a free does not leave
the bitmaps, and a dump shows what is mapped. -/
def Safe (maps : Nat → Prop) (b : Buddy) : Command → Prop
  | free chunk => Freeable b chunk
  | dump addr size => ∀ i, i < size → maps (u32 (addr + i))
  | doubleFault | nullCall => False
  | _ => True

end Command

end Nulix.Kernel
