import Nulix.Screen.Frame

/-!
# Buffers in the background

A buffer that is not loaded should leave the display alone. Its cells are never written; the cursor
ports are, by every `sb_putchar`, which moves the hardware cursor without asking whether its buffer is
the one shown.
-/

namespace Nulix.Screen

open Runs

variable {d : Display}

/-! ## Nothing is shown -/

theorem sbSync_unloaded (unloaded : d.sb.loaded = false) : (sbSync d).vga = d.vga := by
  rw [sbSync, if_neg (by simp [unloaded])]

theorem sbScrollTop_unloaded (unloaded : d.sb.loaded = false) : (sbScrollTop d).vga = d.vga :=
  sbSync_unloaded (d := { d with sb := { d.sb with viewport := d.sb.top } }) unloaded

theorem sbScrollDown_unloaded (unloaded : d.sb.loaded = false) : (sbScrollDown d).vga = d.vga := by
  unfold sbScrollDown
  split_ifs
  · exact sbSync_unloaded unloaded
  · rfl

theorem sbScroll_unloaded (n : Int) (unloaded : d.sb.loaded = false) :
    (sbScroll n d).vga = d.vga := by
  unfold sbScroll
  split_ifs
  · exact sbSync_unloaded unloaded
  · exact sbScrollTop_unloaded unloaded
  · exact sbScrollDown_unloaded unloaded

theorem sbClear_unloaded (unloaded : d.sb.loaded = false) : (sbClear d).vga = d.vga :=
  sbSync_unloaded unloaded

/-! ## Characters -/

theorem sbWriteWord_unloaded (word : Cell) (unloaded : d.sb.loaded = false) :
    (sbWriteWord word d).vga = d.vga := by
  unfold sbWriteWord
  simp only [store_loaded, unloaded]
  rfl

theorem sbCrlfTop_unloaded (unloaded : d.sb.loaded = false) : (sbCrlfTop d).vga = d.vga := by
  unfold sbCrlfTop
  split_ifs
  · exact sbSync_unloaded unloaded
  · rfl
  · rfl

theorem sbCrlfTop_loaded (d : Display) : (sbCrlfTop d).sb.loaded = d.sb.loaded := by
  unfold sbCrlfTop
  split_ifs
  · dsimp only
    rw [sbSync_sb]
  · rfl
  · rfl

theorem sbCrlf_unloaded (unloaded : d.sb.loaded = false) : (sbCrlf d).vga = d.vga := by
  have top := sbCrlfTop_unloaded (d := { d with sb := d.sb.openRow }) unloaded
  have still := (sbCrlfTop_loaded { d with sb := d.sb.openRow }).trans unloaded
  unfold sbCrlf
  dsimp only
  split_ifs
  · exact (sbScroll_unloaded 1 still).trans top
  · exact top

theorem sbTabulationLoop_unloaded (fuel : Nat) (unloaded : d.sb.loaded = false) :
    (sbTabulationLoop fuel d).vga = d.vga ∧ (sbTabulationLoop fuel d).sb.loaded = false := by
  induction fuel generalizing d with
  | zero => exact ⟨rfl, unloaded⟩
  | succ fuel ih =>
    have written := sbWriteWord_unloaded (d.sb.cell 0) unloaded
    have still : (sbWriteWord (d.sb.cell 0) d).sb.incOffset.loaded = false := by
      rw [sbWriteWord_sb]
      exact unloaded
    unfold sbTabulationLoop
    dsimp only
    split_ifs
    · obtain ⟨vga, loaded⟩ := ih (d := { sbWriteWord (d.sb.cell 0) d with
        sb := (sbWriteWord (d.sb.cell 0) d).sb.incOffset }) still
      exact ⟨vga.trans written, loaded⟩
    · exact ⟨written, still⟩

theorem sbTabulation_unloaded (unloaded : d.sb.loaded = false) : (sbTabulation d).vga = d.vga := by
  obtain ⟨vga, loaded⟩ := sbTabulationLoop_unloaded tabsize unloaded
  unfold sbTabulation
  dsimp only
  split_ifs
  · rw [sbCrlf_unloaded loaded, vga]
  · exact vga

theorem sbBackspaceRow_unloaded (unloaded : d.sb.loaded = false) :
    (sbBackspaceRow d).vga = d.vga := by
  unfold sbBackspaceRow
  split_ifs
  · show (sbScroll (-1) d).vga = d.vga
    exact sbScroll_unloaded (-1) unloaded
  · rfl
  · rfl

theorem sbBackspace_unloaded (unloaded : d.sb.loaded = false) : (sbBackspace d).vga = d.vga := by
  have still : (sbBackspaceRow d).sb.loaded = false := by
    rw [sbBackspaceRow_sb, rowBack_loaded, unloaded]
  unfold sbBackspace
  split_ifs
  · rfl
  · rw [sbWriteWord_unloaded]
    · rw [sbBackspaceRow_unloaded unloaded]
    · rw [decOffset_loaded, still]

theorem sbRegular_unloaded (c : BitVec 8) (unloaded : d.sb.loaded = false) :
    (sbRegular c d).vga = d.vga := by
  unfold sbRegular
  simp only [incOffset_loaded, store_loaded, unloaded, Bool.false_eq_true, if_false]
  split_ifs
  · exact sbCrlf_unloaded unloaded
  · rfl

/-- Writing to a buffer that is not loaded writes no cell of the display. -/
theorem sbPutcharSwitch_unloaded (c : BitVec 8) (unloaded : d.sb.loaded = false) :
    (sbPutcharSwitch c d).vga = d.vga := by
  unfold sbPutcharSwitch
  split_ifs
  · exact sbCrlf_unloaded unloaded
  · exact sbTabulation_unloaded unloaded
  · exact sbBackspace_unloaded unloaded
  · exact sbRegular_unloaded c unloaded

/-! ## The cursor ports -/

/-- Some bytes went to the cursor ports on the way from one state of the display to the other. -/
def Sends (vga vga' : Vga) : Prop := ∃ bytes, vga'.sent = bytes ++ vga.sent ∧ bytes ≠ []

theorem Sends.trans {vga₁ vga₂ vga₃ : Vga} (first : Sends vga₁ vga₂) (second : Sends vga₂ vga₃) :
    Sends vga₁ vga₃ := by
  obtain ⟨bytes, sent, some⟩ := first
  obtain ⟨bytes', sent', some'⟩ := second
  refine ⟨bytes' ++ bytes, ?_, by simp [some]⟩
  rw [sent', sent, List.append_assoc]

theorem sends_portWriteU8 (port : Nat) (val : BitVec 8) (vga : Vga) :
    Sends vga (portWriteU8 port val vga) := by
  refine ⟨[(port, val)], ?_, by simp⟩
  unfold portWriteU8
  split_ifs <;> rfl

theorem sends_cursorEnable (vga : Vga) : Sends vga (cursorEnable vga) := by
  unfold cursorEnable
  exact (((sends_portWriteU8 _ _ _).trans (sends_portWriteU8 _ _ _)).trans
    (sends_portWriteU8 _ _ _)).trans (sends_portWriteU8 _ _ _)

/-- `cursor_update` sends bytes wherever the cursor is. -/
theorem sends_cursorUpdate (pos : Int) (vga : Vga) : Sends vga (cursorUpdate pos vga) := by
  unfold cursorUpdate
  dsimp only
  split_ifs
  · exact ((((sends_cursorEnable vga).trans (sends_portWriteU8 _ _ _)).trans
      (sends_portWriteU8 _ _ _)).trans (sends_portWriteU8 _ _ _)).trans (sends_portWriteU8 _ _ _)
  · exact (sends_portWriteU8 _ _ _).trans (sends_portWriteU8 _ _ _)

/-! ## Calls -/

/-- The calls that leave a buffer in the background. -/
inductive Call
  | putchar (c : BitVec 8)
  | putstr (s : List (BitVec 8))
  | scroll (n : Int)
  | scrollTop
  | scrollDown
  | clear
  | setColor (color : BitVec 8)
  | setFg (fg : SbColor)
  | setBg (bg : SbColor)

def Call.run : Call → Display → Display
  | putchar c => sbPutchar c
  | putstr s => sbPutstr s
  | scroll n => sbScroll n
  | scrollTop => sbScrollTop
  | scrollDown => sbScrollDown
  | clear => sbClear
  | setColor color => sbSetColor color
  | setFg fg => sbSetFg fg
  | setBg bg => sbSetBg bg

/-- The call prints at least one character. -/
def Call.Prints : Call → Prop
  | putchar _ => True
  | putstr s => s ≠ []
  | _ => False

/-- What calls do to the display while the buffer is not loaded: no cell is written, and bytes are
sent to the cursor ports if and only if something is printed. -/
structure Unshown (prints : Prop) (d d' : Display) : Prop where
  unloaded : d'.sb.loaded = false
  cells : d'.vga.cells = d.vga.cells
  sent : ∃ bytes, d'.vga.sent = bytes ++ d.vga.sent ∧ (bytes ≠ [] ↔ prints)

theorem Unshown.congr {p q : Prop} {d d' : Display} (h : Unshown p d d') (same : p ↔ q) :
    Unshown q d d' :=
  ⟨h.unloaded, h.cells, by simpa only [same] using h.sent⟩

theorem Unshown.of_vga {d' : Display} (unloaded : d'.sb.loaded = false) (same : d'.vga = d.vga) :
    Unshown False d d' :=
  ⟨unloaded, by rw [same], [], by rw [same]; rfl, by simp⟩

theorem Unshown.trans {p q : Prop} {d₁ d₂ d₃ : Display} (first : Unshown p d₁ d₂)
    (second : Unshown q d₂ d₃) : Unshown (p ∨ q) d₁ d₃ := by
  obtain ⟨bytes, sent, some⟩ := first.sent
  obtain ⟨bytes', sent', some'⟩ := second.sent
  refine ⟨second.unloaded, second.cells.trans first.cells, bytes' ++ bytes, ?_, ?_⟩
  · rw [sent', sent, List.append_assoc]
  · rw [← some, ← some']
    cases bytes <;> cases bytes' <;> simp

theorem sbPutchar_unshown (c : BitVec 8) (unloaded : d.sb.loaded = false) :
    Unshown True d (sbPutchar c d) := by
  have vga := sbPutcharSwitch_unloaded c unloaded
  have notLoad : SbOp.putchar c ≠ .load := nofun
  have still : (sbPutchar c d).sb.loaded = d.sb.loaded := run_loaded notLoad nofun d
  refine ⟨still.trans unloaded, ?_, ?_⟩
  · rw [sbPutchar_eq, cursorUpdate_cells, vga]
  · rw [sbPutchar_eq, vga]
    obtain ⟨bytes, sent, some⟩ := sends_cursorUpdate (sbDiff (sbPutcharSwitch c d).sb.viewport
      (sbPutcharSwitch c d).sb.cursor + (sbPutcharSwitch c d).sb.cursorOffset) d.vga
    exact ⟨bytes, sent, iff_of_true some trivial⟩

theorem sbPutstr_unshown (s : List (BitVec 8)) (unloaded : d.sb.loaded = false) :
    Unshown (s ≠ []) d (sbPutstr s d) := by
  induction s generalizing d with
  | nil => exact (Unshown.of_vga unloaded rfl).congr (by simp)
  | cons c s ih =>
    have first := sbPutchar_unshown c unloaded
    exact (first.trans (ih first.unloaded)).congr (by simp)

/-- One call. -/
theorem Call.unshown (c : Call) (unloaded : d.sb.loaded = false) : Unshown c.Prints d (c.run d) := by
  have still (op : SbOp) (notLoad : op ≠ .load) (notUnload : op ≠ .unload) :
      (op.run d).sb.loaded = false := (run_loaded notLoad notUnload d).trans unloaded
  cases c with
  | putchar c => exact sbPutchar_unshown c unloaded
  | putstr s => exact sbPutstr_unshown s unloaded
  | scroll n => exact .of_vga (still (.scroll n) nofun nofun) (sbScroll_unloaded n unloaded)
  | scrollTop => exact .of_vga (still .scrollTop nofun nofun) (sbScrollTop_unloaded unloaded)
  | scrollDown =>
    exact .of_vga (still .scrollDown nofun nofun) (sbScrollDown_unloaded unloaded)
  | clear => exact .of_vga (still .clear nofun nofun) (sbClear_unloaded unloaded)
  | setColor | setFg | setBg => exact .of_vga unloaded rfl

/-- Any sequence of calls. -/
theorem run_unshown (calls : List Call) (unloaded : d.sb.loaded = false) :
    Unshown (∃ c ∈ calls, c.Prints) d (run Call.run calls d) := by
  induction calls generalizing d with
  | nil => exact (Unshown.of_vga unloaded rfl).congr (by simp)
  | cons c calls ih =>
    have first := c.unshown unloaded
    exact (first.trans (ih first.unloaded)).congr (by simp)

/-- A buffer in the background leaves the display alone exactly as long as nothing is printed to it. -/
theorem background_untouched_iff (unloaded : d.sb.loaded = false) (calls : List Call) :
    (run Call.run calls d).vga.cells = d.vga.cells ∧ (run Call.run calls d).vga.sent = d.vga.sent ↔
      ∀ c ∈ calls, ¬c.Prints := by
  have unshown := run_unshown calls unloaded
  obtain ⟨bytes, sent, some⟩ := unshown.sent
  rw [and_iff_right unshown.cells, sent, List.append_left_eq_self, ← not_iff_not, ← ne_eq, some]
  simp

theorem background_untouched_iff_scrolled :
    (run Call.run [.scroll (-1), .putstr [], .clear] ⟨sbInit .zero, .zero⟩).vga.cells =
        Vga.zero.cells ∧
      (run Call.run [.scroll (-1), .putstr [], .clear] ⟨sbInit .zero, .zero⟩).vga.sent =
        Vga.zero.sent :=
  (background_untouched_iff (d := ⟨sbInit .zero, .zero⟩) rfl _).mpr (by simp [Call.Prints])

/-- The first character of the greeting, which `kernel_main` prints before it loads a buffer. -/
theorem not_background_untouched_greeting :
    ¬∀ (sb : Screenbuf) (vga : Vga) (ops : List SbOp) (calls : List Call),
      (sbRun sb vga ops).sb.loaded = false →
      (run Call.run calls (sbRun sb vga ops)).vga.cells = (sbRun sb vga ops).vga.cells ∧
        (run Call.run calls (sbRun sb vga ops)).vga.sent = (sbRun sb vga ops).vga.sent := by
  intro untouched
  obtain ⟨-, silent⟩ := untouched .zero .zero [] [.putchar 0x57] rfl
  obtain ⟨bytes, sent, some⟩ :=
    (sbPutchar_unshown (d := sbRun .zero .zero []) 0x57 rfl).sent
  rw [run, run, Call.run, sent, List.append_left_eq_self] at silent
  exact some.mpr trivial silent

end Nulix.Screen
