import Nulix.Screen.Window

/-!
# Several screen buffers on one display

The array `sb` of `kernel.c` with `sb_current` and `sb_nbscreen`, and the builtins `next` and `prev` of
`builtins/utils.c` that switch between its buffers. After every step exactly one buffer is loaded,
the current one, and the display shows its window.
-/

namespace Nulix.Screen

open Runs

/-- The screen buffers and the display. `sbCurrent` is the index of the buffer that `sb_current` points
to. -/
structure Screens where
  sb : Int → Screenbuf
  sbCurrent : Int
  sbNbscreen : Int
  vga : Vga

namespace Screens

/-- The current buffer and the display. -/
def display (s : Screens) : Display := { sb := s.sb s.sbCurrent, vga := s.vga }

/-- A call on `sb_current`. -/
def onCurrent (f : Display → Display) (s : Screens) : Screens :=
  { s with
    sb := Function.update s.sb s.sbCurrent (f s.display).sb
    vga := (f s.display).vga }

/-- Every buffer initialised by `sb_init`, then the first one loaded. -/
def boot (sb : Int → Screenbuf) (nbscreen : Int) (vga : Vga) : Screens :=
  onCurrent sbLoad
    { sb := fun i => if 0 ≤ i ∧ i < nbscreen then sbInit (sb i) else sb i
      sbCurrent := 0
      sbNbscreen := nbscreen
      vga := vga }

/-- `next`: `sb_unload(sb_current++)`, around the end of the array, `sb_load(sb_current)`. -/
def next (s : Screens) : Screens :=
  let s := s.onCurrent sbUnload
  let s := { s with sbCurrent := s.sbCurrent + 1 }
  let s := if s.sbCurrent = s.sbNbscreen then { s with sbCurrent := 0 } else s
  s.onCurrent sbLoad

/-- `prev` -/
def prev (s : Screens) : Screens :=
  let s := s.onCurrent sbUnload
  let s := { s with sbCurrent := s.sbCurrent - 1 }
  let s := if s.sbCurrent < 0 then { s with sbCurrent := s.sbNbscreen - 1 } else s
  s.onCurrent sbLoad

end Screens

/-- An operation on `sb_current`, or one of the builtins that move it. -/
inductive ScreensOp
  | current (op : SbOp)
  | next
  | prev

def ScreensOp.run : ScreensOp → Screens → Screens
  | current op, s => s.onCurrent op.run
  | next, s => s.next
  | prev, s => s.prev

/-- Everything but a backspace, a scroll by more than one row, and loading or unloading a buffer other
than by `next` and `prev`. -/
def ScreensOp.Plain : ScreensOp → Prop
  | current op => op ≠ .putchar 0x08 ∧ op.ByOne ∧ op ≠ .load ∧ op ≠ .unload
  | next | prev => True

/-- The buffer at index `i` exists. -/
def Screens.Exists (s : Screens) (i : Int) : Prop := 0 ≤ i ∧ i < s.sbNbscreen

/-- One buffer is loaded, the current one, and the display shows the 25 rows of its ring from the
viewport on. -/
structure WindowOk (s : Screens) : Prop where
  current : s.Exists s.sbCurrent
  loaded : ∀ i, s.Exists i → ((s.sb i).loaded = true ↔ i = s.sbCurrent)
  window : ∀ row column, 0 ≤ row → row < vgaHeight → 0 ≤ column → column < vgaWidth →
    s.vga.cells (row * vgaWidth + column) =
      (s.sb s.sbCurrent).buf (sbAddline (s.sb s.sbCurrent).viewport row + column)

/-- What every step keeps. -/
structure ScreensOk (s : Screens) : Prop where
  current : s.Exists s.sbCurrent
  loaded : ∀ i, s.Exists i → ((s.sb i).loaded = true ↔ i = s.sbCurrent)
  view : ∀ i, s.Exists i → ViewOk 79 (s.sb i)
  shown : Shown s.display

namespace ScreensOk

variable {s : Screens}

theorem next_eq (s : Screens) :
    s.next = Screens.onCurrent sbLoad
      (if s.sbCurrent + 1 = s.sbNbscreen then { s.onCurrent sbUnload with sbCurrent := 0 }
      else { s.onCurrent sbUnload with sbCurrent := s.sbCurrent + 1 }) := rfl

theorem prev_eq (s : Screens) :
    s.prev = Screens.onCurrent sbLoad
      (if s.sbCurrent - 1 < 0 then { s.onCurrent sbUnload with sbCurrent := s.sbNbscreen - 1 }
      else { s.onCurrent sbUnload with sbCurrent := s.sbCurrent - 1 }) := rfl

theorem display_onCurrent (f : Display → Display) (s : Screens) :
    (s.onCurrent f).display = f s.display := by
  show { sb := Function.update s.sb s.sbCurrent (f s.display).sb s.sbCurrent
         vga := (f s.display).vga : Display } = f s.display
  rw [Function.update_self]

theorem windowOk (ok : ScreensOk s) : WindowOk s := by
  refine ⟨ok.current, ok.loaded, fun row column low high left right => ?_⟩
  simp only [vgaHeight_eq, vgaWidth_eq] at high right ⊢
  have cell := ok.shown (row * 80 + column) (by omega) (by simp only [vgaHeight_eq, vgaWidth_eq]; omega)
  have sameRow : (row * 80 + column) / vgaWidth = row := by
    rw [vgaWidth_eq]
    omega
  have sameColumn : (row * 80 + column) % vgaWidth = column := by
    rw [vgaWidth_eq]
    omega
  rw [sameRow, sameColumn] at cell
  exact cell

theorem visible (ok : ScreensOk s) : Visible 79 s.display :=
  ⟨ok.view _ ok.current, fun _ => ok.shown⟩

theorem run_current (ok : ScreensOk s) {op : SbOp} (plain : (ScreensOp.current op).Plain) :
    ScreensOk (s.onCurrent op.run) := by
  obtain ⟨noErase, -, notLoad, notUnload⟩ := plain
  have after := ok.visible.run noErase
  have loaded := run_loaded notLoad notUnload s.display
  have on : (s.sb s.sbCurrent).loaded = true := (ok.loaded _ ok.current).mpr rfl
  refine ⟨ok.current, ?_, ?_, ?_⟩
  · refine (Function.forall_update_iff s.sb fun i sb =>
      s.Exists i → (sb.loaded = true ↔ i = s.sbCurrent)).mpr ⟨fun _ => ?_, fun i _ => ok.loaded i⟩
    exact iff_of_true (loaded.trans on) rfl
  · exact (Function.forall_update_iff s.sb fun i sb => s.Exists i → ViewOk 79 sb).mpr
      ⟨fun _ => after.view, fun i _ => ok.view i⟩
  · rw [display_onCurrent]
    exact after.synced (loaded.trans on)

/-- Loading a buffer where none is loaded. -/
theorem load {s : Screens} (current : s.Exists s.sbCurrent)
    (unloaded : ∀ i, s.Exists i → (s.sb i).loaded = false)
    (view : ∀ i, s.Exists i → ViewOk 79 (s.sb i)) : ScreensOk (s.onCurrent sbLoad) := by
  have loads : (sbLoad s.display).sb = { s.sb s.sbCurrent with loaded := true } := sbLoad_sb _
  refine ⟨current, ?_, ?_, ?_⟩
  · refine (Function.forall_update_iff s.sb fun i sb =>
      s.Exists i → (sb.loaded = true ↔ i = s.sbCurrent)).mpr ⟨fun _ => ?_, fun i other isBuffer => ?_⟩
    · rw [loads]
      exact iff_of_true rfl rfl
    · rw [unloaded i isBuffer]
      exact iff_of_false Bool.false_ne_true other
  · refine (Function.forall_update_iff s.sb fun i sb => s.Exists i → ViewOk 79 sb).mpr
      ⟨fun isBuffer => ?_, fun i _ => view i⟩
    rw [loads]
    exact (view _ isBuffer).congr rfl rfl rfl rfl rfl
  · rw [display_onCurrent]
    refine synced_sbSync _ ?_
    show (sbLoad s.display).sb.loaded = true
    rw [loads]

/-- `next` and `prev`: unload the current buffer, load another one. -/
theorem switch (ok : ScreensOk s) {k : Int} (isBuffer : s.Exists k) :
    ScreensOk (Screens.onCurrent sbLoad { s.onCurrent sbUnload with sbCurrent := k }) := by
  refine ScreensOk.load isBuffer ?_ ?_
  · refine (Function.forall_update_iff s.sb fun i sb => s.Exists i → sb.loaded = false).mpr
      ⟨fun _ => rfl, fun i other exists_i => ?_⟩
    have off := (ok.loaded i exists_i).not.mpr other
    simpa using off
  · refine (Function.forall_update_iff s.sb fun i sb => s.Exists i → ViewOk 79 sb).mpr
      ⟨fun exists_i => ?_, fun i _ => ok.view i⟩
    exact (ok.view _ exists_i).congr rfl rfl rfl rfl rfl

theorem next (ok : ScreensOk s) : ScreensOk s.next := by
  obtain ⟨low, high⟩ := ok.current
  rw [next_eq]
  by_cases last : s.sbCurrent + 1 = s.sbNbscreen
  · rw [if_pos last]
    exact ok.switch (k := 0) ⟨le_rfl, lt_of_le_of_lt low high⟩
  · rw [if_neg last]
    exact ok.switch (k := s.sbCurrent + 1) ⟨by omega, by omega⟩

theorem prev (ok : ScreensOk s) : ScreensOk s.prev := by
  obtain ⟨low, high⟩ := ok.current
  rw [prev_eq]
  by_cases first : s.sbCurrent - 1 < 0
  · rw [if_pos first]
    exact ok.switch (k := s.sbNbscreen - 1) ⟨by omega, by omega⟩
  · rw [if_neg first]
    exact ok.switch (k := s.sbCurrent - 1) ⟨by omega, by omega⟩

theorem run (ok : ScreensOk s) {op : ScreensOp} (plain : op.Plain) : ScreensOk (op.run s) := by
  cases op with
  | current op => exact ok.run_current plain
  | next => exact ok.next
  | prev => exact ok.prev

theorem boot (sb : Int → Screenbuf) {nbscreen : Int} (some : 1 ≤ nbscreen) (vga : Vga) :
    ScreensOk (Screens.boot sb nbscreen vga) := by
  refine ScreensOk.load ⟨le_rfl, by dsimp only; omega⟩ (fun i exists_i => ?_) fun i exists_i => ?_
  · have inArray : 0 ≤ i ∧ i < nbscreen := exists_i
    dsimp only
    rw [if_pos inArray]
    rfl
  · have inArray : 0 ≤ i ∧ i < nbscreen := exists_i
    dsimp only
    rw [if_pos inArray]
    exact viewOk_blank rfl rfl rfl rfl fun i low high => sbInit_buf _ low high

end ScreensOk

/-- **The window is the buffer.** With any number of buffers, after every sequence of steps exactly the
current buffer is loaded and the display shows its rows from the viewport on. -/
theorem windowOk_run (sb : Int → Screenbuf) (nbscreen : Int) (vga : Vga) (some : 1 ≤ nbscreen)
    (ops : List ScreensOp) (plain : ∀ op ∈ ops, op.Plain) :
    WindowOk (run ScreensOp.run ops (.boot sb nbscreen vga)) := by
  have unguarded : Guarded ScreensOp.run (fun _ _ => True) ops (.boot sb nbscreen vga) :=
    guarded_true ops _
  exact (run_invariant ScreensOk (fun op mem _ _ ok => ok.run (plain op mem)) unguarded
    (ScreensOk.boot sb some vga)).windowOk

/-- Three buffers: text on the first one, the last one by `prev`, a clear there, and back. -/
theorem windowOk_run_three_buffers :
    WindowOk (run ScreensOp.run
      [.current (.putchar 0x41), .prev, .current .clear, .current (.scroll (-1)), .next]
      (.boot (fun _ => .zero) 3 .zero)) := by
  refine windowOk_run _ _ _ (by decide) _ fun op mem => ?_
  simp only [List.mem_cons, List.not_mem_nil, or_false] at mem
  rcases mem with rfl | rfl | rfl | rfl | rfl
  · exact ⟨by simp, nofun, nofun, nofun⟩
  · trivial
  · exact ⟨nofun, nofun, nofun, nofun⟩
  · refine ⟨nofun, fun n same => ?_, nofun, nofun⟩
    cases same
    exact .inr rfl
  · trivial

end Nulix.Screen
