import Nulix.Kernel.Refinement

/-!
# The sessions of the kernel

Which lines can be entered at all, and what is left of how they were typed. A line is accepted where the
layout of the moment has its characters, it is short enough for the editor and its command is safe; the
sessions of the kernel are the sequences of accepted lines with a line under way. The resources depend on the
lines alone.
-/

namespace Nulix.Kernel

open Fallible Keyboard Kpm Nsh Nulix.Std Print Strings

/-! ## Lines -/

/-- The editor can come to hold the line. -/
structure Enterable (layout : Layout) (line : Text) : Prop where
  chars : ∀ c ∈ line, layout.Typeable c ∧ Plain c
  short : line.length ≤ nshBufsize - 1

namespace Resources

/-- A line is entered. -/
def enter (nframes : Nat) (null : Text) (r : Resources) (line : Text) : Resources :=
  (command null (words line)).effect nframes r

/-- The line can be entered, and the kernel goes on after it. -/
def Accepts (maps : Nat → Prop) (b : Buddy) (null : Text) (r : Resources) (line : Text) : Prop :=
  Enterable r.layout line ∧ (command null (words line)).Safe maps b

end Resources

/-! ## What can be typed -/

variable {layout : Layout} {line : Text}

theorem Enterable.nil (layout : Layout) : Enterable layout [] := ⟨nofun, Nat.zero_le _⟩

/-- The names of the commands can be typed on every layout. -/
theorem enterable_name (layout : Layout) :
    ∀ b ∈ builtin, ∀ name ∈ b.name, Enterable layout name := by
  intro b mem name named
  obtain ⟨plain, short⟩ := builtin_names b mem name named
  have typeable : ∀ b ∈ builtin, ∀ name ∈ b.name, ∀ c ∈ name, layout.Typeable c := by
    simp [builtin, text, Layout.Typeable]
  exact ⟨fun c inName => ⟨typeable b mem name named c inName, plain c inName⟩, short⟩

theorem Enterable.completions {table : List Builtin} (enterable : Enterable layout line)
    (names : ∀ b ∈ table, ∀ name ∈ b.name, Enterable layout name) :
    Enterable layout (completions table line) := by
  induction table generalizing line with
  | nil => exact enterable
  | cons b table ih =>
    have later := fun e mem => names e (List.mem_cons_of_mem b mem)
    unfold Nsh.completions
    cases named : b.name with
    | none => exact enterable
    | some name =>
      refine ih ?_ later
      unfold complete
      split
      · exact names b List.mem_cons_self name named
      · exact enterable

/-- Whatever is typed, the line stays enterable. -/
theorem Enterable.edit (enterable : Enterable layout line) {c : BitVec 8} (typeable : layout.Typeable c)
    (nonzero : c ≠ 0) (sameLine : c ≠ 0x0a) : Enterable layout (edit line c) := by
  obtain ⟨chars, short⟩ := enterable
  unfold Nsh.edit
  split_ifs with erases completes empty room
  · refine ⟨fun d mem => chars d ((List.dropLast_sublist line).mem mem), ?_⟩
    rw [List.length_dropLast]
    exact (Nat.sub_le _ _).trans short
  · exact .nil layout
  · exact Enterable.completions ⟨chars, short⟩ (enterable_name layout)
  · refine ⟨fun d mem => ?_, ?_⟩
    · rcases List.mem_append.mp mem with old | new
      · exact chars d old
      · rw [List.mem_singleton.mp new]
        exact ⟨typeable, nonzero, sameLine, completes, erases⟩
    · rw [List.length_append, List.length_singleton]
      exact room
  · exact ⟨chars, short⟩

/-- Plain characters are appended. -/
theorem foldl_edit_plain {l : Text} (plain : ∀ c ∈ l, Plain c)
    (room : line.length + l.length ≤ nshBufsize - 1) : l.foldl edit line = line ++ l := by
  induction l generalizing line with
  | nil => exact (List.append_nil line).symm
  | cons c l ih =>
    obtain ⟨-, -, notTab, notErase⟩ := plain c List.mem_cons_self
    have here : edit line c = line ++ [c] := by
      rw [List.length_cons] at room
      rw [edit, if_neg notErase, if_neg notTab, if_pos (by omega)]
    rw [List.foldl_cons, here, ih fun d mem => plain d (List.mem_cons_of_mem c mem), ← List.append_cons]
    rw [List.length_append, List.length_singleton]
    rw [List.length_cons] at room
    omega

/-! ## What was typed -/

variable {maps : Nat → Prop} {b : Buddy} {null : Text} {v : View} {r₀ : Resources}

/-- The lines entered were accepted one after the other, the resources are what they made of `r₀`, and the
line under way can be entered too. -/
structure Entered (maps : Nat → Prop) (b : Buddy) (null : Text) (r₀ : Resources) (v : View) : Prop where
  resources : v.resources = v.session.entered.foldl (Resources.enter b.nframes null) r₀
  accepted : AllSafe (Resources.enter b.nframes null) (Resources.Accepts maps b null) r₀ v.session.entered
  line : Enterable v.resources.layout v.session.line

namespace Entered

theorem type (entered : Entered maps b null r₀ v) {c : BitVec 8} (typeable : v.resources.layout.Typeable c)
    (nonzero : c ≠ 0) (safe : c = 0x0a → (v.asks null).Safe maps b) :
    Entered maps b null r₀ (v.type b.nframes null c) := by
  obtain ⟨resources, accepted, line⟩ := entered
  unfold View.type
  split
  · next ends =>
    refine ⟨?_, ?_, .nil _⟩
    · show (v.asks null).effect b.nframes v.resources = _
      rw [List.foldl_append, ← resources]
      rfl
    · rw [allSafe_append, allSafe_cons, ← resources]
      exact ⟨accepted, ⟨line, safe ends⟩, .nil⟩
  · next sameLine => exact ⟨resources, accepted, line.edit typeable nonzero sameLine⟩

theorem poll (entered : Entered maps b null r₀ v) {p : Poll} (safe : v.Safe maps b null p) :
    Entered maps b null r₀ (v.poll b.nframes null p) := by
  have read : Entered maps b null r₀ { v with keys := v.keys.read p.data } :=
    ⟨entered.resources, entered.accepted, entered.line⟩
  unfold View.poll
  split
  · exact entered
  · next some =>
    obtain ⟨-, asks⟩ := safe.resolve_left some
    unfold View.types at asks ⊢
    rcases types_cases v.keys v.resources.layout p.data with silent | ⟨c, one, nonzero, typeable⟩
    · rw [silent]
      exact read
    · rw [one] at asks ⊢
      exact read.type typeable nonzero fun ends => asks (List.mem_singleton.mpr ends.symm)

end Entered

/-! ## Typing a session -/

/-- Safe polls lead from one view to the other. -/
def Reaches (maps : Nat → Prop) (b : Buddy) (null : Text) (v v' : View) : Prop :=
  ∃ ps, AllSafe (View.poll b.nframes null) (View.Safe maps b null) v ps ∧
    ps.foldl (View.poll b.nframes null) v = v'

theorem Reaches.trans {v₁ v₂ : View} (first : Reaches maps b null v v₁) (second : Reaches maps b null v₁ v₂) :
    Reaches maps b null v v₂ := by
  obtain ⟨ps, safe, rfl⟩ := first
  obtain ⟨qs, safe', rfl⟩ := second
  exact ⟨ps ++ qs, allSafe_append.mpr ⟨safe, safe'⟩, List.foldl_append⟩

/-- No key is held or locked. -/
def AtRest (v : View) : Prop := ∃ evt, Tracks v.keys (evt, kbdSt)

/-- A line is typed. -/
theorem reaches_line (maps : Nat → Prop) (b : Buddy) (null : Text) (rest : AtRest v)
    (empty : v.session.line = [])
    (enterable : Enterable v.resources.layout line) :
    ∃ keys, Reaches maps b null v ⟨keys, { v.session with line := line }, v.resources⟩ ∧
      AtRest ⟨keys, { v.session with line := line }, v.resources⟩ := by
  obtain ⟨chars, short⟩ := enterable
  obtain ⟨evt, tracks⟩ := rest
  obtain ⟨bytes, evt', typed⟩ := exists_stream (fun c mem => (chars c mem).1) evt
  have sameLine : 0x0a ∉ line := fun mem => (chars 0x0a mem).2.2.1 rfl
  obtain ⟨safe, led, tracks'⟩ := polls_of_stream (b := b) tracks typed sameLine
  have plain : line.foldl edit [] = line :=
    foldl_edit_plain (fun c mem => (chars c mem).2) (by simpa using short)
  rw [empty, plain] at led
  exact ⟨_, ⟨_, safe, led⟩, evt', tracks'⟩

/-- The enter key. -/
theorem reaches_enter (b : Buddy) (null : Text) (rest : AtRest v) (safe : (v.asks null).Safe maps b) :
    ∃ keys, Reaches maps b null v ⟨keys, { entered := v.session.entered ++ [v.session.line], line := [] },
        v.resources.enter b.nframes null v.session.line⟩ ∧
      AtRest ⟨keys, { entered := v.session.entered ++ [v.session.line], line := [] },
        v.resources.enter b.nframes null v.session.line⟩ := by
  obtain ⟨evt, tracks⟩ := rest
  have typed : kbdTypeByte v.resources.layout 0x1C (evt, kbdSt) =
      .ok ([0x0a], ⟨.keyPressed, .keyEnter⟩, kbdSt) := by
    cases v.resources.layout <;> rfl
  obtain ⟨safe', polled, tracks'⟩ := poll_of_enter tracks typed safe
  exact ⟨_, ⟨[Poll.byte 0x1C], allSafe_cons.mpr ⟨safe', .nil⟩, polled⟩, _, tracks'⟩

/-- Lines that are accepted one after the other. -/
theorem reaches_lines (maps : Nat → Prop) (b : Buddy) (null : Text) {lines : List Text} (rest : AtRest v)
    (empty : v.session.line = [])
    (accepted : AllSafe (Resources.enter b.nframes null) (Resources.Accepts maps b null) v.resources lines) :
    ∃ keys, Reaches maps b null v ⟨keys, { entered := v.session.entered ++ lines, line := [] },
        lines.foldl (Resources.enter b.nframes null) v.resources⟩ ∧
      AtRest ⟨keys, { entered := v.session.entered ++ lines, line := [] },
        lines.foldl (Resources.enter b.nframes null) v.resources⟩ := by
  induction lines generalizing v with
  | nil =>
    refine ⟨v.keys, ⟨[], .nil, ?_⟩, rest⟩
    obtain ⟨keys, ⟨entered, line⟩, resources⟩ := v
    cases empty
    rw [List.append_nil]
    rfl
  | cons l lines ih =>
    obtain ⟨⟨enterable, safe⟩, later⟩ := allSafe_cons.mp accepted
    obtain ⟨keys, typed, rest⟩ := reaches_line maps b null rest empty enterable
    obtain ⟨keys', entered, rest⟩ := reaches_enter b null rest safe
    obtain ⟨keys'', led, rest⟩ := ih rest rfl later
    rw [List.append_cons]
    exact ⟨keys'', typed.trans (entered.trans led), rest⟩

/-! ## All sessions -/

variable (hw : Hardware) {img : KernelImage} {entries : List MmapEntry} {count memkb : Nat} (found : Found)

theorem entered_viewAfter {ps : List Poll} (safe : SafePolls hw img entries memkb ps) :
    Entered hw.Maps (kpmInitBuddy img.ek memkb) hw.handlers.atNull (viewStart img entries memkb).resources
      (viewAfter hw.handlers img entries memkb ps) :=
  AllSafe.foldl (fun _ _ entered safe => entered.poll safe) safe ⟨rfl, .nil, .nil _⟩

/-- Every session of accepted lines can be typed. -/
theorem exists_session (held : img.Held (kpmInitBuddy img.ek memkb))
    (room : kpmInitAddr img.ek + (kpmInitBuddy img.ek memkb).size ≤ 2 ^ 32) {lines : List Text}
    (readable : Readable (kpmInitBuddy img.ek memkb) entries)
    (accepted : AllSafe (Resources.enter (kpmInitBuddy img.ek memkb).nframes hw.handlers.atNull)
      (Resources.Accepts hw.Maps (kpmInitBuddy img.ek memkb) hw.handlers.atNull)
      (viewStart img entries memkb).resources lines)
    (enterable : Enterable (lines.foldl
      (Resources.enter (kpmInitBuddy img.ek memkb).nframes hw.handlers.atNull)
      (viewStart img entries memkb).resources).layout line) :
    ∃ ps r, kernelMain hw img entries count memkb found ps = .ok r ∧
      (viewAfter hw.handlers img entries memkb ps).session = { entered := lines, line := line } := by
  have rest : AtRest (viewStart img entries memkb) := ⟨found.evt, .start found.evt⟩
  obtain ⟨keys, entered, rest⟩ :=
    reaches_lines hw.Maps (kpmInitBuddy img.ek memkb) hw.handlers.atNull rest rfl accepted
  obtain ⟨keys', typed, -⟩ :=
    reaches_line hw.Maps (kpmInitBuddy img.ek memkb) hw.handlers.atNull rest rfl enterable
  obtain ⟨ps, safe, led⟩ := entered.trans typed
  obtain ⟨r, ran, -⟩ := (kernelMain_when hw found ps held room).1 ⟨readable, safe⟩
  refine ⟨ps, r, ran, ?_⟩
  rw [viewAfter, led]
  rfl

/-- **The sessions of the kernel.** Some sequence of polls makes `kernel_main` go through exactly these lines
with this line under way if and only if it gets through the map of memory, each line is accepted after those
before it and the line under way can be entered: the layout of the moment has its characters, none of them is
special, there are at most 1023, and the command of every line entered is safe. -/
theorem kernelMain_sessions_iff (held : img.Held (kpmInitBuddy img.ek memkb))
    (mapped : img.Mapped (kpmInitBuddy img.ek memkb)) (session : Nsh.Session) :
    (∃ ps r, kernelMain hw img entries count memkb found ps = .ok r ∧
      (viewAfter hw.handlers img entries memkb ps).session = session) ↔
    Readable (kpmInitBuddy img.ek memkb) entries ∧
      AllSafe (Resources.enter (kpmInitBuddy img.ek memkb).nframes hw.handlers.atNull)
        (Resources.Accepts hw.Maps (kpmInitBuddy img.ek memkb) hw.handlers.atNull)
        (viewStart img entries memkb).resources session.entered ∧
      Enterable (session.entered.foldl
          (Resources.enter (kpmInitBuddy img.ek memkb).nframes hw.handlers.atNull)
        (viewStart img entries memkb).resources).layout session.line := by
  constructor
  · rintro ⟨ps, r, ran, rfl⟩
    obtain ⟨readable, safe⟩ := (kernelMain_when hw found ps held mapped.room).returns_iff.mp ⟨r, ran⟩
    obtain ⟨resources, accepted, line⟩ := entered_viewAfter hw safe
    exact ⟨readable, accepted, resources ▸ line⟩
  · rintro ⟨readable, accepted, line⟩
    exact exists_session hw found held mapped.room readable accepted line

/-- Two lines, and a third under way. -/
def smallSession : Nsh.Session := { entered := [text "alloc 5000", text "next"], line := text "he" }

/-- All three can be entered in their turn, and the kernel goes on after the two. -/
theorem small_accepted :
    AllSafe (Resources.enter (kpmInitBuddy smallImage.ek 16384).nframes smallHardware.handlers.atNull)
        (Resources.Accepts smallHardware.Maps (kpmInitBuddy smallImage.ek 16384)
          smallHardware.handlers.atNull)
        (viewStart smallImage smallMap 16384).resources smallSession.entered ∧
      Enterable (smallSession.entered.foldl
        (Resources.enter (kpmInitBuddy smallImage.ek 16384).nframes smallHardware.handlers.atNull)
        (viewStart smallImage smallMap 16384).resources).layout smallSession.line := by
  have null : smallHardware.handlers.atNull = [] := by decide
  have alloc : command [] (words (text "alloc 5000")) = .alloc 5000 := by decide
  have next : command [] (words (text "next")) = .next := by decide
  have first : Enterable .us104 (text "alloc 5000") := ⟨by decide, by decide⟩
  have second : Enterable .us104 (text "next") := ⟨by decide, by decide⟩
  have third : Enterable .us104 (text "he") := ⟨by decide, by decide⟩
  rw [null, smallSession]
  simp only [allSafe_cons, List.foldl_cons, List.foldl_nil, Resources.Accepts, Resources.enter, alloc, next,
    Command.effect, Command.Safe, and_true]
  exact ⟨⟨first, second, .nil⟩, third⟩

/-- The small machine can get there. -/
theorem kernelMain_sessions_iff_alloc :
    (∃ ps r, kernelMain smallHardware smallImage smallMap 2 16384 smallFound ps = .ok r ∧
      (viewAfter smallHardware.handlers smallImage smallMap 16384 ps).session = smallSession) ∧
    ((∃ ps r, kernelMain smallHardware smallImage smallMap 2 16384 smallFound ps = .ok r ∧
        (viewAfter smallHardware.handlers smallImage smallMap 16384 ps).session = smallSession) ↔
      Readable (kpmInitBuddy smallImage.ek 16384) smallMap ∧
        AllSafe (Resources.enter (kpmInitBuddy smallImage.ek 16384).nframes smallHardware.handlers.atNull)
          (Resources.Accepts smallHardware.Maps (kpmInitBuddy smallImage.ek 16384)
            smallHardware.handlers.atNull)
          (viewStart smallImage smallMap 16384).resources smallSession.entered ∧
        Enterable (smallSession.entered.foldl
          (Resources.enter (kpmInitBuddy smallImage.ek 16384).nframes smallHardware.handlers.atNull)
          (viewStart smallImage smallMap 16384).resources).layout smallSession.line) := by
  have whole := @kernelMain_sessions_iff smallHardware smallImage smallMap 2 16384 smallFound small_held
    small_mapped smallSession
  exact ⟨whole.mpr ⟨small_readable, small_accepted⟩, whole⟩

/-- **Only the lines count.** Two runs of the kernel on one machine and one map of memory in which the same
lines were entered, on whatever screens and memory and however they were typed, end with the same layout, the
same screen, the same ports and the same pool of frames. -/
theorem kernelMain_lines (held : img.Held (kpmInitBuddy img.ek memkb))
    (room : kpmInitAddr img.ek + (kpmInitBuddy img.ek memkb).size ≤ 2 ^ 32) (found' : Found)
    {ps ps' : List Poll}
    {pics pics' : Pics} {k k' : Globals}
    (ran : kernelMain hw img entries count memkb found ps = .ok (pics, k))
    (ran' : kernelMain hw img entries count memkb found' ps' = .ok (pics', k'))
    (same : (viewAfter hw.handlers img entries memkb ps).session.entered =
      (viewAfter hw.handlers img entries memkb ps').session.entered) :
    k.getkeymapentry = k'.getkeymapentry ∧
      k.shell.console.screens.sbCurrent = k'.shell.console.screens.sbCurrent ∧ k.sent = k'.sent ∧
      ∃ pool, Represents k.buddy k.mem pool ∧ Represents k'.buddy k'.mem pool := by
  have safe := ((kernelMain_when hw found ps held room).returns_iff.mp ⟨_, ran⟩).2
  have safe' := ((kernelMain_when hw found' ps' held room).returns_iff.mp ⟨_, ran'⟩).2
  obtain ⟨-, shows⟩ := (kernelMain_when hw found ps held room).of_eq_ok ran
  obtain ⟨-, shows'⟩ := (kernelMain_when hw found' ps' held room).of_eq_ok ran'
  have resources := (entered_viewAfter hw safe).resources
  rw [same, ← (entered_viewAfter hw safe').resources] at resources
  have running := shows.running
  have running' := shows'.running
  rw [resources] at running
  refine ⟨running.layout.trans running'.layout.symm, running.screen.trans running'.screen.symm,
    running.sent.trans running'.sent.symm, (viewAfter hw.handlers img entries memkb ps').resources.pool,
    ?_, ?_⟩
  · rw [running.buddy]
    exact running.pool
  · rw [running'.buddy]
    exact running'.pool

/-- `alloc 5000` and `next`, with a slip of the finger and without. -/
theorem kernelMain_lines_retyped : ∃ pics pics' k k',
    kernelMain smallHardware smallImage smallMap 2 16384 smallFound smallTyped = .ok (pics, k) ∧
    kernelMain smallHardware smallImage smallMap 2 16384 smallFound smallRetyped = .ok (pics', k') ∧
    (viewAfter smallHardware.handlers smallImage smallMap 16384 smallTyped).session.entered =
      [text "alloc 5000", text "next"] ∧
    k.getkeymapentry = k'.getkeymapentry ∧
    k.shell.console.screens.sbCurrent = k'.shell.console.screens.sbCurrent ∧ k.sent = k'.sent ∧
    ∃ pool, Represents k.buddy k.mem pool ∧ Represents k'.buddy k'.mem pool := by
  obtain ⟨safe, keys, view⟩ := small_typed
  obtain ⟨safe', keys', view'⟩ := small_retyped
  obtain ⟨pics, k, ran⟩ := exists_small_run safe
  obtain ⟨pics', k', ran'⟩ := exists_small_run safe'
  exact ⟨pics, pics', k, k', ran, ran', congrArg (fun v => v.session.entered) view,
    kernelMain_lines smallHardware smallFound small_held small_mapped.room smallFound ran ran'
      (by rw [view, view'])⟩

end Nulix.Kernel
