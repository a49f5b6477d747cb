import Nulix.Kernel.Running
import Nulix.Keyboard.Typing

/-!
# The kernel as its user sees it

A `View` is what there is to know of the kernel from outside: what the keyboard sent, what was typed and the
resources that commands work on. A poll changes it by way of the character that is typed, with no console,
no buffers and no bitmaps. `kernel_main` refines this machine over every sequence of polls, and stops exactly
where it says that a poll is not safe.
-/

namespace Nulix.Kernel

open Fallible Keyboard Kpm Nsh Nulix.Std OrTree Print Screen Strings

/-! ## Views -/

structure View where
  keys : Stream
  session : Nsh.Session
  resources : Resources

namespace View

variable (nframes : Nat) (null : Text) (v : View)

/-- What the line under way asks for. -/
def asks : Command := command null (words v.session.line)

/-- A character is typed. -/
def type (c : BitVec 8) : View :=
  if c = 0x0a then
    { v with
      session := { entered := v.session.entered ++ [v.session.line], line := [] }
      resources := (v.asks null).effect nframes v.resources }
  else { v with session := { v.session with line := edit v.session.line c } }

/-- The character that the byte of a poll types, as a list. -/
def types (p : Poll) : Text := v.keys.types v.resources.layout p.data

/-- A poll. -/
def poll (p : Poll) : View :=
  if kbdPoll p = 0 then v else (v.types p).foldl (type nframes null) { v with keys := v.keys.read p.data }

end View

/-- The kernel gets through the poll. -/
def View.Safe (maps : Nat → Prop) (b : Buddy) (null : Text) (v : View) (p : Poll) : Prop :=
  kbdPoll p = 0 ∨ KnownByte v.keys.prefixed p.data ∧ (0x0a ∈ v.types p → (v.asks null).Safe maps b)

/-! ## The dispatch -/

variable {b : Buddy} {B : Set Nat} {m₀ : Mem}

/-- A function looks at two strings at most. -/
theorem commandOf_congr {argc : Nat} {arg arg' : Nat → Text} (first : arg 1 = arg' 1)
    (second : arg 2 = arg' 2) (f : BuiltinFn) : commandOf argc arg f = commandOf argc arg' f := by
  cases f <;> simp only [commandOf, first, second]

section

variable {v : Resources} {k₀ k : Globals} (hw : Hardware)

/-- The loop of `nsh_execcmd` over entries that all have names. -/
theorem nshExeccmdFrom_find {table : List Builtin} (ok : Commands table) {word : Text}
    (nonzero : ∀ c ∈ word, c ≠ 0) (rest : List Builtin) :
    nshExeccmdFrom hw word k (table ++ rest) =
      match table.find? fun e => e.name = some word with
      | some e =>
        match e.exec with
        | some f => do
          let (_, k) ← (f.program k.shell.nshCmdnarg).run (handle hw) k
          return k
        | none => .error (.shell .nullCall)
      | none => nshExeccmdFrom hw word k rest := by
  induction table with
  | nil => rfl
  | cons e table ih =>
    obtain ⟨name, named, nonzero'⟩ := ok.name e List.mem_cons_self
    have equal := strcmp_eq_zero_iff nonzero nonzero'
    have later : Commands table :=
      ⟨fun e mem => ok.name e (List.mem_cons_of_mem _ mem),
        fun e mem => ok.exec e (List.mem_cons_of_mem _ mem),
        ok.apart.tail⟩
    rw [List.cons_append, nshExeccmdFrom, List.find?_cons, named, Option.getD_some]
    by_cases here : word = name
    · rewrite [if_pos (equal.mpr here), here, decide_eq_true rfl]
      obtain ⟨_, _ | f⟩ := e <;> rfl
    · have other : ¬name = word := fun same => here same.symm
      rw [if_neg (equal.not.mpr here)]
      simp only [Option.some_inj, other, decide_false]
      exact ih later

variable (setUp : SetUp b B m₀) (running : Running b B m₀ k₀ v k)

include setUp running

/-- The first word is dispatched as its command says. -/
theorem nshExeccmdFrom_when {word : Text} {ws : List Text} (nonzero : ∀ c ∈ word, c ≠ 0)
    (argc : k₀.shell.nshCmdnarg = (word :: ws).length)
    (args : ∀ j, j < 3 → given k₀.shell m₀ j = (word :: ws).getD j (nullText m₀)) :
    ReturnsWhen ((command (nullText m₀) (word :: ws)).Safe hw.Maps b)
        (nshExeccmdFrom hw word k builtin) fun k' =>
      Running b B m₀ k₀ ((command (nullText m₀) (word :: ws)).effect b.nframes v) k' := by
  obtain ⟨console, shell⟩ := running.shell
  have count : k.shell.nshCmdnarg = (word :: ws).length := by rw [shell, argc]
  rw [builtin_eq, nshExeccmdFrom_find hw commands_ok nonzero, command]
  cases found : commands.find? fun e => e.name = some word with
  | some e =>
    have function := commands_ok.exec e (List.mem_of_find?_eq_some found)
    obtain ⟨name, _ | f⟩ := e
    · exact absurd rfl function
    · have same : commandOf (word :: ws).length (given k₀.shell m₀) f =
          commandOf (word :: ws).length (fun j => (word :: ws).getD j (nullText m₀)) f := by
        refine commandOf_congr ?_ ?_ f
        · exact args 1 (by decide)
        · exact args 2 (by decide)
      dsimp only
      rw [← same, count]
      exact (obeys hw setUp running f).bind fun r after => .ok after
  | none =>
    have null := setUp.nullText_eq running.memory
    have nonzero' : ∀ c ∈ nullText m₀, c ≠ 0 := fun c mem => ne_zero_of_mem_contents mem
    have equal := strcmp_eq_zero_iff nonzero nonzero'
    rw [nshExeccmdFrom, Option.getD_none, null]
    by_cases isNull : word = nullText m₀
    · rw [if_pos (equal.mpr isNull), if_pos isNull]
      exact .error _ not_false
    · rw [if_neg (equal.not.mpr isNull), if_neg isNull]
      exact Returns.when (.ok (running.onConsole (f := kprintf _ _) ((Stays.refl _).kprintf _ _))) trivial

end

/-! ## Lines -/

/-- What was printed since the last prompt shows the line. -/
def Echoes (s : Shell) (line : Text) : Prop := ∃ before, InStep (before ++ text "nsh$ ") s line

theorem Echoes.newline (s : Shell) : Echoes (nshNewline s) [] := by
  have literal : kprintfText (text "nsh$ ") [] = text "nsh$ " :=
    kprintfText_literal (by decide) (by decide) (by decide)
  have printed : (nshNewline s).console.printed = s.console.printed ++ text "nsh$ " := by
    rw [← literal]
    rfl
  exact ⟨s.console.printed, printed ▸ InStep.newline s⟩

/-- The globals are those of the view. -/
structure Shows (b : Buddy) (B : Set Nat) (m₀ : Mem) (v : View) (k : Globals) : Prop where
  keys : Tracks v.keys (k.evt, k.kbd)
  session : Follows v.session k.shell
  echo : Echoes k.shell v.session.line
  running : Running b B m₀ k v.resources k

/-- The shell works on its own globals, between two commands. -/
theorem Running.onShell {v : Resources} {k₀ k : Globals} (running : Running b B m₀ k₀ v k) {t : Shell}
    (stays : Stays k.shell.console t.console) :
    Running b B m₀ { k with shell := t } v { k with shell := t } :=
  { running with
    shell := ⟨t.console, rfl⟩
    keys := ⟨rfl, rfl⟩
    screen := stays.current.trans running.screen
    count := stays.count.trans running.count }

section

variable {v : Nsh.Session} {s s₁ t : Shell}

/-- The arguments are the words of the line, and behind them the string at address 0. -/
theorem given_eq (follows : Follows v s) (cmd : s₁.nshCmd = s.nshCmd) (split : Tokenized s₁ v.line t)
    {j : Nat} (small : j < 128) : given t m₀ j = (words v.line).getD j (nullText m₀) := by
  rcases Nat.lt_or_ge j (words v.line).length with below | above
  · obtain ⟨p, pointer, word⟩ := split.word j below
    rw [given, pointer, List.getD_eq_getElem _ _ below]
    exact word
  · have null : t.nshCmd j = none := by
      rw [split.kept j above, cmd]
      exact follows.cleared j small
    rw [given, null, List.getD_eq_default _ _ above]

variable {r : Resources} {k₀ k : Globals} (hw : Hardware)

/-- `nsh_execcmd` on the words of a line. -/
theorem nshExeccmd_when (setUp : SetUp b B m₀) (follows : Follows v s) (cmd : s₁.nshCmd = s.nshCmd)
    (split : Tokenized s₁ v.line k₀.shell) (running : Running b B m₀ k₀ r k) :
    ReturnsWhen ((command (nullText m₀) (words v.line)).Safe hw.Maps b) (nshExeccmd hw k) fun k' =>
      Running b B m₀ k₀ ((command (nullText m₀) (words v.line)).effect b.nframes r) k' := by
  have args : ∀ j, j < 3 → given k₀.shell m₀ j = (words v.line).getD j (nullText m₀) := fun j small =>
    given_eq follows cmd split (Nat.lt_trans small (by decide))
  obtain ⟨console, shell⟩ := running.shell
  have first : k.shell.nshCmd 0 = k₀.shell.nshCmd 0 := by rw [shell]
  unfold nshExeccmd
  rw [first]
  cases line : words v.line with
  | nil =>
    have null : k₀.shell.nshCmd 0 = none := by
      rw [split.kept 0 (by rw [line]; exact Nat.zero_le 0), cmd]
      exact follows.cleared 0 (by decide)
    rw [null]
    exact Returns.when (.ok running) trivial
  | cons w ws =>
    obtain ⟨p, pointer, word⟩ := split.word 0 (by rw [line]; exact Nat.zero_lt_succ _)
    have same : k.shell.word p = w := by
      have head : k₀.shell.word p = w := by
        rw [word]
        simp only [line]
        rfl
      rw [← head, shell]
      rfl
    have nonzero : ∀ c ∈ w, c ≠ 0 := fun c mem => ne_zero_of_mem_contents (same ▸ mem)
    have argc : k₀.shell.nshCmdnarg = (w :: ws).length := by rw [split.count, line]
    rw [line] at args
    rw [pointer]
    dsimp only
    rw [same]
    exact nshExeccmdFrom_when hw setUp running nonzero argc args

end

/-! ## Characters -/

section

variable {c : Console} {s : Shell}

theorem Stays.nshNewline (stays : Stays c s.console) : Stays c (nshNewline s).console :=
  ((stays.onCurrent _).kprintf _ _).onCurrent _

theorem Stays.nshComplete (stays : Stays c s.console) (name : Text) :
    Stays c (nshComplete name s).console := by
  unfold Nsh.nshComplete
  dsimp only
  split
  · rw [(nshFill_frame _ _).2]
    exact stays.kprintf _ _
  · exact stays

theorem Stays.nshCompletions (stays : Stays c s.console) (table : List Builtin) :
    Stays c (nshCompletions table s).console := by
  induction table generalizing s with
  | nil => exact stays
  | cons e table ih =>
    unfold Nsh.nshCompletions
    split
    · exact stays
    · exact ih (stays.nshComplete _)

theorem Stays.nshShortcut (stays : Stays c s.console) (key : ShortcutKey) :
    Stays c (nshShortcut key s).console := by
  cases key with
  | cursorUp => exact stays.onCurrent _
  | cursorDown => exact stays.onCurrent _
  | pageDown => exact stays.onCurrent _
  | pageUp => exact stays.onCurrent _
  | other => exact stays

/-- Characters that do not end the line. -/
theorem Stays.nshAddchar (stays : Stays c s.console) {machine : Machine} {char : BitVec 8}
    (sameLine : char ≠ 0x0a) : Ensures (Nsh.nshAddchar machine char s) fun s' => Stays c s'.console := by
  have scrolled : Stays c (s.onCurrent sbScrollDown).console := stays.onCurrent _
  unfold Nsh.nshAddchar
  dsimp only
  rw [if_neg sameLine]
  split_ifs
  · exact .ok (scrolled.kprintf _ _)
  · exact .ok scrolled
  · exact .ok scrolled
  · exact .ok (scrolled.nshCompletions builtin)
  · exact .ok (scrolled.kprintf _ _)
  · exact .ok scrolled

end

variable {v : View} {k : Globals} (hw : Hardware)

/-- The enter key: the line is dispatched, and a new one begins. -/
theorem Shows.enter (setUp : SetUp b B m₀) (shows : Shows b B m₀ v k) :
    ReturnsWhen ((v.asks (nullText m₀)).Safe hw.Maps b) (nshAddchar hw 0x0a k)
      (Shows b B m₀ (v.type b.nframes (nullText m₀) 0x0a)) := by
  obtain ⟨keys, follows, -, running⟩ := shows
  have printed : Editing ((k.shell.onCurrent sbScrollDown).print (text "\n") []) v.session.line :=
    (follows.editing.onCurrent sbScrollDown).print _ _
  have stays : Stays k.shell.console ((k.shell.onCurrent sbScrollDown).print (text "\n") []).console :=
    ((Stays.refl _).onCurrent _).kprintf _ _
  have cmd : ((k.shell.onCurrent sbScrollDown).print (text "\n") []).nshCmd = k.shell.nshCmd := rfl
  have index : ((k.shell.onCurrent sbScrollDown).print (text "\n") []).nshBufindex = k.shell.nshBufindex :=
    rfl
  unfold nshAddchar View.type
  rw [if_pos rfl, if_pos rfl]
  generalize (k.shell.onCurrent sbScrollDown).print (text "\n") [] = s₁ at printed stays cmd index
  dsimp only
  by_cases some : s₁.nshBufindex ≠ 0
  · rw [if_pos some]
    refine Returns.bind_when ((nshCreatecmd_tokenized printed.lineBuffer).mapError _) fun t split => ?_
    have onTokens := running.onShell (t := t) (split.console ▸ stays)
    refine (nshExeccmd_when hw setUp follows cmd split onTokens).bind fun k' after => .ok ?_
    obtain ⟨console, shell⟩ := after.shell
    have same : k'.shell.nshCmd = t.nshCmd := by rw [shell]
    refine ⟨?_, follows.prompt (fun j below => ?_) fun j above => ?_, .newline _, ?_⟩
    · exact after.keys.1 ▸ after.keys.2 ▸ keys
    · obtain ⟨p, pointer, -⟩ := split.word j below
      rw [same, pointer]
      exact Option.some_ne_none p
    · rw [same, split.kept j above, cmd]
    · exact after.onShell (Stays.refl _).nshNewline
  · rw [if_neg some]
    have empty := follows.line_empty (index ▸ some)
    have nothing : v.asks (nullText m₀) = .nothing := by
      rw [View.asks, empty]
      rfl
    rw [nothing]
    refine Returns.when (.ok ⟨keys, follows.prompt (fun j below => ?_) fun j _ => ?_, .newline _, ?_⟩) trivial
    · rw [empty] at below
      cases below
    · rw [cmd]
    · exact running.onShell stays.nshNewline

/-- A character of the line. -/
theorem Shows.edits (shows : Shows b B m₀ v k) {c : BitVec 8} (nonzero : c ≠ 0) (sameLine : c ≠ 0x0a) :
    Returns (nshAddchar hw c k) (Shows b B m₀ (v.type b.nframes (nullText m₀) c)) := by
  obtain ⟨keys, follows, ⟨before, inStep⟩, running⟩ := shows
  unfold nshAddchar View.type
  rw [if_neg sameLine, if_neg sameLine]
  have edited := (nshAddchar_edits { atNull := nullText k.mem, exec := fun _ _ _ s => .ok s } nonzero sameLine
    follows.editing).and_ensures ((Stays.refl _).nshAddchar sameLine)
  refine (edited.mapError _).bind fun t ⟨edits, stays⟩ =>
    .ok ⟨keys, ⟨edits.editing, ?_, ?_⟩, ⟨before, inStep.edits edits⟩, ?_⟩
  · rw [edits.cmd]
    exact follows.cleared
  · rw [edits.cmd]
    exact follows.kept
  · exact running.onShell stays

/-- A key without a character. -/
theorem Shows.shortcut (shows : Shows b B m₀ v k) (key : ShortcutKey) :
    Shows b B m₀ v { k with shell := nshShortcut key k.shell } := by
  obtain ⟨keys, ⟨⟨index, short, plain, holds⟩, cleared, kept⟩, ⟨before, -, echo⟩, running⟩ := shows
  refine ⟨keys, ?_, ⟨before, ?_, ?_⟩, running.onShell ((Stays.refl _).nshShortcut key)⟩
  · unfold nshShortcut
    cases key <;> exact ⟨⟨index, short, plain, holds⟩, cleared, kept⟩
  · unfold nshShortcut
    cases key <;> exact ⟨index, short, plain, holds⟩
  · unfold nshShortcut
    cases key <;> exact echo

/-- A character of the keyboard. -/
theorem Shows.char (setUp : SetUp b B m₀) (shows : Shows b B m₀ v k) {c : BitVec 8} (nonzero : c ≠ 0) :
    ReturnsWhen (c = 0x0a → (v.asks (nullText m₀)).Safe hw.Maps b) (nshAddchar hw c k)
      (Shows b B m₀ (v.type b.nframes (nullText m₀) c)) := by
  by_cases ends : c = 0x0a
  · rw [ends, forall_prop_of_true rfl]
    exact shows.enter hw setUp
  · exact (shows.edits hw nonzero ends).when fun end' => absurd end' ends

/-! ## Polls -/

/-- What the kernel does behind `KBD_geteventbytype`, in a view that has the key already. -/
theorem Shows.turn (setUp : SetUp b B m₀) (shows : Shows b B m₀ v k) {l : Text}
    (typed : l = if v.keys.char v.resources.layout k.evt.key ≠ 0 then
      [v.keys.char v.resources.layout k.evt.key] else []) :
    ReturnsWhen (0x0a ∈ l → (v.asks (nullText m₀)).Safe hw.Maps b) (nshTurn hw k)
      (Shows b B m₀ (l.foldl (View.type b.nframes (nullText m₀)) v)) := by
  have char : kbdGetchar (k.getkeymapentry.map Layout.keymap) k.evt k.kbd.modifiers =
      .ok (v.keys.char v.resources.layout k.evt.key) := by
    rw [shows.running.layout]
    exact shows.keys.getchar v.resources.layout
  unfold nshTurn
  rw [char]
  generalize v.keys.char v.resources.layout k.evt.key = c at typed
  rw [typed]
  show ReturnsWhen _ (if c ≠ 0 then nshAddchar hw c k else .ok _) _
  by_cases some : c ≠ 0
  · rw [if_pos some, if_pos some, List.mem_singleton, eq_comm]
    exact shows.char hw setUp some
  · rw [if_neg some, if_neg some]
    exact Returns.when (.ok (shows.shortcut _)) nofun

/-- One poll. -/
theorem Shows.poll (setUp : SetUp b B m₀) (shows : Shows b B m₀ v k) (p : Poll) :
    ReturnsWhen (v.Safe hw.Maps b (nullText m₀) p) (pollTurn hw p k)
      (Shows b B m₀ (v.poll b.nframes (nullText m₀) p)) := by
  unfold pollTurn View.poll View.Safe
  by_cases none : kbdPoll p = 0
  · rw [if_pos none, if_pos none]
    exact Returns.when (.ok shows) (.inl none)
  rw [if_neg none, if_neg none, or_iff_right none]
  have reads : ReturnsWhen (KnownByte v.keys.prefixed p.data) (kbdGetevent p.data k.evt k.kbd) fun r =>
      Tracks (v.keys.read p.data) r.2 ∧
        ∀ key, v.keys.pressed p.data = some key ↔ r.1 = 0 ∧ r.2.1.type = .keyPressed ∧ r.2.1.key = key := by
    refine ⟨shows.keys.getevent, fun unknown => ?_⟩
    cases read : kbdGetevent p.data k.evt k.kbd with
    | error e => exact ⟨e, rfl⟩
    | ok r => exact absurd ((kbdGetevent_returns_iff k.evt shows.keys.2).mp ⟨r, read⟩) unknown
  refine (reads.mapError Stop.keyboard).bind_when fun r => ?_
  rintro ⟨tracks, pressed⟩
  obtain ⟨r, evt, kbd⟩ := r
  dsimp only at tracks pressed ⊢
  have after : Shows b B m₀ { v with keys := v.keys.read p.data } { k with evt := evt, kbd := kbd } :=
    ⟨tracks, shows.session, shows.echo, { shows.running with keys := ⟨rfl, rfl⟩ }⟩
  split
  · next press =>
    have key := (pressed evt.key).mpr ⟨press.1, press.2, rfl⟩
    refine after.turn hw setUp ?_
    unfold View.types Stream.types
    rw [key]
  · next other =>
    have noKey : v.keys.pressed p.data = Option.none := by
      refine Option.eq_none_iff_forall_ne_some.mpr fun key press => other ?_
      obtain ⟨zero, type, -⟩ := (pressed key).mp press
      exact ⟨zero, type⟩
    have silent : v.types p = [] := by
      unfold View.types Stream.types
      rw [noKey]
    rw [silent]
    exact Returns.when (.ok after) nofun

/-- All polls. -/
theorem Shows.nsh (setUp : SetUp b B m₀) (ps : List Poll)
    (shows : Shows b B m₀ v { k with shell := nshNewline k.shell }) :
    ReturnsWhen (AllSafe (View.poll b.nframes (nullText m₀)) (View.Safe hw.Maps b (nullText m₀)) v ps)
      (nsh hw ps k) (Shows b B m₀ (ps.foldl (View.poll b.nframes (nullText m₀)) v)) := by
  have steps : ∀ p v k, Shows b B m₀ v k → ReturnsWhen (v.Safe hw.Maps b (nullText m₀) p) (pollTurn hw p k)
      (Shows b B m₀ (v.poll b.nframes (nullText m₀) p)) := fun p v k shows => shows.poll hw setUp p
  have run := runAll_when (Shows b B m₀) steps ps shows
  rw [nsh_eq]
  exact run

/-! ## From the start -/

/-- The string at address 0 that `init_descriptor_tables` leaves. -/
def Handlers.atNull (h : Handlers) : Text :=
  ([h.divideErrorHandler.extractLsb' 0 8, h.divideErrorHandler.extractLsb' 8 8, 0x08] :
    List (BitVec 8)).takeWhile (· ≠ 0)

/-- `kpm_init` gets through the map: it ends, and what is available lies in memory. -/
def Readable (b : Buddy) (entries : List MmapEntry) : Prop :=
  (∃ e ∈ entries, e.size = 0) ∧ ∀ e ∈ availableEntries entries, e.Fits b

variable {img : KernelImage} {entries : List MmapEntry} {count memkb : Nat}

theorem kpmInit_when (held : img.Held (kpmInitBuddy img.ek memkb))
    (room : kpmInitAddr img.ek + (kpmInitBuddy img.ek memkb).size ≤ 2 ^ 32) (m : Mem) :
    ReturnsWhen (Readable (kpmInitBuddy img.ek memkb) entries) (kpmInit img entries count memkb m) fun r =>
      r.1 = kpmInitBuddy img.ek memkb ∧
        Represents r.1 r.2 (bootPool img (kpmInitBuddy img.ek memkb) entries) ∧
        SameOutside (img.bitmaps r.1) m r.2 := by
  constructor
  · rintro ⟨ends, fits⟩
    obtain ⟨⟨b, m₀⟩, init, same, books⟩ := kpmInit_represents held ends fits
    have outside := kpm_session_outside room init [] rfl
    exact ⟨_, init, same, books, outside⟩
  · intro unreadable
    cases init : kpmInit img entries count memkb m with
    | error e => exact ⟨e, rfl⟩
    | ok r =>
      refine absurd ⟨?_, kpmInit_fits init⟩ unreadable
      obtain ⟨m', loop, -⟩ := bind_eq_ok init
      exact kpmInitEntries_ends loop

/-- The memory behind `kernel_main`'s setup. -/
theorem setUp_kpmInit (img : KernelImage) {memkb : Nat}
    (room : kpmInitAddr img.ek + (kpmInitBuddy img.ek memkb).size ≤ 2 ^ 32)
    (h : Handlers) (m : Mem) :
    SetUp (kpmInitBuddy img.ek memkb) (img.bitmaps (kpmInitBuddy img.ek memkb))
      (initDescriptorTables h m).1 where
  laid := laid_kpmInitBuddy _ _
  confined := confined_kpmInitBuddy room
  ends := initDescriptorTables_third h m
  low := by
    intro a small inside
    have above : sizeofBuddy ≤ a := (Nat.le_add_left _ _).trans inside.1
    have size : 4 ≤ sizeofBuddy := by decide
    omega

section

variable (h : Handlers) (img : KernelImage) (entries : List MmapEntry) (memkb : Nat) (ps : List Poll)

/-- The kernel before the first poll. -/
def viewStart : View where
  keys := { events := [], prefixed := false }
  session := { entered := [], line := [] }
  resources :=
    { layout := .us104
      screen := 0
      pool := bootPool img (kpmInitBuddy img.ek memkb) entries
      sent := [] }

/-- The kernel after the polls. -/
def viewAfter : View :=
  ps.foldl (View.poll (kpmInitBuddy img.ek memkb).nframes h.atNull) (viewStart img entries memkb)

/-- The kernel gets through all polls. -/
def SafePolls : Prop :=
  AllSafe (View.poll (kpmInitBuddy img.ek memkb).nframes hw.handlers.atNull)
    (View.Safe hw.Maps (kpmInitBuddy img.ek memkb) hw.handlers.atNull) (viewStart img entries memkb) ps

end

variable (found : Found) (ps : List Poll)

/-- `kernel_main` refines the view, and goes on exactly as long as the polls are safe in it. -/
theorem kernelMain_when (held : img.Held (kpmInitBuddy img.ek memkb))
    (room : kpmInitAddr img.ek + (kpmInitBuddy img.ek memkb).size ≤ 2 ^ 32) :
    ReturnsWhen
      (Readable (kpmInitBuddy img.ek memkb) entries ∧ SafePolls hw img entries memkb ps)
      (kernelMain hw img entries count memkb found ps) fun r =>
        r.1 = started found.pics ∧
          Shows (kpmInitBuddy img.ek memkb) (img.bitmaps (kpmInitBuddy img.ek memkb))
            (initDescriptorTables hw.handlers found.mem).1
            (viewAfter hw.handlers img entries memkb ps) r.2 := by
  have setUp := setUp_kpmInit img room hw.handlers found.mem
  have null := nullText_eq hw.handlers found.mem
  unfold kernelMain
  refine ((kpmInit_when held room _).mapError Stop.kpm).bind_when fun r => ?_
  obtain ⟨b, m₀⟩ := r
  rintro ⟨rfl, books, outside⟩
  dsimp only at books outside ⊢
  refine ReturnsWhen.bind (P := Shows _ _ _ _) ?_ fun k shows => .ok ⟨rfl, shows⟩
  unfold SafePolls viewAfter Handlers.atNull
  rw [← null]
  refine Shows.nsh hw setUp ps ⟨.start found.evt, .start _, .newline _, ?_⟩
  exact
    { shell := ⟨_, rfl⟩
      keys := ⟨rfl, rfl⟩
      gdtp := rfl
      idtp := rfl
      layout := rfl
      screen := rfl
      count := rfl
      exists_screen := (by decide : (0 : Int) ≤ 0 ∧ 0 < screens)
      buddy := rfl
      pool := books
      memory := outside
      sent := rfl }

/-! ## Typing -/

section

variable {maps : Nat → Prop} {null : Text}

/-- The controller has a byte. -/
def Poll.byte (sc : BitVec 8) : Poll := { status := 1, data := sc }

/-- Characters of the line change the line alone. -/
theorem foldl_type (nframes : Nat) (null : Text) {l : Text} (sameLine : 0x0a ∉ l) (v : View) :
    l.foldl (View.type nframes null) v =
      { v with session := { v.session with line := l.foldl edit v.session.line } } := by
  induction l generalizing v with
  | nil => rfl
  | cons c l ih =>
    rw [List.mem_cons, not_or, eq_comm] at sameLine
    rw [List.foldl_cons, ih sameLine.2, View.type, if_neg sameLine.1]
    rfl

theorem poll_byte (nframes : Nat) (null : Text) (v : View) (sc : BitVec 8) :
    v.poll nframes null (Poll.byte sc) =
      (v.keys.types v.resources.layout sc).foldl (View.type nframes null) { v with keys := v.keys.read sc } :=
  if_neg (by decide : ¬(1 : BitVec 8) &&& 1 = 0)

/-- A stream that types a text without an end of a line types it into the line under way. -/
theorem polls_of_stream {bytes : List (BitVec 8)} {l : Text} {s s' : KbdEvent × KbdState}
    (tracks : Tracks v.keys s) (typed : kbdTypeStream v.resources.layout bytes s = .ok (l, s'))
    (sameLine : 0x0a ∉ l) :
    AllSafe (View.poll b.nframes null) (View.Safe maps b null) v (bytes.map Poll.byte) ∧
      (bytes.map Poll.byte).foldl (View.poll b.nframes null) v =
        { keys := bytes.foldl Stream.read v.keys
          session := { v.session with line := l.foldl edit v.session.line }
          resources := v.resources } ∧
      Tracks (bytes.foldl Stream.read v.keys) s' := by
  induction bytes generalizing v l s with
  | nil =>
    cases typed
    exact ⟨.nil, rfl, tracks⟩
  | cons sc bytes ih =>
    obtain ⟨⟨now, s₁⟩, first, rest⟩ := bind_eq_ok typed
    obtain ⟨⟨later, s₂⟩, second, assigned⟩ := bind_eq_ok rest
    cases assigned
    obtain ⟨read, tracks'⟩ := tracks.typeByte first
    have known : KnownByte v.keys.prefixed sc := by
      obtain ⟨r, event, -⟩ := bind_eq_ok first
      exact (kbdGetevent_returns_iff s.1 tracks.2).mp ⟨r, event⟩
    dsimp only at read
    rw [read, List.mem_append, not_or] at sameLine
    have safe : v.Safe maps b null (Poll.byte sc) := .inr ⟨known, fun ends => absurd ends sameLine.1⟩
    let next : View :=
      { keys := v.keys.read sc
        session := { v.session with line := (v.keys.types v.resources.layout sc).foldl edit v.session.line }
        resources := v.resources }
    obtain ⟨safe', led, tracks''⟩ := ih (v := next) tracks' second sameLine.2
    rw [List.map_cons, allSafe_cons, List.foldl_cons, poll_byte, foldl_type _ _ sameLine.1, List.foldl_append,
      read, List.foldl_cons]
    exact ⟨⟨safe, safe'⟩, led, tracks''⟩

/-- A byte that types the character of the enter key. -/
theorem poll_of_enter {sc : BitVec 8} {s s' : KbdEvent × KbdState} (tracks : Tracks v.keys s)
    (typed : kbdTypeByte v.resources.layout sc s = .ok ([0x0a], s')) (safe : (v.asks null).Safe maps b) :
    v.Safe maps b null (Poll.byte sc) ∧
      v.poll b.nframes null (Poll.byte sc) =
        { keys := v.keys.read sc
          session := { entered := v.session.entered ++ [v.session.line], line := [] }
          resources := (v.asks null).effect b.nframes v.resources } ∧
      Tracks (v.keys.read sc) s' := by
  obtain ⟨types, tracks'⟩ := tracks.typeByte typed
  have known : KnownByte v.keys.prefixed sc := by
    obtain ⟨r, event, -⟩ := bind_eq_ok typed
    exact (kbdGetevent_returns_iff s.1 tracks.2).mp ⟨r, event⟩
  refine ⟨.inr ⟨known, fun _ => safe⟩, ?_, tracks'⟩
  rw [poll_byte, ← types]
  rfl

/-- A stream that types a line, and the enter key. -/
theorem polls_of_line {bytes : List (BitVec 8)} {sc : BitVec 8} {l line : Text}
    {s s' s'' : KbdEvent × KbdState} (tracks : Tracks v.keys s)
    (typed : kbdTypeStream v.resources.layout bytes s = .ok (l, s'))
    (ends : kbdTypeByte v.resources.layout sc s' = .ok ([0x0a], s'')) (sameLine : 0x0a ∉ l)
    (edited : l.foldl edit v.session.line = line) (safe : (command null (words line)).Safe maps b) :
    AllSafe (View.poll b.nframes null) (View.Safe maps b null) v ((bytes ++ [sc]).map Poll.byte) ∧
      ((bytes ++ [sc]).map Poll.byte).foldl (View.poll b.nframes null) v =
        { keys := (bytes ++ [sc]).foldl Stream.read v.keys
          session := { entered := v.session.entered ++ [line], line := [] }
          resources := (command null (words line)).effect b.nframes v.resources } ∧
      Tracks ((bytes ++ [sc]).foldl Stream.read v.keys) s'' := by
  obtain ⟨safe', led, tracks'⟩ : AllSafe (View.poll b.nframes null) (View.Safe maps b null) v
      (bytes.map Poll.byte) ∧ _ ∧ _ := polls_of_stream tracks typed sameLine
  rw [edited] at led
  obtain ⟨last, entered, tracks''⟩ := poll_of_enter (v := ⟨_, ⟨v.session.entered, line⟩, v.resources⟩)
    tracks' ends safe
  rw [List.map_append, allSafe_append, List.foldl_append, led, List.foldl_append]
  exact ⟨⟨safe', allSafe_cons.mpr ⟨last, .nil⟩⟩, entered, tracks''⟩

end

/-! ## A machine -/

/-- A kernel that ends at 0xC0112345. -/
def smallImage : KernelImage := ⟨0xC0112345, by decide, by decide⟩

/-- The map of a machine with 16 MiB. -/
def smallMap : List MmapEntry := [⟨20, 0x0, 0x9fc00, 1⟩, ⟨20, 0x100000, 0xee0000, 1⟩, ⟨0, 0, 0, 0⟩]

def smallHardware : Hardware := ⟨fun _ => 0, 0, 0, ⟨0, 0, 0, 0, 0, 0⟩, 0, ⟨0, 0, 0, 0, 0⟩, fun _ => 0⟩

def smallFound : Found :=
  { mem := fun _ => 0
    pics := ⟨⟨.ready, 0, 0, 0, 0⟩, ⟨.ready, 0, 0, 0, 0⟩⟩
    sb := fun _ => .zero
    vga := .zero
    evt := ⟨.keyReleased, .unknown⟩ }

theorem small_held : smallImage.Held (kpmInitBuddy smallImage.ek 16384) := ⟨by decide, by decide⟩

theorem small_mapped : smallImage.Mapped (kpmInitBuddy smallImage.ek 16384) := ⟨by decide, by decide⟩

theorem small_readable : Readable (kpmInitBuddy smallImage.ek 16384) smallMap :=
  ⟨⟨⟨0, 0, 0, 0⟩, by decide, rfl⟩, by unfold MmapEntry.Fits; decide⟩

/-- The bytes of two lines, with the enter key behind each. -/
def twoLines (first second : List (BitVec 8)) : List Poll :=
  ((first ++ [0x1C]) ++ (second ++ [0x1C])).map Poll.byte

/-- The keys of `alloc 5000` and of `next`. -/
def smallTyped : List Poll :=
  twoLines [0x1E, 0x26, 0x26, 0x18, 0x2E, 0x39, 0x06, 0x0B, 0x0B, 0x0B] [0x31, 0x12, 0x2D, 0x14]

/-- The same lines with releases, a digit that is erased again and a completion. -/
def smallRetyped : List Poll :=
  twoLines [0x1E, 0x9E, 0x26, 0xA6, 0x26, 0x18, 0x2E, 0x39, 0x06, 0x0B, 0x8B, 0x0B, 0x0B, 0x0B, 0x0E]
    [0x31, 0xB1, 0x12, 0x0F]

/-- Two pages are taken, and the second screen is shown. -/
def smallResources : Resources :=
  Command.next.effect (kpmInitBuddy smallImage.ek 16384).nframes
    ((Command.alloc 5000).effect (kpmInitBuddy smallImage.ek 16384).nframes
      (viewStart smallImage smallMap 16384).resources)

/-- Below 640 KiB the first page is kept back, and no other. -/
theorem small_free {f : Nat} (low : f < 159) :
    f ∈ (viewStart smallImage smallMap 16384).resources.pool.free ↔ f ≠ 0 := by
  have nframes : (kpmInitBuddy smallImage.ek 16384).nframes = 4096 := by decide
  have base : smallImage.buddyBase / 4096 = 0x113 := by decide
  have mapped : f ∈ mapFrames (kpmInitBuddy smallImage.ek 16384) smallMap := by
    refine mem_mapFrames.mpr ⟨⟨20, 0x0, 0x9fc00, 1⟩, by decide, ?_⟩
    show f ∈ regionFrames (kpmInitBuddy smallImage.ek 16384) 0 159
    rw [regionFrames, Finset.mem_Ico, nframes]
    omega
  show f ∈ mapFrames _ smallMap \ smallImage.reservedFrames _ ↔ _
  rw [Finset.mem_sdiff, and_iff_right mapped, KernelImage.reservedFrames, Finset.mem_union, Finset.mem_union,
    regionFrames, regionFrames, regionFrames, Finset.mem_Ico, Finset.mem_Ico, Finset.mem_Ico, nframes, base, sk]
  omega

/-- The two pages are the third and the fourth. -/
theorem smallResources_pool : smallResources.pool =
    (viewStart smallImage smallMap 16384).resources.pool.take {2, 3} := by
  have nframes : (kpmInitBuddy smallImage.ek 16384).nframes = 4096 := by decide
  have pair : block 1 1 = {2, 3} := by decide
  have picked : pick 4096 (viewStart smallImage smallMap 16384).resources.pool 2 = some (1, 1) := by
    have first : (List.range (4096 / 2 ^ 1)).find? (fun i => block 1 i ⊆
        (viewStart smallImage smallMap 16384).resources.pool.free) = some 1 := by
      rw [List.find?_range_eq_some]
      refine ⟨?_, List.mem_range.mpr (by decide), ?_⟩
      · rw [decide_eq_true_iff, pair, Finset.insert_subset_iff, Finset.singleton_subset_iff,
          small_free (by decide), small_free (by decide)]
        decide
      · intro i earlier
        obtain rfl : i = 0 := by omega
        have zero : 0 ∈ block 1 0 := by decide
        simpa using fun whole : block 1 0 ⊆ _ => (small_free (by decide)).mp (whole zero) rfl
    rw [pick, first]
  have order : findBestFitOrder 5000 + 1 = 2 := by decide
  have whole : 5000 ≤ blockSize 1 := by decide
  have turn (nframes turns : Nat) (p : Pool Nat) (picked : pick nframes p 2 = some (1, 1)) :
      obtain nframes (turns + 1) 5000 p = p.take (block 1 1) := by
    rw [obtain, if_neg (by decide), order, picked]
    exact if_pos whole
  rw [← nframes] at picked
  dsimp only [smallResources, Command.effect]
  rw [turn _ _ _ picked, pair]

/-- Bytes that type the two lines. -/
theorem small_session (l l' : Text) {first second : List (BitVec 8)} {s s' t t' : KbdEvent × KbdState}
    (typed : kbdTypeStream .us104 first (smallFound.evt, kbdSt) = .ok (l, s))
    (ends : kbdTypeByte .us104 0x1C s = .ok ([0x0a], s'))
    (edited : 0x0a ∉ l ∧ l.foldl edit [] = text "alloc 5000")
    (typed' : kbdTypeStream .us104 second s' = .ok (l', t))
    (ends' : kbdTypeByte .us104 0x1C t = .ok ([0x0a], t'))
    (edited' : 0x0a ∉ l' ∧ l'.foldl edit [] = text "next") :
    SafePolls smallHardware smallImage smallMap 16384 (twoLines first second) ∧
      ∃ keys, viewAfter smallHardware.handlers smallImage smallMap 16384 (twoLines first second) =
        { keys := keys
          session := { entered := [text "alloc 5000", text "next"], line := [] }
          resources := smallResources } := by
  have null : smallHardware.handlers.atNull = [] := by decide
  have alloc : command [] (words (text "alloc 5000")) = .alloc 5000 := by decide
  have next : command [] (words (text "next")) = .next := by decide
  let b := kpmInitBuddy smallImage.ek 16384
  let v := viewStart smallImage smallMap 16384
  let v' : View :=
    { keys := (first ++ [0x1C]).foldl Stream.read v.keys
      session := { entered := [text "alloc 5000"], line := [] }
      resources := (Command.alloc 5000).effect b.nframes v.resources }
  have safe : (command [] (words (text "alloc 5000"))).Safe smallHardware.Maps b := alloc ▸ trivial
  have safe' : (command [] (words (text "next"))).Safe smallHardware.Maps b := next ▸ trivial
  have layout : v'.resources.layout = .us104 := rfl
  obtain ⟨all, led, tracks⟩ := polls_of_line (v := v) (.start _) typed ends edited.1 edited.2 safe
  rw [alloc] at led
  obtain ⟨all', led', -⟩ := polls_of_line (v := v') tracks (layout ▸ typed') (layout ▸ ends') edited'.1
    edited'.2 safe'
  rw [next] at led'
  have after : ((first ++ [0x1C]).map Poll.byte).foldl (View.poll b.nframes []) v = v' := led
  rw [twoLines, SafePolls, viewAfter, null, List.map_append, allSafe_append, List.foldl_append]
  show (_ ∧ AllSafe _ _ (((first ++ [0x1C]).map Poll.byte).foldl (View.poll b.nframes []) v) _) ∧
    ∃ keys, List.foldl _ (((first ++ [0x1C]).map Poll.byte).foldl (View.poll b.nframes []) v) _ = _
  rw [after]
  exact ⟨⟨all, all'⟩, _, led'⟩

theorem small_typed : SafePolls smallHardware smallImage smallMap 16384 smallTyped ∧
    ∃ keys, viewAfter smallHardware.handlers smallImage smallMap 16384 smallTyped =
      { keys := keys
        session := { entered := [text "alloc 5000", text "next"], line := [] }
        resources := smallResources } :=
  small_session (text "alloc 5000") (text "next") rfl rfl (by decide) rfl rfl (by decide)

theorem small_retyped : SafePolls smallHardware smallImage smallMap 16384 smallRetyped ∧
    ∃ keys, viewAfter smallHardware.handlers smallImage smallMap 16384 smallRetyped =
      { keys := keys
        session := { entered := [text "alloc 5000", text "next"], line := [] }
        resources := smallResources } :=
  small_session (text "alloc 50000" ++ [0x08]) (text "ne\t") rfl rfl (by decide) rfl rfl (by decide)

/-! ## Every sequence of polls -/

/-- **How long the kernel runs.** On an image whose allocator lies in the 4 MiB that are mapped for the
kernel, `kernel_main` gets through the map of memory and a sequence of polls if and only if the map ends and
lies in memory and each poll is safe in the view: a byte that the tables of the keyboard know, and at the end
of a line a command that is safe there. -/
theorem kernelMain_returns_iff (held : img.Held (kpmInitBuddy img.ek memkb))
    (mapped : img.Mapped (kpmInitBuddy img.ek memkb)) :
    (∃ r, kernelMain hw img entries count memkb found ps = .ok r) ↔
      Readable (kpmInitBuddy img.ek memkb) entries ∧ SafePolls hw img entries memkb ps :=
  (kernelMain_when hw found ps held mapped.room).returns_iff

/-- The kernel gets through `alloc 5000` and `next`. -/
theorem kernelMain_returns_iff_typed :
    SafePolls smallHardware smallImage smallMap 16384 smallTyped ∧
    ((∃ r, kernelMain smallHardware smallImage smallMap 2 16384 smallFound smallTyped = .ok r) ↔
      Readable (kpmInitBuddy smallImage.ek 16384) smallMap ∧
        SafePolls smallHardware smallImage smallMap 16384 smallTyped) :=
  ⟨small_typed.1, kernelMain_returns_iff smallHardware smallFound smallTyped small_held small_mapped⟩

/-- A byte at the end of the 4 MiB can be shown, and no more. -/
example (b : Buddy) : (command [] (words (text "hexdump 0x3fffff 1"))).Safe smallHardware.Maps b ∧
    ¬(command [] (words (text "hexdump 0x3fffff 2"))).Safe smallHardware.Maps b := by
  have one : command [] (words (text "hexdump 0x3fffff 1")) = .dump 0x3fffff 1 := by decide
  have two : command [] (words (text "hexdump 0x3fffff 2")) = .dump 0x3fffff 2 := by decide
  rw [one, two]
  show (∀ i, i < 1 → smallHardware.Maps (Words.u32 (0x3fffff + i))) ∧
    ¬∀ i, i < 2 → smallHardware.Maps (Words.u32 (0x3fffff + i))
  decide +kernel

/-- **The kernel refines its view.** After any polls that it gets through, the interrupt controllers are as
they were started, the memory of the descriptor tables and the bitmaps differs from what
`init_descriptor_tables` left in the bitmaps only, and the keyboard, the shell, the layout, the screen, the
pool and the ports are those of the view. -/
theorem kernelMain_refines (held : img.Held (kpmInitBuddy img.ek memkb))
    (mapped : img.Mapped (kpmInitBuddy img.ek memkb)) {pics : Pics} {k : Globals}
    (ran : kernelMain hw img entries count memkb found ps = .ok (pics, k)) :
    pics = started found.pics ∧
      Shows (kpmInitBuddy img.ek memkb) (img.bitmaps (kpmInitBuddy img.ek memkb))
        (initDescriptorTables hw.handlers found.mem).1 (viewAfter hw.handlers img entries memkb ps) k :=
  (kernelMain_when hw found ps held mapped.room).of_eq_ok ran

/-- The small machine gets through `alloc 5000` and `next`. -/
theorem exists_small_run {ps : List Poll} (safe : SafePolls smallHardware smallImage smallMap 16384 ps) :
    ∃ pics k, kernelMain smallHardware smallImage smallMap 2 16384 smallFound ps = .ok (pics, k) := by
  obtain ⟨⟨pics, k⟩, ran, -⟩ :=
    (kernelMain_when smallHardware smallFound ps small_held small_mapped.room).1 ⟨small_readable, safe⟩
  exact ⟨pics, k, ran⟩

/-- After `alloc 5000` and `next`. -/
theorem kernelMain_refines_typed : ∃ pics k keys,
    kernelMain smallHardware smallImage smallMap 2 16384 smallFound smallTyped = .ok (pics, k) ∧
    viewAfter smallHardware.handlers smallImage smallMap 16384 smallTyped =
      ⟨keys, { entered := [text "alloc 5000", text "next"], line := [] }, smallResources⟩ ∧
    smallResources.pool = (viewStart smallImage smallMap 16384).resources.pool.take {2, 3} ∧
    pics = started smallFound.pics ∧
    Shows (kpmInitBuddy smallImage.ek 16384) (smallImage.bitmaps (kpmInitBuddy smallImage.ek 16384))
      (initDescriptorTables smallHardware.handlers smallFound.mem).1
      (viewAfter smallHardware.handlers smallImage smallMap 16384 smallTyped) k := by
  obtain ⟨safe, keys, view⟩ := small_typed
  obtain ⟨pics, k, ran⟩ := exists_small_run safe
  exact ⟨pics, k, keys, ran, view, smallResources_pool,
    kernelMain_refines smallHardware smallFound smallTyped small_held small_mapped ran⟩

end Nulix.Kernel
