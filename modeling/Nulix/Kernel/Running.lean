import Nulix.Kernel.Basic
import Nulix.Kernel.Commands
import Nulix.Kpm.Isolation

/-!
# The builtins on the resources

Every builtin function, run on the globals of the kernel, does to them what its command does to the
resources, and prints. It stops the kernel exactly where the command is not safe.
-/

namespace Nulix.Kernel

open Effects Fallible Keyboard Kpm Nsh Nulix.Std Print Screen Strings Words

/-! ## The allocator -/

variable {b : Buddy} {B : Set Nat} {m₀ : Mem}

/-- There are as many turns as frames. -/
theorem card_free_lt {m : Mem} {p : Pool Nat} (rep : Represents b m p) : p.free.card < b.nframes + 1 := by
  refine Nat.lt_succ_of_le ((Finset.card_le_card fun f free => ?_).trans (Finset.card_range _).le)
  exact Finset.mem_range.mpr (rep.bound f (p.free_sub free))

/-- The loop of `alloc` takes from the pool what `obtain` does. -/
theorem allocLoopFrom_obtain (laid : Laid b) (oldcolor : BitVec 8) {turns size : Nat} {s : AllocLoop}
    {p : Pool Nat} (rep : Represents b s.mem p) (enough : p.free.card < turns) :
    Returns (allocLoopFrom b oldcolor turns size s) fun r =>
      Represents b r.2.mem (obtain b.nframes turns size p) := by
  induction turns generalizing size s p with
  | zero => cases enough
  | succ turns ih =>
    unfold allocLoopFrom obtain
    by_cases none : size = 0
    · rw [if_neg (by omega), if_pos none]
      exact .ok rep
    rw [if_pos (Nat.pos_of_ne_zero none), if_neg none]
    have allocates : Returns (kpmAlloc b size s.mem) (Picks b s.mem p (findBestFitOrder size + 1)) :=
      (kpmAlloc_outcome laid rep size).mono fun r outcome => outcome.picks
    refine allocates.bind fun r picks => ?_
    unfold Picks at picks
    cases picked : pick b.nframes p (findBestFitOrder size + 1) with
    | none =>
      rw [picked] at picks
      cases picks
      exact .ok rep
    | some oi =>
      obtain ⟨o, i⟩ := oi
      rw [picked] at picks
      obtain ⟨c, m⟩ := r
      obtain ⟨chunk, taken⟩ := picks
      cases chunk
      dsimp only
      by_cases last : size ≤ blockSize o
      · rw [if_pos last, if_pos last]
        exact .ok taken
      · rw [if_neg last, if_neg last]
        have free := (pick_some picked).free
        have fewer := Pool.card_free_take free
        have there := Finset.card_le_card free
        have some : 0 < 2 ^ o := Nat.two_pow_pos o
        rw [OrTree.card_block] at fewer there
        exact ih taken (by omega)

/-- `alloc_loop` gets through, with a turn for each frame and one more. -/
theorem allocLoop_obtain (laid : Laid b) (size : Nat) {s : AllocLoop} {p : Pool Nat}
    (rep : Represents b s.mem p) :
    Returns (allocLoop b (b.nframes + 1) size s) fun r =>
      Represents b r.2.mem (obtain b.nframes (b.nframes + 1) size p) := by
  have rep' : Represents b (AllocLoop.mem { s.onCurrent (sbSetFg .green) with obtained := [] }) p := rep
  exact allocLoopFrom_obtain laid s.console.getColor rep' (card_free_lt rep)

/-- The loop stores into the bitmaps and prints. -/
theorem allocLoopFrom_keeps (confined : Confined b B) (oldcolor : BitVec 8) {c : Console}
    (turns size : Nat) {s : AllocLoop} (same : SameOutside B m₀ s.mem) (stays : Stays c s.console) :
    Ensures (allocLoopFrom b oldcolor turns size s) fun r =>
      SameOutside B m₀ r.2.mem ∧ Stays c r.2.console := by
  induction turns generalizing size s with
  | zero => exact .error _
  | succ turns ih =>
    unfold allocLoopFrom
    split
    · refine (kpmAllocFrom_outside confined same _).bind fun r same' => ?_
      obtain ⟨_ | chunk, m⟩ := r
      · exact .ok ⟨same', stays.onCurrent _⟩
      · have printed : Stays c (AllocLoop.obtain chunk { s with mem := m }).console :=
          stays.kprintf _ _
        dsimp only
        split
        · exact .ok ⟨same', printed.onCurrent _⟩
        · exact ih _ same' printed
    · exact .ok ⟨same, stays.onCurrent _⟩

/-! ## Globals and resources -/

theorem next_current (s : Screens) :
    s.next.sbCurrent = (if s.sbCurrent + 1 = s.sbNbscreen then 0 else s.sbCurrent + 1) ∧
      s.next.sbNbscreen = s.sbNbscreen := by
  unfold Screens.next
  dsimp only
  split
  · next last => exact ⟨(if_pos last).symm, rfl⟩
  · next other => exact ⟨(if_neg other).symm, rfl⟩

theorem prev_current (s : Screens) :
    s.prev.sbCurrent = (if s.sbCurrent - 1 < 0 then s.sbNbscreen - 1 else s.sbCurrent - 1) ∧
      s.prev.sbNbscreen = s.sbNbscreen := by
  unfold Screens.prev
  dsimp only
  split
  · next first => exact ⟨(if_pos first).symm, rfl⟩
  · next other => exact ⟨(if_neg other).symm, rfl⟩

/-- What the kernel was set up with: the structure `b`, with its bitmaps at addresses of `B`, and memory
where the string at address 0 ends before the fourth byte. -/
structure SetUp (b : Buddy) (B : Set Nat) (m₀ : Mem) : Prop where
  laid : Laid b
  confined : Confined b B
  ends : m₀ 3 = 0
  low : ∀ a, a < 4 → a ∉ B

/-- The globals hold the resources `v`, and a command is at work that was called with the globals `k₀`. -/
structure Running (b : Buddy) (B : Set Nat) (m₀ : Mem) (k₀ : Globals) (v : Resources) (k : Globals) :
    Prop where
  shell : ∃ console, k.shell = { k₀.shell with console := console }
  keys : k.evt = k₀.evt ∧ k.kbd = k₀.kbd
  gdtp : k.gdtp = { limit := .ofNat 16 (8 * Gdt.gdtSize), base := Gdt.gdtBaseAddress }
  idtp : k.idtp = { limit := .ofNat 16 (8 * 256), base := .ofNat 32 idt }
  layout : k.getkeymapentry = some v.layout
  screen : k.shell.console.screens.sbCurrent = v.screen
  count : k.shell.console.screens.sbNbscreen = screens
  exists_screen : 0 ≤ v.screen ∧ v.screen < screens
  buddy : k.buddy = b
  pool : Represents b k.mem v.pool
  memory : SameOutside B m₀ k.mem
  sent : k.sent = v.sent

/-- The string `argv[j]` of a command in the shell `s`. -/
def given (s : Shell) (m₀ : Mem) (j : Nat) : Text :=
  match s.nshCmd j with
  | some p => s.word p
  | none => nullText m₀

theorem given_nonzero (s : Shell) (m₀ : Mem) (j : Nat) : ∀ c ∈ given s m₀ j, c ≠ 0 := by
  intro c mem
  unfold given at mem
  split at mem
  · exact ne_zero_of_mem_contents mem
  · exact ne_zero_of_mem_contents mem

section

variable {v : Resources} {k₀ k : Globals}

/-- Nobody writes to the string at address 0. -/
theorem SetUp.nullText_eq (setUp : SetUp b B m₀) {m : Mem} (same : SameOutside B m₀ m) :
    nullText m = nullText m₀ := by
  have kept : ∀ a, a < 4 → m a = m₀ a := fun a small => same a (setUp.low a small)
  have short : ∀ m : Mem, m 3 = 0 → nullText m = contents m 3 := fun m zero =>
    contents_of_zero zero (by decide)
  rw [short m ((kept 3 (by decide)).trans setUp.ends), short m₀ setUp.ends]
  exact contents_congr fun i inside => kept i (by omega)

namespace Running

variable (running : Running b B m₀ k₀ v k)

include running

theorem argv (setUp : SetUp b B m₀) (j : Nat) : k.argv j = given k₀.shell m₀ j := by
  obtain ⟨console, shell⟩ := running.shell
  rw [Globals.argv, given, shell, setUp.nullText_eq running.memory]
  rfl

theorem shell_onConsole (f : Console → Console) :
    ∃ console, (k.onConsole f).shell = { k₀.shell with console := console } := by
  obtain ⟨console, shell⟩ := running.shell
  exact ⟨f console, by rw [Globals.onConsole, shell]⟩

theorem onConsole {f : Console → Console} (stays : Stays k.shell.console (f k.shell.console)) :
    Running b B m₀ k₀ v (k.onConsole f) :=
  { running with
    shell := running.shell_onConsole f
    screen := stays.current.trans running.screen
    count := stays.count.trans running.count }

end Running

/-! ## Quiet programs -/

/-- Of the dump too nothing goes to another screen. -/
theorem Stays.hxLoop {c c' : Console} {turn : HxLoop → HxLoop}
    (turns : ∀ t, Stays c t.console → Stays c (turn t).console) (stays : Stays c c') (nbytes : Nat) :
    Stays c (hxLoop turn nbytes c') := by
  unfold Nsh.hxLoop
  generalize nbytesLine = n
  have start : Stays c (HxLoop.console ⟨0, nbytes, c'⟩) := stays
  generalize (⟨0, nbytes, c'⟩ : HxLoop) = t at start
  induction n generalizing t with
  | zero => exact start
  | succ n ih => exact ih _ (turns t start)

theorem Stays.hxColumn {c : Console} (m : Mem) (base : Nat) (t : HxLoop) (stays : Stays c t.console) :
    Stays c (hxColumn m base t).console := by
  unfold Nsh.hxColumn
  have gap : Stays c (if t.i % 2 = 0 then Print.kprintf (text " ") [] t.console else t.console) := by
    split
    · exact stays.kprintf _ _
    · exact stays
  dsimp only
  split
  · exact ((gap.onCurrent _).kprintf _ _).onCurrent _
  · exact gap.kprintf _ _

theorem Stays.hxChar {c : Console} (m : Mem) (base : Nat) (t : HxLoop) (stays : Stays c t.console) :
    Stays c (hxChar m base t).console := by
  unfold Nsh.hxChar
  dsimp only
  split
  · split_ifs
    · exact ((stays.onCurrent _).kprintf _ _).onCurrent _
    · exact ((stays.onCurrent _).kprintf _ _).onCurrent _
    · exact ((stays.onCurrent _).kprintf _ _).onCurrent _
  · exact stays.kprintf _ _

theorem Stays.hxPrintline {c c' : Console} (stays : Stays c c') (m : Mem) (base nbytes : Nat) :
    Stays c (hxPrintline m base nbytes c') := by
  have columns := (stays.kprintf (text "%8p: ") [.int (.ofNat 32 base)]).hxLoop
    (Stays.hxColumn m base) nbytes
  have bar := (columns.onCurrent (sbSetFg cInactive)).kprintf (text "  |") []
  exact (bar.hxLoop (Stays.hxChar m base) nbytes).kprintf _ _

theorem Stays.hxLines {c c' : Console} (stays : Stays c c') (m : Mem) (base size : Nat) :
    Stays c (hxLines m base size c').2.2 := by
  induction base, size, c' using Nsh.hxLines.induct m with
  | case1 base size c' more ih =>
    rw [Nsh.hxLines, if_pos more]
    exact ih (stays.hxPrintline m base nbytesLine)
  | case2 base size c' last =>
    rw [Nsh.hxLines, if_neg last]
    exact stays

theorem Stays.hxPrint {c c' : Console} (stays : Stays c c') (m : Mem) (base size : Nat) :
    Stays c (hxPrint m base size c') := by
  have lines := ((stays.onCurrent (sbSetColor sbDflColor)).onCurrent (sbSetFg cInactive)).hxLines m base size
  unfold Nsh.hxPrint
  dsimp only
  refine Stays.onCurrent ?_ _
  split
  · exact lines.hxPrintline m _ _
  · exact lines

/-- The operation prints, or reads what it is given. -/
def Quiet : BuiltinOp → Prop
  | .argv _ | .kprintf _ _ | .screens (.current _) | .infoGdt | .infoStack | .infoIdt | .infoRegisters
  | .infoBuddy _ | .waitInput | .hlt => True
  | .int n => n = 0 ∨ n = 4
  | _ => False

/-- The strings of `argv` are these. -/
def Told (arg : Nat → Text) : (op : BuiltinOp) → op.Answer → Prop
  | .argv j, w => w = arg j
  | _, _ => True

variable (hw : Hardware)

theorem Running.quietOp (setUp : SetUp b B m₀) (running : Running b B m₀ k₀ v k) {op : BuiltinOp}
    (quiet : Quiet op) : ∃ r, handle hw op k = .ok r ∧ Told (given k₀.shell m₀) op r.1 ∧
      Running b B m₀ k₀ v r.2 := by
  have stays := Stays.refl k.shell.console
  -- the result is named, as the function of `onConsole` cannot be found by unification
  have prints {f : Console → Console} (kept : Stays k.shell.console (f k.shell.console)) :
      ∃ r, (.ok ((), k.onConsole f) : Except Stop (Unit × Globals)) = .ok r ∧ True ∧
        Running b B m₀ k₀ v r.2 :=
    ⟨((), k.onConsole f), rfl, trivial, running.onConsole kept⟩
  cases op with
  | argv j => exact ⟨(k.argv j, k), rfl, running.argv setUp j, running⟩
  | kprintf fmt ap => exact prints (f := kprintf fmt ap) (stays.kprintf fmt ap)
  | screens op =>
    cases op with
    | current op => exact prints (f := fun c => c.onCurrent op.run) (stays.onCurrent op.run)
    | next => cases quiet
    | prev => cases quiet
  | infoGdt => exact prints (f := infoGdt k.gdtp k.mem) (stays.infoGdt k.gdtp k.mem)
  | infoStack => exact prints (f := infoStack hw) (stays.infoStack hw)
  | infoIdt => exact prints (f := infoIdt k.idtp) (stays.infoIdt k.idtp)
  | infoRegisters => exact prints (f := infoRegisters hw) (stays.infoRegisters hw)
  | infoBuddy order =>
    exact prints (f := infoBuddy k.buddyAddr k.buddy k.mem order)
      (stays.infoBuddy k.buddyAddr k.buddy k.mem order)
  | int n =>
    rcases quiet with rfl | rfl
    · exact prints (f := divideErrorHandler hw) (stays.divideErrorHandler hw)
    · exact prints (f := overflowHandler hw) (stays.overflowHandler hw)
  | waitInput => exact ⟨((), k), rfl, trivial, running⟩
  | hlt => exact ⟨((), k), rfl, trivial, running⟩
  | allocLoop size => cases quiet
  | kpmFree chunk => cases quiet
  | hxPrint base size => cases quiet
  | kbdSetkeymap layout => cases quiet
  | portWriteU8 port value => cases quiet
  | portWriteU16 port value => cases quiet
  | fault e => cases quiet

/-- A program of quiet operations comes to its end and leaves the resources as they are. -/
theorem Running.quiet (setUp : SetUp b B m₀) (running : Running b B m₀ k₀ v k) {α : Type}
    {x : BuiltinM α} {Q : α → Prop} (always : x.Always (Told (given k₀.shell m₀)) Quiet Q) :
    Returns (x.run (handle hw) k) fun r => Q r.1 ∧ Running b B m₀ k₀ v r.2 := by
  have answers : ∀ op k, Quiet op → Running b B m₀ k₀ v k → ∃ r, handle hw op k = .ok r ∧
      Told (given k₀.shell m₀) op r.1 ∧ Running b B m₀ k₀ v r.2 :=
    fun _ _ quiet running => running.quietOp hw setUp quiet
  exact always.run_returns answers running

end

section

variable (arg : Nat → Text) (argc : Int)

attribute [local simp] Builtin.kprintf Builtin.argv Builtin.argvIs Builtin.onCurrent Builtin.call
  Prog.always_ite Quiet Told

/-- The parsers get through every string. -/
theorem always_parsed {r : Except StrtoFault (BitVec 32 × Nat)} {Q : BitVec 32 × Nat → Prop}
    (returns : Returns r Q) : (Builtin.parsed r).Always (Told arg) Quiet Q := by
  obtain ⟨v, rfl, holds⟩ := returns
  exact holds

theorem colorFrom_quiet (set : SbColor → SbOp) (colors : List (Text × SbColor)) :
    (Builtin.colorFrom set colors).Always (Told arg) Quiet fun _ => True := by
  induction colors with
  | nil => simp [Builtin.colorFrom]
  | cons color colors ih => simp [Builtin.colorFrom, ih]

theorem color_quiet : (Builtin.color argc).Always (Told arg) Quiet fun _ => True := by
  simp [Builtin.color, Builtin.colorUsage, colorFrom_quiet]

theorem infoBuddy_quiet : (Builtin.infoBuddy argc).Always (Told arg) Quiet fun _ => True := by
  have parses := strto_signed limits32 (arg 2) (.inl rfl)
  by_cases order : argc > 2
  · simp only [Builtin.infoBuddy, if_pos order, Prog.always_bind, Builtin.argv, Builtin.call,
      Prog.always_call, Told]
    refine ⟨trivial, fun w told => ?_⟩
    rw [told]
    exact always_parsed arg (parses.mono fun v _ => by simp)
  · simp [Builtin.infoBuddy, order]

theorem info_quiet : (Builtin.info argc).Always (Told arg) Quiet fun _ => True := by
  simp [Builtin.info, infoBuddy_quiet]

theorem helpFrom_quiet (entries : List (Option Text × Text)) :
    (Builtin.helpFrom entries).Always (Told arg) Quiet fun _ => True := by
  induction entries with
  | nil => simp [Builtin.helpFrom]
  | cons entry entries ih =>
    obtain ⟨_ | name, description⟩ := entry
    · simp [Builtin.helpFrom]
    · simp [Builtin.helpFrom, ih]

end

/-! ## Programs -/

section

variable {v : Resources} {k₀ k : Globals} (hw : Hardware)

/-- The function `f`, called with the globals `k₀`, does to the globals what its command does to the
resources, and goes on exactly if the command is safe. -/
def Obeys (b : Buddy) (B : Set Nat) (m₀ : Mem) (k₀ : Globals) (v : Resources) (k : Globals) (argc : Nat)
    (f : BuiltinFn) : Prop :=
  ReturnsWhen ((commandOf argc (given k₀.shell m₀) f).Safe hw.Maps b)
    ((f.program argc).run (handle hw) k) fun r =>
    Running b B m₀ k₀ ((commandOf argc (given k₀.shell m₀) f).effect b.nframes v) r.2

variable (setUp : SetUp b B m₀) (running : Running b B m₀ k₀ v k) {argc : Nat}

include setUp running

/-- Functions whose command is nothing. -/
theorem obeys_quiet {f : BuiltinFn} (nothing : commandOf argc (given k₀.shell m₀) f = .nothing)
    (always : (f.program argc).Always (Told (given k₀.shell m₀)) Quiet fun _ => True) :
    Obeys hw b B m₀ k₀ v k argc f := by
  unfold Obeys
  rw [nothing]
  exact ((running.quiet hw setUp always).mono fun r after => after.2).when trivial

theorem run_argvIs (j : Nat) {name : Text} (nonzero : ∀ c ∈ name, c ≠ 0) :
    (Builtin.argvIs j name).run (handle hw) k = .ok (decide (given k₀.shell m₀ j = name), k) := by
  have equal := strcmp_eq_zero_iff (given_nonzero k₀.shell m₀ j) nonzero
  rw [← running.argv setUp j] at equal ⊢
  simp only [Builtin.argvIs, Builtin.argv, Builtin.call, Prog.run_bind, Prog.run_call, handle]
  show Except.ok (decide (strcmp (k.argv j) name = 0), k) = _
  simp only [equal]

theorem run_argv (j : Nat) : (Builtin.argv j).run (handle hw) k = .ok (given k₀.shell m₀ j, k) := by
  rw [Builtin.argv, Builtin.call, Prog.run_call, ← running.argv setUp j]
  rfl

theorem run_kprintf (fmt : Text) (ap : List VaArg) :
    Returns ((Builtin.kprintf fmt ap).run (handle hw) k) fun r => Running b B m₀ k₀ v r.2 := by
  have always : (Builtin.kprintf fmt ap).Always (Told (given k₀.shell m₀)) Quiet fun _ => True :=
    ⟨trivial, fun _ _ => trivial⟩
  exact (running.quiet hw setUp always).mono fun r after => after.2

/-- A message, and no more. -/
theorem complains {c : Command} (nothing : c = .nothing) (fmt : Text) (ap : List VaArg) (result : Int) :
    ReturnsWhen (c.Safe hw.Maps b) ((do
      Builtin.kprintf fmt ap
      pure result : BuiltinM Int).run (handle hw) k) fun r =>
        Running b B m₀ k₀ (c.effect b.nframes v) r.2 := by
  rw [nothing, Prog.run_bind]
  refine ((run_kprintf hw setUp running fmt ap).bind fun r after => ?_).when trivial
  exact .ok after

/-- A word that is read: a message if it is not what it is read as, and else the rest. -/
theorem reads {c : Command} {α : Type} {number : Option α} {value : BitVec 32 → α}
    {parse : Except StrtoFault (BitVec 32 × Nat)} {bad : BitVec 32 × Nat → Prop} [DecidablePred bad]
    (parses : Returns parse fun r => number = if bad r then none else some (value r.1))
    (nothing : number = none → c = .nothing) {fmt : Text} {ap : List VaArg} {result : Int}
    {rest : BitVec 32 × Nat → BuiltinM Int}
    (goes : ∀ r, ¬bad r → number = some (value r.1) →
      ReturnsWhen (c.Safe hw.Maps b) ((rest r).run (handle hw) k) fun r =>
        Running b B m₀ k₀ (c.effect b.nframes v) r.2) :
    ReturnsWhen (c.Safe hw.Maps b) ((do
      let r ← Builtin.parsed parse
      if bad r then
        Builtin.kprintf fmt ap
        pure result
      else rest r : BuiltinM Int).run (handle hw) k) fun r =>
        Running b B m₀ k₀ (c.effect b.nframes v) r.2 := by
  obtain ⟨r, rfl, isNumber⟩ := parses
  show ReturnsWhen _ ((if bad r then _ else rest r : BuiltinM Int).run (handle hw) k) _
  by_cases stops : bad r
  · rw [if_pos stops] at isNumber ⊢
    exact complains hw setUp running (nothing isNumber) fmt ap result
  · rw [if_neg stops] at isNumber ⊢
    exact goes r stops isNumber

theorem handle_allocLoop (size : Nat) :
    Returns (handle hw (.allocLoop size) k) fun r =>
      Running b B m₀ k₀ { v with pool := obtain b.nframes (b.nframes + 1) size v.pool } r.2 := by
  have stays : Stays k.shell.console (k.shell.console.onCurrent (sbSetFg .green)) :=
    (Stays.refl _).onCurrent _
  have obtains := allocLoop_obtain (s := ⟨k.mem, k.shell.console, ⟨0, 0⟩, []⟩) setUp.laid size running.pool
  have keeps := allocLoopFrom_keeps setUp.confined k.shell.console.getColor (b.nframes + 1) size
    (s := ⟨k.mem, k.shell.console.onCurrent (sbSetFg .green), ⟨0, 0⟩, []⟩) running.memory stays
  have loop := obtains.and_ensures keeps
  rw [← running.buddy] at loop ⊢
  refine (loop.mapError Stop.kpm).bind fun r after => .ok ?_
  obtain ⟨pool, memory, stays⟩ := after
  obtain ⟨console, shell⟩ := running.shell
  refine { running with
    shell := ⟨r.2.console, by rw [shell]⟩
    screen := stays.current.trans running.screen
    count := stays.count.trans running.count
    buddy := rfl
    pool := pool
    memory := memory }

theorem obeys_alloc : Obeys hw b B m₀ k₀ v k argc .alloc := by
  unfold Obeys BuiltinFn.program Builtin.alloc
  by_cases few : argc < 2
  · rw [if_pos (by omega)]
    exact complains hw setUp running (by simp only [commandOf, if_pos few]) _ _ _
  have few' : ¬(argc : Int) < 2 := by omega
  rw [if_neg few', Prog.run_bind, run_argv hw setUp running, ok_bind]
  refine reads hw setUp running (strtol_count (given_nonzero k₀.shell m₀ 1)) (fun none => ?_)
    fun n _ isCount => ?_
  · simp only [commandOf, if_neg few, none]
  have allocates : commandOf argc (given k₀.shell m₀) .alloc = .alloc n.1.toNat := by
    simp only [commandOf, if_neg few, isCount]
  rw [allocates, Prog.run_bind]
  refine ((run_kprintf hw setUp running _ _).bind fun r after => ?_).when trivial
  rw [Prog.run_bind, Builtin.call, Prog.run_call]
  refine (handle_allocLoop hw setUp after _).bind fun r after => ?_
  split
  · rw [Prog.run_bind]
    exact (run_kprintf hw setUp after _ _).bind fun r after => .ok after
  · exact .ok after

theorem handle_kpmFree {c : KpmChunk} (word : c.addr < 2 ^ 32) (size : c.size < 2 ^ 31) :
    ReturnsWhen (Freeable b c) (handle hw (.kpmFree c) k) fun r =>
      Running b B m₀ k₀ { v with pool := freed v.pool c } r.2 := by
  have outside := kpmFree_outside setUp.confined c running.memory
  have frees : ReturnsWhen (Freeable b c) (kpmFree b c k.mem) fun m =>
      Represents b m (freed v.pool c) ∧ SameOutside B m₀ m :=
    ⟨fun freeable => (kpmFree_freed setUp.laid running.pool word freeable).and_ensures outside,
      fun stops => not_freeable word (by omega) stops k.mem⟩
  rw [← running.buddy] at frees ⊢
  refine (frees.mapError Stop.kpm).bind fun m after => .ok ?_
  exact { running with buddy := rfl, pool := after.1, memory := after.2 }

theorem obeys_free : Obeys hw b B m₀ k₀ v k argc .free := by
  unfold Obeys BuiltinFn.program Builtin.free
  by_cases few : argc < 2
  · rw [if_pos (by omega)]
    exact complains hw setUp running (by simp [commandOf, few]) _ _ _
  have few' : ¬(argc : Int) < 2 := by omega
  rw [if_neg few', Prog.run_bind, run_argv hw setUp running, ok_bind]
  refine reads hw setUp running (strtol_number (given_nonzero k₀.shell m₀ 1)) (fun none => ?_)
    fun addr _ isNumber => ?_
  · simp only [commandOf, none, ite_self]
  have head : (given k₀.shell m₀ 1).getD 0 0 = 0x2d ↔ (given k₀.shell m₀ 1).head? = some 0x2d := by
    cases given k₀.shell m₀ 1 with
    | nil => exact iff_of_false (by decide) nofun
    | cons c w => exact Option.some_inj.symm
  rw [Prog.run_bind, run_argv hw setUp running, ok_bind]
  by_cases minus : (given k₀.shell m₀ 1).head? = some 0x2d
  · rw [if_pos (head.mpr minus)]
    exact complains hw setUp running (if_pos (.inr minus)) _ _ _
  have here : ¬(argc < 2 ∨ (given k₀.shell m₀ 1).head? = some 0x2d) := not_or.mpr ⟨few, minus⟩
  rw [if_neg (head.not.mpr minus), Builtin.freeSized, Prog.run_bind, run_argv hw setUp running, ok_bind]
  refine reads hw setUp running (strtol_count (given_nonzero k₀.shell m₀ 2)) (fun none => ?_)
    fun size good isCount => ?_
  · simp only [commandOf, if_neg here, isNumber, none]
  have small : size.1.toNat < 2 ^ 31 := by
    have positive : ¬size.1.toInt < 0 := fun negative => good (.inr (by simpa [BitVec.slt] using negative))
    rw [BitVec.toInt_eq_toNat_cond] at positive
    split at positive <;> omega
  have frees : commandOf argc (given k₀.shell m₀) .free =
      .free { addr := addr.1.toNat, size := size.1.toNat } := by
    simp only [commandOf, if_neg here, isNumber, isCount, address_toInt]
  rw [frees, Builtin.freeChunk, Builtin.call, Prog.run_bind, Prog.run_call]
  exact (handle_kpmFree hw setUp running addr.1.isLt small).bind fun r after => .ok after

omit setUp in
/-- The dump is printed where it can be read. -/
theorem handle_hxPrint (addr size : Nat) :
    ReturnsWhen (Command.Safe hw.Maps b (.dump addr size)) (handle hw (.hxPrint addr size) k) fun r =>
      Running b B m₀ k₀ v r.2 := by
  have stays := (Stays.refl k.shell.console).hxPrint k.mem addr size
  rw [handle]
  by_cases mapped : ∀ i, i < size → hw.Maps (u32 (addr + i))
  · rw [if_pos mapped]
    exact Returns.when (.ok (running.onConsole (f := hxPrint k.mem addr size) stays)) mapped
  · rw [if_neg mapped]
    exact .error _ mapped

theorem obeys_hexdump : Obeys hw b B m₀ k₀ v k argc .hexdump := by
  unfold Obeys BuiltinFn.program Builtin.hexdump
  by_cases few : argc < 3
  · rw [if_pos (by omega)]
    exact complains hw setUp running (by simp only [commandOf, if_pos few]) _ _ _
  have few' : ¬(argc : Int) < 3 := by omega
  rw [if_neg few', Prog.run_bind, run_argv hw setUp running, ok_bind]
  refine reads hw setUp running (strtoul_unsigned (given_nonzero k₀.shell m₀ 1)) (fun none => ?_)
    fun addr _ isAddress => ?_
  · simp only [commandOf, if_neg few, none]
  rw [Prog.run_bind, run_argv hw setUp running, ok_bind]
  refine reads hw setUp running (strtoul_unsigned (given_nonzero k₀.shell m₀ 2)) (fun none => ?_)
    fun size _ isSize => ?_
  · simp only [commandOf, if_neg few, isAddress, none]
  have dumps : commandOf argc (given k₀.shell m₀) .hexdump = .dump addr.1.toNat size.1.toNat := by
    simp only [commandOf, if_neg few, isAddress, isSize]
  rw [dumps, Prog.run_bind, Builtin.call, Prog.run_call]
  exact (handle_hxPrint hw running addr.1.toNat size.1.toNat).bind fun r after => .ok after

/-- The loop of `keymap` sets the first layout of the name. -/
theorem keymapFrom_sets {layouts : List (Text × Layout)} (names : ∀ l ∈ layouts, ∀ c ∈ l.1, c ≠ 0) :
    Returns ((Builtin.keymapFrom layouts).run (handle hw) k) fun r =>
      Running b B m₀ k₀
        (match layouts.find? fun l => l.1 = given k₀.shell m₀ 1 with
          | some (_, layout) => { v with layout := layout }
          | none => v) r.2 := by
  induction layouts with
  | nil =>
    simp only [Builtin.keymapFrom, Prog.run_bind, run_argv hw setUp running, ok_bind, List.find?_nil]
    exact (run_kprintf hw setUp running _ _).bind fun r after => .ok after
  | cons l layouts ih =>
    obtain ⟨name, layout⟩ := l
    have named := names (name, layout) List.mem_cons_self
    rw [Builtin.keymapFrom, Prog.run_bind, run_argvIs hw setUp running 1 named, ok_bind]
    by_cases here : given k₀.shell m₀ 1 = name
    · simp only [here, decide_true, if_true, Builtin.call, Prog.run_bind, Prog.run_call, handle, ok_bind,
        List.find?_cons]
      refine .ok { running with layout := rfl }
    · have other : ¬name = given k₀.shell m₀ 1 := fun same => here same.symm
      simp only [here, other, decide_false, Bool.false_eq_true, if_false, List.find?_cons]
      exact ih fun l mem => names l (List.mem_cons_of_mem _ mem)

theorem obeys_keymap : Obeys hw b B m₀ k₀ v k argc .keymap := by
  unfold Obeys BuiltinFn.program Builtin.keymap
  by_cases few : argc < 2
  · have nothing : commandOf argc (given k₀.shell m₀) .keymap = .nothing := by simp [commandOf, few]
    rw [if_pos (by omega), nothing, Prog.run_bind]
    refine ((run_kprintf hw setUp running _ _).bind fun r after => ?_).when trivial
    rw [Prog.run_bind]
    exact (run_kprintf hw setUp after _ _).bind fun r after => .ok after
  rw [if_neg (by omega), Prog.run_bind, run_argvIs hw setUp running 1 (by decide), ok_bind]
  by_cases list : given k₀.shell m₀ 1 = text "list"
  · have nothing : commandOf argc (given k₀.shell m₀) .keymap = .nothing := by simp [commandOf, list]
    have always : (do
        Builtin.kprintf (text "Layout:\n") []
        Builtin.keymapList Builtin.layouts : BuiltinM Int).Always (Told (given k₀.shell m₀)) Quiet fun _ =>
          True := by
      simp [Builtin.keymapList, Builtin.layouts, Builtin.kprintf, Builtin.call, Quiet]
    rw [nothing, if_pos (decide_eq_true list)]
    exact ((running.quiet hw setUp always).mono fun r after => after.2).when trivial
  · have names : ∀ l ∈ Builtin.layouts, ∀ c ∈ l.1, c ≠ 0 := by decide
    have neither : ¬(argc < 2 ∨ given k₀.shell m₀ 1 = text "list") := not_or.mpr ⟨few, list⟩
    rw [if_neg (by simp [list]), commandOf, if_neg neither]
    have sets := keymapFrom_sets hw setUp running names
    cases found : Builtin.layouts.find? fun l => l.1 = given k₀.shell m₀ 1 with
    | none =>
      rw [found] at sets
      exact sets.when trivial
    | some l =>
      rw [found] at sets
      exact sets.when trivial

theorem obeys_interrupt : Obeys hw b B m₀ k₀ v k argc .interrupt := by
  unfold Obeys BuiltinFn.program Builtin.interrupt
  by_cases few : argc < 2
  · rw [if_pos (by omega)]
    exact complains hw setUp running (by simp only [commandOf, if_pos few]) _ _ _
  have few' : ¬(argc : Int) < 2 := by omega
  rw [if_neg few', Prog.run_bind, run_argv hw setUp running, ok_bind]
  refine reads hw setUp running (strtol_number (given_nonzero k₀.shell m₀ 1)) (fun none => ?_)
    fun n _ isNumber => ?_
  · simp only [commandOf, none, reduceCtorEq, if_false, ite_self]
  have eight : number (given k₀.shell m₀ 1) = some 8 ↔ n.1 = 8 := by
    rw [isNumber, Option.some_inj]
    exact BitVec.toInt_inj (y := 8)
  by_cases fault : n.1 = 8
  · have faults : commandOf argc (given k₀.shell m₀) .interrupt = .doubleFault := by
      simp only [commandOf, if_neg few, if_pos (eight.mpr fault)]
    rw [faults, fault]
    exact .error (Stop.doubleFault (doubleFaultHandler hw k.shell.console)) not_false
  have nothing : commandOf argc (given k₀.shell m₀) .interrupt = .nothing := by
    simp only [commandOf, if_neg few, if_neg (eight.not.mpr fault)]
  by_cases known : n.1 = 0 ∨ n.1 = 4 ∨ n.1 = 8
  · have quiet : Quiet (.int n.1.toNat) := by
      rcases known with zero | four | same
      · exact .inl (by rw [zero]; rfl)
      · exact .inr (by rw [four]; rfl)
      · exact absurd same fault
    have always : (do
        Prog.call (BuiltinOp.int n.1.toNat)
        pure 0 : BuiltinM Int).Always (Told (given k₀.shell m₀)) Quiet fun _ => True :=
      ⟨quiet, fun _ _ => trivial⟩
    rw [nothing, if_pos known]
    exact ((running.quiet hw setUp always).mono fun r after => after.2).when trivial
  · rw [if_neg known]
    exact complains hw setUp running nothing _ _ _

omit setUp in
/-- A switch to another screen. -/
theorem switches (op : ScreensOp) {screen : Int} (exists_screen : 0 ≤ screen ∧ screen < screens)
    (screen_eq : (op.run k.shell.console.screens).sbCurrent = screen)
    (count : (op.run k.shell.console.screens).sbNbscreen = screens) :
    Returns (((do
      Builtin.call (.screens op)
      pure 0 : BuiltinM Int)).run (handle hw) k) fun r =>
        Running b B m₀ k₀ { v with screen := screen } r.2 :=
  .ok { running with
    shell := running.shell_onConsole _
    screen := screen_eq
    exists_screen := exists_screen
    count := count }

omit setUp in
theorem obeys_next : Obeys hw b B m₀ k₀ v k argc .next := by
  have range := running.exists_screen
  obtain ⟨current, count⟩ := next_current k.shell.console.screens
  rw [running.count] at current count
  rw [running.screen] at current
  have wraps : (if v.screen + 1 = screens then 0 else v.screen + 1) = (v.screen + 1) % screens := by
    split
    · next last => rw [last, Int.emod_self]
    · next other => exact (Int.emod_eq_of_lt (by omega) (by omega)).symm
  rw [wraps] at current
  exact (switches hw running .next (exists_emod_screens _) current count).when trivial

omit setUp in
theorem obeys_prev : Obeys hw b B m₀ k₀ v k argc .prev := by
  have range := running.exists_screen
  obtain ⟨current, count⟩ := prev_current k.shell.console.screens
  rw [running.count] at current count
  rw [running.screen] at current
  have wraps : (if v.screen - 1 < 0 then screens - 1 else v.screen - 1) = (v.screen - 1) % screens := by
    split
    · next first =>
      have zero : v.screen = 0 := by omega
      rw [zero]
      rfl
    · next other => exact (Int.emod_eq_of_lt (by omega) (by omega)).symm
  rw [wraps] at current
  exact (switches hw running .prev (exists_emod_screens _) current count).when trivial

omit setUp in
theorem obeys_reboot : Obeys hw b B m₀ k₀ v k argc .reboot :=
  Returns.when (.ok { running with sent := congrArg _ running.sent }) trivial

omit setUp in
theorem obeys_poweroff : Obeys hw b B m₀ k₀ v k argc .poweroff :=
  Returns.when (.ok { running with sent := congrArg _ running.sent }) trivial

/-- Every builtin function obeys. -/
theorem obeys (f : BuiltinFn) : Obeys hw b B m₀ k₀ v k argc f := by
  cases f with
  | alloc => exact obeys_alloc hw setUp running
  | free => exact obeys_free hw setUp running
  | hexdump => exact obeys_hexdump hw setUp running
  | keymap => exact obeys_keymap hw setUp running
  | interrupt => exact obeys_interrupt hw setUp running
  | next => exact obeys_next hw running
  | prev => exact obeys_prev hw running
  | reboot => exact obeys_reboot hw running
  | poweroff => exact obeys_poweroff hw running
  | color => exact obeys_quiet hw setUp running rfl (color_quiet _ _)
  | info => exact obeys_quiet hw setUp running rfl (info_quiet _ _)
  | clear => exact obeys_quiet hw setUp running rfl ⟨trivial, fun _ _ => trivial⟩
  | help => exact obeys_quiet hw setUp running rfl ⟨trivial, fun _ _ => helpFrom_quiet _ _⟩

end

end Nulix.Kernel
