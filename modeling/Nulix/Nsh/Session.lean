import Nulix.Nsh.Tokenize

/-!
# Sessions

The loop of `nsh` over whole sessions. A `Session` is what was typed: the lines entered and the line
under way. `Follows` relates it to the globals of the shell, and every turn of the loop keeps it. A
command should not see pointers of earlier lines behind its arguments; `nsh_newline` clears only the
first 128 entries of `nsh_cmd`, and `dispatch_fresh_iff` says after which sessions that is enough.
-/

namespace Nulix.Nsh

open Fallible Print Screen Strings

/-! ## The loop of the shell -/

/-- The builtin functions and the string at address 0 during one turn. The functions read the globals
of the shell; what they assign is the console's. -/
structure Builtins where
  atNull : Text
  run : BuiltinFn → Nat → (Nat → Option Nat) → Shell → Except Stuck Console

def Builtins.machine (b : Builtins) : Machine where
  atNull := b.atNull
  exec f argc argv s := do
    let console ← b.run f argc argv s
    return { s with console := console }

/-- The keys that `nsh_shortcut` knows. -/
inductive ShortcutKey
  | cursorUp | cursorDown | pageDown | pageUp | other
  deriving DecidableEq, Repr

/-- `nsh_shortcut` -/
def nshShortcut (key : ShortcutKey) (s : Shell) : Shell :=
  match key with
  | .cursorUp => s.onCurrent (sbScroll (-1))
  | .cursorDown => s.onCurrent (sbScroll 1)
  | .pageDown => s.onCurrent sbScrollDown
  | .pageUp => s.onCurrent sbScrollTop
  | .other => s

/-- One turn of the loop: the key pressed, the character that `KBD_getchar` makes of it, and the
builtins as they are then. -/
structure Turn where
  key : ShortcutKey
  char : BitVec 8
  builtins : Builtins

/-- The body of the loop of `nsh`. -/
def nshTurn (t : Turn) (s : Shell) : Except Stuck Shell :=
  if t.char ≠ 0 then nshAddchar t.builtins.machine t.char s else .ok (nshShortcut t.key s)

/-- `nsh`, for as many turns as there are. -/
def nsh (turns : List Turn) (s : Shell) : Except Stuck Shell := runAll nshTurn turns (nshNewline s)

/-- The shell as `nsh_addchar` calls `nsh_execcmd` at the end of a line. -/
def dispatched (s : Shell) : Except Stuck Shell :=
  nshCreatecmd ((s.onCurrent sbScrollDown).print (text "\n") [])

theorem nshAddchar_newline (machine : Machine) (s : Shell) :
    nshAddchar machine 0x0a s =
      (if s.nshBufindex ≠ 0 then dispatched s >>= nshExeccmd machine
        else .ok ((s.onCurrent sbScrollDown).print (text "\n") [])) >>= fun u => .ok (nshNewline u) := by
  have index : ((s.onCurrent sbScrollDown).print (text "\n") []).nshBufindex = s.nshBufindex := rfl
  unfold nshAddchar
  dsimp only
  rw [if_pos rfl, index]
  by_cases some : s.nshBufindex ≠ 0
  · rw [if_pos some, if_pos some, bind_assoc]
    rfl
  · rw [if_neg some, if_neg some]
    rfl

/-- A command changes the console alone. -/
theorem nshExeccmdFrom_console {b : Builtins} {word : Text} {s s' : Shell} {table : List Builtin}
    (ran : nshExeccmdFrom b.machine word s table = .ok s') :
    ∃ console, s' = { s with console := console } := by
  induction table with
  | nil =>
    cases ran
    exact ⟨_, rfl⟩
  | cons entry table ih =>
    unfold nshExeccmdFrom at ran
    split at ran
    · cases function : entry.exec with
      | none =>
        rw [function] at ran
        cases ran
      | some f =>
        rw [function] at ran
        obtain ⟨console, -, assigned⟩ := bind_eq_ok ran
        cases assigned
        exact ⟨console, rfl⟩
    · exact ih ran

theorem nshExeccmd_console {b : Builtins} {s s' : Shell} (ran : nshExeccmd b.machine s = .ok s') :
    ∃ console, s' = { s with console := console } := by
  unfold nshExeccmd at ran
  split at ran
  · cases ran
    exact ⟨_, rfl⟩
  · exact nshExeccmdFrom_console ran

/-- No entry of `nsh_cmd` from `nsh_cmdnarg` on is a pointer. -/
def Fresh (s : Shell) : Prop := ∀ j, s.nshCmdnarg ≤ j → j < nshCmdsize → s.nshCmd j = none

/-! ## What was typed -/

structure Session where
  entered : List Text
  line : Text

def Session.turn (v : Session) (t : Turn) : Session :=
  if t.char = 0 then v
  else if t.char = 0x0a then { entered := v.entered ++ [v.line], line := [] }
  else { v with line := edit v.line t.char }

/-- The session that the turns make. -/
def session (turns : List Turn) : Session := turns.foldl Session.turn { entered := [], line := [] }

/-- The globals of the shell in a session, between two turns. An entry of `nsh_cmd` that `nsh_newline`
leaves holds a pointer once a line had that many words. -/
structure Follows (v : Session) (s : Shell) : Prop where
  editing : Editing s v.line
  cleared : ∀ j, j < nshBufsize / 2 / sizeofPointer → s.nshCmd j = none
  kept : ∀ j, nshBufsize / 2 / sizeofPointer ≤ j → j < nshCmdsize →
    (s.nshCmd j = none ↔ ∀ l ∈ v.entered, (words l).length ≤ j)

variable {v : Session} {s s' : Shell}

/-- A line of at most 1023 characters has at most 512 words. -/
theorem words_lt {line : Text} (short : line.length ≤ nshBufsize - 1) :
    (words line).length < nshCmdsize := by
  have size : nshBufsize = 1024 := rfl
  have entries : nshCmdsize = 513 := rfl
  have total := Tokens.two_mul_length_tokens isSpace line
  rw [words]
  omega

/-- What `nsh_createcmd` does to `nsh_cmd` at the end of the line. -/
theorem Follows.dispatched (follows : Follows v s) :
    Returns (dispatched s) fun t =>
      t.nshCmdnarg = (words v.line).length ∧
      (∀ j, j < (words v.line).length → ∃ p, t.nshCmd j = some p ∧ t.word p ≠ []) ∧
      ∀ j, (words v.line).length ≤ j → t.nshCmd j = s.nshCmd j := by
  have printed : Editing ((s.onCurrent sbScrollDown).print (text "\n") []) v.line :=
    (follows.editing.onCurrent sbScrollDown).print _ _
  refine (nshCreatecmd_tokenized printed.lineBuffer).mono fun t split => ⟨split.count, ?_, split.kept⟩
  intro j below
  obtain ⟨p, pointer, word⟩ := split.word j below
  have some : (words v.line)[j] ≠ [] := Tokens.ne_nil_of_mem_tokens (List.getElem_mem below)
  exact ⟨p, pointer, word ▸ some⟩

/-- The prompt of the next line. -/
theorem Follows.newline {l : Text} (kept : ∀ j, nshBufsize / 2 / sizeofPointer ≤ j → j < nshCmdsize →
      (s.nshCmd j = none ↔ ∀ l' ∈ v.entered ++ [l], (words l').length ≤ j)) :
    Follows { entered := v.entered ++ [l], line := [] } (nshNewline s) := by
  refine ⟨(InStep.newline s).editing, ?_, ?_⟩
  · intro j below
    exact if_pos below
  · intro j above fits
    have same : (nshNewline s).nshCmd j = s.nshCmd j := if_neg (Nat.not_lt_of_le above)
    rw [same]
    exact kept j above fits

/-- The prompt after a line whose words were put into `nsh_cmd`, if it has any. -/
theorem Follows.prompt {t : Shell} (follows : Follows v s)
    (filled : ∀ j, j < (words v.line).length → t.nshCmd j ≠ none)
    (unchanged : ∀ j, (words v.line).length ≤ j → t.nshCmd j = s.nshCmd j) :
    Follows { entered := v.entered ++ [v.line], line := [] } (nshNewline t) := by
  apply Follows.newline
  intro j above fits
  have before := follows.kept j above fits
  have split : (∀ l ∈ v.entered ++ [v.line], (words l).length ≤ j) ↔
      (∀ l ∈ v.entered, (words l).length ≤ j) ∧ (words v.line).length ≤ j := by
    simp [or_imp, forall_and]
  rw [split, ← before]
  rcases Nat.lt_or_ge j (words v.line).length with word | rest
  · exact iff_of_false (filled j word) fun few => absurd word (Nat.not_lt_of_le few.2)
  · rw [unchanged j rest]
    exact (and_iff_left rest).symm

/-- A line without a character. -/
theorem Follows.line_empty (follows : Follows v s) (none : ¬s.nshBufindex ≠ 0) : v.line = [] := by
  apply List.eq_nil_of_length_eq_zero
  rw [← follows.editing.index]
  exact not_not.mp none

/-- The end of a line. -/
theorem Follows.enter {b : Builtins} (follows : Follows v s)
    (ran : nshAddchar b.machine 0x0a s = .ok s') :
    Follows { entered := v.entered ++ [v.line], line := [] } s' := by
  rw [nshAddchar_newline] at ran
  obtain ⟨u, executed, prompt⟩ := bind_eq_ok ran
  cases prompt
  by_cases some : s.nshBufindex ≠ 0
  · rw [if_pos some] at executed
    obtain ⟨t, tokenized, command⟩ := bind_eq_ok executed
    obtain ⟨-, filled, unchanged⟩ := follows.dispatched.of_eq_ok tokenized
    obtain ⟨console, rfl⟩ := nshExeccmd_console command
    refine follows.prompt (fun j word null => ?_) unchanged
    obtain ⟨p, pointer, -⟩ := filled j word
    cases null.symm.trans pointer
  · rw [if_neg some] at executed
    cases executed
    have empty := follows.line_empty some
    refine follows.prompt (fun j word => ?_) fun j _ => rfl
    rw [empty] at word
    cases word

/-- Every turn of the loop. -/
theorem Follows.turn {t : Turn} (follows : Follows v s) (ran : nshTurn t s = .ok s') :
    Follows (v.turn t) s' := by
  unfold nshTurn at ran
  unfold Session.turn
  by_cases shortcut : t.char = 0
  · rw [if_neg (not_not.mpr shortcut)] at ran
    rw [if_pos shortcut]
    cases ran
    obtain ⟨⟨index, short, plain, holds⟩, cleared, kept⟩ := follows
    unfold nshShortcut
    cases t.key <;> exact ⟨⟨index, short, plain, holds⟩, cleared, kept⟩
  rw [if_pos shortcut] at ran
  rw [if_neg shortcut]
  by_cases ends : t.char = 0x0a
  · rw [ends] at ran
    rw [if_pos ends]
    exact follows.enter ran
  · rw [if_neg ends]
    obtain ⟨editing, cmd, -⟩ :=
      (nshAddchar_edits t.builtins.machine shortcut ends follows.editing).of_eq_ok ran
    refine ⟨editing, ?_, ?_⟩
    · rw [cmd]
      exact follows.cleared
    · rw [cmd]
      exact follows.kept

theorem Follows.start (screens : Screens) :
    Follows { entered := [], line := [] } (nshNewline (.start screens)) := by
  have null : ∀ j, (nshNewline (.start screens)).nshCmd j = none := fun j => ite_self none
  refine ⟨(InStep.newline _).editing, fun j _ => null j, fun j _ _ => ?_⟩
  rw [null]
  simp

/-- Whole sessions. -/
theorem nsh_follows {turns : List Turn} {screens : Screens}
    (ran : nsh turns (.start screens) = .ok s) : Follows (session turns) s := by
  have keeps : ∀ t v s s', Follows v s → nshTurn t s = .ok s' → Follows (v.turn t) s' :=
    fun _ _ _ _ => Follows.turn
  exact runAll_simulates Follows keeps (.start screens) ran

/-! ## Sessions that go on -/

/-- The builtins of the turn return, and memory starts with a zero. -/
structure Turn.Returning (t : Turn) : Prop where
  atNull : t.builtins.atNull = []
  runs : ∀ f argc argv s, Returns (t.builtins.run f argc argv s) fun _ => True

theorem strcmp_nil {w : Text} (some : w ≠ []) (nonzero : ∀ c ∈ w, c ≠ 0) : strcmp w [] ≠ 0 := by
  cases w with
  | nil => exact absurd rfl some
  | cons c w =>
    intro equal
    have zero : c.toInt = 0 := by simpa [strcmp] using equal
    exact nonzero c List.mem_cons_self (BitVec.eq_of_toInt_eq zero)

theorem nshExeccmdFrom_returns {t : Turn} (returning : t.Returning) {word : Text} (some : word ≠ [])
    (nonzero : ∀ c ∈ word, c ≠ 0) (s : Shell) {table : List Builtin}
    (functions : ∀ entry ∈ table, entry.name ≠ none → entry.exec ≠ none) :
    Returns (nshExeccmdFrom t.builtins.machine word s table) fun _ => True := by
  induction table with
  | nil => exact .ok trivial
  | cons entry table ih =>
    have rest := ih fun e mem => functions e (List.mem_cons_of_mem entry mem)
    unfold nshExeccmdFrom
    split
    · rename_i equal
      have named : entry.name ≠ none := by
        intro null
        rw [null, Option.getD_none, show t.builtins.machine.atNull = [] from returning.atNull] at equal
        exact strcmp_nil some nonzero equal
      cases function : entry.exec with
      | none => exact absurd function (functions entry List.mem_cons_self named)
      | some f => exact (returning.runs f _ _ s).bind fun console _ => .ok trivial
    · exact rest

/-- The shell gets through every turn whose builtins return. -/
theorem Follows.turn_returns {t : Turn} (follows : Follows v s) (returning : t.Returning) :
    Returns (nshTurn t s) fun _ => True := by
  unfold nshTurn
  by_cases shortcut : t.char = 0
  · rw [if_neg (not_not.mpr shortcut)]
    exact .ok trivial
  rw [if_pos shortcut]
  by_cases ends : t.char = 0x0a
  · rw [ends, nshAddchar_newline]
    refine Returns.bind (P := fun _ => True) ?_ fun u _ => .ok trivial
    split
    · refine follows.dispatched.bind fun d ⟨_, filled, unchanged⟩ => ?_
      unfold nshExeccmd
      cases first : d.nshCmd 0 with
      | none => exact .ok trivial
      | some p =>
        have some : d.word p ≠ [] := by
          rcases Nat.eq_zero_or_pos (words v.line).length with none | below
          · rw [unchanged 0 (Nat.le_of_eq none), follows.cleared 0 (by decide)] at first
            cases first
          · obtain ⟨p', pointer, word⟩ := filled 0 below
            cases pointer.symm.trans first
            exact word
        have nonzero : ∀ c ∈ d.word p, c ≠ 0 := fun c mem => ne_zero_of_mem_contents mem
        exact nshExeccmdFrom_returns returning some nonzero d (by simp [builtin])
    · exact .ok trivial
  · exact (nshAddchar_edits _ shortcut ends follows.editing).mono fun _ _ => trivial

theorem nsh_returns {turns : List Turn} (returning : ∀ t ∈ turns, t.Returning) (screens : Screens) :
    Returns (nsh turns (.start screens)) (Follows (session turns)) := by
  have goesOn : Returns (nsh turns (.start screens)) fun s => ∃ v, Follows v s := by
    refine runAll_returns _ ⟨_, Follows.start screens⟩ fun t mem s ⟨v, follows⟩ => ?_
    obtain ⟨s', ran, -⟩ := follows.turn_returns (returning t mem)
    exact ⟨s', ran, v.turn t, follows.turn ran⟩
  obtain ⟨s, ran, -⟩ := goesOn
  exact ⟨s, ran, nsh_follows ran⟩

/-! ## The vector of a command -/

/-- Behind the arguments the vector is clear exactly when no earlier line had more words than this one,
apart from those that `nsh_newline` clears. -/
theorem Follows.fresh_iff {t : Shell} (follows : Follows v s)
    (tokenized : Nsh.dispatched s = .ok t) :
    Fresh t ↔ ∀ l ∈ v.entered, (words l).length ≤ max 128 (words v.line).length := by
  have size : nshBufsize / 2 / sizeofPointer = 128 := rfl
  have entries : nshCmdsize = 513 := rfl
  have few := words_lt follows.editing.short
  obtain ⟨count, -, unchanged⟩ := follows.dispatched.of_eq_ok tokenized
  constructor
  · intro fresh
    have last : max 128 (words v.line).length < nshCmdsize := by omega
    have null := fresh (max 128 (words v.line).length) (by omega) last
    rw [unchanged _ (Nat.le_max_right _ _)] at null
    exact (follows.kept _ (Nat.le_max_left _ _) last).mp null
  · intro shorter j above fits
    rw [count] at above
    rw [unchanged j above]
    rcases Nat.lt_or_ge j 128 with below | high
    · exact follows.cleared j below
    · rw [follows.kept j high fits]
      intro l mem
      exact (shorter l mem).trans (max_le high above)

/-- **Fresh argument vectors.** In every session, when the line under way is dispatched, the entries
of `nsh_cmd` behind its arguments are null exactly if no line entered before has more than 128 words
and more words than this one. -/
theorem dispatch_fresh_iff (screens : Screens) (turns : List Turn) (s : Shell)
    (ran : nsh turns (.start screens) = .ok s) :
    Returns (dispatched s) fun t =>
      Fresh t ↔ ∀ l ∈ (session turns).entered,
        (words l).length ≤ max 128 (words (session turns).line).length := by
  have follows := nsh_follows ran
  obtain ⟨t, tokenized, -⟩ := follows.dispatched
  exact ⟨t, tokenized, follows.fresh_iff tokenized⟩

/-- Typing `l` on a machine whose builtins do nothing. -/
def typing (l : Text) : List Turn :=
  l.map fun c =>
    { key := .other, char := c, builtins := { atNull := [], run := fun _ _ _ s => .ok s.console } }

theorem typing_returning (l : Text) : ∀ t ∈ typing l, t.Returning := by
  intro t mem
  obtain ⟨c, -, rfl⟩ := List.mem_map.mp mem
  exact ⟨rfl, fun f argc argv s => .ok trivial⟩

/-- A line of one word after one of three. -/
theorem dispatch_fresh_iff_help :
    let turns := typing (text "free 0x2000 8192\nhelp")
    let start := Shell.start (.boot (fun _ => .zero) 2 .zero)
    ∃ s, nsh turns start = .ok s ∧ Returns (dispatched s) fun t =>
      Fresh t ↔ ∀ l ∈ (session turns).entered,
        (words l).length ≤ max 128 (words (session turns).line).length := by
  obtain ⟨s, ran, -⟩ := nsh_returns (typing_returning (text "free 0x2000 8192\nhelp")) _
  exact ⟨s, ran, dispatch_fresh_iff _ _ s ran⟩

/-- A line of 129 words, and a line of one word under way. -/
def staleText : Text := (List.replicate 128 (text "a ")).flatten ++ text "a\nb"

/-- When `b` is dispatched, entry 128 of `nsh_cmd` still points at the last word of the first line. -/
theorem not_fresh_stale :
    ¬ ∀ s, nsh (typing staleText) (.start (.boot (fun _ => .zero) 2 .zero)) = .ok s →
      Returns (dispatched s) Fresh := by
  intro always
  obtain ⟨s, ran, follows⟩ := nsh_returns (typing_returning staleText) (.boot (fun _ => .zero) 2 .zero)
  obtain ⟨t, tokenized, fresh⟩ := always s ran
  have shorter := (follows.fresh_iff tokenized).mp fresh
  revert shorter
  decide +kernel

end Nulix.Nsh
