import Nulix.Nsh.Basic

/-!
# The line editor

The line as a list of characters, which `edit` changes by one character typed, the line that a reader
of the screen sees from what was echoed, and the agreement of the two with `nsh_buf` after every
character but the one that ends the line.
-/

namespace Nulix.Nsh

open Fallible Print Screen Strings

/-! ## The echoed line -/

/-- The effect of one echoed character on the line shown so far. -/
def typed (line : Text) (c : BitVec 8) : Text := if c = 0x08 then line.dropLast else line ++ [c]

/-- The line shown after `echo`, each backspace deleting the last remaining character. -/
def shownLine (echo : Text) : Text := echo.foldl typed []

/-- A character that can stand in the line. -/
def Plain (c : BitVec 8) : Prop := c ≠ 0 ∧ c ≠ 0x0a ∧ c ≠ 0x09 ∧ c ≠ 0x08

instance : DecidablePred Plain := fun c =>
  inferInstanceAs (Decidable (c ≠ 0 ∧ c ≠ 0x0a ∧ c ≠ 0x09 ∧ c ≠ 0x08))

theorem shownLine_append (echo : Text) (e : Text) :
    shownLine (echo ++ e) = e.foldl typed (shownLine echo) := List.foldl_append

theorem foldl_typed_plain {line e : Text} (plain : ∀ c ∈ e, Plain c) :
    e.foldl typed line = line ++ e := by
  induction e generalizing line with
  | nil => exact (List.append_nil line).symm
  | cons c e ih =>
    obtain ⟨-, -, -, notErase⟩ := plain c List.mem_cons_self
    rw [List.foldl_cons, ih fun d mem => plain d (List.mem_cons_of_mem c mem)]
    rw [typed, if_neg notErase, ← List.append_cons]

/-! ## Editing a line -/

/-- The completion of `line` by one name. -/
def complete (name line : Text) : Text := if line <+: name then name else line

/-- The completion by the names of the table, up to the entry without a name. -/
def completions : List Builtin → Text → Text
  | [], line => line
  | b :: bs, line =>
    match b.name with
    | none => line
    | some name => completions bs (complete name line)

/-- The line after a character that does not end it. -/
def edit (line : Text) (c : BitVec 8) : Text :=
  if c = 0x08 then line.dropLast
  else if c = 0x09 then if line = [] then [] else completions builtin line
  else if line.length < nshBufsize - 1 then line ++ [c] else line

/-! ## The buffer -/

theorem print_printed (fmt : Text) (ap : List VaArg) (s : Shell) :
    (s.print fmt ap).console.printed = s.console.printed ++ kprintfText fmt ap := rfl

/-- The completion stores into the line alone. -/
theorem nshFill_frame (q : Text) (s : Shell) :
    (nshFill q s).nshCmd = s.nshCmd ∧ (nshFill q s).console = s.console := by
  induction q generalizing s with
  | nil => exact ⟨rfl, rfl⟩
  | cons c q ih =>
    unfold nshFill
    by_cases room : s.nshBufindex < nshBufsize
    · rw [if_pos room]
      exact ih (s.append c)
    · rw [if_neg room]
      exact ⟨rfl, rfl⟩

/-- `nsh_buf` holds `line`, and its last byte stays free. -/
structure Editing (s : Shell) (line : Text) : Prop where
  index : s.nshBufindex = line.length
  short : line.length ≤ nshBufsize - 1
  plain : ∀ c ∈ line, Plain c
  holds : Holds s.nshBuf nshBufsize line

namespace Editing

variable {s : Shell} {line : Text}

theorem length_lt (editing : Editing s line) : line.length < nshBufsize :=
  Nat.lt_of_le_of_lt editing.short (by decide)

/-- Printing does not touch the line. -/
theorem print (editing : Editing s line) (fmt : Text) (ap : List VaArg) :
    Editing (s.print fmt ap) line :=
  ⟨editing.index, editing.short, editing.plain, editing.holds⟩

theorem onCurrent (editing : Editing s line) (f : Display → Display) :
    Editing (s.onCurrent f) line :=
  ⟨editing.index, editing.short, editing.plain, editing.holds⟩

theorem append (editing : Editing s line) {c : BitVec 8} (plain : Plain c)
    (room : line.length < nshBufsize - 1) : Editing (s.append c) (line ++ [c]) := by
  refine ⟨?_, ?_, ?_, ?_⟩
  · show s.nshBufindex + 1 = (line ++ [c]).length
    rw [editing.index, List.length_append, List.length_singleton]
  · rw [List.length_append, List.length_singleton]
    exact room
  · intro d mem
    rcases List.mem_append.mp mem with old | new
    · exact editing.plain d old
    · rw [List.mem_singleton.mp new]
      exact plain
  · show Holds (Function.update s.nshBuf s.nshBufindex c) nshBufsize (line ++ [c])
    rw [editing.index]
    exact editing.holds.push c

theorem fill {q : Text} (editing : Editing s line) (plain : ∀ c ∈ q, Plain c)
    (fits : line.length + q.length ≤ nshBufsize - 1) : Editing (nshFill q s) (line ++ q) := by
  induction q generalizing s line with
  | nil =>
    rw [List.append_nil]
    exact editing
  | cons c q ih =>
    rw [List.length_cons] at fits
    have room : s.nshBufindex < nshBufsize := by
      rw [editing.index]
      omega
    have later : ∀ d ∈ q, Plain d := fun d mem => plain d (List.mem_cons_of_mem c mem)
    have shorter : (line ++ [c]).length + q.length ≤ nshBufsize - 1 := by
      rw [List.length_append, List.length_singleton]
      omega
    have one := editing.append (plain c List.mem_cons_self) (by omega)
    unfold nshFill
    rw [if_pos room, List.append_cons]
    exact ih one later shorter

/-- Where the first loop of the completion reaches the end of the line, the name goes on with what is
left of it. -/
theorem nshMatch_eq (editing : Editing s line) {q : Text} {p : Nat} (inside : p ≤ line.length)
    (ended : s.nshBuf (nshMatch s.nshBuf p q).1 = 0) :
    q = line.drop p ++ (nshMatch s.nshBuf p q).2 := by
  have short := editing.length_lt
  have last : ∀ p ≤ line.length, s.nshBuf p = 0 → line.drop p = [] := by
    intro p inside zero
    by_contra more
    have before : p < line.length := Nat.lt_of_not_le (mt List.drop_eq_nil_of_le more)
    have char := editing.holds.char before (by omega)
    exact (editing.plain _ (List.getElem_mem before)).1 (char.symm.trans zero)
  induction q generalizing p with
  | nil => rw [last p inside ended]; rfl
  | cons c q ih =>
    unfold nshMatch at ended ⊢
    by_cases same : s.nshBuf p ≠ 0 ∧ s.nshBuf p = c
    · rw [if_pos same] at ended ⊢
      have before : p < line.length := by
        by_contra after
        exact same.1 (editing.holds.zero (by omega) (by omega))
      have rest := ih before ended
      have char := editing.holds.char before (by omega)
      rw [List.drop_eq_getElem_cons before, ← char, same.2, List.cons_append, ← rest]
    · rw [if_neg same] at ended ⊢
      rw [last p inside ended]
      rfl

/-- Where the name goes on after the line, the first loop of the completion reaches its end. -/
theorem nshMatch_append (editing : Editing s line) {q : Text} {p : Nat} (inside : p ≤ line.length) :
    nshMatch s.nshBuf p (line.drop p ++ q) = nshMatch s.nshBuf line.length q := by
  have short := editing.length_lt
  induction left : line.length - p generalizing p with
  | zero =>
    have last : p = line.length := by omega
    rw [last, List.drop_length, List.nil_append]
  | succ n ih =>
    have before : p < line.length := by omega
    have char := editing.holds.char before (by omega)
    have nonzero := (editing.plain _ (List.getElem_mem before)).1
    rw [List.drop_eq_getElem_cons before, List.cons_append, nshMatch,
      if_pos ⟨char ▸ nonzero, char⟩, ih before (by omega)]

theorem nshMatch_end (editing : Editing s line) (q : Text) :
    nshMatch s.nshBuf line.length q = (line.length, q) := by
  have zero := editing.holds.zero (Nat.le_refl _) editing.length_lt
  cases q with
  | nil => rfl
  | cons c q => rw [nshMatch, if_neg fun same => same.1 zero]

/-- The completion by a name that goes on after the line. -/
theorem nshComplete_rest (editing : Editing s line) {q : Text} (some : q ≠ []) :
    nshComplete (line ++ q) s = nshFill q (s.print (text "%s") [.str q]) := by
  have found : nshMatch s.nshBuf 0 (line ++ q) = (line.length, q) :=
    (editing.nshMatch_append (Nat.zero_le _)).trans (editing.nshMatch_end q)
  have zero := editing.holds.zero (Nat.le_refl _) editing.length_lt
  unfold nshComplete
  rw [found]
  exact if_pos ⟨zero, some⟩

/-- The completion by any other name. -/
theorem nshComplete_idle (editing : Editing s line) {name : Text}
    (other : ¬(line <+: name ∧ line ≠ name)) : nshComplete name s = s := by
  unfold nshComplete
  dsimp only
  refine if_neg ?_
  rintro ⟨ended, some⟩
  have split := editing.nshMatch_eq (Nat.zero_le _) ended
  rw [List.drop_zero] at split
  refine other ⟨⟨_, split.symm⟩, fun same => some ?_⟩
  rw [← same] at split ⊢
  exact List.self_eq_append_right.mp split

/-- A backspace on a line that is not empty. -/
theorem backspace (editing : Editing s line) :
    Editing
      { s with
        nshBufindex := s.nshBufindex - 1
        nshBuf := Function.update s.nshBuf (s.nshBufindex - 1) 0 } line.dropLast := by
  refine ⟨?_, ?_, ?_, ?_⟩
  · show s.nshBufindex - 1 = line.dropLast.length
    rw [editing.index, List.length_dropLast]
  · rw [List.length_dropLast]
    exact Nat.le_trans (Nat.sub_le _ _) editing.short
  · exact fun c mem => editing.plain c ((List.dropLast_sublist line).mem mem)
  · show Holds (Function.update s.nshBuf (s.nshBufindex - 1) 0) nshBufsize line.dropLast
    rw [editing.index]
    exact editing.holds.pop

end Editing

/-! ## One character -/

/-- The shell went from one line to another and echoed the difference. -/
structure Edits (s : Shell) (line : Text) (s' : Shell) (line' : Text) : Prop where
  editing : Editing s' line'
  cmd : s'.nshCmd = s.nshCmd
  echo : ∃ e, s'.console.printed = s.console.printed ++ e ∧ e.foldl typed line = line'

namespace Edits

variable {s s' : Shell} {line line' : Text}

theorem refl (editing : Editing s line) : Edits s line s line :=
  ⟨editing, rfl, [], (List.append_nil _).symm, rfl⟩

theorem trans {s'' : Shell} {line'' : Text} (first : Edits s line s' line')
    (second : Edits s' line' s'' line'') : Edits s line s'' line'' := by
  obtain ⟨-, cmd, e, printed, shows⟩ := first
  obtain ⟨editing', cmd', e', printed', shows'⟩ := second
  refine ⟨editing', cmd'.trans cmd, e ++ e', ?_, ?_⟩
  · rw [printed', printed, List.append_assoc]
  · rw [List.foldl_append, shows, shows']

/-- A plain text is echoed as it is appended. -/
theorem of_append {q : Text} (editing : Editing s' (line ++ q)) (cmd : s'.nshCmd = s.nshCmd)
    (plain : ∀ c ∈ q, Plain c) (printed : s'.console.printed = s.console.printed ++ q) :
    Edits s line s' (line ++ q) :=
  ⟨editing, cmd, q, printed, foldl_typed_plain plain⟩

/-- The completion by one name: nothing, or the rest of the name is printed and appended. -/
theorem nshComplete {name : Text} (editing : Editing s line) (plain : ∀ c ∈ name, Plain c)
    (fits : name.length ≤ nshBufsize - 1) :
    Edits s line (nshComplete name s) (complete name line) := by
  unfold complete
  by_cases begins : line <+: name
  · rw [if_pos begins]
    obtain ⟨q, rfl⟩ := begins
    have plainRest : ∀ c ∈ q, Plain c := fun c mem => plain c (List.mem_append_right line mem)
    by_cases rest : q = []
    · subst rest
      rw [List.append_nil, editing.nshComplete_idle fun further => further.2 rfl]
      exact refl editing
    · rw [editing.nshComplete_rest rest]
      rw [List.length_append] at fits
      obtain ⟨cmd, console⟩ := nshFill_frame q (s.print (text "%s") [.str q])
      refine of_append ((editing.print _ _).fill plainRest fits) cmd plainRest ?_
      have room : nshBufsize ≤ bufsize := by decide
      have short := editing.length_lt
      rw [console, print_printed, kprintfText_str]
      · omega
      · exact fun c mem => (plainRest c mem).1
  · rw [if_neg begins, editing.nshComplete_idle fun further => begins further.1]
    exact refl editing

theorem nshCompletions {bs : List Builtin} (editing : Editing s line)
    (names : ∀ b ∈ bs, ∀ name ∈ b.name, (∀ c ∈ name, Plain c) ∧ name.length ≤ nshBufsize - 1) :
    Edits s line (nshCompletions bs s) (completions bs line) := by
  induction bs generalizing s line with
  | nil => exact refl editing
  | cons b bs ih =>
    unfold Nsh.nshCompletions completions
    cases named : b.name with
    | none => exact refl editing
    | some name =>
      obtain ⟨plainName, fits⟩ := names b List.mem_cons_self name named
      have one := nshComplete editing plainName fits
      exact one.trans (ih one.editing fun b' mem => names b' (List.mem_cons_of_mem b mem))

end Edits

/-- Every name of the table is short and has no special character. -/
theorem builtin_names : ∀ b ∈ builtin, ∀ name ∈ b.name,
    (∀ c ∈ name, Plain c) ∧ name.length ≤ nshBufsize - 1 := by
  simp [builtin, text, Plain, nshBufsize]

/-- What `nsh_addchar` does with a character other than the end of the line. -/
theorem nshAddchar_edits (machine : Machine) {c : BitVec 8} {s : Shell} {line : Text}
    (nonzero : c ≠ 0) (sameLine : c ≠ 0x0a) (editing : Editing s line) :
    Returns (nshAddchar machine c s) fun s' => Edits s line s' (edit line c) := by
  have scrolled : Edits s line (s.onCurrent sbScrollDown) line :=
    ⟨editing.onCurrent sbScrollDown, rfl, [], (List.append_nil _).symm, rfl⟩
  suffices rest : Returns (nshAddchar machine c s) fun s' =>
      Edits (s.onCurrent sbScrollDown) line s' (edit line c) from
    rest.mono fun _ edits => scrolled.trans edits
  have editing := scrolled.editing
  have index := editing.index
  unfold nshAddchar edit
  generalize s.onCurrent sbScrollDown = s at editing index
  dsimp only
  rw [if_neg sameLine]
  by_cases erases : c = 0x08
  · rw [if_pos erases, if_pos erases]
    by_cases some : s.nshBufindex > 0
    · rw [if_pos some]
      have echoed : kprintfText (text "\x08") [] = [0x08] :=
        kprintfText_literal (by decide) (by decide) (by decide)
      refine .ok ⟨editing.backspace.print _ _, rfl, [0x08], ?_, rfl⟩
      rw [print_printed, echoed]
    · rw [if_neg some]
      have empty : line = [] := List.eq_nil_of_length_eq_zero (by omega)
      subst empty
      exact .ok (.refl editing)
  rw [if_neg erases, if_neg erases]
  by_cases completes : c = 0x09
  · rw [if_pos completes, if_pos completes]
    by_cases empty : s.nshBufindex = 0
    · have empty' : line = [] := List.eq_nil_of_length_eq_zero (by omega)
      rw [if_pos empty, if_pos empty']
      subst empty'
      exact .ok (.refl editing)
    · have some : line ≠ [] := fun empty' => empty (index.trans (congrArg List.length empty'))
      rw [if_neg empty, if_neg some]
      exact .ok (.nshCompletions editing builtin_names)
  rw [if_neg completes, if_neg completes, ← index]
  by_cases room : s.nshBufindex < nshBufsize - 1
  · rw [if_pos room, if_pos room]
    have plain : Plain c := ⟨nonzero, sameLine, completes, erases⟩
    rw [index] at room
    refine .ok (.of_append ((editing.append plain room).print _ _) rfl (by simpa using plain) ?_)
    rw [print_printed, kprintfText_char nonzero]
    rfl
  · rw [if_neg room, if_neg room]
    exact .ok (.refl editing)

/-! ## Line and echo -/

/-- `nsh_buf` holds the line that the text printed after `prompt` shows. -/
structure InStep (prompt : Text) (s : Shell) (line : Text) : Prop where
  editing : Editing s line
  echo : ∃ echo, s.console.printed = prompt ++ echo ∧ shownLine echo = line

namespace InStep

variable {prompt line : Text} {s : Shell}

theorem edits {s' : Shell} {line' : Text} (inStep : InStep prompt s line)
    (edits : Edits s line s' line') : InStep prompt s' line' := by
  obtain ⟨echo, before, shown⟩ := inStep.echo
  obtain ⟨e, printed, shows⟩ := edits.echo
  refine ⟨edits.editing, echo ++ e, ?_, ?_⟩
  · rw [printed, before, List.append_assoc]
  · rw [shownLine_append, shown, shows]

/-- A new line starts empty. -/
theorem newline (s : Shell) : InStep (nshNewline s).console.printed (nshNewline s) [] := by
  refine ⟨⟨rfl, Nat.zero_le _, nofun, fun i inside => ?_⟩, [], (List.append_nil _).symm, rfl⟩
  show (if i < nshBufsize then 0 else s.nshBuf i) = 0
  rw [if_pos inside]

end InStep

/-! ## Every input -/

/-- The line in `nsh_buf` is plain, ends in zeros, and is what `echo` shows. -/
structure LineOk (s : Shell) (echo : Text) : Prop where
  index : s.nshBufindex ≤ nshBufsize - 1
  plain : ∀ i, i < s.nshBufindex →
    s.nshBuf i ≠ 0 ∧ s.nshBuf i ≠ 0x0a ∧ s.nshBuf i ≠ 0x09 ∧ s.nshBuf i ≠ 0x08
  cleared : ∀ i, s.nshBufindex ≤ i → i < nshBufsize → s.nshBuf i = 0
  agrees : (List.range s.nshBufindex).map s.nshBuf = shownLine echo

theorem Editing.lineOk {s : Shell} {line echo : Text} (editing : Editing s line)
    (shown : shownLine echo = line) : LineOk s echo := by
  have fits := editing.length_lt
  have char : ∀ i, (inside : i < line.length) → s.nshBuf i = (line)[i] :=
    fun i inside => editing.holds.char inside (Nat.lt_trans inside fits)
  refine ⟨?_, fun i inside => ?_, fun i after fits => ?_, ?_⟩
  · rw [editing.index]
    exact editing.short
  · rw [editing.index] at inside
    rw [char i inside]
    exact editing.plain _ (List.getElem_mem inside)
  · rw [editing.index] at after
    exact editing.holds.zero after fits
  · rw [shown, editing.index]
    refine List.ext_getElem (by simp) fun i _ inside => ?_
    rw [List.getElem_map, List.getElem_range, char i inside]

/-- **Line and echo agree.** After the prompt, whatever characters but newlines and zeros are typed,
`nsh_buf` holds the plain line that the text echoed since the prompt shows. -/
theorem lineOk_nshAddchar (machine : Machine) (s : Shell) (typedChars : List (BitVec 8))
    (nonzero : ∀ c ∈ typedChars, c ≠ 0) (sameLine : ∀ c ∈ typedChars, c ≠ 0x0a) :
    Returns (runAll (nshAddchar machine) typedChars (nshNewline s)) fun s' =>
      ∃ echo, s'.console.printed = (nshNewline s).console.printed ++ echo ∧ LineOk s' echo := by
  have kept : Returns (runAll (nshAddchar machine) typedChars (nshNewline s)) fun s' =>
      ∃ line, InStep (nshNewline s).console.printed s' line :=
    runAll_returns _ ⟨[], InStep.newline s⟩ fun c mem t ⟨_, inStep⟩ =>
      (nshAddchar_edits machine (nonzero c mem) (sameLine c mem) inStep.editing).mono
        fun _ edits => ⟨_, inStep.edits edits⟩
  refine kept.mono fun s' ⟨line, editing, echo, printed, shown⟩ => ?_
  exact ⟨echo, printed, editing.lineOk shown⟩

/-- Two letters, a tabulation that completes them to `alloc`, and a backspace. -/
theorem lineOk_nshAddchar_alloc :
    let machine : Machine := { atNull := [], exec := fun _ _ _ s => .ok s }
    let s := nshNewline (.start (.boot (fun _ => .zero) 2 .zero))
    Returns (runAll (nshAddchar machine) [0x61, 0x6c, 0x09, 0x08] s) fun s' =>
      ∃ echo, s'.console.printed = s.console.printed ++ echo ∧ LineOk s' echo :=
  lineOk_nshAddchar _ _ _ (by decide) (by decide)

end Nulix.Nsh
