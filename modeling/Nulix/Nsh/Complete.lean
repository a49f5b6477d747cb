import Nulix.Nsh.Session

/-!
# The completion of a command name

A tab goes through all names of the table and completes the line by every name that goes on after it,
comparing the later names with the line as it then is. Since no name of the table goes on after another,
it is the first such name that the line becomes, and a second tab finds nothing to add. Before that,
as before every character, the viewport is put where the cursor is.
-/

namespace Nulix.Nsh

open Fallible Print Screen Strings

/-- The name goes on after the line. -/
def GoesOn (line name : Text) : Prop := line <+: name ∧ line ≠ name

instance (line name : Text) : Decidable (GoesOn line name) :=
  inferInstanceAs (Decidable (line <+: name ∧ line ≠ name))

/-- The first name of the table that goes on after the line. -/
def firstCompletion : List Builtin → Text → Option Text
  | [], _ => none
  | b :: bs, line =>
    match b.name with
    | none => none
    | some name => if GoesOn line name then some name else firstCompletion bs line

/-- No name of the table goes on after another one. -/
def PrefixFree (table : List Builtin) : Prop :=
  ∀ a ∈ table, ∀ b ∈ table, ∀ n m, a.name = some n → b.name = some m → ¬GoesOn n m

theorem builtin_prefixFree : PrefixFree builtin := by
  have pairs : ∀ n ∈ builtin.filterMap Builtin.name, ∀ m ∈ builtin.filterMap Builtin.name,
      ¬GoesOn n m := by
    decide +kernel
  intro a mem b mem' n m named named'
  exact pairs n (List.mem_filterMap.mpr ⟨a, mem, named⟩) m (List.mem_filterMap.mpr ⟨b, mem', named'⟩)

variable {table : List Builtin} {line name : Text} {s s' : Shell}

theorem firstCompletion_mem (first : firstCompletion table line = some name) :
    GoesOn line name ∧ ∃ b ∈ table, b.name = some name := by
  induction table with
  | nil => cases first
  | cons b table ih =>
    unfold firstCompletion at first
    cases named : b.name with
    | none =>
      rw [named] at first
      cases first
    | some n =>
      rw [named] at first
      dsimp only at first
      split_ifs at first with goes
      · cases first
        exact ⟨goes, b, List.mem_cons_self, named⟩
      · obtain ⟨goesOn, b', mem, named'⟩ := ih first
        exact ⟨goesOn, b', List.mem_cons_of_mem b mem, named'⟩

theorem firstCompletion_none (ends : ∀ b ∈ table, ∀ n, b.name = some n → ¬GoesOn line n) :
    firstCompletion table line = none := by
  induction table with
  | nil => rfl
  | cons b table ih =>
    unfold firstCompletion
    cases named : b.name with
    | none => rfl
    | some n =>
      dsimp only
      rw [if_neg (ends b List.mem_cons_self n named)]
      exact ih fun b' mem => ends b' (List.mem_cons_of_mem b mem)

/-- A completed line has no completion. -/
theorem firstCompletion_completed (free : PrefixFree table)
    (first : firstCompletion table line = some name) : firstCompletion table name = none := by
  obtain ⟨-, b, mem, named⟩ := firstCompletion_mem first
  exact firstCompletion_none fun b' mem' n named' => free b mem b' mem' name n named named'

/-! ## The loop over the table -/

/-- The rest of the name is printed and appended. -/
def completed (line name : Text) (s : Shell) : Shell :=
  nshFill (name.drop line.length) (s.print (text "%s") [.str (name.drop line.length)])

theorem Editing.nshComplete_goesOn (editing : Editing s line) (goes : GoesOn line name) :
    nshComplete name s = completed line name s := by
  obtain ⟨⟨q, rfl⟩, other⟩ := goes
  have some : q ≠ [] := by
    rintro rfl
    exact other (List.append_nil line).symm
  rw [completed, List.drop_left]
  exact editing.nshComplete_rest some

theorem Editing.completed (editing : Editing s line) (goes : GoesOn line name)
    (plain : ∀ c ∈ name, Plain c) (fits : name.length ≤ nshBufsize - 1) :
    Editing (completed line name s) name := by
  obtain ⟨⟨q, rfl⟩, -⟩ := goes
  rw [List.length_append] at fits
  rw [Nsh.completed, List.drop_left]
  exact (editing.print _ _).fill (fun c mem => plain c (List.mem_append_right line mem)) fits

/-- The loop completes the line by the first name that goes on after it. -/
theorem Editing.nshCompletions_eq (editing : Editing s line) (free : PrefixFree table)
    (names : ∀ b ∈ table, ∀ name ∈ b.name, (∀ c ∈ name, Plain c) ∧ name.length ≤ nshBufsize - 1) :
    nshCompletions table s =
      match firstCompletion table line with
      | none => s
      | some name => Nsh.completed line name s := by
  induction table generalizing s line with
  | nil => rfl
  | cons b table ih =>
    have free' : PrefixFree table := fun a mem b' mem' =>
      free a (List.mem_cons_of_mem b mem) b' (List.mem_cons_of_mem b mem')
    have names' := fun b' mem => names b' (List.mem_cons_of_mem b mem)
    unfold nshCompletions firstCompletion
    cases named : b.name with
    | none => rfl
    | some name =>
      dsimp only
      by_cases goes : GoesOn line name
      · obtain ⟨plain, fits⟩ := names b List.mem_cons_self name named
        have none : firstCompletion table name = none :=
          firstCompletion_none fun b' mem n named' =>
            free b List.mem_cons_self b' (List.mem_cons_of_mem b mem) name n named named'
        rw [if_pos goes, editing.nshComplete_goesOn goes,
          ih (editing.completed goes plain fits) free' names', none]
      · rw [if_neg goes, editing.nshComplete_idle goes]
        exact ih editing free' names'

/-! ## A tab -/

/-- Where the viewport was put once it stays. -/
theorem sbScrollDown_twice (d : Display) : sbScrollDown (sbScrollDown d) = sbScrollDown d := by
  have near : ¬sbLdiff (sbScrollDown d).sb.viewport (sbScrollDown d).sb.cursor > vgaHeight := by
    rw [sbScrollDown_sb]
    show ¬sbLdiff d.sb.bottom d.sb.cursor > 25
    unfold Screenbuf.bottom
    split_ifs with far
    · have diff : sbDiff (d.sb.cursor - 1920) d.sb.cursor = 1920 := by
        rw [sbDiff, if_pos (by omega)]
        omega
      rw [sbLdiff, diff]
      decide
    · exact far
  conv_lhs => rw [sbScrollDown, if_neg near]

theorem onCurrent_twice {f : Display → Display} (twice : ∀ d, f (f d) = f d) (s : Shell) :
    (s.onCurrent f).onCurrent f = s.onCurrent f := by
  have screens : (s.console.screens.onCurrent f).onCurrent f = s.console.screens.onCurrent f := by
    have display := ScreensOk.display_onCurrent f s.console.screens
    rw [Screens.onCurrent, display, twice]
    simp only [Screens.onCurrent, Function.update_idem]
  exact congrArg (fun screens => { s with console := { s.console with screens := screens } }) screens

/-- What `nsh_addchar` does with a tab on a line that is not empty. -/
theorem Editing.nshAddchar_tab (editing : Editing s line) (filled : line ≠ []) (machine : Machine) :
    nshAddchar machine 0x09 s =
      .ok (match firstCompletion builtin line with
        | none => s.onCurrent sbScrollDown
        | some name => Nsh.completed line name (s.onCurrent sbScrollDown)) := by
  have index : (s.onCurrent sbScrollDown).nshBufindex ≠ 0 := by
    show s.nshBufindex ≠ 0
    rw [editing.index]
    exact mt List.eq_nil_of_length_eq_zero filled
  have scrolled := editing.onCurrent sbScrollDown
  unfold nshAddchar
  dsimp only
  rw [if_neg (by decide), if_neg (by decide), if_pos rfl, if_neg index,
    scrolled.nshCompletions_eq builtin_prefixFree builtin_names]
  rfl

/-- The shell after a tab: the viewport is where the cursor is; if a name goes on after the line, it is
the line, and what was missing of it is printed; if none does, that is all. -/
structure TabOk (s : Shell) (line : Text) (s' : Shell) : Prop where
  completes : ∀ name, firstCompletion builtin line = some name →
    Editing s' name ∧ s'.nshCmd = s.nshCmd ∧
      ∃ suffix, name = line ++ suffix ∧ kprintfText (text "%s") [.str suffix] = suffix ∧
        s'.console = kprintf (text "%s") [.str suffix] (s.onCurrent sbScrollDown).console
  idle : firstCompletion builtin line = none → s' = s.onCurrent sbScrollDown

theorem Editing.tabOk (editing : Editing s line) (filled : line ≠ []) (machine : Machine) :
    Returns (nshAddchar machine 0x09 s) (TabOk s line) := by
  rw [editing.nshAddchar_tab filled machine]
  refine .ok ⟨fun name first => ?_, fun none => ?_⟩
  · obtain ⟨goes, b, mem, named⟩ := firstCompletion_mem first
    obtain ⟨plain, fits⟩ := builtin_names b mem name named
    have after := (editing.onCurrent sbScrollDown).completed goes plain fits
    rw [first]
    obtain ⟨⟨q, rfl⟩, -⟩ := goes
    obtain ⟨cmd, console⟩ := nshFill_frame q ((s.onCurrent sbScrollDown).print (text "%s") [.str q])
    have room : nshBufsize ≤ bufsize := by decide
    have echoed : kprintfText (text "%s") [.str q] = q := by
      refine kprintfText_str ?_ fun c mem => (plain c (List.mem_append_right line mem)).1
      rw [List.length_append] at fits
      have short := editing.length_lt
      omega
    dsimp only
    rw [Nsh.completed, List.drop_left] at after ⊢
    exact ⟨after, cmd, q, rfl, echoed, console⟩
  · rw [none]

/-- **Tab completion.** In every session, a tab on a line that is not empty does what `TabOk` says, and a
second tab right after it does no more than to put the viewport where the cursor is: nothing at all where
the first one completed nothing. -/
theorem tab_completes (screens : Screens) (turns : List Turn) (s : Shell)
    (ran : nsh turns (.start screens) = .ok s) (filled : (session turns).line ≠ [])
    (machine machine' : Machine) :
    Returns (nshAddchar machine 0x09 s) fun s' =>
      TabOk s (session turns).line s' ∧
        nshAddchar machine' 0x09 s' = .ok (s'.onCurrent sbScrollDown) ∧
        (firstCompletion builtin (session turns).line = none → s'.onCurrent sbScrollDown = s') := by
  have editing := (nsh_follows ran).editing
  refine (editing.tabOk filled machine).mono fun s' tab => ⟨tab, ?_, fun none => ?_⟩
  · cases first : firstCompletion builtin (session turns).line with
    | none =>
      rw [tab.idle first, (editing.onCurrent sbScrollDown).nshAddchar_tab filled machine', first]
    | some name =>
      obtain ⟨after, -, suffix, split, -⟩ := tab.completes name first
      have longer : name ≠ [] := by
        rw [split]
        exact fun empty => filled (List.append_eq_nil_iff.mp empty).1
      rw [after.nshAddchar_tab longer machine', firstCompletion_completed builtin_prefixFree first]
  · rw [tab.idle none]
    exact onCurrent_twice sbScrollDown_twice s

/-- The letters `in`, of which `info` is the first completion. -/
theorem tab_completes_info :
    let turns := typing (text "in")
    let machine : Machine := { atNull := [], exec := fun _ _ _ s => .ok s }
    ∃ s, nsh turns (.start (.boot (fun _ => .zero) 2 .zero)) = .ok s ∧
      Returns (nshAddchar machine 0x09 s) fun s' =>
        TabOk s (session turns).line s' ∧
          nshAddchar machine 0x09 s' = .ok (s'.onCurrent sbScrollDown) ∧
          (firstCompletion builtin (session turns).line = none → s'.onCurrent sbScrollDown = s') := by
  obtain ⟨s, ran, -⟩ := nsh_returns (typing_returning (text "in")) _
  exact ⟨s, ran, tab_completes _ _ s ran (by decide) _ _⟩

/-- After 27 empty lines and the letter `z`, with the top of the buffer shown. -/
def scrolledUp : List Turn :=
  typing (List.replicate 27 0x0a ++ text "z") ++
    [{ key := .pageUp, char := 0, builtins := { atNull := [], run := fun _ _ _ s => .ok s.console } }]

/-- The last cell of the line in the window, where there is a shell. -/
def letterCell (r : Except Stuck Shell) : Option Cell :=
  r.toOption.map fun s => s.console.screens.vga.cells 1925

/-- A tab that completes nothing brings the letter into view. -/
theorem not_tab_leaves_screen :
    ¬∀ (screens : Screens) (turns : List Turn) (s : Shell), nsh turns (.start screens) = .ok s →
      (session turns).line ≠ [] → firstCompletion builtin (session turns).line = none →
        ∀ machine : Machine, Returns (nshAddchar machine 0x09 s) fun s' =>
          ∀ j, 0 ≤ j → j < vgaWidth * vgaHeight →
            s'.console.screens.vga.cells j = s.console.screens.vga.cells j := by
  intro leaves
  have returning : ∀ t ∈ scrolledUp, t.Returning := by
    intro t mem
    rcases List.mem_append.mp mem with typed | shortcut
    · exact typing_returning _ t typed
    · obtain rfl := List.mem_singleton.mp shortcut
      exact ⟨rfl, fun f argc argv s => .ok trivial⟩
  obtain ⟨s, ran, -⟩ := nsh_returns returning (.boot (fun _ => .zero) 2 .zero)
  let machine : Machine := { atNull := [], exec := fun _ _ _ s => .ok s }
  obtain ⟨s', tab, same⟩ := leaves _ _ s ran (by decide) (by decide +kernel) machine
  have differ : letterCell (nsh scrolledUp (.start (.boot (fun _ => .zero) 2 .zero)) >>=
      nshAddchar machine 0x09) ≠
        letterCell (nsh scrolledUp (.start (.boot (fun _ => .zero) 2 .zero))) := by
    decide +kernel
  rw [ran] at differ
  refine differ ?_
  show letterCell (nshAddchar machine 0x09 s) = _
  rw [tab]
  exact congrArg some (same 1925 (by decide) (by decide))

end Nulix.Nsh
