import Nulix.Nsh.Builtins
import Nulix.Nsh.Dispatch
import Nulix.Nsh.Free

/-!
# The arguments of the builtins

Which strings of `argv` a builtin asks for, in every course that its program can take. All but `free` stay
below `argc`; `free` tests for one argument and asks for two.
-/

namespace Nulix.Nsh

open Effects Fallible Print Screen Nulix.Std Strings

/-! ## Courses -/

/-- The operation asks for no string at or behind `argc`. -/
def BuiltinOp.Given (argc : Int) : BuiltinOp → Prop
  | argv j => j < argc
  | _ => True

namespace Builtin

variable {allowed : (op : BuiltinOp) → op.Answer → Prop} {argc : Int} {α : Type}

/-- The program never asks for a string at or behind `argc`. -/
abbrev Within (allowed : (op : BuiltinOp) → op.Answer → Prop) (argc : Int) (x : BuiltinM α) (Q : α → Prop) :
    Prop :=
  x.Always allowed (BuiltinOp.Given argc) Q

@[simp] theorem within_ite {c : Prop} [Decidable c] (x y : BuiltinM α) (Q : α → Prop) :
    Within allowed argc (if c then x else y) Q ↔
      (c → Within allowed argc x Q) ∧ (¬c → Within allowed argc y Q) := by
  split
  · next holds => simp [holds]
  · next fails => simp [fails]

@[simp] theorem within_argv (j : Nat) (Q : Text → Prop) :
    Within allowed argc (argv j) Q ↔ j < argc ∧ ∀ w, allowed (.argv j) w → Q w := Iff.rfl

@[simp] theorem within_parsed (r : Except StrtoFault (BitVec 32 × Nat)) (Q : BitVec 32 × Nat → Prop) :
    Within allowed argc (parsed r) Q ↔ ∀ v, r = .ok v → Q v := by
  unfold parsed
  cases r with
  | ok v => simp
  | error e => exact iff_of_true ⟨trivial, nofun⟩ nofun

section

attribute [local simp] kprintf call argvIs BuiltinOp.Given

theorem alloc_within : Within allowed argc (alloc argc) fun _ => True := by
  by_cases few : argc < 2
  · simp [alloc, few]
  · have first : 1 < argc := by omega
    simp [alloc, few, first]

theorem hexdump_within : Within allowed argc (hexdump argc) fun _ => True := by
  by_cases few : argc < 3
  · simp [hexdump, few]
  · have first : 1 < argc := by omega
    have second : 2 < argc := by omega
    simp [hexdump, few, first, second]

theorem infoBuddy_within : Within allowed argc (infoBuddy argc) fun _ => True := by
  by_cases order : argc > 2
  · simp [infoBuddy, order]
  · simp [infoBuddy, order]

theorem info_within : Within allowed argc (info argc) fun _ => True := by
  by_cases few : argc < 2
  · simp [info, few]
  · have first : 1 < argc := by omega
    simp [info, few, first, infoBuddy_within]

theorem interrupt_within : Within allowed argc (interrupt argc) fun _ => True := by
  by_cases few : argc < 2
  · simp [interrupt, few]
  · have first : 1 < argc := by omega
    simp [interrupt, few, first]

/-- The loops ask for the same string in every turn. -/
theorem colorFrom_within (set : SbColor → SbOp) (second : 2 < argc) (table : List (Text × SbColor)) :
    Within allowed argc (colorFrom set table) fun _ => True := by
  induction table with
  | nil => simp [colorFrom, second]
  | cons entry table ih => simp [colorFrom, second, onCurrent, ih]

theorem color_within : Within allowed argc (color argc) fun _ => True := by
  by_cases none : argc < 2
  · simp [color, none, colorUsage]
  · have first : 1 < argc := by omega
    by_cases few : argc < 3
    · simp [color, none, first, few, colorUsage, onCurrent]
    · have second : 2 < argc := by omega
      simp [color, none, first, few, onCurrent, colorFrom_within _ second]

theorem keymapList_within (table : List (Text × Keyboard.Layout)) :
    Within allowed argc (keymapList table) fun _ => True := by
  induction table with
  | nil => simp [keymapList]
  | cons entry table ih => simp [keymapList, ih]

theorem keymapFrom_within (first : 1 < argc) (table : List (Text × Keyboard.Layout)) :
    Within allowed argc (keymapFrom table) fun _ => True := by
  induction table with
  | nil => simp [keymapFrom, first]
  | cons entry table ih => simp [keymapFrom, first, ih]

theorem keymap_within : Within allowed argc (keymap argc) fun _ => True := by
  by_cases few : argc < 2
  · simp [keymap, few]
  · have first : 1 < argc := by omega
    simp [keymap, few, first, keymapList_within, keymapFrom_within first]

theorem helpFrom_within (table : List (Option Text × Text)) :
    Within allowed argc (helpFrom table) fun _ => True := by
  induction table with
  | nil => simp [helpFrom]
  | cons entry table ih =>
    obtain ⟨name, description⟩ := entry
    cases name with
    | none => simp [helpFrom]
    | some name => simp [helpFrom, ih]

/-- The third test of `free` is for a string that it asks for whatever `argc` is. -/
theorem free_within_iff :
    Within allowed argc (free argc) (fun _ => True) ↔
      (argc = 2 → ∀ w, allowed (.argv 1) w → ∀ v, strtol w 0 = .ok v → w.getD v.2 0 = 0 →
        ∀ w', allowed (.argv 1) w' → w'.getD 0 0 = 0x2d) := by
  rcases lt_trichotomy argc 2 with few | rfl | more
  · simp [free, few, few.ne]
  · simp [free, freeSized]
  · have first : 1 < argc := by omega
    simp [free, freeSized, freeChunk, more, more.not_gt, more.ne', first]

end

end Builtin

/-- Every builtin but `free` stays below `argc`. -/
theorem BuiltinFn.program_within {allowed : (op : BuiltinOp) → op.Answer → Prop} {argc : Int}
    {f : BuiltinFn} (other : f ≠ .free) :
    (f.program argc).Always allowed (BuiltinOp.Given argc) fun _ => True := by
  cases f with
  | free => exact absurd rfl other
  | keymap => exact Builtin.keymap_within
  | color => exact Builtin.color_within
  | alloc => exact Builtin.alloc_within
  | info => exact Builtin.info_within
  | hexdump => exact Builtin.hexdump_within
  | interrupt => exact Builtin.interrupt_within
  | help => exact ⟨trivial, fun _ _ => Builtin.helpFrom_within _⟩
  | clear => exact ⟨trivial, fun _ _ => trivial⟩
  | next => exact ⟨trivial, fun _ _ => trivial⟩
  | prev => exact ⟨trivial, fun _ _ => trivial⟩
  | reboot => exact ⟨trivial, fun _ _ => ⟨trivial, fun _ _ => ⟨trivial, fun _ _ => trivial⟩⟩⟩
  | poweroff => exact ⟨trivial, fun _ _ => ⟨trivial, fun _ _ => trivial⟩⟩

/-! ## Words that are numerals -/

theorem length_digitRun_le (base : Nat) (l : Text) : (digitRun base l).length ≤ l.length := by
  induction l with
  | nil => exact Nat.le_refl _
  | cons c l ih =>
    unfold digitRun
    split
    · split
      · exact Nat.succ_le_succ ih
      · exact Nat.zero_le _
    · exact Nat.zero_le _

/-- A numeral ends inside its string. -/
theorem numeral_le {minus : Bool} {base : Nat} {w : Text} {v : Int} {e : Nat}
    (found : numeral minus base w = some (v, e)) : e ≤ w.length := by
  have sign : ∀ l : Text, (signOf minus l).2.length ≤ l.length := by
    intro l
    cases l with
    | nil => exact Nat.le_refl _
    | cons c l =>
      rw [signOf]
      split_ifs
      · exact Nat.le_succ _
      · exact Nat.le_succ _
      · exact Nat.le_refl _
  have radix : ∀ l : Text, (radixOf base l).2.length ≤ l.length := by
    intro l
    unfold radixOf
    split_ifs
    · exact (List.drop_sublist 2 l).length_le
    · exact Nat.le_refl _
    · exact Nat.le_refl _
    · exact Nat.le_refl _
  unfold numeral at found
  dsimp only at found
  split at found
  · cases found
  · cases found
    have spaces := (List.dropWhile_sublist (l := w) fun c => [c] = text " ").length_le
    have behind := sign (w.dropWhile fun c => [c] = text " ")
    have digits := radix (signOf minus (w.dropWhile fun c => [c] = text " ")).2
    have run := length_digitRun_le
      (radixOf base (signOf minus (w.dropWhile fun c => [c] = text " ")).2).1
      (radixOf base (signOf minus (w.dropWhile fun c => [c] = text " ")).2).2
    omega

/-- `strtol` stops at the end of a word exactly if the whole word is a numeral. -/
theorem strtol_whole_iff {w : Text} (word : w ≠ []) (nonzero : ∀ c ∈ w, c ≠ 0) {r : BitVec 32 × Nat}
    (returned : strtol w 0 = .ok r) :
    w.getD r.2 0 = 0 ↔ ∃ v, numeral true 0 w = some (v, w.length) := by
  have stops : ∀ e, e ≤ w.length → (w.getD e 0 = 0 ↔ e = w.length) := by
    intro e inside
    rcases Nat.lt_or_eq_of_le inside with before | rfl
    · have char := nonzero w[e] (List.getElem_mem before)
      rw [List.getD_eq_getElem w 0 before]
      exact iff_of_false char before.ne
    · exact iff_of_true (List.getD_eq_default w 0 (Nat.le_refl _)) rfl
  have parsed := (strto_signed limits32 w (.inl rfl)).of_eq_ok returned
  cases found : numeral true 0 w with
  | none =>
    rw [found] at parsed
    have start : r.2 = 0 := congrArg Prod.snd parsed
    have length := List.length_pos_iff.mpr word
    rw [start, stops 0 (Nat.zero_le _)]
    exact iff_of_false length.ne nofun
  | some numeral =>
    obtain ⟨v, e⟩ := numeral
    rw [found] at parsed
    have stop : r.2 = e := congrArg Prod.snd parsed
    rw [stop, stops e (numeral_le found)]
    simp

/-! ## Every line -/

/-- The strings that `argv` has in the shell `t`. What is behind the last argument may be anything, as may
the answers of the other operations. -/
def ArgvOf (t : Shell) : (op : BuiltinOp) → op.Answer → Prop
  | .argv j, w => ∀ p, t.nshCmd j = some p → w = t.word p
  | _, _ => True

/-- The call of a builtin asks for no string behind its arguments, in any course. -/
def ReadsGiven (t : Shell) (f : BuiltinFn) (argc : Nat) : Prop :=
  (f.program argc).Always (ArgvOf t) (BuiltinOp.Given argc) fun _ => True

/-- The line of `free` with one argument, which is a numeral without a minus. -/
def FreeOfAddress (ws : List Text) : Prop :=
  ∃ w v, ws = [text "free", w] ∧ numeral true 0 w = some (v, w.length) ∧ w.head? ≠ some 0x2d

/-- What is called is an entry that the first word is equal to. -/
theorem mem_calls {atNull word : Text} {argc n : Nat} {f : Option BuiltinFn} {table : List Builtin}
    (called : (f, n) ∈ calls (execcmdEventsFrom atNull word argc table)) :
    ∃ b ∈ table, b.exec = f ∧ strcmp word (b.name.getD atNull) = 0 ∧ n = argc := by
  induction table with
  | nil => cases called
  | cons b table ih =>
    rw [execcmdEventsFrom] at called
    split at called
    · next equal =>
      cases List.mem_singleton.mp called
      exact ⟨b, List.mem_cons_self, rfl, equal, rfl⟩
    · obtain ⟨b', mem, found⟩ := ih called
      exact ⟨b', List.mem_cons_of_mem b mem, found⟩

/-- `free` is called where its name is typed, and nowhere else. -/
theorem calls_free_iff {atNull word : Text} {argc n : Nat} (nonzero : ∀ c ∈ word, c ≠ 0) :
    (some BuiltinFn.free, n) ∈ calls (execcmdEventsFrom atNull word argc builtin) ↔
      word = text "free" ∧ n = argc := by
  have entry : ∀ b ∈ builtin, b.exec = some .free → b.name = some (text "free") := by simp [builtin]
  constructor
  · intro called
    obtain ⟨b, mem, function, equal, rfl⟩ := mem_calls called
    rw [entry b mem function, Option.getD_some] at equal
    exact ⟨(strcmp_eq_zero_iff nonzero (by decide)).mp equal, rfl⟩
  · rintro ⟨rfl, rfl⟩
    have named : ⟨text "free", BuiltinFn.free⟩ ∈ commands := by simp [commands, builtin]
    rw [builtin_eq, (callsOnly_command commands_ok nonzero named rfl).calls]
    exact List.mem_singleton_self _

/-- With one argument it is the only answer that counts. -/
theorem free_one_iff {allowed : (op : BuiltinOp) → op.Answer → Prop} {w : Text} (word : w ≠ [])
    (nonzero : ∀ c ∈ w, c ≠ 0) (only : ∀ x, allowed (.argv 1) x ↔ x = w) :
    Builtin.Within allowed 2 (Builtin.free 2) (fun _ => True) ↔
      ¬((∃ v, numeral true 0 w = some (v, w.length)) ∧ w.head? ≠ some 0x2d) := by
  obtain ⟨r, returned, -⟩ := strto_signed limits32 w (.inl rfl)
  have returns : strtol w 0 = .ok r := returned
  have minus : w.getD 0 0 = 0x2d ↔ w.head? = some 0x2d := by
    cases w with
    | nil => exact absurd rfl word
    | cons c l => exact Option.some_inj.symm
  rw [Builtin.free_within_iff, ← strtol_whole_iff word nonzero returns, ne_eq, not_and_not_right,
    ← minus]
  constructor
  · intro reads whole
    exact reads rfl w ((only w).mpr rfl) r returns whole w ((only w).mpr rfl)
  · intro reads _ x isWord v parsed whole x' isWord'
    rw [(only x).mp isWord] at parsed whole
    rw [(only x').mp isWord']
    rw [Except.ok.inj (parsed.symm.trans returns)] at whole
    exact reads whole

/-- A call of `free` on the words of a line. -/
theorem readsGiven_free_iff {s t : Shell} {line : Text} (split : Tokenized s line t) :
    ReadsGiven t .free (words line).length ↔
      ¬∃ a w v, words line = [a, w] ∧ numeral true 0 w = some (v, w.length) ∧ w.head? ≠ some 0x2d := by
  unfold ReadsGiven
  by_cases one : (words line).length = 2
  · obtain ⟨a, w, two⟩ := List.length_eq_two.mp one
    have inside : 1 < (words line).length := by omega
    obtain ⟨p, pointer, same⟩ := split.word 1 inside
    have second : (words line)[1] = w := by simp [two]
    rw [second] at same
    have word : w ≠ [] := Tokens.ne_nil_of_mem_tokens (two ▸ List.mem_cons_of_mem a List.mem_cons_self)
    have nonzero : ∀ c ∈ w, c ≠ 0 := by
      rw [← same]
      exact fun c mem => ne_zero_of_mem_contents mem
    have only : ∀ x, ArgvOf t (.argv 1) x ↔ x = w := by
      intro x
      constructor
      · intro given
        exact (given p pointer).trans same
      · rintro rfl p' pointer'
        cases pointer.symm.trans pointer'
        exact same.symm
    rw [one]
    refine (free_one_iff word nonzero only).trans (not_congr ?_)
    constructor
    · rintro ⟨⟨v, whole⟩, sign⟩
      exact ⟨a, w, v, two, whole, sign⟩
    · rintro ⟨a', w', v, two', whole, sign⟩
      cases two.symm.trans two'
      exact ⟨⟨v, whole⟩, sign⟩
  · refine iff_of_true (Builtin.free_within_iff.mpr fun two => absurd two ?_) ?_
    · exact_mod_cast one
    · rintro ⟨a, w, v, two, -⟩
      exact one (by rw [two]; rfl)

/-- A line without a word dispatches to nothing. -/
theorem execcmdEvents_blank {screens : Screens} {turns : List Turn} {s t : Shell}
    (ran : nsh turns (.start screens) = .ok s)
    (split : Tokenized ((s.onCurrent sbScrollDown).print (text "\n") []) (session turns).line t)
    (blank : words (session turns).line = []) (atNull : Text) : execcmdEvents atNull t = [] := by
  have none : t.nshCmd 0 = none := by
    rw [split.kept 0 (by rw [blank]; exact Nat.le_refl 0)]
    exact (nsh_follows ran).cleared 0 (by decide)
  rw [execcmdEvents, none]

/-- **The arguments of the builtins.** In every session, whatever builtin the line under way dispatches to,
it asks for no string of `argv` behind its arguments, exactly if the line is not `free` of an address
alone. -/
theorem readsGiven_iff (screens : Screens) (turns : List Turn) (s : Shell)
    (ran : nsh turns (.start screens) = .ok s) :
    Returns (dispatched s) fun t => ∀ atNull,
      ((∀ f argc, (some f, argc) ∈ calls (execcmdEvents atNull t) → ReadsGiven t f argc) ↔
        ¬FreeOfAddress (words (session turns).line)) := by
  obtain ⟨t, returned, split⟩ := dispatched_tokenized ran
  refine ⟨t, returned, fun atNull => ?_⟩
  cases line : words (session turns).line with
  | nil =>
    rw [execcmdEvents_blank ran split line]
    refine iff_of_true nofun ?_
    rintro ⟨w, v, two, -⟩
    cases two
  | cons word rest =>
    have dispatch := (dispatched_words ran (by rw [line]; rfl)).of_eq_ok returned
    have free := readsGiven_free_iff split
    rw [dispatch.events]
    rw [line] at free ⊢
    constructor
    · rintro given ⟨w, v, two, numeral, sign⟩
      obtain ⟨rfl, rfl⟩ := List.cons.inj two
      exact free.mp (given _ _ ((calls_free_iff dispatch.nonzero).mpr ⟨rfl, rfl⟩))
        ⟨_, w, v, rfl, numeral, sign⟩
    · intro other f argc called
      by_cases isFree : f = .free
      · subst isFree
        obtain ⟨rfl, rfl⟩ := (calls_free_iff dispatch.nonzero).mp called
        refine free.mpr ?_
        rintro ⟨a, w, v, two, numeral, sign⟩
        obtain ⟨rfl, rfl⟩ := List.cons.inj two
        exact other ⟨w, v, rfl, numeral, sign⟩
      · exact BuiltinFn.program_within isFree

/-- `free` of a chunk, with both of its arguments. -/
theorem readsGiven_iff_chunk :
    let turns := typing (text "free 0x2000 4096")
    let start := Shell.start (.boot (fun _ => .zero) 2 .zero)
    ∃ s, nsh turns start = .ok s ∧ Returns (dispatched s) fun t => ∀ atNull,
      ((∀ f argc, (some f, argc) ∈ calls (execcmdEvents atNull t) → ReadsGiven t f argc) ↔
        ¬FreeOfAddress (words (session turns).line)) := by
  obtain ⟨s, ran, -⟩ := nsh_returns (typing_returning (text "free 0x2000 4096")) _
  exact ⟨s, ran, readsGiven_iff _ _ s ran⟩

/-- `free` of an address without a size. -/
theorem not_readsGiven_free :
    ¬∀ (screens : Screens) (turns : List Turn) (s : Shell), nsh turns (.start screens) = .ok s →
      Returns (dispatched s) fun t => ∀ atNull f argc,
        (some f, argc) ∈ calls (execcmdEvents atNull t) → ReadsGiven t f argc := by
  intro always
  obtain ⟨s, ran, -⟩ :=
    nsh_returns (typing_returning (text "free 0x2000")) (.boot (fun _ => .zero) 2 .zero)
  obtain ⟨t, returned, given⟩ := always _ _ s ran
  have split := (dispatched_tokenized ran).of_eq_ok returned
  have first : (words (session (typing (text "free 0x2000"))).line).head? = some (text "free") := by decide
  have dispatch := (dispatched_words ran first).of_eq_ok returned
  have line : words (session (typing (text "free 0x2000"))).line = [text "free", text "0x2000"] := by decide
  refine (readsGiven_free_iff split).mp (given [] _ _ ?_) ⟨_, _, 0x2000, line, by decide, by decide⟩
  rw [dispatch.events, calls_free_iff dispatch.nonzero]
  exact ⟨rfl, rfl⟩

/-! ## What `free` does -/

/-- The operations of `free` on the state that it works on. The others are left to `other`. -/
def Free.handle (b : Kpm.Buddy) (strings : Nat → Text)
    (other : (op : BuiltinOp) → Free → Except FreeFault (op.Answer × Free)) :
    (op : BuiltinOp) → Free → Except FreeFault (op.Answer × Free)
  | .argv j, s => .ok (strings j, s)
  | .kprintf fmt ap, s => .ok ((), { s with console := Print.kprintf fmt ap s.console })
  | .kpmFree chunk, s => do
    let m ← (Kpm.kpmFree b chunk s.mem).mapError .kpm
    return ((), { s with mem := m, freed := chunk :: s.freed })
  | .fault e, _ => .error (.strto e)
  | op, s => other op s

section

variable (b : Kpm.Buddy) (strings : Nat → Text)
  (other : (op : BuiltinOp) → Free → Except FreeFault (op.Answer × Free))

theorem Builtin.run_parsed_bind {α : Type} (result : Except StrtoFault (BitVec 32 × Nat))
    (f : BitVec 32 × Nat → BuiltinM α) (s : Free) :
    (parsed result >>= f).run (Free.handle b strings other) s =
      result.mapError .strto >>= fun r => (f r).run (Free.handle b strings other) s := by
  cases result with
  | error e => rfl
  | ok r => rfl

theorem Builtin.freeSized_run (addr : BitVec 32) (s : Free) :
    (freeSized addr).run (Free.handle b strings other) s = (do
      let (size, ptr) ← (strtol (strings 2) 0).mapError .strto
      if (strings 2).getD ptr 0 ≠ 0 ∨ size.slt 0 then
        return (-1, s.print (text "free: Size not well formatted.\n"))
      else Nsh.freeChunk b { addr := addr.toNat, size := size.toNat } s) := by
  refine (Builtin.run_parsed_bind b strings other (strtol (strings 2) 0) _ s).trans ?_
  refine bind_congr fun r => ?_
  dsimp only
  split
  · rfl
  · unfold freeChunk Nsh.freeChunk
    show (Except.mapError _ _ >>= _) >>= _ = _
    rw [bind_assoc]
    rfl

/-- The program of `free` is the function `free`. -/
theorem Builtin.free_run (argc : Int) (s : Free) :
    (Builtin.free argc).run (Free.handle b strings other) s = Nsh.free b argc strings s := by
  unfold Builtin.free Nsh.free
  by_cases few : argc < 2
  · rw [if_pos few, if_pos few]
    rfl
  rw [if_neg few, if_neg few]
  refine (Builtin.run_parsed_bind b strings other (strtol (strings 1) 0) _ s).trans ?_
  refine bind_congr fun r => ?_
  dsimp only
  by_cases rest : (strings 1).getD r.2 0 ≠ 0
  · rw [if_pos rest, if_pos (.inl rest)]
    rfl
  rw [if_neg rest]
  show (if (strings 1).getD 0 0 = 0x2d then _ else _ : BuiltinM Int).run _ s = _
  by_cases minus : (strings 1).getD 0 0 = 0x2d
  · rw [if_pos minus, if_pos (.inr minus)]
    rfl
  · rw [if_neg minus, if_neg (not_or_intro rest minus)]
    exact freeSized_run b strings other r.1 s

end

end Nulix.Nsh
