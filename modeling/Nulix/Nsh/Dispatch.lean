import Nulix.Nsh.Session

/-!
# The command dispatch

What `nsh_execcmd` does with the first word of a line, event by event: the names it compares the word
with, the function it calls and the message it prints. Its loop runs over the whole table, so that a word
that is no command is compared with the null name of the last entry too.
-/

namespace Nulix.Nsh

open Fallible Print Screen Strings

/-! ## Events -/

inductive DispatchEvent
  /-- `strcmp(nsh_cmd[0], name)` -/
  | strcmp (name : Option Text)
  /-- `exec(argc, nsh_cmd)` -/
  | exec (f : Option BuiltinFn) (argc : Nat)
  /-- The message after the loop. -/
  | notFound

/-- The loop of `nsh_execcmd`, and the message after it. -/
def execcmdEventsFrom (atNull word : Text) (argc : Nat) : List Builtin → List DispatchEvent
  | [] => [.notFound]
  | b :: bs =>
    .strcmp b.name ::
      if strcmp word (b.name.getD atNull) = 0 then [.exec b.exec argc]
      else execcmdEventsFrom atNull word argc bs

/-- The events of `nsh_execcmd`. -/
def execcmdEvents (atNull : Text) (s : Shell) : List DispatchEvent :=
  match s.nshCmd 0 with
  | none => []
  | some p => execcmdEventsFrom atNull (s.word p) s.nshCmdnarg builtin

/-- The effect of an event, `word` being the first word. -/
def DispatchEvent.run (machine : Machine) (word : Text) : DispatchEvent → Shell → Except Stuck Shell
  | strcmp _, s => .ok s
  | exec (some f) argc, s => machine.exec f argc s.nshCmd s
  | exec none _, _ => .error .nullCall
  | notFound, s => .ok (s.print (text "nsh: %s: command not found\n") [.str word])

/-- The functions called, with their `argc`. -/
def DispatchEvent.call : DispatchEvent → Option (Option BuiltinFn × Nat)
  | exec f argc => some (f, argc)
  | _ => none

def calls (events : List DispatchEvent) : List (Option BuiltinFn × Nat) :=
  events.filterMap DispatchEvent.call

/-- The events are what `nsh_execcmd` does. -/
theorem nshExeccmdFrom_events (machine : Machine) (word : Text) (s : Shell) (table : List Builtin) :
    nshExeccmdFrom machine word s table =
      runAll (DispatchEvent.run machine word)
        (execcmdEventsFrom machine.atNull word s.nshCmdnarg table) s := by
  have last : ∀ e, runAll (DispatchEvent.run machine word) [e] s = e.run machine word s :=
    fun e => bind_pure _
  induction table with
  | nil => exact (last .notFound).symm
  | cons b bs ih =>
    unfold nshExeccmdFrom execcmdEventsFrom
    show _ = runAll (DispatchEvent.run machine word) (if _ then _ else _) s
    split
    · rw [last]
      cases b.exec <;> rfl
    · exact ih

theorem nshExeccmd_events (machine : Machine) (word : Text) (s : Shell)
    (first : ∃ p, s.nshCmd 0 = some p ∧ s.word p = word) :
    nshExeccmd machine s =
      runAll (DispatchEvent.run machine word) (execcmdEvents machine.atNull s) s := by
  obtain ⟨p, pointer, rfl⟩ := first
  unfold nshExeccmd execcmdEvents
  rw [pointer]
  exact nshExeccmdFrom_events machine _ s builtin

/-! ## The table -/

/-- `strcmp` finds two strings equal exactly if they are. -/
theorem strcmp_eq_zero_iff {s t : Text} (nonzero : ∀ c ∈ s, c ≠ 0) (nonzero' : ∀ c ∈ t, c ≠ 0) :
    strcmp s t = 0 ↔ s = t := by
  have differ : ∀ {c d : BitVec 8}, c ≠ d → c.toInt - d.toInt ≠ 0 := fun other same =>
    other (BitVec.eq_of_toInt_eq (Int.sub_eq_zero.mp same))
  induction s generalizing t with
  | nil =>
    cases t with
    | nil => exact iff_of_true rfl rfl
    | cons d t => exact iff_of_false (differ (nonzero' d List.mem_cons_self).symm) nofun
  | cons c s ih =>
    cases t with
    | nil => exact iff_of_false (differ (nonzero c List.mem_cons_self)) nofun
    | cons d t =>
      have rest := ih (fun e mem => nonzero e (List.mem_cons_of_mem c mem))
        fun e mem => nonzero' e (List.mem_cons_of_mem d mem)
      unfold strcmp
      split_ifs with same
      · subst same
        exact rest.trans (List.cons_inj_right c).symm
      · exact iff_of_false (differ same) fun both => same (List.cons.inj both).1

/-- The entries before the last one. -/
def commands : List Builtin := builtin.dropLast

theorem builtin_eq : builtin = commands ++ [⟨none, none⟩] := rfl

/-- Each of them has a name and a function, and no name stands twice. -/
structure Commands (table : List Builtin) : Prop where
  name : ∀ b ∈ table, ∃ name, b.name = some name ∧ ∀ c ∈ name, c ≠ 0
  exec : ∀ b ∈ table, b.exec ≠ none
  apart : table.Pairwise fun a b => a.name ≠ b.name

theorem commands_ok : Commands commands where
  name := by
    have named : ∀ b ∈ commands, b.name.isSome := by decide
    intro b mem
    obtain ⟨name, isName⟩ := Option.isSome_iff_exists.mp (named b mem)
    have plain := (builtin_names b (List.mem_of_mem_dropLast mem) name isName).1
    exact ⟨name, isName, fun c inName => (plain c inName).1⟩
  exec := by decide
  apart := by decide +kernel

variable {table : List Builtin} {atNull word : Text} {argc : Nat} {b : Builtin}

/-- An entry that the word is not equal to. -/
theorem execcmdEventsFrom_skip {name : Text} (named : b.name = some name) (other : name ≠ word)
    (nonzero : ∀ c ∈ word, c ≠ 0) (nonzero' : ∀ c ∈ name, c ≠ 0) :
    execcmdEventsFrom atNull word argc (b :: table) =
      .strcmp (some name) :: execcmdEventsFrom atNull word argc table := by
  have unequal : strcmp word name ≠ 0 := fun same =>
    other ((strcmp_eq_zero_iff nonzero nonzero').mp same).symm
  rw [execcmdEventsFrom, named, Option.getD_some, if_neg unequal]

/-- The entry `b` is called, and nothing is done with the null name or the message. -/
structure CallsOnly (b : Builtin) (argc : Nat) (events : List DispatchEvent) : Prop where
  compares : .strcmp none ∉ events
  calls : calls events = [(b.exec, argc)]
  silent : .notFound ∉ events

theorem Commands.tail (ok : Commands (b :: table)) : Commands table :=
  ⟨fun b' mem => ok.name b' (List.mem_cons_of_mem b mem),
    fun b' mem => ok.exec b' (List.mem_cons_of_mem b mem), ok.apart.of_cons⟩

theorem callsOnly_command {rest : List Builtin} (ok : Commands table) (nonzero : ∀ c ∈ word, c ≠ 0)
    (mem : b ∈ table) (named : b.name = some word) :
    CallsOnly b argc (execcmdEventsFrom atNull word argc (table ++ rest)) := by
  induction table with
  | nil => cases mem
  | cons b' table ih =>
    obtain ⟨name, named', nonzero'⟩ := ok.name b' List.mem_cons_self
    rw [List.cons_append]
    rcases List.mem_cons.mp mem with rfl | later
    · have equal : strcmp word word = 0 := (strcmp_eq_zero_iff nonzero nonzero).mpr rfl
      rw [execcmdEventsFrom, named, Option.getD_some, if_pos equal]
      exact ⟨by simp, rfl, by simp⟩
    · have other : name ≠ word := by
        rintro rfl
        exact (List.pairwise_cons.mp ok.apart).1 b later (named'.trans named.symm)
      obtain ⟨compares, called, silent⟩ := ih ok.tail later
      rw [execcmdEventsFrom_skip named' other nonzero nonzero']
      exact ⟨by simpa using compares, called, by simpa using silent⟩

/-- A word that is no command is compared with the null name. -/
theorem compares_null (ok : Commands table) (nonzero : ∀ c ∈ word, c ≠ 0)
    (missing : ∀ b ∈ table, b.name ≠ some word) :
    .strcmp none ∈ execcmdEventsFrom atNull word argc (table ++ [⟨none, none⟩]) := by
  induction table with
  | nil => exact List.mem_cons_self
  | cons b table ih =>
    obtain ⟨name, named, nonzero'⟩ := ok.name b List.mem_cons_self
    have other : name ≠ word := by
      rintro rfl
      exact missing b List.mem_cons_self named
    rw [List.cons_append, execcmdEventsFrom_skip named other nonzero nonzero']
    exact List.mem_cons_of_mem _ (ih ok.tail fun b' mem => missing b' (List.mem_cons_of_mem b mem))

/-! ## Every line -/

/-- The command of the first word is called once, with the number of words; if there is none, nothing is
called and the message is printed; and the null entry is not touched. -/
structure DispatchOk (word : Text) (argc : Nat) (events : List DispatchEvent) : Prop where
  compares : .strcmp none ∉ events
  null : ∀ n, .exec none n ∉ events
  found : ∀ b ∈ builtin, b.name = some word → calls events = [(b.exec, argc)] ∧ .notFound ∉ events
  missing : (∀ b ∈ builtin, b.name ≠ some word) → calls events = [] ∧ .notFound ∈ events

theorem mem_commands (mem : b ∈ builtin) (named : b.name ≠ none) : b ∈ commands := by
  rw [builtin_eq] at mem
  rcases List.mem_append.mp mem with command | last
  · exact command
  · rw [List.mem_singleton] at last
    subst last
    exact absurd rfl named

theorem dispatchOk_iff (nonzero : ∀ c ∈ word, c ≠ 0) :
    DispatchOk word argc (execcmdEventsFrom atNull word argc builtin) ↔
      ∃ b ∈ builtin, b.name = some word := by
  constructor
  · intro ok
    by_contra missing
    push Not at missing
    refine ok.compares ?_
    rw [builtin_eq]
    refine compares_null commands_ok nonzero fun b mem => missing b ?_
    rw [builtin_eq]
    exact List.mem_append_left _ mem
  · rintro ⟨b, mem, named⟩
    have only : ∀ b ∈ builtin, b.name = some word →
        CallsOnly b argc (execcmdEventsFrom atNull word argc builtin) := by
      intro b mem named
      have command := mem_commands mem (by rw [named]; exact nofun)
      rw [builtin_eq]
      exact callsOnly_command commands_ok nonzero command named
    obtain ⟨compares, called, silent⟩ := only b mem named
    have function := commands_ok.exec b (mem_commands mem (by rw [named]; exact nofun))
    refine ⟨compares, fun n null => function ?_, fun b mem named => ?_, fun missing => ?_⟩
    · -- the only call is that of the command
      have call : ((none : Option BuiltinFn), n) ∈ calls (execcmdEventsFrom atNull word argc builtin) :=
        List.mem_filterMap.mpr ⟨_, null, rfl⟩
      rw [called, List.mem_singleton] at call
      exact (congrArg Prod.fst call).symm
    · exact ⟨(only b mem named).calls, (only b mem named).silent⟩
    · exact absurd named (missing b mem)

/-- The line under way, as `nsh_execcmd` finds it. -/
structure Dispatched (ws : List Text) (word : Text) (t : Shell) : Prop where
  first : ∃ p, t.nshCmd 0 = some p ∧ t.word p = word
  nonzero : ∀ c ∈ word, c ≠ 0
  events : ∀ atNull, execcmdEvents atNull t = execcmdEventsFrom atNull word ws.length builtin

/-- The line under way is split into its words. -/
theorem dispatched_tokenized {screens : Screens} {turns : List Turn} {s : Shell}
    (ran : nsh turns (.start screens) = .ok s) :
    Returns (dispatched s)
      (Tokenized ((s.onCurrent sbScrollDown).print (text "\n") []) (session turns).line) := by
  have printed : Editing ((s.onCurrent sbScrollDown).print (text "\n") []) (session turns).line :=
    ((nsh_follows ran).editing.onCurrent sbScrollDown).print _ _
  exact nshCreatecmd_tokenized printed.lineBuffer

theorem dispatched_words {screens : Screens} {turns : List Turn} {s : Shell}
    (ran : nsh turns (.start screens) = .ok s)
    (first : (words (session turns).line).head? = some word) :
    Returns (dispatched s) (Dispatched (words (session turns).line) word) := by
  refine (dispatched_tokenized ran).mono fun t split => ?_
  have some : 0 < (words (session turns).line).length := by
    rw [List.length_pos_iff]
    rintro none
    rw [none] at first
    cases first
  obtain ⟨p, pointer, entry⟩ := split.word 0 some
  have same : t.word p = word := by
    rw [List.head?_eq_getElem?, List.getElem?_eq_getElem some] at first
    exact entry.trans (Option.some.inj first)
  refine ⟨⟨p, pointer, same⟩, ?_, fun atNull => ?_⟩
  · rw [← same]
    exact fun c mem => ne_zero_of_mem_contents mem
  · rw [execcmdEvents, pointer, ← split.count]
    show execcmdEventsFrom atNull (t.word p) t.nshCmdnarg builtin = _
    rw [same]

/-- **The dispatch.** In every session, when the line under way is dispatched, the events are what
`nsh_execcmd` does, and they are right exactly if the first word is a command. -/
theorem dispatch_iff (screens : Screens) (turns : List Turn) (s : Shell)
    (ran : nsh turns (.start screens) = .ok s) (word : Text)
    (first : (words (session turns).line).head? = some word) :
    Returns (dispatched s) fun t => ∀ machine : Machine,
      nshExeccmd machine t = runAll (DispatchEvent.run machine word) (execcmdEvents machine.atNull t) t ∧
        (DispatchOk word (words (session turns).line).length (execcmdEvents machine.atNull t) ↔
          ∃ b ∈ builtin, b.name = some word) := by
  refine (dispatched_words ran first).mono fun t line machine => ?_
  refine ⟨nshExeccmd_events machine word t line.first, ?_⟩
  rw [line.events]
  exact dispatchOk_iff line.nonzero

/-- A line with a command and one argument. -/
theorem dispatch_iff_color :
    let turns := typing (text " color reset")
    let start := Shell.start (.boot (fun _ => .zero) 2 .zero)
    ∃ s, nsh turns start = .ok s ∧ Returns (dispatched s) fun t => ∀ machine : Machine,
      nshExeccmd machine t =
          runAll (DispatchEvent.run machine (text "color")) (execcmdEvents machine.atNull t) t ∧
        (DispatchOk (text "color") (words (session turns).line).length (execcmdEvents machine.atNull t) ↔
          ∃ b ∈ builtin, b.name = some (text "color")) := by
  obtain ⟨s, ran, -⟩ := nsh_returns (typing_returning (text " color reset")) _
  exact ⟨s, ran, dispatch_iff _ _ s ran _ (by decide)⟩

/-- The word `x` is compared with the null name. -/
theorem not_dispatchOk_unknown :
    ¬∀ (screens : Screens) (turns : List Turn) (s : Shell), nsh turns (.start screens) = .ok s →
      ∀ word, (words (session turns).line).head? = some word →
        Returns (dispatched s) fun t => ∀ machine : Machine,
          DispatchOk word (words (session turns).line).length (execcmdEvents machine.atNull t) := by
  intro always
  obtain ⟨s, ran, -⟩ := nsh_returns (typing_returning (text "x")) (.boot (fun _ => .zero) 2 .zero)
  have first : (words (session (typing (text "x"))).line).head? = some (text "x") := by decide
  obtain ⟨t, tokenized, ok⟩ := always _ _ s ran _ first
  have line := (dispatched_words ran first).of_eq_ok tokenized
  have compares := (ok { atNull := [], exec := fun _ _ _ s => .ok s }).compares
  rw [line.events, builtin_eq] at compares
  exact compares (compares_null commands_ok line.nonzero (by decide))

end Nulix.Nsh
