import Nulix.Str.Strchr

/-!
# `strtok`

A call of `strtok` cuts the first token from the text at its saved pointer, and saves the pointer to that
token. The next call finds the same token there, and nothing behind it: every call returns the first
token, and none returns `NULL`.
-/

namespace Nulix.Str

open Accesses Compare Print Tokens

variable {m : Mem} {p q : Ptr} {l d : Text} {R : Ptr → Prop}

/-! ## The delimiters -/

/-- `isof` decides membership. -/
theorem isofFrom_yields {c : BitVec 8} (set : TextAt m q d) :
    ∀ {fuel : Nat}, d.length < fuel →
      Yields (isofFrom c.toInt fuel q) m (Inside q (d.length + 1)) (decide (c ∈ d)) := by
  induction d generalizing q with
  | nil =>
    intro fuel few
    obtain ⟨fuel, rfl⟩ := Nat.exists_eq_add_one_of_ne_zero (Nat.ne_of_gt few)
    exact (set.isChar_nil (.first q 0)).bind (Yields.pure _)
  | cons e d ih =>
    intro fuel few
    obtain ⟨fuel, rfl⟩ := Nat.exists_eq_add_one_of_ne_zero (Nat.ne_zero_of_lt few)
    have first : m q.addr = e := by simpa using set.chars 0 (Nat.zero_le _)
    refine (set.isChar_cons (.first q _)).bind (Yields.load_bind (.first q _) ?_)
    rw [first]
    by_cases same : c = e
    · subst same
      rw [if_pos rfl, decide_eq_true List.mem_cons_self]
      exact Yields.pure true
    · have other : c.toInt ≠ e.toInt := fun equal => same (BitVec.eq_of_toInt_eq equal)
      have rest := ih set.tail (Nat.lt_of_succ_lt_succ few)
      rw [if_neg other, decide_eq_decide.mpr (List.mem_cons.trans (or_iff_right same))]
      exact rest.mono fun _ => Inside.of_succ

theorem isofAt_yields (set : TextAt m q d) (short : d.length < turns) (inside : R p)
    (wider : ∀ r, Inside q (d.length + 1) r → R r) :
    Yields (isofAt p q) m R (decide (m p.addr ∈ d)) :=
  Yields.load_bind inside ((isofFrom_yields set short).mono wider)

/-! ## One call -/

/-- Where the token that a call finds in `l` begins, and where it ends. -/
def tokenStart (d l : Text) : Nat := (l.takeWhile (· ∈ d)).length

def tokenAt (d l : Text) : Text := (l.drop (tokenStart d l)).takeWhile (· ∉ d)

theorem tokenStart_le (d l : Text) : tokenStart d l + (tokenAt d l).length ≤ l.length := by
  have first : tokenStart d l ≤ l.length := (List.takeWhile_prefix _).length_le
  have second : (tokenAt d l).length ≤ (l.drop (tokenStart d l)).length :=
    (List.takeWhile_prefix _).length_le
  rw [List.length_drop] at second
  omega

section

variable (text : TextAt m p l) (set : TextAt m q d) (short : l.length < turns)
  (short' : d.length < turns)

include text set short'

theorem delimiter_yields {i : Nat} (before : i < l.length) :
    Yields (isofAt (p.add i) q) m (InEither p l q d) (decide (l.getD i 0 ∈ d)) := by
  rw [← text.chars i before.le]
  exact isofAt_yields set short' (.inl (inside_add (Nat.lt_succ_of_lt before))) fun _ => .inr

include short

/-- The first loop of `strtok`. -/
theorem skipDelimiters_yields :
    Yields (scanWhile .endless (fun ptr => isChar ptr <&&> isofAt ptr q) (·.add 1) turns p) m
      (InEither p l q d) (p.add (tokenStart d l)) :=
  scanChars_yields (f := fun c => decide (c ∈ d)) text short
    (fun _ le => .inl (inside_add (Nat.lt_succ_of_le le)))
    fun _ before => delimiter_yields text set short' before

/-- The second one. -/
theorem skipToken_yields :
    Yields (scanWhile .endless (fun tmp => isChar tmp <&&> (do return !(← isofAt tmp q))) (·.add 1)
        turns (p.add (tokenStart d l))) m
      (InEither p l q d) (p.add (tokenStart d l + (tokenAt d l).length : Nat)) := by
  have bound := tokenStart_le d l
  have rest : TextAt m (p.add (tokenStart d l)) (l.drop (tokenStart d l)) := text.drop (by omega)
  have length : (l.drop (tokenStart d l)).length = l.length - tokenStart d l := List.length_drop
  rw [Nat.cast_add, ← Ptr.add_add]
  refine scanChars_yields (f := fun c => decide (c ∉ d)) rest (by omega) (fun i le => ?_)
    fun i before => ?_
  · rw [Ptr.add_add, ← Nat.cast_add]
    exact .inl (inside_add (by omega))
  · have member := delimiter_yields text set short' (i := tokenStart d l + i) (by omega)
    rw [Ptr.add_add, ← Nat.cast_add, List.getD_eq_getElem?_getD, List.getElem?_drop,
      ← List.getD_eq_getElem?_getD, decide_not]
    exact member.bind (Yields.pure _)

end

/-- A call on the text `l`, which is the argument's or, where that is `NULL`, the saved one. -/
theorem strtok_finishes {w : World (BitVec 8)} {saved : Saved} {str : Ptr}
    (start : (if str.addr ≠ 0 then str else saved.ptr) = p) (text : TextAt w.cells p l)
    (set : TextAt w.cells q d) (short : l.length < turns) (short' : d.length < turns) :
    Finishes (strtok saved str q) w fun r w' =>
      r = (p.add (tokenStart d l), ⟨p.add (tokenStart d l),
        p.add (tokenStart d l + (tokenAt d l).length : Nat)⟩) ∧
      w'.cells = Function.update w.cells
        (p.add (tokenStart d l + (tokenAt d l).length : Nat)).addr 0 ∧
      Within (InEither p l q d) (Inside p (l.length + 1)) w w' := by
  have bound := tokenStart_le d l
  have first := skipDelimiters_yields text set short short'
  have second := skipToken_yields text set short short'
  unfold strtok
  rw [start]
  refine first.finishes fun w' within => ?_
  rw [← within.cells_eq] at second
  refine second.finishes fun w'' within' => Finishes.store_bind (Finishes.pure ⟨rfl, ?_, ?_⟩)
  · rw [← within.cells_eq, ← within'.cells_eq]
    rfl
  · exact ((within.trans within').of_reads fun _ => id).trans (Within.write (inside_add (by omega)) 0)

/-! ## A sequence of calls -/

/-- `strtok(NULL, delim)`, `k` times. -/
def strtokNext (delim : Ptr) : Nat → Saved → Code (List Ptr)
  | 0, _ => return []
  | k + 1, saved => do
    let (r, saved) ← strtok saved null delim
    return r :: (← strtokNext delim k saved)

/-- `strtok(str, delim)`, and then `k` times `strtok(NULL, delim)`. -/
def strtokCalls (saved : Saved) (str delim : Ptr) (k : Nat) : Code (List Ptr) := do
  let (r, saved) ← strtok saved str delim
  return r :: (← strtokNext delim k saved)

/-- A NUL stored into a text cuts it. -/
theorem TextAt.cut (text : TextAt m p l) {a k : Nat} (bound : k ≤ l.length) (there : (p.add k).addr = a)
    (before : ∀ i : Nat, i < k → (p.add i).addr ≠ a) : TextAt (Function.update m a 0) p (l.take k) where
  chars := by
    intro i le
    have length : (l.take k).length = k := List.length_take_of_le bound
    rcases Nat.lt_or_eq_of_le (length ▸ le) with early | rfl
    · rw [Function.update_of_ne (before i early), text.chars i (early.le.trans bound),
        List.getD_eq_getElem?_getD, List.getD_eq_getElem?_getD, List.getElem?_take_of_lt early]
    · rw [there, Function.update_self, List.getD_eq_default _ _ length.le]
  nonzero := fun c mem => text.nonzero c (List.mem_of_mem_take mem)

/-- A NUL stored anywhere shortens a text, or leaves it as it is. -/
theorem TextAt.store_nul (text : TextAt m p l) (a : Nat) :
    ∃ l', l'.length ≤ l.length ∧ TextAt (Function.update m a 0) p l' := by
  by_cases hit : ∃ i : Nat, i ≤ l.length ∧ (p.add i).addr = a
  · obtain ⟨bound, there⟩ := Nat.find_spec hit
    refine ⟨l.take (Nat.find hit), List.length_take_le' _ _, text.cut bound there fun i before same => ?_⟩
    exact Nat.find_min hit before ⟨before.le.trans bound, same⟩
  · push Not at hit
    exact ⟨l, le_rfl, text.of_same fun i le => Function.update_of_ne (hit i le) _ _⟩

/-- The text that `strtok` is at, inside the object at `str` that had `n` characters, and the set of
delimiters. -/
structure Walks (str n : Nat) (delim p : Ptr) (m : Mem) : Prop where
  text : ∃ (j : Nat) (l : Text), p = (Ptr.of str).add j ∧ j + l.length ≤ n ∧ TextAt m p l
  set : ∃ d : Text, d.length < turns ∧ TextAt m delim d

section

variable {str n : Nat} {delim : Ptr} (nonnull : str ≠ 0) (fits : str + n < 2 ^ 32)

include nonnull fits

/-- A call does not return `NULL`, and stays inside the object. -/
theorem Walks.strtok_step {w : World (BitVec 8)} {saved : Saved} {arg : Ptr}
    (start : (if arg.addr ≠ 0 then arg else saved.ptr) = p) (walks : Walks str n delim p w.cells) :
    Finishes (strtok saved arg delim) w fun r w' =>
      r.1.addr ≠ 0 ∧ Walks str n delim r.2.ptr w'.cells := by
  obtain ⟨⟨j, l, rfl, inside, text⟩, d, short', set⟩ := walks
  have short : l.length < turns := by unfold turns; omega
  have bound := tokenStart_le d l
  refine (strtok_finishes start text set short short').mono fun r w' ⟨is, cells, _⟩ => ?_
  subst is
  have place : ((Ptr.of str).add j).add (tokenStart d l) = (Ptr.of str).add (j + tokenStart d l : Nat) := by
    rw [Ptr.add_add, Nat.cast_add]
  refine ⟨?_, ?_, ?_⟩
  · show (((Ptr.of str).add j).add (tokenStart d l)).addr ≠ 0
    rw [place, Ptr.addr_add (by omega)]
    omega
  · have rest := text.drop (i := tokenStart d l) (by omega)
    obtain ⟨l', shorter, there⟩ := rest.store_nul _
    rw [List.length_drop] at shorter
    exact ⟨j + tokenStart d l, l', place, by omega, cells ▸ there⟩
  · obtain ⟨d', shorter, there⟩ := set.store_nul _
    exact ⟨d', by omega, cells ▸ there⟩

/-- No call of a sequence returns `NULL`. -/
theorem Walks.strtokCalls_nonnull {k : Nat} {w : World (BitVec 8)} {saved : Saved} {arg : Ptr}
    (start : (if arg.addr ≠ 0 then arg else saved.ptr) = p) (walks : Walks str n delim p w.cells) :
    Finishes (strtokCalls saved arg delim k) w fun rs _ => ∀ r ∈ rs, r.addr ≠ 0 := by
  induction k generalizing w saved arg p with
  | zero =>
    refine (walks.strtok_step nonnull fits start).bind fun r w' ⟨isPtr, _⟩ => ?_
    exact Finishes.pure fun r' mem => List.mem_singleton.mp mem ▸ isPtr
  | succ k ih =>
    refine (walks.strtok_step nonnull fits start).bind fun r w' ⟨isPtr, later⟩ => ?_
    refine (ih (if_neg (by decide)) later).bind fun rs w'' rest => Finishes.pure fun r' mem => ?_
    rcases List.mem_cons.mp mem with rfl | inRest
    · exact isPtr
    · exact rest r' inRest

end

/-- What the calls are to return for the string `l` at `str` and the delimiters `d` at `delim`. -/
structure Enumerates (str delim : Nat) (l d : Text) (rs : List Ptr) (w' : World (BitVec 8)) : Prop where
  token : ∀ (i : Nat) (t : Text), (tokens (· ∈ d) l)[i]? = some t →
    ∃ r, rs[i]? = some r ∧ Inside (.of str) l.length r ∧ StringAt w'.cells r.addr t
  last : ∃ r, rs[(tokens (· ∈ d) l).length]? = some r ∧ r.addr = 0
  inside : ∀ r, r ∈ w'.reads ∨ r ∈ w'.writes → InEither (.of str) l (.of delim) d r

theorem not_enumerates {str delim : Nat} (string : StringAt m str l) (set : StringAt m delim d)
    (saved : Saved) :
    ¬ Finishes (strtokCalls saved (.of str) (.of delim) (tokens (· ∈ d) l).length) (.start m)
      fun rs w' => Enumerates str delim l d rs w' := by
  intro correct
  have fits := string.fits
  have walks : Walks str l.length (.of delim) (.of str) m :=
    ⟨⟨0, l, by simp, by simp, string.textAt⟩, d, set.short, set.textAt⟩
  have nonnull : (Ptr.of str).addr ≠ 0 := by
    rw [Ptr.addr_of (by omega)]
    exact string.nonnull
  have calls : Finishes (strtokCalls saved (.of str) (.of delim) (tokens (· ∈ d) l).length) (.start m)
      fun rs _ => ∀ r ∈ rs, r.addr ≠ 0 :=
    walks.strtokCalls_nonnull string.nonnull fits (if_pos nonnull)
  obtain ⟨rs, _, isPtr, enumerates⟩ := calls.both correct
  obtain ⟨r, returned, isNull⟩ := enumerates.last
  exact isPtr r (List.mem_of_getElem? returned) isNull

theorem not_enumerates_words :
    ¬ Finishes (strtokCalls ⟨null, null⟩ (.of 16) (.of 64) 2)
      (.start (twoStrings 16 (text "help me") 64 (text " ")))
      fun rs w' => Enumerates 16 64 (text "help me") (text " ") rs w' :=
  not_enumerates (twoStrings_first (by decide) (by decide) (by decide) (by decide))
    (twoStrings_second (by decide) (by decide) (by decide)) ⟨null, null⟩

/-- The first word is returned three times. -/
theorem strtok_words :
    StringAt (twoStrings 16 (text "help me") 64 (text " ")) 16 (text "help me") ∧
      StringAt (twoStrings 16 (text "help me") 64 (text " ")) 64 (text " ") ∧
      ¬ Finishes (strtokCalls ⟨null, null⟩ (.of 16) (.of 64) (tokens (· ∈ text " ") (text "help me")).length)
        (.start (twoStrings 16 (text "help me") 64 (text " ")))
        fun rs w' => Enumerates 16 64 (text "help me") (text " ") rs w' := by
  refine ⟨twoStrings_first (by decide) (by decide) (by decide) (by decide),
    twoStrings_second (by decide) (by decide) (by decide), fun correct => ?_⟩
  have value : Finishes (strtokCalls ⟨null, null⟩ (.of 16) (.of 64) 2)
      (.start (twoStrings 16 (text "help me") 64 (text " "))) fun rs _ => rs = [.of 16, .of 16, .of 16] :=
    ⟨_, rfl, rfl⟩
  obtain ⟨rs, _, is, enumerates⟩ := value.both correct
  obtain ⟨r, returned, isNull⟩ := enumerates.last
  rw [is] at returned
  cases returned
  exact absurd isNull (by decide)

/-- The first token. -/
theorem headD_tokens (d l : Text) : (tokens (· ∈ d) l).headD [] = tokenAt d l := by
  have skipped := tokens_dropWhile (fun c => decide (c ∈ d)) l
  rw [← skipped]
  unfold tokenAt tokenStart
  rw [drop_takeWhile]
  cases rest : l.dropWhile fun c => decide (c ∈ d) with
  | nil => rfl
  | cons c l =>
    rw [tokens_takeWhile (head_dropWhile rest), List.headD_cons]
    congr 1
    funext c
    rw [decide_not]

theorem tokenStart_token {t : Text} (token : ∀ c ∈ t, c ∉ d) : tokenStart d t = 0 := by
  unfold tokenStart
  cases t with
  | nil => rfl
  | cons c t => rw [List.takeWhile_cons_of_neg (by simpa using token c List.mem_cons_self), List.length_nil]

/-- A token is the only one of itself. -/
theorem tokenAt_token {t : Text} (token : ∀ c ∈ t, c ∉ d) : tokenAt d t = t := by
  unfold tokenAt
  rw [tokenStart_token token, List.drop_zero, List.takeWhile_eq_self_iff]
  simpa using token

/-- The NUL behind the first token cuts it. -/
theorem StringAt.first_token {str : Nat} (string : StringAt m str l) (d : Text) :
    TextAt (Function.update m (str + (tokenStart d l + (tokenAt d l).length)) 0)
      ((Ptr.of str).add (tokenStart d l)) (tokenAt d l) := by
  have fits := string.fits
  have bound := tokenStart_le d l
  have rest : TextAt m ((Ptr.of str).add (tokenStart d l)) (l.drop (tokenStart d l)) :=
    string.textAt.drop (by omega)
  have begins : tokenAt d l = (l.drop (tokenStart d l)).take (tokenAt d l).length :=
    List.prefix_iff_eq_take.mp (List.takeWhile_prefix _)
  have addr : ∀ i : Nat, i ≤ (tokenAt d l).length →
      (((Ptr.of str).add (tokenStart d l)).add i).addr = str + (tokenStart d l + i) := by
    intro i le
    rw [Ptr.add_add, ← Nat.cast_add, Ptr.addr_add (by omega)]
  have token := rest.cut (by rw [List.length_drop]; omega) (addr _ le_rfl) fun i early => by
    rw [addr i early.le]
    omega
  rwa [← begins] at token

/-- What the calls return instead, once the first token was cut: that token, and nothing is changed. -/
theorem strtokNext_again {t : Text} {k : Nat} {saved : Saved} {w : World (BitVec 8)}
    (text : TextAt w.cells saved.ptr t) (set : TextAt w.cells q d) (token : ∀ c ∈ t, c ∉ d)
    (short : t.length < turns) (short' : d.length < turns) :
    Finishes (strtokNext q k saved) w fun rs w' =>
      rs = List.replicate k saved.ptr ∧ w'.cells = w.cells := by
  have begins := tokenStart_token token
  have whole := tokenAt_token token
  induction k generalizing w saved with
  | zero => exact Finishes.pure ⟨rfl, rfl⟩
  | succ k ih =>
    refine (strtok_finishes (if_neg (by decide)) text set short short').bind
      fun r w' ⟨is, cells, _⟩ => ?_
    rw [begins, whole, Nat.cast_zero, Ptr.add_zero, Nat.zero_add] at is
    rw [begins, whole, Nat.zero_add] at cells
    subst is
    have unchanged : w'.cells = w.cells := by
      have ended : w.cells (saved.ptr.add t.length).addr = 0 := by
        rw [text.chars _ le_rfl, List.getD_eq_default _ _ le_rfl]
      rw [cells, ← ended, Function.update_eq_self]
    refine (ih (unchanged ▸ text) (unchanged ▸ set)).bind fun rs w'' ⟨rest, cells'⟩ => ?_
    exact Finishes.pure ⟨by rw [rest, List.replicate_succ], cells'.trans unchanged⟩

/-- Where the set of delimiters is not a part of the string, every call returns the first token. -/
theorem strtokCalls_again {str delim k : Nat} (string : StringAt m str l) (set : StringAt m delim d)
    (apart : ∀ i, i ≤ l.length → ∀ j, j ≤ d.length → str + i ≠ delim + j) (saved : Saved) :
    Finishes (strtokCalls saved (.of str) (.of delim) k) (.start m) fun rs w' =>
      rs = List.replicate (k + 1) ((Ptr.of str).add (tokenStart d l)) ∧
        TextAt w'.cells ((Ptr.of str).add (tokenStart d l)) ((tokens (· ∈ d) l).headD []) := by
  have fits := string.fits
  have fits' := set.fits
  have bound := tokenStart_le d l
  have nonnull : (Ptr.of str).addr ≠ 0 := by
    rw [Ptr.addr_of (by omega)]
    exact string.nonnull
  rw [headD_tokens]
  refine (strtok_finishes (w := .start m) (if_pos nonnull) string.textAt set.textAt string.short
    set.short).bind fun r w' ⟨is, cells, _⟩ => ?_
  subst is
  rw [Ptr.addr_add (by omega)] at cells
  have first : TextAt w'.cells ((Ptr.of str).add (tokenStart d l)) (tokenAt d l) :=
    cells ▸ string.first_token d
  have kept : TextAt w'.cells (.of delim) d := set.textAt.of_same fun j le => by
    rw [cells, Ptr.addr_add (by omega), Function.update_of_ne (apart _ (by omega) j le).symm]
    rfl
  have token : ∀ c ∈ tokenAt d l, c ∉ d := fun c mem => by simpa using List.mem_takeWhile_imp mem
  have shorter := string.short
  refine (strtokNext_again first kept token (by omega) set.short).bind fun rs w'' ⟨rest, same⟩ => ?_
  exact Finishes.pure ⟨by rw [rest, List.replicate_succ], same ▸ first⟩

end Nulix.Str
