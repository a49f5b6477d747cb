import Nulix.Lib.Tokens
import Nulix.Nsh.Line

/-!
# The tokenizer

`nsh_createcmd` splits the line in place. What it has found at any point is a list of words with their
positions; `Splitting` relates it to the tokens of the line. Each turn of the outer loop goes over the
spaces at `ibuf` and puts a zero on the first of them, or goes over a word.
-/

namespace Nulix.Nsh

open Fallible Print Strings Tokens

/-- `nsh_buf` holds a line without zeros that leaves its last byte free. -/
structure LineBuffer (s : Shell) (line : Text) : Prop where
  index : s.nshBufindex = line.length
  short : line.length ≤ nshBufsize - 1
  nonzero : ∀ c ∈ line, c ≠ 0
  holds : Holds s.nshBuf nshBufsize line

theorem LineBuffer.length_lt {s : Shell} {line : Text} (buffer : LineBuffer s line) :
    line.length < nshBufsize :=
  Nat.lt_of_le_of_lt buffer.short (by decide)

/-- What is typed at the prompt. -/
theorem Editing.lineBuffer {s : Shell} {line : Text} (editing : Editing s line) :
    LineBuffer s line :=
  ⟨editing.index, editing.short, fun c mem => (editing.plain c mem).1, editing.holds⟩

/-- The words of a line. -/
def words (line : Text) : List Text := tokens isSpace line

/-- A word that was found, and where it starts. -/
structure Found where
  start : Nat
  word : Text

def Found.stop (w : Found) : Nat := w.start + w.word.length

/-! ## The invariant -/

/-- The word stands in the buffer. Behind it is a zero, unless `ibuf` is still there. -/
structure Found.Stands (w : Found) (t : Createcmd) : Prop where
  passed : w.stop ≤ t.ibuf
  char : ∀ i, (inside : i < w.word.length) → t.shell.nshBuf (w.start + i) = w.word[i]
  zero : w.stop < t.ibuf → t.shell.nshBuf w.stop = 0
  nonzero : ∀ c ∈ w.word, c ≠ 0

namespace Found.Stands

variable {w : Found} {t : Createcmd}

/-- Going on does not touch a word that is already followed by its zero. -/
theorem further {t' : Createcmd} (stands : w.Stands t) (before : w.stop < t.ibuf)
    (same : t'.shell.nshBuf = t.shell.nshBuf) (later : t.ibuf ≤ t'.ibuf) : w.Stands t' := by
  obtain ⟨passed, char, zero, nonzero⟩ := stands
  refine ⟨Nat.le_trans passed later, ?_, fun _ => ?_, nonzero⟩
  · rw [same]
    exact char
  · rw [same]
    exact zero before

/-- The zero put at `ibuf` lies behind every word found. -/
theorem zeroed (stands : w.Stands t) {ibuf : Nat} (later : t.ibuf < ibuf) :
    w.Stands
      { t with
        ibuf := ibuf
        shell := { t.shell with nshBuf := Function.update t.shell.nshBuf t.ibuf 0 } } := by
  obtain ⟨passed, char, zero, nonzero⟩ := stands
  refine ⟨Nat.le_of_lt (Nat.lt_of_le_of_lt passed later), fun i inside => ?_, fun _ => ?_, nonzero⟩
  · have before : w.start + i ≠ t.ibuf := by
      rw [Found.stop] at passed
      omega
    show Function.update t.shell.nshBuf t.ibuf 0 (w.start + i) = _
    rw [Function.update_of_ne before, char i inside]
  · show Function.update t.shell.nshBuf t.ibuf 0 w.stop = 0
    rcases Nat.lt_or_eq_of_le passed with before | same
    · rw [Function.update_of_ne (Nat.ne_of_lt before), zero before]
    · rw [same, Function.update_self]

end Found.Stands

/-- The state of `nsh_createcmd` on `line`, from shell `s`, between two turns. -/
structure Splitting (s : Shell) (line : Text) (t : Createcmd) (found : List Found) : Prop where
  inside : t.ibuf ≤ line.length
  index : t.shell.nshBufindex = line.length
  words : words line = found.map Found.word ++ words (line.drop t.ibuf)
  count : t.icmd = found.length
  cmd : ∀ j, (below : j < found.length) → t.shell.nshCmd j = some found[j].start
  kept : ∀ j, found.length ≤ j → t.shell.nshCmd j = s.nshCmd j
  stands : ∀ w ∈ found, w.Stands t
  ahead : ∀ i, t.ibuf ≤ i → i < nshBufsize → t.shell.nshBuf i = line.getD i 0
  apart : (∀ w ∈ found, w.stop < t.ibuf) ∨
    ∀ c l, line.drop t.ibuf = c :: l → isSpace c = true
  console : t.shell.console = s.console

variable {s : Shell} {line : Text}

/-- The inner loops stop at the first character that does not continue them. -/
theorem createcmdSkip_returns {continues : BitVec 8 → Bool} {t : Createcmd} {n : Nat} :
    ∀ {fuel : Nat}, n < fuel → t.ibuf + n < nshBufsize →
      (∀ i, i < n → continues (t.shell.nshBuf (t.ibuf + i)) = true) →
      continues (t.shell.nshBuf (t.ibuf + n)) = false →
      createcmdSkip continues fuel t = .ok { t with ibuf := t.ibuf + n } := by
  induction n generalizing t with
  | zero =>
    intro fuel bound fits _ stops
    obtain ⟨fuel, rfl⟩ := Nat.exists_eq_succ_of_ne_zero (Nat.ne_of_gt bound)
    rw [createcmdSkip, Shell.bufAt, if_pos (by omega)]
    simp only [Nat.add_zero] at stops
    show (if continues (t.shell.nshBuf t.ibuf) = true then _ else Except.ok t) = _
    rw [stops, if_neg Bool.false_ne_true]
    rfl
  | succ n ih =>
    intro fuel bound fits goes stops
    obtain ⟨fuel, rfl⟩ := Nat.exists_eq_succ_of_ne_zero (Nat.ne_of_gt (Nat.lt_trans (Nat.succ_pos n) bound))
    rw [createcmdSkip, Shell.bufAt, if_pos (by omega)]
    have first := goes 0 (Nat.succ_pos n)
    rw [Nat.add_zero] at first
    show (if continues (t.shell.nshBuf t.ibuf) = true then _ else Except.ok t) = _
    rw [first, if_pos rfl]
    have shift : ∀ i, t.ibuf + 1 + i = t.ibuf + (i + 1) := fun i => by omega
    rw [ih (t := { t with ibuf := t.ibuf + 1 }) (by omega) (by dsimp only; omega)
      (fun i before => by dsimp only; rw [shift]; exact goes (i + 1) (by omega))
      (by dsimp only; rw [shift]; exact stops)]
    dsimp only
    rw [shift]

/-- The character where a run of `p` ends, or the zero at the end of the string, is not in the run. -/
theorem getD_takeWhile {p : BitVec 8 → Bool} (atEnd : p 0 = false) (l : Text) :
    (∀ i, i < (l.takeWhile p).length → p (l.getD i 0) = true) ∧
      p (l.getD (l.takeWhile p).length 0) = false := by
  induction l with
  | nil => exact ⟨nofun, atEnd⟩
  | cons c l ih =>
    cases goes : p c with
    | false =>
      rw [List.takeWhile_cons_of_neg (by simp [goes])]
      exact ⟨nofun, goes⟩
    | true =>
      rw [List.takeWhile_cons_of_pos goes, List.length_cons]
      refine ⟨fun i before => ?_, ih.2⟩
      cases i with
      | zero => exact goes
      | succ i => exact ih.1 i (Nat.lt_of_succ_lt_succ before)

/-- An inner loop over what is still as it was typed. -/
theorem createcmdSkip_line {p : BitVec 8 → Bool} (atEnd : p 0 = false) {t : Createcmd}
    (short : line.length ≤ nshBufsize - 1) (inside : t.ibuf ≤ line.length)
    (ahead : ∀ i, t.ibuf ≤ i → i < nshBufsize → t.shell.nshBuf i = line.getD i 0) :
    createcmdSkip p (nshBufsize + 1) t =
      .ok { t with ibuf := t.ibuf + ((line.drop t.ibuf).takeWhile p).length } := by
  obtain ⟨goes, stops⟩ := getD_takeWhile atEnd (line.drop t.ibuf)
  have size : nshBufsize = 1024 := rfl
  have run := (List.takeWhile_sublist (l := line.drop t.ibuf) p).length_le
  rw [List.length_drop] at run
  have char : ∀ i, i ≤ ((line.drop t.ibuf).takeWhile p).length →
      t.shell.nshBuf (t.ibuf + i) = (line.drop t.ibuf).getD i 0 := by
    intro i within
    rw [ahead (t.ibuf + i) (Nat.le_add_right _ _) (by omega)]
    simp [List.getD_eq_getElem?_getD]
  refine createcmdSkip_returns (by omega) (by omega) (fun i before => ?_) ?_
  · rw [char i (Nat.le_of_lt before)]
    exact goes i before
  · rw [char _ (Nat.le_refl _)]
    exact stops

/-- In a line without zeros a word ends at a space. -/
theorem takeWhile_inWord {l : Text} (nonzero : ∀ c ∈ l, c ≠ 0) :
    l.takeWhile inWord = l.takeWhile fun c => !isSpace c := by
  induction l with
  | nil => rfl
  | cons c l ih =>
    have same : inWord c = !isSpace c := by
      have first := nonzero c List.mem_cons_self
      simp only [inWord, isSpace, Bool.decide_and, decide_not]
      rw [decide_eq_false first, Bool.not_false, Bool.and_true]
    rw [List.takeWhile_cons, List.takeWhile_cons, same,
      ih fun d mem => nonzero d (List.mem_cons_of_mem c mem)]

/-- The words from a word on: the word, and the words behind it. -/
theorem words_drop (nonzero : ∀ c ∈ line, c ≠ 0) {p : Nat} (more : p < line.length)
    (isWord : isSpace (line)[p] = false) :
    words (line.drop p) = (line.drop p).takeWhile inWord ::
      words (line.drop (p + ((line.drop p).takeWhile inWord).length)) := by
  have plain : ∀ c ∈ line.drop p, c ≠ 0 := fun c mem => nonzero c (List.mem_of_mem_drop mem)
  rw [← List.drop_drop, takeWhile_inWord plain, drop_takeWhile, List.drop_eq_getElem_cons more]
  exact tokens_takeWhile isWord

theorem add_length_takeWhile_le (p : BitVec 8 → Bool) {k : Nat} (inside : k ≤ line.length) :
    k + ((line.drop k).takeWhile p).length ≤ line.length := by
  have run := (List.takeWhile_sublist (l := line.drop k) p).length_le
  rw [List.length_drop] at run
  omega

namespace Splitting

variable {t : Createcmd} {found : List Found}

/-- What is at `ibuf` is as it was typed. -/
theorem here (split : Splitting s line t found) (buffer : LineBuffer s line)
    (more : t.ibuf < line.length) : t.shell.nshBuf t.ibuf = (line)[t.ibuf] := by
  rw [split.ahead t.ibuf (Nat.le_refl _) (Nat.lt_trans more (buffer.length_lt)),
    List.getD_eq_getElem line 0 more]

/-- An array with an entry for every word of a line has one for the word at `ibuf`. -/
theorem room (split : Splitting s line t found) (buffer : LineBuffer s line)
    (more : t.ibuf < line.length) (isWord : isSpace (line)[t.ibuf] = false) :
    t.icmd < nshCmdsize := by
  have size : nshBufsize = 1024 := rfl
  have entries : nshCmdsize = 513 := rfl
  have short := buffer.short
  have total := two_mul_length_tokens isSpace line
  have parts := congrArg List.length
    (split.words.trans (congrArg (_ ++ ·) (words_drop buffer.nonzero more isWord)))
  rw [List.length_append, List.length_map, List.length_cons, ← split.count, Nsh.words] at parts
  omega

/-- A turn at a space puts a zero there and goes over the spaces behind it. -/
theorem turn_space (split : Splitting s line t found) (buffer : LineBuffer s line)
    (more : t.ibuf < line.length) (isSep : isSpace (line)[t.ibuf] = true) :
    createcmdTurn t = .ok
      { t with
        ibuf := t.ibuf + 1 + ((line.drop (t.ibuf + 1)).takeWhile isSpace).length
        shell := { t.shell with nshBuf := Function.update t.shell.nshBuf t.ibuf 0 } } := by
  have fits := Nat.lt_trans more buffer.length_lt
  have noWord : inWord (line)[t.ibuf] = false := by
    have space : (line)[t.ibuf] = 0x20 := by simpa [isSpace] using isSep
    rw [space]
    rfl
  have skips := createcmdSkip_line (p := isSpace)
    (t := { t with
      ibuf := t.ibuf + 1
      shell := { t.shell with nshBuf := Function.update t.shell.nshBuf t.ibuf 0 } })
    rfl buffer.short more fun i after fits => by
      have later : i ≠ t.ibuf := Nat.ne_of_gt after
      show Function.update t.shell.nshBuf t.ibuf 0 i = _
      rw [Function.update_of_ne later]
      exact split.ahead i (Nat.le_of_succ_le after) fits
  unfold createcmdTurn
  rw [Shell.bufAt, if_pos fits, split.here buffer more]
  show (if inWord (line)[t.ibuf] = true then _ else _) = _
  rw [noWord, if_neg Bool.false_ne_true, isSep, if_pos rfl, Shell.setBuf, if_pos fits]
  exact skips

/-- A turn at a word stores its pointer and goes over it. -/
theorem turn_word (split : Splitting s line t found) (buffer : LineBuffer s line)
    (more : t.ibuf < line.length) (isWord : isSpace (line)[t.ibuf] = false) :
    createcmdTurn t = .ok
      { ibuf := t.ibuf + ((line.drop t.ibuf).takeWhile inWord).length
        icmd := t.icmd + 1
        shell := { t.shell with nshCmd := Function.update t.shell.nshCmd t.icmd (some t.ibuf) } } := by
  have fits := Nat.lt_trans more buffer.length_lt
  have starts : inWord (line)[t.ibuf] = true := by
    have nonzero := buffer.nonzero _ (List.getElem_mem more)
    have noSpace : (line)[t.ibuf] ≠ 0x20 := by simpa [isSpace] using isWord
    exact decide_eq_true ⟨noSpace, nonzero⟩
  have skips := createcmdSkip_line (p := inWord)
    (t := { t with
      icmd := t.icmd + 1
      shell := { t.shell with nshCmd := Function.update t.shell.nshCmd t.icmd (some t.ibuf) } })
    rfl buffer.short (Nat.le_of_lt more) split.ahead
  unfold createcmdTurn
  rw [Shell.bufAt, if_pos fits, split.here buffer more]
  show (if inWord (line)[t.ibuf] = true then _ else _) = _
  rw [starts, if_pos rfl, Shell.setCmd, if_pos (split.room buffer more isWord)]
  exact skips

/-- A turn that starts at a space. -/
theorem space (split : Splitting s line t found) (buffer : LineBuffer s line)
    (more : t.ibuf < line.length) (isSep : isSpace (line)[t.ibuf] = true) :
    Returns (createcmdTurn t) fun t' => Splitting s line t' found ∧ t.ibuf < t'.ibuf := by
  have later : t.ibuf < t.ibuf + 1 + ((line.drop (t.ibuf + 1)).takeWhile isSpace).length :=
    Nat.lt_of_lt_of_le (Nat.lt_succ_self _) (Nat.le_add_right _ _)
  rw [split.turn_space buffer more isSep]
  refine .ok ⟨?_, later⟩
  refine ⟨add_length_takeWhile_le isSpace more, split.index, ?_, split.count, split.cmd, split.kept,
    ?_, ?_, .inl ?_, split.console⟩
  · rw [split.words, List.drop_eq_getElem_cons more, Nsh.words, Nsh.words, tokens_sep_cons isSep,
      ← tokens_dropWhile, ← drop_takeWhile, List.drop_drop]
  · intro w mem
    exact (split.stands w mem).zeroed later
  · intro i after fits
    have behind : t.ibuf < i := Nat.lt_of_lt_of_le later after
    show Function.update t.shell.nshBuf t.ibuf 0 i = _
    rw [Function.update_of_ne (Nat.ne_of_gt behind)]
    exact split.ahead i (Nat.le_of_lt behind) fits
  · intro w mem
    exact Nat.lt_of_le_of_lt (split.stands w mem).passed later

/-- The word that starts at the place of the outer loop stands, once the inner loop has passed it. -/
theorem stands_new (split : Splitting s line t found) (buffer : LineBuffer s line)
    (more : t.ibuf < line.length) {t' : Createcmd}
    (passed : t'.ibuf = t.ibuf + ((line.drop t.ibuf).takeWhile inWord).length)
    (same : t'.shell.nshBuf = t.shell.nshBuf) :
    Found.Stands ⟨t.ibuf, (line.drop t.ibuf).takeWhile inWord⟩ t' := by
  have inside := add_length_takeWhile_le inWord (Nat.le_of_lt more)
  refine ⟨passed.ge, fun i within => ?_, fun before => absurd passed (Nat.ne_of_gt before),
    fun c mem => buffer.nonzero c (List.mem_of_mem_drop ((List.takeWhile_sublist _).mem mem))⟩
  have fits : t.ibuf + i < line.length := Nat.lt_of_lt_of_le (Nat.add_lt_add_left within _) inside
  show t'.shell.nshBuf (t.ibuf + i) = ((line.drop t.ibuf).takeWhile inWord)[i]
  rw [same, split.ahead _ (Nat.le_add_right _ _) (Nat.lt_trans fits buffer.length_lt),
    (List.takeWhile_prefix inWord).getElem within, List.getElem_drop, List.getD_eq_getElem line 0 fits]

/-- A turn that starts at a word. -/
theorem word (split : Splitting s line t found) (buffer : LineBuffer s line)
    (more : t.ibuf < line.length) (isWord : isSpace (line)[t.ibuf] = false) :
    Returns (createcmdTurn t) fun t' =>
      ∃ w, Splitting s line t' (found ++ [w]) ∧ t.ibuf < t'.ibuf := by
  have rest := List.drop_eq_getElem_cons more
  have inside := add_length_takeWhile_le inWord (Nat.le_of_lt more)
  have nonzero : ∀ c ∈ line.drop t.ibuf, c ≠ 0 :=
    fun c mem => buffer.nonzero c (List.mem_of_mem_drop mem)
  have some : 0 < ((line.drop t.ibuf).takeWhile inWord).length := by
    rw [takeWhile_inWord nonzero, rest, List.takeWhile_cons_of_pos (by simpa using isWord)]
    exact Nat.succ_pos _
  have passed : ∀ w ∈ found, w.stop < t.ibuf := by
    rcases split.apart with before | space
    · exact before
    · rw [space _ _ rest] at isWord
      cases isWord
  rw [split.turn_word buffer more isWord]
  refine .ok ⟨⟨t.ibuf, (line.drop t.ibuf).takeWhile inWord⟩, ?_, Nat.lt_add_of_pos_right some⟩
  refine ⟨inside, split.index, ?_, ?_, fun j below => ?_, fun j above => ?_, ?_,
    fun i after => split.ahead i (Nat.le_trans (Nat.le_add_right _ _) after), .inr ?_, split.console⟩
  · rw [split.words, words_drop buffer.nonzero more isWord, List.map_append, List.append_assoc]
    rfl
  · rw [List.length_append, ← split.count]
    rfl
  · show Function.update t.shell.nshCmd t.icmd (Option.some t.ibuf) j = _
    by_cases last : j = found.length
    · subst last
      rw [split.count, Function.update_self, List.getElem_concat_length rfl]
    · have old : j < found.length := by
        rw [List.length_append, List.length_singleton] at below
        omega
      rw [split.count, Function.update_of_ne last, split.cmd j old, List.getElem_append_left old]
  · rw [List.length_append, List.length_singleton] at above
    show Function.update t.shell.nshCmd t.icmd (Option.some t.ibuf) j = _
    rw [split.count, Function.update_of_ne (by omega), split.kept j (by omega)]
  · intro w mem
    rcases List.mem_append.mp mem with old | new
    · exact (split.stands w old).further (passed w old) rfl (Nat.le_add_right _ _)
    · rw [List.mem_singleton.mp new]
      exact split.stands_new buffer more rfl rfl
  · intro c l ends
    have stop : (line.drop t.ibuf).dropWhile (fun c => !isSpace c) = c :: l := by
      rw [← drop_takeWhile, ← takeWhile_inWord nonzero, List.drop_drop]
      exact ends
    simpa using head_dropWhile stop

/-- One turn of the outer loop. -/
theorem turn (split : Splitting s line t found) (buffer : LineBuffer s line)
    (more : t.ibuf < line.length) :
    Returns (createcmdTurn t) fun t' => (∃ found, Splitting s line t' found) ∧ t.ibuf < t'.ibuf := by
  cases isSep : isSpace (line)[t.ibuf] with
  | true =>
    exact (split.space buffer more isSep).mono fun t' ⟨after, progress⟩ => ⟨⟨found, after⟩, progress⟩
  | false =>
    exact (split.word buffer more isSep).mono fun t' ⟨w, after, progress⟩ => ⟨⟨_, after⟩, progress⟩

/-- Where the loop ends every word is followed by a zero. -/
theorem word_eq (split : Splitting s line t found) (buffer : LineBuffer s line)
    (done : t.ibuf = line.length) {w : Found} (mem : w ∈ found) : t.shell.word w.start = w.word := by
  have size : nshBufsize = 1024 := rfl
  have short := buffer.short
  obtain ⟨passed, char, zero, nonzero⟩ := split.stands w mem
  have fits : w.stop < nshBufsize := by omega
  have ended : t.shell.nshBuf w.stop = 0 := by
    rcases Nat.lt_or_eq_of_le passed with before | same
    · exact zero before
    · rw [same, split.ahead t.ibuf (Nat.le_refl _) (by omega), done, List.getD_eq_default line 0 le_rfl]
  have terminated : Terminated (fun i => t.shell.nshBuf (w.start + i)) w.word := ⟨char, ended⟩
  rw [Found.stop] at fits
  exact terminated.contents_eq (by omega) nonzero

end Splitting

/-! ## The whole line -/

/-- What `nsh_createcmd` leaves: the words of the line at the first entries of `nsh_cmd`, and the other
entries as they were. -/
structure Tokenized (s : Shell) (line : Text) (t : Shell) : Prop where
  count : t.nshCmdnarg = (words line).length
  word : ∀ j, (below : j < (words line).length) →
    ∃ p, t.nshCmd j = some p ∧ t.word p = (words line)[j]
  kept : ∀ j, (words line).length ≤ j → t.nshCmd j = s.nshCmd j
  console : t.console = s.console

theorem nshCreatecmd_tokenized {s : Shell} {line : Text} (buffer : LineBuffer s line) :
    Returns (nshCreatecmd s) (Tokenized s line) := by
  have size : nshBufsize = 1024 := rfl
  have short := buffer.short
  have start : Splitting s line { ibuf := 0, icmd := 0, shell := s } [] :=
    ⟨Nat.zero_le _, buffer.index, rfl, rfl, nofun, fun _ _ => rfl, nofun,
      fun i _ fits => buffer.holds i fits, .inl nofun, rfl⟩
  have loop : Returns
      (whileLoop .createcmd (fun t : Createcmd => decide (t.ibuf < t.shell.nshBufindex)) createcmdTurn
        (nshBufsize + 1) { ibuf := 0, icmd := 0, shell := s })
      fun t => (∃ found, Splitting s line t found) ∧ decide (t.ibuf < t.shell.nshBufindex) = false := by
    refine whileLoop_returns _ (fun t => line.length - t.ibuf) ?_ ⟨[], start⟩ (by dsimp only; omega)
    intro t ⟨found, split⟩ goes
    have more : t.ibuf < line.length := by simpa [split.index] using goes
    refine (split.turn buffer more).mono fun t' ⟨after, progress⟩ => ⟨after, ?_⟩
    obtain ⟨found', split'⟩ := after
    have inside := split'.inside
    omega
  unfold nshCreatecmd
  refine loop.bind fun t ⟨⟨found, split⟩, stops⟩ => .ok ?_
  have done : t.ibuf = line.length := by
    have stopped : line.length ≤ t.ibuf := by simpa [split.index] using stops
    exact Nat.le_antisymm split.inside stopped
  have all : words line = found.map Found.word := by
    rw [split.words, done, List.drop_length]
    exact List.append_nil _
  refine ⟨?_, fun j below => ?_, fun j above => ?_, split.console⟩
  · rw [all, List.length_map]
    exact split.count
  · have inFound : j < found.length := by rwa [all, List.length_map] at below
    refine ⟨found[j].start, split.cmd j inFound, ?_⟩
    simp only [all, List.getElem_map]
    exact split.word_eq buffer done (List.getElem_mem inFound)
  · rw [all, List.length_map] at above
    exact split.kept j above

/-- **The tokenizer.** On every line `nsh_createcmd` returns without an access outside `nsh_buf` or
`nsh_cmd`, having counted the words of the line and put each of them, in order, at its entry. -/
theorem nshCreatecmd_words (s : Shell) (line : Text) (buffer : LineBuffer s line) :
    Returns (nshCreatecmd s) fun t =>
      t.nshCmdnarg = (tokens isSpace line).length ∧
        ∀ j, j < t.nshCmdnarg → ∃ p, t.nshCmd j = some p ∧
          (tokens isSpace line)[j]? = some (t.word p) := by
  refine (nshCreatecmd_tokenized buffer).mono fun t split => ⟨split.count, fun j below => ?_⟩
  rw [split.count] at below
  obtain ⟨p, entry, word⟩ := split.word j below
  refine ⟨p, entry, ?_⟩
  rw [word]
  exact List.getElem?_eq_getElem below

/-- A line with spaces before, between and after its three words. -/
theorem nshCreatecmd_words_free :
    let line := text "  free 0x2000   8192 "
    Returns (nshCreatecmd (nshFill line (nshNewline (.start (.boot (fun _ => .zero) 2 .zero))))) fun t =>
      t.nshCmdnarg = (tokens isSpace line).length ∧
        ∀ j, j < t.nshCmdnarg → ∃ p, t.nshCmd j = some p ∧
          (tokens isSpace line)[j]? = some (t.word p) := by
  refine nshCreatecmd_words _ _ (Editing.lineBuffer ?_)
  exact (InStep.newline _).editing.fill (by decide +kernel) (by decide +kernel)

end Nulix.Nsh
