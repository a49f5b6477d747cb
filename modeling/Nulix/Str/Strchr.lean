import Nulix.Lib.Tokens
import Nulix.Str.Compare

/-!
# Searching for a character

`strchr` goes up from the start of a string and `strrchr` goes down from its end. The loop of either also
ends where it has run out of characters, the last of which it has not compared: the place where it ends
is looked at once more, and that decides between the character and `NULL`.
-/

namespace Nulix.Str

open Accesses Compare Print Tokens

variable {m : Mem} {p : Ptr} {l : Text} {R : Ptr → Prop} {i : Nat}

/-! ## Scanning a text -/

theorem TextAt.isChar_add (string : TextAt m p l) (le : i ≤ l.length) (inside : R (p.add i)) :
    Yields (isChar (p.add i)) m R (decide (i < l.length)) := by
  have value := isChar_yields (m := m) inside
  have nul : m (p.add i).addr ≠ 0 ↔ i < l.length := by
    rw [string.chars i le, Ne, getD_eq_zero_iff string.nonzero, not_le]
  rwa [decide_eq_decide.mpr nul] at value

/-- A scan over the characters of a text ends at the first one that its test refuses, or at the end. -/
theorem scanChars_yields {f : BitVec 8 → Bool} {test : Ptr → Code Bool} (string : TextAt m p l)
    (short : l.length < turns) (inside : ∀ i : Nat, i ≤ l.length → R (p.add i))
    (decides : ∀ i : Nat, i < l.length → Yields (test (p.add i)) m R (f (l.getD i 0))) :
    Yields (scanWhile .endless (fun s => isChar s <&&> test s) (·.add 1) turns p) m R
      (p.add (l.takeWhile f).length) := by
  have bound : (l.takeWhile f).length ≤ l.length := (List.takeWhile_prefix f).length_le
  have char : ∀ i : Nat, i ≤ l.length → Yields (isChar (p.add i)) m R (decide (i < l.length)) :=
    fun i le => string.isChar_add le (inside i le)
  have loop : Yields (scanWhile .endless (fun s => isChar s <&&> test s) (·.add 1) turns
      (p.add (0 : Nat))) m R (p.add (l.takeWhile f).length) := by
    refine Yields.scan (fun i => p.add i) (fun i => p.add_succ i) (fun i early => ?_) ?_
      (bound.trans_lt short)
    · have before := early.trans_le bound
      have going := (char i before.le).and fun _ => decides i before
      rwa [decide_eq_true before, getD_takeWhile_of_lt early 0, Bool.and_true] at going
    · rcases Nat.lt_or_eq_of_le bound with more | ended
      · have refused := (char _ bound).and fun _ => decides _ more
        rwa [getD_length_takeWhile more 0, Bool.and_false] at refused
      · have refused := (char _ bound).and (u := false) (y := test (p.add (l.takeWhile f).length))
          fun more => absurd (of_decide_eq_true more) (by omega)
        rwa [Bool.and_false] at refused
  rwa [Nat.cast_zero, Ptr.add_zero] at loop

theorem strlen_yields (string : TextAt m p l) (short : l.length < turns) :
    Yields (strlen p) m (Inside p (l.length + 1)) l.length := by
  have inside : ∀ i : Nat, i ≤ l.length → Inside p (l.length + 1) (p.add i) :=
    fun i le => inside_add (Nat.lt_succ_of_le le)
  have loop : Yields (scanWhile .endless (fun t => isChar t.1) (fun t => (t.1.add 1, t.2 + 1)) turns
      (p.add (0 : Nat), 0)) m (Inside p (l.length + 1)) (p.add l.length, l.length) := by
    refine Yields.scan (fun i => (p.add i, i)) (fun i => ?_) (fun i before => ?_) ?_ short
    · rw [Ptr.add_succ]
    · exact decide_eq_true before ▸ string.isChar_add before.le (inside i before.le)
    · exact decide_eq_false (Nat.lt_irrefl l.length) ▸ string.isChar_add le_rfl (inside _ le_rfl)
  rw [Nat.cast_zero, Ptr.add_zero] at loop
  exact loop.bind (Yields.pure _)

/-! ## The characters of a string -/

/-- `c` is character number `i` of the string `l`, whose NUL is one of them. -/
def HasAt (l : Text) (c : BitVec 8) (i : Nat) : Prop := (l ++ [0])[i]? = some c

instance HasAt.decidable (l : Text) (c : BitVec 8) (i : Nat) : Decidable (HasAt l c i) :=
  inferInstanceAs (Decidable (_ = _))

variable {c : BitVec 8}

theorem HasAt.bound (here : HasAt l c i) : i ≤ l.length := by
  obtain ⟨inside, -⟩ := List.getElem?_eq_some_iff.mp here
  rw [List.length_append, List.length_singleton] at inside
  exact Nat.le_of_lt_succ inside

theorem hasAt_iff (le : i ≤ l.length) : HasAt l c i ↔ l.getD i 0 = c := by
  unfold HasAt
  rcases Nat.lt_or_eq_of_le le with inside | rfl
  · rw [List.getElem?_append_left inside, List.getElem?_eq_getElem inside, List.getD_eq_getElem l 0 inside,
      Option.some_inj]
  · rw [List.getElem?_concat_length, List.getD_eq_default l 0 le_rfl, Option.some_inj]

theorem TextAt.toInt_eq_iff (string : TextAt m p l) (le : i ≤ l.length) :
    (m (p.add i).addr).toInt = c.toInt ↔ HasAt l c i := by
  rw [hasAt_iff le, string.chars i le]
  exact ⟨BitVec.eq_of_toInt_eq, fun same => by rw [same]⟩

theorem TextAt.isOther_add (string : TextAt m p l) (le : i ≤ l.length) (inside : R (p.add i)) :
    Yields (isOther (p.add i) c.toInt) m R (decide (¬ HasAt l c i)) := by
  rw [← decide_eq_decide.mpr (string.toInt_eq_iff le).not]
  exact Yields.load_bind inside (Yields.pure _)

theorem TextAt.orNull_add (string : TextAt m p l) (le : i ≤ l.length) (inside : R (p.add i)) :
    Yields (orNull (p.add i) c.toInt) m R (if HasAt l c i then p.add i else null) := by
  refine Yields.load_bind inside ?_
  by_cases here : HasAt l c i
  · rw [if_pos ((string.toInt_eq_iff le).mpr here), if_pos here]
    exact Yields.pure _
  · rw [if_neg ((string.toInt_eq_iff le).not.mpr here), if_neg here]
    exact Yields.pure _

/-! ## The two searches -/

theorem strchr_yields (string : TextAt m p l) (short : l.length < turns) (c : BitVec 8) :
    ∃ k, EndsAt (HasAt l c) l.length k ∧
      Yields (strchr p c.toInt) m (Inside p (l.length + 1))
        (if HasAt l c k then p.add k else null) := by
  have bound : (l.takeWhile (· ≠ c)).length ≤ l.length := (List.takeWhile_prefix _).length_le
  refine ⟨(l.takeWhile (· ≠ c)).length, ⟨bound, fun i early => ?_, fun more => ?_⟩, ?_⟩
  · rw [hasAt_iff (early.le.trans bound)]
    simpa using getD_takeWhile_of_lt early 0
  · rw [hasAt_iff bound]
    simpa using getD_length_takeWhile more 0
  · refine Yields.bind (scanChars_yields string short (fun i le => inside_add (Nat.lt_succ_of_le le))
      fun i before => ?_) (string.orNull_add bound (inside_add (Nat.lt_succ_of_le bound)))
    have test := string.isOther_add (c := c) before.le (inside_add (Nat.lt_succ_of_lt before))
    rwa [← decide_eq_decide.mpr (hasAt_iff before.le).not.symm] at test

/-- Turn `i` of `strrchr` is at the character `i` before the NUL. -/
theorem strrchr_yields (string : TextAt m p l) (short : l.length < turns) (c : BitVec 8) :
    ∃ k, EndsAt (fun i => HasAt l c (l.length - i)) l.length k ∧
      Yields (strrchr p c.toInt) m (Inside p (l.length + 1))
        (if HasAt l c (l.length - k) then p.add (l.length - k : Nat) else null) := by
  obtain ⟨k, ends⟩ := exists_endsAt (fun i => HasAt l c (l.length - i)) l.length
  refine ⟨k, ends, ?_⟩
  have place : ∀ i, i ≤ l.length → p.add ((l.length : Int) - i) = p.add (l.length - i : Nat) :=
    fun i le => by rw [Nat.cast_sub le]
  have inside : ∀ i, Inside p (l.length + 1) (p.add (l.length - i : Nat)) :=
    fun i => inside_add (Nat.lt_succ_of_le (Nat.sub_le _ _))
  have test : ∀ i, i ≤ l.length → Yields (isOther (p.add ((l.length : Int) - i)) c.toInt) m
      (Inside p (l.length + 1)) (decide (¬ HasAt l c (l.length - i))) :=
    fun i le => place i le ▸ string.isOther_add (Nat.sub_le _ _) (inside i)
  have loop : Yields (countWhile (fun s => isOther s c.toInt) (·.add (-1)) l.length
      (p.add ((l.length : Int) - (0 : Nat)))) m (Inside p (l.length + 1))
      (l.length - k, p.add ((l.length : Int) - k)) := by
    refine Yields.count (fun i : Nat => p.add ((l.length : Int) - i)) (fun i => ?_) (fun i early => ?_)
      ends.bound fun more => ?_
    · have earlier : (l.length : Int) - i + -1 = l.length - (i + 1 : Nat) := by omega
      rw [Ptr.add_add, earlier]
    · exact decide_eq_true (ends.before i early) ▸ test i (early.le.trans ends.bound)
    · exact decide_eq_false (not_not.mpr (ends.stops more)) ▸ test k more.le
  rw [Nat.cast_zero, Int.sub_zero, place k ends.bound] at loop
  refine (strlen_yields string short).bind (loop.bind ?_)
  exact string.orNull_add (Nat.sub_le _ _) (inside k)

/-! ## What they find -/

/-- What a search for `c` in the string `l` at `s` is to return: the one that none is `before`, or
`NULL`. -/
structure FindsChar (before : Nat → Nat → Prop) (s : Nat) (l : Text) (c : BitVec 8) (r : Ptr) :
    Prop where
  found : ∀ i, HasAt l c i → (∀ j, before j i → ¬ HasAt l c j) → r.addr = s + i
  absent : r.addr = 0 ↔ ∀ i, ¬ HasAt l c i

section

variable {s : Nat}

/-- A search that goes through the places of a string in an order finds the first one in that order. -/
theorem StringAt.findsChar (string : StringAt m s l) {before : Nat → Nat → Prop} {place : Nat → Nat}
    {k : Nat} (onto : ∀ i, i ≤ l.length → ∃ j, j ≤ l.length ∧ place j = i)
    (order : ∀ i j, i ≤ l.length → j ≤ l.length → i < j → before (place i) (place j))
    (ends : EndsAt (fun i => HasAt l c (place i)) l.length k) :
    FindsChar before s l c (if HasAt l c (place k) then (Ptr.of s).add (place k) else null) := by
  have fits := string.fits
  have ended : ∀ i, HasAt l c i → HasAt l c (place k) := by
    intro i there
    obtain ⟨j, inside, rfl⟩ := onto i there.bound
    exact ends.found_iff.mpr ⟨j, inside, there⟩
  have addr : HasAt l c (place k) → ((Ptr.of s).add (place k)).addr = s + place k := by
    intro here
    have bound := here.bound
    exact Ptr.addr_add (by omega)
  refine ⟨fun i there first => ?_, fun zero i there => ?_, fun none => ?_⟩
  · have here := ended i there
    obtain ⟨j, inside, rfl⟩ := onto i there.bound
    rw [if_pos here, addr here]
    rcases Nat.lt_trichotomy j k with early | rfl | late
    · exact absurd there (ends.before j early)
    · rfl
    · exact absurd here (first _ (order k j ends.bound inside late))
  · have here := ended i there
    have nonnull := string.nonnull
    rw [if_pos here, addr here] at zero
    omega
  · rw [if_neg (none _)]
    rfl

/-- Below 0x80 a character is promoted to itself. -/
theorem toInt_ofInt_ascii {c : Int} (nonneg : 0 ≤ c) (ascii : c ≤ 127) :
    (BitVec.ofInt 8 c).toInt = c := by
  exact BitVec.toInt_ofInt_eq_self (by decide) (by omega) (by omega)

theorem strchr_strrchr_exact (string : StringAt m s l) {c : Int} (nonneg : 0 ≤ c) (ascii : c ≤ 127) :
    (Finishes (strchr (.of s) c) (.start m) fun r w' =>
      FindsChar (· < ·) s l (.ofInt 8 c) r ∧ ∀ p ∈ w'.reads, Inside (.of s) (l.length + 1) p) ∧
    (Finishes (strrchr (.of s) c) (.start m) fun r w' =>
      FindsChar (· > ·) s l (.ofInt 8 c) r ∧ ∀ p ∈ w'.reads, Inside (.of s) (l.length + 1) p) := by
  obtain ⟨k, ends, first⟩ := strchr_yields string.textAt string.short (.ofInt 8 c)
  obtain ⟨k', ends', last⟩ := strrchr_yields string.textAt string.short (.ofInt 8 c)
  rw [toInt_ofInt_ascii nonneg ascii] at first last
  constructor
  · refine (first (.start m) rfl).mono fun r w' ⟨is, within⟩ => ⟨?_, fun _ => within.of_mem_reads⟩
    subst is
    exact string.findsChar (fun i le => ⟨i, le, rfl⟩) (fun _ _ _ _ less => less) ends
  · refine (last (.start m) rfl).mono fun r w' ⟨is, within⟩ => ⟨?_, fun _ => within.of_mem_reads⟩
    subst is
    exact string.findsChar (fun i le => ⟨l.length - i, Nat.sub_le _ _, Nat.sub_sub_self le⟩)
      (fun i j _ _ less => by omega) ends'

/-- The string of the library's own tests. -/
theorem strchr_strrchr_abba :
    (Finishes (strchr (.of 16) 66) (.start (Strings.store (fun _ => 0) 16 (text "ABBA" ++ [0])))
      fun r w' => FindsChar (· < ·) 16 (text "ABBA") (.ofInt 8 66) r ∧
        ∀ p ∈ w'.reads, Inside (.of 16) ((text "ABBA").length + 1) p) ∧
    (Finishes (strrchr (.of 16) 66) (.start (Strings.store (fun _ => 0) 16 (text "ABBA" ++ [0])))
      fun r w' => FindsChar (· > ·) 16 (text "ABBA") (.ofInt 8 66) r ∧
        ∀ p ∈ w'.reads, Inside (.of 16) ((text "ABBA").length + 1) p) :=
  strchr_strrchr_exact (stringAt_store _ (by decide) (by decide) (by decide)) (by decide) (by decide)

end

end Nulix.Str
