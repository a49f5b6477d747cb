import Nulix.Str.Compare

/-!
# Searching in memory

`strstr` leaves its loop with the place it looked at last, found or not, so that where the needle does
not occur it returns a pointer to the end of the haystack. `memrchr` starts at the byte after the block
and ends before its first one: what it returns is right for the block one byte further.
-/

namespace Nulix.Str

open Accesses Compare Print

variable {m : Mem} {p q : Ptr}

/-! ## `strstr` -/

/-- The end of the needle is reached where the comparison ends, if the needle is a beginning of the
text. -/
theorem TextAt.needle_ends {n h : Text} (needle : TextAt m q n) :
    m (q.add (common h n)).addr = 0 ↔ n <+: h := by
  rw [needle.chars _ (common_le_right h n), getD_eq_zero_iff needle.nonzero, ← common_eq_length_iff]
  have short := common_le_right h n
  omega

theorem strstrFrom_yields {h n : Text} (needle : TextAt m q n) (short : h.length < turns)
    (haystack : TextAt m p h) :
    ∀ {fuel : Nat}, h.length < fuel →
      Yields (strstrFrom q fuel p) m (InEither p h q n) (p.add (occurrence n h)) := by
  induction h generalizing p with
  | nil =>
    intro fuel few
    obtain ⟨fuel, rfl⟩ := Nat.exists_eq_add_one_of_ne_zero (Nat.ne_of_gt few)
    refine (haystack.isChar_nil (.inl (.first p 0))).bind ?_
    simpa [occurrence] using Yields.pure (m := m) (ε := Endless) p
  | cons c h ih =>
    intro fuel few
    obtain ⟨fuel, rfl⟩ := Nat.exists_eq_add_one_of_ne_zero (Nat.ne_zero_of_lt few)
    refine (haystack.isChar_cons (.inl (.first p _))).bind ?_
    refine (scanCommon_yields haystack needle short).bind ?_
    refine Yields.load_bind (.inr (inside_add (Nat.lt_succ_of_le (common_le_right _ _)))) ?_
    by_cases found : n <+: c :: h
    · rw [if_pos (needle.needle_ends.mpr found), occurrence, if_pos found]
      simpa using Yields.pure (m := m) (ε := Endless) p
    · rw [if_neg (needle.needle_ends.not.mpr found), occurrence, if_neg found]
      have later := ih (Nat.lt_of_succ_lt short) haystack.tail (Nat.lt_of_succ_lt_succ few)
      rw [Ptr.succ_add] at later
      exact later.mono fun r => Or.imp_left Inside.of_succ

/-- What `strstr` is to return for the haystack `h` at `haystack` and the needle `n`. -/
structure FindsFirst (haystack : Nat) (h n : Text) (r : Ptr) : Prop where
  found : ∀ i, n <+: h.drop i → (∀ j, j < i → ¬ n <+: h.drop j) → r.addr = haystack + i
  absent : (∀ i, ¬ n <+: h.drop i) → r.addr = 0

theorem findsFirst_iff {haystack needle : Nat} {h n : Text} (here : StringAt m haystack h)
    (there : StringAt m needle n) :
    Finishes (strstr (.of haystack) (.of needle)) (.start m) (fun r _ => FindsFirst haystack h n r) ↔
      n <:+: h := by
  have value := strstrFrom_yields there.textAt here.short here.textAt here.short (.start m) rfl
  have fits := here.fits
  have bound := occurrence_le n h
  have addr : ((Ptr.of haystack).add (occurrence n h)).addr = haystack + occurrence n h :=
    Ptr.addr_add (by omega)
  constructor
  · intro correct
    obtain ⟨r, _, ⟨is, _⟩, finds⟩ := value.both correct
    by_contra nowhere
    have null : r.addr = 0 := finds.absent fun i begins =>
      nowhere (begins.isInfix.trans (List.drop_suffix i h).isInfix)
    have nonnull := here.nonnull
    rw [is, addr] at null
    omega
  · intro occurs
    have begins := prefix_at_occurrence_iff.mpr occurs
    refine value.mono fun r _ ⟨is, _⟩ => ⟨fun i first least => ?_, fun absent => ?_⟩
    · rw [is, addr]
      rcases Nat.lt_trichotomy i (occurrence n h) with early | same | late
      · exact absurd first (not_prefix_before_occurrence early)
      · rw [same]
      · exact absurd begins (least _ late)
    · exact absurd begins (absent _)

/-- A needle that overlaps itself, found at its second place. -/
theorem findsFirst_abab :
    Finishes (strstr (.of 16) (.of 64)) (.start (twoStrings 16 (text "abaabab") 64 (text "abab")))
      fun r _ => FindsFirst 16 (text "abaabab") (text "abab") r :=
  (findsFirst_iff (twoStrings_first (by decide) (by decide) (by decide) (by decide))
    (twoStrings_second (by decide) (by decide) (by decide))).mpr (by decide)

/-- A needle that is not there is reported at the end of the haystack. -/
theorem not_findsFirst :
    StringAt (twoStrings 16 (text "abc") 64 (text "x")) 16 (text "abc") ∧
      StringAt (twoStrings 16 (text "abc") 64 (text "x")) 64 (text "x") ∧
      ¬ Finishes (strstr (.of 16) (.of 64)) (.start (twoStrings 16 (text "abc") 64 (text "x")))
        fun r _ => FindsFirst 16 (text "abc") (text "x") r := by
  refine ⟨twoStrings_first (by decide) (by decide) (by decide) (by decide),
    twoStrings_second (by decide) (by decide) (by decide), fun correct => ?_⟩
  have value : Finishes (strstr (.of 16) (.of 64)) (.start (twoStrings 16 (text "abc") 64 (text "x")))
      fun r _ => r.addr = 19 := ⟨_, rfl, rfl⟩
  obtain ⟨r, _, is, finds⟩ := value.both correct
  have absent : ∀ i, ¬ text "x" <+: (text "abc").drop i := by
    intro i begins
    have occurs : text "x" <:+: text "abc" := begins.isInfix.trans (List.drop_suffix i _).isInfix
    exact absurd occurs (by decide)
  exact absurd (is.symm.trans (finds.absent absent)) (by decide)

/-! ## `memrchr` -/

/-- `r` points to the last of the `n` bytes at `p` that are equal to `c`, or nowhere. -/
structure IsLast (m : Mem) (p : Ptr) (c : Int) (n : Nat) (r : Ptr) : Prop where
  found : ∀ i : Nat, i < n → ((m (p.add i).addr).toNat : Int) = c →
    (∀ j : Nat, i < j → j < n → ((m (p.add j).addr).toNat : Int) ≠ c) → r.addr = (p.add i).addr
  absent : (∀ i : Nat, i < n → ((m (p.add i).addr).toNat : Int) ≠ c) → r.addr = 0

/-- `memrchr` is right about the block that starts one byte further, and reads only that. -/
theorem memrchr_yields (m : Mem) (p : Ptr) (c : Int) (n : Nat) :
    ∃ r, Yields (memrchr p c n) m (Inside (p.add 1) n) r ∧ IsLast m (p.add 1) c n r := by
  induction n with
  | zero =>
    exact ⟨null, Yields.pure _, fun _ bound => absurd bound (Nat.not_lt_zero _), fun _ => rfl⟩
  | succ n ih =>
    have last : (p.add 1).add n = p.add (n + 1 : Nat) := by
      rw [Ptr.succ_add]
    have inside : Inside (p.add 1) (n + 1) (p.add (n + 1 : Nat)) := ⟨n, Nat.lt_succ_self n, last.symm⟩
    by_cases here : ((m (p.add (n + 1 : Nat)).addr).toNat : Int) = c
    · refine ⟨p.add (n + 1 : Nat), ?_, fun i bound _ least => ?_, fun absent => ?_⟩
      · refine Yields.load_bind inside ?_
        rw [if_pos here]
        exact Yields.pure _
      · rcases Nat.lt_or_eq_of_le (Nat.le_of_lt_succ bound) with before | rfl
        · exact absurd (last ▸ here) (least n before (Nat.lt_succ_self n))
        · rw [last]
      · exact absurd (last ▸ here) (absent n (Nat.lt_succ_self n))
    · obtain ⟨r, value, isLast⟩ := ih
      refine ⟨r, ?_, fun i bound equal least => ?_, fun absent => ?_⟩
      · refine Yields.load_bind inside ?_
        rw [if_neg here, Ptr.add_pred]
        exact value.mono fun _ inside => inside.mono (Nat.le_succ n)
      · refine isLast.found i ?_ equal fun j after before => least j after (Nat.lt_succ_of_lt before)
        rcases Nat.lt_or_eq_of_le (Nat.le_of_lt_succ bound) with before | rfl
        · exact before
        · exact absurd (last ▸ equal) here
      · exact isLast.absent fun i before => absent i (Nat.lt_succ_of_lt before)

/-- The byte after a block that is not empty is read. -/
theorem memrchr_reads (p : Ptr) (c : Int) (n : Nat) (w : World (BitVec 8)) :
    Finishes (memrchr p c (n + 1)) w fun _ w' => p.add (n + 1 : Nat) ∈ w'.reads := by
  refine Finishes.load_bind ?_
  have logged : p.add (n + 1 : Nat) ∈ (w.read (p.add (n + 1 : Nat))).reads :=
    List.mem_append_right _ List.mem_cons_self
  split
  · exact Finishes.pure logged
  · obtain ⟨_, value, _⟩ := memrchr_yields w.cells p c n
    rw [Ptr.add_pred]
    exact (value (w.read _) rfl).mono fun _ _ ⟨_, within⟩ => within.mem_reads logged

theorem memrchr_correct_iff (m : Mem) (s : Nat) (c : Int) (n : Nat) :
    Finishes (memrchr (.of s) c n) (.start m)
        (fun r w' => IsLast m (.of s) c n r ∧ ∀ p ∈ w'.reads, Inside (.of s) n p) ↔ n = 0 := by
  constructor
  · intro correct
    by_contra some
    obtain ⟨n, rfl⟩ := Nat.exists_eq_add_one_of_ne_zero some
    obtain ⟨_, _, read, _, inside⟩ := (memrchr_reads (.of s) c n (.start m)).both correct
    obtain ⟨i, bound, same⟩ := inside _ read
    have index := Ptr.add_inj.mp same
    omega
  · rintro rfl
    exact Finishes.pure ⟨⟨fun _ bound => absurd bound (Nat.not_lt_zero _), fun _ => rfl⟩,
      fun _ mem => absurd mem List.not_mem_nil⟩

/-- The byte after a block of one byte is found in it. -/
theorem memrchr_past_block :
    ¬ Finishes (memrchr (.of 16) 97 1) (.start (Strings.store (fun _ => 0) 16 (text "xa")))
      fun r w' => IsLast (Strings.store (fun _ => 0) 16 (text "xa")) (.of 16) 97 1 r ∧
        ∀ p ∈ w'.reads, Inside (.of 16) 1 p := by
  intro correct
  have value : Finishes (memrchr (.of 16) 97 1)
      (.start (Strings.store (fun _ => 0) 16 (text "xa"))) fun r _ => r.addr = 17 := ⟨_, rfl, rfl⟩
  obtain ⟨r, _, is, isLast, _⟩ := value.both correct
  have absent : r.addr = 0 := isLast.absent fun i bound => by
    obtain rfl : i = 0 := by omega
    decide
  omega

end Nulix.Str
