import Nulix.Lib.Compare
import Nulix.Nsh.Dispatch
import Nulix.Str.Basic

/-!
# String comparison

`strcmp`, `strncmp` and `memcmp` return the difference of two characters, which are read as signed
numbers by the first two and as unsigned ones by the third. `strncmp` tells the ends of its loop apart
by a counter that was decremented before it is looked at: it takes a difference of the last of the `n`
characters for none, and compares one character too many where it finds none.
-/

namespace Nulix.Str

open Accesses Compare Fallible Print

variable {m : Mem} {p q : Ptr} {s t : Text}

/-! ## The common beginning of two strings -/

/-- The pointers of a comparison after `i` turns. -/
def pairs (p q : Ptr) (i : Nat) : Ptr × Ptr := (p.add i, q.add i)

theorem pairs_zero (p q : Ptr) : pairs p q 0 = (p, q) := by
  rw [pairs, Nat.cast_zero, Ptr.add_zero, Ptr.add_zero]

theorem advanceBoth_pairs (p q : Ptr) (i : Nat) : advanceBoth (pairs p q i) = pairs p q (i + 1) := by
  rw [advanceBoth, pairs, pairs, Ptr.add_add, Ptr.add_add, Nat.cast_succ]

section

variable {test : Ptr → Ptr → Code Bool} {R : Ptr → Prop} {k : Nat}

theorem scan_pairs (goesOn : ∀ i : Nat, i < k → Yields (test (p.add i) (q.add i)) m R true)
    (stops : Yields (test (p.add k) (q.add k)) m R false) (short : k < turns) :
    Yields (scanWhile .endless (fun s => test s.1 s.2) advanceBoth turns (p, q)) m R
      (p.add k, q.add k) :=
  pairs_zero p q ▸ Yields.scan (pairs p q) (advanceBoth_pairs p q) goesOn stops short

theorem count_pairs {n : Nat} (goesOn : ∀ i : Nat, i < k → Yields (test (p.add i) (q.add i)) m R true)
    (bound : k ≤ n) (stops : k < n → Yields (test (p.add k) (q.add k)) m R false) :
    Yields (countWhile (fun s => test s.1 s.2) advanceBoth n (p, q)) m R (n - k, p.add k, q.add k) :=
  pairs_zero p q ▸ Yields.count (pairs p q) (advanceBoth_pairs p q) goesOn bound stops

end

/-- The cells of the strings `s` at `p` and `t` at `q`, with their ends. -/
def InEither (p : Ptr) (s : Text) (q : Ptr) (t : Text) (r : Ptr) : Prop :=
  Inside p (s.length + 1) r ∨ Inside q (t.length + 1) r

theorem TextAt.common_iff (left : TextAt m p s) (right : TextAt m q t) {i : Nat}
    (bound : i ≤ common s t) : Common m (p.add i) (q.add i) ↔ i < common s t := by
  have short := common_le_left s t
  have short' := common_le_right s t
  unfold Common
  rw [left.chars i (bound.trans short), right.chars i (bound.trans short')]
  rcases Nat.lt_or_eq_of_le bound with before | rfl
  · refine iff_of_true ⟨?_, ?_, getD_of_lt_common before⟩ before
    · exact getD_ne_zero left.nonzero (before.trans_le short)
    · exact getD_ne_zero right.nonzero (before.trans_le short')
  · refine iff_of_false (fun ⟨going, _, same⟩ => ?_) (Nat.lt_irrefl _)
    exact ends_at_common left.nonzero right.nonzero going same

/-- The loop that `strcmp` and `strstr` share stops at the first difference. -/
theorem scanCommon_yields (left : TextAt m p s) (right : TextAt m q t) (short : s.length < turns) :
    Yields (scanWhile .endless (fun s : Ptr × Ptr => isCommon s.1 s.2) advanceBoth turns (p, q))
      m (InEither p s q t) (p.add (common s t), q.add (common s t)) := by
  have test : ∀ i, i ≤ common s t →
      Yields (isCommon (p.add i) (q.add i)) m (InEither p s q t) (decide (i < common s t)) := by
    intro i bound
    have inside := bound.trans (common_le_left s t)
    have inside' := bound.trans (common_le_right s t)
    have value := isCommon_yields (m := m) (R := InEither p s q t)
      (.inl (inside_add (p := p) (Nat.lt_succ_of_le inside)))
      (.inr (inside_add (p := q) (Nat.lt_succ_of_le inside')))
    rwa [decide_eq_decide.mpr (left.common_iff right bound)] at value
  exact scan_pairs (fun i before => decide_eq_true before ▸ test i before.le)
    (decide_eq_false (Nat.lt_irrefl _) ▸ test _ le_rfl) ((common_le_left s t).trans_lt short)

/-! ## `strcmp` -/

/-- `strcmp` returns the difference of the characters at the first difference, and reads no string past
its end. -/
theorem strcmp_yields (left : TextAt m p s) (right : TextAt m q t) (short : s.length < turns) :
    Yields (strcmp p q) m (InEither p s q t)
      ((s.getD (common s t) 0).toInt - (t.getD (common s t) 0).toInt) := by
  have inside := common_le_left s t
  have inside' := common_le_right s t
  rw [← left.chars _ inside, ← right.chars _ inside']
  refine (scanCommon_yields left right short).bind ?_
  refine Yields.load_bind (.inl (inside_add (Nat.lt_succ_of_le inside))) ?_
  exact Yields.load_bind (.inr (inside_add (Nat.lt_succ_of_le inside'))) (Yields.pure _)

/-- The comparison of two texts that the shell's model makes is this one. -/
theorem strcmp_eq_common (s t : Text) :
    Nsh.strcmp s t = (s.getD (common s t) 0).toInt - (t.getD (common s t) 0).toInt := by
  fun_induction common s t with
  | case1 s d t ih => rw [Nsh.strcmp, if_pos rfl, ih, List.getD_cons_succ, List.getD_cons_succ]
  | case2 c s d t other => rw [Nsh.strcmp, if_neg other, List.getD_cons_zero, List.getD_cons_zero]
  | case3 s t ended =>
    cases s with
    | nil => cases t <;> rfl
    | cons c s =>
      cases t with
      | nil => rfl
      | cons d t => exact absurd rfl (ended c s d t rfl)

/-! ## `strncmp` -/

/-- The shared test of the loops, on memory of any contents. -/
theorem isCommon_decides (p q : Ptr) : Yields (isCommon p q) m anywhere (Common m p q) :=
  isCommon_yields trivial trivial

/-- Where the counter runs out, the characters after the last one to compare are compared. -/
theorem strncmp_all {n : Nat} (going : ∀ i : Nat, i < n → Common m (p.add i) (q.add i)) :
    Yields (strncmp p q n) m anywhere ((m (p.add n).addr).toInt - (m (q.add n).addr).toInt) := by
  refine (count_pairs (fun i bound => decide_eq_true (going i bound) ▸ isCommon_decides _ _) le_rfl
    fun early => absurd early (Nat.lt_irrefl n)).bind ?_
  rw [Nat.sub_self]
  exact Yields.load_bind trivial (Yields.load_bind trivial (Yields.pure _))

/-- Where the loop ends at the last character to compare, nothing is compared. -/
theorem strncmp_stop {n k : Nat} (going : ∀ i : Nat, i < k → Common m (p.add i) (q.add i))
    (stops : ¬ Common m (p.add k) (q.add k)) (early : k < n) :
    Yields (strncmp p q n) m anywhere
      (if k + 1 = n then 0 else (m (p.add k).addr).toInt - (m (q.add k).addr).toInt) := by
  refine (count_pairs (fun i bound => decide_eq_true (going i bound) ▸ isCommon_decides _ _) early.le
    fun _ => decide_eq_false stops ▸ isCommon_decides _ _).bind ?_
  have counter : decremented (n - k) = n - k - 1 := if_neg (by omega)
  by_cases last : k + 1 = n
  · rw [if_pos last]
    have zero : n - k - 1 = 0 := by omega
    simp only [counter, zero, if_true]
    exact Yields.pure _
  · rw [if_neg last]
    have nonzero : n - k - 1 ≠ 0 := by omega
    simp only [counter, nonzero, if_false]
    exact Yields.load_bind trivial (Yields.load_bind trivial (Yields.pure _))

/-- What `strncmp` is to return for the strings `l1` at `s1` and `l2` at `s2`. -/
structure ComparesFirst (m : Mem) (s1 s2 : Nat) (l1 l2 : Text) (n : Nat) (v : Int) : Prop where
  zero : v = 0 ↔ l1.take n = l2.take n
  sign : ∀ i, i < n → (∀ j, j < i → l1.getD j 0 = l2.getD j 0) → l1.getD i 0 ≠ l2.getD i 0 →
    v.sign = ((l1.getD i 0).toInt - (l2.getD i 0).toInt).sign
  only : ∀ m' : Mem, (∀ i, i < n → m' (s1 + i) = m (s1 + i) ∧ m' (s2 + i) = m (s2 + i)) →
    Finishes (strncmp (.of s1) (.of s2) n) (.start m') fun v' _ => v' = v

section

variable {s1 s2 n : Nat} {l1 l2 : Text}

theorem toInt_sub_eq_zero {c d : BitVec 8} : c.toInt - d.toInt = 0 ↔ c = d :=
  Int.sub_eq_zero.trans ⟨BitVec.eq_of_toInt_eq, fun same => by rw [same]⟩

/-- Only one string stands at an address. -/
theorem TextAt.unique (left : TextAt m p s) (right : TextAt m p t) : s = t := by
  refine (getD_common_eq_iff left.nonzero right.nonzero).mp ?_
  rw [← left.chars _ (common_le_left s t), ← right.chars _ (common_le_right s t)]

/-- A string compared with itself. -/
theorem strncmp_self (m : Mem) (p : Ptr) (n : Nat) : Yields (strncmp p p n) m anywhere 0 := by
  obtain ⟨k, ends⟩ := exists_endsAt (fun i : Nat => ¬ Common m (p.add i) (p.add i)) n
  have going : ∀ i : Nat, i < k → Common m (p.add i) (p.add i) :=
    fun i before => not_not.mp (ends.before i before)
  rcases Nat.lt_or_eq_of_le ends.bound with early | rfl
  · simpa using strncmp_stop going (ends.stops early) early
  · simpa using strncmp_all going

/-- The cells of two objects before their index `n`. -/
def SameFirst (m m' : Mem) (s1 s2 n : Nat) : Prop :=
  ∀ i, i < n → m' (s1 + i) = m (s1 + i) ∧ m' (s2 + i) = m (s2 + i)

/-- The tests made before index `n` do not depend on the rest of the memory. -/
theorem SameFirst.common {m' : Mem} (same : SameFirst m m' s1 s2 n) {i : Nat} (bound : i < n)
    (fits : s1 + i < 2 ^ 32) (fits' : s2 + i < 2 ^ 32) :
    Common m' ((Ptr.of s1).add i) ((Ptr.of s2).add i) ↔ Common m ((Ptr.of s1).add i) ((Ptr.of s2).add i) := by
  unfold Common
  rw [Ptr.addr_add fits, Ptr.addr_add fits', (same i bound).1, (same i bound).2]

/-- Where the counter runs out, the result depends on the characters after the last one to compare. -/
theorem strncmp_runsOut {m' : Mem} (left : StringAt m s1 l1) (right : StringAt m s2 l2)
    (runsOut : n ≤ common l1 l2) (same : SameFirst m m' s1 s2 n) :
    Yields (strncmp (.of s1) (.of s2) n) m' anywhere ((m' (s1 + n)).toInt - (m' (s2 + n)).toInt) := by
  have fits := left.fits
  have fits' := right.fits
  have short := runsOut.trans (common_le_left l1 l2)
  have short' := runsOut.trans (common_le_right l1 l2)
  have value := strncmp_all (m := m') (p := .of s1) (q := .of s2) (n := n) fun i bound =>
    (same.common bound (by omega) (by omega)).mpr
      ((left.textAt.common_iff right.textAt (bound.le.trans runsOut)).mpr (bound.trans_le runsOut))
  rwa [Ptr.addr_add (by omega), Ptr.addr_add (by omega)] at value

/-- Where the counter runs out, no result is right in every memory, unless the strings are the same
object. -/
theorem not_comparesFirst_of_runsOut (left : StringAt m s1 l1) (right : StringAt m s2 l2)
    (apart : s1 ≠ s2) (runsOut : n ≤ common l1 l2) {v : Int} : ¬ ComparesFirst m s1 s2 l1 l2 n v := by
  intro correct
  have value : ∀ m', SameFirst m m' s1 s2 n → v = (m' (s1 + n)).toInt - (m' (s2 + n)).toInt := by
    intro m' same
    obtain ⟨_, _, is, is'⟩ := (correct.only m' same).both
      (strncmp_runsOut left right runsOut same).returns
    exact is.symm.trans is'
  -- The later one of the two cells belongs to neither beginning.
  let last := max s1 s2 + n
  have free : SameFirst m (Function.update m last (m last + 1)) s1 s2 n := by
    intro i bound
    rw [Function.update_of_ne (by omega), Function.update_of_ne (by omega)]
    exact ⟨rfl, rfl⟩
  have before := value m fun _ _ => ⟨rfl, rfl⟩
  have after := value _ free
  have other : m last + 1 ≠ m last := by
    intro same
    have := congrArg BitVec.toNat same
    simp at this
    omega
  rcases Nat.lt_or_gt_of_ne apart with lower | higher
  · have isLast : last = s2 + n := by omega
    rw [Function.update_of_ne (by omega), ← isLast, Function.update_self] at after
    rw [← isLast] at before
    exact other (BitVec.eq_of_toInt_eq (by omega))
  · have isLast : last = s1 + n := by omega
    rw [Function.update_of_ne (a := s2 + n) (by omega), ← isLast, Function.update_self] at after
    rw [← isLast] at before
    exact other (BitVec.eq_of_toInt_eq (by omega))

/-- Where the strings differ or end before the counter runs out. -/
theorem strncmp_early {m' : Mem} (left : StringAt m s1 l1) (right : StringAt m s2 l2)
    (early : common l1 l2 < n) (same : SameFirst m m' s1 s2 n) :
    Yields (strncmp (.of s1) (.of s2) n) m' anywhere
      (if common l1 l2 + 1 = n then 0
        else (l1.getD (common l1 l2) 0).toInt - (l2.getD (common l1 l2) 0).toInt) := by
  have fits := left.fits
  have fits' := right.fits
  have short := common_le_left l1 l2
  have short' := common_le_right l1 l2
  have tests : ∀ i : Nat, i ≤ common l1 l2 →
      (Common m' ((Ptr.of s1).add i) ((Ptr.of s2).add i) ↔ i < common l1 l2) := fun i bound =>
    (same.common (bound.trans_lt early) (by omega) (by omega)).trans
      (left.textAt.common_iff right.textAt bound)
  have value := strncmp_stop (fun i bound => (tests i bound.le).mpr bound)
    (fun going => Nat.lt_irrefl _ ((tests _ le_rfl).mp going)) early
  rwa [Ptr.addr_add (by omega), Ptr.addr_add (by omega), (same _ early).1, (same _ early).2,
    left.char short, right.char short'] at value

/-- A result that depends on the first `n` characters only is right if its sign is. -/
theorem comparesFirst_of {v : Int}
    (value : ∀ m', SameFirst m m' s1 s2 n → Yields (strncmp (.of s1) (.of s2) n) m' anywhere v)
    (zero : v = 0 ↔ l1.take n = l2.take n)
    (sign : ∀ i, i < n → (∀ j, j < i → l1.getD j 0 = l2.getD j 0) → l1.getD i 0 ≠ l2.getD i 0 →
      v.sign = ((l1.getD i 0).toInt - (l2.getD i 0).toInt).sign) :
    Finishes (strncmp (.of s1) (.of s2) n) (.start m)
      fun v _ => ComparesFirst m s1 s2 l1 l2 n v := by
  refine (value m fun _ _ => ⟨rfl, rfl⟩).returns.mono fun v' _ is => ?_
  subst is
  exact ⟨zero, sign, fun m' same => (value m' same).returns⟩

/-- Strings that differ before the last character to compare. -/
theorem comparesFirst_of_differ (left : StringAt m s1 l1) (right : StringAt m s2 l2)
    (differ : l1 ≠ l2) (early : common l1 l2 + 1 < n) :
    Finishes (strncmp (.of s1) (.of s2) n) (.start m)
      fun v _ => ComparesFirst m s1 s2 l1 l2 n v := by
  have found : common l1 l2 < n := Nat.lt_of_succ_lt early
  have other := (getD_common_eq_iff left.nonzero right.nonzero).not.mpr differ
  refine comparesFirst_of (fun m' same => strncmp_early left right found same) ?_ ?_
  · rw [if_neg early.ne, toInt_sub_eq_zero]
    exact iff_of_false other fun agree =>
      (take_eq_take_iff.mp agree).elim differ (Nat.not_le_of_lt found)
  · intro i _ before first
    rw [if_neg early.ne, eq_common left.nonzero right.nonzero before first]

/-- Strings whose difference is at the last character to compare are taken for equal. -/
theorem not_comparesFirst_of_last (left : StringAt m s1 l1) (right : StringAt m s2 l2)
    (differ : l1 ≠ l2) (last : common l1 l2 + 1 = n) :
    ¬ Finishes (strncmp (.of s1) (.of s2) n) (.start m)
      fun v _ => ComparesFirst m s1 s2 l1 l2 n v := by
  intro correct
  have found : common l1 l2 < n := by omega
  have value := strncmp_early left right found fun _ _ => ⟨rfl, rfl⟩
  obtain ⟨v, _, is, compares⟩ := value.returns.both correct
  rw [if_pos last] at is
  exact (take_eq_take_iff.mp (compares.zero.mp is)).elim differ (Nat.not_le_of_lt found)

theorem comparesFirst_iff (left : StringAt m s1 l1) (right : StringAt m s2 l2) (n : Nat) :
    Finishes (strncmp (.of s1) (.of s2) n) (.start m)
        (fun v _ => ComparesFirst m s1 s2 l1 l2 n v) ↔
      s1 = s2 ∨ (l1 = l2 ∧ l1.length < n) ∨ (l1 ≠ l2 ∧ common l1 l2 + 1 < n) := by
  constructor
  · intro correct
    by_cases sameObject : s1 = s2
    · exact .inl sameObject
    by_cases runsOut : n ≤ common l1 l2
    · obtain ⟨_, _, wrong⟩ := correct
      exact absurd wrong (not_comparesFirst_of_runsOut left right sameObject runsOut)
    have early := Nat.lt_of_not_le runsOut
    by_cases equal : l1 = l2
    · subst equal
      rw [common_self] at early
      exact .inr (.inl ⟨rfl, early⟩)
    · exact .inr (.inr ⟨equal, lt_of_le_of_ne early fun last =>
        not_comparesFirst_of_last left right equal last correct⟩)
  · rintro (rfl | ⟨rfl, ended⟩ | ⟨differ, early⟩)
    · obtain rfl := left.textAt.unique right.textAt
      exact comparesFirst_of (fun m' _ => strncmp_self m' _ n) (iff_of_true rfl rfl)
        fun _ _ _ other => absurd rfl other
    · have early : common l1 l1 < n := (common_self l1).symm ▸ ended
      exact comparesFirst_of (fun _ same => strncmp_early left right early same) (by simp)
        fun _ _ _ other => absurd rfl other
    · exact comparesFirst_of_differ left right differ early

/-- The strings of the library's own test, which differ in their third character. -/
theorem comparesFirst_hello :
    Finishes (strncmp (.of 16) (.of 64) 9)
      (.start (twoStrings 16 (text "Hello world") 64 (text "Heppo world")))
      fun v _ => ComparesFirst (twoStrings 16 (text "Hello world") 64 (text "Heppo world")) 16 64
        (text "Hello world") (text "Heppo world") 9 v :=
  (comparesFirst_iff (twoStrings_first (by decide) (by decide) (by decide) (by decide))
    (twoStrings_second (by decide) (by decide) (by decide)) 9).mpr
    (.inr (.inr ⟨by decide, by decide⟩))

/-- With nothing to compare, `strncmp` compares the first characters, against the library's own test. -/
theorem strncmp_empty :
    StringAt (twoStrings 16 [] 64 (text "Hello")) 16 [] ∧
      StringAt (twoStrings 16 [] 64 (text "Hello")) 64 (text "Hello") ∧
      ¬ Finishes (strncmp (.of 16) (.of 64) 0) (.start (twoStrings 16 [] 64 (text "Hello")))
        fun v _ => ComparesFirst (twoStrings 16 [] 64 (text "Hello")) 16 64 [] (text "Hello") 0 v := by
  refine ⟨twoStrings_first (by decide) (by decide) (by decide) (by decide),
    twoStrings_second (by decide) (by decide) (by decide), fun correct => ?_⟩
  have value : Finishes (strncmp (.of 16) (.of 64) 0) (.start (twoStrings 16 [] 64 (text "Hello")))
      fun v _ => v = -72 := ⟨_, rfl, rfl⟩
  obtain ⟨v, _, is, compares⟩ := value.both correct
  have zero : v = 0 := compares.zero.mpr rfl
  omega

end

/-! ## `memcmp` -/

/-- On two strings, the shorter one's end included, `memcmp` returns the difference of the bytes at the
first difference. -/
theorem memcmp_yields (left : TextAt m p s) (right : TextAt m q t) :
    Yields (memcmp p q (min s.length t.length + 1)) m anywhere
      (((s.getD (common s t) 0).toNat : Int) - (t.getD (common s t) 0).toNat) := by
  have inside := common_le_left s t
  have inside' := common_le_right s t
  have test : ∀ i : Nat, i ≤ min s.length t.length →
      Yields (isSame (p.add i) (q.add i)) m anywhere (decide (s.getD i 0 = t.getD i 0)) := by
    intro i bound
    rw [← left.chars i (by omega), ← right.chars i (by omega)]
    exact isSame_yields trivial trivial
  by_cases equal : s = t
  · subst equal
    rw [Int.sub_self]
    refine (count_pairs (k := min s.length s.length + 1) (fun i bound => ?_) le_rfl
      fun early => absurd early (Nat.lt_irrefl _)).bind ?_
    · exact decide_eq_true (rfl : s.getD i 0 = _) ▸ test i (Nat.le_of_lt_succ bound)
    · rw [Nat.sub_self]
      exact Yields.pure _
  · have differ := (getD_common_eq_iff left.nonzero right.nonzero).not.mpr equal
    refine (count_pairs (k := common s t) (fun i bound => ?_) (by omega) fun _ => ?_).bind ?_
    · exact decide_eq_true (getD_of_lt_common bound) ▸ test i (by omega)
    · exact decide_eq_false differ ▸ test _ (by omega)
    · have some : min s.length t.length + 1 - common s t ≠ 0 := by omega
      simp only [some, if_false]
      rw [← left.chars _ inside, ← right.chars _ inside']
      exact Yields.load_bind trivial (Yields.load_bind trivial (Yields.pure _))

/-! ## The order of `strcmp` -/

/-- The signed and the unsigned difference have the same sign exactly if the two bytes are on the same
side of 0x80. -/
theorem sign_sub_eq_iff {c d : BitVec 8} :
    (c.toInt - d.toInt).sign = ((c.toNat : Int) - d.toNat).sign ↔ c.msb = d.msb := by
  have small := c.isLt
  have small' := d.isLt
  rw [BitVec.toInt_eq_msb_cond, BitVec.toInt_eq_msb_cond]
  have high := BitVec.msb_eq_decide c
  have high' := BitVec.msb_eq_decide d
  cases up : c.msb <;> cases up' : d.msb <;> rw [up] at high <;> rw [up'] at high'
  · simp
  · have below : c.toNat < 128 := by simpa using high.symm
    have above : 128 ≤ d.toNat := by simpa using high'.symm
    refine iff_of_false ?_ nofun
    rw [if_neg Bool.false_ne_true, if_pos rfl, Int.sign_eq_one_of_pos (by omega),
      Int.sign_eq_neg_one_of_neg (by omega)]
    decide
  · have above : 128 ≤ c.toNat := by simpa using high.symm
    have below : d.toNat < 128 := by simpa using high'.symm
    refine iff_of_false ?_ nofun
    rw [if_pos rfl, if_neg Bool.false_ne_true, Int.sign_eq_neg_one_of_neg (by omega),
      Int.sign_eq_one_of_pos (by omega)]
    decide
  · simp

theorem strcmp_swap (s t : Text) : Nsh.strcmp t s = -Nsh.strcmp s t := by
  rw [strcmp_eq_common, strcmp_eq_common, common_comm t s, Int.neg_sub]

/-- Two strings that begin with different characters, one of which may be the end. -/
theorem strcmp_of_head_ne {s t : Text} (other : s.headD 0 ≠ t.headD 0) :
    Nsh.strcmp s t = (s.headD 0).toInt - (t.headD 0).toInt := by
  cases s with
  | nil => cases t <;> rfl
  | cons c s =>
    cases t with
    | nil => rfl
    | cons d t => rw [Nsh.strcmp, if_neg (by simpa using other), List.headD_cons, List.headD_cons]

theorem head_le_of_strcmp {s t : Text} (le : Nsh.strcmp s t ≤ 0) :
    (s.headD 0).toInt ≤ (t.headD 0).toInt := by
  by_cases same : s.headD 0 = t.headD 0
  · rw [same]
  · rw [strcmp_of_head_ne same] at le
    omega

/-- The order of `strcmp` is transitive. -/
theorem strcmp_trans {s t u : Text} (nonzero : ∀ c ∈ s, c ≠ 0) (nonzero' : ∀ c ∈ u, c ≠ 0)
    (first : Nsh.strcmp s t ≤ 0) (second : Nsh.strcmp t u ≤ 0) : Nsh.strcmp s u ≤ 0 := by
  have le := head_le_of_strcmp first
  have le' := head_le_of_strcmp second
  by_cases ends : s.headD 0 = u.headD 0
  · induction s generalizing t u with
    | nil =>
      cases u with
      | nil => exact le_rfl
      | cons e u => exact absurd ends.symm (nonzero' e List.mem_cons_self)
    | cons c s ih =>
      cases u with
      | nil => exact absurd ends (nonzero c List.mem_cons_self)
      | cons e u =>
        obtain rfl : c = e := ends
        cases t with
        | nil =>
          have zero : c.toInt = (0 : BitVec 8).toInt := le_antisymm le le'
          exact absurd (BitVec.eq_of_toInt_eq zero) (nonzero c List.mem_cons_self)
        | cons d t =>
          obtain rfl : c = d := BitVec.eq_of_toInt_eq (le_antisymm le le')
          rw [Nsh.strcmp, if_pos rfl] at first second ⊢
          have below := head_le_of_strcmp first
          have below' := head_le_of_strcmp second
          by_cases again : s.headD 0 = u.headD 0
          · exact ih (fun e mem => nonzero e (List.mem_cons_of_mem c mem))
              (fun e mem => nonzero' e (List.mem_cons_of_mem c mem)) first second below below' again
          · rw [strcmp_of_head_ne again]
            omega
  · rw [strcmp_of_head_ne ends]
    omega

/-- `strcmp(s1, s2) <= 0` -/
def Precedes (m : Mem) (s1 s2 : Nat) : Prop :=
  Finishes (strcmp (.of s1) (.of s2)) (.start m) fun v _ => v ≤ 0

/-- What `strcmp` is to return for the strings `l1` at `s1` and `l2` at `s2`. -/
structure OrdersAlike (m : Mem) (s1 s2 : Nat) (l1 l2 : Text) : Prop where
  sign : Finishes (strcmp (.of s1) (.of s2)) (.start m) fun v _ =>
    Finishes (memcmp (.of s1) (.of s2) (min l1.length l2.length + 1)) (.start m) fun u _ =>
      v.sign = u.sign
  zero : Finishes (strcmp (.of s1) (.of s2)) (.start m) fun v _ => v = 0 ↔ l1 = l2
  total : Precedes m s1 s2 ∨ Precedes m s2 s1
  antisymm : Precedes m s1 s2 → Precedes m s2 s1 → l1 = l2
  trans : ∀ s3 l3, StringAt m s3 l3 → Precedes m s1 s2 → Precedes m s2 s3 → Precedes m s1 s3

section

variable {s1 s2 : Nat} {l1 l2 : Text}

theorem StringAt.strcmp_finishes (left : StringAt m s1 l1) (right : StringAt m s2 l2)
    {Q : Int → Prop} :
    Finishes (strcmp (.of s1) (.of s2)) (.start m) (fun v _ => Q v) ↔ Q (Nsh.strcmp l1 l2) := by
  have value := strcmp_yields left.textAt right.textAt left.short (.start m) rfl
  rw [← strcmp_eq_common] at value
  constructor
  · intro holds
    obtain ⟨v, _, ⟨is, _⟩, q⟩ := value.both holds
    exact is ▸ q
  · exact fun q => value.mono fun v _ ⟨is, _⟩ => is ▸ q

theorem ordersAlike_iff (left : StringAt m s1 l1) (right : StringAt m s2 l2) :
    OrdersAlike m s1 s2 l1 l2 ↔
      (l1.getD (common l1 l2) 0).msb = (l2.getD (common l1 l2) 0).msb := by
  have precedes : ∀ {a b k l}, StringAt m a k → StringAt m b l →
      (Precedes m a b ↔ Nsh.strcmp k l ≤ 0) := fun first second => first.strcmp_finishes second
  have value := memcmp_yields left.textAt right.textAt (.start m) rfl
  constructor
  · intro alike
    have same := left.strcmp_finishes right |>.mp alike.sign
    obtain ⟨u, _, ⟨is, _⟩, sign⟩ := value.both same
    rw [strcmp_eq_common, is] at sign
    exact sign_sub_eq_iff.mp sign
  · intro side
    have swap := strcmp_swap l1 l2
    refine ⟨(left.strcmp_finishes right).mpr ?_, (left.strcmp_finishes right).mpr ?_, ?_, ?_, ?_⟩
    · refine value.mono fun u _ ⟨is, _⟩ => ?_
      rw [strcmp_eq_common, is]
      exact sign_sub_eq_iff.mpr side
    · exact Nsh.strcmp_eq_zero_iff left.nonzero right.nonzero
    · rw [precedes left right, precedes right left]
      omega
    · rw [precedes left right, precedes right left]
      intro le ge
      exact (Nsh.strcmp_eq_zero_iff left.nonzero right.nonzero).mp (by omega)
    · intro s3 l3 third
      rw [precedes left right, precedes right third, precedes left third]
      exact strcmp_trans left.nonzero third.nonzero

theorem ordersAlike_hey : OrdersAlike (twoStrings 16 (text "Hey") 64 (text "Hello")) 16 64 (text "Hey")
    (text "Hello") :=
  (ordersAlike_iff (twoStrings_first (by decide) (by decide) (by decide) (by decide))
    (twoStrings_second (by decide) (by decide) (by decide))).mpr (by decide)

/-- A byte above 0x7f is before every letter for `strcmp`, and after every letter for `memcmp`. -/
theorem not_ordersAlike :
    StringAt (twoStrings 16 [0xe9] 64 (text "a")) 16 [0xe9] ∧
      StringAt (twoStrings 16 [0xe9] 64 (text "a")) 64 (text "a") ∧
      ¬ OrdersAlike (twoStrings 16 [0xe9] 64 (text "a")) 16 64 [0xe9] (text "a") := by
  refine ⟨twoStrings_first (by decide) (by decide) (by decide) (by decide),
    twoStrings_second (by decide) (by decide) (by decide), fun alike => ?_⟩
  have value : Finishes (strcmp (.of 16) (.of 64)) (.start (twoStrings 16 [0xe9] 64 (text "a")))
      fun v _ => v = -120 := ⟨_, rfl, rfl⟩
  have value' : Finishes (memcmp (.of 16) (.of 64) 2) (.start (twoStrings 16 [0xe9] 64 (text "a")))
      fun u _ => u = 136 := ⟨_, rfl, rfl⟩
  obtain ⟨v, _, is, rest⟩ := value.both alike.sign
  obtain ⟨u, _, is', same⟩ := value'.both rest
  rw [is, is'] at same
  exact absurd same (by decide)

end

end Nulix.Str
