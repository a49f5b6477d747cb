import Mathlib.Data.List.GetD
import Mathlib.Data.List.Infix

/-!
# The first difference of two zero-terminated strings

`common s t` is the length of the longest common beginning of two strings, which is where a comparison
of the two from the left ends: at two different characters, one of which may be the terminating zero of
its string, or at both zeros.
-/

namespace Compare

variable {α : Type} {s t : List α} {i n : Nat}

/-! ## The end of a string -/

section

variable [Zero α]

theorem getD_ne_zero (nonzero : ∀ c ∈ s, c ≠ 0) (inside : i < s.length) : s.getD i 0 ≠ 0 := by
  rw [List.getD_eq_getElem s 0 inside]
  exact nonzero _ (List.getElem_mem inside)

theorem getD_eq_zero_iff (nonzero : ∀ c ∈ s, c ≠ 0) : s.getD i 0 = 0 ↔ s.length ≤ i :=
  ⟨fun zero => not_lt.mp fun inside => getD_ne_zero nonzero inside zero,
    List.getD_eq_default s 0⟩

end

/-! ## The first difference -/

variable [DecidableEq α]

def common : List α → List α → Nat
  | c :: s, d :: t => if c = d then common s t + 1 else 0
  | _, _ => 0

theorem common_nil_right (s : List α) : common s [] = 0 := by
  cases s <;> rfl

theorem common_le_left (s t : List α) : common s t ≤ s.length := by
  fun_induction common s t with
  | case1 s d t ih => exact Nat.succ_le_succ ih
  | case2 => exact Nat.zero_le _
  | case3 => exact Nat.zero_le _

theorem common_comm (s t : List α) : common s t = common t s := by
  fun_induction common s t with
  | case1 s d t ih => rw [common, if_pos rfl, ih]
  | case2 c s d t other => rw [common, if_neg (Ne.symm other)]
  | case3 s t ended =>
    cases t with
    | nil => rfl
    | cons d t =>
      cases s with
      | nil => rfl
      | cons c s => exact absurd rfl (ended c s d t rfl)

theorem common_le_right (s t : List α) : common s t ≤ t.length :=
  common_comm s t ▸ common_le_left t s

@[simp] theorem common_self (s : List α) : common s s = s.length := by
  induction s with
  | nil => rfl
  | cons c s ih => rw [common, if_pos rfl, ih, List.length_cons]

/-- Up to the first difference, the two strings agree. -/
theorem take_common (s t : List α) : s.take (common s t) = t.take (common s t) := by
  fun_induction common s t with
  | case1 s d t ih => rw [List.take_succ_cons, List.take_succ_cons, ih]
  | case2 => rfl
  | case3 => rfl

/-- One string is a beginning of the other exactly if it ends before they differ. -/
theorem common_eq_length_iff : common s t = t.length ↔ t <+: s := by
  constructor
  · intro whole
    have same := take_common s t
    rw [whole, List.take_length] at same
    exact same ▸ List.take_prefix _ _
  · rintro ⟨rest, rfl⟩
    induction t with
    | nil => exact common_nil_right _
    | cons d t ih => rw [List.cons_append, common, if_pos rfl, ih, List.length_cons]

/-- The first `n` characters agree, or the strings have a common end before. -/
theorem take_eq_take_iff : s.take n = t.take n ↔ s = t ∨ n ≤ common s t := by
  fun_induction common s t generalizing n with
  | case1 s d t ih =>
    cases n with
    | zero => simp
    | succ n =>
      rw [List.take_succ_cons, List.take_succ_cons, List.cons_inj_right, List.cons_inj_right, ih,
        Nat.succ_le_succ_iff]
  | case2 c s d t other =>
    cases n with
    | zero => simp
    | succ n => simp [other]
  | case3 s t ended =>
    cases n with
    | zero => simp
    | succ n =>
      cases s with
      | nil => cases t <;> simp
      | cons c s =>
        cases t with
        | nil => simp
        | cons d t => exact absurd rfl (ended c s d t rfl)

/-! ## The first occurrence -/

/-- The first place of `h` where `n` begins, or else the length of `h`. -/
def occurrence (n : List α) : List α → Nat
  | [] => 0
  | c :: h => if n <+: c :: h then 0 else occurrence n h + 1

theorem occurrence_le (n h : List α) : occurrence n h ≤ h.length := by
  induction h with
  | nil => exact Nat.le_refl 0
  | cons c h ih =>
    rw [occurrence]
    split
    · exact Nat.zero_le _
    · exact Nat.succ_le_succ ih

theorem prefix_at_occurrence_iff {n h : List α} : n <+: h.drop (occurrence n h) ↔ n <:+: h := by
  induction h with
  | nil => rw [List.drop_nil, List.prefix_nil, List.infix_nil]
  | cons c h ih =>
    rw [occurrence, List.infix_cons_iff]
    split
    · rename_i here
      exact iff_of_true here (.inl here)
    · rename_i later
      rw [List.drop_succ_cons, ih, or_iff_right later]

theorem not_prefix_before_occurrence {n h : List α} {j : Nat} (early : j < occurrence n h) :
    ¬ n <+: h.drop j := by
  induction h generalizing j with
  | nil => exact absurd early (Nat.not_lt_zero j)
  | cons c h ih =>
    rw [occurrence] at early
    split at early
    · exact absurd early (Nat.not_lt_zero j)
    · rename_i later
      cases j with
      | zero => exact later
      | succ j => exact ih (Nat.lt_of_succ_lt_succ early)

/-! ## Zero-terminated strings -/

variable [Zero α]

/-- Before the first difference, the characters are the same. -/
theorem getD_of_lt_common (before : i < common s t) : s.getD i 0 = t.getD i 0 := by
  have left := before.trans_le (common_le_left s t)
  have right := before.trans_le (common_le_right s t)
  have same := congrArg (fun l => l[i]?) (take_common s t)
  simp only [List.getElem?_take, if_pos before] at same
  rw [List.getD_eq_getElem?_getD, List.getD_eq_getElem?_getD, same]

/-- At the first difference the characters differ, unless both strings end there. -/
theorem getD_common_eq_iff (nonzero : ∀ c ∈ s, c ≠ 0) (nonzero' : ∀ c ∈ t, c ≠ 0) :
    s.getD (common s t) 0 = t.getD (common s t) 0 ↔ s = t := by
  fun_induction common s t with
  | case1 s d t ih =>
    rw [List.getD_cons_succ, List.getD_cons_succ, List.cons_inj_right]
    exact ih (fun c mem => nonzero c (List.mem_cons_of_mem d mem))
      fun c mem => nonzero' c (List.mem_cons_of_mem d mem)
  | case2 c s d t other =>
    rw [List.getD_cons_zero, List.getD_cons_zero]
    exact iff_of_false other fun same => other (List.cons.inj same).1
  | case3 s t ended =>
    cases s with
    | nil =>
      cases t with
      | nil => exact iff_of_true rfl rfl
      | cons d t => exact iff_of_false (nonzero' d List.mem_cons_self).symm nofun
    | cons c s =>
      cases t with
      | nil => exact iff_of_false (nonzero c List.mem_cons_self) nofun
      | cons d t => exact absurd rfl (ended c s d t rfl)

/-- Where the comparison ends, one string has ended or the characters differ. -/
theorem ends_at_common (nonzero : ∀ c ∈ s, c ≠ 0) (nonzero' : ∀ c ∈ t, c ≠ 0)
    (left : s.getD (common s t) 0 ≠ 0) : s.getD (common s t) 0 ≠ t.getD (common s t) 0 := by
  intro same
  have equal := (getD_common_eq_iff nonzero nonzero').mp same
  rw [equal, common_self] at left
  exact left (List.getD_eq_default t 0 (Nat.le_refl _))

/-- The first difference is the only place where two strings differ after agreeing. -/
theorem eq_common (nonzero : ∀ c ∈ s, c ≠ 0) (nonzero' : ∀ c ∈ t, c ≠ 0)
    (before : ∀ j, j < i → s.getD j 0 = t.getD j 0) (differ : s.getD i 0 ≠ t.getD i 0) :
    i = common s t := by
  refine Nat.le_antisymm (not_lt.mp fun after => ?_) (not_lt.mp fun early => ?_)
  · have equal := (getD_common_eq_iff nonzero nonzero').mp (before _ after)
    exact differ (by rw [equal])
  · exact differ (getD_of_lt_common early)

end Compare
