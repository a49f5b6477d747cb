import Mathlib.Algebra.Notation.Defs
import Mathlib.Data.List.GetD
import Mathlib.Data.List.TakeWhile
import Mathlib.Logic.Function.Basic

/-!
# Zero-terminated strings in arrays

A string is the list of its characters before the terminating zero. `Holds cells n l` says that the
first `n` cells of an array are the string `l` and zeros after it, which is what an array that was
cleared and then only appended to looks like. `contents` is the string a reader finds there, and `store`
is what an array looks like after a string was written into it.
-/

namespace Strings

variable {α : Type} {cells : Nat → α} {n : Nat} {l : List α}

/-! ## Stores -/

/-- The cells after the characters of `l` were stored from `p` on. -/
def store (cells : Nat → α) (p : Nat) (l : List α) : Nat → α :=
  fun i => if p ≤ i then l.getD (i - p) (cells i) else cells i

theorem store_of_lt {p i : Nat} (before : i < p) : store cells p l i = cells i :=
  if_neg (Nat.not_le_of_lt before)

theorem store_of_le {p i : Nat} (after : p + l.length ≤ i) : store cells p l i = cells i := by
  rw [store, if_pos (by omega), List.getD_eq_default _ _ (by omega)]

theorem store_inside (cells : Nat → α) (p : Nat) {i : Nat} (inside : i < l.length) :
    store cells p l (p + i) = l[i] := by
  rw [store, if_pos (Nat.le_add_right p i), Nat.add_sub_cancel_left, List.getD_eq_getElem l _ inside]

@[simp] theorem store_nil (p : Nat) : store cells p ([] : List α) = cells := by
  funext i
  rw [store, List.getD_nil, ite_self]

theorem store_singleton (p : Nat) (c : α) : store cells p [c] = Function.update cells p c := by
  funext i
  rcases Nat.lt_trichotomy i p with before | rfl | after
  · rw [store_of_lt before, Function.update_of_ne (Nat.ne_of_lt before)]
  · rw [Function.update_self]
    exact store_inside (l := [c]) cells i (Nat.succ_pos 0)
  · rw [store_of_le (Nat.succ_le_of_lt after), Function.update_of_ne (Nat.ne_of_gt after)]

/-- Storing one list behind another. -/
theorem store_append (cells : Nat → α) (p : Nat) (l m : List α) :
    store (store cells p l) (p + l.length) m = store cells p (l ++ m) := by
  funext i
  rcases Nat.lt_or_ge i p with before | after
  · rw [store_of_lt (Nat.lt_of_lt_of_le before (Nat.le_add_right _ _)), store_of_lt before,
      store_of_lt before]
  · obtain ⟨i, rfl⟩ := Nat.exists_eq_add_of_le after
    rcases Nat.lt_or_ge i l.length with first | second
    · rw [store_of_lt (Nat.add_lt_add_left first p), store_inside _ p first,
        store_inside _ p (by rw [List.length_append]; omega), List.getElem_append_left first]
    · obtain ⟨j, rfl⟩ := Nat.exists_eq_add_of_le second
      rw [← Nat.add_assoc]
      rcases Nat.lt_or_ge j m.length with inside | past
      · have joined : l.length + j < (l ++ m).length := by rw [List.length_append]; omega
        rw [store_inside _ _ inside, Nat.add_assoc, store_inside _ p joined, List.getElem_append_right (by omega)]
        simp
      · rw [store_of_le (by omega), store_of_le (by omega),
          store_of_le (by rw [List.length_append]; omega)]

/-- Storing a list whose last character is already there. -/
theorem store_update (cells : Nat → α) (p : Nat) (l : List α) (c : α) :
    store (Function.update cells (p + l.length) c) p l = store cells p (l ++ [c]) := by
  funext i
  rw [← store_append, store_singleton]
  by_cases last : i = p + l.length
  · rw [last, store_of_le (Nat.le_refl _), Function.update_self, Function.update_self]
  · rw [Function.update_of_ne last, store, store, Function.update_of_ne last]

/-! ## Strings -/

variable [Zero α]

def Holds (cells : Nat → α) (n : Nat) (l : List α) : Prop :=
  ∀ i, i < n → cells i = l.getD i 0

theorem Holds.char (holds : Holds cells n l) {i : Nat} (inside : i < l.length) (fits : i < n) :
    cells i = l[i] := by
  rw [holds i fits, List.getD_eq_getElem l 0 inside]

theorem Holds.zero (holds : Holds cells n l) {i : Nat} (after : l.length ≤ i) (fits : i < n) :
    cells i = 0 := by
  rw [holds i fits, List.getD_eq_default l 0 after]

/-- Storing a character at the end. -/
theorem Holds.push (holds : Holds cells n l) (c : α) :
    Holds (Function.update cells l.length c) n (l ++ [c]) := by
  intro i fits
  rcases Nat.lt_trichotomy i l.length with before | rfl | after
  · rw [Function.update_of_ne (Nat.ne_of_lt before), holds i fits, List.getD_append l [c] 0 i before]
  · rw [Function.update_self, List.getD_append_right l [c] 0 _ (Nat.le_refl _), Nat.sub_self]
    rfl
  · rw [Function.update_of_ne (Nat.ne_of_gt after), holds.zero (Nat.le_of_lt after) fits,
      List.getD_eq_default]
    simpa using Nat.succ_le_of_lt after

/-- Storing at the end of the string. -/
theorem Holds.store (holds : Holds cells n l) (m : List α) :
    Holds (store cells l.length m) n (l ++ m) := by
  intro i fits
  rcases Nat.lt_or_ge i l.length with before | after
  · rw [store_of_lt before, holds i fits, List.getD_append l m 0 i before]
  · rw [List.getD_append_right l m 0 i after, Strings.store, if_pos after, holds.zero after fits]

/-- Clearing the last character. -/
theorem Holds.pop (holds : Holds cells n l) :
    Holds (Function.update cells (l.length - 1) 0) n l.dropLast := by
  intro i fits
  by_cases last : i = l.length - 1
  · rw [last, Function.update_self, List.getD_eq_default]
    simp
  · rw [Function.update_of_ne last, holds i fits]
    by_cases before : i < l.length - 1
    · rw [List.getD_eq_getElem l 0 (by omega), List.getD_eq_getElem _ 0 (by simpa using before),
        List.getElem_dropLast]
    · rw [List.getD_eq_default l 0 (by omega), List.getD_eq_default _ 0 (by simp; omega)]

/-! ## Reading -/

/-- The characters before the first zero of the first `n` cells. -/
def contents [DecidableEq α] (cells : Nat → α) (n : Nat) : List α :=
  ((List.range n).map cells).takeWhile (· ≠ 0)

/-- A string depends on its cells alone. -/
theorem contents_congr [DecidableEq α] {cells' : Nat → α} (same : ∀ i, i < n → cells i = cells' i) :
    contents cells n = contents cells' n := by
  unfold contents
  rw [List.map_congr_left fun i mem => same i (List.mem_range.mp mem)]

theorem Holds.contents_eq [DecidableEq α] (holds : Holds cells n l) (fits : l.length ≤ n)
    (nonzero : ∀ c ∈ l, c ≠ 0) : contents cells n = l := by
  have filled : (List.range n).map cells = l ++ List.replicate (n - l.length) 0 := by
    refine List.ext_getElem (by simp; omega) fun i inside _ => ?_
    have bound : i < n := by simpa using inside
    rw [List.getElem_map, List.getElem_range]
    by_cases before : i < l.length
    · rw [holds.char before bound, List.getElem_append_left before]
    · rw [holds.zero (by omega) bound, List.getElem_append_right (by omega),
        List.getElem_replicate]
  unfold contents
  rw [filled, List.takeWhile_append_of_pos (by simpa using nonzero)]
  cases n - l.length with
  | zero => simp
  | succ k => simp [List.replicate_succ]

theorem ne_zero_of_mem_contents [DecidableEq α] {c : α} (mem : c ∈ contents cells n) : c ≠ 0 := by
  simpa using List.mem_takeWhile_imp mem

theorem contents_succ [DecidableEq α] (cells : Nat → α) (n : Nat) :
    contents cells (n + 1) =
      if cells 0 = 0 then [] else cells 0 :: contents (fun i => cells (i + 1)) n := by
  rw [contents, List.range_succ_eq_map, List.map_cons, List.map_map, List.takeWhile_cons]
  by_cases ended : cells 0 = 0
  · simp [ended]
  · simp [ended, contents, Function.comp_def]

/-- What comes after a zero does not matter. -/
theorem contents_of_zero [DecidableEq α] {k : Nat} (zero : cells k = 0) (fits : k < n) :
    contents cells n = contents cells k := by
  induction k generalizing cells n with
  | zero =>
    obtain ⟨n, rfl⟩ := Nat.exists_eq_succ_of_ne_zero (Nat.ne_of_gt fits)
    rw [contents_succ, if_pos zero]
    rfl
  | succ k ih =>
    obtain ⟨n, rfl⟩ := Nat.exists_eq_succ_of_ne_zero (Nat.ne_of_gt (Nat.zero_lt_of_lt fits))
    have zero' : (fun i => cells (i + 1)) k = 0 := zero
    rw [contents_succ, contents_succ, ih zero' (Nat.lt_of_succ_lt_succ fits)]

/-- The string `l` and the zero after it. -/
structure Terminated (cells : Nat → α) (l : List α) : Prop where
  char : ∀ i, (inside : i < l.length) → cells i = l[i]
  zero : cells l.length = 0

theorem Terminated.contents_eq [DecidableEq α] (terminated : Terminated cells l)
    (fits : l.length < n) (nonzero : ∀ c ∈ l, c ≠ 0) : contents cells n = l := by
  induction l generalizing cells n with
  | nil =>
    obtain ⟨n, rfl⟩ := Nat.exists_eq_succ_of_ne_zero (Nat.ne_of_gt fits)
    have ended : cells 0 = 0 := terminated.zero
    rw [contents_succ, if_pos ended]
  | cons c l ih =>
    obtain ⟨n, rfl⟩ := Nat.exists_eq_succ_of_ne_zero (Nat.ne_of_gt (Nat.lt_trans (by simp) fits))
    have first : cells 0 = c := terminated.char 0 (by simp)
    have rest : Terminated (fun i => cells (i + 1)) l :=
      ⟨fun i inside => terminated.char (i + 1) (by simpa using inside), terminated.zero⟩
    rw [contents_succ, first, if_neg (nonzero c List.mem_cons_self),
      ih rest (by simpa using fits) fun d mem => nonzero d (List.mem_cons_of_mem c mem)]

end Strings
