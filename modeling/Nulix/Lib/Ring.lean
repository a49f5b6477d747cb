import Mathlib.Data.List.Range
import Mathlib.Logic.Function.Basic

/-!
# Rings of slots

A ring has `size` slots, numbered from 0, that are gone through circularly. `ahead` is the slot some
steps further on, `gap` the number of steps from one slot to another, and `contents` what the slots
of an arc hold. `Recent` is the meaning of a ring that keeps the latest entries of a growing list:
the arc holds the last `size` of them, or all of them while there are fewer.
-/

namespace Ring

variable {α : Type} {size : Nat}

/-- The slot `n` steps after slot `a`, for up to `size` steps. -/
def ahead (size a n : Nat) : Nat := if a + n < size then a + n else a + n - size

/-- The number of steps from slot `a` to slot `b`. -/
def gap (size a b : Nat) : Nat := if a ≤ b then b - a else size - a + b

theorem ahead_lt {a n : Nat} (ha : a < size) (hn : n ≤ size) : ahead size a n < size := by
  unfold ahead
  split <;> omega

theorem gap_ahead {a n : Nat} (ha : a < size) (hn : n < size) :
    gap size a (ahead size a n) = n := by
  unfold gap ahead
  split <;> split <;> omega

theorem ahead_inj {a i j : Nat} (ha : a < size) (hi : i < size) (hj : j < size)
    (same : ahead size a i = ahead size a j) : i = j := by
  rw [← gap_ahead ha hi, same, gap_ahead ha hj]

theorem ahead_ahead {a n : Nat} (ha : a < size) (hn : n < size) :
    ahead size (ahead size a 1) n = ahead size a (n + 1) := by
  unfold ahead
  split <;> split <;> split <;> omega

/-- What the `n` slots from `a` on hold. -/
def contents (slots : Nat → α) (size a n : Nat) : List α :=
  (List.range n).map fun i => slots (ahead size a i)

theorem contents_succ (slots : Nat → α) (size a n : Nat) :
    contents slots size a (n + 1) = contents slots size a n ++ [slots (ahead size a n)] := by
  simp [contents, List.range_succ]

theorem contents_congr {slots slots' : Nat → α} {a n : Nat}
    (same : ∀ i, i < n → slots (ahead size a i) = slots' (ahead size a i)) :
    contents slots size a n = contents slots' size a n := by
  apply List.map_congr_left
  intro i mem
  exact same i (List.mem_range.mp mem)

theorem contents_ahead (slots : Nat → α) {a n : Nat} (ha : a < size) (hn : n < size) :
    contents slots size (ahead size a 1) n = (contents slots size a (n + 1)).tail := by
  rw [contents, contents, List.range_succ_eq_map, List.map_cons, List.tail_cons, List.map_map]
  apply List.map_congr_left
  intro i mem
  have hi : i < n := List.mem_range.mp mem
  rw [ahead_ahead ha (hi.trans hn)]
  rfl

/-- The `n` slots from `a` on hold the latest entries of `entries`. -/
structure Recent (slots : Nat → α) (size a n : Nat) (entries : List α) : Prop where
  count : n = min entries.length size
  holds : contents slots size a n = entries.drop (entries.length - n)

variable {slots slots' : Nat → α} {a n : Nat} {entries : List α} {entry : α}

/-- While there is room, a new entry goes into the slot after the arc. -/
theorem Recent.push (recent : Recent slots size a n entries) (room : n < size)
    (last : slots' (ahead size a n) = entry)
    (same : ∀ i, i < n → slots' (ahead size a i) = slots (ahead size a i)) :
    Recent slots' size a (n + 1) (entries ++ [entry]) := by
  have all : n = entries.length := by
    have := recent.count
    omega
  constructor
  · rw [List.length_append, List.length_singleton]
    omega
  · rw [contents_succ, last, contents_congr same, recent.holds, List.length_append,
      List.length_singleton, all, Nat.sub_self, Nat.sub_self, List.drop_zero, List.drop_zero]

/-- In a full ring, a new entry takes the slot of the oldest one. -/
theorem Recent.push_full (recent : Recent slots size a size entries) (ha : a < size)
    (last : slots' a = entry)
    (same : ∀ i, 0 < i → i < size → slots' (ahead size a i) = slots (ahead size a i)) :
    Recent slots' size (ahead size a 1) size (entries ++ [entry]) := by
  have enough : size ≤ entries.length := by
    have := recent.count
    omega
  obtain ⟨k, rfl⟩ : ∃ k, size = k + 1 := Nat.exists_eq_add_of_lt (Nat.zero_lt_of_lt ha)
    |>.imp fun _ h => by omega
  have turn : ahead (k + 1) (ahead (k + 1) a 1) k = a := by
    rw [ahead_ahead ha (Nat.lt_succ_self k)]
    unfold ahead
    split <;> omega
  constructor
  · rw [List.length_append, List.length_singleton]
    omega
  · have older : contents slots' (k + 1) (ahead (k + 1) a 1) k =
        contents slots (k + 1) (ahead (k + 1) a 1) k := by
      apply contents_congr
      intro i hi
      rw [ahead_ahead ha (Nat.lt_succ_of_lt hi)]
      exact same (i + 1) (Nat.succ_pos i) (Nat.succ_lt_succ hi)
    rw [contents_succ, turn, last, older, contents_ahead slots ha (Nat.lt_succ_self k),
      recent.holds, List.tail_drop, List.length_append, List.length_singleton,
      List.drop_append_of_le_length (by omega)]
    congr 2
    omega

/-- The latest entry is the one in the last slot of the arc; it can be replaced there. -/
theorem Recent.replace_last (recent : Recent slots size a (n + 1) (entries ++ [entry]))
    {entry' : α} (last : slots' (ahead size a n) = entry')
    (same : ∀ i, i < n → slots' (ahead size a i) = slots (ahead size a i)) :
    Recent slots' size a (n + 1) (entries ++ [entry']) := by
  have count := recent.count
  rw [List.length_append, List.length_singleton] at count
  have holds := recent.holds
  rw [contents_succ, List.length_append, List.length_singleton,
    List.drop_append_of_le_length (by omega)] at holds
  have older := (List.append_inj' holds rfl).1
  constructor
  · rw [List.length_append, List.length_singleton]
    exact count
  · rw [contents_succ, last, contents_congr same, older, List.length_append,
      List.length_singleton, List.drop_append_of_le_length (by omega)]

theorem Recent.last (recent : Recent slots size a (n + 1) (entries ++ [entry])) :
    slots (ahead size a n) = entry := by
  have count := recent.count
  rw [List.length_append, List.length_singleton] at count
  have holds := recent.holds
  rw [contents_succ, List.length_append, List.length_singleton,
    List.drop_append_of_le_length (by omega)] at holds
  exact List.singleton_inj.mp (List.append_inj' holds rfl).2

end Ring
