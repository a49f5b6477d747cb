import Nulix.Str.Compare

/-!
# Copying

`memmove` decides on its direction anew in every turn, and decides the same each time: a copy down moves
both pointers, and a copy up neither. `strncpy` copies as many bytes as it is told to, whatever the
string. `strcat` and `strncat` look for the end of the destination by a pointer that has passed it when
they find it.
-/

namespace Nulix.Str

open Accesses Compare Fallible Print

variable {m m' : Mem} {p q : Ptr} {d s n : Nat}

/-! ## Copying up -/

/-- In `m'` the `n` bytes at `d` are what those at `s` were in `m`, and the others are unchanged. -/
structure Copied (m m' : Mem) (d s n : Nat) : Prop where
  inside : ∀ i, i < n → m' (d + i) = m (s + i)
  outside : ∀ a, (∀ i, i < n → a ≠ d + i) → m' a = m a

theorem Copied.none (m : Mem) (d s : Nat) : Copied m m d s 0 :=
  ⟨fun _ bound => absurd bound (Nat.not_lt_zero _), fun _ _ => rfl⟩

/-- The first byte is copied before the others. -/
theorem Copied.first (apart : ∀ j, 0 < j → j ≤ n → s + j ≠ d)
    (rest : Copied (Function.update m d (m s)) m' (d + 1) (s + 1) n) : Copied m m' d s (n + 1) where
  inside := by
    intro i bound
    cases i with
    | zero =>
      show m' d = m s
      rw [rest.outside d fun i _ => by omega, Function.update_self]
    | succ i =>
      have copied := rest.inside i (Nat.lt_of_succ_lt_succ bound)
      rw [Nat.add_right_comm, Nat.add_right_comm s] at copied
      rw [← Nat.add_assoc, copied, Nat.add_assoc, Function.update_of_ne (apart _ (Nat.succ_pos i) (by omega))]
  outside := by
    intro a out
    rw [rest.outside a fun i bound => by have := out (i + 1) (by omega); omega,
      Function.update_of_ne (by simpa using out 0 (Nat.succ_pos n))]

/-- The last byte is copied before the others. -/
theorem Copied.last (apart : ∀ j, j < n → s + j ≠ d + n)
    (rest : Copied (Function.update m (d + n) (m (s + n))) m' d s n) : Copied m m' d s (n + 1) where
  inside := by
    intro i bound
    rcases Nat.lt_or_eq_of_le (Nat.le_of_lt_succ bound) with before | rfl
    · rw [rest.inside i before, Function.update_of_ne (apart i before)]
    · rw [rest.outside _ fun j before => by omega, Function.update_self]
  outside := by
    intro a out
    rw [rest.outside a fun i bound => out i (Nat.lt_succ_of_lt bound),
      Function.update_of_ne (out n (Nat.lt_succ_self n))]

/-- The loop of `strncpy` copies a block that it does not overwrite ahead of itself. -/
theorem strncpyFrom_copied {j k : Nat} (fits : d + j + n ≤ 2 ^ 32) (fits' : s + k + n ≤ 2 ^ 32)
    (apart : ∀ i i', i < i' → i' < n → s + k + i' ≠ d + j + i) {w : World (BitVec 8)} :
    Finishes (strncpyFrom n ((Ptr.of d).add j) ((Ptr.of s).add k)) w
      fun _ w' => Copied w.cells w'.cells (d + j) (s + k) n := by
  induction n generalizing j k w with
  | zero => exact Finishes.pure (.none _ _ _)
  | succ n ih =>
    refine Finishes.load_bind (Finishes.store_bind ?_)
    rw [Ptr.add_succ, Ptr.add_succ]
    refine (ih (by omega) (by omega) fun i i' less bound => ?_).mono fun _ w' copied => ?_
    · have := apart (i + 1) (i' + 1) (by omega) (by omega)
      omega
    · refine Copied.first (fun i some bound => apart 0 i some (by omega)) ?_
      simpa only [World.write, World.read, Ptr.addr_add (show d + j < 2 ^ 32 by omega),
        Ptr.addr_add (show s + k < 2 ^ 32 by omega), ← Nat.add_assoc] using copied

theorem strncpyFrom_start (fits : d + n ≤ 2 ^ 32) (fits' : s + n ≤ 2 ^ 32)
    (apart : ∀ i i', i < i' → i' < n → s + i' ≠ d + i) {w : World (BitVec 8)} :
    Finishes (strncpyFrom n (.of d) (.of s)) w fun _ w' => Copied w.cells w'.cells d s n := by
  have loop := strncpyFrom_copied (j := 0) (k := 0) (w := w) fits fits' apart
  rwa [Nat.cast_zero, Ptr.add_zero, Ptr.add_zero] at loop

/-! ## `memmove` -/

/-- A copy to a lower address, or none, goes up. -/
theorem memmoveFrom_up (down : d ≤ s) {k : Nat} (fits : s + k + n ≤ 2 ^ 32) :
    memmoveFrom n ((Ptr.of d).add k) ((Ptr.of s).add k) =
      strncpyFrom n ((Ptr.of d).add k) ((Ptr.of s).add k) := by
  induction n generalizing k with
  | zero => rfl
  | succ n ih =>
    have decision : ¬ ((Ptr.of s).add k).addr < ((Ptr.of d).add k).addr := by
      rw [Ptr.addr_add (by omega), Ptr.addr_add (by omega)]
      omega
    rw [memmoveFrom, strncpyFrom, if_neg decision, Ptr.add_succ, Ptr.add_succ, ih (by omega)]

/-- A copy to a higher address goes down. -/
theorem memmoveFrom_down (up : s < d) (fits : d + n ≤ 2 ^ 32) {w : World (BitVec 8)} :
    Finishes (memmoveFrom n (.of d) (.of s)) w fun _ w' => Copied w.cells w'.cells d s n := by
  induction n generalizing w with
  | zero => exact Finishes.pure (.none _ _ _)
  | succ n ih =>
    have decision : (Ptr.of s).addr < (Ptr.of d).addr := by
      rw [Ptr.addr_of (by omega), Ptr.addr_of (by omega)]
      exact up
    rw [memmoveFrom, if_pos decision]
    refine Finishes.load_bind (Finishes.store_bind ?_)
    refine (ih (by omega)).mono fun _ w' copied => ?_
    refine Copied.last (fun j before => by omega) ?_
    simpa only [World.write, World.read, Ptr.addr_add (show d + n < 2 ^ 32 by omega),
      Ptr.addr_add (show s + n < 2 ^ 32 by omega)] using copied

theorem memmove_copied (m : Mem) (fits : d + n ≤ 2 ^ 32) (fits' : s + n ≤ 2 ^ 32) :
    Finishes (memmove (.of d) (.of s) n) (.start m) fun r w' => r = .of d ∧ Copied m w'.cells d s n := by
  refine Finishes.bind (P := fun _ w' => Copied m w'.cells d s n) ?_ fun _ w' copied =>
    Finishes.pure ⟨rfl, copied⟩
  rcases Nat.lt_or_ge s d with up | down
  · exact memmoveFrom_down up fits
  · have same := memmoveFrom_up (n := n) (k := 0) down (by omega)
    rw [Nat.cast_zero, Ptr.add_zero, Ptr.add_zero] at same
    rw [same]
    exact strncpyFrom_start fits fits' fun i i' less _ => by omega

theorem memmove_copied_overlap :
    (20 + 8 ≤ 2 ^ 32 ∧ 16 + 8 ≤ 2 ^ 32) ∧
      Finishes (memmove (.of 20) (.of 16) 8) (.start (Strings.store (fun _ => 0) 16 (text "abcdefgh")))
        fun r w' => r = .of 20 ∧
          Copied (Strings.store (fun _ => 0) 16 (text "abcdefgh")) w'.cells 20 16 8 :=
  ⟨by decide, memmove_copied _ (by decide) (by decide)⟩

/-! ## `strncpy` -/

theorem strncpy_copied (m : Mem) (fits : d + n ≤ 2 ^ 32) (fits' : s + n ≤ 2 ^ 32)
    (apart : ∀ i i', i < i' → i' < n → s + i' ≠ d + i) :
    Finishes (strncpy (.of d) (.of s) n) (.start m) fun _ w' => Copied m w'.cells d s n :=
  Finishes.bind (strncpyFrom_start fits fits' apart) fun _ _ copied => Finishes.pure copied

/-- `strncpy` reads and writes `n` bytes. -/
structure CopiesThrough (p q : Ptr) (n : Nat) (w w' : World (BitVec 8)) : Prop where
  reads : w'.reads = w.reads ++ q.block n
  writes : w'.writes = w.writes ++ p.block n
  cells : ∀ a, (∀ i : Nat, i < n → (p.add i).addr ≠ a) → w'.cells a = w.cells a

theorem strncpyFrom_accesses {w : World (BitVec 8)} :
    Finishes (strncpyFrom n p q) w fun _ w' => CopiesThrough p q n w w' := by
  induction n generalizing p q w with
  | zero => exact Finishes.pure ⟨(List.append_nil _).symm, (List.append_nil _).symm, fun _ _ => rfl⟩
  | succ n ih =>
    refine Finishes.load_bind (Finishes.store_bind (ih.mono fun _ w' rest => ⟨?_, ?_, fun a out => ?_⟩))
    · rw [rest.reads, block_succ]
      exact List.append_assoc _ _ _
    · rw [rest.writes, block_succ]
      exact List.append_assoc _ _ _
    · rw [rest.cells a fun i bound => Ptr.succ_add p i ▸ out (i + 1) (Nat.succ_lt_succ bound)]
      exact Function.update_of_ne (by simpa using (out 0 (Nat.succ_pos n)).symm) _ _

theorem strncpy_accesses {w : World (BitVec 8)} :
    Finishes (strncpy p q n) w fun _ w' => CopiesThrough p q n w w' :=
  Finishes.bind strncpyFrom_accesses fun _ _ through => Finishes.pure through

theorem CopiesThrough.within {w w' : World (BitVec 8)} (copies : CopiesThrough p q n w w') :
    Within (Inside q n) (Inside p n) w w' where
  reads := ⟨_, copies.reads, fun _ => mem_block.mp⟩
  writes := ⟨_, copies.writes, fun _ => mem_block.mp⟩
  cells := fun a out => copies.cells a fun _ bound => out _ (inside_add bound)

theorem CopiesThrough.mem_reads {w w' : World (BitVec 8)} (copies : CopiesThrough p q n w w') {i : Nat}
    (bound : i < n) : q.add i ∈ w'.reads := by
  rw [copies.reads]
  exact List.mem_append_right _ (mem_block.mpr (inside_add bound))

/-- What `strncpy` is to do with the string `l` at `src`. -/
structure CopiesPadded (m : Mem) (dst src : Nat) (l : Text) (n : Nat) (w' : World (BitVec 8)) :
    Prop where
  copied : ∀ i, i < n → w'.cells (dst + i) = l.getD i 0
  outside : ∀ a, (∀ i, i < n → a ≠ dst + i) → w'.cells a = m a
  writes : ∀ r, r ∈ w'.writes ↔ Inside (.of dst) n r
  reads : ∀ r ∈ w'.reads, Inside (.of src) (l.length + 1) r

theorem copiesPadded_iff {dst src : Nat} {l : Text} (string : StringAt m src l)
    (fits : dst + n ≤ 2 ^ 32) (apart : ∀ i, i < n → ∀ j, j ≤ l.length → dst + i ≠ src + j) :
    Finishes (strncpy (.of dst) (.of src) n) (.start m)
        (fun _ w' => CopiesPadded m dst src l n w') ↔ n ≤ l.length + 1 := by
  constructor
  · intro correct
    obtain ⟨_, _, through, padded⟩ := strncpy_accesses.both correct
    by_contra long
    obtain ⟨i, bound, same⟩ := padded.reads _ (through.mem_reads (i := l.length + 1) (by omega))
    have index := Ptr.add_inj.mp same
    omega
  · intro short
    have within := string.fits
    have copied := strncpy_copied m fits (by omega) fun i i' less bound =>
      (apart i (by omega) i' (by omega)).symm
    refine (strncpy_accesses.and copied).mono fun _ w' ⟨through, copies⟩ => ⟨fun i bound => ?_,
      copies.outside, fun r => ?_, fun r mem => ?_⟩
    · rw [copies.inside i bound, string.char (by omega)]
    · rw [through.writes]
      exact mem_block
    · rw [through.reads] at mem
      obtain ⟨i, bound, rfl⟩ := mem_block.mp mem
      exact inside_add (by omega)

theorem copiesPadded_hello :
    Finishes (strncpy (.of 64) (.of 16) 6) (.start (twoStrings 16 (text "Hello") 64 []))
      fun _ w' => CopiesPadded (twoStrings 16 (text "Hello") 64 []) 64 16 (text "Hello") 6 w' :=
  (copiesPadded_iff (twoStrings_first (by decide) (by decide) (by decide) (by decide)) (by decide)
    fun i _ j bound => by
      have short : (text "Hello").length = 5 := rfl
      omega).mpr (by decide)

/-- The bytes after a short string are copied with it. -/
theorem not_copiesPadded :
    StringAt (twoStrings 16 (text "ab") 19 (text "secret")) 16 (text "ab") ∧
      ¬ Finishes (strncpy (.of 64) (.of 16) 5) (.start (twoStrings 16 (text "ab") 19 (text "secret")))
        fun _ w' => CopiesPadded (twoStrings 16 (text "ab") 19 (text "secret")) 64 16 (text "ab") 5 w' := by
  refine ⟨twoStrings_first (by decide) (by decide) (by decide) (by decide), fun correct => ?_⟩
  have value : Finishes (strncpy (.of 64) (.of 16) 5)
      (.start (twoStrings 16 (text "ab") 19 (text "secret"))) fun _ w' => w'.cells 67 = 115 :=
    ⟨_, rfl, rfl⟩
  obtain ⟨_, w', is, padded⟩ := value.both correct
  have zero : w'.cells 67 = 0 := padded.copied 3 (by decide)
  exact absurd (is.symm.trans zero) (by decide)

/-! ## `strcpy` -/

/-- `while (*dst++);` ends behind the end of the string. -/
theorem skipString_yields {l : Text} (string : TextAt m p l) :
    ∀ {fuel : Nat}, l.length < fuel →
      Yields (skipString fuel p) m (Inside p (l.length + 1)) (p.add (l.length + 1 : Nat)) := by
  induction l generalizing p with
  | nil =>
    intro fuel few
    obtain ⟨fuel, rfl⟩ := Nat.exists_eq_add_one_of_ne_zero (Nat.ne_of_gt few)
    exact (string.isChar_nil (.first p 0)).bind (Yields.pure _)
  | cons c l ih =>
    intro fuel few
    obtain ⟨fuel, rfl⟩ := Nat.exists_eq_add_one_of_ne_zero (Nat.ne_zero_of_lt few)
    refine (string.isChar_cons (.first p _)).bind ?_
    have rest := ih string.tail (Nat.lt_of_succ_lt_succ few)
    rw [Ptr.succ_add] at rest
    exact rest.mono fun _ => Inside.of_succ

/-- The loop of `strcpy` reads the string and its end, if it does not write into the string. -/
theorem strcpyFrom_finishes {l : Text} {w : World (BitVec 8)} (string : TextAt w.cells q l)
    (apart : ∀ i : Nat, i < l.length → ∀ j : Nat, j ≤ l.length → (p.add i).addr ≠ (q.add j).addr) :
    ∀ {fuel : Nat}, l.length < fuel →
      Finishes (strcpyFrom fuel p q) w fun r w' =>
        r = p.add l.length ∧ Within (Inside q (l.length + 1)) (Inside p l.length) w w' := by
  induction l generalizing p q w with
  | nil =>
    intro fuel few
    obtain ⟨fuel, rfl⟩ := Nat.exists_eq_add_one_of_ne_zero (Nat.ne_of_gt few)
    refine (string.isChar_nil (R := Inside q 1) (.first q 0)).finishes fun w' within => ?_
    exact Finishes.pure ⟨(Ptr.add_zero p).symm, within.of_reads fun _ => id⟩
  | cons c l ih =>
    intro fuel few
    obtain ⟨fuel, rfl⟩ := Nat.exists_eq_add_one_of_ne_zero (Nat.ne_zero_of_lt few)
    have here : Inside q ((c :: l).length + 1) q := .first q _
    have there : Inside p (c :: l).length p := .first p _
    refine (string.isChar_cons here).finishes fun w' within => ?_
    refine Finishes.load_bind (Finishes.store_bind ?_)
    -- The rest of the string is where it was.
    have rest : TextAt ((w'.read q).write p (w'.cells q.addr)).cells (q.add 1) l := by
      refine string.tail.of_same fun i bound => ?_
      have other := apart 0 (by simp) (i + 1) (Nat.succ_le_succ bound)
      rw [Nat.cast_zero, Ptr.add_zero] at other
      rw [Ptr.succ_add]
      show Function.update w'.cells p.addr _ _ = _
      rw [Function.update_of_ne other.symm, within.cells_eq]
    have apart' : ∀ i : Nat, i < l.length → ∀ j : Nat, j ≤ l.length →
        ((p.add 1).add i).addr ≠ ((q.add 1).add j).addr := by
      intro i bound j bound'
      rw [Ptr.succ_add, Ptr.succ_add]
      exact apart (i + 1) (Nat.succ_lt_succ bound) (j + 1) (Nat.succ_le_succ bound')
    refine (ih rest apart' (Nat.lt_of_succ_lt_succ few)).mono fun r w'' ⟨is, later⟩ => ⟨?_, ?_⟩
    · rw [is, Ptr.succ_add, List.length_cons]
    · refine (within.of_reads fun _ => id).trans ((Within.read here).trans
        ((Within.write there _).trans (later.mono (fun _ => .of_succ) fun _ => .of_succ)))

theorem strcpy_finishes {l : Text} {w : World (BitVec 8)} (string : TextAt w.cells q l)
    (short : l.length < turns)
    (apart : ∀ i : Nat, i < l.length → ∀ j : Nat, j ≤ l.length → (p.add i).addr ≠ (q.add j).addr) :
    Finishes (strcpy p q) w fun _ w' =>
      Within (Inside q (l.length + 1)) (Inside p (l.length + 1)) w w' := by
  refine Finishes.bind (strcpyFrom_finishes string apart short) fun r w' ⟨is, within⟩ => ?_
  refine Finishes.store_bind (Finishes.pure ?_)
  have before := within.mono (fun _ => id) fun _ inside => inside.mono (Nat.le_succ l.length)
  exact before.trans (Within.write (is ▸ inside_add (Nat.lt_succ_self l.length)) 0)

/-! ## `strcat` and `strncat` -/

section

variable {ld ls : Text}

/-- `strcat` writes behind the end of the destination. -/
theorem strcat_finishes {w : World (BitVec 8)} (left : TextAt w.cells p ld) (right : TextAt w.cells q ls)
    (short : ld.length < turns) (short' : ls.length < turns)
    (apart : ∀ i : Nat, i < ls.length → ∀ j : Nat, j ≤ ls.length →
      ((p.add (ld.length + 1 : Nat)).add i).addr ≠ (q.add j).addr) :
    Finishes (strcat p q) w fun _ w' =>
      Within (InEither p ld q ls) (Inside (p.add (ld.length + 1 : Nat)) (ls.length + 1)) w w' := by
  refine (skipString_yields left short).finishes fun w' within => ?_
  have there : TextAt w'.cells q ls := within.cells_eq ▸ right
  refine Finishes.bind (strcpy_finishes there short' apart) fun _ w'' copied => Finishes.pure ?_
  exact (within.of_reads fun _ => .inl).trans (copied.mono (fun _ => .inr) fun _ => id)

/-- So does `strncat`, which reads `n` bytes from the source. -/
theorem strncat_finishes {w : World (BitVec 8)} (left : TextAt w.cells p ld)
    (short : ld.length < turns) (q : Ptr) (n : Nat) :
    Finishes (strncat p q n) w fun _ w' =>
      Within (fun r => Inside p (ld.length + 1) r ∨ Inside q n r)
        (Inside (p.add (ld.length + 1 : Nat)) (n + 1)) w w' ∧
      ∀ i : Nat, i < n → q.add i ∈ w'.reads := by
  refine (skipString_yields left short).finishes fun w' within => ?_
  refine strncpy_accesses.bind fun _ w'' through => Finishes.store_bind (Finishes.pure ⟨?_, ?_⟩)
  · have copied := through.within.mono (fun _ => id) fun _ inside => inside.mono (Nat.le_succ n)
    exact (within.of_reads fun _ => .inl).trans ((copied.mono (fun _ => .inr) fun _ => id).trans
      (Within.write (inside_add (Nat.lt_succ_self n)) 0))
  · exact fun i bound => through.mem_reads bound

/-- A string `ld` at `d` and a string `ls` at `s`, which the buffer of the first, large enough for both,
does not overlap. -/
structure Apart (m : Mem) (d s : Nat) (ld ls : Text) : Prop where
  left : StringAt m d ld
  right : StringAt m s ls
  room : d + ld.length + ls.length < 2 ^ 32
  apart : ∀ i, i ≤ ld.length + ls.length → ∀ j, j ≤ ls.length → d + i ≠ s + j

/-- What is written from behind the end of the destination on does not reach the destination, even
around the end of the address space. -/
theorem Apart.kept (strings : Apart m d s ld ls) {R : Ptr → Prop} {w' : World (BitVec 8)} {k : Nat}
    (few : k ≤ ls.length + 2)
    (within : Within R (Inside ((Ptr.of d).add (ld.length + 1 : Nat)) k) (.start m) w') :
    StringAt w'.cells d ld := by
  have room := strings.room
  have nonnull := strings.left.nonnull
  have nonnull' := strings.right.nonnull
  refine strings.left.of_same fun i bound => within.cells _ ?_
  rintro r ⟨j, early, rfl⟩
  rw [Ptr.add_add, ← Nat.cast_add, Ptr.addr_of_add, Words.u32]
  -- Only a destination at 1 and a full address space would bring it around to the first character.
  have outside : s - d ≤ ld.length + ls.length → d + (s - d) ≠ s + 0 :=
    fun bound => strings.apart _ bound 0 (Nat.zero_le _)
  have fits := strings.right.fits
  omega

/-- No read of the string `l` at `s` past its end. -/
def ReadsWithin (s : Nat) (l : Text) (w' : World (BitVec 8)) : Prop :=
  ∀ r ∈ w'.reads, r.base = s → r.offset ≤ l.length

/-- What `strcat` and `strncat` are to do with the string `ld` at `d` and the string `ls` at `s`. -/
structure Concatenates (m : Mem) (d s : Nat) (ld ls : Text) (n : Nat) : Prop where
  strcat : Finishes (strcat (.of d) (.of s)) (.start m) fun _ w' =>
    StringAt w'.cells d (ld ++ ls) ∧ ReadsWithin s ls w'
  strncat : Finishes (strncat (.of d) (.of s) n) (.start m) fun _ w' =>
    StringAt w'.cells d (ld ++ ls.take n) ∧ ReadsWithin s ls w'

theorem StringAt.unique {l l' : Text} (string : StringAt m s l) (string' : StringAt m s l') : l = l' :=
  string.textAt.unique string'.textAt

theorem Apart.reads (strings : Apart m d s ld ls) {k : Nat} (few : k ≤ ls.length + 1) {r : Ptr}
    (inside : Inside (.of d) (ld.length + 1) r ∨ Inside (.of s) k r) (base : r.base = s) :
    r.offset ≤ ls.length := by
  rcases inside with ⟨i, bound, rfl⟩ | ⟨i, bound, rfl⟩
  · have same : d = s := base
    exact absurd same (by simpa using strings.apart 0 (Nat.zero_le _) 0 (Nat.zero_le _))
  · show 0 + (i : Int) ≤ ls.length
    omega

/-- `strcat` leaves the destination as it was. -/
theorem Apart.strcat_finishes (strings : Apart m d s ld ls) :
    Finishes (Str.strcat (.of d) (.of s)) (.start m) fun _ w' =>
      StringAt w'.cells d ld ∧ ReadsWithin s ls w' := by
  have room := strings.room
  have apart : ∀ i : Nat, i < ls.length → ∀ j : Nat, j ≤ ls.length →
      (((Ptr.of d).add (ld.length + 1 : Nat)).add i).addr ≠ ((Ptr.of s).add j).addr := by
    intro i bound j bound'
    have fits := strings.right.fits
    rw [Ptr.add_add, ← Nat.cast_add, Ptr.addr_add (by omega), Ptr.addr_add (by omega)]
    exact strings.apart _ (by omega) j bound'
  refine (Str.strcat_finishes strings.left.textAt strings.right.textAt strings.left.short
    strings.right.short apart).mono fun _ w' within => ⟨strings.kept (by omega) within, ?_⟩
  exact fun r mem => strings.reads le_rfl (within.of_mem_reads mem)

/-- `strncat` leaves it too, if it does not read past the end of the source. -/
theorem Apart.strncat_finishes (strings : Apart m d s ld ls) (few : n ≤ ls.length + 1) :
    Finishes (Str.strncat (.of d) (.of s) n) (.start m) fun _ w' =>
      StringAt w'.cells d ld ∧ ReadsWithin s ls w' := by
  refine (Str.strncat_finishes strings.left.textAt strings.left.short (.of s) n).mono
    fun _ w' ⟨within, _⟩ => ⟨strings.kept (by omega) within, ?_⟩
  exact fun r mem => strings.reads few (within.of_mem_reads mem)

/-- `strcat` appends nothing. -/
theorem Apart.strcat_appends_iff (strings : Apart m d s ld ls) :
    (Finishes (Str.strcat (.of d) (.of s)) (.start m) fun _ w' =>
      StringAt w'.cells d (ld ++ ls) ∧ ReadsWithin s ls w') ↔ ls = [] := by
  constructor
  · intro appends
    obtain ⟨_, _, ⟨kept, _⟩, appended, _⟩ := strings.strcat_finishes.both appends
    simpa using appended.unique kept
  · rintro rfl
    simpa using strings.strcat_finishes

/-- `strncat` appends nothing either, and reads `n` bytes. -/
theorem Apart.strncat_appends_iff (strings : Apart m d s ld ls) (n : Nat) :
    (Finishes (Str.strncat (.of d) (.of s) n) (.start m) fun _ w' =>
      StringAt w'.cells d (ld ++ ls.take n) ∧ ReadsWithin s ls w') ↔ n = 0 ∨ (ls = [] ∧ n = 1) := by
  by_cases few : n ≤ ls.length + 1
  · constructor
    · intro appends
      obtain ⟨_, _, ⟨kept, _⟩, appended, _⟩ := (strings.strncat_finishes few).both appends
      have nothing : ls.take n = [] := by simpa using appended.unique kept
      rcases List.take_eq_nil_iff.mp nothing with zero | rfl
      · exact .inl zero
      · rw [List.length_nil] at few
        rcases Nat.le_one_iff_eq_zero_or_eq_one.mp few with none | one
        · exact .inl none
        · exact .inr ⟨rfl, one⟩
    · rintro (rfl | ⟨rfl, rfl⟩)
      · simpa using strings.strncat_finishes few
      · simpa using strings.strncat_finishes few
  · refine iff_of_false (fun appends => ?_) ?_
    · have reads := Str.strncat_finishes (w := .start m) strings.left.textAt strings.left.short (.of s) n
      obtain ⟨_, _, ⟨_, read⟩, _, within⟩ := reads.both appends
      have past : (0 : Int) + ((ls.length + 1 : Nat) : Int) ≤ ls.length :=
        within _ (read (ls.length + 1) (by omega)) rfl
      omega
    · rintro (rfl | ⟨rfl, rfl⟩)
      · exact few (Nat.zero_le _)
      · exact few le_rfl

theorem concatenates_iff (strings : Apart m d s ld ls) (n : Nat) :
    Concatenates m d s ld ls n ↔ ls = [] ∧ n ≤ 1 := by
  constructor
  · rintro ⟨appends, appends'⟩
    have empty := strings.strcat_appends_iff.mp appends
    refine ⟨empty, ?_⟩
    rcases (strings.strncat_appends_iff n).mp appends' with rfl | ⟨_, rfl⟩
    · exact Nat.zero_le 1
    · exact le_rfl
  · rintro ⟨rfl, few⟩
    refine ⟨strings.strcat_appends_iff.mpr rfl, (strings.strncat_appends_iff n).mpr ?_⟩
    exact (Nat.le_one_iff_eq_zero_or_eq_one.mp few).imp_right fun one => ⟨rfl, one⟩

theorem apart_foo (k : Text) (nonzero : ∀ c ∈ k, c ≠ 0) (fits : k.length < 16) :
    Apart (twoStrings 16 (text "foo") 64 k) 16 64 (text "foo") k where
  left := twoStrings_first (by decide) (by decide) (by decide) (by decide)
  right := twoStrings_second nonzero (by decide) (by omega)
  room := by
    have short : (text "foo").length = 3 := rfl
    omega
  apart := by
    intro i bound j _
    have short : (text "foo").length = 3 := rfl
    omega

theorem concatenates_nothing : Concatenates (twoStrings 16 (text "foo") 64 []) 16 64 (text "foo") [] 1 :=
  (concatenates_iff (apart_foo [] (by decide) (by decide)) 1).mpr ⟨rfl, le_rfl⟩

/-- A string appended to another is stored behind its end. -/
theorem not_concatenates :
    Apart (twoStrings 16 (text "foo") 64 (text "bar")) 16 64 (text "foo") (text "bar") ∧
      ¬ Concatenates (twoStrings 16 (text "foo") 64 (text "bar")) 16 64 (text "foo") (text "bar") 3 := by
  refine ⟨apart_foo _ (by decide) (by decide), fun correct => ?_⟩
  have value : Finishes (Str.strcat (.of 16) (.of 64))
      (.start (twoStrings 16 (text "foo") 64 (text "bar"))) fun _ w' => w'.cells 19 = 0 := ⟨_, rfl, rfl⟩
  obtain ⟨_, w', is, appended, _⟩ := value.both correct.strcat
  have stored : w'.cells 19 = 98 := appended.char (i := 3) (by decide)
  exact absurd (is.symm.trans stored) (by decide)

end

end Nulix.Str
