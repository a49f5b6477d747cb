import Nulix.Lib.Fallible
import Nulix.Lib.Words

/-!
# Programs over a byte memory, and what they access

A pointer is the address of an object and an offset from it, so that what is read past the end of an
object is not taken for a read of whatever lies behind it. A program reads and writes cells of a flat
32-bit address space through pointers, and its world keeps the pointers it used. `Yields` is the
judgment for programs that only read: whatever was accessed before, they return this value on this
memory. `Finishes` is the one for all of them.
-/

namespace Accesses

open Fallible Words

/-! ## Pointers -/

structure Ptr where
  base : Nat
  offset : Int
  deriving DecidableEq, Repr

namespace Ptr

/-- The pointer to an object. -/
def of (a : Nat) : Ptr := ⟨a, 0⟩

def addr (p : Ptr) : Nat := ((p.base + p.offset) % 2 ^ 32).toNat

def add (p : Ptr) (i : Int) : Ptr := ⟨p.base, p.offset + i⟩

@[simp] theorem add_zero (p : Ptr) : p.add 0 = p := by
  rw [add, Int.add_zero]

@[simp] theorem add_add (p : Ptr) (i j : Int) : (p.add i).add j = p.add (i + j) := by
  rw [add, add, add, Int.add_assoc]

/-- `p++` -/
theorem add_succ (p : Ptr) (i : Nat) : (p.add i).add 1 = p.add (i + 1 : Nat) := by
  rw [add_add, Nat.cast_succ]

theorem succ_add (p : Ptr) (i : Nat) : (p.add 1).add i = p.add (i + 1 : Nat) := by
  rw [add_add, Int.add_comm, Nat.cast_succ]

/-- `p--` -/
theorem add_pred (p : Ptr) (i : Nat) : (p.add (i + 1 : Nat)).add (-1) = p.add i := by
  rw [add_add, Nat.cast_succ, Int.add_neg_cancel_right]

theorem addr_of_add (a i : Nat) : ((of a).add i).addr = u32 (a + i) := by
  have sum : (a : Int) + (0 + i) = ((a + i : Nat) : Int) := by omega
  show (((a : Int) + (0 + i)) % 2 ^ 32).toNat = (a + i) % 2 ^ 32
  rw [sum]
  omega

/-- Inside the address space, the address of a cell is found by adding. -/
theorem addr_add {a i : Nat} (fits : a + i < 2 ^ 32) : ((of a).add i).addr = a + i := by
  rw [addr_of_add, u32_of_lt fits]

theorem addr_of {a : Nat} (fits : a < 2 ^ 32) : (of a).addr = a := by
  simpa using addr_add (i := 0) fits

theorem add_inj {p : Ptr} {i j : Int} : p.add i = p.add j ↔ i = j := by
  rw [add, add, mk.injEq]
  exact ⟨fun same => Int.add_left_cancel same.2, fun same => ⟨rfl, by rw [same]⟩⟩

end Ptr

/-- The pointers to the first `n` cells of an object. -/
def Inside (p : Ptr) (n : Nat) (q : Ptr) : Prop := ∃ i : Nat, i < n ∧ q = p.add i

theorem inside_add {p : Ptr} {i n : Nat} (bound : i < n) : Inside p n (p.add i) := ⟨i, bound, rfl⟩

theorem Inside.first (p : Ptr) (n : Nat) : Inside p (n + 1) p :=
  ⟨0, Nat.succ_pos n, (Ptr.add_zero p).symm⟩

theorem Inside.mono {p q : Ptr} {n n' : Nat} (inside : Inside p n q) (le : n ≤ n') : Inside p n' q := by
  obtain ⟨i, bound, rfl⟩ := inside
  exact inside_add (bound.trans_le le)

theorem Inside.of_succ {p q : Ptr} {n : Nat} (inside : Inside (p.add 1) n q) : Inside p (n + 1) q := by
  obtain ⟨i, bound, rfl⟩ := inside
  rw [Ptr.succ_add]
  exact inside_add (Nat.succ_lt_succ bound)

/-- They are in this order. -/
def Ptr.block (p : Ptr) (n : Nat) : List Ptr := (List.range n).map fun i : Nat => p.add i

theorem mem_block {p q : Ptr} {n : Nat} : q ∈ p.block n ↔ Inside p n q := by
  simp only [Ptr.block, List.mem_map, List.mem_range, Inside, eq_comm]

theorem block_succ (p : Ptr) (n : Nat) : p.block (n + 1) = p :: (p.add 1).block n := by
  unfold Ptr.block
  rw [List.range_succ_eq_map, List.map_cons, List.map_map, Nat.cast_zero, Ptr.add_zero]
  congr 1
  refine List.map_congr_left fun i _ => ?_
  rw [Function.comp_apply, Ptr.succ_add]

/-! ## Programs -/

/-- A memory, and the pointers that it was read and written through, the first one first. -/
structure World (V : Type) where
  cells : Nat → V
  reads : List Ptr
  writes : List Ptr

namespace World

variable {V : Type}

/-- A memory that nothing was accessed in. -/
def start (cells : Nat → V) : World V := ⟨cells, [], []⟩

def read (w : World V) (p : Ptr) : World V := { w with reads := w.reads ++ [p] }

def write (w : World V) (p : Ptr) (v : V) : World V :=
  { w with cells := Function.update w.cells p.addr v, writes := w.writes ++ [p] }

end World

abbrev Act (ε V α : Type) := StateT (World V) (Except ε) α

variable {ε V α β σ : Type}

def load (p : Ptr) : Act ε V V := fun w => .ok (w.cells p.addr, w.read p)

def store (p : Ptr) (v : V) : Act ε V Unit := fun w => .ok ((), w.write p v)

/-- `while (test) next;`, allowed fewer than `fuel` turns. -/
def scanWhile (endless : ε) (test : σ → Act ε V Bool) (next : σ → σ) : Nat → σ → Act ε V σ
  | 0, _ => throw endless
  | fuel + 1, s => do
    if ← test s then scanWhile endless test next fuel (next s) else return s

/-- `while (n > 0 && test) { next; n--; }`: what is left of `n`, and the state. -/
def countWhile (test : σ → Act ε V Bool) (next : σ → σ) : Nat → σ → Act ε V (Nat × σ)
  | 0, s => return (0, s)
  | n + 1, s => do
    if ← test s then countWhile test next n (next s) else return (n + 1, s)

/-! ## What a program accesses -/

/-- From `w` to `w'`, cells were read only through pointers of `R`, and written only through pointers
of `W`. -/
structure Within (R W : Ptr → Prop) (w w' : World V) : Prop where
  reads : ∃ l, w'.reads = w.reads ++ l ∧ ∀ p ∈ l, R p
  writes : ∃ l, w'.writes = w.writes ++ l ∧ ∀ p ∈ l, W p
  cells : ∀ a, (∀ p, W p → p.addr ≠ a) → w'.cells a = w.cells a

def nowhere (_ : Ptr) : Prop := False

def anywhere (_ : Ptr) : Prop := True

section Within

variable {R R' W W' : Ptr → Prop} {w w' w'' : World V} {p : Ptr}

theorem Within.refl (R W : Ptr → Prop) (w : World V) : Within R W w w :=
  ⟨⟨[], by simp⟩, ⟨[], by simp⟩, fun _ _ => rfl⟩

theorem Within.trans (first : Within R W w w') (rest : Within R W w' w'') : Within R W w w'' := by
  obtain ⟨⟨l, hl, inR⟩, ⟨k, hk, inW⟩, cells⟩ := first
  obtain ⟨⟨l', hl', inR'⟩, ⟨k', hk', inW'⟩, cells'⟩ := rest
  refine ⟨⟨l ++ l', by rw [hl', hl, List.append_assoc], ?_⟩,
    ⟨k ++ k', by rw [hk', hk, List.append_assoc], ?_⟩, fun a out => (cells' a out).trans (cells a out)⟩
  · exact fun p mem => (List.mem_append.mp mem).elim (inR p) (inR' p)
  · exact fun p mem => (List.mem_append.mp mem).elim (inW p) (inW' p)

theorem Within.mono (h : Within R W w w') (reads : ∀ p, R p → R' p) (writes : ∀ p, W p → W' p) :
    Within R' W' w w' := by
  obtain ⟨⟨l, hl, inR⟩, ⟨k, hk, inW⟩, cells⟩ := h
  exact ⟨⟨l, hl, fun p mem => reads p (inR p mem)⟩, ⟨k, hk, fun p mem => writes p (inW p mem)⟩,
    fun a out => cells a fun p inside => out p (writes p inside)⟩

/-- What only reads may be a part of what writes too. -/
theorem Within.of_reads (h : Within R nowhere w w') (wider : ∀ p, R p → R' p) : Within R' W w w' :=
  h.mono wider fun _ => False.elim

theorem Within.read (inside : R p) : Within R W w (w.read p) :=
  ⟨⟨[p], rfl, by simpa using inside⟩, ⟨[], by simp [World.read]⟩, fun _ _ => rfl⟩

theorem Within.write (inside : W p) (v : V) : Within R W w (w.write p v) :=
  ⟨⟨[], by simp [World.write]⟩, ⟨[p], rfl, by simpa using inside⟩,
    fun _ out => Function.update_of_ne (out p inside).symm _ _⟩

/-- Without a write, the memory is unchanged. -/
theorem Within.cells_eq (h : Within R nowhere w w') : w'.cells = w.cells :=
  funext fun a => h.cells a fun _ => False.elim

theorem Within.mem_reads (h : Within R W w w') (was : p ∈ w.reads) : p ∈ w'.reads := by
  obtain ⟨l, hl, -⟩ := h.reads
  rw [hl]
  exact List.mem_append_left l was

/-- Everything that was read since the start. -/
theorem Within.of_mem_reads {m : Nat → V} (h : Within R W (World.start m) w) (mem : p ∈ w.reads) :
    R p := by
  obtain ⟨l, hl, inside⟩ := h.reads
  rw [hl] at mem
  exact inside p mem

end Within

/-! ## Programs that read and write -/

/-- From the world `w`, `c` returns, and `Q` holds of its value and of the world it leaves. -/
def Finishes (c : Act ε V α) (w : World V) (Q : α → World V → Prop) : Prop :=
  Returns (c w) fun r => Q r.1 r.2

section Finishes

variable {c : Act ε V α} {f : α → Act ε V β} {w : World V} {P P' : α → World V → Prop}
  {Q : β → World V → Prop}

theorem Finishes.pure {a : α} (h : P a w) : Finishes (pure a : Act ε V α) w P := .ok h

theorem Finishes.bind (first : Finishes c w P) (rest : ∀ a w', P a w' → Finishes (f a) w' Q) :
    Finishes (c >>= f) w Q :=
  Returns.bind first fun r h => rest r.1 r.2 h

theorem Finishes.mono (h : Finishes c w P) (weaken : ∀ a w', P a w' → P' a w') : Finishes c w P' :=
  Returns.mono h fun r => weaken r.1 r.2

theorem Finishes.load_bind {p : Ptr} {f : V → Act ε V β} (rest : Finishes (f (w.cells p.addr)) (w.read p) Q) :
    Finishes (load p >>= f) w Q := rest

theorem Finishes.store_bind {p : Ptr} {v : V} {f : Unit → Act ε V β}
    (rest : Finishes (f ()) (w.write p v) Q) : Finishes (store p v >>= f) w Q := rest

/-- A program has only one result. -/
theorem Finishes.and (h : Finishes c w P) (h' : Finishes c w P') :
    Finishes c w fun a w' => P a w' ∧ P' a w' := by
  obtain ⟨r, returned, holds⟩ := h
  obtain ⟨r', returned', holds'⟩ := h'
  cases returned.symm.trans returned'
  exact ⟨r, returned, holds, holds'⟩

theorem Finishes.both (h : Finishes c w P) (h' : Finishes c w P') : ∃ a w', P a w' ∧ P' a w' := by
  obtain ⟨r, -, holds⟩ := h.and h'
  exact ⟨r.1, r.2, holds⟩

end Finishes

/-! ## Searches -/

/-- Where a search through the places before `n` ends: at the first place that is found, or at `n`. -/
structure EndsAt (found : Nat → Prop) (n k : Nat) : Prop where
  bound : k ≤ n
  before : ∀ i, i < k → ¬ found i
  stops : k < n → found k

theorem exists_endsAt (found : Nat → Prop) (n : Nat) : ∃ k, EndsAt found n k := by
  classical
  by_cases some : ∃ i, i < n ∧ found i
  · obtain ⟨bound, here⟩ := Nat.find_spec some
    refine ⟨Nat.find some, bound.le, fun i early there => ?_, fun _ => here⟩
    exact Nat.find_min some early ⟨early.trans bound, there⟩
  · push Not at some
    exact ⟨n, le_rfl, some, fun more => absurd more (Nat.lt_irrefl n)⟩

/-- A last look at the place where the search ended decides if there is any. -/
theorem EndsAt.found_iff {found : Nat → Prop} {n k : Nat} (ends : EndsAt found n k) :
    found k ↔ ∃ i, i ≤ n ∧ found i := by
  refine ⟨fun here => ⟨k, ends.bound, here⟩, fun ⟨i, inside, there⟩ => ?_⟩
  rcases Nat.lt_or_eq_of_le ends.bound with early | rfl
  · exact ends.stops early
  · rcases Nat.lt_or_eq_of_le inside with before | rfl
    · exact absurd there (ends.before i before)
    · exact there

/-! ## Programs that only read -/

/-- On the memory `m`, `c` returns `a`, writes nothing and reads through pointers of `R` only. -/
def Yields (c : Act ε V α) (m : Nat → V) (R : Ptr → Prop) (a : α) : Prop :=
  ∀ w : World V, w.cells = m → Finishes c w fun b w' => b = a ∧ Within R nowhere w w'

section Yields

variable {c : Act ε V α} {f : α → Act ε V β} {m : Nat → V} {R R' : Ptr → Prop} {a : α} {b : β}

theorem Yields.pure (a : α) : Yields (pure a : Act ε V α) m R a :=
  fun w _ => .pure ⟨rfl, .refl R nowhere w⟩

theorem Yields.of_load {p : Ptr} (inside : R p) : Yields (load p : Act ε V V) m R (m p.addr) := by
  intro w same
  exact .ok ⟨by rw [same], .read inside⟩

theorem Yields.bind (first : Yields c m R a) (rest : Yields (f a) m R b) : Yields (c >>= f) m R b := by
  intro w same
  refine (first w same).bind fun a' w' ⟨value, within⟩ => ?_
  subst value
  refine (rest w' (within.cells_eq.trans same)).mono fun b' w'' ⟨value, within'⟩ => ?_
  exact ⟨value, within.trans within'⟩

/-- A test made on a character that was loaded. -/
theorem Yields.load_bind {p : Ptr} {f : V → Act ε V β} (inside : R p)
    (rest : Yields (f (m p.addr)) m R b) : Yields (load p >>= f) m R b :=
  (Yields.of_load inside).bind rest

theorem Yields.mono (h : Yields c m R a) (wider : ∀ p, R p → R' p) : Yields c m R' a :=
  fun w same => (h w same).mono fun _ _ ⟨value, within⟩ => ⟨value, within.mono wider fun _ => id⟩

/-- A program that only reads, as a part of one that writes too. -/
theorem Yields.finishes {w : World V} (h : Yields c w.cells R a) {Q : β → World V → Prop}
    (rest : ∀ w', Within R nowhere w w' → Finishes (f a) w' Q) : Finishes (c >>= f) w Q :=
  (h w rfl).bind fun _ w' ⟨value, within⟩ => value ▸ rest w' within

theorem Yields.returns (h : Yields c m R a) : Finishes c (.start m) fun b _ => b = a :=
  (h (.start m) rfl).mono fun _ _ => And.left

/-- The first operand of `&&` decides if the second is evaluated. -/
theorem Yields.and {x y : Act ε V Bool} {t u : Bool} (first : Yields x m R t)
    (second : t = true → Yields y m R u) : Yields (x <&&> y) m R (t && u) := by
  refine first.bind ?_
  cases t with
  | false => exact Yields.pure false
  | true => exact second rfl

/-- A scan ends at the first state that its test refuses. -/
theorem Yields.scan {endless : ε} {test : σ → Act ε V Bool} {next : σ → σ} {n : Nat}
    (state : Nat → σ) (advances : ∀ i, next (state i) = state (i + 1))
    (goesOn : ∀ i, i < n → Yields (test (state i)) m R true) (stops : Yields (test (state n)) m R false) :
    ∀ {fuel : Nat}, n < fuel →
      Yields (scanWhile endless test next fuel (state 0)) m R (state n) := by
  induction n generalizing state with
  | zero =>
    intro fuel few
    obtain ⟨fuel, rfl⟩ := Nat.exists_eq_add_one_of_ne_zero (Nat.ne_of_gt few)
    exact stops.bind (Yields.pure _)
  | succ n ih =>
    intro fuel few
    obtain ⟨fuel, rfl⟩ := Nat.exists_eq_add_one_of_ne_zero (Nat.ne_zero_of_lt few)
    refine (goesOn 0 (Nat.succ_pos n)).bind ?_
    have rest := ih (fun i => state (i + 1)) (fun i => advances (i + 1))
      (fun i bound => goesOn (i + 1) (Nat.succ_lt_succ bound)) stops (Nat.lt_of_succ_lt_succ few)
    rw [if_pos rfl, advances 0]
    exact rest

/-- A counted scan ends there too, if the counter does not run out before. -/
theorem Yields.count {test : σ → Act ε V Bool} {next : σ → σ} {k n : Nat} (state : Nat → σ)
    (advances : ∀ i, next (state i) = state (i + 1))
    (goesOn : ∀ i, i < k → Yields (test (state i)) m R true) (bound : k ≤ n)
    (stops : k < n → Yields (test (state k)) m R false) :
    Yields (countWhile test next n (state 0)) m R (n - k, state k) := by
  induction n generalizing state k with
  | zero =>
    obtain rfl := Nat.le_zero.mp bound
    exact Yields.pure _
  | succ n ih =>
    cases k with
    | zero => exact (stops (Nat.succ_pos n)).bind (Yields.pure _)
    | succ k =>
      refine (goesOn 0 (Nat.succ_pos k)).bind ?_
      have rest := ih (fun i => state (i + 1)) (fun i => advances (i + 1))
        (fun i early => goesOn (i + 1) (Nat.succ_lt_succ early)) (Nat.le_of_succ_le_succ bound)
        fun early => stops (Nat.succ_lt_succ early)
      rw [if_pos rfl, advances 0, Nat.add_sub_add_right]
      exact rest

end Yields

end Accesses
