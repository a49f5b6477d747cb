import Nulix.Lib.Words

/-!
# Two-level page tables in memory

Little-endian 32-bit words in a byte memory, and the page walk of a 32-bit processor with 4 KiB pages:
bits 22 to 31 of a virtual address select a directory entry, bits 12 to 21 an entry of the table that
the directory entry names. A directory entry accounts for a slot of 4 MiB, and the slot is unmapped
exactly when the walk finds no present table entry in it.
-/

namespace PageWalk

open Words

variable {m : Nat → BitVec 8}

/-! ## Little-endian words -/

def load32 (m : Nat → BitVec 8) (a : Nat) : BitVec 32 :=
  m (u32 (a + 3)) ++ m (u32 (a + 2)) ++ m (u32 (a + 1)) ++ m (u32 a)

def store32 (a : Nat) (v : BitVec 32) (m : Nat → BitVec 8) : Nat → BitVec 8 :=
  let m := Function.update m (u32 a) (v.extractLsb' 0 8)
  let m := Function.update m (u32 (a + 1)) (v.extractLsb' 8 8)
  let m := Function.update m (u32 (a + 2)) (v.extractLsb' 16 8)
  Function.update m (u32 (a + 3)) (v.extractLsb' 24 8)

/-- A stored word changes only its own four bytes. -/
theorem store32_outside {a x : Nat} {v : BitVec 32} (outside : ∀ k, k < 4 → x ≠ u32 (a + k)) :
    store32 a v m x = m x := by
  have first := outside 0 (by decide)
  rw [Nat.add_zero] at first
  unfold store32
  rw [Function.update_of_ne (outside 3 (by decide)), Function.update_of_ne (outside 2 (by decide)),
    Function.update_of_ne (outside 1 (by decide)), Function.update_of_ne first]

theorem load32_congr {m' : Nat → BitVec 8} {a : Nat}
    (same : ∀ k, k < 4 → m (u32 (a + k)) = m' (u32 (a + k))) : load32 m a = load32 m' a := by
  have first := same 0 (by decide)
  rw [Nat.add_zero] at first
  rw [load32, load32, same 3 (by decide), same 2 (by decide), same 1 (by decide), first]

theorem load32_store32 (m : Nat → BitVec 8) (a : Nat) (v : BitVec 32) :
    load32 (store32 a v m) a = v := by
  have apart : ∀ i j, i < j → j < 4 → u32 (a + i) ≠ u32 (a + j) := by
    intro i j hij hj
    unfold u32
    omega
  have h01 := apart 0 1 (by decide) (by decide)
  have h02 := apart 0 2 (by decide) (by decide)
  have h03 := apart 0 3 (by decide) (by decide)
  have h12 := apart 1 2 (by decide) (by decide)
  have h13 := apart 1 3 (by decide) (by decide)
  have h23 := apart 2 3 (by decide) (by decide)
  rw [Nat.add_zero] at h01 h02 h03
  unfold load32 store32
  simp only [Function.update_self, Function.update_of_ne h01, Function.update_of_ne h02,
    Function.update_of_ne h03, Function.update_of_ne h12, Function.update_of_ne h13,
    Function.update_of_ne h23]
  apply BitVec.eq_of_getLsbD_eq
  intro i hi
  simp only [BitVec.getLsbD_append, BitVec.getLsbD_extractLsb']
  grind

/-- The second of two words stored at one place replaces the first. -/
theorem store32_store32 (m : Nat → BitVec 8) (a : Nat) (v w : BitVec 32) :
    store32 a w (store32 a v m) = store32 a w m := by
  funext x
  simp only [store32, Function.update_apply]
  split_ifs <;> rfl

/-! ## Walking the tables -/

/-- Entry `i` of the table at `base`. -/
def entry (m : Nat → BitVec 8) (base i : Nat) : BitVec 32 := load32 m (base + 4 * i)

/-- A page of the address space, which a table of 1024 entries fills. -/
structure IsPage (base : Nat) : Prop where
  aligned : base % 4096 = 0
  lt : base < 2 ^ 32

theorem entry_congr {m' : Nat → BitVec 8} {base i : Nat}
    (same : ∀ k, k < 4 → m (u32 (base + 4 * i + k)) = m' (u32 (base + 4 * i + k))) :
    entry m base i = entry m' base i :=
  load32_congr same

/-- Writing an entry changes no other entry of any table. -/
theorem entry_store32 {base base' i j : Nat} (v : BitVec 32) (page : IsPage base)
    (page' : IsPage base') (hi : i < 1024) (hj : j < 1024) :
    entry (store32 (base + 4 * i) v m) base' j =
      if base' = base ∧ j = i then v else entry m base' j := by
  split
  · rename_i same
    rw [same.1, same.2]
    exact load32_store32 m _ v
  · rename_i apart
    apply entry_congr
    intro k hk
    apply store32_outside
    intro l hl
    have aligned := page.aligned
    have aligned' := page'.aligned
    have lt := page.lt
    have lt' := page'.lt
    unfold u32
    omega

def present (e : BitVec 32) : Bool := e.getLsbD 0

def writable (e : BitVec 32) : Bool := e.getLsbD 1

def user (e : BitVec 32) : Bool := e.getLsbD 2

/-- The physical address of the page or table that an entry names. -/
def frameBase (e : BitVec 32) : Nat := e.toNat / 4096 * 4096

theorem frameBase_isPage (e : BitVec 32) : IsPage (frameBase e) := by
  have word := e.isLt
  unfold frameBase
  exact ⟨Nat.mul_mod_left _ _, by omega⟩

/-- Where a virtual address leads, and the rights that both levels grant. -/
structure Mapping where
  physical : Nat
  writable : Bool
  user : Bool
deriving DecidableEq

/-- The walk from the directory at `dir`; `none` is a page fault. -/
def walk (m : Nat → BitVec 8) (dir va : Nat) : Option Mapping :=
  let pde := entry m dir (va / 2 ^ 22)
  let pte := entry m (frameBase pde) (va / 2 ^ 12 % 2 ^ 10)
  if present pde && present pte then
    some ⟨frameBase pte + va % 2 ^ 12, writable pde && writable pte, user pde && user pte⟩
  else none

variable {dir d va : Nat}

theorem walk_eq_none : walk m dir va = none ↔
    (present (entry m dir (va / 2 ^ 22)) = true →
      present (entry m (frameBase (entry m dir (va / 2 ^ 22))) (va / 2 ^ 12 % 2 ^ 10)) = false) := by
  simp only [walk]
  split <;> simp_all

/-- No table entry is present that the walk can reach through directory entry `d`. -/
def SlotEmpty (m : Nat → BitVec 8) (dir d : Nat) : Prop :=
  present (entry m dir d) = true →
    ∀ t, t < 1024 → present (entry m (frameBase (entry m dir d)) t) = false

/-- The 1024 pages of a slot are unmapped when and only when it is empty. -/
theorem slotEmpty_iff : SlotEmpty m dir d ↔ ∀ va, va / 2 ^ 22 = d → walk m dir va = none := by
  constructor
  · rintro empty va rfl
    rw [walk_eq_none]
    intro pde
    exact empty pde _ (Nat.mod_lt _ (by decide))
  · intro unmapped pde t ht
    have slot : (d * 2 ^ 22 + t * 2 ^ 12) / 2 ^ 22 = d := by omega
    have page : (d * 2 ^ 22 + t * 2 ^ 12) / 2 ^ 12 % 2 ^ 10 = t := by omega
    have fault := walk_eq_none.mp (unmapped _ slot)
    rw [slot, page] at fault
    exact fault pde

end PageWalk
