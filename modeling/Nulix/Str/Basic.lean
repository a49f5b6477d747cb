import Nulix.Lib.Accesses
import Nulix.Lib.Strings
import Nulix.Memory
import Nulix.Print

/-!
# The string library

The functions of lib/string/str.c and lib/string/mem.c as programs on the byte memory. `char` is signed
on i386. A `while` loop over characters that makes `turns` turns went over the whole memory without
finding the end it is looking for, and never ends. A `size_t` is a natural number, which is never
computed with but by counting it down.
-/

namespace Nulix.Str

open Accesses Print Strings

/-- The outcome of a loop that does not end. -/
inductive Endless
  | endless

/-- What a function of the library does before it returns a value. -/
abbrev Code (α : Type) := Act Endless (BitVec 8) α

def turns : Nat := 2 ^ 32

/-- `NULL` -/
def null : Ptr := ⟨0, 0⟩

/-! ## Tests -/

/-- `*s` -/
def isChar (s : Ptr) : Code Bool := do return (← load s) ≠ 0

/-- `*s != c` -/
def isOther (s : Ptr) (c : Int) : Code Bool := do return (← load s).toInt ≠ c

/-- `*s1 == *s2` -/
def isSame (s1 s2 : Ptr) : Code Bool := do return (← load s1) = (← load s2)

/-- `*s1 && *s2 && *s1 == *s2` -/
def isCommon (s1 s2 : Ptr) : Code Bool := isChar s1 <&&> isChar s2 <&&> isSame s1 s2

def isofFrom (c : Int) : Nat → Ptr → Code Bool
  | 0, _ => throw .endless
  | fuel + 1, charset => do
    if ← isChar charset then
      if c = (← load charset).toInt then return true
      isofFrom c fuel (charset.add 1)
    else return false

/-- `isof` (lib/string/str.c) -/
def isof (c : Int) (charset : Ptr) : Code Bool := isofFrom c turns charset

/-- `isof(*s, charset)` -/
def isofAt (s charset : Ptr) : Code Bool := do isof (← load s).toInt charset

/-! ## Comparing -/

/-- `s1++, s2++` -/
def advanceBoth (s : Ptr × Ptr) : Ptr × Ptr := (s.1.add 1, s.2.add 1)

/-- `strcmp` (lib/string/str.c) -/
def strcmp (s1 s2 : Ptr) : Code Int := do
  let (s1, s2) ← scanWhile .endless (fun s => isCommon s.1 s.2) advanceBoth turns (s1, s2)
  return (← load s1).toInt - (← load s2).toInt

/-- The value of an unsigned `n` after `n--`. -/
def decremented (n : Nat) : Nat := if n = 0 then 2 ^ 32 - 1 else n - 1

/-- `strncmp` (lib/string/str.c). The test that ends its loop decrements `n` too. -/
def strncmp (s1 s2 : Ptr) (n : Nat) : Code Int := do
  let (n, s1, s2) ← countWhile (fun s => isCommon s.1 s.2) advanceBoth n (s1, s2)
  let n := decremented n
  if n = 0 then return 0
  return (← load s1).toInt - (← load s2).toInt

/-- `memcmp` (lib/string/mem.c) -/
def memcmp (s1 s2 : Ptr) (n : Nat) : Code Int := do
  let (n, sc1, sc2) ← countWhile (fun s => isSame s.1 s.2) advanceBoth n (s1, s2)
  if n = 0 then return 0
  return (← load sc1).toNat - (← load sc2).toNat

/-! ## Searching -/

/-- `strlen` (lib/string/str.c), without the last step of `s`, which is not looked at any more. -/
def strlen (s : Ptr) : Code Nat := do
  let (_, i) ← scanWhile .endless (fun t => isChar t.1) (fun t => (t.1.add 1, t.2 + 1)) turns (s, 0)
  return i

/-- `return *s == c ? (char *)s : NULL;` -/
def orNull (s : Ptr) (c : Int) : Code Ptr := do
  if (← load s).toInt = c then return s else return null

/-- `strchr` (lib/string/str.c) -/
def strchr (s : Ptr) (c : Int) : Code Ptr := do
  let s ← scanWhile .endless (fun s => isChar s <&&> isOther s c) (·.add 1) turns s
  orNull s c

/-- `strrchr` (lib/string/str.c). The counter of its loop, which wraps around where it runs out, is not
looked at any more. -/
def strrchr (s : Ptr) (c : Int) : Code Ptr := do
  let len ← strlen s
  let s := s.add len
  let (_, s) ← countWhile (fun s => isOther s c) (·.add (-1)) len s
  orNull s c

def memrchrFrom (c : Int) : Nat → Ptr → Code Ptr
  | 0, _ => return null
  | n + 1, sc => do
    if ((← load sc).toNat : Int) = c then return sc
    memrchrFrom c n (sc.add (-1))

/-- `memrchr` (lib/string/mem.c) -/
def memrchr (s : Ptr) (c : Int) (n : Nat) : Code Ptr := memrchrFrom c n (s.add n)

def strstrFrom (needle : Ptr) : Nat → Ptr → Code Ptr
  | 0, _ => throw .endless
  | fuel + 1, haystack => do
    if ← isChar haystack then
      let (_, tmpn) ← scanWhile .endless (fun s => isCommon s.1 s.2) advanceBoth turns (haystack, needle)
      if (← load tmpn) = 0 then return haystack
      strstrFrom needle fuel (haystack.add 1)
    else return haystack

/-- `strstr` (lib/string/str.c) -/
def strstr (haystack needle : Ptr) : Code Ptr := strstrFrom needle turns haystack

/-- The variables of `strtok` that keep their values from call to call. -/
structure Saved where
  ptr : Ptr
  tmp : Ptr

/-- `strtok` (lib/string/str.c) -/
def strtok (saved : Saved) (str delim : Ptr) : Code (Ptr × Saved) := do
  let ptr := if str.addr ≠ 0 then str else saved.ptr
  let ptr ← scanWhile .endless (fun ptr => isChar ptr <&&> isofAt ptr delim) (·.add 1) turns ptr
  let tmp ← scanWhile .endless (fun tmp => isChar tmp <&&> (do return !(← isofAt tmp delim))) (·.add 1)
    turns ptr
  store tmp 0
  return (ptr, ⟨ptr, tmp⟩)

/-! ## Copying -/

def strcpyFrom : Nat → Ptr → Ptr → Code Ptr
  | 0, _, _ => throw .endless
  | fuel + 1, dst, src => do
    if ← isChar src then
      store dst (← load src)
      strcpyFrom fuel (dst.add 1) (src.add 1)
    else return dst

/-- `strcpy` (lib/string/str.c) -/
def strcpy (dst src : Ptr) : Code Ptr := do
  let ptr := dst
  let dst ← strcpyFrom turns dst src
  store dst 0
  return ptr

def strncpyFrom : Nat → Ptr → Ptr → Code Unit
  | 0, _, _ => return
  | n + 1, dst, src => do
    store dst (← load src)
    strncpyFrom n (dst.add 1) (src.add 1)

/-- `strncpy` (lib/string/str.c) -/
def strncpy (dst src : Ptr) (n : Nat) : Code Ptr := do
  let ptr := dst
  strncpyFrom n dst src
  return ptr

/-- `while (*dst++);` -/
def skipString : Nat → Ptr → Code Ptr
  | 0, _ => throw .endless
  | fuel + 1, dst => do
    if ← isChar dst then skipString fuel (dst.add 1) else return dst.add 1

/-- `strcat` (lib/string/str.c) -/
def strcat (dst src : Ptr) : Code Ptr := do
  let ptr := dst
  let dst ← skipString turns dst
  let _ ← strcpy dst src
  return ptr

/-- `strncat` (lib/string/str.c) -/
def strncat (dst src : Ptr) (n : Nat) : Code Ptr := do
  let ptr := dst
  let dst ← skipString turns dst
  let _ ← strncpy dst src n
  store (dst.add n) 0
  return ptr

/-- One turn of `memmove` after the other: a copy to a lower address goes up from the start, and a copy
to a higher one goes down from the end with both pointers left at the start. -/
def memmoveFrom : Nat → Ptr → Ptr → Code Unit
  | 0, _, _ => return
  | n + 1, dstc, srcc => do
    if srcc.addr < dstc.addr then
      store (dstc.add n) (← load (srcc.add n))
      memmoveFrom n dstc srcc
    else
      store dstc (← load srcc)
      memmoveFrom n (dstc.add 1) (srcc.add 1)

/-- `memmove` (lib/string/mem.c) -/
def memmove (dst src : Ptr) (n : Nat) : Code Ptr := do
  let ptr := dst
  memmoveFrom n dst src
  return ptr

/-! ## Strings in memory -/

variable {m : Mem} {p q : Ptr} {l k : Text} {R : Ptr → Prop}

/-- The string `l` stands at the address `s`: an object that ends inside the address space and does not
start at `NULL`. -/
structure StringAt (m : Mem) (s : Nat) (l : Text) : Prop where
  chars : Terminated (fun i => m (s + i)) l
  nonzero : ∀ c ∈ l, c ≠ 0
  nonnull : s ≠ 0
  fits : s + l.length < 2 ^ 32

theorem stringAt_store (m : Mem) {s : Nat} (nonzero : ∀ c ∈ l, c ≠ 0) (nonnull : s ≠ 0)
    (fits : s + l.length < 2 ^ 32) : StringAt (Strings.store m s (l ++ [0])) s l where
  chars := by
    constructor
    · intro i inside
      rw [store_inside m s (by simp; omega), List.getElem_append_left inside]
    · rw [store_inside m s (by simp), List.getElem_append_right (Nat.le_refl _)]
      simp
  nonzero := nonzero
  nonnull := nonnull
  fits := fits

/-- What a store elsewhere leaves of a string. -/
theorem StringAt.of_same {m' : Mem} {s : Nat} (string : StringAt m s l)
    (same : ∀ i, i ≤ l.length → m' (s + i) = m (s + i)) : StringAt m' s l where
  chars := ⟨fun i inside => (same i inside.le).trans (string.chars.char i inside),
    (same _ le_rfl).trans string.chars.zero⟩
  nonzero := string.nonzero
  nonnull := string.nonnull
  fits := string.fits

/-- A memory with the string `l` at `s`, `k` behind it at `t`, and nothing else. -/
def twoStrings (s : Nat) (l : Text) (t : Nat) (k : Text) : Mem :=
  Strings.store (Strings.store (fun _ => 0) s (l ++ [0])) t (k ++ [0])

theorem twoStrings_first {s t : Nat} (nonzero : ∀ c ∈ l, c ≠ 0) (nonnull : s ≠ 0)
    (apart : s + l.length < t) (fits : t ≤ 2 ^ 32) : StringAt (twoStrings s l t k) s l :=
  (stringAt_store _ nonzero nonnull (by omega)).of_same fun _ _ => store_of_lt (by omega)

theorem twoStrings_second {s t : Nat} (nonzero : ∀ c ∈ k, c ≠ 0) (nonnull : t ≠ 0)
    (fits : t + k.length < 2 ^ 32) : StringAt (twoStrings s l t k) t k :=
  stringAt_store _ nonzero nonnull fits

/-- The string `l` is read through `p`. -/
structure TextAt (m : Mem) (p : Ptr) (l : Text) : Prop where
  chars : ∀ i : Nat, i ≤ l.length → m (p.add i).addr = l.getD i 0
  nonzero : ∀ c ∈ l, c ≠ 0

theorem StringAt.char {s i : Nat} (string : StringAt m s l) (bound : i ≤ l.length) :
    m (s + i) = l.getD i 0 := by
  rcases Nat.lt_or_eq_of_le bound with inside | rfl
  · rw [List.getD_eq_getElem l 0 inside]
    exact string.chars.char i inside
  · rw [List.getD_eq_default l 0 (Nat.le_refl _)]
    exact string.chars.zero

theorem StringAt.textAt {s : Nat} (string : StringAt m s l) : TextAt m (.of s) l where
  chars := by
    intro i bound
    have fits := string.fits
    rw [Ptr.addr_add (by omega), string.char bound]
  nonzero := string.nonzero

theorem StringAt.short {s : Nat} (string : StringAt m s l) : l.length < turns := by
  have fits := string.fits
  unfold turns
  omega

theorem TextAt.of_same {m' : Mem} (string : TextAt m p l)
    (same : ∀ i : Nat, i ≤ l.length → m' (p.add i).addr = m (p.add i).addr) : TextAt m' p l :=
  ⟨fun i bound => (same i bound).trans (string.chars i bound), string.nonzero⟩

/-- The rest of a string is a string. -/
theorem TextAt.drop {i : Nat} (string : TextAt m p l) (bound : i ≤ l.length) :
    TextAt m (p.add i) (l.drop i) where
  chars := by
    intro j inside
    rw [List.length_drop] at inside
    rw [Ptr.add_add, ← Nat.cast_add, string.chars (i + j) (by omega), List.getD_eq_getElem?_getD,
      List.getD_eq_getElem?_getD, List.getElem?_drop]
  nonzero := fun c mem => string.nonzero c (List.mem_of_mem_drop mem)

theorem TextAt.tail {c : BitVec 8} (string : TextAt m p (c :: l)) : TextAt m (p.add 1) l :=
  string.drop (i := 1) (Nat.succ_pos _)

/-! ## What the tests return -/

theorem isChar_yields (inside : R p) : Yields (isChar p) m R (m p.addr ≠ 0) :=
  Yields.load_bind inside (Yields.pure _)

theorem TextAt.isChar_nil (string : TextAt m p []) (inside : R p) : Yields (isChar p) m R false := by
  have ended : m p.addr = 0 := by simpa using string.chars 0 (Nat.le_refl 0)
  exact decide_eq_false (not_not.mpr ended) ▸ isChar_yields inside

theorem TextAt.isChar_cons {c : BitVec 8} (string : TextAt m p (c :: l)) (inside : R p) :
    Yields (isChar p) m R true := by
  have first : m p.addr = c := by simpa using string.chars 0 (Nat.zero_le _)
  have some : m p.addr ≠ 0 := first ▸ string.nonzero c List.mem_cons_self
  exact decide_eq_true some ▸ isChar_yields inside

theorem isSame_yields (inside : R p) (inside' : R q) :
    Yields (isSame p q) m R (m p.addr = m q.addr) :=
  Yields.load_bind inside (Yields.load_bind inside' (Yields.pure _))

/-- The characters that `p` and `q` point to are the same, and not the end of a string. -/
def Common (m : Mem) (p q : Ptr) : Prop := m p.addr ≠ 0 ∧ m q.addr ≠ 0 ∧ m p.addr = m q.addr

instance : Decidable (Common m p q) := inferInstanceAs (Decidable (_ ∧ _ ∧ _))

theorem isCommon_yields (inside : R p) (inside' : R q) :
    Yields (isCommon p q) m R (Common m p q) := by
  have test := (isChar_yields (m := m) inside).and fun _ =>
    (isChar_yields (m := m) inside').and fun _ => isSame_yields (m := m) inside inside'
  have value : (decide (Common m p q)) =
      (decide (m p.addr ≠ 0) && (decide (m q.addr ≠ 0) && decide (m p.addr = m q.addr))) := by
    rw [Bool.eq_iff_iff]
    simp only [Bool.and_eq_true, decide_eq_true_eq]
    rfl
  rw [value]
  exact test

end Nulix.Str
