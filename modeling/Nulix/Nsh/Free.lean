import Nulix.Kpm.Tree
import Nulix.Nsh.Alloc
import Nulix.Print.RoundTrip

/-!
# The `free` builtin

`builtins/free.c` reads the address and the size of a chunk from its arguments. Both go through `strtol`,
which has no number from 2 GiB on, while the chunk that `alloc_loop` prints may lie anywhere below 4 GiB.
-/

namespace Nulix.Nsh

open Fallible Kpm OrTree Positional Print Screen Nulix.Std Strings Words

/-- What stops `free`. -/
inductive FreeFault
  | strto (fault : StrtoFault)
  | kpm (fault : Fault)

/-- What `free` works on. The last field is not in the source: it records the chunks that `kpm_free` was
called with, the latest first. -/
structure Free where
  mem : Mem
  console : Console
  freed : List KpmChunk

def Free.print (fmt : Text) (s : Free) : Free := { s with console := kprintf fmt [] s.console }

/-- `kpm_free(&chunk); return 0;` -/
def freeChunk (b : Buddy) (chunk : KpmChunk) (s : Free) : Except FreeFault (Int × Free) := do
  let m ← (kpmFree b chunk s.mem).mapError .kpm
  return (0, { s with mem := m, freed := chunk :: s.freed })

/-- `free`. The strings are those that `argv` points to. -/
def free (b : Buddy) (argc : Int) (argv : Nat → Text) (s : Free) : Except FreeFault (Int × Free) := do
  if argc < 2 then return (-1, s.print (text "Usage: free size\n"))
  else
    let (addr, ptr) ← (strtol (argv 1) 0).mapError .strto
    if (argv 1).getD ptr 0 ≠ 0 ∨ (argv 1).getD 0 0 = 0x2d then
      return (-1, s.print (text "free: Address not well formatted.\n"))
    else
      let (size, ptr) ← (strtol (argv 2) 0).mapError .strto
      if (argv 2).getD ptr 0 ≠ 0 ∨ size.slt 0 then
        return (-1, s.print (text "free: Size not well formatted.\n"))
      else freeChunk b { addr := addr.toNat, size := size.toNat } s

/-! ## What `alloc_loop` prints -/

/-- The address of a chunk, printed with `%p`. -/
def addressText (c : KpmChunk) : Text := kprintfText (text "%p") [.int (.ofNat 32 c.addr)]

/-- The size of a chunk, printed with `%u`. -/
def sizeText (c : KpmChunk) : Text := kprintfText (text "%u") [.int (.ofNat 32 c.size)]

/-- `free` of what was printed about a chunk is the call of `kpm_free` with that chunk. -/
def Accepts (b : Buddy) (c : KpmChunk) : Prop :=
  ∀ argv s, argv 1 = addressText c → argv 2 = sizeText c → free b 3 argv s = freeChunk b c s

/-- An unsigned number is short and has no zero byte. -/
theorem number_unsigned (base : Nat) (atLeast : 2 ≤ base) (atMost : base ≤ 16) (n : BitVec 32) :
    number base false n 0 = (digitsOf base n.toNat).map digitChar ∧
      (number base false n 0).length ≤ 32 ∧ ∀ c ∈ number base false n 0, c ≠ 0 := by
  have digits : number base false n 0 = (digitsOf base n.toNat).map digitChar := by
    rw [number, sign, magnitude, padded, Nat.zero_sub]
    rfl
  refine ⟨digits, ?_, ?_⟩
  · rw [digits, List.length_map]
    exact length_digitsOf_le atLeast (by decide)
      (Nat.lt_of_lt_of_le n.isLt (Nat.pow_le_pow_left atLeast 32))
  · rw [digits]
    intro c mem
    obtain ⟨d, digit, rfl⟩ := List.mem_map.mp mem
    exact digitChar_ne_zero (Nat.lt_of_lt_of_le (digitsOf_lt atLeast _ d digit) atMost)

/-- A pointer is short and has no zero byte. -/
theorem pointer_output (n : BitVec 32) :
    (Conversion.pointer.output 0 (.int n)).length ≤ 34 ∧
      ∀ c ∈ Conversion.pointer.output 0 (.int n), c ≠ 0 := by
  obtain ⟨-, short, nonzero⟩ := number_unsigned 16 (by decide) (by decide) n
  refine ⟨?_, ?_⟩
  · show (number 16 false n 0).length + 1 + 1 ≤ 34
    omega
  · show ∀ c ∈ 0x30 :: 0x78 :: number 16 false n 0, c ≠ 0
    simp only [List.forall_mem_cons]
    exact ⟨by decide, by decide, nonzero⟩

theorem addressText_eq (c : KpmChunk) :
    addressText c = Conversion.pointer.output 0 (.int (.ofNat 32 c.addr)) := by
  obtain ⟨short, nonzero⟩ := pointer_output (.ofNat 32 c.addr)
  have whole : expansion 0 [.conversion none .pointer] [.int (.ofNat 32 c.addr)] =
      Conversion.pointer.output 0 (.int (.ofNat 32 c.addr)) := List.append_nil _
  rw [← whole] at short nonzero ⊢
  exact kprintfText_items [.conversion none .pointer] (Nat.le_trans short (by decide)) nonzero

theorem sizeText_eq (c : KpmChunk) : sizeText c = number 10 false (.ofNat 32 c.size) 0 := by
  obtain ⟨-, short, nonzero⟩ := number_unsigned 10 (by decide) (by decide) (.ofNat 32 c.size)
  have whole : expansion 0 [.conversion none .unsigned] [.int (.ofNat 32 c.size)] =
      number 10 false (.ofNat 32 c.size) 0 := List.append_nil _
  rw [← whole] at short nonzero ⊢
  exact kprintfText_items [.conversion none .unsigned] (Nat.le_trans short (by decide)) nonzero

/-- The line about a chunk has both texts in it. -/
theorem kprintfText_chunkFormat (c : KpmChunk) :
    kprintfText chunkFormat [.int (.ofNat 32 c.addr), .int (.ofNat 32 c.size)] =
      text "chunk: \x7b\n    addr = " ++ (addressText c ++ (text "\n    size = " ++ (sizeText c ++
        text "\n\x7d\n"))) := by
  have first : ∀ c ∈ text "chunk: \x7b\n    addr = ", c ≠ 0x25 ∧ c ≠ 0 := by decide +kernel
  have second : ∀ c ∈ text "\n    size = ", c ≠ 0x25 ∧ c ≠ 0 := by decide +kernel
  have third : ∀ c ∈ text "\n\x7d\n", c ≠ 0x25 ∧ c ≠ 0 := by decide +kernel
  have format : chunkFormat = formatText (literals _ first ++ .conversion none .pointer ::
    (literals _ second ++ .conversion none .unsigned :: (literals _ third ++ []))) := rfl
  have number : Conversion.unsigned.output 0 (.int (.ofNat 32 c.size)) = sizeText c := (sizeText_eq c).symm
  have last : expansion 0 [] [] = [] := rfl
  have whole : expansion 0 (literals _ first ++ .conversion none .pointer ::
      (literals _ second ++ .conversion none .unsigned :: (literals _ third ++ [])))
        [.int (.ofNat 32 c.addr), .int (.ofNat 32 c.size)] =
      text "chunk: \x7b\n    addr = " ++ (addressText c ++ (text "\n    size = " ++ (sizeText c ++
        text "\n\x7d\n"))) := by
    rw [expansion_literals, expansion_conversion 0 (by decide), expansion_literals,
      expansion_conversion 0 (by decide), expansion_literals, ← addressText_eq, number, last,
      List.append_nil]
  obtain ⟨addrShort, addrNonzero⟩ := pointer_output (.ofNat 32 c.addr)
  obtain ⟨-, sizeShort, sizeNonzero⟩ :=
    number_unsigned 10 (by decide) (by decide) (.ofNat 32 c.size)
  rw [← addressText_eq] at addrShort addrNonzero
  rw [← sizeText_eq] at sizeShort sizeNonzero
  rw [format, ← whole]
  apply kprintfText_items
  · rw [whole]
    have lengths : (text "chunk: \x7b\n    addr = ").length + (text "\n    size = ").length +
      (text "\n\x7d\n").length + 66 ≤ bufsize - 1 := by decide
    simp only [List.length_append]
    omega
  · rw [whole]
    intro d mem
    rcases List.mem_append.mp mem with lit | mem
    · exact (first d lit).2
    rcases List.mem_append.mp mem with addr | mem
    · exact addrNonzero d addr
    rcases List.mem_append.mp mem with lit | mem
    · exact (second d lit).2
    rcases List.mem_append.mp mem with size | lit
    · exact sizeNonzero d size
    · exact (third d lit).2

/-! ## What `free` reads -/

theorem head_digitChar {d : Nat} (small : d < 10) (positive : d ≠ 0) : digitChar d ≠ 0x30 := by
  revert d
  decide

/-- A positive decimal number is read in base 10 also where no base is given. -/
theorem strtol_size {n : BitVec 32} (positive : n.toNat ≠ 0) :
    strtol (number 10 false n 0) 0 =
      .ok (result 32 true false n.toNat, (number 10 false n 0).length) := by
  have ten : 2 ≤ 10 := by decide
  have digits := digitsOf_lt ten n.toNat
  obtain ⟨d, ds, split⟩ := List.exists_cons_of_ne_nil (digitsOf_ne_nil ten n.toNat)
  have small : d < 10 := digits d (by rw [split]; exact List.mem_cons_self)
  obtain ⟨space, minus, plus, -⟩ := digitChar_ne (Nat.lt_trans small (by decide))
  have nonzero := head_digitChar small (head_digitsOf positive split)
  have noZero : ¬text "0" <+: (digitsOf 10 n.toNat).map digitChar := by
    rw [split, List.map_cons]
    intro starts
    exact nonzero (List.cons_prefix_cons.mp starts).1.symm
  have noPrefix : ∀ x, ¬[0x30, x] <+: (digitsOf 10 n.toNat).map digitChar := fun x starts =>
    noZero ((List.prefix_append [0x30] [x]).trans starts)
  have radix : radixOf 0 ((digitsOf 10 n.toNat).map digitChar) =
      (10, (digitsOf 10 n.toNat).map digitChar) := by
    unfold radixOf
    rw [if_neg fun both => both.2.elim (noPrefix 0x78) (noPrefix 0x58), if_pos rfl, if_neg noZero]
  have noSpace : (((digitsOf 10 n.toNat).map digitChar).dropWhile fun c => [c] = text " ") =
      (digitsOf 10 n.toNat).map digitChar := by
    rw [split]
    exact dropWhile_space space
  have noSign : signOf true ((digitsOf 10 n.toNat).map digitChar) =
      (false, (digitsOf 10 n.toNat).map digitChar) := by
    rw [split]
    exact signOf_digits true minus plus
  have length : (digitsOf 10 n.toNat).length ≤ ((digitsOf 10 n.toNat).map digitChar).length := by
    rw [List.length_map]
  rw [(number_unsigned 10 ten (by decide) n).1]
  refine (strto_digits limits32 (.inl rfl) (by decide) (digitsOf_ne_nil ten _) digits noSpace noSign
    radix length).trans ?_
  rw [value_digitsOf ten]

theorem strtol_address (n : BitVec 32) :
    strtol (Conversion.pointer.output 0 (.int n)) 0 =
      .ok (result 32 true false n.toNat, (Conversion.pointer.output 0 (.int n)).length) := by
  have sixteen : 2 ≤ 16 := by decide
  have plain : Conversion.pointer.output 0 (.int n) =
      0x30 :: 0x78 :: (digitsOf 16 n.toNat).map digitChar :=
    congrArg (fun t => 0x30 :: 0x78 :: t) (number_unsigned 16 sixteen (by decide) n).1
  rw [plain]
  refine (strto_pointer limits32 true (digitsOf_ne_nil sixteen _) (digitsOf_lt sixteen _)).trans ?_
  rw [value_digitsOf sixteen]

/-- A number without a sign saturates at `LONG_MAX`. -/
theorem result_positive (v : Nat) : (result 32 true false v).toNat = min v (2 ^ 31 - 1) := by
  have max := limits32.long
  simp only [result, largest, Bool.false_eq_true, if_true, if_false]
  by_cases past : 2 ^ (32 - 1) - 1 < v
  · rw [if_pos past]
    omega
  · rw [if_neg past, BitVec.toNat_ofNat, Nat.mod_eq_of_lt (by omega)]
    omega

/-- `free` of what was printed about a chunk: the call, with the address as `strtol` reads it. -/
theorem free_printed (b : Buddy) {c : KpmChunk} (word : c.addr < 2 ^ 32) (some : c.size ≠ 0)
    (size : c.size < 2 ^ 31) {argv : Nat → Text} (first : argv 1 = addressText c)
    (second : argv 2 = sizeText c) (s : Free) :
    free b 3 argv s = freeChunk b { c with addr := min c.addr (2 ^ 31 - 1) } s := by
  have addrWord : (BitVec.ofNat 32 c.addr).toNat = c.addr := by
    rw [BitVec.toNat_ofNat, Nat.mod_eq_of_lt word]
  have sizeWord : (BitVec.ofNat 32 c.size).toNat = c.size := by
    rw [BitVec.toNat_ofNat, Nat.mod_eq_of_lt (by omega)]
  have readAddr := strtol_address (.ofNat 32 c.addr)
  have readSize := strtol_size (n := .ofNat 32 c.size) (by rw [sizeWord]; exact some)
  rw [addrWord, ← addressText_eq, ← first] at readAddr
  rw [sizeWord, ← sizeText_eq, ← second] at readSize
  have stop : ∀ t : Text, t.getD t.length 0 = 0 := fun t => List.getD_eq_default t 0 (Nat.le_refl _)
  have noMinus : (argv 1).getD 0 0 ≠ 0x2d := by
    rw [first, addressText_eq]
    exact (by decide : (0x30 : BitVec 8) ≠ 0x2d)
  have sizeBack := result_positive c.size
  rw [Nat.min_eq_left (by omega)] at sizeBack
  have positive : (result 32 true false c.size).slt 0 = false :=
    Bool.eq_false_iff.mpr fun negative => by
      have high := (isNegative_true _).mp negative
      omega
  unfold free
  rw [if_neg (by decide), readAddr]
  show (if (argv 1).getD (argv 1).length 0 ≠ 0 ∨ (argv 1).getD 0 0 = 0x2d then _ else _) = _
  rw [stop, if_neg (not_or_intro (not_not_intro rfl) noMinus), readSize]
  show (if (argv 2).getD (argv 2).length 0 ≠ 0 ∨ (result 32 true false c.size).slt 0 then _
    else freeChunk b ⟨_, _⟩ s) = _
  rw [stop, positive, if_neg (not_or_intro (not_not_intro rfl) Bool.false_ne_true), sizeBack,
    result_positive]

/-! ## Round trip -/

/-- The chunks of `kpm_alloc` are whole pages of memory. -/
theorem chunk_bounds {ek memkb : Nat} {m m' : Mem} {size : Nat} {c : KpmChunk}
    (inv : TreeInv (kpmInitBuddy ek memkb) m)
    (returned : kpmAlloc (kpmInitBuddy ek memkb) size m = .ok (some c, m')) :
    c.addr < 2 ^ 32 ∧ c.size ≠ 0 ∧ c.size < 2 ^ 31 := by
  have laid : Laid (kpmInitBuddy ek memkb) := laid_kpmInitBuddy ek memkb
  obtain ⟨o, i, grants, -⟩ := (kpmAlloc_outcome laid inv.represents size).of_eq_ok returned
  have inside := block_end grants.inside
  have room : (kpmInitBuddy ek memkb).nframes * pageSize + 2 ^ 22 ≤ 2 ^ 32 := laid.memory_lt
  have order : o < 11 := Nat.lt_of_lt_of_le grants.order (findBestFitOrder_lt size)
  have positive : 0 < 2 ^ o := Nat.two_pow_pos o
  have bound : 2 ^ o ≤ 2 ^ 10 := Nat.pow_le_pow_right (by decide) (Nat.le_of_lt_succ order)
  have bytes : blockSize o = 4096 * 2 ^ o := rfl
  rw [grants.chunk]
  dsimp only
  omega

/-- An address from 2 GiB on is not read back. -/
theorem Accepts.low {b : Buddy} {c : KpmChunk} (accepts : Accepts b c) (word : c.addr < 2 ^ 32)
    (some : c.size ≠ 0) (small : c.size < 2 ^ 31) : c.addr < 2 ^ 31 := by
  by_contra high
  let s : Free := ⟨fun _ => 0, ⟨.boot (fun _ => .zero) 2 .zero, []⟩, []⟩
  let argv : Nat → Text := fun i => if i = 1 then addressText c else sizeText c
  have first : argv 1 = addressText c := if_pos rfl
  have second : argv 2 = sizeText c := if_neg (by decide)
  have printed := free_printed b word some small first second s
  rw [accepts argv s first second, Nat.min_eq_right (by omega)] at printed
  have unaligned : freeChunk b { c with addr := 2 ^ 31 - 1 } s =
      .ok (0, { s with freed := [{ c with addr := 2 ^ 31 - 1 }] }) := by
    have odd : isAligned (2 ^ 31 - 1) pageSize = false := by
      rw [isAligned_page (by omega)]
      exact decide_eq_false (by omega)
    unfold freeChunk kpmFree
    rw [odd, Bool.not_false, if_pos rfl]
    rfl
  rw [unaligned] at printed
  unfold freeChunk at printed
  cases call : kpmFree b c s.mem with
  | error fault =>
    rw [call] at printed
    cases printed
  | ok m =>
    rw [call] at printed
    have record := congrArg (fun r : Int × Free => r.2.freed) (Except.ok.inj printed)
    have same : c = { c with addr := 2 ^ 31 - 1 } := (List.cons.inj record).1
    have addr := congrArg KpmChunk.addr same
    dsimp only at addr
    omega

/-- **What `alloc` prints, `free` accepts.** For every chunk that `kpm_alloc` returns, `free` of the
address and the size as they were printed calls `kpm_free` with that chunk exactly if the chunk starts
below 2 GiB. -/
theorem free_accepts_iff (ek memkb : Nat) {m m' : Mem} {size : Nat} {c : KpmChunk}
    (inv : TreeInv (kpmInitBuddy ek memkb) m)
    (returned : kpmAlloc (kpmInitBuddy ek memkb) size m = .ok (some c, m')) :
    Accepts (kpmInitBuddy ek memkb) c ↔ c.addr < 2 ^ 31 := by
  obtain ⟨word, some, small⟩ := chunk_bounds inv returned
  refine ⟨fun accepts => accepts.low word some small, fun low argv s first second => ?_⟩
  rw [free_printed _ word some small first second s, Nat.min_eq_left (by omega)]

/-- A machine with 3 GiB on which the page at `addr` alone is in service: `kpm_alloc` returns it. -/
theorem kpmAlloc_only_page (addr : Nat) (aligned : addr % 4096 = 0) (inside : addr < 3 * 2 ^ 30) :
    ∃ m m' c, TreeInv (kpmInitBuddy 0xC0112345 3145728) m ∧
      kpmAlloc (kpmInitBuddy 0xC0112345 3145728) 4096 m = .ok (some c, m') ∧ c.addr = addr := by
  have laid : Laid (kpmInitBuddy 0xC0112345 3145728) := laid_kpmInitBuddy _ _
  have nframes : (kpmInitBuddy 0xC0112345 3145728).nframes = 786432 := by decide
  have memory : addr ≤ (kpmInitBuddy 0xC0112345 3145728).nframes * pageSize := by
    rw [nframes, pageSize]
    omega
  obtain ⟨m, -, rep⟩ := kpmEnable_represents laid (represents_kpmInitFill _ _ fun _ => 0#8)
    (show 4096 < 2 ^ 32 by decide) aligned memory (by omega)
  have only : ∀ f, f ∈ (Pool.enable ⟨∅, ∅, Finset.Subset.refl ∅⟩
      (regionFrames (kpmInitBuddy 0xC0112345 3145728) addr (4096 / 4096))).free ↔ f = addr / 4096 := by
    intro f
    simp only [Pool.enable, Finset.empty_union, regionFrames, nframes, Finset.mem_Ico]
    omega
  have fit : findBestFitOrder 4096 = 0 := by decide
  have single : ∀ i, block 0 i = {i} := fun i => by simp [block]
  obtain ⟨⟨_ | c, m'⟩, returned, outcome⟩ := kpmAlloc_outcome laid rep 4096
  · refine absurd ?_ (outcome.2 0 (Nat.succ_pos _) (addr / 4096) (by rw [nframes]; omega))
    rw [single, Finset.singleton_subset_iff]
    exact (only _).mpr rfl
  · obtain ⟨o, i, grants, -⟩ := outcome
    have lowest : o = 0 := Nat.lt_one_iff.mp (by simpa [fit] using grants.order)
    subst lowest
    have free := grants.free
    rw [single, Finset.singleton_subset_iff, only] at free
    refine ⟨m, m', c, rep.treeInv, returned, ?_⟩
    rw [grants.chunk, free]
    show addr / 4096 * 4096 = addr
    omega

/-- A page in the middle of memory. -/
theorem free_accepts_iff_page :
    ∃ m m' c, kpmAlloc (kpmInitBuddy 0xC0112345 3145728) 4096 m = .ok (some c, m') ∧
      (Accepts (kpmInitBuddy 0xC0112345 3145728) c ↔ c.addr < 2 ^ 31) := by
  obtain ⟨m, m', c, inv, returned, -⟩ := kpmAlloc_only_page 0x40000000 (by decide) (by decide)
  exact ⟨m, m', c, returned, free_accepts_iff _ _ inv returned⟩

/-- The page at 2 GiB is freed at `LONG_MAX`. -/
theorem not_accepts_two_gib :
    ¬∀ (ek memkb : Nat) (m m' : Mem) (size : Nat) (c : KpmChunk), TreeInv (kpmInitBuddy ek memkb) m →
      kpmAlloc (kpmInitBuddy ek memkb) size m = .ok (some c, m') →
        Accepts (kpmInitBuddy ek memkb) c := by
  intro accepts
  obtain ⟨m, m', c, inv, returned, high⟩ :=
    kpmAlloc_only_page 0x80000000 (by decide) (by decide)
  obtain ⟨word, some, small⟩ := chunk_bounds inv returned
  have low := (accepts _ _ m m' _ c inv returned).low word some small
  omega

end Nulix.Nsh
