import Nulix.Kernel.Sessions

/-!
# Allocating and freeing at the prompt

The addresses and sizes that `alloc` prints can be typed back to `free`, in any order. That undoes the
allocation for the chunks below 2 GiB. From there on an address is read as `LONG_MAX`, where no page starts,
and `kpm_free` lets the chunk go unnoticed.
-/

namespace Nulix.Kernel

open Fallible Keyboard Kpm Nsh Nulix.Std OrTree Positional Print Screen Strings Tokens Words

/-! ## The line of a chunk -/

theorem text_free : text "free " = text "free" ++ [0x20] := by decide

/-- The line that frees a chunk: its address and its size as they were printed. -/
def freeLine (c : KpmChunk) : Text := text "free " ++ (addressText c ++ 0x20 :: sizeText c)

/-- The chunk that `free` reads there. -/
def readBack (c : KpmChunk) : KpmChunk := { c with addr := min c.addr (2 ^ 31 - 1) }

/-- A character that is typed on every layout and belongs to a word. -/
def InWord (x : BitVec 8) : Prop := (∀ layout : Layout, layout.Typeable x) ∧ Plain x ∧ isSpace x = false

theorem inWord_digitChar {d : Nat} (digit : d < 16) : InWord (digitChar d) := by
  have typeable : ∀ layout : Layout, ∀ d, d < 16 → layout.Typeable (digitChar d) := by
    intro layout
    cases layout <;> decide
  have plain : ∀ d, d < 16 → Plain (digitChar d) ∧ isSpace (digitChar d) = false := by decide
  exact ⟨fun layout => typeable layout d digit, plain d digit⟩

theorem inWord_free : ∀ x ∈ text "free", InWord x := by
  have typeable : ∀ layout : Layout, ∀ x ∈ text "free", layout.Typeable x := by
    intro layout
    cases layout <;> decide
  have plain : ∀ x ∈ text "free", Plain x ∧ isSpace x = false := by decide
  exact fun x mem => ⟨fun layout => typeable layout x mem, plain x mem⟩

theorem inWord_digits {base : Nat} (atLeast : 2 ≤ base) (atMost : base ≤ 16) (n : Nat) :
    ∀ x ∈ (digitsOf base n).map digitChar, InWord x := by
  intro x mem
  obtain ⟨d, digit, rfl⟩ := List.mem_map.mp mem
  exact inWord_digitChar (Nat.lt_of_lt_of_le (digitsOf_lt atLeast _ d digit) atMost)

theorem inWord_addressText (c : KpmChunk) : ∀ x ∈ addressText c, InWord x := by
  have number := (number_unsigned 16 (by decide) (by decide) (.ofNat 32 c.addr)).1
  have plain : addressText c =
      0x30 :: 0x78 :: (digitsOf 16 (BitVec.ofNat 32 c.addr).toNat).map digitChar := by
    rw [addressText_eq, ← number]
    rfl
  have zero : InWord 0x30 := inWord_digitChar (d := 0) (by decide)
  have letter : InWord 0x78 := ⟨fun layout => by cases layout <;> decide, by decide, by decide⟩
  rw [plain]
  simp only [List.forall_mem_cons]
  exact ⟨zero, letter, inWord_digits (by decide) (by decide) _⟩

theorem sizeText_digits (c : KpmChunk) :
    sizeText c = (digitsOf 10 (BitVec.ofNat 32 c.size).toNat).map digitChar := by
  rw [sizeText_eq]
  exact (number_unsigned 10 (by decide) (by decide) _).1

theorem inWord_sizeText (c : KpmChunk) : ∀ x ∈ sizeText c, InWord x := by
  rw [sizeText_digits]
  exact inWord_digits (by decide) (by decide) _

theorem length_addressText (c : KpmChunk) : (addressText c).length ≤ 34 := by
  rw [addressText_eq]
  exact (pointer_output _).1

theorem length_sizeText (c : KpmChunk) : (sizeText c).length ≤ 32 := by
  rw [sizeText_eq]
  exact (number_unsigned 10 (by decide) (by decide) _).2.1

theorem enterable_freeLine (layout : Layout) (c : KpmChunk) : Enterable layout (freeLine c) := by
  have space : layout.Typeable 0x20 ∧ Plain 0x20 := by
    cases layout <;> decide
  have inWord {x : BitVec 8} (word : InWord x) : layout.Typeable x ∧ Plain x := ⟨word.1 layout, word.2.1⟩
  constructor
  · intro x mem
    rcases List.mem_append.mp mem with name | mem
    · rw [text_free, List.mem_append, List.mem_singleton] at name
      rcases name with name | rfl
      · exact inWord (inWord_free x name)
      · exact space
    rcases List.mem_append.mp mem with address | mem
    · exact inWord (inWord_addressText c x address)
    rcases List.mem_cons.mp mem with rfl | size
    · exact space
    · exact inWord (inWord_sizeText c x size)
  · have address := length_addressText c
    have size := length_sizeText c
    have name : (text "free ").length = 5 := rfl
    have room : nshBufsize = 1024 := rfl
    simp only [freeLine, List.length_append, List.length_cons]
    omega

theorem words_freeLine (c : KpmChunk) : words (freeLine c) = [text "free", addressText c, sizeText c] := by
  have split : freeLine c = text "free" ++ 0x20 :: (addressText c ++ 0x20 :: sizeText c) := by
    rw [freeLine, text_free, List.append_assoc, List.singleton_append]
  have address : addressText c ≠ [] := by
    rw [addressText_eq]
    exact List.cons_ne_nil _ _
  have size : sizeText c ≠ [] := by
    rw [sizeText_digits, ne_eq, List.map_eq_nil_iff]
    exact digitsOf_ne_nil (by decide) _
  rw [words, split, tokens_word_cons (by decide) (fun x mem => (inWord_free x mem).2.2) rfl,
    tokens_word_cons address (fun x mem => (inWord_addressText c x mem).2.2) rfl,
    tokens_word size fun x mem => (inWord_sizeText c x mem).2.2]

/-! ## What `free` reads -/

section

variable {c : KpmChunk}

/-- A whole numeral is the number that `strtol` has for it. -/
theorem number_of_strtol {w : Text} (nonzero : ∀ x ∈ w, x ≠ 0) {v : Nat}
    (parsed : strtol w 0 = .ok (result 32 true false v, w.length)) :
    number w = some ((min v (2 ^ 31 - 1) : Nat) : Int) := by
  have isNumber := (strtol_number nonzero).of_eq_ok parsed
  have positive := result_positive v
  have whole : w.getD w.length 0 = 0 := List.getD_eq_default w 0 (Nat.le_refl _)
  dsimp only at isNumber
  rw [isNumber, if_neg (not_not.mpr whole), BitVec.toInt_eq_toNat_of_lt (by omega), positive]

theorem number_addressText (word : c.addr < 2 ^ 32) :
    number (addressText c) = some ((min c.addr (2 ^ 31 - 1) : Nat) : Int) := by
  have parsed := strtol_address (.ofNat 32 c.addr)
  rw [← addressText_eq, BitVec.toNat_ofNat, Nat.mod_eq_of_lt word] at parsed
  exact number_of_strtol (fun x mem => (inWord_addressText c x mem).2.1.1) parsed

theorem count_sizeText (some : c.size ≠ 0) (small : c.size < 2 ^ 31) : count (sizeText c) = .some c.size := by
  have word : (BitVec.ofNat 32 c.size).toNat = c.size := by
    rw [BitVec.toNat_ofNat, Nat.mod_eq_of_lt (by omega)]
  have parsed := strtol_size (n := .ofNat 32 c.size) (by rwa [word])
  rw [← sizeText_eq, word] at parsed
  have isNumber := number_of_strtol (fun x mem => (inWord_sizeText c x mem).2.1.1) parsed
  rw [Nat.min_eq_left (by omega)] at isNumber
  simp [count, isNumber]

theorem command_freeLine (null : Text) (word : c.addr < 2 ^ 32) (some : c.size ≠ 0)
    (small : c.size < 2 ^ 31) :
    command null (words (freeLine c)) = .free (readBack c) := by
  have entry : commands.find? (fun b => b.name = Option.some (text "free")) =
      Option.some ⟨text "free", BuiltinFn.free⟩ := rfl
  have noMinus : (addressText c).head? ≠ Option.some 0x2d := by
    rw [addressText_eq]
    exact (by decide : (Option.some 0x30 : Option (BitVec 8)) ≠ Option.some 0x2d)
  have back : ((min c.addr (2 ^ 31 - 1) : Nat) % 2 ^ 32 : Int).toNat = min c.addr (2 ^ 31 - 1) := by
    omega
  rw [words_freeLine, command, entry]
  show commandOf 3 _ .free = _
  simp only [commandOf, List.getD_cons_succ, List.getD_cons_zero, number_addressText word,
    count_sizeText some small, readBack, back]
  rw [if_neg (not_or.mpr ⟨by decide, noMinus⟩)]

variable {b : Buddy}

/-- A block lies in memory. -/
theorem IsBlock.bounds (laid : Laid b) (isBlock : c.IsBlock b) :
    c.addr < 2 ^ 32 ∧ c.size ≠ 0 ∧ c.size < 2 ^ 31 := by
  obtain ⟨o, i, order, index, rfl⟩ := isBlock
  have inside := block_end index
  have room : b.nframes * pageSize + 2 ^ 22 ≤ 2 ^ 32 := laid.memory_lt
  have order' : o < 11 := order
  have positive : 0 < 2 ^ o := Nat.two_pow_pos o
  have bound : 2 ^ o ≤ 2 ^ 10 := Nat.pow_le_pow_right (by decide) (Nat.le_of_lt_succ order')
  have bytes : blockSize o = 4096 * 2 ^ o := rfl
  dsimp only
  omega

/-- No page starts at `LONG_MAX`. -/
theorem readBack_high (high : ¬c.addr < 2 ^ 31) : (readBack c).addr % pageSize ≠ 0 := by
  show min c.addr (2 ^ 31 - 1) % pageSize ≠ 0
  rw [Nat.min_eq_right (by omega)]
  decide

theorem readBack_low (low : c.addr < 2 ^ 31) : readBack c = c := by
  rw [readBack, Nat.min_eq_left (by omega)]

theorem freeable_readBack (isBlock : c.IsBlock b) : Freeable b (readBack c) := by
  by_cases low : c.addr < 2 ^ 31
  · rw [readBack_low low]
    exact .inr (.inr isBlock.inside)
  · exact .inl (readBack_high low)

theorem freed_readBack (isBlock : c.IsBlock b) (p : Pool Nat) :
    freed p (readBack c) = if c.addr < 2 ^ 31 then p.release c.frames else p := by
  split
  · next low =>
    obtain ⟨o, i, -, -, rfl⟩ := isBlock
    have start : i * blockSize o = 4096 * (i * 2 ^ o) := by
      rw [blockSize, pageSize, Nat.mul_left_comm]
    have size : blockSize o = 4096 * 2 ^ o := rfl
    rw [readBack_low low, freed, frames_block, block]
    dsimp only
    rw [pageSize, if_pos (by omega), Nat.add_mul]
    congr 2 <;> omega
  · next high => rw [freed, if_neg (readBack_high high)]

/-! ## Freeing everything -/

variable {cs : List KpmChunk}

/-- The chunks that are freed when their lines are entered. -/
def lowOnes (cs : List KpmChunk) : List KpmChunk := cs.filter fun c => c.addr < 2 ^ 31

/-- The lines of chunks free the frames of those below 2 GiB. -/
theorem foldl_enter_frees (laid : Laid b) (nframes : Nat) (null : Text) (blocks : ∀ c ∈ cs, c.IsBlock b)
    (r : Resources) :
    (cs.map freeLine).foldl (Resources.enter nframes null) r =
      { r with pool := r.pool.release (framesOf (lowOnes cs)) } := by
  induction cs generalizing r with
  | nil =>
    rw [lowOnes, List.filter_nil, framesOf, Pool.release_empty]
    rfl
  | cons c cs ih =>
    have isBlock := blocks c List.mem_cons_self
    obtain ⟨word, some, small⟩ := IsBlock.bounds laid isBlock
    have entered : r.enter nframes null (freeLine c) =
        { r with pool := if c.addr < 2 ^ 31 then r.pool.release c.frames else r.pool } := by
      rw [Resources.enter, command_freeLine null word some small, ← freed_readBack isBlock]
      rfl
    rw [List.map_cons, List.foldl_cons, entered, ih fun d mem => blocks d (List.mem_cons_of_mem c mem)]
    by_cases low : c.addr < 2 ^ 31
    · have kept : lowOnes (c :: cs) = c :: lowOnes cs := List.filter_cons_of_pos (decide_eq_true low)
      rw [if_pos low, Pool.release_release, kept]
      rfl
    · have dropped : lowOnes (c :: cs) = lowOnes cs := List.filter_cons_of_neg (by simpa using low)
      rw [if_neg low, dropped]

/-- The lines of chunks are accepted, whatever happened before. -/
theorem accepts_frees (laid : Laid b) (maps : Nat → Prop) (null : Text) (blocks : ∀ c ∈ cs, c.IsBlock b)
    (r : Resources) :
    AllSafe (Resources.enter b.nframes null) (Resources.Accepts maps b null) r (cs.map freeLine) := by
  intro before line after split
  have mem : line ∈ cs.map freeLine := by
    rw [split]
    exact List.mem_append_right _ List.mem_cons_self
  obtain ⟨c, held, rfl⟩ := List.mem_map.mp mem
  obtain ⟨word, some, small⟩ := IsBlock.bounds laid (blocks c held)
  refine ⟨enterable_freeLine _ c, ?_⟩
  rw [command_freeLine null word some small]
  exact freeable_readBack (blocks c held)

/-- Blocks that were taken are all back exactly if they all lie below 2 GiB. -/
theorem release_lowOnes_iff {ds : List KpmChunk} (blocks : ∀ c ∈ cs, c.IsBlock b) {p : Pool Nat}
    (taken : framesOf cs ⊆ p.free) (perm : ds.Perm cs) :
    (p.take (framesOf cs)).release (framesOf (lowOnes ds)) = p ↔ ∀ c ∈ cs, c.addr < 2 ^ 31 := by
  have lowFrames : ∀ f, f ∈ framesOf (lowOnes ds) ↔ ∃ c ∈ cs, c.addr < 2 ^ 31 ∧ f ∈ c.frames := by
    intro f
    simp [mem_framesOf, lowOnes, perm.mem_iff, and_assoc]
  constructor
  · intro back c mem
    by_contra high
    -- the first frame of the chunk is free again, so it lies in a block that starts below 2 GiB
    have first : c.addr / 4096 ∈ c.frames := by
      obtain ⟨o, i, -, -, rfl⟩ := blocks c mem
      have size : blockSize o = 4096 * 2 ^ o := rfl
      have positive : 0 < 2 ^ o := Nat.two_pow_pos o
      rw [KpmChunk.frames, Finset.mem_Ico]
      dsimp only
      omega
    have held : c.addr / 4096 ∈ framesOf cs := mem_framesOf.mpr ⟨c, mem, first⟩
    have free := taken held
    rw [← back] at free
    rcases Finset.mem_union.mp free with kept | returned
    · exact (Finset.mem_sdiff.mp kept).2 held
    · obtain ⟨d, inList, low, inBlock⟩ := (lowFrames _).mp (Finset.mem_inter.mp returned).1
      obtain ⟨o, order, size, i, start⟩ := (blocks d inList).natural
      have bound : 2 ^ o * 2 ^ (10 - o) = 2 ^ 10 := by rw [← Nat.pow_add, Nat.add_sub_cancel' order]
      have stop : d.addr + d.size ≤ 2 ^ 31 := by
        have whole : d.size * (2 ^ (10 - o) * 2 ^ 9) = 2 ^ 31 := by
          rw [size, pageSize, Nat.mul_assoc, ← Nat.mul_assoc (2 ^ o), bound]
          rfl
        rw [start, ← whole] at low ⊢
        rw [← Nat.mul_succ]
        exact Nat.mul_le_mul_left _ (Nat.lt_of_mul_lt_mul_left low)
      rw [KpmChunk.frames, Finset.mem_Ico] at inBlock
      omega
  · intro low
    have all : framesOf (lowOnes ds) = framesOf cs := by
      ext f
      rw [lowFrames, mem_framesOf]
      exact exists_congr fun c => and_congr_right fun mem => and_iff_right (low c mem)
    rw [all, Pool.release_take taken]

end

/-! ## What `alloc` takes -/

section

variable {b : Buddy} {p : Pool Nat} {s : AllocLoop}

/-- Every turn of the loop is an allocation. -/
theorem allocLoopFrom_balanced (laid : Laid b) (oldcolor : BitVec 8) (turns size : Nat)
    (balanced : s.session.Balanced b p) :
    Ensures (allocLoopFrom b oldcolor turns size s) fun r => r.2.session.Balanced b p := by
  induction turns generalizing size s with
  | zero => exact .error _
  | succ turns ih =>
    unfold allocLoopFrom
    split
    · have allocates : Ensures (kpmAlloc b size s.mem) fun r =>
          Session.Balanced b p { mem := r.2, held := r.1.toList ++ s.obtained } := by
        rintro ⟨chunk, m⟩ returned
        refine (balanced.run laid (.alloc size)).of_eq_ok ?_
        show (kpmAlloc b size s.mem >>= _) = _
        rw [returned]
        rfl
      refine allocates.bind fun r after => ?_
      obtain ⟨_ | chunk, m⟩ := r
      · exact .ok after
      · dsimp only
        split
        · exact .ok after
        · exact ih _ after
    · exact .ok balanced

/-- The chunks obtained are blocks of free frames, and what `obtain` takes. -/
theorem allocLoop_takes (laid : Laid b) (rep : Represents b s.mem p) {size : Nat} {ret : Int} {s' : AllocLoop}
    (ran : allocLoop b (b.nframes + 1) size s = .ok (ret, s')) :
    (∀ c ∈ s'.obtained, c.IsBlock b) ∧ framesOf s'.obtained ⊆ p.free ∧
      obtain b.nframes (b.nframes + 1) size p = p.take (framesOf s'.obtained) := by
  have balanced : s'.session.Balanced b p :=
    allocLoopFrom_balanced laid s.console.getColor (b.nframes + 1) size (.start rep) _ ran
  have rep' := (allocLoop_obtain laid size rep).of_eq_ok ran
  exact ⟨balanced.blocks, fun f mem => balanced.held_free mem, rep'.unique balanced.represents⟩

end

/-! ## The round trip -/

variable (hw : Hardware) {img : KernelImage} {entries : List MmapEntry} {count memkb : Nat} (found : Found)
  {ps : List Poll} {pics : Pics} {k : Globals}

/-- **What `alloc` prints can be freed.** After any polls, let a line be one that can be entered and asks
`alloc` for a size. It can be entered then, and after it for each of the chunks obtained, in any order, its
line of `free`; and whenever just that is entered, however it is typed, the bitmaps stand for the same pool as
before if and only if all of the chunks lie below 2 GiB. -/
theorem kernelMain_alloc_free (held : img.Held (kpmInitBuddy img.ek memkb))
    (mapped : img.Mapped (kpmInitBuddy img.ek memkb))
    (ran : kernelMain hw img entries count memkb found ps = .ok (pics, k)) {line : Text} {size : Nat}
    (enterable : Enterable (viewAfter hw.handlers img entries memkb ps).resources.layout line)
    (allocates : command hw.handlers.atNull (words line) = .alloc size) {start s : AllocLoop} {ret : Int}
    (from_here : start.mem = k.mem)
    (loop : allocLoop k.buddy (k.buddy.nframes + 1) size start = .ok (ret, s)) {cs : List KpmChunk}
    (perm : cs.Perm s.obtained) :
    let lines := (viewAfter hw.handlers img entries memkb ps).session.entered ++ line :: cs.map freeLine
    (∃ ps' r, kernelMain hw img entries count memkb found ps' = .ok r ∧
      (viewAfter hw.handlers img entries memkb ps').session.entered = lines) ∧
    ∀ found' ps' pics' k', kernelMain hw img entries count memkb found' ps' = .ok (pics', k') →
      (viewAfter hw.handlers img entries memkb ps').session.entered = lines →
        ((∃ pool, Represents k.buddy k.mem pool ∧ Represents k'.buddy k'.mem pool) ↔
          ∀ c ∈ s.obtained, c.addr < 2 ^ 31) := by
  obtain ⟨readable, safe⟩ := (kernelMain_when hw found ps held mapped.room).returns_iff.mp ⟨_, ran⟩
  obtain ⟨-, shows⟩ := (kernelMain_when hw found ps held mapped.room).of_eq_ok ran
  have laid := laid_kpmInitBuddy img.ek memkb
  obtain ⟨resources, accepted, -⟩ := entered_viewAfter hw safe
  have rep := shows.running.pool
  rw [← from_here] at rep
  rw [shows.running.buddy] at loop
  obtain ⟨blocks, taken, obtains⟩ := allocLoop_takes laid rep loop
  have blocks' : ∀ c ∈ cs, c.IsBlock (kpmInitBuddy img.ek memkb) := fun c mem =>
    blocks c (perm.mem_iff.mp mem)
  refine ⟨?_, fun found' ps' pics' k' ran' same => ?_⟩
  · have going : (command hw.handlers.atNull (words line)).Safe hw.Maps (kpmInitBuddy img.ek memkb) := by
      rw [allocates]
      exact trivial
    have later := accepts_frees laid hw.Maps hw.handlers.atNull blocks'
    have accepts : AllSafe (Resources.enter (kpmInitBuddy img.ek memkb).nframes hw.handlers.atNull)
        (Resources.Accepts hw.Maps (kpmInitBuddy img.ek memkb) hw.handlers.atNull)
        (viewStart img entries memkb).resources
        ((viewAfter hw.handlers img entries memkb ps).session.entered ++ line :: cs.map freeLine) := by
      rw [allSafe_append, allSafe_cons, ← resources]
      exact ⟨accepted, ⟨enterable, going⟩, later _⟩
    obtain ⟨ps', r, ran', session⟩ := exists_session hw found held mapped.room readable accepts (.nil _)
    exact ⟨ps', r, ran', congrArg Nsh.Session.entered session⟩
  · obtain ⟨-, safe'⟩ := (kernelMain_when hw found' ps' held mapped.room).returns_iff.mp ⟨_, ran'⟩
    obtain ⟨-, shows'⟩ := (kernelMain_when hw found' ps' held mapped.room).of_eq_ok ran'
    have resources' := (entered_viewAfter hw safe').resources
    rw [same, List.foldl_append, ← resources, List.foldl_cons, foldl_enter_frees laid _ _ blocks',
      Resources.enter, allocates] at resources'
    have rep' := shows'.running.pool
    rw [resources'] at rep'
    have pool : Represents (kpmInitBuddy img.ek memkb) k'.mem
        (((viewAfter hw.handlers img entries memkb ps).resources.pool.take (framesOf s.obtained)).release
          (framesOf (lowOnes cs))) := obtains ▸ rep'
    rw [← release_lowOnes_iff blocks taken perm, shows.running.buddy, shows'.running.buddy, ← from_here]
    constructor
    · rintro ⟨p, before, now⟩
      exact (pool.unique now).trans (before.unique rep)
    · intro back
      exact ⟨_, rep, back ▸ pool⟩

/-- Another 5000 bytes after `alloc 5000` and `next`. -/
theorem kernelMain_alloc_free_typed : ∃ pics k ret s,
    kernelMain smallHardware smallImage smallMap 2 16384 smallFound smallTyped = .ok (pics, k) ∧
    allocLoop k.buddy (k.buddy.nframes + 1) 5000 ⟨k.mem, k.shell.console, ⟨0, 0⟩, []⟩ = .ok (ret, s) ∧
    let lines := (viewAfter smallHardware.handlers smallImage smallMap 16384 smallTyped).session.entered ++
      text "alloc 5000" :: s.obtained.map freeLine
    (∃ ps' r, kernelMain smallHardware smallImage smallMap 2 16384 smallFound ps' = .ok r ∧
      (viewAfter smallHardware.handlers smallImage smallMap 16384 ps').session.entered = lines) ∧
    ∀ found' ps' pics' k', kernelMain smallHardware smallImage smallMap 2 16384 found' ps' = .ok (pics', k') →
      (viewAfter smallHardware.handlers smallImage smallMap 16384 ps').session.entered = lines →
        ((∃ pool, Represents k.buddy k.mem pool ∧ Represents k'.buddy k'.mem pool) ↔
          ∀ c ∈ s.obtained, c.addr < 2 ^ 31) := by
  obtain ⟨safe, keys, view⟩ := small_typed
  obtain ⟨pics, k, ran⟩ := exists_small_run safe
  obtain ⟨-, shows⟩ :=
    (kernelMain_when smallHardware smallFound smallTyped small_held small_mapped.room).of_eq_ok ran
  have rep := shows.running.pool
  rw [← shows.running.buddy] at rep
  have laid : Laid k.buddy := shows.running.buddy ▸ laid_kpmInitBuddy _ _
  obtain ⟨⟨ret, s⟩, loop, -⟩ := allocLoop_obtain (s := ⟨k.mem, k.shell.console, ⟨0, 0⟩, []⟩) laid 5000 rep
  have enterable : Enterable
      (viewAfter smallHardware.handlers smallImage smallMap 16384 smallTyped).resources.layout
      (text "alloc 5000") := by
    have onLayout : Enterable .us104 (text "alloc 5000") := ⟨by decide, by decide⟩
    rw [view]
    exact onLayout
  exact ⟨pics, k, ret, s, ran, loop,
    kernelMain_alloc_free smallHardware smallFound small_held small_mapped ran enterable (by decide) rfl loop
      (.refl _)⟩

end Nulix.Kernel
