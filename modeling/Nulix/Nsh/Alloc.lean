import Nulix.Kpm.Release
import Nulix.Print

/-!
# The loop of the `alloc` builtin

`alloc_loop` of `builtins/alloc.c` takes chunk after chunk until their sizes add up to the one asked
for. The session of the chunks it has taken keeps the books of a ledger, whose free frames count down
to the point where the loop stops. When they run out first, the loop fails and keeps what it took
(`allocLoop_untraced_iff`).
-/

namespace Nulix.Nsh

open Words Fallible OrTree Kpm Print Screen

/-- What `alloc_loop` works on: memory, the console and the chunk it is given. The last field is not
in the source: it records the chunks obtained, the latest first. -/
structure AllocLoop where
  mem : Mem
  console : Console
  chunk : KpmChunk
  obtained : List KpmChunk

def AllocLoop.onCurrent (f : Display → Display) (s : AllocLoop) : AllocLoop :=
  { s with console := s.console.onCurrent f }

/-- The format of the line about a chunk. -/
def chunkFormat : Text := text "chunk: \x7b\n    addr = %p\n    size = %u\n\x7d\n"

/-- A successful turn of `alloc_loop` up to its `break`. -/
def AllocLoop.obtain (chunk : KpmChunk) (s : AllocLoop) : AllocLoop :=
  { s with
    chunk := chunk
    obtained := chunk :: s.obtained
    console :=
      kprintf chunkFormat [.int (.ofNat 32 chunk.addr), .int (.ofNat 32 chunk.size)] s.console }

/-- The loop of `alloc_loop` and what follows it, allowed fewer than `fuel` turns. -/
def allocLoopFrom (b : Buddy) (oldcolor : BitVec 8) :
    Nat → Nat → AllocLoop → Except Fault (Int × AllocLoop)
  | 0, _, _ => .error .diverges
  | fuel + 1, size, s =>
    if size > 0 then do
      let (chunk, m) ← kpmAlloc b size s.mem
      let s := { s with mem := m }
      match chunk with
      | none => pure (-1, s.onCurrent (sbSetColor oldcolor))
      | some chunk =>
        let s := s.obtain chunk
        if chunk.size ≥ size then pure (0, s.onCurrent (sbSetColor oldcolor))
        else allocLoopFrom b oldcolor fuel (size - chunk.size) s
    else pure (0, s.onCurrent (sbSetColor oldcolor))

/-- `alloc_loop` -/
def allocLoop (b : Buddy) (fuel size : Nat) (s : AllocLoop) : Except Fault (Int × AllocLoop) :=
  let oldcolor := s.console.getColor
  let s := { s.onCurrent (sbSetFg .green) with obtained := [] }
  allocLoopFrom b oldcolor fuel size s

/-! ## Counting frames -/

/-- The frames whose order-0 bit is clear. -/
def clearFrames (b : Buddy) (m : Mem) : Finset Nat :=
  (Finset.range b.nframes).filter fun f => b.allocated 0 f m = false

def totalSize (chunks : List KpmChunk) : Nat := (chunks.map KpmChunk.size).sum

theorem totalSize_cons (c : KpmChunk) (chunks : List KpmChunk) :
    totalSize (c :: chunks) = c.size + totalSize chunks := by
  simp [totalSize]

/-- The chunks obtained so far, as a session of the allocator. -/
def AllocLoop.session (s : AllocLoop) : Session := { mem := s.mem, held := s.obtained }

/-- The outcome of the loop for `size` bytes, from `s` with `free` free frames. -/
def LoopOutcome (b : Buddy) (size free : Nat) (s : AllocLoop) (r : Int × AllocLoop) : Prop :=
  (∃ l, r.2.session.Keeps b l) ∧
    (r.1 = 0 ∧ size ≤ 4096 * free ∧ size + totalSize s.obtained ≤ totalSize r.2.obtained ∨
      r.1 = -1 ∧ 4096 * free < size)

/-- What the rest of the loop gets and lacks, with the chunk that was obtained before it. -/
theorem LoopOutcome.of_obtain {b : Buddy} {size free rest : Nat} {s s' : AllocLoop} {c : KpmChunk}
    {r : Int × AllocLoop} (outcome : LoopOutcome b (size - c.size) rest s' r) (more : c.size < size)
    (taken : 4096 * rest + c.size = 4096 * free) (obtained : s'.obtained = c :: s.obtained) :
    LoopOutcome b size free s r := by
  rcases outcome with ⟨kept, ⟨done, enough, total⟩ | ⟨failed, short⟩⟩
  · rw [obtained, totalSize_cons] at total
    refine ⟨kept, .inl ⟨done, ?_, ?_⟩⟩ <;> omega
  · refine ⟨kept, .inr ⟨failed, ?_⟩⟩
    omega

/-- A block takes its frames from the free ones. -/
theorem card_free_block {l : Ledger Nat} {o i : Nat} (free : block o i ⊆ l.pool.free) :
    (l.take (block o i) free).pool.free.card + 2 ^ o = l.pool.free.card := by
  have fewer := Pool.card_free_take free
  have enough := Finset.card_le_card free
  rw [card_block] at fewer enough
  show (l.pool.take (block o i)).free.card + 2 ^ o = l.pool.free.card
  omega

/-- Each turn that goes on takes a block smaller than what is left to get, so that the loop succeeds
exactly if the rest of the frames suffices for the rest of the size. -/
theorem allocLoopFrom_outcome {b : Buddy} (laid : Laid b) (oldcolor : BitVec 8) :
    ∀ {fuel size : Nat} {s : AllocLoop} {l : Ledger Nat}, s.session.Keeps b l →
      l.pool.free.card < fuel →
      Returns (allocLoopFrom b oldcolor fuel size s) (LoopOutcome b size l.pool.free.card s) := by
  intro fuel
  induction fuel with
  | zero => intro size s l _ bound; cases bound
  | succ fuel ih =>
    intro size s l keeps bound
    unfold allocLoopFrom
    by_cases more : size > 0
    · rw [if_pos more]
      refine (keeps.alloc laid size).bind ?_
      intro r outcome
      rcases r with ⟨_ | c, m⟩
      · obtain ⟨rfl, none⟩ := outcome
        refine .ok ⟨⟨l, keeps⟩, .inr ⟨rfl, ?_⟩⟩
        rw [none, Finset.card_empty]
        exact more
      · obtain ⟨o, i, free, chunk, after⟩ := outcome
        have card := card_free_block free
        have some : 0 < 2 ^ o := Nat.two_pow_pos o
        have bytes : c.size = 4096 * 2 ^ o := chunk
        dsimp only
        by_cases last : c.size ≥ size
        · rw [if_pos last]
          refine .ok ⟨⟨_, after⟩, .inl ⟨rfl, ?_, ?_⟩⟩
          · omega
          · show size + totalSize s.obtained ≤ totalSize (c :: s.obtained)
            rw [totalSize_cons]
            omega
        · rw [if_neg last]
          have after' : (AllocLoop.obtain c { s with mem := m }).session.Keeps b _ := after
          refine (ih after' (by omega)).mono fun r outcome => ?_
          exact outcome.of_obtain (by omega) (by omega) rfl
    · rw [if_neg more]
      refine .ok ⟨⟨l, keeps⟩, .inl ⟨rfl, ?_, ?_⟩⟩
      · omega
      · show size + totalSize s.obtained ≤ totalSize s.obtained
        omega

/-- The outcome of `alloc_loop` with no chunk taken before it. -/
theorem allocLoop_outcome (ek memkb fuel size : Nat) (s : AllocLoop)
    (inv : TreeInv (kpmInitBuddy ek memkb) s.mem)
    (enough : (kpmInitBuddy ek memkb).nframes < fuel) :
    Returns (allocLoop (kpmInitBuddy ek memkb) fuel size s)
      (LoopOutcome (kpmInitBuddy ek memkb) size (clearFrames (kpmInitBuddy ek memkb) s.mem).card
        { s.onCurrent (sbSetFg .green) with obtained := [] }) := by
  have laid : Laid (kpmInitBuddy ek memkb) := laid_kpmInitBuddy ek memkb
  have start : Session.Keeps (kpmInitBuddy ek memkb) { mem := s.mem, held := [] }
      (Ledger.start inv.pool) := ⟨inv.represents, rfl, nofun⟩
  have frames : (clearFrames (kpmInitBuddy ek memkb) s.mem).card ≤
      (kpmInitBuddy ek memkb).nframes := by
    refine (Finset.card_filter_le _ _).trans ?_
    rw [Finset.card_range]
  have books : (Ledger.start inv.pool).pool.free = clearFrames (kpmInitBuddy ek memkb) s.mem := rfl
  rw [← books] at frames ⊢
  exact allocLoopFrom_outcome laid s.console.getColor start (Nat.lt_of_le_of_lt frames enough)

/-- **No fragmentation failure.** Where the buddy tree invariant holds, `alloc_loop` returns within as
many turns as there are frames and one more. It returns 0 exactly if the clear frames, wherever they
lie, have room for `size`, and then the chunks obtained are disjoint and add up to `size` or more. -/
theorem allocLoop_succeeds_iff (ek memkb fuel size : Nat) (s : AllocLoop)
    (inv : TreeInv (kpmInitBuddy ek memkb) s.mem)
    (enough : (kpmInitBuddy ek memkb).nframes < fuel) :
    Returns (allocLoop (kpmInitBuddy ek memkb) fuel size s) fun r =>
      (r.1 = 0 ∨ r.1 = -1) ∧
        (r.1 = 0 ↔ size ≤ 4096 * (clearFrames (kpmInitBuddy ek memkb) s.mem).card) ∧
        (r.1 = 0 →
          r.2.obtained.Pairwise (fun c c' => Disjoint c.bytes c'.bytes) ∧
            size ≤ totalSize r.2.obtained) := by
  refine (allocLoop_outcome ek memkb fuel size s inv enough).mono ?_
  intro r outcome
  obtain ⟨ret, s'⟩ := r
  rcases outcome with ⟨⟨l, keeps⟩, ⟨rfl, room, total⟩ | ⟨rfl, short⟩⟩
  · exact ⟨.inl rfl, iff_of_true rfl room, fun _ => ⟨keeps.apart, total⟩⟩
  · have failed : (-1 : Int) ≠ 0 := by decide
    exact ⟨.inr rfl, iff_of_false failed (by omega), fun done => absurd done failed⟩

/-- A machine with 4 MiB of which two single pages are in service: 8000 bytes from both of them. -/
theorem allocLoop_succeeds_iff_two_pages :
    ∃ m m', kpmEnable (kpmInitBuddy 0xC0101000 4096) 0 4096
        (kpmInitFill 0xC0101000 4096 fun _ => 0#8) = .ok m ∧
      kpmEnable (kpmInitBuddy 0xC0101000 4096) 8192 4096 m = .ok m' ∧
      Returns
        (allocLoop (kpmInitBuddy 0xC0101000 4096) 2000 8000
          ⟨m', ⟨.boot (fun _ => .zero) 2 .zero, []⟩, ⟨0, 0⟩, []⟩) fun r =>
        (r.1 = 0 ∨ r.1 = -1) ∧
          (r.1 = 0 ↔ 8000 ≤ 4096 * (clearFrames (kpmInitBuddy 0xC0101000 4096) m').card) ∧
          (r.1 = 0 →
            r.2.obtained.Pairwise (fun c c' => Disjoint c.bytes c'.bytes) ∧
              8000 ≤ totalSize r.2.obtained) := by
  have laid : Laid (kpmInitBuddy 0xC0101000 4096) := laid_kpmInitBuddy _ _
  have nframes : (kpmInitBuddy 0xC0101000 4096).nframes = 1024 := by decide
  have enables : ∀ {m : Mem} {p : Pool Nat}, Represents (kpmInitBuddy 0xC0101000 4096) m p →
      ∀ base, base % 4096 = 0 → base ≤ 8192 →
        Returns (kpmEnable (kpmInitBuddy 0xC0101000 4096) base 4096 m) fun m' =>
          ∃ p, Represents (kpmInitBuddy 0xC0101000 4096) m' p := by
    intro m p rep base aligned low
    refine (kpmEnable_represents laid rep (by decide) aligned ?_ (by omega)).mono
      fun _ after => ⟨_, after⟩
    rw [nframes, pageSize]
    omega
  obtain ⟨m, first, _, rep⟩ :=
    enables (represents_kpmInitFill _ _ fun _ => 0#8) 0 (by decide) (by decide)
  obtain ⟨m', second, _, rep'⟩ := enables rep 8192 (by decide) (by decide)
  refine ⟨m, m', first, second, allocLoop_succeeds_iff _ _ _ _ _ rep'.treeInv ?_⟩
  rw [nframes]
  decide

/-! ## Failing -/

/-- A loop that fails has taken every free frame. -/
theorem allocLoopFrom_failed {b : Buddy} (laid : Laid b) (oldcolor : BitVec 8) {fuel size : Nat}
    {s s' : AllocLoop} {p : Pool Nat} (rep : Represents b s.mem p)
    (failed : allocLoopFrom b oldcolor fuel size s = .ok (-1, s')) :
    ∃ p', Represents b s'.mem p' ∧ p'.enabled = p.enabled ∧ p'.free = ∅ := by
  induction fuel generalizing size s p with
  | zero => cases failed
  | succ fuel ih =>
    unfold allocLoopFrom at failed
    by_cases more : size > 0
    · rw [if_pos more] at failed
      obtain ⟨⟨_ | c, m⟩, allocated, rest⟩ := bind_eq_ok failed
      · have outcome := (kpmAlloc_outcome laid rep size).of_eq_ok allocated
        have exhausted := outcome.exhausted rep (Nat.succ_pos _)
        obtain ⟨rfl, -⟩ := outcome
        cases rest
        exact ⟨p, rep, rfl, exhausted⟩
      · obtain ⟨o, i, -, after⟩ := (kpmAlloc_outcome laid rep size).of_eq_ok allocated
        dsimp only at rest
        split at rest
        · cases rest
        · have taken : Represents b (AllocLoop.obtain c { s with mem := m }).mem
              (p.take (block o i)) := after
          obtain ⟨p', books, enabled, exhausted⟩ := ih taken rest
          exact ⟨p', books, enabled, exhausted⟩
    · rw [if_neg more] at failed
      cases failed

/-- A failure leaves the bitmaps as they were only if there was no frame to take. -/
theorem allocLoop_failed_iff {ek memkb fuel size : Nat} {s s' : AllocLoop}
    (inv : TreeInv (kpmInitBuddy ek memkb) s.mem)
    (failed : allocLoop (kpmInitBuddy ek memkb) fuel size s = .ok (-1, s')) :
    SameBitmaps (kpmInitBuddy ek memkb) s.mem s'.mem ↔
      clearFrames (kpmInitBuddy ek memkb) s.mem = ∅ := by
  have laid : Laid (kpmInitBuddy ek memkb) := laid_kpmInitBuddy ek memkb
  have loop : allocLoopFrom (kpmInitBuddy ek memkb) s.console.getColor fuel size
      { s.onCurrent (sbSetFg .green) with obtained := [] } = .ok (-1, s') := failed
  have rep : Represents (kpmInitBuddy ek memkb) (AllocLoop.mem
      { s.onCurrent (sbSetFg .green) with obtained := [] }) inv.pool := inv.represents
  obtain ⟨p', after, enabled, exhausted⟩ := allocLoopFrom_failed laid _ rep loop
  constructor
  · intro untraced
    refine Finset.eq_empty_of_forall_notMem fun f clear => ?_
    simp only [clearFrames, Finset.mem_filter, Finset.mem_range] at clear
    obtain ⟨frame, clear⟩ := clear
    have bit : f < 8 * ((kpmInitBuddy ek memkb).orders 0).size :=
      laid.block_lt_size (by decide) (by rwa [Nat.pow_zero, Nat.div_one])
    have kept := untraced.orders 0 (by decide) f bit
    rw [clear, after.leaf frame, exhausted] at kept
    simp at kept
  · intro none
    have same : p' = inv.pool := Pool.ext enabled (exhausted.trans none.symm)
    exact inv.represents.sameBitmaps (same ▸ after)

/-- **What a failure leaves behind.** That a failure of `alloc_loop` changes no bitmap holds exactly
where it does not fail, or has no frame to take before it does. -/
theorem allocLoop_untraced_iff (ek memkb fuel size : Nat) (s : AllocLoop)
    (inv : TreeInv (kpmInitBuddy ek memkb) s.mem)
    (enough : (kpmInitBuddy ek memkb).nframes < fuel) :
    Returns (allocLoop (kpmInitBuddy ek memkb) fuel size s) fun r =>
      (r.1 = -1 → SameBitmaps (kpmInitBuddy ek memkb) s.mem r.2.mem) ↔
        size ≤ 4096 * (clearFrames (kpmInitBuddy ek memkb) s.mem).card ∨
          clearFrames (kpmInitBuddy ek memkb) s.mem = ∅ := by
  obtain ⟨⟨ret, s'⟩, returned, outcome⟩ := allocLoop_outcome ek memkb fuel size s inv enough
  refine ⟨_, returned, ?_⟩
  rcases outcome with ⟨-, ⟨rfl, room, -⟩ | ⟨rfl, short⟩⟩
  · have done : (0 : Int) ≠ -1 := by decide
    exact iff_of_true (fun failed => absurd failed done) (.inl room)
  · rw [or_iff_right (not_le.mpr short), ← allocLoop_failed_iff inv returned]
    exact ⟨fun untraced => untraced rfl, fun same _ => same⟩

/-- A machine with 4 MiB of which two pages are in service, asked for three. -/
theorem allocLoop_untraced_iff_two_pages :
    ∃ m, Represents (kpmInitBuddy 0xC0101000 4096) m ⟨{0, 1}, {0, 1}, Finset.Subset.refl _⟩ ∧
      Returns
        (allocLoop (kpmInitBuddy 0xC0101000 4096) 2000 9000
          ⟨m, ⟨.boot (fun _ => .zero) 2 .zero, []⟩, ⟨0, 0⟩, []⟩) fun r =>
        (r.1 = -1 → SameBitmaps (kpmInitBuddy 0xC0101000 4096) m r.2.mem) ↔
          9000 ≤ 4096 * (clearFrames (kpmInitBuddy 0xC0101000 4096) m).card ∨
            clearFrames (kpmInitBuddy 0xC0101000 4096) m = ∅ := by
  have nframes : (kpmInitBuddy 0xC0101000 4096).nframes = 1024 := by decide
  obtain ⟨m, rep⟩ := exists_two_pages
  refine ⟨m, rep, allocLoop_untraced_iff _ _ _ _ _ rep.treeInv ?_⟩
  rw [nframes]
  decide

/-- A machine with 4 MiB of which one page is in service, asked for two pages. -/
theorem not_allocLoop_untraced_one_page :
    ¬∀ (ek memkb fuel size : Nat) (s : AllocLoop), size ≤ 2 ^ 31 - 1 →
      TreeInv (kpmInitBuddy ek memkb) s.mem → (kpmInitBuddy ek memkb).nframes < fuel →
      Returns (allocLoop (kpmInitBuddy ek memkb) fuel size s) fun r =>
        r.1 = -1 → SameBitmaps (kpmInitBuddy ek memkb) s.mem r.2.mem := by
  intro untraced
  have laid : Laid (kpmInitBuddy 0xC0101000 4096) := laid_kpmInitBuddy _ _
  have nframes : (kpmInitBuddy 0xC0101000 4096).nframes = 1024 := by decide
  have enables : Returns (kpmEnable (kpmInitBuddy 0xC0101000 4096) 0 4096
      (kpmInitFill 0xC0101000 4096 fun _ => 0#8)) fun m =>
        Represents (kpmInitBuddy 0xC0101000 4096) m
          (Pool.enable ⟨∅, ∅, Finset.Subset.refl ∅⟩
            (regionFrames (kpmInitBuddy 0xC0101000 4096) 0 1)) :=
    kpmEnable_represents laid (represents_kpmInitFill _ _ _) (by decide) (by decide)
      (Nat.zero_le _) (by decide)
  obtain ⟨m, -, rep⟩ := enables
  have inv := rep.treeInv
  have clear : clearFrames (kpmInitBuddy 0xC0101000 4096) m = {0} := by
    show inv.pool.free = {0}
    rw [inv.represents.unique rep, regionFrames, nframes]
    rfl
  let s : AllocLoop := ⟨m, ⟨.boot (fun _ => .zero) 2 .zero, []⟩, ⟨0, 0⟩, []⟩
  have fuel : (kpmInitBuddy 0xC0101000 4096).nframes < 2000 := by
    rw [nframes]
    decide
  obtain ⟨⟨ret, s'⟩, returned, outcome⟩ := allocLoop_outcome _ _ 2000 8192 s inv fuel
  have kept := (untraced _ _ 2000 8192 s (by decide) inv fuel).of_eq_ok returned
  have one : (clearFrames (kpmInitBuddy 0xC0101000 4096) s.mem).card = 1 := by
    rw [show s.mem = m from rfl, clear]
    rfl
  rw [one] at outcome
  rcases outcome with ⟨-, ⟨-, room, -⟩ | ⟨rfl, -⟩⟩
  · exact absurd room (by decide)
  · have none := (allocLoop_failed_iff inv returned).mp (kept rfl)
    rw [clear] at none
    exact Finset.singleton_ne_empty 0 none

end Nulix.Nsh
