import Nulix.Kpm.Init

/-!
# Exclusive ownership of physical memory

A `Session` is the machine after `kpm_init` with the chunks that `kpm_alloc` has handed out and that
have not been freed since. It refines a `Ledger` of frames: the bitmaps keep the books of its pool
and the held chunks are its lots. Allocating and freeing are the ledger's `take` and `give`, so what
the ledger carries in its fields, that lots are disjoint and in service, holds after every call.
-/

namespace Nulix.Kpm

open Words Fallible OrTree

/-! ## Sessions -/

/-- The bytes of memory and the chunks held, the latest first. -/
structure Session where
  mem : Mem
  held : List KpmChunk

/-- A call of the allocator in a session: a free is given the chunk at position `k` of the held
ones. -/
inductive KpmCall
  | alloc (size : Nat)
  | free (k : Nat)

/-- A call. There is none to make when the session holds no chunk at position `k`. -/
def KpmCall.run (b : Buddy) : KpmCall → Session → Except Fault Session
  | .alloc size, s => do
    let (chunk, m) ← kpmAlloc b size s.mem
    pure { mem := m, held := chunk.toList ++ s.held }
  | .free k, s =>
    match s.held[k]? with
    | some chunk => do
      let m ← kpmFree b chunk s.mem
      pure { mem := m, held := s.held.eraseIdx k }
    | none => pure s

namespace KpmChunk

def bytes (c : KpmChunk) : Set Nat := Set.Ico c.addr (c.addr + c.size)

def frames (c : KpmChunk) : Finset Nat := Finset.Ico (c.addr / 4096) ((c.addr + c.size) / 4096)

/-- The chunk is a block of the tree. -/
def IsBlock (b : Buddy) (c : KpmChunk) : Prop :=
  ∃ o i, o < kpmNorders ∧ i < b.nframes / 2 ^ o ∧
    c = { addr := i * blockSize o, size := blockSize o }

end KpmChunk

/-- What the holders of the chunks rely on. -/
structure Exclusive (img : KernelImage) (b : Buddy) (s : Session) : Prop where
  apart : s.held.Pairwise fun c c' => Disjoint c.bytes c'.bytes
  natural : ∀ c ∈ s.held, ∃ o, o ≤ 10 ∧ c.size = pageSize * 2 ^ o ∧ c.size ∣ c.addr
  inside : ∀ c ∈ s.held, c.addr + c.size ≤ b.nframes * pageSize
  enabled : ∀ c ∈ s.held, ∀ f, frameBytes f ⊆ c.bytes → b.enabled f s.mem = true
  unreserved : ∀ c ∈ s.held, Disjoint c.bytes (img.reserved b)

/-! ## Blocks and their frames -/

theorem frames_block (o i : Nat) :
    KpmChunk.frames { addr := i * blockSize o, size := blockSize o } = block o i := by
  rw [KpmChunk.frames, block_stop, block_start, Nat.mul_div_cancel _ (by decide),
    Nat.mul_div_cancel _ (by decide), block]

variable {b : Buddy} {c c' : KpmChunk}

/-- A byte of a block lies in one of its frames. -/
theorem KpmChunk.IsBlock.mem_frames (isBlock : c.IsBlock b) {x : Nat} (mem : x ∈ c.bytes) :
    x / 4096 ∈ c.frames := by
  obtain ⟨o, i, -, -, rfl⟩ := isBlock
  rw [bytes, Set.mem_Ico, block_stop, block_start] at mem
  have start : i * 2 ^ o * 4096 ≤ x := mem.1
  have stop : x < (i + 1) * 2 ^ o * 4096 := mem.2
  rw [frames_block, block, Finset.mem_Ico]
  omega

/-- Blocks with disjoint frames have disjoint bytes. -/
theorem KpmChunk.IsBlock.bytes_disjoint (left : c.IsBlock b) (right : c'.IsBlock b)
    (apart : Disjoint c.frames c'.frames) : Disjoint c.bytes c'.bytes := by
  rw [Set.disjoint_left]
  intro x mem mem'
  exact Finset.disjoint_left.mp apart (left.mem_frames mem) (right.mem_frames mem')

theorem KpmChunk.IsBlock.natural (isBlock : c.IsBlock b) :
    ∃ o, o ≤ 10 ∧ c.size = pageSize * 2 ^ o ∧ c.size ∣ c.addr := by
  obtain ⟨o, i, order, -, rfl⟩ := isBlock
  exact ⟨o, Nat.le_of_lt_succ order, rfl, Nat.dvd_mul_left _ _⟩

theorem KpmChunk.IsBlock.inside (isBlock : c.IsBlock b) :
    c.addr + c.size ≤ b.nframes * pageSize := by
  obtain ⟨o, i, -, index, rfl⟩ := isBlock
  exact block_end index

/-! ## The ledger of a session -/

/-- The session keeps the books of the ledger `l`. -/
structure Session.Keeps (b : Buddy) (s : Session) (l : Ledger Nat) : Prop where
  books : Represents b s.mem l.pool
  lots : l.held = s.held.map KpmChunk.frames
  blocks : ∀ c ∈ s.held, c.IsBlock b

/-- The chunks held are disjoint. -/
theorem Session.Keeps.apart {s : Session} {l : Ledger Nat} (keeps : s.Keeps b l) :
    s.held.Pairwise fun c c' => Disjoint c.bytes c'.bytes := by
  have lots := l.apart
  rw [keeps.lots, List.pairwise_map] at lots
  refine lots.imp_of_mem fun mem mem' apart => ?_
  exact (keeps.blocks _ mem).bytes_disjoint (keeps.blocks _ mem') apart

/-- The outcome of an allocation in a session: no frame is free and nothing changes, or a free block is
taken. -/
def AllocKeeps (b : Buddy) (s : Session) (l : Ledger Nat) : Option KpmChunk × Mem → Prop
  | (none, m) => m = s.mem ∧ l.pool.free = ∅
  | (some c, m) => ∃ o i, ∃ free : block o i ⊆ l.pool.free, c.size = blockSize o ∧
      Session.Keeps b { mem := m, held := c :: s.held } (l.take (block o i) free)

theorem Session.Keeps.alloc (laid : Laid b) {s : Session} {l : Ledger Nat} (keeps : s.Keeps b l)
    (size : Nat) : Returns (kpmAlloc b size s.mem) (AllocKeeps b s l) := by
  refine (kpmAlloc_outcome laid keeps.books size).mono ?_
  intro r outcome
  rcases r with ⟨_ | c, m'⟩
  · exact ⟨outcome.1, outcome.exhausted keeps.books (Nat.succ_pos _)⟩
  · obtain ⟨o, i, grants, after⟩ := outcome
    have order : o < kpmNorders :=
      lt_of_lt_of_le grants.order (findBestFitOrder_lt size)
    have lot : c.frames = block o i := by rw [grants.chunk, frames_block]
    refine ⟨o, i, grants.free, by rw [grants.chunk], ⟨after, ?_, ?_⟩⟩
    · show block o i :: l.held = c.frames :: s.held.map KpmChunk.frames
      rw [lot, keeps.lots]
    · intro c' mem
      rcases List.mem_cons.mp mem with rfl | mem
      · exact ⟨o, i, order, grants.inside, grants.chunk⟩
      · exact keeps.blocks c' mem

/-- Freeing a held chunk is a `give`. -/
theorem Session.Keeps.free (laid : Laid b) {s : Session} {l : Ledger Nat} (keeps : s.Keeps b l)
    {k : Nat} {c : KpmChunk} (at_k : s.held[k]? = some c) :
    ∃ hk : k < l.held.length, Returns (kpmFree b c s.mem) fun m =>
      Session.Keeps b { mem := m, held := s.held.eraseIdx k } (l.give k hk) := by
  obtain ⟨small, is_c⟩ := List.getElem?_eq_some_iff.mp at_k
  obtain ⟨o, i, -, index, chunk⟩ := keeps.blocks c (List.mem_of_getElem? at_k)
  have hk : k < l.held.length := by rwa [keeps.lots, List.length_map]
  have lot : l.held[k] = block o i := by
    simp only [keeps.lots, List.getElem_map, is_c, chunk, frames_block]
  have frees := kpmFree_block laid keeps.books index
  rw [← chunk] at frees
  refine ⟨hk, frees.mono fun m' after => ⟨?_, ?_, ?_⟩⟩
  · rw [← lot] at after
    exact after
  · show l.held.eraseIdx k = (s.held.eraseIdx k).map KpmChunk.frames
    rw [keeps.lots, List.eraseIdx_map]
  · intro c' mem
    exact keeps.blocks c' (List.mem_of_mem_eraseIdx mem)

/-- An allocation is a `take` or leaves the session as it is, a free is a `give`. -/
theorem KpmCall.run_moves (laid : Laid b) {s : Session} {l : Ledger Nat} (keeps : s.Keeps b l)
    (call : KpmCall) : Returns (call.run b s) fun s' => ∃ l', s'.Keeps b l' ∧ l.Moves l' := by
  cases call with
  | alloc size =>
    refine (keeps.alloc laid size).bind ?_
    intro r outcome
    rcases r with ⟨_ | c, m'⟩
    · obtain ⟨rfl, -⟩ := outcome
      exact .ok ⟨l, keeps, .stay l⟩
    · obtain ⟨o, i, free, -, after⟩ := outcome
      exact .ok ⟨l.take (block o i) free, after, .take l _ free⟩
  | free k =>
    simp only [run]
    cases at_k : s.held[k]? with
    | none => exact .ok ⟨l, keeps, .stay l⟩
    | some c =>
      obtain ⟨hk, frees⟩ := keeps.free laid at_k
      exact frees.bind fun m' after => .ok ⟨l.give k hk, after, .give l k hk⟩

/-- No call changes what is in service. -/
theorem KpmCall.run_keeps (laid : Laid b) {s : Session} {l : Ledger Nat} (keeps : s.Keeps b l)
    (call : KpmCall) :
    Returns (call.run b s) fun s' =>
      ∃ l' : Ledger Nat, s'.Keeps b l' ∧ l'.pool.enabled = l.pool.enabled := by
  refine (call.run_moves laid keeps).mono ?_
  intro s' moved
  obtain ⟨l', keeps', moves⟩ := moved
  exact ⟨l', keeps', moves.enabled⟩

/-- After any sequence of calls the session keeps the books of some ledger, with the same frames in
service. -/
theorem runAll_keeps (laid : Laid b) {s : Session} {l : Ledger Nat} (keeps : s.Keeps b l)
    (calls : List KpmCall) :
    Returns (runAll (KpmCall.run b) calls s) fun s' =>
      ∃ l' : Ledger Nat, s'.Keeps b l' ∧ l'.pool.enabled = l.pool.enabled := by
  refine runAll_returns
    (fun s : Session => ∃ l' : Ledger Nat, s.Keeps b l' ∧ l'.pool.enabled = l.pool.enabled)
    ⟨l, keeps, rfl⟩ ?_
  intro call _ s' kept
  obtain ⟨l', keeps', same⟩ := kept
  refine (call.run_keeps laid keeps').mono ?_
  intro s'' kept'
  obtain ⟨l'', keeps'', same'⟩ := kept'
  exact ⟨l'', keeps'', same'.trans same⟩

/-- A session that keeps the books of a ledger without reserved frames is exclusive. -/
theorem Session.Keeps.exclusive {img : KernelImage} {s : Session} {l : Ledger Nat}
    (keeps : s.Keeps b l) (unreserved : Disjoint l.pool.enabled (img.reservedFrames b)) :
    Exclusive img b s := by
  have serves : ∀ c ∈ s.held, c.frames ⊆ l.pool.enabled := by
    intro c mem
    refine l.in_service c.frames ?_
    rw [keeps.lots]
    exact List.mem_map_of_mem mem
  refine ⟨keeps.apart, fun c mem => (keeps.blocks c mem).natural,
    fun c mem => (keeps.blocks c mem).inside, fun c mem f sub => ?_, fun c mem => ?_⟩
  · have first : f * pageSize ∈ frameBytes f := by
      rw [frameBytes, Set.mem_Ico, pageSize]
      omega
    have frame : f ∈ c.frames := by
      have inFrame := (keeps.blocks c mem).mem_frames (sub first)
      rwa [pageSize, Nat.mul_div_cancel _ (by decide)] at inFrame
    have service := serves c mem frame
    rw [keeps.books.enabled f (keeps.books.bound f service)]
    exact decide_eq_true service
  · rw [Set.disjoint_left]
    intro x ofChunk ofReserved
    have service := serves c mem ((keeps.blocks c mem).mem_frames ofChunk)
    have bound := keeps.books.bound _ service
    refine Finset.disjoint_left.mp unreserved service ((img.mem_reservedFrames bound).mpr ?_)
    refine Set.not_disjoint_iff.mpr ⟨x, ?_, ofReserved⟩
    rw [frameBytes, Set.mem_Ico, pageSize]
    omega

/-! ## From boot on -/

/-- **Physical memory exclusivity.** After `kpm_init` on a table whose available entries start
inside memory and end below 4 GiB, every sequence of allocations and frees of held chunks runs to
its end, where the held chunks are exclusive. -/
theorem kpm_session_exclusive (img : KernelImage) (entries : List MmapEntry) (count memkb : Nat)
    (m : Mem) (calls : List KpmCall) (held : img.Held (kpmInitBuddy img.ek memkb))
    (ends : ∃ e ∈ entries, e.size = 0)
    (low : ∀ e ∈ availableEntries entries,
      e.addr.toNat ≤ kpmInitNframes memkb * pageSize ∧ e.addr.toNat + e.len.toNat < 2 ^ 32) :
    Returns (do
      let (b, m) ← kpmInit img entries count memkb m
      let s ← runAll (KpmCall.run b) calls { mem := m, held := [] }
      pure (b, s)) fun r =>
        r.1.nframes = kpmInitNframes memkb ∧ Exclusive img r.1 r.2 := by
  have fits : ∀ e ∈ availableEntries entries, e.Fits (kpmInitBuddy img.ek memkb) := by
    intro e mem _
    obtain ⟨start, stop⟩ := low e mem
    have base : e.base = e.addr.toNat := u32_of_lt (by omega)
    have limit : e.limit = e.len.toNat := u32_of_lt (by omega)
    rw [base, limit]
    exact ⟨start, by omega⟩
  refine (kpmInit_represents held ends fits).bind ?_
  intro r outcome
  obtain ⟨b, m⟩ := r
  obtain ⟨rfl, books⟩ := outcome
  have starts : Session.Keeps (kpmInitBuddy img.ek memkb) { mem := m, held := [] }
      (Ledger.start (bootPool img (kpmInitBuddy img.ek memkb) entries)) :=
    ⟨books, rfl, by simp⟩
  refine (runAll_keeps (laid_kpmInitBuddy _ _) starts calls).bind ?_
  intro s kept
  obtain ⟨l, keeps, same⟩ := kept
  refine .ok ⟨rfl, keeps.exclusive ?_⟩
  rw [same]
  exact Finset.sdiff_disjoint

/-- A machine with 16 MiB and the two available entries of a PC: low memory, and the memory above
1 MiB, of which the first two allocations take parts. -/
theorem kpm_session_exclusive_sixteen_mib :
    Returns (do
      let (b, m) ← kpmInit ⟨0xC0112345, by decide, by decide⟩
        [⟨20, 0x0, 0x9fc00, 1⟩, ⟨20, 0xf0000, 0x10000, 2⟩, ⟨20, 0x100000, 0xee0000, 1⟩, ⟨0, 0, 0, 0⟩]
        3 16384 (fun _ => 0#8)
      let s ← runAll (KpmCall.run b) [.alloc 5000, .alloc 0x400000, .free 1, .alloc 4096]
        { mem := m, held := [] }
      pure (b, s)) fun r =>
        r.1.nframes = kpmInitNframes 16384 ∧
          Exclusive ⟨0xC0112345, by decide, by decide⟩ r.1 r.2 := by
  refine kpm_session_exclusive _ _ _ _ _ _ ⟨by decide, by decide⟩ ⟨⟨0, 0, 0, 0⟩, by decide, rfl⟩ ?_
  decide

end Nulix.Kpm
