import Nulix.Kpm.Release

/-!
# What the bitmaps say about the holders

A session from a state of the tree opens its books on the pool of that state, and no call brings them
out of balance: at any time the pool is the one of the start less the frames of the chunks held
(`Balanced.represents`). So the bitmaps are a function of the frames held, whatever calls led there,
and `kpm_isalloc` tells of every address if a holder has it.
-/

namespace Nulix.Kpm

open Words Fallible OrTree

variable {b : Buddy} {m m' : Mem} {p : Pool Nat} {s s' : Session}

/-! ## Balanced sessions -/

/-- The session keeps the books of a ledger that was opened on `p`. -/
def Session.Balanced (b : Buddy) (p : Pool Nat) (s : Session) : Prop :=
  ∃ l, s.Keeps b l ∧ l.Balances p

theorem Session.Keeps.mem_out {l : Ledger Nat} (keeps : s.Keeps b l) {f : Nat} :
    f ∈ l.out ↔ f ∈ framesOf s.held := by
  rw [Ledger.mem_out, keeps.lots, mem_framesOf]
  simp

namespace Session.Balanced

theorem start (rep : Represents b m p) : Balanced b p { mem := m, held := [] } :=
  ⟨.start p, ⟨rep, rfl, by simp⟩, .start p⟩

theorem run (laid : Laid b) (balanced : s.Balanced b p) (call : KpmCall) :
    Returns (call.run b s) (Balanced b p) := by
  obtain ⟨l, keeps, balances⟩ := balanced
  refine (call.run_moves laid keeps).mono fun s' moved => ?_
  obtain ⟨l', keeps', moves⟩ := moved
  exact ⟨l', keeps', balances.moves moves⟩

theorem runAll (laid : Laid b) (balanced : s.Balanced b p) (calls : List KpmCall) :
    Returns (runAll (KpmCall.run b) calls s) (Balanced b p) :=
  runAll_returns _ balanced fun call _ _ balanced => balanced.run laid call

/-- The books are those of the start with the frames of the held chunks taken. -/
theorem represents (balanced : s.Balanced b p) : Represents b s.mem (p.take (framesOf s.held)) := by
  obtain ⟨l, keeps, balances⟩ := balanced
  have pool : l.pool = p.take (framesOf s.held) := by
    ext f
    · rw [balances.enabled]
      rfl
    · rw [balances.mem_free, keeps.mem_out]
      simp [Pool.take]
  exact pool ▸ keeps.books

/-- Held frames were free at the start. -/
theorem held_free (balanced : s.Balanced b p) {f : Nat} (held : f ∈ framesOf s.held) : f ∈ p.free := by
  obtain ⟨l, keeps, balances⟩ := balanced
  rw [balances.free, keeps.mem_out]
  exact .inr held

theorem apart (balanced : s.Balanced b p) :
    s.held.Pairwise fun c c' => Disjoint c.bytes c'.bytes := by
  obtain ⟨l, keeps, -⟩ := balanced
  exact keeps.apart

theorem blocks (balanced : s.Balanced b p) : ∀ c ∈ s.held, c.IsBlock b := by
  obtain ⟨l, keeps, -⟩ := balanced
  exact keeps.blocks

/-- The byte of a held frame lies in one chunk only. -/
theorem existsUnique (balanced : s.Balanced b p) {x : Nat} :
    (∃! c, c ∈ s.held ∧ x ∈ c.bytes) ↔ ∃ c ∈ s.held, x ∈ c.bytes := by
  refine ⟨fun ⟨c, here, _⟩ => ⟨c, here⟩, fun ⟨c, mem, inChunk⟩ => ?_⟩
  refine ⟨c, ⟨mem, inChunk⟩, ?_⟩
  rintro c' ⟨mem', inChunk'⟩
  by_contra other
  have symmetric : Std.Symm fun c c' : KpmChunk => Disjoint c.bytes c'.bytes := ⟨fun _ _ h => h.symm⟩
  have apart := balanced.apart.forall mem mem' (Ne.symm other)
  exact Set.disjoint_left.mp apart inChunk inChunk'

end Session.Balanced

/-- The frame of a byte is held if and only if the byte is. -/
theorem mem_framesOf_iff {cs : List KpmChunk} (blocks : ∀ c ∈ cs, c.IsBlock b) {x : Nat} :
    x / pageSize ∈ framesOf cs ↔ ∃ c ∈ cs, x ∈ c.bytes := by
  rw [mem_framesOf]
  refine exists_congr fun c => and_congr_right fun mem => ⟨fun frame => ?_, (blocks c mem).mem_frames⟩
  obtain ⟨o, i, -, -, rfl⟩ := blocks c mem
  rw [frames_block, block, Finset.mem_Ico, pageSize] at frame
  rw [KpmChunk.bytes, Set.mem_Ico]
  dsimp only
  rw [block_stop, block_start]
  omega

/-! ## Asking about an address -/

/-- **The allocator tells who holds memory.** From every state of the tree, after every sequence of
allocations and frees of held chunks, an address is enabled as it was at the start, and it is allocated if
it was so at the start or lies in a held chunk, which is then the only one. -/
theorem kpmIsalloc_session (ek memkb : Nat) {m : Mem} (inv : TreeInv (kpmInitBuddy ek memkb) m)
    (calls : List KpmCall) :
    Returns (runAll (KpmCall.run (kpmInitBuddy ek memkb)) calls { mem := m, held := [] }) fun s =>
      ∀ addr, addr < (kpmInitBuddy ek memkb).nframes * pageSize →
        kpmIsenabled (kpmInitBuddy ek memkb) addr s.mem =
          kpmIsenabled (kpmInitBuddy ek memkb) addr m ∧
        ∃ before after, kpmIsalloc (kpmInitBuddy ek memkb) addr m = .ok before ∧
          kpmIsalloc (kpmInitBuddy ek memkb) addr s.mem = .ok after ∧
          (after = true ↔ before = true ∨ ∃! c, c ∈ s.held ∧ addr ∈ c.bytes) := by
  have laid := laid_kpmInitBuddy ek memkb
  refine (Session.Balanced.runAll laid (.start inv.represents) calls).mono fun s balanced => ?_
  intro addr inside
  have frame : addr / pageSize < (kpmInitBuddy ek memkb).nframes :=
    Nat.div_lt_of_lt_mul (by rwa [Nat.mul_comm])
  have leaf : addr / pageSize < (kpmInitBuddy ek memkb).nframes / 2 ^ 0 := by simpa using frame
  have books := balanced.represents
  refine ⟨?_, _, _, kpmIsAllocated_shows laid (shows_bitsOf _ _) (by decide) leaf,
    kpmIsAllocated_shows laid (shows_bitsOf _ _) (by decide) leaf, ?_⟩
  · rw [kpmIsenabled, kpmIsenabled, kpmIsEnabled_shows (shows_bitsOf _ _) frame,
      kpmIsEnabled_shows (shows_bitsOf _ _) frame]
    exact congrArg Except.ok ((books.enabled _ frame).trans (inv.represents.enabled _ frame).symm)
  · rw [balanced.existsUnique, ← mem_framesOf_iff balanced.blocks]
    simp only [bitsOf, books.leaf frame, inv.represents.leaf frame, decide_eq_true_eq, Pool.take,
      Finset.mem_sdiff]
    rw [not_and_or, not_not]

/-- Two allocations on a machine with two pages in service, and a free of the first chunk. -/
theorem kpmIsalloc_session_two_pages : ∃ m, kpmIsalloc (kpmInitBuddy 0xC0101000 4096) 5000 m = .ok false ∧
    Returns (runAll (KpmCall.run (kpmInitBuddy 0xC0101000 4096)) [.alloc 4096, .alloc 1, .free 1]
      { mem := m, held := [] }) fun s =>
        ∀ addr, addr < (kpmInitBuddy 0xC0101000 4096).nframes * pageSize →
          kpmIsenabled (kpmInitBuddy 0xC0101000 4096) addr s.mem =
            kpmIsenabled (kpmInitBuddy 0xC0101000 4096) addr m ∧
          ∃ before after, kpmIsalloc (kpmInitBuddy 0xC0101000 4096) addr m = .ok before ∧
            kpmIsalloc (kpmInitBuddy 0xC0101000 4096) addr s.mem = .ok after ∧
            (after = true ↔ before = true ∨ ∃! c, c ∈ s.held ∧ addr ∈ c.bytes) := by
  obtain ⟨m, rep⟩ := exists_two_pages
  have nframes : (kpmInitBuddy 0xC0101000 4096).nframes = 1024 := by decide
  refine ⟨m, ?_, kpmIsalloc_session _ _ rep.treeInv _⟩
  rw [kpmIsalloc, kpmIsAllocated_shows (laid_kpmInitBuddy _ _) (shows_bitsOf _ _) (by decide)
    (by rw [nframes]; decide)]
  exact congrArg Except.ok ((rep.leaf (by rw [nframes]; decide)).trans (by decide))

/-! ## Sessions without a memory of their own -/

/-- One pool leaves one choice. -/
theorem Grants.unique {norders o i o' i' : Nat} {c c' : KpmChunk} (grants : Grants b p norders c o i)
    (grants' : Grants b p norders c' o' i') : o = o' ∧ i = i' := by
  have order : o = o' := by
    rcases lt_trichotomy o o' with lower | same | higher
    · exact absurd grants'.free (grants.highest o' lower grants'.order i' grants'.inside)
    · exact same
    · exact absurd grants.free (grants'.highest o higher grants.order i grants.inside)
  subst order
  refine ⟨rfl, ?_⟩
  rcases lt_trichotomy i i' with lower | same | higher
  · exact absurd grants.free (grants'.lowest i lower)
  · exact same
  · exact absurd grants'.free (grants.lowest i' higher)

/-- Two searches through one pool make the same choice. -/
theorem AllocOutcome.unique (rep : Represents b m p) (rep' : Represents b m' p) {norders : Nat}
    {r r' : Option KpmChunk × Mem} (left : AllocOutcome b m p norders r)
    (right : AllocOutcome b m' p norders r') :
    r.1 = r'.1 ∧ ∃ q, Represents b r.2 q ∧ Represents b r'.2 q := by
  rcases r with ⟨_ | c, n⟩ <;> rcases r' with ⟨_ | c', n'⟩
  · obtain ⟨rfl, -⟩ := left
    obtain ⟨rfl, -⟩ := right
    exact ⟨rfl, p, rep, rep'⟩
  · obtain ⟨o, i, grants, -⟩ := right
    exact absurd grants.free (left.2 o grants.order i grants.inside)
  · obtain ⟨o, i, grants, -⟩ := left
    exact absurd grants.free (right.2 o grants.order i grants.inside)
  · obtain ⟨o, i, grants, after⟩ := left
    obtain ⟨o', i', grants', after'⟩ := right
    obtain ⟨rfl, rfl⟩ := grants.unique grants'
    exact ⟨by rw [grants.chunk, grants'.chunk], _, after, after'⟩

theorem run_alloc {size : Nat} {r : Option KpmChunk × Mem}
    (returned : kpmAlloc b size s.mem = .ok r) :
    KpmCall.run b (.alloc size) s = .ok { mem := r.2, held := r.1.toList ++ s.held } := by
  show kpmAlloc b size s.mem >>= _ = _
  rw [returned]
  rfl

/-- Sessions with the same books go on alike. -/
theorem allocs_alike (laid : Laid b) (rep : Represents b s.mem p) (rep' : Represents b s'.mem p)
    (sizes : List Nat) :
    ∃ new t t', runAll (KpmCall.run b) (sizes.map .alloc) s = .ok t ∧
      runAll (KpmCall.run b) (sizes.map .alloc) s' = .ok t' ∧
      t.held = new ++ s.held ∧ t'.held = new ++ s'.held ∧ SameBitmaps b t.mem t'.mem := by
  induction sizes generalizing s s' p with
  | nil => exact ⟨[], s, s', rfl, rfl, rfl, rfl, rep.sameBitmaps rep'⟩
  | cons size sizes ih =>
    obtain ⟨r, first, outcome⟩ := kpmAlloc_outcome laid rep size
    obtain ⟨r', first', outcome'⟩ := kpmAlloc_outcome laid rep' size
    obtain ⟨same, q, after, after'⟩ := outcome.unique rep rep' outcome'
    have after : Represents b (Session.mk r.2 (r.1.toList ++ s.held)).mem q := after
    have after' : Represents b (Session.mk r'.2 (r'.1.toList ++ s'.held)).mem q := after'
    obtain ⟨new, t, t', rest, rest', held, held', bitmaps⟩ := ih after after'
    refine ⟨new ++ r.1.toList, t, t', ?_, ?_, ?_, ?_, bitmaps⟩
    · rw [List.map_cons, runAll, run_alloc first]
      exact rest
    · rw [List.map_cons, runAll, run_alloc first']
      exact rest'
    · rw [held, List.append_assoc]
    · rw [held', ← same, List.append_assoc]

/-- **The bitmaps have no history.** Two sequences of calls from one state of the tree that end with the
same frames held end with the same bitmaps, whatever was allocated and freed on the way, and from then
on every sequence of allocations gets the same chunks after both of them. -/
theorem kpm_history (ek memkb : Nat) {m : Mem} (inv : TreeInv (kpmInitBuddy ek memkb) m)
    (calls calls' : List KpmCall) {s s' : Session}
    (ran : runAll (KpmCall.run (kpmInitBuddy ek memkb)) calls { mem := m, held := [] } = .ok s)
    (ran' : runAll (KpmCall.run (kpmInitBuddy ek memkb)) calls' { mem := m, held := [] } = .ok s')
    (same : framesOf s.held = framesOf s'.held) (sizes : List Nat) :
    SameBitmaps (kpmInitBuddy ek memkb) s.mem s'.mem ∧
    ∃ new t t', runAll (KpmCall.run (kpmInitBuddy ek memkb)) (sizes.map .alloc) s = .ok t ∧
      runAll (KpmCall.run (kpmInitBuddy ek memkb)) (sizes.map .alloc) s' = .ok t' ∧
      t.held = new ++ s.held ∧ t'.held = new ++ s'.held ∧
      SameBitmaps (kpmInitBuddy ek memkb) t.mem t'.mem := by
  have laid := laid_kpmInitBuddy ek memkb
  have start := Session.Balanced.start inv.represents
  have books := ((start.runAll laid calls).of_eq_ok ran).represents
  have books' := ((start.runAll laid calls').of_eq_ok ran').represents
  rw [← same] at books'
  exact ⟨books.sameBitmaps books', allocs_alike laid books books' sizes⟩

/-- An allocation that was undone, and no call at all. -/
theorem kpm_history_two_pages : ∃ m s s',
    runAll (KpmCall.run (kpmInitBuddy 0xC0101000 4096)) [.alloc 5000, .free 0]
      { mem := m, held := [] } = .ok s ∧
    runAll (KpmCall.run (kpmInitBuddy 0xC0101000 4096)) [] { mem := m, held := [] } = .ok s' ∧
    SameBitmaps (kpmInitBuddy 0xC0101000 4096) s.mem s'.mem ∧
    ∃ new t t', runAll (KpmCall.run (kpmInitBuddy 0xC0101000 4096)) [.alloc 4096, .alloc 1] s = .ok t ∧
      runAll (KpmCall.run (kpmInitBuddy 0xC0101000 4096)) [.alloc 4096, .alloc 1] s' = .ok t' ∧
      t.held = new ++ s.held ∧ t'.held = new ++ s'.held ∧
      SameBitmaps (kpmInitBuddy 0xC0101000 4096) t.mem t'.mem := by
  obtain ⟨m, rep⟩ := exists_two_pages
  have laid := laid_kpmInitBuddy 0xC0101000 4096
  obtain ⟨s, ran, -⟩ := (Session.Balanced.start rep).runAll laid [.alloc 5000, .free 0]
  have empty : s.held = [] := by
    obtain ⟨s₁, first, rest⟩ := bind_eq_ok ran
    obtain ⟨s₂, second, last⟩ := bind_eq_ok rest
    obtain ⟨r, allocated, after⟩ := bind_eq_ok first
    cases last
    cases after
    rcases r with ⟨_ | c, m'⟩
    · cases second
      rfl
    · obtain ⟨m'', -, freed⟩ := bind_eq_ok second
      cases freed
      rfl
  exact ⟨m, s, _, ran, rfl, kpm_history _ _ rep.treeInv _ [] ran rfl (by rw [empty]) [4096, 1]⟩

/-! ## Running out of memory -/

theorem Session.Balanced.alloc (laid : Laid b) (balanced : s.Balanced b p) (size : Nat) :
    Returns (KpmCall.run b (.alloc size) s) fun s' => s'.Balanced b p ∧
      ((s'.held = s.held ∧ p.free ⊆ framesOf s.held) ∨ ∃ c, s'.held = c :: s.held) := by
  obtain ⟨l, keeps, balances⟩ := balanced
  obtain ⟨⟨chunk, m'⟩, returned, outcome⟩ := keeps.alloc laid size
  refine ⟨_, run_alloc returned, ?_⟩
  cases chunk with
  | none =>
    obtain ⟨rfl, exhausted⟩ := outcome
    refine ⟨⟨l, keeps, balances⟩, .inl ⟨rfl, fun f free => ?_⟩⟩
    rw [balances.free, exhausted, keeps.mem_out] at free
    exact free.resolve_left (Finset.notMem_empty f)
  | some c =>
    obtain ⟨o, i, free, -, after⟩ := outcome
    exact ⟨⟨_, after, balances.take free⟩, .inr ⟨c, rfl⟩⟩

/-- A sequence of allocations gets a chunk for every call, or all that was free. -/
theorem Session.Balanced.allocs (laid : Laid b) (balanced : s.Balanced b p) (sizes : List Nat) :
    Returns (Fallible.runAll (KpmCall.run b) (sizes.map .alloc) s) fun t => t.Balanced b p ∧
      ∃ new, t.held = new ++ s.held ∧
        (new.length < sizes.length → p.free ⊆ framesOf t.held) := by
  induction sizes generalizing s with
  | nil => exact .ok ⟨balanced, [], rfl, fun fewer => absurd fewer (Nat.lt_irrefl 0)⟩
  | cons size sizes ih =>
    refine (balanced.alloc laid size).bind fun s₁ first => ?_
    obtain ⟨balanced₁, outcome⟩ := first
    refine (ih balanced₁).mono fun t rest => ?_
    obtain ⟨balanced', new, held, exhausted⟩ := rest
    refine ⟨balanced', ?_⟩
    rcases outcome with ⟨same, all⟩ | ⟨c, more⟩
    · refine ⟨new, by rw [held, same], fun _ f free => ?_⟩
      obtain ⟨c, mem, frame⟩ := mem_framesOf.mp (all free)
      refine mem_framesOf.mpr ⟨c, ?_, frame⟩
      rw [held, same]
      exact List.mem_append_right new mem
    · refine ⟨new ++ [c], by rw [held, more, List.append_assoc]; rfl, fun fewer => exhausted ?_⟩
      rw [List.length_append] at fewer
      exact Nat.lt_of_succ_lt_succ fewer

/-- Every chunk takes a frame that was free at the start. -/
theorem Session.Balanced.length_le (balanced : s.Balanced b p) : s.held.length ≤ p.free.card := by
  obtain ⟨l, keeps, balances⟩ := balanced
  have total := balances.card
  have each : ∀ n ∈ l.held.map Finset.card, 1 ≤ n := by
    rw [keeps.lots]
    simp only [List.mem_map, forall_exists_index, and_imp, forall_apply_eq_imp_iff₂]
    intro c mem
    obtain ⟨o, i, -, -, rfl⟩ := keeps.blocks c mem
    rw [frames_block, card_block]
    exact Nat.one_le_two_pow
  have count := List.length_le_sum_of_one_le _ each
  rw [List.length_map, keeps.lots, List.length_map] at count
  rw [keeps.lots] at total
  omega

/-- **Running out of memory.** From every state of the tree, after every session, a sequence of
allocations of any sizes runs to its end. No more chunks are held then than frames were free at the
start; and if one of the allocations failed, every byte that was free at the start lies in exactly one
held chunk. -/
theorem kpm_exhausts (ek memkb : Nat) {m : Mem} (inv : TreeInv (kpmInitBuddy ek memkb) m)
    (calls : List KpmCall) (sizes : List Nat) :
    Returns (do
      let s ← runAll (KpmCall.run (kpmInitBuddy ek memkb)) calls { mem := m, held := [] }
      let t ← runAll (KpmCall.run (kpmInitBuddy ek memkb)) (sizes.map .alloc) s
      pure (s, t)) fun r =>
        r.2.held.length ≤ inv.pool.free.card ∧
        ∃ new, r.2.held = new ++ r.1.held ∧ (new.length < sizes.length →
          ∀ x, kpmIsalloc (kpmInitBuddy ek memkb) x m = .ok false →
            ∃! c, c ∈ r.2.held ∧ x ∈ c.bytes) := by
  have laid := laid_kpmInitBuddy ek memkb
  refine (Session.Balanced.runAll laid (.start inv.represents) calls).bind fun s balanced => ?_
  refine (balanced.allocs laid sizes).bind fun t after => ?_
  obtain ⟨balanced', new, held, exhausted⟩ := after
  refine .ok ⟨balanced'.length_le, new, held, fun fewer x clear => ?_⟩
  rw [balanced'.existsUnique, ← mem_framesOf_iff balanced'.blocks]
  refine exhausted fewer ?_
  rw [kpmIsalloc, kpmIsAllocated, Buddy.orderAccess] at clear
  split at clear
  · rename_i frame
    rw [pow_zero, Nat.div_one] at frame
    injection clear with clear
    rw [inv.represents.leaf frame] at clear
    simpa using clear
  · cases clear

/-- Three allocations where two pages are free. -/
theorem kpm_exhausts_two_pages : ∃ m, ∃ inv : TreeInv (kpmInitBuddy 0xC0101000 4096) m,
    inv.pool.free = {0, 1} ∧
    Returns (do
      let s ← runAll (KpmCall.run (kpmInitBuddy 0xC0101000 4096)) [.alloc 9000, .free 0]
        { mem := m, held := [] }
      let t ← runAll (KpmCall.run (kpmInitBuddy 0xC0101000 4096))
        ([1, 4096, 2].map .alloc) s
      pure (s, t)) fun r =>
        r.2.held.length ≤ inv.pool.free.card ∧
        ∃ new, r.2.held = new ++ r.1.held ∧ (new.length < [1, 4096, 2].length →
          ∀ x, kpmIsalloc (kpmInitBuddy 0xC0101000 4096) x m = .ok false →
            ∃! c, c ∈ r.2.held ∧ x ∈ c.bytes) := by
  obtain ⟨m, rep⟩ := exists_two_pages
  exact ⟨m, rep.treeInv, congrArg Pool.free (rep.treeInv.represents.unique rep),
    kpm_exhausts _ _ rep.treeInv [.alloc 9000, .free 0] [1, 4096, 2]⟩

end Nulix.Kpm
