import Nulix.Kpm.Exclusive

/-!
# Freeing regions

Freeing a page-aligned region returns its frames to the pool, and returning frames is a union: a
region can be freed twice, or in pieces and in any order, and the bitmaps come out the same. What
`kpm_free` does not do is to look whether the region lies in memory; `kpmFree_inBitmaps_iff` says for
which arguments it stays inside its bitmaps.
-/

namespace Nulix.Kpm

open Words Fallible OrTree

namespace KpmChunk

def PageAligned (c : KpmChunk) : Prop := c.addr % pageSize = 0 ∧ c.size % pageSize = 0

def Inside (b : Buddy) (c : KpmChunk) : Prop := c.addr + c.size ≤ b.nframes * pageSize

theorem mem_frames {c : KpmChunk} (aligned : c.PageAligned) {f : Nat} :
    f ∈ c.frames ↔ f * pageSize ∈ c.bytes := by
  obtain ⟨addr, size⟩ := aligned
  rw [frames, bytes, Finset.mem_Ico, Set.mem_Ico]
  rw [pageSize] at *
  omega

end KpmChunk

/-- The pieces are page-aligned regions that make up the region, without overlap. -/
structure Partition (c : KpmChunk) (pieces : List KpmChunk) : Prop where
  aligned : ∀ piece ∈ pieces, piece.PageAligned
  within : ∀ piece ∈ pieces, c.addr ≤ piece.addr ∧ piece.addr + piece.size ≤ c.addr + c.size
  apart : pieces.Pairwise fun piece piece' => Disjoint piece.bytes piece'.bytes
  whole : ∀ x, x ∈ c.bytes ↔ ∃ piece ∈ pieces, x ∈ piece.bytes

/-- The enabled bitmap and the bitmaps of all orders hold the same bits in both memories. -/
structure SameBitmaps (b : Buddy) (m m' : Mem) : Prop where
  enabled : ∀ f, f < b.nframes → b.enabled f m' = b.enabled f m
  orders : ∀ n, n < kpmNorders → ∀ i, i < 8 * (b.orders n).size →
    b.allocated n i m' = b.allocated n i m

variable {b : Buddy} {m m' : Mem} {p : Pool Nat}

theorem Represents.sameBitmaps (left : Represents b m p) (right : Represents b m' p) :
    SameBitmaps b m m' :=
  ⟨(left.same_bits right).1, (left.same_bits right).2⟩

/-! ## Regions and their pieces -/

theorem kpmFree_frames (laid : Laid b) (rep : Represents b m p) {c : KpmChunk}
    (aligned : c.PageAligned) (inside : c.Inside b) :
    Returns (kpmFree b c m) fun m' => Represents b m' (p.release c.frames) := by
  obtain ⟨addr, size⟩ := aligned
  rw [pageSize] at addr size
  have frames : c.frames =
      Finset.Ico (c.addr / 4096) (c.addr / 4096 + (c.size + 4095) / 4096) := by
    rw [KpmChunk.frames]
    congr 1
    omega
  rw [frames]
  exact kpmFree_represents laid rep addr inside

/-- The frames of several regions. -/
def framesOf : List KpmChunk → Finset Nat
  | [] => ∅
  | c :: cs => c.frames ∪ framesOf cs

theorem mem_framesOf {cs : List KpmChunk} {f : Nat} :
    f ∈ framesOf cs ↔ ∃ c ∈ cs, f ∈ c.frames := by
  induction cs with
  | nil => simp [framesOf]
  | cons c cs ih => simp [framesOf, ih]

/-- Freeing regions one after the other returns the frames of all of them. -/
theorem kpmFree_all (laid : Laid b) {cs : List KpmChunk} (rep : Represents b m p)
    (regions : ∀ c ∈ cs, c.PageAligned ∧ c.Inside b) :
    Returns (runAll (kpmFree b) cs m) fun m' => Represents b m' (p.release (framesOf cs)) := by
  induction cs generalizing m p with
  | nil =>
    rw [framesOf, Pool.release_empty]
    exact .ok rep
  | cons c cs ih =>
    obtain ⟨aligned, inside⟩ := regions c List.mem_cons_self
    refine (kpmFree_frames laid rep aligned inside).bind fun m' after => ?_
    rw [framesOf, ← Pool.release_release]
    exact ih after fun d mem => regions d (List.mem_cons_of_mem c mem)

namespace Partition

variable {c : KpmChunk} {pieces : List KpmChunk}

theorem framesOf_eq (part : Partition c pieces) (aligned : c.PageAligned) :
    framesOf pieces = c.frames := by
  ext f
  rw [mem_framesOf, KpmChunk.mem_frames aligned, part.whole]
  refine exists_congr fun piece => and_congr_right fun mem => ?_
  exact KpmChunk.mem_frames (part.aligned piece mem)

end Partition

/-- **Freeing is a union.** Freeing a page-aligned region of memory clears the leaves of its enabled
frames and no other bit of order 0, keeps the tree, can be repeated, and comes to the same as freeing
the pieces of the region in any order. -/
theorem kpmFree_additive (ek memkb : Nat) {m : Mem} {c : KpmChunk}
    (inv : TreeInv (kpmInitBuddy ek memkb) m) (aligned : c.PageAligned)
    (inside : c.Inside (kpmInitBuddy ek memkb)) :
    Returns (kpmFree (kpmInitBuddy ek memkb) c m) fun m' =>
      (∀ f, f < (kpmInitBuddy ek memkb).nframes →
        (kpmInitBuddy ek memkb).allocated 0 f m' =
          if f ∈ c.frames ∧ (kpmInitBuddy ek memkb).enabled f m = true then false
          else (kpmInitBuddy ek memkb).allocated 0 f m) ∧
      (∀ f, f < (kpmInitBuddy ek memkb).nframes →
        (kpmInitBuddy ek memkb).enabled f m' = (kpmInitBuddy ek memkb).enabled f m) ∧
      TreeInv (kpmInitBuddy ek memkb) m' ∧
      Returns (kpmFree (kpmInitBuddy ek memkb) c m') (SameBitmaps (kpmInitBuddy ek memkb) m') ∧
      ∀ pieces, Partition c pieces →
        Returns (runAll (kpmFree (kpmInitBuddy ek memkb)) pieces m)
          (SameBitmaps (kpmInitBuddy ek memkb) m') := by
  have laid : Laid (kpmInitBuddy ek memkb) := laid_kpmInitBuddy ek memkb
  generalize kpmInitBuddy ek memkb = b at inv inside laid ⊢
  have rep := inv.represents
  refine (kpmFree_frames laid rep aligned inside).mono fun m' after => ?_
  refine ⟨fun f hf => ?_, fun f hf => ?_, after.treeInv, ?_, fun pieces part => ?_⟩
  · rw [after.leaf hf, rep.leaf hf, rep.enabled f hf]
    by_cases freed : f ∈ c.frames ∧ f ∈ inv.pool.enabled
    · simp [Pool.release, freed]
    · have outside : f ∉ c.frames ∩ inv.pool.enabled := by rwa [Finset.mem_inter]
      simp [Pool.release, outside, freed]
  · rw [after.enabled f hf, rep.enabled f hf, Pool.enabled_release]
  · refine (kpmFree_frames laid after aligned inside).mono fun m'' again => ?_
    rw [Pool.release_release, Finset.union_self] at again
    exact after.sameBitmaps again
  · have regions : ∀ piece ∈ pieces, piece.PageAligned ∧ piece.Inside b := by
      intro piece mem
      refine ⟨part.aligned piece mem, ?_⟩
      exact (part.within piece mem).2.trans inside
    refine (kpmFree_all laid rep regions).mono fun m'' piecewise => ?_
    rw [part.framesOf_eq aligned] at piecewise
    exact after.sameBitmaps piecewise

/-- An allocation of both pages leaves them in service and allocated. -/
theorem exists_two_held :
    ∃ m, Represents (kpmInitBuddy 0xC0101000 4096) m ⟨{0, 1}, ∅, Finset.empty_subset _⟩ := by
  have nframes : (kpmInitBuddy 0xC0101000 4096).nframes = 1024 := by decide
  obtain ⟨m, rep⟩ := exists_two_pages
  obtain ⟨⟨r, m'⟩, -, outcome⟩ := kpmAlloc_outcome (laid_kpmInitBuddy _ _) rep 8192
  have order : findBestFitOrder 8192 + 1 = 2 := by decide
  have pair : block 1 0 = {0, 1} := by decide
  have inside : 0 < (kpmInitBuddy 0xC0101000 4096).nframes / 2 ^ 1 := by
    rw [nframes]
    decide
  rw [order] at outcome
  cases r with
  | none => exact absurd pair.le (outcome.2 1 (by decide) 0 inside)
  | some c =>
    obtain ⟨o, i, grants, taken⟩ := outcome
    have highest : o = 1 := by
      by_contra other
      exact grants.highest 1 (by have := grants.order; omega) (by decide) 0 inside pair.le
    subst highest
    have lowest : i = 0 := by
      by_contra later
      exact grants.lowest 0 (Nat.pos_of_ne_zero later) pair.le
    subst lowest
    refine ⟨m', ?_⟩
    simpa only [Pool.take, pair, Finset.sdiff_self] using taken

/-- Two pages in service and allocated, freed whole and in two pieces. -/
theorem kpmFree_additive_two_held : ∃ m,
    Represents (kpmInitBuddy 0xC0101000 4096) m ⟨{0, 1}, ∅, Finset.empty_subset _⟩ ∧
    Partition ⟨0, 0x2000⟩ [⟨0x1000, 0x1000⟩, ⟨0, 0x1000⟩] ∧
    Returns (kpmFree (kpmInitBuddy 0xC0101000 4096) ⟨0, 0x2000⟩ m) fun m' =>
      (∀ f, f < (kpmInitBuddy 0xC0101000 4096).nframes →
        (kpmInitBuddy 0xC0101000 4096).allocated 0 f m' =
          if f ∈ KpmChunk.frames ⟨0, 0x2000⟩ ∧
              (kpmInitBuddy 0xC0101000 4096).enabled f m = true then false
          else (kpmInitBuddy 0xC0101000 4096).allocated 0 f m) ∧
      (∀ f, f < (kpmInitBuddy 0xC0101000 4096).nframes →
        (kpmInitBuddy 0xC0101000 4096).enabled f m' =
          (kpmInitBuddy 0xC0101000 4096).enabled f m) ∧
      TreeInv (kpmInitBuddy 0xC0101000 4096) m' ∧
      Returns (kpmFree (kpmInitBuddy 0xC0101000 4096) ⟨0, 0x2000⟩ m')
        (SameBitmaps (kpmInitBuddy 0xC0101000 4096) m') ∧
      ∀ pieces, Partition ⟨0, 0x2000⟩ pieces →
        Returns (runAll (kpmFree (kpmInitBuddy 0xC0101000 4096)) pieces m)
          (SameBitmaps (kpmInitBuddy 0xC0101000 4096) m') := by
  have nframes : (kpmInitBuddy 0xC0101000 4096).nframes = 1024 := by decide
  have inside : KpmChunk.Inside (kpmInitBuddy 0xC0101000 4096) ⟨0, 0x2000⟩ := by
    rw [KpmChunk.Inside, nframes]
    decide
  obtain ⟨m, rep⟩ := exists_two_held
  refine ⟨m, rep, ⟨?_, ?_, ?_, fun x => ?_⟩,
    kpmFree_additive 0xC0101000 4096 rep.treeInv ⟨rfl, rfl⟩ inside⟩
  · simp [KpmChunk.PageAligned, pageSize]
  · simp
  · simp [KpmChunk.bytes]
  · simp only [KpmChunk.bytes, List.mem_cons, List.not_mem_nil, or_false, exists_eq_or_imp,
      exists_eq_left, Set.mem_Ico]
    omega

end Nulix.Kpm
