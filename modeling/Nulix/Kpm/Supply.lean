import Nulix.Kpm.Books
import Nulix.Kpm.Ranges

/-!
# The allocator as functions on pools

What the calls of the allocator do, computed on the pool that the bitmaps represent. An allocation picks its
block by looking at the free frames alone, so that the pool decides everything that is handed out after it.
-/

namespace Nulix.Kpm

open Words Fallible OrTree

/-! ## Allocating -/

/-- The block that an allocation takes from the orders below `norders`: its order and its index. -/
def pick (nframes : Nat) (p : Pool Nat) : Nat → Option (Nat × Nat)
  | 0 => none
  | o + 1 =>
    match (List.range (nframes / 2 ^ o)).find? fun i => block o i ⊆ p.free with
    | some i => some (o, i)
    | none => pick nframes p o

/-- The pool after so many turns of `alloc_loop` for `size` bytes. -/
def obtain (nframes : Nat) : Nat → Nat → Pool Nat → Pool Nat
  | 0, _, p => p
  | turns + 1, size, p =>
    if size = 0 then p
    else
      match pick nframes p (findBestFitOrder size + 1) with
      | none => p
      | some (o, i) =>
        if size ≤ blockSize o then p.take (block o i)
        else obtain nframes turns (size - blockSize o) (p.take (block o i))

variable {b : Buddy} {m : Mem} {p : Pool Nat}

/-- Where `pick` has a block, it is the one that the allocator takes. -/
theorem pick_some {norders o i : Nat} (picked : pick b.nframes p norders = some (o, i)) :
    Grants b p norders { addr := i * blockSize o, size := blockSize o } o i := by
  induction norders with
  | zero => cases picked
  | succ n ih =>
    unfold pick at picked
    cases found : (List.range (b.nframes / 2 ^ n)).find? fun i => block n i ⊆ p.free with
    | some j =>
      rw [found] at picked
      obtain ⟨rfl, rfl⟩ : n = o ∧ j = i := by simpa using picked
      rw [List.find?_range_eq_some] at found
      obtain ⟨free, inside, lowest⟩ := found
      refine ⟨Nat.lt_succ_self n, by simpa using inside, by simpa using free, rfl, ?_, ?_⟩
      · intro o' above below
        omega
      · intro i' earlier
        simpa using lowest i' earlier
    | none =>
      rw [found] at picked
      rw [List.find?_range_eq_none] at found
      have grants := ih picked
      refine { grants with order := Nat.lt_succ_of_lt grants.order, highest := ?_ }
      intro o' above below i' inside
      rcases Nat.lt_succ_iff_lt_or_eq.mp below with lower | rfl
      · exact grants.highest o' above lower i' inside
      · simpa using found i' inside

theorem pick_none {norders : Nat} (none : pick b.nframes p norders = none) :
    ∀ o, o < norders → ∀ i, i < b.nframes / 2 ^ o → ¬block o i ⊆ p.free := by
  induction norders with
  | zero => exact fun o below => absurd below (Nat.not_lt_zero o)
  | succ n ih =>
    unfold pick at none
    cases found : (List.range (b.nframes / 2 ^ n)).find? fun i => block n i ⊆ p.free with
    | some j =>
      rw [found] at none
      cases none
    | none =>
      rw [found] at none
      rw [List.find?_range_eq_none] at found
      intro o below i inside
      rcases Nat.lt_succ_iff_lt_or_eq.mp below with lower | rfl
      · exact ih none o lower i inside
      · simpa using found i inside

/-- What `kpm_alloc` returns and leaves, by the choice of `pick`. -/
def Picks (b : Buddy) (m : Mem) (p : Pool Nat) (norders : Nat) (r : Option KpmChunk × Mem) : Prop :=
  match pick b.nframes p norders with
  | none => r = (none, m)
  | some (o, i) => r.1 = some { addr := i * blockSize o, size := blockSize o } ∧
      Represents b r.2 (p.take (block o i))

theorem AllocOutcome.picks {norders : Nat} {r : Option KpmChunk × Mem}
    (outcome : AllocOutcome b m p norders r) : Picks b m p norders r := by
  unfold Picks
  cases picked : pick b.nframes p norders with
  | none =>
    rcases r with ⟨_ | c, m'⟩
    · rw [outcome.1]
    · obtain ⟨o, i, grants, -⟩ := outcome
      exact absurd grants.free (pick_none picked o grants.order i grants.inside)
  | some oi =>
    obtain ⟨o, i⟩ := oi
    have grants := pick_some picked
    rcases r with ⟨_ | c, m'⟩
    · exact absurd grants.free (outcome.2 o grants.order i grants.inside)
    · obtain ⟨o', i', grants', after⟩ := outcome
      obtain ⟨rfl, rfl⟩ := grants.unique grants'
      exact ⟨congrArg some grants'.chunk, after⟩

/-! ## Freeing -/

/-- The pool after `kpm_free` of a chunk that it gets through. -/
def freed (p : Pool Nat) (c : KpmChunk) : Pool Nat :=
  if c.addr % pageSize = 0 then
    p.release (Finset.Ico (c.addr / pageSize) (c.addr / pageSize + (c.size + (pageSize - 1)) / pageSize))
  else p

/-- `kpm_free` has nothing to do, or the chunk lies in memory. -/
def Freeable (b : Buddy) (c : KpmChunk) : Prop :=
  c.addr % pageSize ≠ 0 ∨ c.size = 0 ∨ c.Inside b

theorem kpmFree_freed (laid : Laid b) (rep : Represents b m p) {c : KpmChunk} (word : c.addr < 2 ^ 32)
    (freeable : Freeable b c) : Returns (kpmFree b c m) fun m' => Represents b m' (freed p c) := by
  obtain ⟨addr, size⟩ := c
  by_cases aligned : addr % pageSize = 0
  · rcases freeable with unaligned | none | inside
    · exact absurd aligned unaligned
    · cases none
      refine ⟨m, kpmFree_empty word aligned m, ?_⟩
      rw [freed, if_pos aligned]
      simpa [pageSize, Pool.release_empty] using rep
    · rw [freed, if_pos aligned]
      exact kpmFree_represents laid rep aligned inside
  · refine ⟨m, kpmFree_unaligned word aligned m, ?_⟩
    rw [freed, if_neg aligned]
    exact rep

theorem not_freeable {c : KpmChunk} (word : c.addr < 2 ^ 32) (size : c.size + 4095 < 2 ^ 32)
    (stops : ¬Freeable b c) (m : Mem) : ∃ f, kpmFree b c m = .error f := by
  obtain ⟨aligned, some, overruns⟩ : c.addr % pageSize = 0 ∧ c.size ≠ 0 ∧ ¬c.Inside b := by
    simpa [Freeable] using stops
  obtain ⟨f, fails⟩ := kpmFree_overruns word size aligned (Nat.pos_of_ne_zero some) overruns m
  exact ⟨_, fails⟩

end Nulix.Kpm
