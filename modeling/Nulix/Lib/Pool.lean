import Mathlib.Algebra.GroupWithZero.Nat
import Mathlib.Data.Finset.Card
import Mathlib.Data.Finset.SDiff
import Mathlib.Data.List.Pairwise

/-!
# Pools of exclusive resources

What an allocator of indivisible resources is for, apart from how it keeps its books. A `Pool` has
a set of resources that may be handed out and the part of it that is not handed out at present. A
`Ledger` adds the lots handed out and not yet returned, with the exclusivity of the lots as a
field: no resource is in two of them, none is free while it is in one. Taking a free lot and giving
a held one back are operations on ledgers, so exclusivity is kept over any sequence of them.
-/

variable {F : Type} [DecidableEq F]

/-- The resources in service and those of them that are free. -/
@[ext] structure Pool (F : Type) [DecidableEq F] where
  enabled : Finset F
  free : Finset F
  free_sub : free ⊆ enabled

namespace Pool

/-- Put `lot` into service, free. -/
def enable (p : Pool F) (lot : Finset F) : Pool F where
  enabled := p.enabled ∪ lot
  free := p.free ∪ lot
  free_sub := Finset.union_subset_union_left p.free_sub

/-- Take `lot` out of service. -/
def disable (p : Pool F) (lot : Finset F) : Pool F where
  enabled := p.enabled \ lot
  free := p.free \ lot
  free_sub := Finset.sdiff_subset_sdiff p.free_sub (Finset.Subset.refl lot)

/-- Hand out `lot`. -/
def take (p : Pool F) (lot : Finset F) : Pool F where
  enabled := p.enabled
  free := p.free \ lot
  free_sub := Finset.sdiff_subset.trans p.free_sub

/-- Return the resources of `lot` that are in service. -/
def release (p : Pool F) (lot : Finset F) : Pool F where
  enabled := p.enabled
  free := p.free ∪ (lot ∩ p.enabled)
  free_sub := Finset.union_subset p.free_sub Finset.inter_subset_right

variable {p : Pool F} {lot lot' : Finset F}

@[simp] theorem enabled_release : (p.release lot).enabled = p.enabled := rfl

@[simp] theorem enable_empty (p : Pool F) : p.enable ∅ = p := by
  simp [enable]

theorem enable_enable (p : Pool F) (lot lot' : Finset F) :
    (p.enable lot).enable lot' = p.enable (lot ∪ lot') := by
  simp [enable, Finset.union_assoc]

theorem disable_disable (p : Pool F) (lot lot' : Finset F) :
    (p.disable lot).disable lot' = p.disable (lot ∪ lot') := by
  simp [disable, sdiff_sdiff_left]

/-- Returning a lot that was free before it was taken restores the pool. -/
theorem release_take (sub : lot ⊆ p.free) : (p.take lot).release lot = p := by
  ext f
  · rfl
  · simp only [release, take, Finset.mem_union, Finset.mem_sdiff, Finset.mem_inter]
    have := @sub f
    have := @p.free_sub f
    tauto

theorem release_empty (p : Pool F) : p.release ∅ = p := by
  simp [release]

/-- Lots can be returned one after the other, in any order. -/
theorem release_release (p : Pool F) (lot lot' : Finset F) :
    (p.release lot).release lot' = p.release (lot ∪ lot') := by
  simp only [release, Pool.mk.injEq, true_and]
  rw [Finset.union_assoc, Finset.union_inter_distrib_right]

theorem card_free_take (sub : lot ⊆ p.free) :
    (p.take lot).free.card = p.free.card - lot.card :=
  Finset.card_sdiff_of_subset sub

end Pool

/-- A pool together with the lots handed out from it. -/
structure Ledger (F : Type) [DecidableEq F] where
  pool : Pool F
  held : List (Finset F)
  apart : held.Pairwise Disjoint
  in_service : ∀ lot ∈ held, lot ⊆ pool.enabled
  not_free : ∀ lot ∈ held, Disjoint lot pool.free

namespace Ledger

/-- The ledger before anything is handed out. -/
def start (p : Pool F) : Ledger F where
  pool := p
  held := []
  apart := .nil
  in_service := by simp
  not_free := by simp

/-- Hand out a lot all of whose resources are free. -/
def take (l : Ledger F) (lot : Finset F) (sub : lot ⊆ l.pool.free) : Ledger F where
  pool := l.pool.take lot
  held := lot :: l.held
  apart := List.pairwise_cons.mpr
    ⟨fun other mem => (Finset.disjoint_of_subset_right sub (l.not_free other mem)).symm, l.apart⟩
  in_service := by
    intro other mem
    rcases List.mem_cons.mp mem with rfl | mem
    · exact sub.trans l.pool.free_sub
    · exact l.in_service other mem
  not_free := by
    intro other mem
    rcases List.mem_cons.mp mem with rfl | mem
    · exact Finset.disjoint_sdiff
    · exact Finset.disjoint_of_subset_right Finset.sdiff_subset (l.not_free other mem)

/-- Give back the lot at position `k` of the held ones. -/
def give (l : Ledger F) (k : Nat) (hk : k < l.held.length) : Ledger F where
  pool := l.pool.release l.held[k]
  held := l.held.eraseIdx k
  apart := l.apart.sublist (List.eraseIdx_sublist _ _)
  in_service := fun other mem => l.in_service other (List.mem_of_mem_eraseIdx mem)
  not_free := by
    intro other mem
    have kept : Disjoint other l.pool.free := l.not_free other (List.mem_of_mem_eraseIdx mem)
    have separate : Disjoint other l.held[k] := by
      obtain ⟨j, hj, hne, rfl⟩ := List.mem_eraseIdx_iff_getElem.mp mem
      rcases Nat.lt_or_gt_of_ne hne with before | after
      · exact List.pairwise_iff_getElem.mp l.apart j k hj hk before
      · exact (List.pairwise_iff_getElem.mp l.apart k j hk hj after).symm
    exact Finset.disjoint_union_right.mpr
      ⟨kept, Finset.disjoint_of_subset_right Finset.inter_subset_left separate⟩

/-- One operation, or none. -/
inductive Moves : Ledger F → Ledger F → Prop
  | stay (l : Ledger F) : Moves l l
  | take (l : Ledger F) (lot : Finset F) (sub : lot ⊆ l.pool.free) : Moves l (l.take lot sub)
  | give (l : Ledger F) (k : Nat) (hk : k < l.held.length) : Moves l (l.give k hk)

theorem Moves.enabled {l l' : Ledger F} (moves : Moves l l') :
    l'.pool.enabled = l.pool.enabled := by
  cases moves <;> rfl

/-! ## Balance -/

/-- The resources handed out. -/
def out (l : Ledger F) : Finset F := l.held.foldr (· ∪ ·) ∅

theorem mem_foldr_union {lots : List (Finset F)} {f : F} :
    f ∈ lots.foldr (· ∪ ·) ∅ ↔ ∃ lot ∈ lots, f ∈ lot := by
  induction lots with
  | nil => simp
  | cons lot lots ih => simp [ih]

theorem mem_out {l : Ledger F} {f : F} : f ∈ l.out ↔ ∃ lot ∈ l.held, f ∈ lot := mem_foldr_union

theorem out_disjoint_free (l : Ledger F) : Disjoint l.out l.pool.free := by
  rw [Finset.disjoint_left]
  intro f out
  obtain ⟨lot, mem, inLot⟩ := mem_out.mp out
  exact Finset.disjoint_left.mp (l.not_free lot mem) inLot

theorem card_foldr_union {lots : List (Finset F)} (apart : lots.Pairwise Disjoint) :
    (lots.foldr (· ∪ ·) ∅).card = (lots.map Finset.card).sum := by
  induction lots with
  | nil => rfl
  | cons lot lots ih =>
    obtain ⟨first, rest⟩ := List.pairwise_cons.mp apart
    have separate : Disjoint lot (lots.foldr (· ∪ ·) ∅) := by
      rw [Finset.disjoint_left]
      intro f inLot later
      obtain ⟨lot', mem, inLot'⟩ := mem_foldr_union.mp later
      exact Finset.disjoint_left.mp (first lot' mem) inLot inLot'
    rw [List.foldr_cons, Finset.card_union_of_disjoint separate, ih rest, List.map_cons,
      List.sum_cons]

/-- Lots are disjoint, so their sizes add up. -/
theorem card_out (l : Ledger F) : l.out.card = (l.held.map Finset.card).sum :=
  card_foldr_union l.apart

/-- The books balance against the pool `p` that they were opened on: what was free then is free or
handed out. -/
structure Balances (p : Pool F) (l : Ledger F) : Prop where
  enabled : l.pool.enabled = p.enabled
  free : ∀ f, f ∈ p.free ↔ f ∈ l.pool.free ∨ f ∈ l.out

namespace Balances

variable {p : Pool F} {l l' : Ledger F}

theorem start (p : Pool F) : Balances p (Ledger.start p) :=
  ⟨rfl, fun f => by simp [Ledger.start, out]⟩

theorem take (balances : Balances p l) {lot : Finset F} (sub : lot ⊆ l.pool.free) :
    Balances p (l.take lot sub) := by
  refine ⟨balances.enabled, fun f => ?_⟩
  have fromFree : f ∈ lot → f ∈ l.pool.free := fun inLot => sub inLot
  simp only [balances.free, mem_out, Ledger.take, Pool.take, Finset.mem_sdiff, List.mem_cons,
    exists_eq_or_imp]
  tauto

theorem give (balances : Balances p l) {k : Nat} (hk : k < l.held.length) :
    Balances p (l.give k hk) := by
  refine ⟨balances.enabled, fun f => ?_⟩
  have served : f ∈ l.held[k] → f ∈ l.pool.enabled :=
    fun inLot => l.in_service _ (List.getElem_mem hk) inLot
  have split : f ∈ l.out ↔ f ∈ l.held[k] ∨ f ∈ (l.give k hk).out := by
    rw [mem_out, mem_out]
    constructor
    · rintro ⟨lot, mem, inLot⟩
      obtain ⟨j, hj, rfl⟩ := List.mem_iff_getElem.mp mem
      by_cases same : j = k
      · subst same
        exact .inl inLot
      · exact .inr ⟨_, List.mem_eraseIdx_iff_getElem.mpr ⟨j, hj, same, rfl⟩, inLot⟩
    · rintro (inLot | ⟨lot, mem, inLot⟩)
      · exact ⟨_, List.getElem_mem hk, inLot⟩
      · exact ⟨lot, List.mem_of_mem_eraseIdx mem, inLot⟩
  have free : f ∈ (l.give k hk).pool.free ↔
      f ∈ l.pool.free ∨ (f ∈ l.held[k] ∧ f ∈ l.pool.enabled) := by
    simp [Ledger.give, Pool.release]
  rw [balances.free, split, free]
  tauto

theorem moves (balances : Balances p l) (moves : Moves l l') : Balances p l' := by
  cases moves with
  | stay => exact balances
  | take lot sub => exact balances.take sub
  | give k hk => exact balances.give hk

/-- The free resources are those of the start that are not handed out. -/
theorem mem_free (balances : Balances p l) {f : F} : f ∈ l.pool.free ↔ f ∈ p.free ∧ f ∉ l.out := by
  have apart : f ∈ l.out → f ∉ l.pool.free := fun out =>
    Finset.disjoint_left.mp l.out_disjoint_free out
  rw [balances.free]
  tauto

/-- Every resource that was free at the start is counted once. -/
theorem card (balances : Balances p l) :
    l.pool.free.card + (l.held.map Finset.card).sum = p.free.card := by
  rw [← l.card_out, ← Finset.card_union_of_disjoint l.out_disjoint_free.symm]
  congr 1
  ext f
  rw [Finset.mem_union, balances.free]

end Balances

end Ledger
