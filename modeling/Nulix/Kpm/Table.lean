import Nulix.Kpm.Boot
import Mathlib.Data.List.TakeWhile

/-!
# Where the memory map ends

`kpm_init` is told how many entries the memory map has and does not look at the number: its loop goes on
until an entry has size 0, behind the map if need be. `kpmInit_readsMap_iff` says which maps it reads to
their end and no further.
-/

namespace Nulix.Kpm

open Words Fallible

/-- How many entries the loop of `kpm_init` examines; the last of them ends it. Behind the memory given
it examines one that is not there. -/
def examined : List MmapEntry → Nat
  | [] => 1
  | entry :: entries => if entry.size ≠ 0 then examined entries + 1 else 1

/-- `kpm_init` reads the map of `count` entries that memory holds from `entries` on: it examines these
entries and no other, puts every available one into service, and its result depends on nothing else of
that memory. -/
structure ReadsMap (img : KernelImage) (entries : List MmapEntry) (count memkb : Nat) (m : Mem) :
    Prop where
  exactly : examined entries = count
  passed : ∀ e ∈ entries.take count, e.type = multibootMemoryAvailable → e ∈ availableEntries entries
  same : ∀ entries', entries'.take count = entries.take count →
    kpmInit img entries' count memkb m = kpmInit img entries count memkb m

/-- The last of the first `count` entries has size 0 and is not available, and the ones before it have
a size. -/
structure Terminated (entries : List MmapEntry) (count : Nat) (init : List MmapEntry)
    (last : MmapEntry) : Prop where
  table : entries.take count = init ++ [last]
  before : ∀ e ∈ init, e.size ≠ 0
  zero : last.size = 0
  unavailable : last.type ≠ multibootMemoryAvailable

variable {b : Buddy} {entries table : List MmapEntry} {count : Nat}

theorem size_of_mem_available {e : MmapEntry} (mem : e ∈ availableEntries entries) : e.size ≠ 0 := by
  have taken := List.mem_takeWhile_imp (List.mem_of_mem_filter mem)
  simpa using taken

/-- Entries with a size, followed by anything. -/
theorem availableEntries_append (sizes : ∀ e ∈ table, e.size ≠ 0) (rest : List MmapEntry) :
    availableEntries (table ++ rest) =
      table.filter (fun e => e.type = multibootMemoryAvailable) ++ availableEntries rest := by
  have taken : ∀ e ∈ table, decide (e.size ≠ 0) = true := fun e mem => decide_eq_true (sizes e mem)
  rw [availableEntries, List.takeWhile_append_of_pos taken, List.filter_append]
  rfl

theorem examined_append (sizes : ∀ e ∈ table, e.size ≠ 0) (rest : List MmapEntry) :
    examined (table ++ rest) = table.length + examined rest := by
  induction table with
  | nil => simp
  | cons e table ih =>
    obtain ⟨some, sizes⟩ := List.forall_mem_cons.mp sizes
    rw [List.cons_append, examined, if_pos some, ih sizes, List.length_cons]
    omega

/-- A loop that examines as many entries as the map has stops at the last one. -/
theorem terminated_of_examined (inMemory : count ≤ entries.length)
    (exactly : examined entries = count) :
    ∃ init last, entries.take count = init ++ [last] ∧ (∀ e ∈ init, e.size ≠ 0) ∧ last.size = 0 := by
  induction entries generalizing count with
  | nil =>
    rw [examined] at exactly
    rw [List.length_nil] at inMemory
    omega
  | cons e entries ih =>
    rw [examined] at exactly
    subst exactly
    split
    · next some =>
      rw [if_pos some, List.length_cons] at inMemory
      obtain ⟨init, last, table, before, zero⟩ := ih (Nat.le_of_succ_le_succ inMemory) rfl
      refine ⟨e :: init, last, ?_, List.forall_mem_cons.mpr ⟨some, before⟩, zero⟩
      rw [List.take_succ_cons, table, List.cons_append]
    · next none => exact ⟨[], e, rfl, nofun, not_not.mp none⟩

namespace Terminated

variable {init : List MmapEntry} {last : MmapEntry}

/-- A memory that holds the map. -/
theorem split (term : Terminated entries count init last) {entries' : List MmapEntry}
    (holds : entries'.take count = entries.take count) :
    entries' = init ++ (last :: entries'.drop count) :=
  calc entries' = entries'.take count ++ entries'.drop count := (List.take_append_drop _ _).symm
    _ = init ++ (last :: entries'.drop count) := by rw [holds, term.table, List.append_assoc]; rfl

/-- Memories that hold the map agree on what the loop enables. -/
theorem available (term : Terminated entries count init last) {entries' : List MmapEntry}
    (holds : entries'.take count = entries.take count) :
    availableEntries entries' = init.filter fun e => e.type = multibootMemoryAvailable := by
  rw [term.split holds, availableEntries_append term.before, availableEntries_cons,
    if_pos term.zero, List.append_nil]

theorem ends (term : Terminated entries count init last) {entries' : List MmapEntry}
    (holds : entries'.take count = entries.take count) : ∃ e ∈ entries', e.size = 0 := by
  refine ⟨last, ?_, term.zero⟩
  have mem : last ∈ entries'.take count := by simp [holds, term.table]
  exact List.mem_of_mem_take mem

theorem readsMap (term : Terminated entries count init last) (img : KernelImage) (memkb : Nat)
    (m : Mem) (inMemory : count ≤ entries.length) : ReadsMap img entries count memkb m := by
  have length : count = init.length + 1 := by
    have lengths := congrArg List.length term.table
    simpa [inMemory] using lengths
  refine ⟨?_, fun e mem available => ?_, fun entries' holds => ?_⟩
  · rw [term.split rfl, examined_append term.before, examined, if_neg (not_not.mpr term.zero), length]
  · rw [term.available rfl, List.mem_filter]
    rw [term.table, List.mem_append, List.mem_singleton] at mem
    rcases mem with inside | rfl
    · exact ⟨inside, decide_eq_true available⟩
    · exact absurd available term.unavailable
  · have loop : kpmInitEntries (kpmInitBuddy img.ek memkb) entries' =
        kpmInitEntries (kpmInitBuddy img.ek memkb) entries := by
      funext m
      rw [kpmInitEntries_eq (term.ends holds), kpmInitEntries_eq (term.ends rfl),
        term.available holds, term.available rfl]
    unfold kpmInit
    dsimp only
    rw [loop]

end Terminated

/-- **Where the reading stops.** `kpm_init` reads exactly the map it is given if and only if the map
counts, as its last entry, the one of size 0 at which the loop stops. -/
theorem kpmInit_readsMap_iff (img : KernelImage) (memkb : Nat) (m : Mem)
    (inMemory : count ≤ entries.length) :
    ReadsMap img entries count memkb m ↔ ∃ init last, Terminated entries count init last := by
  constructor
  · intro reads
    obtain ⟨init, last, table, before, zero⟩ := terminated_of_examined inMemory reads.exactly
    refine ⟨init, last, table, before, zero, fun available => ?_⟩
    have mem : last ∈ entries.take count := by simp [table]
    exact size_of_mem_available (reads.passed last mem available) zero
  · rintro ⟨init, last, term⟩
    exact term.readsMap img memkb m inMemory

/-- A map that counts its terminating entry. -/
theorem kpmInit_readsMap_iff_counted :
    ReadsMap ⟨0xC0112345, by decide, by decide⟩
      [⟨20, 0x2000, 0x1000, 1⟩, ⟨0, 0, 0, 0⟩, ⟨20, 0x3000, 0x1000, 1⟩] 2 4096 fun _ => 0#8 :=
  (kpmInit_readsMap_iff _ _ _ (by decide)).mpr
    ⟨[⟨20, 0x2000, 0x1000, 1⟩], ⟨0, 0, 0, 0⟩, rfl, by decide, rfl, by decide⟩

/-- A map of one available page, with nothing behind it and with another available page behind it. -/
theorem not_readsMap_page_behind :
    ¬∀ (img : KernelImage) (entries : List MmapEntry) (count memkb : Nat) (m : Mem),
      count ≤ entries.length → ReadsMap img entries count memkb m := by
  intro reads
  let img : KernelImage := ⟨0xC0112345, by decide, by decide⟩
  let alone : List MmapEntry := [⟨20, 0x2000, 0x1000, 1⟩, ⟨0, 0, 0, 0⟩]
  let followed : List MmapEntry :=
    [⟨20, 0x2000, 0x1000, 1⟩, ⟨20, 0x3000, 0x1000, 1⟩, ⟨0, 0, 0, 0⟩]
  have held : img.Held (kpmInitBuddy img.ek 4096) := ⟨by decide, by decide⟩
  have same := (reads img alone 1 4096 (fun _ => 0#8) (by decide)).same followed rfl
  have fits : ∀ e ∈ availableEntries alone, e.Fits (kpmInitBuddy img.ek 4096) := by
    intro e available _
    obtain rfl := List.mem_singleton.mp available
    exact ⟨by decide, by decide⟩
  have returns : Returns (kpmInit img alone 1 4096 fun _ => 0#8) fun _ => True :=
    (kpmInit_represents held ⟨⟨0, 0, 0, 0⟩, by decide, rfl⟩ fits).mono fun _ _ => trivial
  obtain ⟨⟨b, m'⟩, returned, -⟩ := returns
  obtain ⟨rfl, first⟩ := kpmInit_enabled held ⟨⟨0, 0, 0, 0⟩, by decide, rfl⟩ returned
  obtain ⟨-, second⟩ := kpmInit_enabled held ⟨⟨0, 0, 0, 0⟩, by decide, rfl⟩ (same.trans returned)
  have inMemory : 3 < (kpmInitBuddy img.ek 4096).nframes := by decide
  have unreserved : 3 ∉ img.reservedFrames (kpmInitBuddy img.ek 4096) := by decide
  rw [KernelImage.mem_reservedFrames _ inMemory, not_not] at unreserved
  have on := (second 3 inMemory).mpr ⟨⟨20, 0x3000, 0x1000, 1⟩, by decide, by decide, unreserved⟩
  obtain ⟨e, available, mem, -⟩ := (first 3 inMemory).mp on
  obtain rfl := List.mem_singleton.mp available
  revert mem
  decide

end Nulix.Kpm
