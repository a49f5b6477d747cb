import Nulix.Kernel.Refinement

/-!
# What stays true while the kernel runs

Whatever is typed: no frame comes into service that `kpm_init` kept out of it, so that an allocation hands
out available memory and nothing of the kernel's own; and the descriptor tables stay as they were set, so
that every interrupt still leads to its handler.
-/

namespace Nulix.Kernel

open Fallible Keyboard Kpm Nsh Print Words

/-! ## The frames in service -/

theorem enabled_obtain (nframes turns size : Nat) (p : Pool Nat) :
    (obtain nframes turns size p).enabled = p.enabled := by
  induction turns generalizing size p with
  | zero => rfl
  | succ turns ih =>
    unfold obtain
    split
    · rfl
    · split
      · rfl
      · split
        · rfl
        · exact ih _ _

theorem enabled_freed (p : Pool Nat) (c : KpmChunk) : (freed p c).enabled = p.enabled := by
  unfold freed
  split <;> rfl

theorem Command.enabled_effect (c : Command) (nframes : Nat) (v : Resources) :
    (c.effect nframes v).pool.enabled = v.pool.enabled := by
  cases c with
  | alloc size => exact enabled_obtain nframes (nframes + 1) size v.pool
  | free chunk => exact enabled_freed v.pool chunk
  | _ => rfl

theorem View.enabled_type (nframes : Nat) (null : Text) (v : View) (c : BitVec 8) :
    (v.type nframes null c).resources.pool.enabled = v.resources.pool.enabled := by
  unfold View.type
  split
  · exact (v.asks null).enabled_effect nframes v.resources
  · rfl

/-- A poll leaves the frames in service as they are. -/
theorem View.enabled_poll (nframes : Nat) (null : Text) (v : View) (p : Poll) :
    (v.poll nframes null p).resources.pool.enabled = v.resources.pool.enabled := by
  unfold View.poll
  split
  · rfl
  · rcases types_cases v.keys v.resources.layout p.data with silent | ⟨c, one, -⟩
    · rw [View.types, silent]
      rfl
    · rw [View.types, one]
      exact View.enabled_type nframes null { v with keys := v.keys.read p.data } c

variable {img : KernelImage} {entries : List MmapEntry} {count memkb : Nat}

theorem enabled_viewAfter (h : Handlers) (ps : List Poll) :
    (viewAfter h img entries memkb ps).resources.pool.enabled =
      (bootPool img (kpmInitBuddy img.ek memkb) entries).enabled := by
  induction ps using List.reverseRecOn with
  | nil => rfl
  | append_singleton ps p ih =>
    rw [viewAfter, List.foldl_append]
    exact (View.enabled_poll _ _ _ p).trans ih

/-- What `kpm_alloc` hands out lies in frames in service. -/
theorem kpmAlloc_enabled {b : Buddy} {m : Mem} {p : Pool Nat} (laid : Laid b) (rep : Represents b m p)
    (size : Nat) :
    Returns (kpmAlloc b size m) fun r => ∀ c, r.1 = some c → ∀ x ∈ c.bytes, x / pageSize ∈ p.enabled := by
  refine (kpmAlloc_outcome laid rep size).mono ?_
  rintro ⟨_ | c, m'⟩ outcome d isChunk x mem
  · cases isChunk
  · cases isChunk
    obtain ⟨o, i, grants, -⟩ := outcome
    have order : o < kpmNorders := Nat.lt_of_lt_of_le grants.order (findBestFitOrder_lt size)
    have isBlock : c.IsBlock b := ⟨o, i, order, grants.inside, grants.chunk⟩
    have frame := isBlock.mem_frames mem
    rw [grants.chunk, frames_block] at frame
    exact p.free_sub (grants.free frame)

variable (hw : Hardware) (found : Found) {ps : List Poll} {pics : Pics} {k : Globals}

/-- **The kernel's own memory is never handed out.** On a map of memory below 4 GiB, after any polls, whatever
was allocated and freed with whatever arguments, an allocation returns, and what it hands out are bytes of
whole available pages that `kpm_init` did not reserve. -/
theorem kernelMain_allocates (held : img.Held (kpmInitBuddy img.ek memkb))
    (mapped : img.Mapped (kpmInitBuddy img.ek memkb))
    (low : ∀ e ∈ availableEntries entries, e.addr.toNat + e.len.toNat < 2 ^ 32)
    (ran : kernelMain hw img entries count memkb found ps = .ok (pics, k)) (size : Nat) :
    Returns (kpmAlloc k.buddy size k.mem) fun r => ∀ c, r.1 = some c → ∀ x ∈ c.bytes,
      PageOf entries x ∧ Disjoint (frameBytes (x / pageSize)) (img.reserved (kpmInitBuddy img.ek memkb)) := by
  obtain ⟨-, shows⟩ := (kernelMain_when hw found ps held mapped.room).of_eq_ok ran
  have rep := shows.running.pool
  rw [shows.running.buddy]
  refine (kpmAlloc_enabled (laid_kpmInitBuddy _ _) rep size).mono fun r enabled c isChunk x mem => ?_
  have service := enabled c isChunk x mem
  rw [enabled_viewAfter, mem_bootPool_iff low] at service
  exact service.2

/-- Another 5000 bytes after `alloc 5000` and `next`. -/
theorem kernelMain_allocates_typed : ∃ pics k,
    kernelMain smallHardware smallImage smallMap 2 16384 smallFound smallTyped = .ok (pics, k) ∧
    Returns (kpmAlloc k.buddy 5000 k.mem) fun r => ∀ c, r.1 = some c → ∀ x ∈ c.bytes,
      PageOf smallMap x ∧
        Disjoint (frameBytes (x / pageSize)) (smallImage.reserved (kpmInitBuddy smallImage.ek 16384)) := by
  obtain ⟨pics, k, ran⟩ := exists_small_run small_typed.1
  exact ⟨pics, k, ran,
    kernelMain_allocates smallHardware smallFound small_held small_mapped (by decide) ran 5000⟩

/-! ## Interrupts -/

/-- The processor looks at the descriptor tables alone. -/
theorem delivers_congr {m m' : Mem} (same : ∀ a, a < 0x838 → m' a = m a) (v : Nat) :
    delivers m' { limit := .ofNat 16 (8 * 256), base := .ofNat 32 idt }
        { limit := .ofNat 16 (8 * Gdt.gdtSize), base := Gdt.gdtBaseAddress } v =
      delivers m { limit := .ofNat 16 (8 * 256), base := .ofNat 32 idt }
        { limit := .ofNat 16 (8 * Gdt.gdtSize), base := Gdt.gdtBaseAddress } v := by
  have limits : (BitVec.ofNat 16 (8 * 256)).toNat = 2048 ∧ (BitVec.ofNat 16 (8 * Gdt.gdtSize)).toNat = 48 :=
    ⟨rfl, rfl⟩
  have bases : (BitVec.ofNat 32 idt).toNat = 0 ∧ Gdt.gdtBaseAddress.toNat = 0x800 := ⟨rfl, rfl⟩
  unfold delivers
  simp only [limits, bases]
  by_cases inside : 8 * v + 7 ≤ 2048
  · have gate : SameEntry m m' (0 + 8 * v) := fun i small => same _ (by omega)
    rw [gate.gateAt]
    generalize gateAt m (0 + 8 * v) = e
    by_cases selected : 8 * (e.selector.toNat / 8) + 7 ≤ 48
    · have segment : SameEntry m m' (0x800 + 8 * (e.selector.toNat / 8)) := fun i small => same _ (by omega)
      rw [tableAt, segment.entryAt]
      rfl
    · simp only [selected, false_and, and_false, if_false]
  · simp only [inside, false_and, if_false]

/-- **Interrupts in a running kernel.** Where the allocator's structure lies in the 4 MiB that are mapped for
the kernel: after any polls and any requests to the controllers, each of the five vectors leads to its
handler, the requests of the timer and the keyboard are passed on and no others, and their handlers end what
they began. -/
theorem kernelMain_interrupts (held : img.Held (kpmInitBuddy img.ek memkb))
    (mapped : img.Mapped (kpmInitBuddy img.ek memkb))
    (ran : kernelMain hw img entries count memkb found ps = .ok (pics, k)) (irqs : List (Fin 16))
    (irqId : Fin 16) :
    let after := irqs.foldl (fun s irqId => s.complete irqId) pics
    (∀ d ∈ hw.handlers.descriptors, delivers k.mem k.idtp k.gdtp d.1.toNat = some d.2.1) ∧
    (after.request irqId ≠ none ↔ ∃ isr, (irqId.val, isr) ∈ hw.handlers.lines) ∧
    ∀ isr, (irqId.val, isr) ∈ hw.handlers.lines → ∃ v s', after.request irqId = some (v, s') ∧
      delivers k.mem k.idtp k.gdtp v.toNat = some isr ∧ pic8259Eoi irqId s' = after := by
  obtain ⟨rfl, shows⟩ := (kernelMain_when hw found ps held mapped.room).of_eq_ok ran
  have lowest := mapped.low
  rw [kernelVirtOffset] at lowest
  have same : ∀ a, a < 0x838 → k.mem a = (initDescriptorTables hw.handlers found.mem).1 a := by
    refine fun a small => shows.running.memory a fun inside => ?_
    have above := inside.1
    omega
  have leads : ∀ d ∈ hw.handlers.descriptors, delivers k.mem k.idtp k.gdtp d.1.toNat = some d.2.1 := by
    intro d mem
    rw [shows.running.idtp, shows.running.gdtp, delivers_congr same]
    exact delivers_handler hw.handlers found.mem mem
  exact ⟨leads, requests_delivered hw.handlers found.pics irqs irqId leads⟩

/-- A request of the keyboard after `alloc 5000` and `next`. -/
theorem kernelMain_interrupts_typed : ∃ pics k,
    kernelMain smallHardware smallImage smallMap 2 16384 smallFound smallTyped = .ok (pics, k) ∧
    let after := [(0 : Fin 16), 8].foldl (fun s irqId => s.complete irqId) pics
    (∀ d ∈ smallHardware.handlers.descriptors, delivers k.mem k.idtp k.gdtp d.1.toNat = some d.2.1) ∧
    (after.request (1 : Fin 16) ≠ none ↔ ∃ isr, ((1 : Fin 16).val, isr) ∈ smallHardware.handlers.lines) ∧
    ∀ isr, ((1 : Fin 16).val, isr) ∈ smallHardware.handlers.lines →
      ∃ v s', after.request (1 : Fin 16) = some (v, s') ∧
        delivers k.mem k.idtp k.gdtp v.toNat = some isr ∧ pic8259Eoi (1 : Fin 16) s' = after := by
  obtain ⟨pics, k, ran⟩ := exists_small_run small_typed.1
  exact ⟨pics, k, ran,
    kernelMain_interrupts smallHardware smallFound small_held small_mapped ran [0, 8] 1⟩

end Nulix.Kernel
