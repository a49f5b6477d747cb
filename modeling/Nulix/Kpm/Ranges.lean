import Nulix.Kpm.Release

/-!
# Staying inside the bitmaps

The loops of `kpm_enable`, `kpm_disable` and `kpm_free` go through the frames of a region one by one.
In memory they write the bits of these frames only; a region that goes on past the last frame takes
them out of the bitmaps, in whatever state the allocator is. `kpm_free` does not look for such a
region; the clamp of the other two is meant to, and misses one that starts above the last frame and
one that ends at 4 GiB or later.
-/

namespace Nulix.Kpm

open Words Fallible OrTree

/-- The fault is an access to a bit that stands for no frame or block. -/
def Fault.Outside : Fault → Prop
  | .bitmap _ _ | .enabledFrames _ => True
  | .mmap | .diverges => False

/-- No bit is read or written that stands for no frame or block. -/
def InBitmaps {α : Type} (x : Except Fault α) : Prop := ∀ fault, x = .error fault → ¬fault.Outside

theorem InBitmaps.of_returns {α : Type} {x : Except Fault α} {Q : α → Prop} (h : Returns x Q) :
    InBitmaps x := by
  obtain ⟨a, rfl, -⟩ := h
  exact nofun

theorem InBitmaps.of_eq_ok {α : Type} {x : Except Fault α} {a : α} (returned : x = .ok a) :
    InBitmaps x := by
  rw [returned]
  exact nofun

theorem not_inBitmaps {α : Type} {x : Except Fault α} {f : Nat}
    (outside : x = .error (.enabledFrames f)) : ¬InBitmaps x :=
  fun inside => inside _ outside trivial

variable {b : Buddy} {m : Mem}

/-- The updates of the orders above a region in memory return, and leave the frames as they are. -/
theorem kpmUpdateOrders_leaves (laid : Laid b) {s : Bits} (holds : Shows b m s) {base limit : Nat}
    (inside : base + limit ≤ b.nframes * pageSize) :
    Returns (kpmUpdateOrders b base limit m) fun m' =>
      ∃ s', Shows b m' s' ∧ s'.enabled = s.enabled ∧ s'.order 0 = s.order 0 := by
  refine forRange_returns
    (fun _ m' => ∃ s', Shows b m' s' ∧ s'.enabled = s.enabled ∧ s'.order 0 = s.order 0)
    ⟨s, holds, rfl, rfl⟩ ?_
  rintro n hn m' ⟨s', shows, enabled, leaves⟩
  refine (kpmUpdateOrder_shows laid (Nat.add_lt_of_lt_sub hn) shows inside).mono fun m'' shows' => ?_
  refine ⟨_, shows', enabled, ?_⟩
  rw [← leaves]
  funext i
  simp [Bits.updateOrder]

/-! ## Freeing -/

theorem freeFrame_inside {f : Nat} (inside : f < b.nframes) (m : Mem) :
    ∃ m', freeFrame b f m = .ok m' := by
  have frame : f < b.nframes / 2 ^ 0 := by rwa [Nat.pow_zero, Nat.div_one]
  unfold freeFrame kpmIsEnabled kpmFreeBit Buddy.frameAccess Buddy.orderAccess
  rw [if_pos inside, if_pos frame]
  show ∃ m', (if b.enabled f m = true then Except.ok (clearBit m (b.orders 0).bitmap f) else .ok m) = .ok m'
  split
  · exact ⟨_, rfl⟩
  · exact ⟨_, rfl⟩

theorem freeFrame_outside {f : Nat} (outside : b.nframes ≤ f) (m : Mem) :
    freeFrame b f m = .error (.enabledFrames f) := by
  unfold freeFrame kpmIsEnabled Buddy.frameAccess
  rw [if_neg (not_lt.mpr outside)]
  rfl

theorem kpmFree_inside (laid : Laid b) {c : KpmChunk} (aligned : c.addr % 4096 = 0)
    (inside : c.Inside b) (m : Mem) : Returns (kpmFree b c m) fun _ => True := by
  have room : b.nframes * pageSize + 2 ^ 22 ≤ 2 ^ 32 := laid.memory_lt
  have region := inside
  rw [KpmChunk.Inside] at region
  rw [kpmFree_aligned (by omega) (by omega) aligned]
  rw [pageSize] at region
  have loop : Returns
      (forRange (fun k => freeFrame b (c.addr / 4096 + k)) ((c.size + 4095) / 4096) m)
      fun _ => True := by
    refine forRange_returns (fun _ _ => True) trivial fun k hk m' _ => ?_
    obtain ⟨m'', freed⟩ := freeFrame_inside (show c.addr / 4096 + k < b.nframes by omega) m'
    exact ⟨m'', freed, trivial⟩
  refine loop.bind fun m' _ => ?_
  exact (kpmUpdateOrders_leaves laid (shows_bitsOf b m') inside).mono fun _ _ => trivial

theorem kpmFree_overruns {c : KpmChunk} (word : c.addr < 2 ^ 32) (size : c.size + 4095 < 2 ^ 32)
    (aligned : c.addr % 4096 = 0) (some : 0 < c.size) (overruns : ¬c.Inside b) (m : Mem) :
    ∃ f, kpmFree b c m = .error (.enabledFrames f) := by
  rw [KpmChunk.Inside, pageSize] at overruns
  have below : ∀ i m, c.addr / 4096 + i < b.nframes →
      ∃ m', freeFrame b (c.addr / 4096 + i) m = .ok m' := fun i m inside => freeFrame_inside inside m
  have above : ∀ i m, b.nframes ≤ c.addr / 4096 + i → i ≤ b.nframes →
      freeFrame b (c.addr / 4096 + i) m = .error (.enabledFrames (c.addr / 4096 + i)) :=
    fun i m outside _ => freeFrame_outside outside m
  have pages : 0 < (c.size + 4095) / 4096 := by omega
  obtain ⟨f, stops⟩ := frameLoop_overruns below above pages (by omega) m
  refine ⟨f, ?_⟩
  rw [kpmFree_aligned word size aligned, stops]
  rfl

/-- Nothing is updated above an empty region. -/
theorem kpmUpdateOrders_empty {base : Nat} (word : base < 2 ^ 32) (m : Mem) :
    kpmUpdateOrders b base 0 m = .ok m := by
  have order : ∀ n, kpmUpdateOrder b n base 0 m = .ok m := by
    intro n
    have none : whileLoop .diverges (fun s => decide (s.1 < u32 (base + 0))) (kpmUpdateOrderTurn b n)
        (2 ^ 20) (base, m) = .ok (base, m) := by
      refine whileLoop_skip (Nat.two_pow_pos 20) ?_
      rw [Nat.add_zero, u32_of_lt word]
      exact decide_eq_false (lt_irrefl base)
    rw [kpmUpdateOrder, none]
    rfl
  unfold kpmUpdateOrders
  generalize kpmNorders - 1 = turns
  induction turns with
  | zero => rfl
  | succ n ih =>
    rw [forRange, ih]
    exact order (n + 1)

theorem kpmFree_empty {addr : Nat} (word : addr < 2 ^ 32) (aligned : addr % 4096 = 0) (m : Mem) :
    kpmFree b ⟨addr, 0⟩ m = .ok m := by
  have size : (⟨addr, 0⟩ : KpmChunk).size + 4095 < 2 ^ 32 := by
    dsimp only
    omega
  have pages : (0 + 4095) / 4096 = 0 := rfl
  rw [kpmFree_aligned word size aligned, pages]
  exact kpmUpdateOrders_empty word m

theorem kpmFree_unaligned {c : KpmChunk} (word : c.addr < 2 ^ 32) (unaligned : c.addr % 4096 ≠ 0)
    (m : Mem) : kpmFree b c m = .ok m := by
  rw [kpmFree, isAligned_page word, decide_eq_false unaligned]
  rfl

/-- **Where `kpm_free` stays.** For the arguments that the builtin `free` lets through, it stays inside
the bitmaps if and only if it has nothing to do or the region lies in memory. -/
theorem kpmFree_inBitmaps_iff (ek memkb : Nat) (m : Mem) {addr size : Nat}
    (address : addr ≤ 2 ^ 31 - 1) (length : size ≤ 2 ^ 31 - 1) :
    InBitmaps (kpmFree (kpmInitBuddy ek memkb) ⟨addr, size⟩ m) ↔
      addr % pageSize ≠ 0 ∨ size = 0 ∨
        addr + size ≤ (kpmInitBuddy ek memkb).nframes * pageSize := by
  have laid : Laid (kpmInitBuddy ek memkb) := laid_kpmInitBuddy ek memkb
  generalize kpmInitBuddy ek memkb = b at laid ⊢
  have word : addr < 2 ^ 32 := by omega
  by_cases aligned : addr % 4096 = 0
  · rcases Nat.eq_zero_or_pos size with rfl | some
    · exact iff_of_true (.of_eq_ok (kpmFree_empty word aligned m)) (.inr (.inl rfl))
    · by_cases inside : addr + size ≤ b.nframes * pageSize
      · have returns := kpmFree_inside (c := ⟨addr, size⟩) laid aligned inside m
        exact iff_of_true (.of_returns returns) (.inr (.inr inside))
      · have fits : size + 4095 < 2 ^ 32 := by omega
        obtain ⟨f, stops⟩ := kpmFree_overruns (c := ⟨addr, size⟩) word fits aligned some inside m
        refine iff_of_false (not_inBitmaps stops) ?_
        rintro (unaligned | none | inside')
        · exact unaligned aligned
        · exact some.ne' none
        · exact inside inside'
  · exact iff_of_true (.of_eq_ok (kpmFree_unaligned word aligned m)) (.inl aligned)

/-- One page behind the end of a machine with 4 MiB. -/
theorem not_kpmFree_inBitmaps_behind_memory :
    ¬∀ (ek memkb : Nat) (m : Mem) (addr size : Nat), addr ≤ 2 ^ 31 - 1 → size ≤ 2 ^ 31 - 1 →
      InBitmaps (kpmFree (kpmInitBuddy ek memkb) ⟨addr, size⟩ m) := by
  intro stays
  have nframes : (kpmInitBuddy 0xC0101000 4096).nframes = 1024 := by decide
  have outside : ¬KpmChunk.Inside (kpmInitBuddy 0xC0101000 4096) ⟨0x400000, 0x1000⟩ := by
    rw [KpmChunk.Inside, nframes]
    decide
  obtain ⟨f, stops⟩ := kpmFree_overruns (c := ⟨0x400000, 0x1000⟩) (by decide) (by decide) rfl
    (by decide) outside fun _ => 0#8
  exact not_inBitmaps stops (stays _ _ _ _ _ (by decide) (by decide))

theorem kpmFree_inBitmaps_iff_last_page :
    InBitmaps (kpmFree (kpmInitBuddy 0xC0101000 4096) ⟨0x3FF000, 0x1000⟩ fun _ => 0#8) := by
  have nframes : (kpmInitBuddy 0xC0101000 4096).nframes = 1024 := by decide
  refine (kpmFree_inBitmaps_iff 0xC0101000 4096 (fun _ => 0#8) (by decide) (by decide)).mpr ?_
  rw [nframes]
  decide

/-! ## Enabling and disabling -/

/-- The call stays inside the bitmaps, and changes the enabled bit and the leaf of a frame in memory
only if the frame belongs to its range. -/
structure Respects (b : Buddy) (m : Mem) (range : Nat → Prop) (x : Except Fault Mem) : Prop where
  inBitmaps : InBitmaps x
  untouched : ∀ m', x = .ok m' → ∀ f, f < b.nframes → ¬range f →
    b.enabled f m' = b.enabled f m ∧ b.allocated 0 f m' = b.allocated 0 f m

/-- Marking a region in memory gives the bits of its frames their new values and keeps the others. -/
theorem markRange_bits (laid : Laid b) {base limit : Nat} (aligned : base % 4096 = 0)
    (whole : limit % 4096 = 0) (inside : base + limit ≤ b.nframes * pageSize) {v : Bool}
    (turn : Nat → Mem → Except Fault Mem)
    (marks : ∀ f, f < b.nframes → ∀ m s, Shows b m s →
      Returns (turn f m) fun m' => Shows b m' ((s.setEnabled f v).setOrder 0 f (!v))) (m : Mem) :
    Returns (markRange b turn base limit m) fun m' => ∀ f, f < b.nframes →
      f ∉ Finset.Ico (base / 4096) (base / 4096 + limit / 4096) →
      b.enabled f m' = b.enabled f m ∧ b.allocated 0 f m' = b.allocated 0 f m := by
  have small : b.nframes < 2 ^ 20 := laid.nframes_lt
  have frames : base / pageSize + limit / pageSize ≤ b.nframes := by
    rw [pageSize] at *
    omega
  refine (markLoop_shows frames (small.trans (by decide)) turn marks m).bind fun m' marked => ?_
  refine (kpmUpdateOrders_leaves laid marked inside).mono ?_
  rintro m'' ⟨s', shows, enabled, leaves⟩ f hf outside
  rw [← pageSize] at outside
  have bit : f < 8 * (b.orders 0).size :=
    laid.block_lt_size (by decide) (by rwa [Nat.pow_zero, Nat.div_one])
  rw [shows.enabled f hf, shows.order 0 (by decide) f bit, enabled, leaves]
  constructor
  · exact if_neg outside
  · exact if_neg fun both => outside both.2

/-- The clamp keeps a range inside memory exactly if it starts there and ends below 4 GiB. -/
theorem markRange_respects_iff (laid : Laid b) {base limit : Nat} (word : base < 2 ^ 32)
    (aligned : base % 4096 = 0) (whole : limit % 4096 = 0) (length : limit < 2 ^ 32) {v : Bool}
    {turn : Nat → Mem → Except Fault Mem}
    (marks : ∀ f, f < b.nframes → ∀ m s, Shows b m s →
      Returns (turn f m) fun m' => Shows b m' ((s.setEnabled f v).setOrder 0 f (!v)))
    (above : ∀ f m, b.nframes ≤ f → turn f m = .error (.enabledFrames f)) {range : Nat → Prop}
    (covers : ∀ f, base ≤ f * 4096 → (f + 1) * 4096 ≤ base + limit → range f) (m : Mem) :
    Respects b m range (markRange b turn base (kpmClamp b base limit) m) ↔
      base ≤ b.nframes * pageSize ∧ base + limit < 2 ^ 32 := by
  have multiple : b.nframes * pageSize % 4096 = 0 := Nat.mul_mod_left _ _
  by_cases fits : base ≤ b.nframes * pageSize ∧ base + limit < 2 ^ 32
  · obtain ⟨start, nowrap⟩ := fits
    rw [kpmClamp_eq laid aligned whole start nowrap]
    have cut : min limit (b.nframes * pageSize - base) % 4096 = 0 := by omega
    have inside : base + min limit (b.nframes * pageSize - base) ≤ b.nframes * pageSize := by omega
    have done := markRange_bits laid aligned cut inside turn marks m
    refine iff_of_true ⟨.of_returns done, fun m' returned f hf outside => ?_⟩ ⟨start, nowrap⟩
    refine done.of_eq_ok returned f hf fun mem => outside ?_
    rw [Finset.mem_Ico] at mem
    exact covers f (by omega) (by omega)
  · have overruns := kpmClamp_overruns laid word aligned whole length (by omega)
    have below : ∀ f m, f < b.nframes → ∃ m', turn f m = .ok m' := by
      intro f m inside
      obtain ⟨m', returned, -⟩ := marks f inside m _ (shows_bitsOf b m)
      exact ⟨m', returned⟩
    obtain ⟨f, stops⟩ := markRange_overruns laid.nframes_lt word turn below above overruns m
    exact iff_of_false (fun respects => not_inBitmaps stops respects.inBitmaps) fits

theorem Respects.of_unchanged {range : Nat → Prop} {x : Except Fault Mem} (same : x = .ok m) :
    Respects b m range x := by
  refine ⟨.of_eq_ok same, fun m' returned f _ _ => ?_⟩
  cases same.symm.trans returned
  exact ⟨rfl, rfl⟩

theorem kpmEnable_respects_iff (laid : Laid b) {base limit : Nat} (word : base < 2 ^ 32)
    (length : limit < 2 ^ 32) (m : Mem) :
    Respects b m (fun f => frameBytes f ⊆ Set.Ico base (base + limit)) (kpmEnable b base limit m) ↔
      base % pageSize ≠ 0 ∨
        base ≤ b.nframes * pageSize ∧ base + align limit pageSize < 2 ^ 32 := by
  by_cases aligned : base % 4096 = 0
  · have onPage : ¬base % pageSize ≠ 0 := not_not.mpr aligned
    have rounded : align limit pageSize = limit / 4096 * 4096 := align_page length
    rw [kpmEnable_aligned word aligned, or_iff_right onPage, rounded]
    refine markRange_respects_iff (v := true) laid word aligned (Nat.mul_mod_left _ _) (by omega)
      (fun f hf m s shows => enableFrame_shows laid shows hf)
      (fun f m outside => enableFrame_outside outside m) (fun f low high => ?_) m
    rw [frameBytes, pageSize]
    exact Set.Ico_subset_Ico low (by omega)
  · refine iff_of_true (.of_unchanged ?_) (.inl aligned)
    rw [kpmEnable, isAligned_page word, decide_eq_false aligned]
    rfl

theorem kpmDisable_respects_iff (laid : Laid b) {base limit : Nat} (word : base < 2 ^ 32)
    (length : limit < 2 ^ 32) (m : Mem) :
    Respects b m (fun f => ¬Disjoint (frameBytes f) (Set.Ico base (base + limit)))
        (kpmDisable b base limit m) ↔
      base % pageSize ≠ 0 ∨
        base ≤ b.nframes * pageSize ∧ base + alignNext limit pageSize < 2 ^ 32 := by
  by_cases aligned : base % 4096 = 0
  · have onPage : ¬base % pageSize ≠ 0 := not_not.mpr aligned
    have rounded : alignNext limit pageSize = u32 (limit + 4095) / 4096 * 4096 := by
      rw [alignNext_page, u32_of_lt length]
    have sum : u32 (limit + 4095) ≤ limit + 4095 := Nat.mod_le _ _
    have small : u32 (limit + 4095) < 2 ^ 32 := u32_lt _
    rw [kpmDisable_aligned word aligned length, or_iff_right onPage, rounded]
    refine markRange_respects_iff (v := false) laid word aligned (Nat.mul_mod_left _ _) (by omega)
      (fun f hf m s shows => disableFrame_shows laid shows hf)
      (fun f m outside => disableFrame_outside outside m) (fun f low high => ?_) m
    rw [frameBytes, pageSize, Set.Ico_disjoint_Ico]
    omega
  · refine iff_of_true (.of_unchanged ?_) (.inl aligned)
    rw [kpmDisable, isAligned_page word, decide_eq_false aligned]
    rfl

/-- **Where `kpm_enable` and `kpm_disable` stay.** On an aligned base they respect their range if and
only if it starts in memory, or where memory ends, and ends below 4 GiB after the rounding. -/
theorem kpmEnable_kpmDisable_respect_iff (ek memkb : Nat) (m : Mem) {base limit : Nat}
    (word : base < 2 ^ 32) (length : limit < 2 ^ 32) :
    (Respects (kpmInitBuddy ek memkb) m (fun f => frameBytes f ⊆ Set.Ico base (base + limit))
        (kpmEnable (kpmInitBuddy ek memkb) base limit m) ↔
      base % pageSize ≠ 0 ∨ base ≤ (kpmInitBuddy ek memkb).nframes * pageSize ∧
        base + align limit pageSize < 2 ^ 32) ∧
    (Respects (kpmInitBuddy ek memkb) m
        (fun f => ¬Disjoint (frameBytes f) (Set.Ico base (base + limit)))
        (kpmDisable (kpmInitBuddy ek memkb) base limit m) ↔
      base % pageSize ≠ 0 ∨ base ≤ (kpmInitBuddy ek memkb).nframes * pageSize ∧
        base + alignNext limit pageSize < 2 ^ 32) :=
  have laid : Laid (kpmInitBuddy ek memkb) := laid_kpmInitBuddy ek memkb
  ⟨kpmEnable_respects_iff laid word length m, kpmDisable_respects_iff laid word length m⟩

/-- A region of one page above a machine with 4 MiB. -/
theorem not_kpmEnable_respects_above_memory :
    ¬∀ (ek memkb : Nat) (m : Mem) (base limit : Nat), base < 2 ^ 32 → limit < 2 ^ 32 →
      Respects (kpmInitBuddy ek memkb) m (fun f => frameBytes f ⊆ Set.Ico base (base + limit))
        (kpmEnable (kpmInitBuddy ek memkb) base limit m) ∧
      Respects (kpmInitBuddy ek memkb) m
        (fun f => ¬Disjoint (frameBytes f) (Set.Ico base (base + limit)))
        (kpmDisable (kpmInitBuddy ek memkb) base limit m) := by
  intro respects
  have nframes : (kpmInitBuddy 0xC0101000 4096).nframes = 1024 := by decide
  have enables := (respects 0xC0101000 4096 (fun _ => 0#8) 0x401000 0x1000 (by decide) (by decide)).1
  rw [kpmEnable_respects_iff (laid_kpmInitBuddy _ _) (by decide) (by decide), nframes] at enables
  revert enables
  decide

/-- The last page of a machine with 4 MiB, with a limit that goes on behind it. -/
theorem kpmEnable_kpmDisable_respect_iff_last_page :
    Respects (kpmInitBuddy 0xC0101000 4096) (fun _ => 0#8)
      (fun f => frameBytes f ⊆ Set.Ico 0x3FF000 (0x3FF000 + 0x5000))
      (kpmEnable (kpmInitBuddy 0xC0101000 4096) 0x3FF000 0x5000 fun _ => 0#8) := by
  have nframes : (kpmInitBuddy 0xC0101000 4096).nframes = 1024 := by decide
  refine (kpmEnable_kpmDisable_respect_iff 0xC0101000 4096 (fun _ => 0#8) (by decide)
    (by decide)).1.mpr ?_
  rw [nframes]
  decide

end Nulix.Kpm
