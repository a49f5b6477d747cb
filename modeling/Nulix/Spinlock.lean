import Mathlib.Data.BitVec
import Nulix.Lib.Runs

/-!
# The spinlock

`struct kspin` (kernel/spinlock.c) shared by any number of threads. A step of the system is one
compare-and-swap, of a turn of `kspin_lock` or of a call of `kspin_trylock`, or the store of a
`kspin_drop`. The acquisitions that a thread has outstanding are counted by what the calls return to it.
The lock is a mutex: its word and the counts are determined by who holds it.
-/

namespace Nulix.Spinlock

open Runs

/-! ## The lock -/

/-- `struct kspin` -/
structure Kspin (D : Type) where
  lock : BitVec 32
  data : D

variable {D T : Type}

/-- `acquire_or_one`: the old value of the lock, and the lock after it. -/
def acquireOrOne (ks : Kspin D) : BitVec 32 × Kspin D :=
  if ks.lock = 0 then (ks.lock, { ks with lock := 1 }) else (ks.lock, ks)

/-- `kspin_init` -/
def kspinInit (ks : Kspin D) (data : D) : Kspin D := { ks with lock := 0, data := data }

/-- One turn of the loop of `kspin_lock`: what it returns if this was the last one. -/
def kspinLock (ks : Kspin D) : Option D × Kspin D :=
  let (old, ks) := acquireOrOne ks
  if old = 1 then (none, ks) else (some ks.data, ks)

/-- `kspin_trylock` -/
def kspinTrylock (ks : Kspin D) : BitVec 32 × Kspin D :=
  let (old, ks) := acquireOrOne ks
  (-old, ks)

/-- `kspin_drop` -/
def kspinDrop (ks : Kspin D) : Kspin D := { ks with lock := 0 }

/-! ## The threads -/

/-- The lock, the threads that are in the loop of `kspin_lock`, and how many of its acquisitions each
thread has not dropped yet. -/
structure System (D T : Type) where
  ks : Kspin D
  spinning : T → Bool
  outstanding : T → Nat

inductive Step (T : Type)
  /-- A turn of the loop of `kspin_lock`, the first one of a call or a later one. -/
  | lock (t : T)
  | trylock (t : T)
  | drop (t : T)

/-- A thread in the loop of `kspin_lock` makes its turns, and only a thread with an acquisition
outstanding calls `kspin_drop`. -/
def Allowed : Step T → System D T → Prop
  | .lock _, _ => True
  | .trylock t, s => s.spinning t = false
  | .drop t, s => s.spinning t = false ∧ 0 < s.outstanding t

variable [DecidableEq T]

/-- A call has returned with the lock. -/
def System.acquired (s : System D T) (t : T) : System D T :=
  { s with outstanding := Function.update s.outstanding t (s.outstanding t + 1) }

def step : Step T → System D T → System D T
  | .lock t, s =>
    let (returned, ks) := kspinLock s.ks
    let s := { s with ks := ks, spinning := Function.update s.spinning t returned.isNone }
    if returned.isSome then s.acquired t else s
  | .trylock t, s =>
    let (returned, ks) := kspinTrylock s.ks
    let s := { s with ks := ks }
    if returned = 0 then s.acquired t else s
  | .drop t, s =>
    { s with
      ks := kspinDrop s.ks
      outstanding := Function.update s.outstanding t (s.outstanding t - 1) }

/-- The system after `kspin_init`. -/
def initial (ks : Kspin D) (data : D) : System D T where
  ks := kspinInit ks data
  spinning := fun _ => false
  outstanding := fun _ => 0

/-! ## The mutex -/

/-- A mutex is held by one thread or by none. Acquiring it does nothing where it is held. -/
def next : Step T → Option T → Option T
  | .lock t, holder => some (holder.getD t)
  | .trylock t, holder => some (holder.getD t)
  | .drop _, _ => none

/-- The system in which `holder` holds the lock. -/
structure Holds (s : System D T) (holder : Option T) : Prop where
  lock : s.ks.lock = if holder.isSome then 1 else 0
  outstanding : ∀ t, s.outstanding t = if holder = some t then 1 else 0

theorem holds_initial (ks : Kspin D) (data : D) : Holds (T := T) (initial ks data) none :=
  ⟨rfl, fun _ => rfl⟩

variable {s : System D T} {holder : Option T}

theorem Holds.acquire_free (holds : Holds s none) :
    acquireOrOne s.ks = (0, { s.ks with lock := 1 }) := by
  have free : s.ks.lock = 0 := holds.lock
  unfold acquireOrOne
  rw [if_pos free, free]

theorem Holds.acquire_busy {u : T} (holds : Holds s (some u)) : acquireOrOne s.ks = (1, s.ks) := by
  have busy : s.ks.lock = 1 := holds.lock
  unfold acquireOrOne
  rw [busy, if_neg (by decide)]

theorem Holds.kspinLock_free (holds : Holds s none) :
    kspinLock s.ks = (some s.ks.data, { s.ks with lock := 1 }) := by
  unfold kspinLock
  rw [holds.acquire_free]
  rfl

theorem Holds.kspinLock_busy {u : T} (holds : Holds s (some u)) : kspinLock s.ks = (none, s.ks) := by
  unfold kspinLock
  rw [holds.acquire_busy]
  rfl

theorem Holds.kspinTrylock_free (holds : Holds s none) :
    kspinTrylock s.ks = (0, { s.ks with lock := 1 }) := by
  unfold kspinTrylock
  rw [holds.acquire_free]
  rfl

theorem Holds.kspinTrylock_busy {u : T} (holds : Holds s (some u)) :
    kspinTrylock s.ks = (-1, s.ks) := by
  unfold kspinTrylock
  rw [holds.acquire_busy]

/-- The counts after the first acquisition. -/
theorem Holds.acquired_free (holds : Holds s none) (t u : T) :
    (s.acquired t).outstanding u = if some t = some u then 1 else 0 := by
  have none : ∀ u, s.outstanding u = 0 := holds.outstanding
  show Function.update s.outstanding t (s.outstanding t + 1) u = _
  by_cases same : u = t
  · rw [same, Function.update_self, none, if_pos rfl]
  · rw [Function.update_of_ne same, none, if_neg fun equal => same (Option.some.inj equal).symm]

/-- A step of the system is one of the mutex. -/
theorem Holds.step (holds : Holds s holder) {a : Step T} (allowed : Allowed a s) :
    Holds (step a s) (next a holder) := by
  cases a with
  | lock t =>
    cases holder with
    | none =>
      rw [Spinlock.step, holds.kspinLock_free]
      exact ⟨rfl, holds.acquired_free t⟩
    | some u =>
      rw [Spinlock.step, holds.kspinLock_busy]
      exact ⟨holds.lock, holds.outstanding⟩
  | trylock t =>
    cases holder with
    | none =>
      rw [Spinlock.step, holds.kspinTrylock_free]
      exact ⟨rfl, holds.acquired_free t⟩
    | some u =>
      rw [Spinlock.step, holds.kspinTrylock_busy]
      exact ⟨holds.lock, holds.outstanding⟩
  | drop t =>
    have count := holds.outstanding t
    have isHolder : holder = some t := by
      by_contra other
      rw [if_neg other] at count
      exact absurd allowed.2 (by omega)
    subst isHolder
    refine ⟨rfl, fun u => ?_⟩
    show Function.update s.outstanding t (s.outstanding t - 1) u = 0
    by_cases same : u = t
    · rw [same, Function.update_self, count, if_pos rfl]
    · rw [Function.update_of_ne same, holds.outstanding,
        if_neg fun equal => same (Option.some.inj equal).symm]

/-- The spinlock refines the mutex, over whole runs. -/
theorem holds_run {steps : List (Step T)} (holds : Holds s holder)
    (allowed : Guarded Spinlock.step Allowed steps s) :
    Holds (run Spinlock.step steps s) (run next steps holder) :=
  run_simulation Holds (fun _ _ _ _ guard sim => sim.step guard) allowed holds

/-- What a spinlock is for. -/
structure Exclusive (s : System D T) : Prop where
  one : ∀ t u, 0 < s.outstanding t → 0 < s.outstanding u → t = u
  once : ∀ t, s.outstanding t ≤ 1
  lock : s.ks.lock = 1 ↔ ∃ t, 0 < s.outstanding t
  busy : (kspinTrylock s.ks).1 = -1 → ∃ t, 0 < s.outstanding t

theorem Holds.pos_iff (holds : Holds s holder) {t : T} : 0 < s.outstanding t ↔ holder = some t := by
  rw [holds.outstanding]
  split
  · rename_i same
    exact iff_of_true Nat.one_pos same
  · rename_i other
    exact iff_of_false (Nat.lt_irrefl 0) other

theorem Holds.exclusive (holds : Holds s holder) : Exclusive s where
  one := fun t u first second =>
    Option.some.inj ((holds.pos_iff.mp first).symm.trans (holds.pos_iff.mp second))
  once := by
    intro t
    rw [holds.outstanding]
    split
    · exact le_rfl
    · exact Nat.zero_le 1
  lock := by
    simp only [holds.pos_iff, ← Option.isSome_iff_exists]
    rw [holds.lock]
    cases holder.isSome <;> decide
  busy := by
    intro returned
    cases holder with
    | none =>
      rw [holds.kspinTrylock_free] at returned
      have other : (0 : BitVec 32) ≠ -1 := by decide
      exact absurd returned other
    | some u => exact ⟨u, holds.pos_iff.mpr rfl⟩

/-- After any interleaving of the steps of any threads, the lock is held by one of them at most. -/
theorem exclusive_run (ks : Kspin D) (data : D) (steps : List (Step T))
    (allowed : Guarded Spinlock.step Allowed steps (initial ks data)) :
    Exclusive (run Spinlock.step steps (initial ks data)) :=
  (holds_run (holds_initial ks data) allowed).exclusive

/-- One thread tries, another one waits for it. -/
theorem exclusive_run_two :
    Exclusive (run Spinlock.step [.trylock 0, .lock 1, .drop 0, .lock 1]
      (initial (T := Nat) (⟨7, ()⟩ : Kspin Unit) ())) :=
  exclusive_run _ () _ ⟨rfl, trivial, ⟨rfl, by decide⟩, trivial, trivial⟩

/-! ## Waiting -/

/-- The holder waits for itself. -/
def Stuck (s : System D T) (t : T) : Prop := Holds s (some t) ∧ s.spinning t = true

/-- Nobody gets a thread out of a wait for itself: it does not drop the lock, and no other thread may. -/
theorem Stuck.step {t : T} (stuck : Stuck s t) {a : Step T} (allowed : Allowed a s) : Stuck (step a s) t := by
  obtain ⟨holds, waits⟩ := stuck
  have after := holds.step allowed
  cases a with
  | lock u =>
    refine ⟨after, ?_⟩
    rw [Spinlock.step, holds.kspinLock_busy]
    show Function.update s.spinning u true t = true
    by_cases same : t = u
    · rw [same, Function.update_self]
    · rw [Function.update_of_ne same, waits]
  | trylock u =>
    refine ⟨after, ?_⟩
    rw [Spinlock.step, holds.kspinTrylock_busy]
    exact waits
  | drop u =>
    obtain ⟨returned, outstanding⟩ := allowed
    cases holds.pos_iff.mp outstanding
    cases waits.symm.trans returned

theorem Stuck.run {t : T} (stuck : Stuck s t) {steps : List (Step T)}
    (allowed : Guarded Spinlock.step Allowed steps s) : Stuck (run Spinlock.step steps s) t :=
  run_invariant (fun s => Stuck s t) (fun _ _ _ guard stuck => stuck.step guard) allowed stuck

/-- **Deadlock.** From every state that any interleaving leads to, there are steps after which a thread holds
the lock, unless another thread holds it and waits for it in `kspin_lock`. -/
theorem acquirable_iff (ks : Kspin D) (data : D) (steps : List (Step T))
    (allowed : Guarded Spinlock.step Allowed steps (initial ks data)) (u : T) :
    (∃ more, Guarded Spinlock.step Allowed more (run Spinlock.step steps (initial ks data)) ∧
      0 < (run Spinlock.step (steps ++ more) (initial ks data)).outstanding u) ↔
    ∀ t, 0 < (run Spinlock.step steps (initial ks data)).outstanding t →
      (run Spinlock.step steps (initial ks data)).spinning t = true → t = u := by
  simp only [run_append]
  have holds := holds_run (holds_initial ks data) allowed
  generalize run Spinlock.step steps (initial ks data) = s at holds ⊢
  generalize Runs.run next steps none = holder at holds
  constructor
  · rintro ⟨more, guarded, got⟩ t outstanding waits
    have stuck : Stuck s t := ⟨holds.pos_iff.mp outstanding ▸ holds, waits⟩
    obtain ⟨after, -⟩ := stuck.run guarded
    exact Option.some.inj (after.pos_iff.mp got)
  · intro free
    have takes : ∀ s : System D T, Holds s none → 0 < (Spinlock.step (.lock u) s).outstanding u := by
      intro s holds
      have after : Holds (Spinlock.step (.lock u) s) (some u) := holds.step trivial
      exact after.pos_iff.mpr rfl
    cases holder with
    | none => exact ⟨[.lock u], ⟨trivial, trivial⟩, takes s holds⟩
    | some t =>
      by_cases same : t = u
      · exact ⟨[], trivial, holds.pos_iff.mpr (congrArg some same)⟩
      · have outstanding : 0 < s.outstanding t := holds.pos_iff.mpr rfl
        have returned : s.spinning t = false := by
          cases waits : s.spinning t with
          | false => rfl
          | true => exact absurd (free t outstanding waits) same
        have dropped : Holds (Spinlock.step (.drop t) s) none :=
          holds.step (a := .drop t) ⟨returned, outstanding⟩
        exact ⟨[.drop t, .lock u], ⟨⟨returned, outstanding⟩, trivial, trivial⟩, takes _ dropped⟩

/-- A thread that holds the lock, and one that waits for it. -/
def waiting : System Unit Nat := run Spinlock.step [.lock 0, .lock 1] (initial ⟨7, ()⟩ ())

/-- The waiting one can come to hold it. -/
theorem acquirable_iff_waiting :
    (∀ t, 0 < waiting.outstanding t → waiting.spinning t = true → t = 1) ∧
    ((∃ more, Guarded Spinlock.step Allowed more waiting ∧
      0 < (run Spinlock.step ([.lock 0, .lock 1] ++ more) (initial ⟨7, ()⟩ ())).outstanding 1) ↔
      ∀ t, 0 < waiting.outstanding t → waiting.spinning t = true → t = 1) := by
  have whole := acquirable_iff (⟨7, ()⟩ : Kspin Unit) () [.lock 0, .lock 1] ⟨trivial, trivial, trivial⟩ 1
  exact ⟨whole.mp ⟨[.drop 0, .lock 1], ⟨⟨rfl, by decide⟩, trivial, trivial⟩, by decide⟩, whole⟩

end Nulix.Spinlock
