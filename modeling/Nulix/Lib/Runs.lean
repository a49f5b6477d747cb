import Mathlib.Logic.Basic

/-!
# Runs of a deterministic machine

A machine is a total function `step` from a command and a state to the next state, and `run` makes
it obey a list of commands. A guard is a condition on a command and the state in which it is given;
`Guarded` says that every command of the list meets it where it is given. Since every prefix of a
guarded list is guarded, a statement about the last state of every guarded run is one about every
state that such a run reaches.
-/

namespace Runs

variable {α σ τ : Type}

def run (step : α → σ → σ) : List α → σ → σ
  | [], s => s
  | c :: cs, s => run step cs (step c s)

def Guarded (step : α → σ → σ) (guard : α → σ → Prop) : List α → σ → Prop
  | [], _ => True
  | c :: cs, s => guard c s ∧ Guarded step guard cs (step c s)

variable {step : α → σ → σ} {guard : α → σ → Prop}

theorem run_append (cs ds : List α) (s : σ) :
    run step (cs ++ ds) s = run step ds (run step cs s) := by
  induction cs generalizing s with
  | nil => rfl
  | cons c cs ih => exact ih (step c s)

theorem guarded_true (cs : List α) (s : σ) : Guarded step (fun _ _ => True) cs s := by
  induction cs generalizing s with
  | nil => trivial
  | cons c cs ih => exact ⟨trivial, ih (step c s)⟩

theorem guarded_append {cs ds : List α} {s : σ} (first : Guarded step guard cs s)
    (rest : Guarded step guard ds (run step cs s)) : Guarded step guard (cs ++ ds) s := by
  induction cs generalizing s with
  | nil => exact rest
  | cons c cs ih => exact ⟨first.1, ih first.2 rest⟩

/-- A state invariant that every guarded step of the run keeps holds at its end. -/
theorem run_invariant (Inv : σ → Prop) {cs : List α} {s : σ}
    (keeps : ∀ c ∈ cs, ∀ s, guard c s → Inv s → Inv (step c s))
    (guarded : Guarded step guard cs s) (init : Inv s) : Inv (run step cs s) := by
  induction cs generalizing s with
  | nil => exact init
  | cons c cs ih =>
    obtain ⟨first, rest⟩ := guarded
    have later : ∀ c' ∈ cs, ∀ s, guard c' s → Inv s → Inv (step c' s) :=
      fun c' mem => keeps c' (List.mem_cons_of_mem c mem)
    exact ih later rest (keeps c List.mem_cons_self s first init)

/-- Where an invariant makes the guard of a step say what holds after it, a run is guarded exactly if
that holds after each of its steps. -/
theorem guarded_iff_forall_prefix (Inv Post : σ → Prop) {cs : List α} {s : σ}
    (keeps : ∀ c ∈ cs, ∀ s, Inv s → Inv (step c s))
    (exact : ∀ c ∈ cs, ∀ s, Inv s → (guard c s ↔ Post (step c s))) (init : Inv s) :
    Guarded step guard cs s ↔
      ∀ before c after, cs = before ++ c :: after → Post (run step (before ++ [c]) s) := by
  induction cs generalizing s with
  | nil => exact iff_of_true trivial fun before c after split => by simp at split
  | cons c cs ih =>
    have rest := ih (fun c' mem => keeps c' (List.mem_cons_of_mem c mem))
      (fun c' mem => exact c' (List.mem_cons_of_mem c mem)) (keeps c List.mem_cons_self s init)
    rw [Guarded, rest, exact c List.mem_cons_self s init]
    constructor
    · rintro ⟨first, later⟩ before c' after split
      cases before with
      | nil =>
        obtain ⟨rfl, -⟩ := List.cons.inj split
        exact first
      | cons b before =>
        obtain ⟨rfl, tail⟩ := List.cons.inj split
        exact later before c' after tail
    · intro all
      refine ⟨all [] c cs rfl, fun before c' after split => ?_⟩
      exact all (c :: before) c' after (congrArg (c :: ·) split)

/-- A simulation that every guarded step of the run keeps holds at its end. -/
theorem run_simulation {step' : α → τ → τ} (Sim : σ → τ → Prop) {cs : List α} {s : σ} {t : τ}
    (keeps : ∀ c ∈ cs, ∀ s t, guard c s → Sim s t → Sim (step c s) (step' c t))
    (guarded : Guarded step guard cs s) (init : Sim s t) :
    Sim (run step cs s) (run step' cs t) := by
  induction cs generalizing s t with
  | nil => exact init
  | cons c cs ih =>
    obtain ⟨first, rest⟩ := guarded
    have later : ∀ c' ∈ cs, ∀ s t, guard c' s → Sim s t → Sim (step c' s) (step' c' t) :=
      fun c' mem => keeps c' (List.mem_cons_of_mem c mem)
    exact ih later rest (keeps c List.mem_cons_self s t first init)

/-- A weak simulation: the other machine does not see the silent commands, and is run on the rest. The
guard is one on the other machine. -/
theorem run_weak_simulation {step' : α → τ → τ} {guard' : α → τ → Prop} (silent : α → Bool)
    (Sim : σ → τ → Prop) {cs : List α} {s : σ} {t : τ}
    (skips : ∀ c, silent c = true → ∀ s t, Sim s t → Sim (step c s) t)
    (keeps : ∀ c, silent c = false → ∀ s t, guard' c t → Sim s t → Sim (step c s) (step' c t))
    (guarded : Guarded step' guard' (cs.filter fun c => !silent c) t) (init : Sim s t) :
    Sim (run step cs s) (run step' (cs.filter fun c => !silent c) t) := by
  induction cs generalizing s t with
  | nil => exact init
  | cons c cs ih =>
    cases hidden : silent c with
    | true =>
      rw [List.filter_cons_of_neg (by rw [hidden]; decide)] at guarded ⊢
      exact ih guarded (skips c hidden s t init)
    | false =>
      rw [List.filter_cons_of_pos (by rw [hidden]; decide)] at guarded ⊢
      obtain ⟨first, rest⟩ := guarded
      exact ih rest (keeps c hidden s t first init)

end Runs
