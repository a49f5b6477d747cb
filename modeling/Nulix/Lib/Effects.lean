import Mathlib.Logic.Basic

/-!
# Programs with operations

A program is done with a value, or it asks for an operation and goes on with the answer. What it asks for
can be bounded without a meaning of its operations: `Always` is about every course that it can take. A
handler gives the operations a meaning, and `run` the program.
-/

namespace Effects

inductive Prog (Op : Type) (Answer : Op → Type) (α : Type)
  | done (a : α)
  | ask (op : Op) (next : Answer op → Prog Op Answer α)

namespace Prog

variable {Op : Type} {Answer : Op → Type} {α β : Type}

def bind : Prog Op Answer α → (α → Prog Op Answer β) → Prog Op Answer β
  | done a, f => f a
  | ask op next, f => ask op fun answer => (next answer).bind f

instance : Monad (Prog Op Answer) where
  pure := done
  bind := bind

/-- A single operation. -/
def call (op : Op) : Prog Op Answer (Answer op) := ask op done

/-! ## Every course -/

section

variable {allowed : (op : Op) → Answer op → Prop} {P : Op → Prop}

/-- With whatever answers, as far as they are allowed, the program asks only for operations with `P`, and
the value it ends with satisfies `Q`. -/
def Always (allowed : (op : Op) → Answer op → Prop) (P : Op → Prop) : Prog Op Answer α → (α → Prop) → Prop
  | done a, Q => Q a
  | ask op next, Q => P op ∧ ∀ answer, allowed op answer → (next answer).Always allowed P Q

@[simp] theorem always_pure (a : α) (Q : α → Prop) :
    Always allowed P (pure a : Prog Op Answer α) Q ↔ Q a := Iff.rfl

@[simp] theorem always_call (op : Op) (Q : Answer op → Prop) :
    (call op).Always allowed P Q ↔ P op ∧ ∀ answer, allowed op answer → Q answer := Iff.rfl

@[simp] theorem always_bind (x : Prog Op Answer α) (f : α → Prog Op Answer β) (Q : β → Prop) :
    (x >>= f).Always allowed P Q ↔ x.Always allowed P fun a => (f a).Always allowed P Q := by
  induction x with
  | done a => exact Iff.rfl
  | ask op next ih => exact and_congr_right' (forall_congr' fun answer => imp_congr_right fun _ => ih answer)

theorem always_ite (c : Prop) [Decidable c] (x y : Prog Op Answer α) (Q : α → Prop) :
    (if c then x else y).Always allowed P Q ↔ (c → x.Always allowed P Q) ∧ (¬c → y.Always allowed P Q) := by
  split
  · next holds => simp [holds]
  · next fails => simp [fails]

end

/-! ## A meaning -/

variable {σ ε : Type} (handle : (op : Op) → σ → Except ε (Answer op × σ))

def run : Prog Op Answer α → σ → Except ε (α × σ)
  | done a, s => .ok (a, s)
  | ask op next, s => do
    let (answer, s) ← handle op s
    (next answer).run s

@[simp] theorem run_pure (a : α) (s : σ) : (pure a : Prog Op Answer α).run handle s = .ok (a, s) := rfl

@[simp] theorem run_call (op : Op) (s : σ) : (call op).run handle s = handle op s := by
  unfold call run
  cases handle op s <;> rfl

@[simp] theorem run_bind (x : Prog Op Answer α) (f : α → Prog Op Answer β) (s : σ) :
    (x >>= f).run handle s = x.run handle s >>= fun r => (f r.1).run handle r.2 := by
  induction x generalizing s with
  | done a => rfl
  | ask op next ih =>
    show handle op s >>= (fun r => ((next r.1 >>= f).run handle r.2)) =
      (handle op s >>= fun r => (next r.1).run handle r.2) >>= _
    rw [bind_assoc]
    exact bind_congr fun r => ih r.1 r.2

section

variable {handle} {allowed : (op : Op) → Answer op → Prop} {P : Op → Prop} {Inv : σ → Prop}
  {x : Prog Op Answer α} {Q : α → Prop} {s : σ}

/-- Where the handler keeps an invariant on the operations that a program can ask for, and always has an
answer to them, the program comes to its end and keeps it. -/
theorem Always.run_returns (always : x.Always allowed P Q)
    (answers : ∀ op s, P op → Inv s → ∃ r, handle op s = .ok r ∧ allowed op r.1 ∧ Inv r.2)
    (inv : Inv s) : ∃ r, x.run handle s = .ok r ∧ Q r.1 ∧ Inv r.2 := by
  induction x generalizing s with
  | done a => exact ⟨(a, s), rfl, always, inv⟩
  | ask op next ih =>
    obtain ⟨asks, rest⟩ := always
    obtain ⟨answered, handled, fits, kept⟩ := answers op s asks inv
    obtain ⟨r, ran, holds⟩ := ih answered.1 (rest answered.1 fits) kept
    exact ⟨r, by rw [run, handled]; exact ran, holds⟩

end

end Prog

end Effects
