import Mathlib.Logic.Basic

/-!
# Total correctness of fallible loops

A computation that can stop with an error is a value of `Except ε α`. `Returns x Q` is its
total-correctness judgment: `x` does return, and what it returns satisfies `Q`. The module gives
the judgment its structural rules, the two loop forms of C as functions on an explicit state
(`forRange` for a counted loop, `whileLoop` for a conditional one) with an invariant rule for
each, and `runAll` for a finite sequence of commands.
-/

namespace Fallible

variable {ε σ α β : Type}

/-! ## The judgment -/

/-- `x` returns a value, and that value satisfies `Q`. -/
def Returns (x : Except ε α) (Q : α → Prop) : Prop :=
  ∃ a, x = .ok a ∧ Q a

theorem Returns.ok {Q : α → Prop} {a : α} (h : Q a) : Returns (.ok a : Except ε α) Q :=
  ⟨a, rfl, h⟩

theorem Returns.mono {x : Except ε α} {P Q : α → Prop} (h : Returns x P)
    (weaken : ∀ a, P a → Q a) : Returns x Q := by
  obtain ⟨a, returned, holds⟩ := h
  exact ⟨a, returned, weaken a holds⟩

theorem Returns.bind {x : Except ε α} {f : α → Except ε β} {P : α → Prop} {Q : β → Prop}
    (first : Returns x P) (rest : ∀ a, P a → Returns (f a) Q) : Returns (x >>= f) Q := by
  obtain ⟨a, rfl, holds⟩ := first
  exact rest a holds

theorem Returns.bind_ok {x : Except ε α} {f : α → Except ε β} {Q : β → Prop} {a : α}
    (first : x = .ok a) (rest : Returns (f a) Q) : Returns (x >>= f) Q := by
  subst first
  exact rest

/-- A value known to be returned satisfies every postcondition of the computation. -/
theorem Returns.of_eq_ok {x : Except ε α} {Q : α → Prop} {a : α} (h : Returns x Q)
    (returned : x = .ok a) : Q a := by
  obtain ⟨b, returned', holds⟩ := h
  cases returned.symm.trans returned'
  exact holds

theorem Returns.mapError {ε' : Type} {x : Except ε α} {Q : α → Prop} (h : Returns x Q) (f : ε → ε') :
    Returns (x.mapError f) Q := by
  obtain ⟨a, rfl, holds⟩ := h
  exact ⟨a, rfl, holds⟩

@[simp] theorem ok_bind (a : α) (f : α → Except ε β) : (Except.ok a : Except ε α) >>= f = f a := rfl

/-- A composition that returns went through a value of its first part. -/
theorem bind_eq_ok {x : Except ε α} {f : α → Except ε β} {b : β} (returned : x >>= f = .ok b) :
    ∃ a, x = .ok a ∧ f a = .ok b := by
  cases x with
  | error e => cases returned
  | ok a => exact ⟨a, rfl, returned⟩

/-! ## Counted loops -/

/-- `for (i = 0; i < n; i++) body(i)`. -/
def forRange (body : Nat → σ → Except ε σ) : Nat → σ → Except ε σ
  | 0, s => .ok s
  | n + 1, s => forRange body n s >>= body n

/-- The invariant rule of a counted loop: `Inv i` holds before turn `i`. -/
theorem forRange_returns {body : Nat → σ → Except ε σ} {n : Nat} {s : σ}
    (Inv : Nat → σ → Prop) (init : Inv 0 s)
    (turn : ∀ i, i < n → ∀ t, Inv i t → Returns (body i t) (Inv (i + 1))) :
    Returns (forRange body n s) (Inv n) := by
  induction n with
  | zero => exact .ok init
  | succ n ih =>
    have before : Returns (forRange body n s) (Inv n) :=
      ih fun i hi => turn i (Nat.lt_succ_of_lt hi)
    exact before.bind (turn n (Nat.lt_succ_self n))

/-- The first turn that fails ends the loop. -/
theorem forRange_error {body : Nat → σ → Except ε σ} {k n : Nat} {s t : σ} {e : ε} (hk : k < n)
    (before : forRange body k s = .ok t) (fails : body k t = .error e) :
    forRange body n s = .error e := by
  induction n with
  | zero => cases hk
  | succ n ih =>
    unfold forRange
    rcases Nat.lt_succ_iff_lt_or_eq.mp hk with earlier | rfl
    · rw [ih earlier]
      rfl
    · rw [before]
      exact fails

/-! ## Conditional loops -/

/-- `while (cond) body`, allowed fewer than `fuel` turns: a loop that would go on is reported as
`timeout`. -/
def whileLoop (timeout : ε) (cond : σ → Bool) (body : σ → Except ε σ) : Nat → σ → Except ε σ
  | 0, _ => .error timeout
  | fuel + 1, s =>
    if cond s then body s >>= whileLoop timeout cond body fuel else .ok s

/-- A loop whose condition is false makes no turn. -/
theorem whileLoop_skip {timeout : ε} {cond : σ → Bool} {body : σ → Except ε σ} {fuel : Nat} {s : σ}
    (some : 0 < fuel) (stops : cond s = false) :
    whileLoop timeout cond body fuel s = .ok s := by
  cases fuel with
  | zero => cases some
  | succ fuel => rw [whileLoop, stops, if_neg Bool.false_ne_true]

/-- The invariant rule of a conditional loop, with a variant that bounds the number of turns. -/
theorem whileLoop_returns {timeout : ε} {cond : σ → Bool} {body : σ → Except ε σ}
    (Inv : σ → Prop) (variant : σ → Nat)
    (turn : ∀ t, Inv t → cond t = true →
      Returns (body t) fun t' => Inv t' ∧ variant t' < variant t) :
    ∀ {fuel : Nat} {s : σ}, Inv s → variant s < fuel →
      Returns (whileLoop timeout cond body fuel s) fun t => Inv t ∧ cond t = false := by
  intro fuel
  induction fuel with
  | zero => intro s _ bound; cases bound
  | succ fuel ih =>
    intro s init bound
    unfold whileLoop
    split
    · rename_i continues
      refine (turn s init continues).bind fun t ⟨inv, smaller⟩ => ?_
      exact ih inv (by omega)
    · rename_i stops
      exact .ok ⟨init, by simpa using stops⟩

/-- The invariant rule with the number of turns made as a parameter of the invariant. -/
theorem whileLoop_counts {timeout : ε} {cond : σ → Bool} {body : σ → Except ε σ} {limit : Nat}
    (Inv : Nat → σ → Prop)
    (turn : ∀ k t, Inv k t → cond t = true → k + 1 < limit ∧ Returns (body t) (Inv (k + 1))) :
    ∀ {fuel k : Nat} {s : σ}, Inv k s → k + fuel = limit → 0 < fuel →
      Returns (whileLoop timeout cond body fuel s) fun t => ∃ j, Inv j t ∧ cond t = false := by
  intro fuel
  induction fuel with
  | zero => intro k s _ _ some; cases some
  | succ fuel ih =>
    intro k s inv total _
    unfold whileLoop
    split
    · rename_i continues
      obtain ⟨early, again⟩ := turn k s inv continues
      exact again.bind fun t next => ih next (by omega) (by omega)
    · rename_i stops
      exact .ok ⟨k, inv, by simpa using stops⟩

/-! ## Finite sequences of commands -/

/-- Run a sequence of commands, stopping at the first that fails. -/
def runAll (step : α → σ → Except ε σ) : List α → σ → Except ε σ
  | [], s => .ok s
  | c :: cs, s => step c s >>= runAll step cs

/-- An invariant that every command of the sequence keeps holds where the sequence ends. -/
theorem runAll_returns {step : α → σ → Except ε σ} (Inv : σ → Prop) {cs : List α} {s : σ}
    (init : Inv s) (keeps : ∀ c ∈ cs, ∀ t, Inv t → Returns (step c t) Inv) :
    Returns (runAll step cs s) Inv := by
  induction cs generalizing s with
  | nil => exact .ok init
  | cons c cs ih =>
    refine (keeps c (by simp) s init).bind fun t inv => ?_
    exact ih inv fun d hd => keeps d (by simp [hd])

/-- A run that returns follows a run of the abstract machine `f`, if each of its commands does. -/
theorem runAll_simulates {ν : Type} {step : α → σ → Except ε σ} {f : ν → α → ν} (R : ν → σ → Prop)
    (keeps : ∀ c v s s', R v s → step c s = .ok s' → R (f v c) s') {cs : List α} :
    ∀ {v : ν} {s s' : σ}, R v s → runAll step cs s = .ok s' → R (cs.foldl f v) s' := by
  induction cs with
  | nil =>
    intro v s s' init ran
    cases ran
    exact init
  | cons c cs ih =>
    intro v s s' init ran
    obtain ⟨t, first, rest⟩ := bind_eq_ok ran
    exact ih (keeps c v s t init first) rest

/-- A run returns if and only if each of its commands is safe in the state of the abstract machine. -/
theorem runAll_ok_iff {ν : Type} {step : α → σ → Except ε σ} {f : ν → α → ν} {safe : ν → α → Prop}
    (R : ν → σ → Prop) (keeps : ∀ c v s s', R v s → step c s = .ok s' → R (f v c) s')
    (exact : ∀ c v s, R v s → ((∃ s', step c s = .ok s') ↔ safe v c)) {cs : List α} :
    ∀ {v : ν} {s : σ}, R v s →
      ((∃ s', runAll step cs s = .ok s') ↔
        ∀ before c after, cs = before ++ c :: after → safe (before.foldl f v) c) := by
  induction cs with
  | nil =>
    intro v s _
    exact iff_of_true ⟨s, rfl⟩ fun before c after split => by simp at split
  | cons c cs ih =>
    intro v s init
    constructor
    · rintro ⟨s', ran⟩ before d after split
      obtain ⟨t, first, rest⟩ := bind_eq_ok ran
      cases before with
      | nil =>
        obtain ⟨rfl, -⟩ := List.cons.inj split
        exact (exact c v s init).mp ⟨t, first⟩
      | cons b before =>
        obtain ⟨rfl, tail⟩ := List.cons.inj split
        exact (ih (keeps c v s t init first)).mp ⟨s', rest⟩ before d after tail
    · intro all
      obtain ⟨t, first⟩ := (exact c v s init).mpr (all [] c cs rfl)
      obtain ⟨s', rest⟩ := (ih (keeps c v s t init first)).mpr fun before d after split =>
        all (c :: before) d after (congrArg (c :: ·) split)
      exact ⟨s', by rw [runAll, first]; exact rest⟩

/-! ## Exact conditions -/

/-- `x` returns exactly if `c` holds, and then a value that satisfies `Q`. -/
def ReturnsWhen (c : Prop) (x : Except ε α) (Q : α → Prop) : Prop :=
  (c → Returns x Q) ∧ (¬c → ∃ e, x = .error e)

section ReturnsWhen

variable {c : Prop} {x : Except ε α} {P Q : α → Prop}

theorem Returns.when (h : Returns x Q) (holds : c) : ReturnsWhen c x Q :=
  ⟨fun _ => h, fun fails => absurd holds fails⟩

theorem ReturnsWhen.error (e : ε) (fails : ¬c) : ReturnsWhen c (.error e : Except ε α) Q :=
  ⟨fun holds => absurd holds fails, fun _ => ⟨e, rfl⟩⟩

theorem ReturnsWhen.of_eq_ok (h : ReturnsWhen c x Q) {a : α} (returned : x = .ok a) : Q a := by
  by_cases holds : c
  · exact (h.1 holds).of_eq_ok returned
  · obtain ⟨e, stopped⟩ := h.2 holds
    cases stopped.symm.trans returned

theorem ReturnsWhen.returns_iff (h : ReturnsWhen c x Q) : (∃ a, x = .ok a) ↔ c := by
  constructor
  · rintro ⟨a, returned⟩
    by_cases holds : c
    · exact holds
    · obtain ⟨e, stopped⟩ := h.2 holds
      cases stopped.symm.trans returned
  · intro holds
    obtain ⟨a, returned, -⟩ := h.1 holds
    exact ⟨a, returned⟩

/-- One after the other: the conditions of both. -/
theorem ReturnsWhen.bind_when {d : Prop} {f : α → Except ε β} {R : β → Prop}
    (first : ReturnsWhen c x P) (rest : ∀ a, P a → ReturnsWhen d (f a) R) :
    ReturnsWhen (c ∧ d) (x >>= f) R := by
  by_cases holds : c
  · obtain ⟨a, rfl, here⟩ := first.1 holds
    rw [and_iff_right holds]
    exact rest a here
  · obtain ⟨e, rfl⟩ := first.2 holds
    exact .error e fun both => holds both.1

/-- The condition is that of what comes second. -/
theorem Returns.bind_when {f : α → Except ε β} {R : β → Prop} (first : Returns x P)
    (rest : ∀ a, P a → ReturnsWhen c (f a) R) : ReturnsWhen c (x >>= f) R := by
  obtain ⟨a, rfl, holds⟩ := first
  exact rest a holds

/-- The condition is that of what comes first. -/
theorem ReturnsWhen.bind {f : α → Except ε β} {R : β → Prop} (first : ReturnsWhen c x P)
    (rest : ∀ a, P a → Returns (f a) R) : ReturnsWhen c (x >>= f) R := by
  have both := first.bind_when fun a holds => (rest a holds).when trivial
  rwa [and_true] at both

theorem ReturnsWhen.mapError {ε' : Type} (h : ReturnsWhen c x Q) (f : ε → ε') :
    ReturnsWhen c (x.mapError f) Q := by
  refine ⟨fun holds => (h.1 holds).mapError f, fun fails => ?_⟩
  obtain ⟨e, stopped⟩ := h.2 fails
  exact ⟨f e, by rw [stopped]; rfl⟩

end ReturnsWhen

/-! ## Runs of an abstract machine -/

section AllSafe

variable {ν : Type} {f : ν → α → ν} {safe : ν → α → Prop}

/-- Each command of a sequence is safe in the state that the commands before it lead to. -/
def AllSafe (f : ν → α → ν) (safe : ν → α → Prop) (v : ν) (cs : List α) : Prop :=
  ∀ before c after, cs = before ++ c :: after → safe (before.foldl f v) c

theorem AllSafe.nil {v : ν} : AllSafe f safe v [] := by
  intro before c after split
  simp at split

theorem allSafe_cons {v : ν} {c : α} {cs : List α} :
    AllSafe f safe v (c :: cs) ↔ safe v c ∧ AllSafe f safe (f v c) cs := by
  constructor
  · intro all
    exact ⟨all [] c cs rfl, fun before d after split => all (c :: before) d after (congrArg (c :: ·) split)⟩
  · rintro ⟨first, rest⟩ before d after split
    cases before with
    | nil =>
      obtain ⟨rfl, -⟩ := List.cons.inj split
      exact first
    | cons b before =>
      obtain ⟨rfl, tail⟩ := List.cons.inj split
      exact rest before d after tail

theorem allSafe_append {v : ν} {cs ds : List α} :
    AllSafe f safe v (cs ++ ds) ↔ AllSafe f safe v cs ∧ AllSafe f safe (cs.foldl f v) ds := by
  induction cs generalizing v with
  | nil => exact (and_iff_right .nil).symm
  | cons c cs ih => rw [List.cons_append, allSafe_cons, ih, allSafe_cons, List.foldl_cons, and_assoc]

/-- An invariant that safe commands keep holds where they lead to. -/
theorem AllSafe.foldl {Inv : ν → Prop} (keeps : ∀ v c, Inv v → safe v c → Inv (f v c)) {cs : List α} {v : ν}
    (all : AllSafe f safe v cs) (init : Inv v) : Inv (cs.foldl f v) := by
  induction cs generalizing v with
  | nil => exact init
  | cons c cs ih =>
    obtain ⟨first, rest⟩ := allSafe_cons.mp all
    exact ih rest (keeps v c init first)

/-- A run follows the abstract machine, and comes to its end exactly if its commands are safe there. -/
theorem runAll_when {step : α → σ → Except ε σ} (R : ν → σ → Prop)
    (steps : ∀ c v s, R v s → ReturnsWhen (safe v c) (step c s) (R (f v c))) (cs : List α) {v : ν} {s : σ}
    (init : R v s) : ReturnsWhen (AllSafe f safe v cs) (runAll step cs s) (R (cs.foldl f v)) := by
  have keeps : ∀ c v s s', R v s → step c s = .ok s' → R (f v c) s' := fun c v s s' related ran =>
    (steps c v s related).of_eq_ok ran
  have exact : ∀ c v s, R v s → ((∃ s', step c s = .ok s') ↔ safe v c) := fun c v s related =>
    (steps c v s related).returns_iff
  refine ⟨fun safe => ?_, fun fails => ?_⟩
  · obtain ⟨s', ran⟩ := (runAll_ok_iff R keeps exact init).mpr safe
    exact ⟨s', ran, runAll_simulates R keeps init ran⟩
  · cases ran : runAll step cs s with
    | error e => exact ⟨e, rfl⟩
    | ok s' => exact absurd ((runAll_ok_iff R keeps exact init).mp ⟨s', ran⟩) fails

end AllSafe

/-! ## Partial correctness -/

/-- If `x` returns a value, that value satisfies `Q`. -/
def Ensures (x : Except ε α) (Q : α → Prop) : Prop :=
  ∀ a, x = .ok a → Q a

section Ensures

variable {P : α → Prop} {x : Except ε α}

theorem Ensures.ok {a : α} (h : P a) : Ensures (.ok a : Except ε α) P := by
  intro b same
  cases same
  exact h

theorem Ensures.error (e : ε) : Ensures (.error e : Except ε α) P := nofun

theorem Ensures.bind {f : α → Except ε β} {Q : β → Prop} (first : Ensures x P)
    (rest : ∀ a, P a → Ensures (f a) Q) : Ensures (x >>= f) Q := by
  intro b returned
  obtain ⟨a, ok, later⟩ := bind_eq_ok returned
  exact rest a (first a ok) b later

/-- Total correctness is partial correctness and a value. -/
theorem Returns.and_ensures {Q : α → Prop} (h : Returns x P) (also : Ensures x Q) :
    Returns x fun a => P a ∧ Q a := by
  obtain ⟨a, returned, holds⟩ := h
  exact ⟨a, returned, holds, also a returned⟩

variable {Inv : σ → Prop}

theorem forRange_ensures {body : Nat → σ → Except ε σ} {n : Nat}
    (turn : ∀ i, i < n → ∀ s, Inv s → Ensures (body i s) Inv) {s : σ} (init : Inv s) :
    Ensures (forRange body n s) Inv := by
  induction n with
  | zero => exact .ok init
  | succ n ih =>
    have before : Ensures (forRange body n s) Inv := ih fun i hi => turn i (Nat.lt_succ_of_lt hi)
    exact before.bind (turn n (Nat.lt_succ_self n))

theorem whileLoop_ensures {timeout : ε} {cond : σ → Bool} {body : σ → Except ε σ}
    (turn : ∀ s, Inv s → Ensures (body s) Inv) (fuel : Nat) {s : σ} (init : Inv s) :
    Ensures (whileLoop timeout cond body fuel s) Inv := by
  induction fuel generalizing s with
  | zero => exact .error timeout
  | succ fuel ih =>
    unfold whileLoop
    split
    · exact (turn s init).bind fun t inv => ih inv
    · exact .ok init

theorem runAll_ensures {step : α → σ → Except ε σ} (keeps : ∀ c s, Inv s → Ensures (step c s) Inv)
    (cs : List α) {s : σ} (init : Inv s) : Ensures (runAll step cs s) Inv := by
  induction cs generalizing s with
  | nil => exact .ok init
  | cons c cs ih => exact (keeps c s init).bind fun t inv => ih inv

end Ensures

end Fallible
