import Nulix.Std.Basic

/-!
# Exactness of the integer parsers

The three phases of a parser, each with the part of the string that it leaves to the next, and the loop
over the digits as the reader with a limit of positional notation.
-/

namespace Nulix.Std

open Fallible Positional Print

/-! ## Reading the string -/

/-- `c` is the character before `s`, and `l` is the string from there on. -/
structure Reading (nptr : Text) (c : BitVec 8) (s : Nat) (l : Text) : Prop where
  whole : ∃ before, nptr = before ++ l ∧ s = before.length + 1
  char : c = l.headD 0

theorem charAt_append (before l : Text) : charAt (before ++ l) before.length = .ok (l.headD 0) := by
  rw [charAt, if_pos (by simp), List.getD_append_right _ _ _ _ (Nat.le_refl _), Nat.sub_self]
  cases l <;> rfl

namespace Reading

variable {nptr l : Text} {c d : BitVec 8} {s : Nat}

theorem length (reading : Reading nptr c s l) : s + l.length = nptr.length + 1 := by
  obtain ⟨⟨before, rfl, rfl⟩, -⟩ := reading
  rw [List.length_append]
  omega

/-- Behind a character there is one more to read, if only the terminating zero. -/
theorem next (reading : Reading nptr c s (d :: l)) :
    charAt nptr s = .ok (l.headD 0) ∧ Reading nptr (l.headD 0) (s + 1) l := by
  obtain ⟨⟨before, rfl, rfl⟩, -⟩ := reading
  have split : before ++ d :: l = (before ++ [d]) ++ l := by rw [List.append_assoc, List.singleton_append]
  have length : before.length + 1 = (before ++ [d]).length := by simp
  rw [split, length]
  exact ⟨charAt_append _ _, ⟨_, rfl, rfl⟩, rfl⟩

/-- The terminating zero is none of the characters that lead on. -/
theorem cons_of_ne (reading : Reading nptr c s l) (some : c ≠ 0) : ∃ l', l = c :: l' := by
  have char := reading.char
  cases l with
  | nil => exact absurd char some
  | cons d l => exact ⟨l, by rw [char]; rfl⟩

theorem spaces (before : Text) :
    ∀ {fuel : Nat}, l.length < fuel →
      Returns (strtoSpaces (before ++ l) fuel before.length) fun r =>
        Reading (before ++ l) r.1 r.2 (l.dropWhile fun c => [c] = text " ") := by
  induction l generalizing before with
  | nil =>
    intro fuel bound
    obtain ⟨fuel, rfl⟩ := Nat.exists_eq_succ_of_ne_zero (Nat.ne_of_gt bound)
    unfold strtoSpaces
    exact Returns.bind_ok (charAt_append before []) (.ok ⟨⟨before, rfl, rfl⟩, rfl⟩)
  | cons d l ih =>
    intro fuel bound
    obtain ⟨fuel, rfl⟩ := Nat.exists_eq_succ_of_ne_zero (Nat.ne_of_gt (Nat.zero_lt_of_lt bound))
    unfold strtoSpaces
    refine Returns.bind_ok (charAt_append before (d :: l)) ?_
    rw [List.headD_cons]
    by_cases space : d = 0x20
    · have split : before ++ d :: l = (before ++ [d]) ++ l := by
        rw [List.append_assoc, List.singleton_append]
      have length : before.length + 1 = (before ++ [d]).length := by simp
      rw [if_pos space, split, length,
        List.dropWhile_cons_of_pos (by rw [space]; rfl)]
      exact ih (before ++ [d]) (Nat.lt_of_succ_lt_succ bound)
    · have other : [d] ≠ text " " := fun same => space (List.head_eq_of_cons_eq same)
      rw [if_neg space, List.dropWhile_cons_of_neg (by simpa using other)]
      exact .ok ⟨⟨before, rfl, rfl⟩, rfl⟩

theorem sign (reading : Reading nptr c s l) (signed : Bool) :
    Returns (strtoSign signed nptr c s) fun r =>
      r.1 = (signOf signed l).1 ∧ Reading nptr r.2.1 r.2.2 (signOf signed l).2 := by
  cases l with
  | nil =>
    have ended : c = 0 := reading.char
    subst ended
    unfold strtoSign
    rw [if_neg (by rintro ⟨-, same⟩; cases same), if_neg (by decide)]
    exact .ok ⟨rfl, reading⟩
  | cons d l =>
    obtain rfl : c = d := reading.char
    have minus : [c] = text "-" ↔ c = 0x2d := List.cons_eq_cons.trans (and_iff_left rfl)
    have plus : [c] = text "+" ↔ c = 0x2b := List.cons_eq_cons.trans (and_iff_left rfl)
    obtain ⟨read, next⟩ := reading.next
    simp only [strtoSign, signOf, minus, plus]
    rw [read]
    by_cases negative : signed ∧ c = 0x2d
    · rw [if_pos negative, if_pos negative]
      exact .ok ⟨rfl, next⟩
    · rw [if_neg negative, if_neg negative]
      by_cases positive : c = 0x2b
      · rw [if_pos positive, if_pos positive]
        exact .ok ⟨rfl, next⟩
      · rw [if_neg positive, if_neg positive]
        exact .ok ⟨rfl, reading⟩

/-- Without a prefix the first digit decides on the base. -/
theorem radixOf_plain (reading : Reading nptr c s l) {base : Nat}
    (plain : ¬((base = 0 ∨ base = 16) ∧ (text "0x" <+: l ∨ text "0X" <+: l))) :
    radixOf base l = (strtoBase base c, l) := by
  have zero : text "0" <+: l ↔ c = 0x30 := by
    rw [reading.char]
    cases l with
    | nil => decide
    | cons d l =>
      show [0x30] <+: d :: l ↔ d = 0x30
      rw [List.cons_prefix_cons]
      exact (and_iff_left (List.nil_prefix)).trans eq_comm
  unfold radixOf strtoBase
  rw [if_neg plain]
  simp only [zero]
  split <;> rfl

theorem radix (reading : Reading nptr c s l) (base : Nat) :
    Returns (strtoPrefix nptr base c s) fun r =>
      r.1 = (radixOf base l).1 ∧ Reading nptr r.2.1 r.2.2 (radixOf base l).2 := by
  unfold strtoPrefix
  by_cases zero : (base = 0 ∨ base = 16) ∧ c = 0x30
  · obtain ⟨l, rfl⟩ := reading.cons_of_ne (by rw [zero.2]; decide)
    obtain ⟨read, next⟩ := reading.next
    rw [if_pos zero]
    refine .bind_ok read ?_
    have starts : (text "0x" <+: c :: l ∨ text "0X" <+: c :: l) ↔
        l.headD 0 = 0x78 ∨ l.headD 0 = 0x58 := by
      rw [zero.2]
      cases l with
      | nil => decide
      | cons x l =>
        show [0x30, 0x78] <+: (0x30 : BitVec 8) :: x :: l ∨ [0x30, 0x58] <+: (0x30 : BitVec 8) :: x :: l ↔
          x = 0x78 ∨ x = 0x58
        simp only [List.cons_prefix_cons, List.nil_prefix, and_true, true_and]
        exact or_congr eq_comm eq_comm
    by_cases hex : l.headD 0 = 0x78 ∨ l.headD 0 = 0x58
    · rw [if_pos hex, radixOf, if_pos ⟨zero.1, starts.mpr hex⟩]
      cases l with
      | nil => exact absurd hex (by decide)
      | cons x l =>
        obtain ⟨read', next'⟩ := next.next
        exact .bind_ok read' (.ok ⟨rfl, next'⟩)
    · rw [if_neg hex, reading.radixOf_plain fun ⟨_, hex'⟩ => hex (starts.mp hex')]
      exact .ok ⟨rfl, reading⟩
  · have plain : ¬((base = 0 ∨ base = 16) ∧ (text "0x" <+: l ∨ text "0X" <+: l)) := by
      rintro ⟨some, ⟨m, rfl⟩ | ⟨m, rfl⟩⟩ <;> exact zero ⟨some, reading.char⟩
    rw [if_neg zero, reading.radixOf_plain plain]
    exact .ok ⟨rfl, reading⟩

end Reading

/-! ## The loop over the digits -/

/-- The position of a character in a run of consecutive characters. -/
theorem idxOf?_run (c : BitVec 8) (a : Nat) {n : Nat} (fits : a + n ≤ 256) :
    ((List.range n).map fun i => BitVec.ofNat 8 (a + i)).idxOf? c =
      if a ≤ c.toNat ∧ c.toNat < a + n then some (c.toNat - a) else none := by
  induction n with
  | zero => rw [if_neg (by omega)]; rfl
  | succ n ih =>
    have last : (BitVec.ofNat 8 (a + n) == c) = decide (c.toNat = a + n) := by
      have same : BitVec.ofNat 8 (a + n) = c ↔ c.toNat = a + n := by
        rw [BitVec.toNat_eq, BitVec.toNat_ofNat, Nat.mod_eq_of_lt (by omega), eq_comm]
      exact decide_eq_decide.mpr same
    have before := ih (by omega)
    rw [List.idxOf?] at before ⊢
    rw [List.range_succ, List.map_append, List.findIdx?_append, before]
    simp only [List.map_cons, List.map_nil, List.findIdx?_cons, last, List.findIdx?_nil,
      List.length_map, List.length_range]
    grind

theorem strtoDigit_eq (c : BitVec 8) : strtoDigit c = digitValue c := by
  have lower : text "0123456789abcdefghijklmnopqrstuvwxyz" =
    (List.range 10).map (fun i => .ofNat 8 (0x30 + i)) ++
      (List.range 26).map fun i => .ofNat 8 (0x61 + i) := by decide
  have upper : text "0123456789ABCDEFGHIJKLMNOPQRSTUVWXYZ" =
    (List.range 10).map (fun i => .ofNat 8 (0x30 + i)) ++
      (List.range 26).map fun i => .ofNat 8 (0x41 + i) := by decide
  have run := fun a n (fits : a + n ≤ 256) => idxOf?_run c a fits
  unfold List.idxOf? at run
  unfold digitValue List.idxOf? strtoDigit
  rw [lower, upper, List.findIdx?_append, List.findIdx?_append, run 0x30 10 (by decide),
    run 0x41 26 (by decide), run 0x61 26 (by decide)]
  simp only [List.length_map, List.length_range]
  clear run lower upper
  split_ifs <;> simp <;> omega

/-- The number accumulated so far, unless it is past the limit. -/
def Strto.read {w : Nat} (t : Strto w) : Option Nat := if t.any < 0 then none else some t.acc.toNat

variable {w base limit : Nat}

/-- A turn is a step of the reader with a limit: below it nothing wraps. -/
theorem Strto.read_take {cutoff : BitVec w} {t : Strto w} {d : Nat} (narrow : base < 2 ^ w)
    (fits : limit < 2 ^ w) (quotient : cutoff.toNat = limit / base) (digit : d < base) :
    (t.take base cutoff (limit % base) d).read =
      t.read.bind fun v => if limit < v * base + d then none else some (v * base + d) := by
  by_cases past : t.any < 0
  · rw [Strto.take, if_pos (.inl past), Strto.read, Strto.read, if_pos past]
    rfl
  · have test := limit_lt_iff limit t.acc.toNat digit
    have compares : (t.any < 0 ∨ t.acc > cutoff ∨ t.acc = cutoff ∧ d > limit % base) ↔
        limit < t.acc.toNat * base + d := by
      rw [or_iff_right past, test, ← quotient, BitVec.toNat_eq]
      exact Iff.rfl
    have before : t.read = some t.acc.toNat := if_neg past
    rw [Strto.take, if_congr compares rfl rfl, before, Option.bind_some]
    by_cases beyond : limit < t.acc.toNat * base + d
    · rw [if_pos beyond, if_pos beyond]
      rfl
    · rw [if_neg beyond, if_neg beyond]
      have narrower : t.acc.toNat * base + d < 2 ^ w := by omega
      have small : d < 2 ^ w := by omega
      show some (t.acc * BitVec.ofNat w base + BitVec.ofNat w d).toNat = _
      rw [BitVec.toNat_add, BitVec.toNat_mul, BitVec.toNat_ofNat, BitVec.toNat_ofNat,
        Nat.mod_eq_of_lt narrow, Nat.mod_eq_of_lt small, Nat.mod_add_mod, Nat.mod_eq_of_lt narrower]

theorem Strto.any_take {cutoff : BitVec w} {cutlim d : Nat} {t : Strto w} :
    (t.take base cutoff cutlim d).any ≠ 0 := by
  rw [Strto.take]
  split
  · exact (by decide : (-1 : Int) ≠ 0)
  · exact (by decide : (1 : Int) ≠ 0)

/-- On the way from `t` to `t'` the loop goes over the run of digits at the start of `l`, and only over
it. -/
structure Consumes (base limit : Nat) (l : Text) (t t' : Strto w) : Prop where
  position : t'.s = t.s + (digitRun base l).length
  read : t'.read = accumulate limit base t.read (digitRun base l)
  any : t'.any = 0 ↔ t.any = 0 ∧ digitRun base l = []

theorem Consumes.stop {l : Text} {t : Strto w} (none : digitRun base l = []) :
    Consumes base limit l t t := by
  constructor <;> rw [none]
  · rfl
  · rfl
  · exact (and_iff_left rfl).symm

theorem Consumes.digit {c : BitVec 8} {l : Text} {d : Nat} {cutoff : BitVec w} {t t' : Strto w}
    {c' : BitVec 8} (narrow : base < 2 ^ w) (fits : limit < 2 ^ w)
    (quotient : cutoff.toNat = limit / base) (valued : digitValue c = some d) (digit : d < base)
    (rest : Consumes base limit l
      { t.take base cutoff (limit % base) d with c := c', s := t.s + 1 } t') :
    Consumes base limit (c :: l) t t' := by
  have run : digitRun base (c :: l) = d :: digitRun base l := by
    rw [digitRun, valued]
    exact if_pos digit
  refine ⟨?_, ?_, ?_⟩
  · rw [run, rest.position, List.length_cons]
    dsimp only
    omega
  · rw [run, rest.read, accumulate_cons, ← Strto.read_take narrow fits quotient digit]
    rfl
  · rw [run, rest.any]
    exact iff_of_false (fun both => Strto.any_take both.1) (fun both => List.cons_ne_nil _ _ both.2)

/-- The loop goes over the run of digits. -/
theorem Reading.loop {nptr l : Text} {cutoff : BitVec w} (narrow : base < 2 ^ w)
    (fits : limit < 2 ^ w) (quotient : cutoff.toNat = limit / base) :
    ∀ {fuel : Nat} {t : Strto w}, Reading nptr t.c t.s l → l.length < fuel →
      Returns (strtoLoop nptr base cutoff (limit % base) fuel t) (Consumes base limit l t) := by
  induction l with
  | nil =>
    intro fuel t reading bound
    obtain ⟨fuel, rfl⟩ := Nat.exists_eq_succ_of_ne_zero (Nat.ne_of_gt bound)
    have ended : t.c = 0 := reading.char
    have none : strtoDigit t.c = none := by
      rw [ended]
      rfl
    unfold strtoLoop
    rw [none]
    exact .ok (.stop rfl)
  | cons c l ih =>
    intro fuel t reading bound
    obtain ⟨fuel, rfl⟩ := Nat.exists_eq_succ_of_ne_zero (Nat.ne_of_gt (Nat.zero_lt_of_lt bound))
    have char : t.c = c := reading.char
    unfold strtoLoop
    rw [char, strtoDigit_eq]
    cases valued : digitValue c with
    | none => exact .ok (.stop (by rw [digitRun, valued]))
    | some d =>
      dsimp only
      by_cases digit : d < base
      · obtain ⟨read, next⟩ := reading.next
        have position : (t.take base cutoff (limit % base) d).s = t.s := by
          rw [Strto.take]
          split <;> rfl
        rw [if_neg (Nat.not_le_of_lt digit), position]
        refine .bind_ok read ?_
        refine (ih next (Nat.lt_of_succ_lt_succ bound)).mono fun t' rest => ?_
        exact rest.digit narrow fits quotient valued digit
      · rw [if_pos (Nat.le_of_not_lt digit)]
        exact .ok (.stop (by rw [digitRun, valued]; exact if_neg digit))

/-! ## Results -/

/-- The limits of a width. -/
structure Limits (w : Nat) : Prop where
  wide : 36 < 2 ^ w
  double : 2 ^ w = 2 * 2 ^ (w - 1)
  ulong : (ulongMax w).toNat = 2 ^ w - 1
  long : (longMax w).toNat = 2 ^ (w - 1) - 1

theorem limits32 : Limits 32 := ⟨by decide, by decide, by decide, by decide⟩

theorem limits64 : Limits 64 := ⟨by decide, by decide, by decide, by decide⟩

/-- The largest absolute value that does not saturate. -/
def largest (w : Nat) (signed neg : Bool) : Nat :=
  if signed then if neg then 2 ^ (w - 1) else 2 ^ (w - 1) - 1 else 2 ^ w - 1

/-- What a parser makes of the sign and the digits. -/
def result (w : Nat) (signed neg : Bool) (v : Nat) : BitVec w :=
  if largest w signed neg < v then if signed then if neg then longMin w else longMax w else ulongMax w
  else if neg then -BitVec.ofNat w v
  else .ofNat w v

namespace Limits

theorem longMin_toNat (limits : Limits w) : (longMin w).toNat = 2 ^ (w - 1) := by
  have double := limits.double
  have positive : 0 < 2 ^ (w - 1) := Nat.two_pow_pos _
  rw [longMin, BitVec.toNat_not, limits.long]
  omega

theorem cutoff_toNat (limits : Limits w) (signed neg : Bool) :
    (if signed then if neg then -longMin w else longMax w else ulongMax w : BitVec w).toNat =
      largest w signed neg := by
  have double := limits.double
  have positive : 0 < 2 ^ (w - 1) := Nat.two_pow_pos _
  have negated : (-longMin w).toNat = 2 ^ (w - 1) := by
    rw [BitVec.toNat_neg, limits.longMin_toNat, Nat.mod_eq_of_lt (by omega)]
    omega
  unfold largest
  cases signed with
  | false => exact limits.ulong
  | true =>
    cases neg with
    | false => exact limits.long
    | true => exact negated

/-- The signed results. -/
theorem result_toInt (limits : Limits w) (neg : Bool) (v : Nat) :
    (result w true neg v).toInt =
      max (-2 ^ (w - 1)) (min (if neg then -(v : Int) else v) (2 ^ (w - 1) - 1)) := by
  have double := limits.double
  have positive : 0 < 2 ^ (w - 1) := Nat.two_pow_pos _
  have max := limits.long
  have min := limits.longMin_toNat
  have half : ((2 : Int) ^ (w - 1)) = ((2 ^ (w - 1) : Nat) : Int) := by push_cast; rfl
  rw [half, result, largest, BitVec.toInt_eq_toNat_cond]
  generalize 2 ^ (w - 1) = p at *
  cases neg with
  | false =>
    simp only [if_true, Bool.false_eq_true, if_false]
    by_cases past : p - 1 < v
    · rw [if_pos past]
      omega
    · rw [if_neg past, BitVec.toNat_ofNat, Nat.mod_eq_of_lt (by omega)]
      omega
  | true =>
    simp only [if_true]
    by_cases past : p < v
    · rw [if_pos past]
      omega
    · have small : v < 2 ^ w := by omega
      rw [if_neg past, BitVec.toNat_neg, BitVec.toNat_ofNat, Nat.mod_eq_of_lt small]
      by_cases zero : v = 0
      · subst zero
        rw [Nat.sub_zero, Nat.mod_self]
        omega
      · rw [Nat.mod_eq_of_lt (by omega)]
        omega

/-- The unsigned results. -/
theorem result_toNat (limits : Limits w) (v : Nat) :
    (result w false false v).toNat = min v (2 ^ w - 1) := by
  have positive : 0 < 2 ^ w := Nat.two_pow_pos _
  have max := limits.ulong
  simp only [result, largest, Bool.false_eq_true, if_false]
  by_cases past : 2 ^ w - 1 < v
  · rw [if_pos past]
    omega
  · rw [if_neg past, BitVec.toNat_ofNat, Nat.mod_eq_of_lt (by omega)]
    omega

end Limits

theorem radixOf_valid {base : Nat} (valid : base = 0 ∨ 2 ≤ base ∧ base ≤ 36) (l : Text) :
    2 ≤ (radixOf base l).1 ∧ (radixOf base l).1 ≤ 36 := by
  unfold radixOf
  split
  · exact ⟨Nat.le_add_left 2 14, Nat.le_add_right 16 20⟩
  · split
    · dsimp only
      split <;> decide
    · dsimp only
      omega

/-- The accumulator at the end of the loop. -/
theorem Strto.result_eq {signed neg : Bool} {v : Nat} {t : Strto w}
    (read : t.read = if largest w signed neg < v then none else some v) :
    (if t.any < 0 then if signed then if neg then longMin w else longMax w else ulongMax w
      else if neg then -t.acc else t.acc) = result w signed neg v := by
  unfold Strto.read at read
  unfold result
  by_cases past : t.any < 0
  · rw [if_pos past] at read
    have beyond : largest w signed neg < v := by
      by_contra below
      rw [if_neg below] at read
      cases read
    rw [if_pos past, if_pos beyond]
  · rw [if_neg past] at read
    have below : ¬largest w signed neg < v := by
      intro beyond
      rw [if_pos beyond] at read
      cases read
    rw [if_neg below] at read
    have acc : t.acc = BitVec.ofNat w v := by
      rw [← Option.some.inj read, BitVec.ofNat_toNat, BitVec.setWidth_eq]
    rw [if_neg past, if_neg below, acc]

/-- All of a parser: the phases one after the other, each going on where the one before stopped. -/
theorem strto_returns (limits : Limits w) (signed : Bool) (nptr : Text) {base : Nat}
    (valid : base = 0 ∨ 2 ≤ base ∧ base ≤ 36) :
    Returns (strto w signed nptr base) fun r =>
      let (neg, l) := signOf signed (nptr.dropWhile fun c => [c] = text " ")
      let (b, l) := radixOf base l
      r.1 = result w signed neg (value b (digitRun b l)) ∧
        r.2 = if digitRun b l = [] then 0 else nptr.length - l.length + (digitRun b l).length := by
  unfold strto
  refine (Reading.spaces [] (Nat.lt_succ_self nptr.length)).bind ?_
  rintro ⟨c, s⟩ reading
  refine (reading.sign signed).bind ?_
  rintro ⟨neg, c', s'⟩ ⟨rfl, reading'⟩
  refine (reading'.radix base).bind ?_
  rintro ⟨b, c'', s''⟩ ⟨rfl, reading''⟩
  dsimp only at reading'' ⊢
  generalize signOf signed _ = signed' at *
  obtain ⟨neg, l⟩ := signed'
  obtain ⟨atLeast, atMost⟩ := radixOf_valid valid l
  generalize radixOf base l = found at *
  obtain ⟨b, m⟩ := found
  dsimp only at *
  have wide := limits.wide
  have small : b % 2 ^ w = b := Nat.mod_eq_of_lt (by omega)
  have cutoff := limits.cutoff_toNat signed neg
  generalize (if signed then if neg then -longMin w else longMax w else ulongMax w : BitVec w) = max at *
  have fits : largest w signed neg < 2 ^ w := cutoff ▸ max.isLt
  have quotient : (max / BitVec.ofNat w b).toNat = largest w signed neg / b := by
    rw [BitVec.toNat_udiv, BitVec.toNat_ofNat, small, cutoff]
  have remainder : (max % BitVec.ofNat w b).toNat = largest w signed neg % b := by
    rw [BitVec.toNat_umod, BitVec.toNat_ofNat, small, cutoff]
  have position := reading''.length
  have started : 0 < s'' := by
    obtain ⟨before, -, rfl⟩ := reading''.whole
    exact Nat.succ_pos _
  rw [List.nil_append] at position
  rw [remainder]
  refine (Reading.loop (t := { c := c'', s := s'', acc := 0, any := 0 }) (by omega) fits quotient
    reading'' (by omega)).bind ?_
  rintro t ⟨at', read, any⟩
  have start : (Strto.read { c := c'', s := s'', acc := (0 : BitVec w), any := 0 }) = some 0 := by
    simp [Strto.read]
  rw [start, accumulate_eq _ (by omega)] at read
  refine .ok ⟨Strto.result_eq read, ?_⟩
  dsimp only at at' any ⊢
  by_cases none : digitRun b m = []
  · rw [if_pos none, if_neg (not_not.mpr (any.mpr ⟨rfl, none⟩))]
  · rw [if_neg none, if_pos fun zero => none (any.mp zero).2, at']
    omega

/-! ## Exactness -/

theorem signOf_unsigned (l : Text) : (signOf false l).1 = false := by
  cases l with
  | nil => rfl
  | cons c l =>
    simp only [signOf, Bool.false_eq_true, false_and, if_false]
    split <;> rfl

/-- A signed parser. -/
theorem strto_signed (limits : Limits w) (nptr : Text) {base : Nat}
    (valid : base = 0 ∨ 2 ≤ base ∧ base ≤ 36) :
    Returns (strto w true nptr base) fun r =>
      (r.1.toInt, r.2) = clamped (-2 ^ (w - 1)) (2 ^ (w - 1) - 1) (numeral true base nptr) := by
  refine (strto_returns limits true nptr valid).mono ?_
  rintro ⟨n, e⟩ parsed
  dsimp only [numeral] at parsed ⊢
  obtain ⟨rfl, rfl⟩ := parsed
  generalize signOf true _ = signed
  generalize radixOf base signed.2 = found
  rw [limits.result_toInt]
  by_cases none : digitRun found.1 found.2 = []
  · have positive : 0 < 2 ^ (w - 1) := Nat.two_pow_pos _
    have half : ((2 : Int) ^ (w - 1)) = ((2 ^ (w - 1) : Nat) : Int) := by push_cast; rfl
    have zero : ∀ b, value b [] = 0 := fun _ => rfl
    rw [if_pos none, if_pos none, none, zero, clamped, half]
    refine Prod.ext ?_ rfl
    dsimp only
    split <;> omega
  · rw [if_neg none, if_neg none]
    rfl

/-- An unsigned parser. -/
theorem strto_unsigned (limits : Limits w) (nptr : Text) {base : Nat}
    (valid : base = 0 ∨ 2 ≤ base ∧ base ≤ 36) :
    Returns (strto w false nptr base) fun r =>
      ((r.1.toNat : Int), r.2) = clamped 0 (2 ^ w - 1) (numeral false base nptr) := by
  refine (strto_returns limits false nptr valid).mono ?_
  rintro ⟨n, e⟩ parsed
  dsimp only [numeral] at parsed ⊢
  obtain ⟨rfl, rfl⟩ := parsed
  have positive : 0 < 2 ^ w := Nat.two_pow_pos _
  have all : ((2 : Int) ^ w) = ((2 ^ w : Nat) : Int) := by push_cast; rfl
  rw [signOf_unsigned, limits.result_toNat, all]
  generalize radixOf base (signOf false _).2 = found
  by_cases none : digitRun found.1 found.2 = []
  · have zero : ∀ b, value b [] = 0 := fun _ => rfl
    rw [if_pos none, if_pos none, none, zero]
    refine Prod.ext ?_ rfl
    simp [clamped]
  · rw [if_neg none, if_neg none]
    refine Prod.ext ?_ rfl
    simp only [clamped, Bool.false_eq_true, if_false]
    omega

/-- **The integer parsers.** On every string and in every base each of the four returns without reading
behind the terminating zero, with the exact value of the numeral at the start of the string, clamped to
the range of its result, and the index of the first character behind it; with 0 and the start of the
string where there is no numeral. -/
theorem strto_exact (nptr : Text) (base : Nat) (valid : base = 0 ∨ 2 ≤ base ∧ base ≤ 36) :
    (Returns (strtol nptr base) fun r =>
      (r.1.toInt, r.2) = clamped (-2 ^ 31) (2 ^ 31 - 1) (numeral true base nptr)) ∧
    (Returns (strtoll nptr base) fun r =>
      (r.1.toInt, r.2) = clamped (-2 ^ 63) (2 ^ 63 - 1) (numeral true base nptr)) ∧
    (Returns (strtoul nptr base) fun r =>
      ((r.1.toNat : Int), r.2) = clamped 0 (2 ^ 32 - 1) (numeral false base nptr)) ∧
    (Returns (strtoull nptr base) fun r =>
      ((r.1.toNat : Int), r.2) = clamped 0 (2 ^ 64 - 1) (numeral false base nptr)) :=
  ⟨strto_signed limits32 nptr valid, strto_signed limits64 nptr valid,
    strto_unsigned limits32 nptr valid, strto_unsigned limits64 nptr valid⟩

/-- A negative number with a prefix, in the base that the prefix gives, and what is behind it. -/
theorem strto_exact_hexadecimal :
    let nptr := text "  -0x80000001 end"
    (Returns (strtol nptr 0) fun r =>
      (r.1.toInt, r.2) = clamped (-2 ^ 31) (2 ^ 31 - 1) (numeral true 0 nptr)) ∧
    (Returns (strtoll nptr 0) fun r =>
      (r.1.toInt, r.2) = clamped (-2 ^ 63) (2 ^ 63 - 1) (numeral true 0 nptr)) ∧
    (Returns (strtoul nptr 0) fun r =>
      ((r.1.toNat : Int), r.2) = clamped 0 (2 ^ 32 - 1) (numeral false 0 nptr)) ∧
    (Returns (strtoull nptr 0) fun r =>
      ((r.1.toNat : Int), r.2) = clamped 0 (2 ^ 64 - 1) (numeral false 0 nptr)) :=
  strto_exact _ 0 (.inl rfl)

end Nulix.Std
