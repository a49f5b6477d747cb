import Nulix.Print.Compose
import Nulix.Std.Strto

/-!
# Reading printed numbers back

The digits that `snprintnum` stores are a run of digits for the parsers, with the same value: padding only
adds zeros in front. What is left is the front of each text, which has to lead its parser to the digits.
-/

namespace Nulix.Print

open Fallible Positional Nulix.Std Strings

/-! ## Digits -/

theorem digitValue_digitChar {d : Nat} (small : d < 16) : digitValue (digitChar d) = some d := by
  revert d
  decide

/-- A digit is none of the other characters that a parser looks for at the front of a number. -/
theorem digitChar_ne {d : Nat} (small : d < 16) :
    digitChar d ≠ 0x20 ∧ digitChar d ≠ 0x2d ∧ digitChar d ≠ 0x2b ∧ digitChar d ≠ 0x78 ∧
      digitChar d ≠ 0x58 := by
  revert d
  decide

theorem digitChar_ne_zero {d : Nat} (small : d < 16) : digitChar d ≠ 0 := by
  revert d
  decide

theorem digitRun_digitChar {base : Nat} {ds : List Nat} (atMost : base ≤ 16) (digits : ∀ d ∈ ds, d < base) :
    digitRun base (ds.map digitChar) = ds := by
  induction ds with
  | nil => rfl
  | cons d ds ih =>
    have first := digits d List.mem_cons_self
    rw [List.map_cons, digitRun, digitValue_digitChar (Nat.lt_of_lt_of_le first atMost)]
    dsimp only
    rw [if_pos first, ih fun e mem => digits e (List.mem_cons_of_mem d mem)]

/-- The digits of a padded number, its zeros included. -/
def paddedDigits (base un padding : Nat) : List Nat :=
  List.replicate (padding - (digitsOf base un).length) 0 ++ digitsOf base un

theorem padded_eq (base un padding : Nat) :
    padded base un padding = (paddedDigits base un padding).map digitChar := by
  rw [padded, paddedDigits, List.map_append, List.map_replicate]
  rfl

section

variable {base un padding : Nat}

theorem paddedDigits_ne_nil (atLeast : 2 ≤ base) : paddedDigits base un padding ≠ [] := by
  intro none
  exact digitsOf_ne_nil atLeast un (List.append_eq_nil_iff.mp none).2

theorem paddedDigits_lt (atLeast : 2 ≤ base) : ∀ d ∈ paddedDigits base un padding, d < base := by
  intro d mem
  rcases List.mem_append.mp mem with zero | digit
  · rw [List.eq_of_mem_replicate zero]
    omega
  · exact digitsOf_lt atLeast un d digit

theorem value_paddedDigits (atLeast : 2 ≤ base) : value base (paddedDigits base un padding) = un := by
  rw [paddedDigits, value_zeros, value_digitsOf atLeast]

end

/-! ## The front of a number -/

variable {base : Nat} {ds : List Nat}

/-- A parser that is led to a run of digits at the end of the string. -/
theorem strto_digits {w : Nat} (limits : Limits w) {signed neg : Bool} {nptr l : Text} {b : Nat}
    (valid : base = 0 ∨ 2 ≤ base ∧ base ≤ 36) (atMost : b ≤ 16) (some : ds ≠ [])
    (digits : ∀ d ∈ ds, d < b) (noSpace : (nptr.dropWhile fun c => [c] = text " ") = nptr)
    (sign : signOf signed nptr = (neg, l)) (radix : radixOf base l = (b, ds.map digitChar))
    (length : ds.length ≤ nptr.length) :
    strto w signed nptr base = .ok (result w signed neg (value b ds), nptr.length) := by
  obtain ⟨⟨number, stop⟩, returned, parsed⟩ := strto_returns limits signed nptr valid
  dsimp only at parsed
  rw [noSpace, sign] at parsed
  dsimp only at parsed
  rw [radix] at parsed
  dsimp only at parsed
  rw [digitRun_digitChar atMost digits, if_neg some, List.length_map, Nat.sub_add_cancel length] at parsed
  rw [returned, parsed.1, parsed.2]

theorem dropWhile_space {c : BitVec 8} {l : Text} (other : c ≠ 0x20) :
    ((c :: l).dropWhile fun c => [c] = text " ") = c :: l := by
  refine List.dropWhile_cons_of_neg ?_
  simpa using fun same : [c] = text " " => other (List.head_eq_of_cons_eq same)

/-- A number that starts with a digit has no sign. -/
theorem signOf_digits (signed : Bool) {c : BitVec 8} {l : Text} (minus : c ≠ 0x2d) (plus : c ≠ 0x2b) :
    signOf signed (c :: l) = (false, c :: l) := by
  have noMinus : ¬(signed ∧ [c] = text "-") := fun both => minus (List.head_eq_of_cons_eq both.2)
  have noPlus : [c] ≠ text "+" := fun same => plus (List.head_eq_of_cons_eq same)
  rw [signOf, if_neg noMinus, if_neg noPlus]

/-- Digits have no prefix. -/
theorem radixOf_digits (valid : 2 ≤ base) (digits : ∀ d ∈ ds, d < 16) :
    radixOf base (ds.map digitChar) = (base, ds.map digitChar) := by
  have noPrefix : ¬(text "0x" <+: ds.map digitChar ∨ text "0X" <+: ds.map digitChar) := by
    have second : ∀ x : BitVec 8, (∀ d < 16, digitChar d ≠ x) → ¬[0x30, x] <+: ds.map digitChar := by
      intro x other starts
      have mem : x ∈ ds.map digitChar := starts.subset (by simp)
      obtain ⟨d, mem, same⟩ := List.mem_map.mp mem
      exact other d (digits d mem) same
    rintro (lower | upper)
    · exact second 0x78 (fun d small => (digitChar_ne small).2.2.2.1) lower
    · exact second 0x58 (fun d small => (digitChar_ne small).2.2.2.2) upper
  unfold radixOf
  rw [if_neg fun both => noPrefix both.2, if_neg (by omega)]

/-- A run of digits and nothing else. -/
theorem strto_plain {w : Nat} (limits : Limits w) (signed : Bool) (atLeast : 2 ≤ base)
    (atMost : base ≤ 16) (some : ds ≠ []) (digits : ∀ d ∈ ds, d < base) :
    strto w signed (ds.map digitChar) base =
      .ok (result w signed false (value base ds), (ds.map digitChar).length) := by
  have small : ∀ d ∈ ds, d < 16 := fun d mem => Nat.lt_of_lt_of_le (digits d mem) atMost
  have radix := radixOf_digits atLeast small
  have length : ds.length ≤ (ds.map digitChar).length := by rw [List.length_map]
  refine strto_digits limits (.inr ⟨atLeast, by omega⟩) atMost some digits ?_ ?_ radix length
  all_goals
    obtain ⟨d, ds, rfl⟩ := List.exists_cons_of_ne_nil some
    obtain ⟨space, minus, plus, -⟩ := digitChar_ne (small d List.mem_cons_self)
  · exact dropWhile_space space
  · exact signOf_digits signed minus plus

/-- Digits behind a minus. -/
theorem strto_negative {w : Nat} (limits : Limits w) (atLeast : 2 ≤ base) (atMost : base ≤ 16)
    (some : ds ≠ []) (digits : ∀ d ∈ ds, d < base) :
    strto w true (0x2d :: ds.map digitChar) base =
      .ok (result w true true (value base ds), (0x2d :: ds.map digitChar).length) := by
  have small : ∀ d ∈ ds, d < 16 := fun d mem => Nat.lt_of_lt_of_le (digits d mem) atMost
  have radix := radixOf_digits atLeast small
  refine strto_digits limits (.inr ⟨atLeast, by omega⟩) atMost some digits (dropWhile_space (by decide))
    rfl radix ?_
  rw [List.length_cons, List.length_map]
  exact Nat.le_succ _

/-- Hexadecimal digits behind their prefix, in base 0. -/
theorem strto_pointer {w : Nat} (limits : Limits w) (signed : Bool) (some : ds ≠ [])
    (digits : ∀ d ∈ ds, d < 16) :
    strto w signed (0x30 :: 0x78 :: ds.map digitChar) 0 =
      .ok (result w signed false (value 16 ds), (0x30 :: 0x78 :: ds.map digitChar).length) := by
  refine strto_digits limits (.inl rfl) (Nat.le_refl 16) some digits (dropWhile_space (by decide))
    (signOf_digits signed (by decide) (by decide)) ?_ ?_
  · unfold radixOf
    rw [if_pos ⟨.inl rfl, .inl ⟨ds.map digitChar, rfl⟩⟩]
    rfl
  · rw [List.length_cons, List.length_cons, List.length_map]
    omega

/-! ## Numbers -/

theorem isNegative_true (n : BitVec 32) : isNegative true n = true ↔ 2 ^ 31 ≤ n.toNat := by
  have small := n.isLt
  show n.slt 0 = true ↔ _
  rw [BitVec.slt_iff_toInt_lt, BitVec.toInt_eq_toNat_cond]
  simp
  omega

/-- A signed number is read back from its sign and its magnitude. -/
theorem result_signed (n : BitVec 32) :
    result 32 true (isNegative true n) (magnitude true n) = n := by
  have small := n.isLt
  have test := isNegative_true n
  unfold result magnitude largest
  cases negative : isNegative true n with
  | false =>
    have low : n.toNat < 2 ^ 31 := by
      by_contra high
      rw [test.mpr (Nat.le_of_not_lt high)] at negative
      cases negative
    simp only [Bool.false_eq_true, if_true, if_false]
    rw [if_neg (by omega), BitVec.ofNat_toNat, BitVec.setWidth_eq]
  | true =>
    have high := test.mp negative
    have fits : (-n).toNat ≤ 2 ^ 31 := by
      rw [BitVec.toNat_neg]
      omega
    simp only [if_true]
    rw [if_neg (by omega), BitVec.ofNat_toNat, BitVec.setWidth_eq, BitVec.neg_neg]

theorem result_unsigned (n : BitVec 32) : result 32 false false n.toNat = n := by
  have small := n.isLt
  unfold result largest
  simp only [Bool.false_eq_true, if_false]
  rw [if_neg (by omega), BitVec.ofNat_toNat, BitVec.setWidth_eq]

/-! ## Round trips -/

/-- What `conv` prints of a word, in any padding and wherever there is room for it, `parse` reads back to
its end. -/
def RoundTrip (conv : Conversion) (parse : Text → Except StrtoFault (BitVec 32 × Nat)) : Prop :=
  ∀ (n : BitVec 32) (d : Fin 10) (buf : Nat → BitVec 8) (size : Nat),
    (conv.output d (.int n)).length ≤ size →
      let t := vsnprintfText buf size (formatText [.conversion (some d) conv]) [.int n]
      parse t = .ok (n, t.length)

theorem roundTrip_of_output {conv : Conversion} {parse : Text → Except StrtoFault (BitVec 32 × Nat)}
    (reads : ∀ n padding, parse (conv.output padding (.int n)) =
      .ok (n, (conv.output padding (.int n)).length)) : RoundTrip conv parse := by
  intro n d buf size enough
  have whole : expansion 0 [.conversion (some d) conv] [.int n] = conv.output d (.int n) :=
    List.append_nil _
  dsimp only
  rw [vsnprintfText_eq (by rw [whole]; exact enough), whole]
  exact reads n d

/-- The unsigned conversions are digits only. -/
theorem strtoul_unsigned (atLeast : 2 ≤ base) (atMost : base ≤ 16) (n : BitVec 32) (padding : Nat) :
    strtoul (number base false n padding) base = .ok (n, (number base false n padding).length) := by
  have plain : number base false n padding = (paddedDigits base n.toNat padding).map digitChar :=
    padded_eq base n.toNat padding
  rw [plain]
  refine (strto_plain limits32 false atLeast atMost (paddedDigits_ne_nil atLeast)
    (paddedDigits_lt atLeast)).trans ?_
  rw [value_paddedDigits atLeast, result_unsigned]

theorem strtol_decimal (n : BitVec 32) (padding : Nat) :
    strtol (number 10 true n padding) 10 = .ok (n, (number 10 true n padding).length) := by
  have ten : 2 ≤ 10 := by decide
  have back := result_signed n
  have digits : value 10 (paddedDigits 10 (magnitude true n) padding) = _ := value_paddedDigits ten
  unfold number sign
  rw [padded_eq]
  cases negative : isNegative true n with
  | false =>
    rw [negative] at back
    rw [if_neg Bool.false_ne_true, List.nil_append]
    refine (strto_plain limits32 true ten (by decide) (paddedDigits_ne_nil ten)
      (paddedDigits_lt ten)).trans ?_
    rw [digits, back]
  | true =>
    rw [negative] at back
    rw [if_pos rfl, List.singleton_append]
    refine (strto_negative limits32 ten (by decide) (paddedDigits_ne_nil ten)
      (paddedDigits_lt ten)).trans ?_
    rw [digits, back]

theorem strtoul_pointer (n : BitVec 32) (padding : Nat) :
    strtoul (Conversion.pointer.output padding (.int n)) 0 =
      .ok (n, (Conversion.pointer.output padding (.int n)).length) := by
  have sixteen : 2 ≤ 16 := by decide
  have plain : Conversion.pointer.output padding (.int n) =
      0x30 :: 0x78 :: (paddedDigits 16 n.toNat padding).map digitChar :=
    congrArg (fun t => 0x30 :: 0x78 :: t) (padded_eq 16 n.toNat padding)
  rw [plain]
  refine (strto_pointer limits32 false (paddedDigits_ne_nil sixteen) (paddedDigits_lt sixteen)).trans ?_
  rw [value_paddedDigits sixteen, result_unsigned]

/-- **Round trip.** Every word is read back from what `vsnprintf` prints of it: `%d` by `strtol` in base
10, `%u`, `%x` and `%b` by `strtoul` in base 10, 16 and 2, and `%p` by `strtoul` in base 0. -/
theorem roundTrip_conversions :
    RoundTrip .decimal (fun t => strtol t 10) ∧ RoundTrip .unsigned (fun t => strtoul t 10) ∧
      RoundTrip .hexadecimal (fun t => strtoul t 16) ∧ RoundTrip .binary (fun t => strtoul t 2) ∧
      RoundTrip .pointer (fun t => strtoul t 0) := by
  refine ⟨?_, ?_, ?_, ?_, ?_⟩
  · exact roundTrip_of_output strtol_decimal
  · exact roundTrip_of_output (strtoul_unsigned (by decide) (by decide))
  · exact roundTrip_of_output (strtoul_unsigned (by decide) (by decide))
  · exact roundTrip_of_output (strtoul_unsigned (by decide) (by decide))
  · exact roundTrip_of_output strtoul_pointer

end Nulix.Print
