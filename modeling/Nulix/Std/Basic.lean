import Nulix.Lib.Fallible
import Nulix.Lib.Positional
import Nulix.Print

/-!
# Integer parsers

`strtol`, `strtoll`, `strtoul` and `strtoull` of `lib/std`. The four are one function of the width of the
result and of whether it is signed. A pointer into the string is its distance from `nptr`, and a read
behind the terminating zero is a fault.
-/

namespace Nulix.Std

open Fallible Positional Print

/-- What stops a parser. -/
inductive StrtoFault
  /-- A read behind the terminating zero. -/
  | overread
  | diverges
  deriving DecidableEq, Repr

/-- `nptr[s]` -/
def charAt (nptr : Text) (s : Nat) : Except StrtoFault (BitVec 8) :=
  if s ≤ nptr.length then .ok (nptr.getD s 0) else .error .overread

/-! ## Limits -/

/-- `ULONG_MAX`, `ULLONG_MAX` -/
def ulongMax (w : Nat) : BitVec w := ~~~0

/-- `LONG_MAX`, `LLONG_MAX` -/
def longMax (w : Nat) : BitVec w := ulongMax w >>> 1

/-- `LONG_MIN`, `LLONG_MIN` -/
def longMin (w : Nat) : BitVec w := ~~~longMax w

/-! ## The parsers -/

/-- The first loop, on `s`. It gives the character it stops at and `s` after it. -/
def strtoSpaces (nptr : Text) : Nat → Nat → Except StrtoFault (BitVec 8 × Nat)
  | 0, _ => .error .diverges
  | fuel + 1, s => do
    let c ← charAt nptr s
    if c = 0x20 then strtoSpaces nptr fuel (s + 1) else return (c, s + 1)

/-- The sign. The unsigned parsers only take a plus. -/
def strtoSign (signed : Bool) (nptr : Text) (c : BitVec 8) (s : Nat) :
    Except StrtoFault (Bool × BitVec 8 × Nat) := do
  if signed ∧ c = 0x2d then
    let c ← charAt nptr s
    return (true, c, s + 1)
  else if c = 0x2b then
    let c ← charAt nptr s
    return (false, c, s + 1)
  else return (false, c, s)

/-- The base that a first digit means where none was given. -/
def strtoBase (base : Nat) (c : BitVec 8) : Nat := if base = 0 then if c = 0x30 then 8 else 10 else base

/-- The prefix of a hexadecimal number, and the base. -/
def strtoPrefix (nptr : Text) (base : Nat) (c : BitVec 8) (s : Nat) :
    Except StrtoFault (Nat × BitVec 8 × Nat) := do
  if (base = 0 ∨ base = 16) ∧ c = 0x30 then
    let x ← charAt nptr s
    if x = 0x78 ∨ x = 0x58 then
      let c ← charAt nptr (s + 1)
      return (16, c, s + 2)
    else return (strtoBase base c, c, s)
  else return (strtoBase base c, c, s)

/-- The value that the loop gives a character; `none` is its `break`. -/
def strtoDigit (c : BitVec 8) : Option Nat :=
  if 0x30 ≤ c.toNat ∧ c.toNat ≤ 0x39 then some (c.toNat - 0x30)
  else if 0x41 ≤ c.toNat ∧ c.toNat ≤ 0x5a then some (c.toNat - (0x41 - 10))
  else if 0x61 ≤ c.toNat ∧ c.toNat ≤ 0x7a then some (c.toNat - (0x61 - 10))
  else none

/-- The variables of the loop over the digits. -/
structure Strto (w : Nat) where
  c : BitVec 8
  s : Nat
  acc : BitVec w
  any : Int

/-- The assignments of a turn for the digit `d`. -/
def Strto.take {w : Nat} (base : Nat) (cutoff : BitVec w) (cutlim d : Nat) (t : Strto w) : Strto w :=
  if t.any < 0 ∨ t.acc > cutoff ∨ t.acc = cutoff ∧ d > cutlim then { t with any := -1 }
  else { t with any := 1, acc := t.acc * .ofNat w base + .ofNat w d }

/-- The loop over the digits. -/
def strtoLoop {w : Nat} (nptr : Text) (base : Nat) (cutoff : BitVec w) (cutlim : Nat) :
    Nat → Strto w → Except StrtoFault (Strto w)
  | 0, _ => .error .diverges
  | fuel + 1, t =>
    match strtoDigit t.c with
    | none => .ok t
    | some d =>
      if d ≥ base then .ok t
      else do
        let t := t.take base cutoff cutlim d
        let c ← charAt nptr t.s
        strtoLoop nptr base cutoff cutlim fuel { t with c := c, s := t.s + 1 }

/-- The four parsers: the number they return and what they store in `endptr`. -/
def strto (w : Nat) (signed : Bool) (nptr : Text) (base : Nat) :
    Except StrtoFault (BitVec w × Nat) := do
  let (c, s) ← strtoSpaces nptr (nptr.length + 1) 0
  let (neg, c, s) ← strtoSign signed nptr c s
  let (base, c, s) ← strtoPrefix nptr base c s
  let cutoff := if signed then if neg then -longMin w else longMax w else ulongMax w
  let cutlim := (cutoff % .ofNat w base).toNat
  let cutoff := cutoff / .ofNat w base
  let t ← strtoLoop nptr base cutoff cutlim (nptr.length + 1) { c := c, s := s, acc := 0, any := 0 }
  let acc :=
    if t.any < 0 then if signed then if neg then longMin w else longMax w else ulongMax w
    else if neg then -t.acc
    else t.acc
  return (acc, if t.any ≠ 0 then t.s - 1 else 0)

/-- `strtol` -/
def strtol : Text → Nat → Except StrtoFault (BitVec 32 × Nat) := strto 32 true

/-- `strtoll` -/
def strtoll : Text → Nat → Except StrtoFault (BitVec 64 × Nat) := strto 64 true

/-- `strtoul` -/
def strtoul : Text → Nat → Except StrtoFault (BitVec 32 × Nat) := strto 32 false

/-- `strtoull` -/
def strtoull : Text → Nat → Except StrtoFault (BitVec 64 × Nat) := strto 64 false

/-! ## Numerals -/

/-- The value of a character as a digit, in either case. -/
def digitValue (c : BitVec 8) : Option Nat :=
  ((text "0123456789abcdefghijklmnopqrstuvwxyz").idxOf? c).or
    ((text "0123456789ABCDEFGHIJKLMNOPQRSTUVWXYZ").idxOf? c)

/-- The sign at the start of a string, and what is behind it. -/
def signOf (minus : Bool) : Text → Bool × Text
  | [] => (false, [])
  | c :: l =>
    if minus ∧ [c] = text "-" then (true, l) else if [c] = text "+" then (false, l) else (false, c :: l)

/-- The base of the numeral at the start of a string, and the numeral without its prefix. -/
def radixOf (base : Nat) (l : Text) : Nat × Text :=
  if (base = 0 ∨ base = 16) ∧ (text "0x" <+: l ∨ text "0X" <+: l) then (16, l.drop 2)
  else if base = 0 then (if text "0" <+: l then 8 else 10, l)
  else (base, l)

/-- The longest run of digits at the start of a string. -/
def digitRun (base : Nat) : Text → List Nat
  | [] => []
  | c :: l =>
    match digitValue c with
    | some d => if d < base then d :: digitRun base l else []
    | none => []

/-- The numeral at the start of a string: the number and where the string goes on. -/
def numeral (minus : Bool) (base : Nat) (nptr : Text) : Option (Int × Nat) :=
  let (neg, l) := signOf minus (nptr.dropWhile fun c => [c] = text " ")
  let (b, l) := radixOf base l
  let ds := digitRun b l
  if ds = [] then none
  else some (if neg then -value b ds else value b ds, nptr.length - l.length + ds.length)

/-- The number clamped to a range; 0 and the start of the string where there is no numeral. -/
def clamped (lo hi : Int) : Option (Int × Nat) → Int × Nat
  | none => (0, 0)
  | some (v, e) => (max lo (min v hi), e)

end Nulix.Std
