import Nulix.Lib.Strings
import Nulix.Screen.Screens
import Mathlib.Data.BitVec

/-!
# Formatted output

The format expansion of `kernel/print.c` and `kprintf`, which writes its result to the current
screen buffer. A buffer that is written to is a function from indices to bytes, so that a store past
its end is a store to some other cell.
-/

namespace Nulix.Print

open Screen Strings

/-! ## Strings and arguments -/

/-- The characters of a string, before its terminating zero. -/
abbrev Text := List (BitVec 8)

/-- A string literal. -/
def text (s : String) : Text := s.toList.map fun c => BitVec.ofNat 8 c.toNat

/-- A slot of the arguments passed for `...`: the word in it, and the string at that address. Where a
conversion before left its argument, a conversion reads a slot that was meant for another. -/
structure VaArg where
  word : BitVec 32
  string : Text

/-- An int. -/
def VaArg.int (n : BitVec 32) : VaArg := { word := n, string := [] }

/-- A pointer to a string. -/
def VaArg.str (s : Text) : VaArg := { word := 0, string := s }

/-- `va_arg(ap, int)`. Where no argument was passed C leaves the result open; here it is zero. -/
def vaArgInt : List VaArg → BitVec 32 × List VaArg
  | a :: ap => (a.word, ap)
  | [] => (0, [])

/-- `va_arg(ap, char *)`, with the empty string where none was passed. -/
def vaArgStr : List VaArg → Text × List VaArg
  | a :: ap => (a.string, ap)
  | [] => ([], [])

/-! ## Numbers -/

/-- The loop of `basepow`. An unsigned int has at most 32 digits in every base from 2 on. -/
def basepowFrom (base : Nat) : Nat → Nat → Nat → Nat
  | 0, _, len => len
  | fuel + 1, n, len => if n / base ≠ 0 then basepowFrom base fuel (n / base) (len + 1) else len + 1

def basepow (n base : Nat) : Nat := basepowFrom base 32 n 0

def digits : Text := text "0123456789abcdef"

/-- The padding loop of `snprintnum`: the buffer, the pointer into it and `count`. -/
def snprintnumPad (size : Nat) : Nat → (Nat → BitVec 8) → Nat → Nat → (Nat → BitVec 8) × Nat × Nat
  | 0, buf, dst, count => (buf, dst, count)
  | turns + 1, buf, dst, count =>
    let buf := Function.update buf dst 0x30
    if count + 1 = size then (buf, dst + 1, count + 1)
    else snprintnumPad size turns buf (dst + 1) (count + 1)

/-- The digit loop of `snprintnum`, from the last digit on. `nl` is the number of digits of `un`, so
`nl--` starts a turn. -/
def snprintnumDigits (size base dst : Nat) :
    Nat → Nat → (Nat → BitVec 8) → Nat → (Nat → BitVec 8) × Nat
  | 0, _, buf, count => (buf, count)
  | nl + 1, un, buf, count =>
    let (buf, count) :=
      if count + nl < size then
        (Function.update buf (dst + nl) (digits.getD (un % base) 0), count + 1)
      else (buf, count)
    if un / base ≠ 0 then snprintnumDigits size base dst nl (un / base) buf count else (buf, count)

/-- `snprintnum` on the buffer from `dst` on. -/
def snprintnum (buf : Nat → BitVec 8) (dst size : Nat) (n : BitVec 32) (base : Nat) (issigned : Bool)
    (padding : Int) : (Nat → BitVec 8) × Nat :=
  if 16 < base ∨ size = 0 then (buf, 0)
  else
    let negative := issigned && n.slt 0
    let (buf, dst, count) :=
      if negative then (Function.update buf dst 0x2d, dst + 1, 1) else (buf, dst, 0)
    let un := if negative then (-n).toNat else n.toNat
    let nl := basepow un base
    let (buf, dst, count) := snprintnumPad size (padding - nl).toNat buf dst count
    snprintnumDigits size base dst nl un buf count

/-! ## Format strings -/

/-- The local variables of `vsnprintf`. -/
structure Vsnprintf where
  buf : Nat → BitVec 8
  count : Nat
  padding : Nat
  ap : List VaArg

namespace Vsnprintf

/-- `buf[count++] = c` -/
def put (v : Vsnprintf) (c : BitVec 8) : Vsnprintf :=
  { v with buf := Function.update v.buf v.count c, count := v.count + 1 }

/-- The loop of `%s`. -/
def puts (size : Nat) : Text → Vsnprintf → Vsnprintf
  | [], v => v
  | c :: s, v => if v.count < size then puts size s (v.put c) else v

/-- `count += snprintnum(buf + count, size - count, va_arg(ap, int), base, issigned, padding)` -/
def putnum (size base : Nat) (issigned : Bool) (v : Vsnprintf) : Vsnprintf :=
  let (i, ap) := vaArgInt v.ap
  let (buf, n) := snprintnum v.buf v.count (size - v.count) i base issigned v.padding
  { v with buf := buf, count := v.count + n, ap := ap }

/-- The switch of `vsnprintf`; `none` is its `default`. -/
def convert (size : Nat) (conv : BitVec 8) (v : Vsnprintf) : Option Vsnprintf :=
  if conv = 0x25 then some (v.put 0x25)
  else if conv = 0x63 then
    let (i, ap) := vaArgInt v.ap
    some ({ v with ap := ap }.put (i.setWidth 8))
  else if conv = 0x73 then
    let (s, ap) := vaArgStr v.ap
    some (puts size s { v with ap := ap })
  else if conv = 0x78 then some (v.putnum size 16 false)
  else if conv = 0x70 then
    if size - v.count > 2 then some (((v.put 0x30).put 0x78).putnum size 16 false) else some v
  else if conv = 0x62 then some (v.putnum size 2 false)
  else if conv = 0x64 then some (v.putnum size 10 true)
  else if conv = 0x75 then some (v.putnum size 10 false)
  else none

end Vsnprintf

def isDigit (c : BitVec 8) : Bool := 0x30 ≤ c.toNat && c.toNat ≤ 0x39

/-- The loop of `vsnprintf`. A `%` at the end of the format, with or without its padding digit, is the
`default` of the switch. -/
def vsnprintfFrom (size : Nat) : Text → Vsnprintf → Vsnprintf
  | [], v => v
  | c :: fmt, v =>
    if v.count < size then
      if c = 0x25 then
        match fmt with
        | [] => v
        | d :: fmt =>
          if isDigit d then
            let v := { v with padding := d.toNat - 0x30 }
            match fmt with
            | [] => v
            | conv :: fmt =>
              match v.convert size conv with
              | some v => vsnprintfFrom size fmt v
              | none => v
          else
            match v.convert size d with
            | some v => vsnprintfFrom size fmt v
            | none => v
      else vsnprintfFrom size fmt (v.put c)
    else v

/-- `vsnprintf`: the buffer after the call, and the returned count. -/
def vsnprintf (buf : Nat → BitVec 8) (size : Nat) (fmt : Text) (ap : List VaArg) :
    (Nat → BitVec 8) × Nat :=
  let v := vsnprintfFrom size fmt { buf := buf, count := 0, padding := 0, ap := ap }
  (v.buf, v.count)

/-! ## Output -/

/-- The screens, and a record of what `kprintf` has written to them: the characters it has handed to
`sb_putstr`, the latest last. The record is not in the source. -/
structure Console where
  screens : Screens
  printed : Text

/-- `BUFSIZE` -/
def bufsize : Nat := 4096

/-- What `kprintf` leaves in its buffer. -/
def kprintfText (fmt : Text) (ap : List VaArg) : Text :=
  contents (vsnprintf (fun _ => 0) (bufsize - 1) fmt ap).1 bufsize

namespace Console

/-- A call on `sb_current`. -/
def onCurrent (f : Display → Display) (c : Console) : Console :=
  { c with screens := c.screens.onCurrent f }

/-- `sb_get_color(sb_current)` -/
def getColor (c : Console) : BitVec 8 := sbGetColor c.screens.display

end Console

/-- `kprintf`. No caller uses the count it returns. -/
def kprintf (fmt : Text) (ap : List VaArg) (c : Console) : Console :=
  let s := kprintfText fmt ap
  { c.onCurrent (sbPutstr s) with printed := c.printed ++ s }

/-! ## What the conversions print -/

/-- What was printed so far, in an array that was cleared before. -/
structure Vsnprintf.Printed (v : Vsnprintf) (s : Text) : Prop where
  count : v.count = s.length
  holds : Holds v.buf bufsize s

namespace Vsnprintf.Printed

variable {v : Vsnprintf} {s : Text}

theorem put (printed : v.Printed s) (c : BitVec 8) : (v.put c).Printed (s ++ [c]) := by
  refine ⟨?_, ?_⟩
  · show v.count + 1 = (s ++ [c]).length
    rw [printed.count, List.length_append, List.length_singleton]
  · show Holds (Function.update v.buf v.count c) bufsize (s ++ [c])
    rw [printed.count]
    exact printed.holds.push c

/-- Room for a whole string is room for its first character, and then for the rest. -/
theorem room {size : Nat} {c : BitVec 8} {t : Text} (printed : v.Printed s)
    (fits : s.length + (c :: t).length ≤ size) :
    v.count < size ∧ (s ++ [c]).length + t.length ≤ size := by
  rw [List.length_cons] at fits
  rw [printed.count, List.length_append, List.length_singleton]
  omega

theorem puts {size : Nat} {t : Text} (printed : v.Printed s) (fits : s.length + t.length ≤ size) :
    (Vsnprintf.puts size t v).Printed (s ++ t) := by
  induction t generalizing v s with
  | nil =>
    rw [List.append_nil]
    exact printed
  | cons c t ih =>
    obtain ⟨room, shorter⟩ := printed.room fits
    unfold Vsnprintf.puts
    rw [if_pos room, List.append_cons]
    exact ih (printed.put c) shorter

/-- Nothing printed yet. -/
theorem start (ap : List VaArg) :
    ({ buf := fun _ => 0, count := 0, padding := 0, ap := ap } : Vsnprintf).Printed [] :=
  ⟨rfl, fun _ _ => rfl⟩

theorem kprintfText_eq {fmt : Text} {ap : List VaArg}
    (printed : (vsnprintfFrom (bufsize - 1) fmt
      { buf := fun _ => 0, count := 0, padding := 0, ap := ap }).Printed s)
    (fits : s.length ≤ bufsize) (nonzero : ∀ c ∈ s, c ≠ 0) : kprintfText fmt ap = s :=
  printed.holds.contents_eq fits nonzero

end Vsnprintf.Printed

open Vsnprintf

/-- Characters that start no conversion. -/
theorem Vsnprintf.Printed.literal {size : Nat} {fmt s : Text} {v : Vsnprintf} (printed : v.Printed s)
    (literal : ∀ c ∈ fmt, c ≠ 0x25) (fits : s.length + fmt.length ≤ size) :
    (vsnprintfFrom size fmt v).Printed (s ++ fmt) := by
  induction fmt generalizing v s with
  | nil =>
    rw [List.append_nil]
    exact printed
  | cons c fmt ih =>
    obtain ⟨room, shorter⟩ := printed.room fits
    unfold vsnprintfFrom
    rw [if_pos room, if_neg (literal c List.mem_cons_self), List.append_cons]
    exact ih (printed.put c) (fun d mem => literal d (List.mem_cons_of_mem c mem)) shorter

theorem kprintfText_literal {fmt : Text} {ap : List VaArg} (literal : ∀ c ∈ fmt, c ≠ 0x25)
    (nonzero : ∀ c ∈ fmt, c ≠ 0) (fits : fmt.length < bufsize) : kprintfText fmt ap = fmt := by
  have printed := (Printed.start ap).literal literal
    (show _ ≤ bufsize - 1 from by simpa using Nat.le_pred_of_lt fits)
  exact Printed.kprintfText_eq printed (Nat.le_of_lt fits) nonzero

/-- A conversion without a padding digit. -/
theorem vsnprintfFrom_convert {size : Nat} {conv : BitVec 8} {fmt : Text} {v v' : Vsnprintf}
    (room : v.count < size) (notDigit : isDigit conv = false) (converts : v.convert size conv = some v') :
    vsnprintfFrom size (0x25 :: conv :: fmt) v = vsnprintfFrom size fmt v' := by
  conv_lhs => unfold vsnprintfFrom
  rw [if_pos room, if_pos rfl]
  simp only [notDigit, converts, Bool.false_eq_true, if_false]

/-- `kprintf("%c", c)`; the character is passed as an int. -/
theorem kprintfText_char {c : BitVec 8} (nonzero : c ≠ 0) :
    kprintfText (text "%c") [.int (c.signExtend 32)] = [c] := by
  have narrowed : ((VaArg.int (c.signExtend 32)).word).setWidth 8 = c := by
    show (c.signExtend 32).setWidth 8 = c
    revert c
    decide +kernel
  have printed := (Printed.start []).put c
  refine Printed.kprintfText_eq ?_ (by simp [bufsize]) (by simpa using nonzero)
  have format : text "%c" = [0x25, 0x63] := rfl
  rw [format, vsnprintfFrom_convert (show 0 < bufsize - 1 from by decide) rfl rfl, narrowed]
  exact printed

/-- `kprintf("%s", s)` -/
theorem kprintfText_str {s : Text} (fits : s.length < bufsize) (nonzero : ∀ c ∈ s, c ≠ 0) :
    kprintfText (text "%s") [.str s] = s := by
  have printed := (Printed.start []).puts (t := s)
    (show _ ≤ bufsize - 1 from by simpa using Nat.le_pred_of_lt fits)
  refine Printed.kprintfText_eq ?_ (Nat.le_of_lt fits) nonzero
  have format : text "%s" = [0x25, 0x73] := rfl
  rw [format, vsnprintfFrom_convert (show 0 < bufsize - 1 from by decide) rfl rfl]
  exact printed

end Nulix.Print
