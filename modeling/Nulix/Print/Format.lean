import Nulix.Print.Numbers

/-!
# What `vsnprintf` stores

A format of literal characters and supported conversions is a list of items. Each item stores what fits of
its output and leaves the rest of the room to the items after it; `%p` is left out, with its argument,
where it finds room for two characters or less.
-/

namespace Nulix.Print

open Positional Strings

/-! ## Formats -/

/-- The conversions that `vsnprintf` supports. -/
inductive Conversion
  | percent | character | string | hexadecimal | pointer | binary | decimal | unsigned
  deriving DecidableEq, Repr

def Conversion.char : Conversion → BitVec 8
  | percent => 0x25
  | character => 0x63
  | string => 0x73
  | hexadecimal => 0x78
  | pointer => 0x70
  | binary => 0x62
  | decimal => 0x64
  | unsigned => 0x75

/-- A literal character, or a conversion that may have a padding digit. -/
inductive Item
  | literal (c : BitVec 8) (ordinary : c ≠ 0x25 ∧ c ≠ 0)
  | conversion (digit : Option (Fin 10)) (conv : Conversion)

namespace Item

def text : Item → Text
  | literal c _ => [c]
  | conversion none conv => [0x25, conv.char]
  | conversion (some d) conv => [0x25, .ofNat 8 (0x30 + d), conv.char]

/-- The padding in force at an item, and behind it, where it was `padding` before. -/
def padding (padding : Nat) : Item → Nat
  | conversion (some d) _ => d
  | _ => padding

/-- The number of arguments. -/
def takes : Item → Nat
  | literal _ _ => 0
  | conversion _ .percent => 0
  | conversion _ _ => 1

end Item

def formatText (items : List Item) : Text := items.flatMap Item.text

/-- One argument for each conversion that takes one. -/
def Matches (items : List Item) (ap : List VaArg) : Prop := ap.length = (items.map Item.takes).sum

/-- The first argument. -/
def firstArg (ap : List VaArg) : VaArg := ap.headD { word := 0, string := [] }

/-- The output of a conversion in full. -/
def Conversion.output (padding : Nat) (a : VaArg) : Conversion → Text
  | percent => [0x25]
  | character => [a.word.setWidth 8]
  | string => a.string
  | hexadecimal => number 16 false a.word padding
  | pointer => 0x30 :: 0x78 :: number 16 false a.word padding
  | binary => number 2 false a.word padding
  | decimal => number 10 true a.word padding
  | unsigned => number 10 false a.word padding

def Item.output (padding : Nat) (a : VaArg) : Item → Text
  | literal c _ => [c]
  | conversion _ conv => conv.output padding a

/-- A pointer that is left out for want of room. -/
def Item.skips (room : Nat) : Item → Bool
  | conversion _ .pointer => room ≤ 2
  | _ => false

/-- A negative number whose padding begins behind the room. -/
def Item.Overruns (padding room : Nat) (a : VaArg) : Item → Prop
  | conversion _ .decimal => Print.Overruns 10 true a.word padding room
  | _ => False

/-- What the items store in `room` bytes. -/
def printed : Nat → Nat → List Item → List VaArg → Text
  | _, _, [], _ => []
  | room, padding, item :: items, ap =>
    let padding := item.padding padding
    if room = 0 then []
    else if item.skips room then printed room padding items ap
    else
      let t := (item.output padding (firstArg ap)).take room
      t ++ printed (room - t.length) padding items (ap.drop item.takes)

/-- No item that finds room overruns it. -/
def Fits : Nat → Nat → List Item → List VaArg → Prop
  | _, _, [], _ => True
  | room, padding, item :: items, ap =>
    let padding := item.padding padding
    room = 0 ∨
      if item.skips room then Fits room padding items ap
      else
        ¬item.Overruns padding room (firstArg ap) ∧
          Fits (room - (item.output padding (firstArg ap)).length) padding items (ap.drop item.takes)

/-! ## One item -/

/-- The variables of `vsnprintf` after `t` was stored. -/
def Vsnprintf.advance (v : Vsnprintf) (t : Text) (padding : Nat) (ap : List VaArg) : Vsnprintf :=
  { buf := store v.buf v.count t, count := v.count + t.length, padding := padding, ap := ap }

/-- The effect of an item on the variables. -/
def Item.run (size : Nat) (item : Item) (v : Vsnprintf) : Vsnprintf :=
  let v := { v with padding := item.padding v.padding }
  match item with
  | literal c _ => v.put c
  | conversion _ conv => (v.convert size conv.char).getD v

variable {size : Nat} {v : Vsnprintf}

theorem put_eq (c : BitVec 8) : v.put c = v.advance [c] v.padding v.ap := by
  rw [Vsnprintf.put, Vsnprintf.advance, store_singleton]
  rfl

theorem advance_advance (t t' : Text) (p p' : Nat) (ap ap' : List VaArg) :
    (v.advance t p ap).advance t' p' ap' = v.advance (t ++ t') p' ap' := by
  unfold Vsnprintf.advance
  dsimp only
  rw [store_append, List.length_append, Nat.add_assoc]

theorem puts_eq (t : Text) : Vsnprintf.puts size t v = v.advance (t.take (size - v.count)) v.padding v.ap := by
  induction t generalizing v with
  | nil =>
    rw [List.take_nil, Vsnprintf.advance, store_nil]
    rfl
  | cons c t ih =>
    unfold Vsnprintf.puts
    by_cases room : v.count < size
    · obtain ⟨k, more⟩ : ∃ k, size - v.count = k + 1 := ⟨size - v.count - 1, by omega⟩
      have left : size - (v.put c).count = k := by
        show size - (v.count + 1) = k
        omega
      rw [if_pos room, ih, left, more, put_eq, advance_advance]
      rfl
    · rw [if_neg room, Nat.sub_eq_zero_of_le (Nat.le_of_not_lt room), List.take_zero,
        Vsnprintf.advance, store_nil]
      rfl

theorem vaArgInt_eq (ap : List VaArg) : vaArgInt ap = ((firstArg ap).word, ap.drop 1) := by
  cases ap <;> rfl

theorem vaArgStr_eq (ap : List VaArg) : vaArgStr ap = ((firstArg ap).string, ap.drop 1) := by
  cases ap <;> rfl

theorem putnum_eq {base : Nat} {issigned : Bool} (atLeast : 2 ≤ base) (atMost : base ≤ 16)
    (room : v.count < size)
    (fits : ¬Overruns base issigned (firstArg v.ap).word v.padding (size - v.count)) :
    v.putnum size base issigned =
      v.advance ((number base issigned (firstArg v.ap).word v.padding).take (size - v.count)) v.padding
        (v.ap.drop 1) := by
  unfold Vsnprintf.putnum
  rw [vaArgInt_eq]
  dsimp only
  rw [snprintnum_eq atLeast atMost (Nat.sub_pos_of_lt room) fits]
  rfl

theorem isDigit_ofNat (d : Fin 10) :
    isDigit (.ofNat 8 (0x30 + d) : BitVec 8) = true ∧ (BitVec.ofNat 8 (0x30 + d)).toNat - 0x30 = d := by
  revert d
  decide

/-- A format that starts with an item. -/
theorem vsnprintfFrom_item (item : Item) (fmt : Text) (room : v.count < size) :
    vsnprintfFrom size (item.text ++ fmt) v = vsnprintfFrom size fmt (item.run size v) := by
  have converts : ∀ (conv : Conversion) (v : Vsnprintf), ∃ v', v.convert size conv.char = some v' := by
    intro conv v
    cases conv with
    | pointer =>
      show ∃ v', (if size - v.count > 2 then _ else _) = some v'
      split <;> exact ⟨_, rfl⟩
    | _ => exact ⟨_, rfl⟩
  cases item with
  | literal c ordinary =>
    show vsnprintfFrom size (c :: fmt) v = _
    rw [vsnprintfFrom.eq_def]
    dsimp only
    rw [if_pos room, if_neg ordinary.1]
    rfl
  | conversion digit conv =>
    cases digit with
    | none =>
      obtain ⟨v', run⟩ := converts conv v
      have notDigit : isDigit conv.char = false := by cases conv <;> rfl
      show vsnprintfFrom size (0x25 :: conv.char :: fmt) v = vsnprintfFrom size fmt ((v.convert size conv.char).getD v)
      rw [vsnprintfFrom_convert room notDigit run, run]
      rfl
    | some d =>
      obtain ⟨v', run⟩ := converts conv { v with padding := d }
      have digit := isDigit_ofNat d
      show vsnprintfFrom size (0x25 :: .ofNat 8 (0x30 + d) :: conv.char :: fmt) v =
        vsnprintfFrom size fmt (({ v with padding := d.val }.convert size conv.char).getD _)
      rw [vsnprintfFrom.eq_def]
      dsimp only
      rw [if_pos room, if_pos rfl, if_pos digit.1, digit.2, run]
      rfl

namespace Item

/-- A pointer without room for it is left out. -/
theorem run_skips {item : Item} (skips : item.skips (size - v.count) = true) :
    item.run size v = v.advance [] (item.padding v.padding) v.ap := by
  cases item with
  | literal c ordinary => cases skips
  | conversion digit conv =>
    cases conv with
    | pointer =>
      have small : size - v.count ≤ 2 := of_decide_eq_true skips
      unfold run
      show (if size - v.count > 2 then _ else _ : Option Vsnprintf).getD _ = _
      rw [if_neg (Nat.not_lt.mpr small), Vsnprintf.advance, store_nil]
      rfl
    | _ => cases skips

/-- `0x` and a number, which has room for its first digit at least. -/
theorem putpointer_eq {padding : Nat} (enough : 2 < size - v.count) :
    Vsnprintf.putnum size 16 false ((Vsnprintf.put { v with padding := padding } 0x30).put 0x78) =
      v.advance (([0x30, 0x78] ++ number 16 false (firstArg v.ap).word padding).take (size - v.count))
        padding (v.ap.drop 1) := by
  obtain ⟨j, rest⟩ : ∃ j, size - v.count = j + 2 := ⟨size - v.count - 2, by omega⟩
  have left : size - (v.count + 2) = j := by omega
  rw [put_eq, put_eq, advance_advance, putnum_eq (by decide) (by decide)]
  · rw [advance_advance, rest]
    show v.advance (_ ++ (number 16 false (firstArg v.ap).word padding).take (size - (v.count + 2))) padding _ = _
    rw [left]
    rfl
  · show v.count + 2 < size
    omega
  · rintro ⟨negative, -⟩
    cases negative

/-- Every other item stores what fits of its output. -/
theorem run_eq {item : Item} (room : v.count < size) (skips : item.skips (size - v.count) = false)
    (fits : ¬item.Overruns (item.padding v.padding) (size - v.count) (firstArg v.ap)) :
    item.run size v =
      v.advance ((item.output (item.padding v.padding) (firstArg v.ap)).take (size - v.count))
        (item.padding v.padding) (v.ap.drop item.takes) := by
  have one : ∀ c : BitVec 8, [c].take (size - v.count) = [c] :=
    fun c => List.take_of_length_le (Nat.sub_pos_of_lt room)
  cases item with
  | literal c ordinary =>
    show v.put c = v.advance ([c].take (size - v.count)) v.padding (v.ap.drop 0)
    rw [put_eq, one]
    rfl
  | conversion digit conv =>
    generalize padded : (conversion digit conv).padding v.padding = p at *
    unfold run
    rw [padded]
    have unsigned : ∀ {base : Nat}, 2 ≤ base → base ≤ 16 →
        { v with padding := p }.putnum size base false =
          v.advance ((number base false (firstArg v.ap).word p).take (size - v.count)) p (v.ap.drop 1) :=
      fun atLeast atMost => putnum_eq atLeast atMost room (by rintro ⟨negative, -⟩; cases negative)
    cases conv with
    | percent =>
      show Vsnprintf.put { v with padding := p } 0x25 = v.advance ([0x25].take _) p (v.ap.drop 0)
      rw [put_eq, one]
      rfl
    | character =>
      show Vsnprintf.put { v with padding := p, ap := (vaArgInt v.ap).2 } ((vaArgInt v.ap).1.setWidth 8) =
        v.advance ([(firstArg v.ap).word.setWidth 8].take _) p (v.ap.drop 1)
      rw [put_eq, vaArgInt_eq, one]
      rfl
    | string =>
      show Vsnprintf.puts size (vaArgStr v.ap).1 { v with padding := p, ap := (vaArgStr v.ap).2 } =
        v.advance ((firstArg v.ap).string.take _) p (v.ap.drop 1)
      rw [puts_eq, vaArgStr_eq]
      rfl
    | hexadecimal => exact unsigned (by decide) (by decide)
    | binary => exact unsigned (by decide) (by decide)
    | unsigned => exact unsigned (by decide) (by decide)
    | decimal => exact putnum_eq (by decide) (by decide) room fits
    | pointer =>
      have enough : 2 < size - v.count := Nat.lt_of_not_le (of_decide_eq_false skips)
      show (if size - v.count > 2 then
        some (Vsnprintf.putnum size 16 false ((Vsnprintf.put { v with padding := p } 0x30).put 0x78))
        else some { v with padding := p }).getD _ = _
      rw [if_pos enough, Option.getD_some]
      exact putpointer_eq enough

/-- An item that overruns stores behind the room. -/
theorem run_overruns {item : Item}
    (overruns : item.Overruns (item.padding v.padding) (size - v.count) (firstArg v.ap)) :
    ∃ k ap, 0 < k ∧
      item.run size v = v.advance (0x2d :: zeros k) (item.padding v.padding) ap := by
  cases item with
  | literal c ordinary => cases overruns
  | conversion digit conv =>
    cases conv with
    | decimal =>
      obtain ⟨k, some, stores⟩ := snprintnum_overrun v.buf v.count (by decide) (by decide)
        overruns
      refine ⟨k, v.ap.drop 1, some, ?_⟩
      unfold run
      show Vsnprintf.putnum size 10 true _ = _
      unfold Vsnprintf.putnum
      rw [vaArgInt_eq]
      dsimp only
      rw [stores, Nat.add_comm 1 k, Vsnprintf.advance, List.length_cons, zeros, List.length_replicate]
    | _ => cases overruns

/-- It does so in the last cell of the room, so that a zero digit follows behind it. -/
theorem run_behind {item : Item}
    (overruns : item.Overruns (item.padding v.padding) (size - v.count) (firstArg v.ap)) :
    size < (item.run size v).count ∧ (item.run size v).buf size = 0x30 := by
  obtain ⟨k, ap, positive, stores⟩ := run_overruns overruns
  have last : size - v.count = 1 := by
    cases item with
    | literal c ordinary => cases overruns
    | conversion digit conv =>
      cases conv with
      | decimal => exact overruns.2.1
      | _ => cases overruns
  have second : size = v.count + 1 := by omega
  have length : (0x2d :: zeros k).length = k + 1 := by
    rw [List.length_cons, zeros, List.length_replicate]
  rw [stores]
  constructor
  · show size < v.count + (0x2d :: zeros k).length
    omega
  · have inside : 1 < (0x2d :: zeros k).length := by omega
    have first : (0x2d :: zeros k)[1] = 0x30 := by simp [zeros]
    rw [← first]
    show store v.buf v.count (0x2d :: zeros k) size = _
    rw [second]
    exact store_inside _ _ inside

end Item

/-! ## A whole format -/

theorem vsnprintfFrom_full (full : size ≤ v.count) (fmt : Text) : vsnprintfFrom size fmt v = v := by
  cases fmt with
  | nil => rfl
  | cons c fmt =>
    rw [vsnprintfFrom.eq_def]
    exact if_neg (Nat.not_lt_of_le full)

theorem vsnprintfFrom_cons {item : Item} {items : List Item} (room : v.count < size) :
    vsnprintfFrom size (formatText (item :: items)) v =
      vsnprintfFrom size (formatText items) (item.run size v) := by
  rw [formatText, List.flatMap_cons]
  exact vsnprintfFrom_item item _ room

section

variable {item : Item} {items : List Item} {room padding : Nat} {ap : List VaArg}

theorem printed_full : printed 0 padding items ap = [] := by
  cases items with
  | nil => rfl
  | cons item items => rw [printed, if_pos rfl]

theorem printed_skips (some : room ≠ 0) (skips : item.skips room = true) :
    printed room padding (item :: items) ap = printed room (item.padding padding) items ap := by
  rw [printed]
  dsimp only
  rw [if_neg some, if_pos skips]

theorem printed_cons (some : room ≠ 0) (skips : item.skips room = false) :
    printed room padding (item :: items) ap =
      (item.output (item.padding padding) (firstArg ap)).take room ++
        printed (room - (item.output (item.padding padding) (firstArg ap)).length) (item.padding padding)
          items (ap.drop item.takes) := by
  have left : room - min room (item.output (item.padding padding) (firstArg ap)).length =
      room - (item.output (item.padding padding) (firstArg ap)).length := by omega
  rw [printed]
  dsimp only
  rw [if_neg some, skips, if_neg Bool.false_ne_true, List.length_take, left]

end

theorem length_printed_le (room padding : Nat) (items : List Item) (ap : List VaArg) :
    (printed room padding items ap).length ≤ room := by
  induction items generalizing room padding ap with
  | nil => exact Nat.zero_le _
  | cons item items ih =>
    rcases Nat.eq_zero_or_pos room with rfl | some
    · rw [printed_full]
      exact Nat.zero_le _
    · cases skips : item.skips room with
      | true =>
        rw [printed_skips some.ne' skips]
        exact ih _ _ _
      | false =>
        have rest := ih (room - (item.output (item.padding padding) (firstArg ap)).length)
          (item.padding padding) (ap.drop item.takes)
        rw [printed_cons some.ne' skips, List.length_append, List.length_take]
        omega

/-- The room that an item leaves. -/
theorem room_left (size : Nat) (v : Vsnprintf) (t : Text) (p : Nat) (ap : List VaArg) :
    size - (v.advance (t.take (size - v.count)) p ap).count = size - v.count - t.length := by
  show size - (v.count + (t.take (size - v.count)).length) = _
  rw [List.length_take]
  omega

/-- Where the items fit, `vsnprintf` stores what they print. -/
theorem vsnprintfFrom_fits {items : List Item}
    (fits : Fits (size - v.count) v.padding items v.ap) :
    ∃ p ap, vsnprintfFrom size (formatText items) v =
      v.advance (printed (size - v.count) v.padding items v.ap) p ap := by
  induction items generalizing v with
  | nil =>
    refine ⟨v.padding, v.ap, ?_⟩
    rw [printed, Vsnprintf.advance, store_nil]
    rfl
  | cons item items ih =>
    by_cases room : v.count < size
    · have some : size - v.count ≠ 0 := Nat.sub_ne_zero_of_lt room
      have split := fits.resolve_left some
      rw [vsnprintfFrom_cons room]
      cases skips : item.skips (size - v.count) with
      | true =>
        rw [if_pos skips] at split
        obtain ⟨p, ap, rest⟩ := ih (v := v.advance [] (item.padding v.padding) v.ap) split
        refine ⟨p, ap, ?_⟩
        rw [Item.run_skips skips, printed_skips some skips]
        exact rest.trans (advance_advance [] _ _ _ _ _)
      | false =>
        rw [skips, if_neg Bool.false_ne_true] at split
        obtain ⟨noOverrun, rest⟩ := split
        rw [Item.run_eq room skips noOverrun, printed_cons some skips]
        generalize item.output (item.padding v.padding) (firstArg v.ap) = t at rest ⊢
        have left := room_left size v t (item.padding v.padding) (v.ap.drop item.takes)
        rw [← left] at rest ⊢
        obtain ⟨p, ap, after⟩ := ih rest
        refine ⟨p, ap, after.trans ?_⟩
        rw [advance_advance]
        rfl
    · refine ⟨v.padding, v.ap, ?_⟩
      have none : size - v.count = 0 := Nat.sub_eq_zero_of_le (Nat.le_of_not_lt room)
      rw [vsnprintfFrom_full (Nat.le_of_not_lt room), none, printed_full, Vsnprintf.advance, store_nil]
      rfl

/-- Otherwise there is a zero digit behind the room, and the count says so. -/
theorem vsnprintfFrom_overruns {items : List Item} (inside : v.count ≤ size)
    (overruns : ¬Fits (size - v.count) v.padding items v.ap) :
    size < (vsnprintfFrom size (formatText items) v).count ∧
      (vsnprintfFrom size (formatText items) v).buf size = 0x30 := by
  induction items generalizing v with
  | nil => exact absurd trivial overruns
  | cons item items ih =>
    have some : size - v.count ≠ 0 := fun none => overruns (.inl none)
    have room : v.count < size := Nat.lt_of_sub_ne_zero some
    rw [vsnprintfFrom_cons room]
    cases skips : item.skips (size - v.count) with
    | true =>
      rw [Item.run_skips skips]
      exact ih (v := v.advance [] (item.padding v.padding) v.ap) inside
        fun fits => overruns (.inr (by rw [if_pos skips]; exact fits))
    | false =>
      by_cases behind : item.Overruns (item.padding v.padding) (size - v.count) (firstArg v.ap)
      · have stored := Item.run_behind behind
        rw [vsnprintfFrom_full stored.1.le]
        exact stored
      · rw [Item.run_eq room skips behind]
        generalize output : item.output (item.padding v.padding) (firstArg v.ap) = t
        have left := room_left size v t (item.padding v.padding) (v.ap.drop item.takes)
        refine ih ?_ fun fits => overruns (.inr ?_)
        · show v.count + (t.take (size - v.count)).length ≤ size
          rw [List.length_take]
          omega
        · rw [skips, if_neg Bool.false_ne_true]
          refine ⟨behind, ?_⟩
          rw [output, ← left]
          exact fits

/-! ## The bound -/

/-- `vsnprintf` leaves the cells from `size` on alone, and counts no more than `size` characters. -/
def Within (buf : Nat → BitVec 8) (size : Nat) (fmt : Text) (ap : List VaArg) : Prop :=
  (∀ i, size ≤ i → (vsnprintf buf size fmt ap).1 i = buf i) ∧ (vsnprintf buf size fmt ap).2 ≤ size

/-- The call, where the items fit. -/
theorem vsnprintf_fits {buf : Nat → BitVec 8} {items : List Item} {ap : List VaArg}
    (fits : Fits size 0 items ap) :
    vsnprintf buf size (formatText items) ap =
      (store buf 0 (printed size 0 items ap), (printed size 0 items ap).length) := by
  obtain ⟨p, ap', run⟩ := vsnprintfFrom_fits (v := { buf := buf, count := 0, padding := 0, ap := ap }) fits
  unfold vsnprintf
  rw [run, Nat.sub_zero]
  exact Prod.ext rfl (Nat.zero_add _)

theorem vsnprintf_overruns (buf : Nat → BitVec 8) {items : List Item} {ap : List VaArg}
    (overruns : ¬Fits size 0 items ap) :
    size < (vsnprintf buf size (formatText items) ap).2 ∧
      (vsnprintf buf size (formatText items) ap).1 size = 0x30 :=
  vsnprintfFrom_overruns (v := { buf := buf, count := 0, padding := 0, ap := ap }) (Nat.zero_le _) overruns

/-- **The bound of formatted output.** `vsnprintf` stays within its buffer exactly if no negative `%d`
with more padding than digits finds room for its sign only. The same is the condition under which the
buffer of `kprintf` keeps its last zero. -/
theorem vsnprintf_within_iff (items : List Item) (ap : List VaArg) :
    (∀ buf size, Within buf size (formatText items) ap ↔ Fits size 0 items ap) ∧
      ((vsnprintf (fun _ => 0) (bufsize - 1) (formatText items) ap).1 (bufsize - 1) = 0 ↔
        Fits (bufsize - 1) 0 items ap) := by
  refine ⟨fun buf size => ⟨fun within => ?_, fun fits => ?_⟩, fun zero => ?_, fun fits => ?_⟩
  · by_contra overruns
    exact Nat.not_lt_of_le within.2 (vsnprintf_overruns buf overruns).1
  · have length := length_printed_le size 0 items ap
    unfold Within
    rw [vsnprintf_fits fits]
    refine ⟨fun i after => ?_, length⟩
    show store buf 0 _ i = buf i
    rw [store_of_le (by omega)]
  · by_contra overruns
    have digit := (vsnprintf_overruns (fun _ => 0) overruns).2
    rw [zero] at digit
    cases digit
  · have length := length_printed_le (bufsize - 1) 0 items ap
    rw [vsnprintf_fits fits]
    show store (fun _ => 0) 0 _ (bufsize - 1) = 0
    rw [store_of_le (by omega)]

/-- `%5d` of -1 in one byte. -/
theorem not_within_negative_padded :
    ¬∀ (items : List Item) (ap : List VaArg) (buf : Nat → BitVec 8) (size : Nat), Matches items ap →
      Within buf size (formatText items) ap := by
  intro within
  have counted := (within [.conversion (some 5) .decimal] [.int (-1)] (fun _ => 0) 1 rfl).2
  exact absurd counted (by decide)

end Nulix.Print
