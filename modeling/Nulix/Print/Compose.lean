import Nulix.Print.Format

/-!
# Formats one after the other

In a large enough buffer a format prints the output of its items in full. The padding is a variable of the
whole loop: a conversion without a digit of its own is padded as the last one that had one.
-/

namespace Nulix.Print

open Positional Strings

/-- The output of the items in full. -/
def expansion : Nat → List Item → List VaArg → Text
  | _, [], _ => []
  | padding, item :: items, ap =>
    item.output (item.padding padding) (firstArg ap) ++
      expansion (item.padding padding) items (ap.drop item.takes)

/-- The padding behind the items: their last padding digit. -/
def lastPadding (padding : Nat) (items : List Item) : Nat := items.foldl Item.padding padding

/-- The characters that `vsnprintf` stores. -/
def vsnprintfText (buf : Nat → BitVec 8) (size : Nat) (fmt : Text) (ap : List VaArg) : Text :=
  (List.range (vsnprintf buf size fmt ap).2).map (vsnprintf buf size fmt ap).1

/-- The digits of a conversion, counted; nothing is padded to less. -/
def Conversion.digits (a : VaArg) : Conversion → Option Nat
  | hexadecimal | pointer => some (digitsOf 16 (magnitude false a.word)).length
  | binary => some (digitsOf 2 (magnitude false a.word)).length
  | decimal => some (digitsOf 10 (magnitude true a.word)).length
  | unsigned => some (digitsOf 10 (magnitude false a.word)).length
  | _ => none

/-- Up to the first padding digit, every number has `padding` digits or more. -/
def Unpadded (padding : Nat) : List Item → List VaArg → Prop
  | [], _ => True
  | .literal _ _ :: items, ap => Unpadded padding items ap
  | .conversion (some _) _ :: _, _ => True
  | .conversion none conv :: items, ap =>
    (∀ n ∈ conv.digits (firstArg ap), padding ≤ n) ∧
      Unpadded padding items (ap.drop (Item.takes (.conversion none conv)))

/-! ## In full -/

theorem length_padded_pos (base un padding : Nat) (atLeast : 2 ≤ base) :
    0 < (padded base un padding).length := by
  have some := List.length_pos_iff.mpr (digitsOf_ne_nil atLeast un)
  rw [length_padded]
  omega

/-- An item whose output fits is not left out. -/
theorem Item.skips_of_length_le {item : Item} {room padding : Nat} {a : VaArg}
    (enough : (item.output (item.padding padding) a).length ≤ room) : item.skips room = false := by
  cases item with
  | literal c ordinary => rfl
  | conversion digit conv =>
    cases conv with
    | pointer =>
      have some := length_padded_pos 16 (magnitude false a.word)
        ((Item.conversion digit .pointer).padding padding) (by decide)
      simp only [Item.output, Conversion.output, number, List.length_cons, List.length_append]
        at enough
      exact decide_eq_false (by omega)
    | _ => rfl

/-- An item whose output fits does not store behind the room. -/
theorem Item.not_overruns_of_length_le {item : Item} {room padding : Nat} {a : VaArg}
    (enough : (item.output (item.padding padding) a).length ≤ room) :
    ¬item.Overruns (item.padding padding) room a := by
  cases item with
  | literal c ordinary => exact id
  | conversion digit conv =>
    cases conv with
    | decimal =>
      rintro ⟨negative, one, -⟩
      have some := length_padded_pos 10 (magnitude true a.word)
        ((Item.conversion digit .decimal).padding padding) (by decide)
      simp only [Item.output, Conversion.output, number, List.length_append] at enough
      rw [sign, if_pos negative, List.length_singleton] at enough
      omega
    | _ => exact id

/-- Room for the whole output is room for every item. -/
theorem fits_of_length_le {room padding : Nat} {items : List Item} {ap : List VaArg}
    (enough : (expansion padding items ap).length ≤ room) :
    Fits room padding items ap ∧ printed room padding items ap = expansion padding items ap := by
  induction items generalizing room padding ap with
  | nil => exact ⟨trivial, rfl⟩
  | cons item items ih =>
    rw [expansion, List.length_append] at enough
    by_cases none : room = 0
    · subst none
      refine ⟨.inl rfl, ?_⟩
      rw [printed_full, expansion]
      symm
      rw [List.append_eq_nil_iff]
      constructor <;> exact List.eq_nil_of_length_eq_zero (by omega)
    · have first : (item.output (item.padding padding) (firstArg ap)).length ≤ room := by omega
      have skips := Item.skips_of_length_le first
      have noOverrun := Item.not_overruns_of_length_le first
      obtain ⟨fits, rest⟩ := ih (show (expansion (item.padding padding) items (ap.drop item.takes)).length ≤
        room - (item.output (item.padding padding) (firstArg ap)).length by omega)
      have whole : (item.output (item.padding padding) (firstArg ap)).take room = _ :=
        List.take_of_length_le first
      constructor
      · refine .inr ?_
        rw [skips, if_neg Bool.false_ne_true]
        exact ⟨noOverrun, fits⟩
      · rw [printed_cons none skips, whole, rest]
        rfl

/-- In a large enough buffer the output is that of the items in full. -/
theorem vsnprintfText_eq {buf : Nat → BitVec 8} {size : Nat} {items : List Item} {ap : List VaArg}
    (enough : (expansion 0 items ap).length ≤ size) :
    vsnprintfText buf size (formatText items) ap = expansion 0 items ap := by
  obtain ⟨fits, whole⟩ := fits_of_length_le enough
  unfold vsnprintfText
  rw [vsnprintf_fits fits, whole]
  refine List.ext_getElem (by simp) fun i _ inside => ?_
  rw [List.getElem_map, List.getElem_range]
  have stored := store_inside buf 0 inside
  rw [Nat.zero_add] at stored
  exact stored

/-- The text that `kprintf` writes to the screen. -/
theorem kprintfText_items (items : List Item) {ap : List VaArg}
    (enough : (expansion 0 items ap).length ≤ bufsize - 1)
    (nonzero : ∀ c ∈ expansion 0 items ap, c ≠ 0) :
    kprintfText (formatText items) ap = expansion 0 items ap := by
  obtain ⟨fits, whole⟩ := fits_of_length_le enough
  have empty : Holds (fun _ => (0 : BitVec 8)) bufsize [] := fun _ _ => rfl
  unfold kprintfText
  rw [vsnprintf_fits fits, whole]
  exact (empty.store (expansion 0 items ap)).contents_eq
    (Nat.le_trans enough (Nat.sub_le bufsize 1)) nonzero

/-! ## Literal text -/

/-- Literal characters, one item each. -/
def literals (t : Text) (ordinary : ∀ c ∈ t, c ≠ 0x25 ∧ c ≠ 0) : List Item :=
  t.pmap Item.literal ordinary

theorem expansion_literals (padding : Nat) (t : Text) (ordinary : ∀ c ∈ t, c ≠ 0x25 ∧ c ≠ 0)
    (items : List Item) (ap : List VaArg) :
    expansion padding (literals t ordinary ++ items) ap = t ++ expansion padding items ap := by
  induction t with
  | nil => rfl
  | cons c t ih => exact congrArg (c :: ·) (ih fun d mem => ordinary d (List.mem_cons_of_mem c mem))

theorem expansion_conversion (padding : Nat) {conv : Conversion} (argument : conv ≠ .percent)
    (items : List Item) (a : VaArg) (ap : List VaArg) :
    expansion padding (.conversion none conv :: items) (a :: ap) =
      conv.output padding a ++ expansion padding items ap := by
  cases conv with
  | percent => exact absurd rfl argument
  | _ => rfl

/-! ## Two formats -/

theorem formatText_append (items items' : List Item) :
    formatText (items ++ items') = formatText items ++ formatText items' := List.flatMap_append

/-- The second format starts with the padding that the first one leaves. -/
theorem expansion_append {padding : Nat} {items items' : List Item} {ap ap' : List VaArg}
    (matched : Matches items ap) :
    expansion padding (items ++ items') (ap ++ ap') =
      expansion padding items ap ++ expansion (lastPadding padding items) items' ap' := by
  induction items generalizing padding ap with
  | nil =>
    have none : ap = [] := List.eq_nil_of_length_eq_zero matched
    subst none
    rfl
  | cons item items ih =>
    rw [Matches, List.map_cons, List.sum_cons] at matched
    have some : item.takes ≤ ap.length := by omega
    have rest : Matches items (ap.drop item.takes) := by
      rw [Matches, List.length_drop]
      omega
    have output : item.output (item.padding padding) (firstArg (ap ++ ap')) =
        item.output (item.padding padding) (firstArg ap) := by
      cases ap with
      | cons a ap => rfl
      | nil => cases item with
        | literal c ordinary => rfl
        | conversion digit conv => cases conv with
          | percent => rfl
          | _ => cases some
    rw [List.cons_append, expansion, expansion, output, List.drop_append_of_le_length some, ih rest,
      List.append_assoc]
    rfl

theorem length_number (base : Nat) (issigned : Bool) (n : BitVec 32) (padding : Nat) :
    (number base issigned n padding).length =
      (sign issigned n).length + max padding (digitsOf base (magnitude issigned n)).length := by
  rw [number, List.length_append, length_padded]

/-- Padding makes no output shorter, and keeps its length only where there are digits enough. -/
theorem Conversion.output_padding (conv : Conversion) (padding : Nat) (a : VaArg) :
    (conv.output 0 a).length ≤ (conv.output padding a).length ∧
      ((conv.output padding a).length = (conv.output 0 a).length →
        ∀ n ∈ conv.digits a, padding ≤ n) := by
  cases conv with
  | percent => exact ⟨Nat.le_refl _, nofun⟩
  | character => exact ⟨Nat.le_refl _, nofun⟩
  | string => exact ⟨Nat.le_refl _, nofun⟩
  | _ =>
    simp only [Conversion.output, List.length_cons, length_number, Conversion.digits, Option.mem_def,
      Option.some.injEq, forall_eq']
    omega

theorem Conversion.output_eq {conv : Conversion} {padding : Nat} {a : VaArg}
    (enough : ∀ n ∈ conv.digits a, padding ≤ n) : conv.output padding a = conv.output 0 a := by
  have same : ∀ {base : Nat} {issigned : Bool},
      padding ≤ (digitsOf base (magnitude issigned a.word)).length →
        number base issigned a.word padding = number base issigned a.word 0 := by
    intro base issigned longer
    rw [number, number, padded, padded, Nat.sub_eq_zero_of_le longer, Nat.zero_sub]
  cases conv with
  | percent => rfl
  | character => rfl
  | string => rfl
  | pointer => exact congrArg (fun t => 0x30 :: 0x78 :: t) (same (enough _ rfl))
  | hexadecimal => exact same (enough _ rfl)
  | binary => exact same (enough _ rfl)
  | decimal => exact same (enough _ rfl)
  | unsigned => exact same (enough _ rfl)

theorem length_expansion_le (padding : Nat) (items : List Item) (ap : List VaArg) :
    (expansion 0 items ap).length ≤ (expansion padding items ap).length := by
  induction items generalizing ap with
  | nil => exact Nat.le_refl _
  | cons item items ih =>
    rw [expansion, expansion, List.length_append, List.length_append]
    cases item with
    | literal c ordinary => exact Nat.add_le_add_left (ih _) _
    | conversion digit conv => cases digit with
      | none => exact Nat.add_le_add (conv.output_padding padding _).1 (ih _)
      | some d => exact Nat.le_refl _

/-- The padding of what came before is seen exactly if some number has less digits. -/
theorem expansion_padding_iff (padding : Nat) (items : List Item) (ap : List VaArg) :
    expansion padding items ap = expansion 0 items ap ↔ Unpadded padding items ap := by
  induction items generalizing ap with
  | nil => exact iff_of_true rfl trivial
  | cons item items ih =>
    cases item with
    | literal c ordinary => exact List.append_right_inj _ |>.trans (ih ap)
    | conversion digit conv => cases digit with
      | some d => exact iff_of_true rfl trivial
      | none =>
        have step : ∀ p, expansion p (.conversion none conv :: items) ap =
            conv.output p (firstArg ap) ++
              expansion p items (ap.drop (Item.takes (.conversion none conv))) := fun _ => rfl
        rw [step, step, Unpadded, ← ih]
        constructor
        · intro same
          have lengths := congrArg List.length same
          rw [List.length_append, List.length_append] at lengths
          have rest := length_expansion_le padding items (ap.drop (Item.takes (.conversion none conv)))
          obtain ⟨first, enough⟩ := conv.output_padding padding (firstArg ap)
          have equal : (conv.output padding (firstArg ap)).length = (conv.output 0 (firstArg ap)).length := by
            omega
          exact ⟨enough equal, (List.append_inj same equal).2⟩
        · rintro ⟨enough, rest⟩
          rw [Conversion.output_eq enough, rest]

/-- **Formatting two formats at once.** In a large enough buffer the output is that of the first format
followed by that of the second exactly if, up to its first padding digit, the second prints no number
with less digits than the last padding digit of the first. -/
theorem vsnprintf_append_iff (items items' : List Item) (ap ap' : List VaArg)
    (matched : Matches items ap) :
    ∃ enough, ∀ size, enough ≤ size → ∀ buf,
      (vsnprintfText buf size (formatText items ++ formatText items') (ap ++ ap') =
          vsnprintfText buf size (formatText items) ap ++
            vsnprintfText buf size (formatText items') ap' ↔
        Unpadded (lastPadding 0 items) items' ap') := by
  have whole : expansion 0 (items ++ items') (ap ++ ap') = _ := expansion_append matched
  have longer := length_expansion_le (lastPadding 0 items) items' ap'
  refine ⟨(expansion 0 (items ++ items') (ap ++ ap')).length, fun size enough buf => ?_⟩
  have lengths := congrArg List.length whole
  rw [List.length_append] at lengths
  rw [← formatText_append, vsnprintfText_eq enough, vsnprintfText_eq (by omega),
    vsnprintfText_eq (by omega), whole, List.append_right_inj]
  exact expansion_padding_iff _ _ _

/-- A number with two digits behind a number padded to two. -/
theorem vsnprintf_append_iff_two_digits :
    ∃ enough, ∀ size, enough ≤ size → ∀ buf,
      (vsnprintfText buf size (formatText [.conversion (some 2) .decimal] ++
            formatText [.conversion none .unsigned]) ([.int 7] ++ [.int 42]) =
          vsnprintfText buf size (formatText [.conversion (some 2) .decimal]) [.int 7] ++
            vsnprintfText buf size (formatText [.conversion none .unsigned]) [.int 42] ↔
        Unpadded (lastPadding 0 [.conversion (some 2) .decimal]) [.conversion none .unsigned]
          [.int 42]) :=
  vsnprintf_append_iff _ _ _ _ rfl

/-- `%5d` and then `%d`, whose number is padded like the first. -/
theorem not_vsnprintf_append_padding_kept :
    ¬∀ (items items' : List Item) (ap ap' : List VaArg), Matches items ap → Matches items' ap' →
      ∃ enough, ∀ size, enough ≤ size → ∀ buf,
        vsnprintfText buf size (formatText items ++ formatText items') (ap ++ ap') =
          vsnprintfText buf size (formatText items) ap ++
            vsnprintfText buf size (formatText items') ap' := by
  intro composes
  obtain ⟨enough, same⟩ :=
    composes [.conversion (some 5) .decimal] [.conversion none .decimal] [.int 1] [.int 2] rfl rfl
  have at100 := same (enough + 100) (Nat.le_add_right _ _) fun _ => 0
  rw [← formatText_append, vsnprintfText_eq, vsnprintfText_eq, vsnprintfText_eq] at at100
  · revert at100
    decide
  all_goals exact Nat.le_trans (by decide) (Nat.le_add_left 100 enough)

end Nulix.Print
