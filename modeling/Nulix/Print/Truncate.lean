import Nulix.Print.Compose

/-!
# Cutting the output off

A size cuts the output off wherever it falls, with one exception: a `%p` that finds room for one or two
characters is left out together with its argument, and what follows it takes its place. From there on no
other `%p` finds more room, so that the text that follows is that of the items without their pointers.
-/

namespace Nulix.Print

open Positional Strings

namespace Item

def isPointer : Item → Bool
  | conversion _ .pointer => true
  | _ => false

theorem skips_eq (item : Item) (room : Nat) : item.skips room = (item.isPointer && decide (room ≤ 2)) := by
  cases item with
  | literal c ordinary => rfl
  | conversion digit conv => cases conv <;> rfl

end Item

/-- The output in full of the items other than pointers, which leave their arguments to the items
behind them. -/
def withoutPointers : Nat → List Item → List VaArg → Text
  | _, [], _ => []
  | padding, item :: items, ap =>
    let padding := item.padding padding
    if item.isPointer then withoutPointers padding items ap
    else item.output padding (firstArg ap) ++ withoutPointers padding items (ap.drop item.takes)

/-- A `%p` that finds room for one or two characters is followed by the characters it would start
with. -/
def PointersFit : Nat → Nat → List Item → List VaArg → Prop
  | _, _, [], _ => True
  | room, padding, item :: items, ap =>
    let padding := item.padding padding
    room = 0 ∨
      if item.skips room then (withoutPointers padding items ap).take room = (text "0x").take room
      else
        PointersFit (room - (item.output padding (firstArg ap)).length) padding items
          (ap.drop item.takes)

/-! ## What is stored in the room -/

variable {size : Nat} {v : Vsnprintf}

/-- An item that overruns stores the first character of its output in the room. -/
theorem Item.run_overruns_take {item : Item}
    (overruns : item.Overruns (item.padding v.padding) (size - v.count) (firstArg v.ap)) :
    ∃ t ap, item.run size v = v.advance t (item.padding v.padding) ap ∧ size ≤ v.count + t.length ∧
      t.take (size - v.count) =
        (item.output (item.padding v.padding) (firstArg v.ap)).take (size - v.count) := by
  obtain ⟨k, ap, some, stores⟩ := Item.run_overruns overruns
  cases item with
  | literal c ordinary => cases overruns
  | conversion digit conv =>
    cases conv with
    | decimal =>
      obtain ⟨negative, one, -⟩ := overruns
      refine ⟨_, ap, stores, ?_, ?_⟩
      · rw [List.length_cons]
        omega
      · rw [one, Item.output, Conversion.output, number, sign, if_pos negative]
        rfl
    | _ => cases overruns

/-- Whatever the loop on the items stores behind it, the room holds what they print. -/
def StoresPrinted (size : Nat) (items : List Item) (v : Vsnprintf) : Prop :=
  ∃ t p ap, vsnprintfFrom size (formatText items) v = v.advance t p ap ∧
    t.take (size - v.count) = printed (size - v.count) v.padding items v.ap

section

variable {item : Item} {items : List Item}

theorem storesPrinted_full (full : size ≤ v.count) : StoresPrinted size items v := by
  have none : size - v.count = 0 := Nat.sub_eq_zero_of_le full
  refine ⟨[], v.padding, v.ap, ?_, ?_⟩
  · rw [vsnprintfFrom_full full, Vsnprintf.advance, store_nil]
    rfl
  · rw [none, printed_full, List.take_nil]

/-- An item that is left out. -/
theorem storesPrinted_skips (room : v.count < size) (skips : item.skips (size - v.count) = true)
    (rest : StoresPrinted size items (v.advance [] (item.padding v.padding) v.ap)) :
    StoresPrinted size (item :: items) v := by
  obtain ⟨t, p, ap, stores, held⟩ := rest
  refine ⟨t, p, ap, ?_, ?_⟩
  · rw [vsnprintfFrom_cons room, Item.run_skips skips, stores, advance_advance]
    rfl
  · rw [printed_skips (Nat.sub_ne_zero_of_lt room) skips]
    exact held

/-- Nothing is stored after an item that overruns. -/
theorem storesPrinted_overruns (room : v.count < size) (skips : item.skips (size - v.count) = false)
    (overruns : item.Overruns (item.padding v.padding) (size - v.count) (firstArg v.ap)) :
    StoresPrinted size (item :: items) v := by
  obtain ⟨t, ap, stores, full, held⟩ := Item.run_overruns_take overruns
  refine ⟨t, item.padding v.padding, ap, ?_, ?_⟩
  · rw [vsnprintfFrom_cons room, stores]
    exact vsnprintfFrom_full full _
  · have length := congrArg List.length held
    rw [List.length_take, List.length_take, Nat.min_eq_left (by omega)] at length
    have none : size - v.count - (item.output (item.padding v.padding) (firstArg v.ap)).length = 0 := by
      omega
    rw [printed_cons (Nat.sub_ne_zero_of_lt room) skips, held, none, printed_full, List.append_nil]

/-- Every other item stores as much of its output as there is room for. -/
theorem storesPrinted_fits (room : v.count < size) (skips : item.skips (size - v.count) = false)
    (fits : ¬item.Overruns (item.padding v.padding) (size - v.count) (firstArg v.ap))
    (rest : StoresPrinted size items
      (v.advance ((item.output (item.padding v.padding) (firstArg v.ap)).take (size - v.count))
        (item.padding v.padding) (v.ap.drop item.takes))) :
    StoresPrinted size (item :: items) v := by
  obtain ⟨t, p, ap, stores, held⟩ := rest
  have short := List.length_take_le (size - v.count)
    (item.output (item.padding v.padding) (firstArg v.ap))
  have left := room_left size v (item.output (item.padding v.padding) (firstArg v.ap))
    (item.padding v.padding) (v.ap.drop item.takes)
  refine ⟨(item.output (item.padding v.padding) (firstArg v.ap)).take (size - v.count) ++ t, p, ap, ?_, ?_⟩
  · rw [vsnprintfFrom_cons room, Item.run_eq room skips fits, stores, advance_advance]
  · rw [printed_cons (Nat.sub_ne_zero_of_lt room) skips, ← left, List.take_append,
      List.take_of_length_le short, ← Nat.sub_add_eq]
    exact congrArg _ held

end

/-- From every state of the loop. -/
theorem vsnprintfFrom_stores (size : Nat) (items : List Item) (v : Vsnprintf) :
    StoresPrinted size items v := by
  induction items generalizing v with
  | nil =>
    refine ⟨[], v.padding, v.ap, ?_, ?_⟩
    · rw [Vsnprintf.advance, store_nil]
      rfl
    · rw [printed, List.take_nil]
  | cons item items ih =>
    rcases Nat.lt_or_ge v.count size with room | full
    · cases skips : item.skips (size - v.count) with
      | true => exact storesPrinted_skips room skips (ih _)
      | false =>
        by_cases overruns : item.Overruns (item.padding v.padding) (size - v.count) (firstArg v.ap)
        · exact storesPrinted_overruns room skips overruns
        · exact storesPrinted_fits room skips overruns (ih _)
    · exact storesPrinted_full full

/-- The characters in the room. -/
theorem vsnprintfText_take (buf : Nat → BitVec 8) (size : Nat) (items : List Item) (ap : List VaArg) :
    (vsnprintfText buf size (formatText items) ap).take size = printed size 0 items ap := by
  obtain ⟨t, p, ap', stores, held⟩ := vsnprintfFrom_stores size items
    { buf := buf, count := 0, padding := 0, ap := ap }
  have text : vsnprintfText buf size (formatText items) ap = t := by
    unfold vsnprintfText vsnprintf
    rw [stores]
    refine List.ext_getElem (by simp [Vsnprintf.advance]) fun i _ inside => ?_
    rw [List.getElem_map, List.getElem_range]
    have stored := store_inside buf 0 inside
    rw [Nat.zero_add] at stored
    exact stored
  rw [text]
  exact held

/-! ## The cut -/

/-- With room for two characters or less every pointer is left out. -/
theorem printed_small {room padding : Nat} {items : List Item} {ap : List VaArg} (small : room ≤ 2) :
    printed room padding items ap = (withoutPointers padding items ap).take room := by
  induction items generalizing room padding ap with
  | nil => rw [printed, withoutPointers, List.take_nil]
  | cons item items ih =>
    by_cases none : room = 0
    · rw [none, printed_full, List.take_zero]
    · have skips : item.skips room = item.isPointer := by
        rw [Item.skips_eq, decide_eq_true small, Bool.and_true]
      rw [withoutPointers]
      cases pointer : item.isPointer with
      | true =>
        rw [printed_skips none (skips.trans pointer)]
        exact ih small
      | false =>
        rw [printed_cons none (skips.trans pointer), if_neg Bool.false_ne_true, List.take_append,
          ih (Nat.le_trans (Nat.sub_le _ _) small)]

/-- A pointer that is left out would have started with its prefix. -/
theorem Item.take_output_of_skips {item : Item} {room : Nat} (skips : item.skips room = true)
    (padding : Nat) (a : VaArg) (rest : Text) :
    room ≤ 2 ∧ (item.output padding a ++ rest).take room = (Print.text "0x").take room := by
  cases item with
  | literal c ordinary => cases skips
  | conversion digit conv =>
    cases conv with
    | pointer =>
      have small : room ≤ 2 := of_decide_eq_true skips
      refine ⟨small, ?_⟩
      show ([0x30, 0x78] ++ (number 16 false a.word padding ++ rest)).take room = [0x30, 0x78].take room
      exact List.take_append_of_le_length small
    | _ => cases skips

/-- What the items print is the cut off output exactly if their pointers fit. -/
theorem printed_eq_take_iff (room padding : Nat) (items : List Item) (ap : List VaArg) :
    printed room padding items ap = (expansion padding items ap).take room ↔
      PointersFit room padding items ap := by
  induction items generalizing room padding ap with
  | nil => exact iff_of_true (by rw [printed, expansion, List.take_nil]) trivial
  | cons item items ih =>
    by_cases none : room = 0
    · exact iff_of_true (by rw [none, printed_full, List.take_zero]) (.inl none)
    · rw [expansion, PointersFit, or_iff_right none]
      cases skips : item.skips room with
      | true =>
        obtain ⟨small, cut⟩ := Item.take_output_of_skips skips (item.padding padding) (firstArg ap)
          (expansion (item.padding padding) items (ap.drop item.takes))
        rw [printed_skips none skips, if_pos rfl, cut, printed_small small]
      | false =>
        rw [printed_cons none skips, if_neg Bool.false_ne_true, List.take_append, List.append_right_inj]
        exact ih _ _ _

/-- **Truncation.** There is an output in full, which every large enough buffer gets; what a call with a
smaller size stores in its buffer is that output cut off at the size exactly if the pointers fit. -/
theorem vsnprintf_truncates_iff (items : List Item) (ap : List VaArg) :
    ∃ full : Text,
      (∀ size, full.length ≤ size → ∀ buf, vsnprintfText buf size (formatText items) ap = full) ∧
      ∀ size buf,
        (vsnprintfText buf size (formatText items) ap).take size = full.take size ↔
          PointersFit size 0 items ap := by
  refine ⟨expansion 0 items ap, fun size enough buf => vsnprintfText_eq enough, fun size buf => ?_⟩
  rw [vsnprintfText_take]
  exact printed_eq_take_iff size 0 items ap

/-- `%pab` in two bytes: the pointer is left out, and the letters behind it are not. -/
theorem not_vsnprintf_truncates_pointer :
    ¬∀ (items : List Item) (ap : List VaArg), Matches items ap →
      ∃ full : Text,
        (∀ size, full.length ≤ size → ∀ buf, vsnprintfText buf size (formatText items) ap = full) ∧
        ∀ size buf, (vsnprintfText buf size (formatText items) ap).take size = full.take size := by
  intro truncates
  obtain ⟨full, whole, cut⟩ := truncates
    [.conversion none .pointer, .literal 0x61 (by decide), .literal 0x62 (by decide)] [.int 0] rfl
  have large := whole (full.length + 5) (Nat.le_add_right _ _) fun _ => 0
  rw [vsnprintfText_eq (Nat.le_trans (by decide) (Nat.le_add_left 5 full.length))] at large
  have small := cut 2 fun _ => 0
  rw [← large] at small
  revert small
  decide

end Nulix.Print
