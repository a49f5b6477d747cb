import Mathlib.Data.List.GetD
import Mathlib.Data.List.TakeWhile

/-!
# Tokens of a list

The tokens of a list are its maximal runs of elements that are not separators, in order. A scanner
finds them by going over separators one at a time and over a token at once; the lemmas are those two
steps.
-/

namespace Tokens

variable {α : Type}

def tokens (sep : α → Bool) (l : List α) : List (List α) :=
  (l.splitOnP sep).filter fun t => !t.isEmpty

variable {sep : α → Bool} {c : α} {l w : List α}

@[simp] theorem tokens_nil : tokens sep [] = [] := rfl

theorem ne_nil_of_mem_tokens (mem : w ∈ tokens sep l) : w ≠ [] := by
  have kept := (List.mem_filter.mp mem).2
  simpa using kept

/-- A separator in front. -/
theorem tokens_sep_cons (isSep : sep c = true) : tokens sep (c :: l) = tokens sep l := by
  rw [tokens, List.splitOnP_cons_eq_if_modifyHead, if_pos isSep]
  rfl

theorem tokens_dropWhile (sep : α → Bool) (l : List α) :
    tokens sep (l.dropWhile sep) = tokens sep l := by
  induction l with
  | nil => rfl
  | cons c l ih =>
    rw [List.dropWhile_cons]
    split
    · rename_i isSep
      rw [tokens_sep_cons isSep, ih]
    · rfl

/-- What is left after skipping does not start with what was skipped. -/
theorem head_dropWhile {p : α → Bool} (rest : l.dropWhile p = c :: w) : p c = false := by
  have some : l.dropWhile p ≠ [] := by
    rw [rest]
    exact List.cons_ne_nil c w
  have stopped := List.head_dropWhile_not p some
  simpa [rest] using stopped

theorem drop_takeWhile (p : α → Bool) (l : List α) :
    l.drop (l.takeWhile p).length = l.dropWhile p := by
  have whole := List.takeWhile_append_dropWhile (p := p) (l := l)
  calc l.drop (l.takeWhile p).length
      = (l.takeWhile p ++ l.dropWhile p).drop (l.takeWhile p).length := by rw [whole]
    _ = l.dropWhile p := List.drop_left

theorem getD_takeWhile_of_lt {p : α → Bool} {i : Nat} (early : i < (l.takeWhile p).length) (z : α) :
    p (l.getD i z) = true := by
  have whole := List.takeWhile_append_dropWhile (p := p) (l := l)
  have kept : l.getD i z = (l.takeWhile p).getD i z := by
    calc l.getD i z = (l.takeWhile p ++ l.dropWhile p).getD i z := by rw [whole]
      _ = (l.takeWhile p).getD i z := List.getD_append _ _ z i early
  rw [kept, List.getD_eq_getElem _ z early]
  exact List.mem_takeWhile_imp (List.getElem_mem early)

theorem getD_length_takeWhile {p : α → Bool} (more : (l.takeWhile p).length < l.length) (z : α) :
    p (l.getD (l.takeWhile p).length z) = false := by
  have rest := drop_takeWhile p l
  rw [List.drop_eq_getElem_cons more] at rest
  rw [List.getD_eq_getElem l z more]
  exact head_dropWhile rest.symm

/-- A token and nothing after it. -/
theorem tokens_word (some : w ≠ []) (word : ∀ c ∈ w, sep c = false) : tokens sep w = [w] := by
  rw [tokens, List.splitOnP_eq_singleton word]
  simp [some]

/-- A token in front of a separator. -/
theorem tokens_word_cons (some : w ≠ []) (word : ∀ c ∈ w, sep c = false) (isSep : sep c = true) :
    tokens sep (w ++ c :: l) = w :: tokens sep l := by
  rw [tokens, List.splitOnP_append_cons_of_forall_mem word c isSep, List.filter_cons_of_pos]
  · rfl
  · simp [some]

/-- The first token of a list that does not start with a separator. -/
theorem tokens_takeWhile (isWord : sep c = false) :
    tokens sep (c :: l) =
      (c :: l).takeWhile (fun c => !sep c) :: tokens sep ((c :: l).dropWhile fun c => !sep c) := by
  have some : (c :: l).takeWhile (fun c => !sep c) ≠ [] := by
    rw [List.takeWhile_cons_of_pos (by simpa using isWord)]
    exact List.cons_ne_nil _ _
  have word : ∀ d ∈ (c :: l).takeWhile (fun c => !sep c), sep d = false := by
    intro d mem
    have kept := List.mem_takeWhile_imp mem
    simpa using kept
  have whole := List.takeWhile_append_dropWhile (p := fun c => !sep c) (l := c :: l)
  cases rest : (c :: l).dropWhile fun c => !sep c with
  | nil =>
    rw [rest, List.append_nil] at whole
    rw [whole] at some word ⊢
    exact tokens_word some word
  | cons d l' =>
    have isSep : sep d = true := by simpa using head_dropWhile rest
    rw [rest] at whole
    calc tokens sep (c :: l)
        = tokens sep ((c :: l).takeWhile (fun c => !sep c) ++ d :: l') := by rw [whole]
      _ = (c :: l).takeWhile (fun c => !sep c) :: tokens sep (d :: l') := by
          rw [tokens_word_cons some word isSep, tokens_sep_cons isSep]

/-- Every token but the first has a separator in front of it. -/
theorem two_mul_length_tokens (sep : α → Bool) (l : List α) :
    2 * (tokens sep l).length ≤ l.length + 1 := by
  induction n : l.length using Nat.strongRecOn generalizing l with
  | ind n ih =>
    cases l with
    | nil => simp
    | cons c l =>
      cases isSep : sep c with
      | true =>
        rw [List.length_cons] at n
        have shorter := ih l.length (by omega) l rfl
        rw [tokens_sep_cons isSep]
        omega
      | false =>
        have whole := List.takeWhile_append_dropWhile (p := fun c => !sep c) (l := c :: l)
        have lengths := congrArg List.length whole
        rw [List.length_append, n] at lengths
        have some : 0 < ((c :: l).takeWhile fun c => !sep c).length := by
          rw [List.takeWhile_cons_of_pos (by simpa using isSep)]
          exact Nat.succ_pos _
        rw [tokens_takeWhile isSep, List.length_cons]
        cases rest : (c :: l).dropWhile fun c => !sep c with
        | nil => simp; omega
        | cons d l' =>
          have isSep' : sep d = true := by simpa using head_dropWhile rest
          rw [rest, List.length_cons] at lengths
          have shorter := ih l'.length (by omega) l' rfl
          rw [tokens_sep_cons isSep']
          omega

end Tokens
