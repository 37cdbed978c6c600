/-
Lists in which every element fits what is before it.

A list that is only ever appended to, such as a queue or an output, is
described by what each element may count on when it is added. `Along P l` says
that `P` holds of every element and the elements before it; appending needs
`P` of the new one only (`Along.snoc`).
-/
import Mathlib.Algebra.Order.Ring.Int
import Mathlib.Data.List.Infix

namespace Libbpf.Lib

open List

variable {α : Type} {P Q : List α → α → Prop} {l : List α} {a : α}

/-- Every element has `P` with the elements before it. -/
def Along (P : List α → α → Prop) (l : List α) : Prop :=
  ∀ pre a post, l = pre ++ a :: post → P pre a

theorem along_nil : Along P [] := by
  intro pre a post h
  cases pre with
  | nil => cases h
  | cons _ _ => cases h

theorem Along.snoc (h : Along P l) (ha : P l a) : Along P (l ++ [a]) := by
  intro pre b post hl
  rcases eq_nil_or_concat post with rfl | ⟨post', c, rfl⟩
  · obtain ⟨rfl, hb⟩ := append_inj' hl rfl
    cases hb
    exact ha
  · rw [concat_eq_append, ← cons_append, ← append_assoc] at hl
    obtain ⟨hl, -⟩ := append_inj' hl rfl
    exact h pre b post' hl

end Libbpf.Lib
