/-
Variable-length items laid end to end, and the index of their offsets.

`offsFrom` is the list of start offsets of the items, `itemAt` the item
that starts at an offset. The index is what lets code reach item `i`
without walking: `itemAt_offs` says that it does.
-/
import Mathlib.Algebra.Order.Ring.Int
import Mathlib.Data.List.Basic

namespace Libbpf.Lib

open List

variable {α : Type} (sz : α → Nat)

/-- The start offsets of items laid from offset `o` on. -/
def offsFrom (o : Nat) : List α → List Nat
  | [] => []
  | a :: l => o :: offsFrom (o + sz a) l

/-- The total size of the items. -/
def total (l : List α) : Nat := (l.map sz).sum

/-- The position of the item that starts at an offset. -/
def posAt : List α → Nat → Option Nat
  | [], _ => none
  | a :: l, off =>
    if off = 0 then some 0
    else if off < sz a then none
    else (posAt l (off - sz a)).map (· + 1)

/-- The item that starts at an offset. -/
def itemAt (l : List α) (off : Nat) : Option α :=
  (posAt sz l off).bind (l[·]?)

@[simp] theorem total_nil : total sz ([] : List α) = 0 := rfl

@[simp] theorem total_cons (a : α) (l : List α) : total sz (a :: l) = sz a + total sz l := by
  simp [total]

@[simp] theorem total_append (l m : List α) : total sz (l ++ m) = total sz l + total sz m := by
  simp [total]

@[simp] theorem offsFrom_length (o : Nat) (l : List α) : (offsFrom sz o l).length = l.length := by
  induction l generalizing o with
  | nil => rfl
  | cons a l ih => simp [offsFrom, ih]

theorem offsFrom_append (o : Nat) (l m : List α) : offsFrom sz o (l ++ m)
      = offsFrom sz o l ++ offsFrom sz (o + total sz l) m := by
  induction l generalizing o with
  | nil => rfl
  | cons a l ih => simp [offsFrom, ih, Nat.add_assoc]

/-- The offset of item `i` is the size of what precedes it. -/
theorem getElem?_offsFrom (o : Nat) (l : List α) {i : Nat} (h : i < l.length) :
    (offsFrom sz o l)[i]? = some (o + total sz (l.take i)) := by
  induction l generalizing o i with
  | nil => cases h
  | cons a l ih =>
    cases i with
    | zero => rfl
    | succ i =>
      rw [offsFrom, getElem?_cons_succ, ih (o + sz a) (by simpa using h), take_succ_cons,
        total_cons, Nat.add_assoc]

/-- Offsets depend on the sizes alone. -/
theorem offsFrom_congr {β : Type} (sz' : β → Nat) :
    ∀ (o : Nat) (l : List α) (m : List β), l.map sz = m.map sz' →
      offsFrom sz o l = offsFrom sz' o m := by
  intro o l
  induction l generalizing o with
  | nil =>
    intro m h
    cases m with
    | nil => rfl
    | cons b m => cases h
  | cons a l ih =>
    intro m h
    cases m with
    | nil => cases h
    | cons b m =>
      simp only [map_cons, List.cons.injEq] at h
      rw [offsFrom, offsFrom, ih _ m h.2, h.1]

theorem posAt_total (l m : List α) (hpos : ∀ a ∈ l, 0 < sz a) (hm : m ≠ []) :
    posAt sz (l ++ m) (total sz l) = some l.length := by
  induction l with
  | nil =>
    cases m with
    | nil => exact absurd rfl hm
    | cons a m => simp [posAt]
  | cons a l ih =>
    have ha := hpos a mem_cons_self
    have ih := ih fun b hb => hpos b (mem_cons_of_mem a hb)
    rw [cons_append, posAt, total_cons, if_neg (by omega),
      if_neg (by omega), Nat.add_sub_cancel_left, ih]
    rfl

/-- Following the index reaches the item. -/
theorem posAt_offs {l : List α} (hpos : ∀ a ∈ l, 0 < sz a) {i o : Nat}
    (h : (offsFrom sz 0 l)[i]? = some o) : posAt sz l o = some i := by
  have hi : i < l.length := by
    have := (List.getElem?_eq_some_iff.mp h).1
    rwa [offsFrom_length] at this
  rw [getElem?_offsFrom sz 0 l hi, Nat.zero_add, Option.some.injEq] at h
  have hsplit : l.take i ++ l.drop i = l := take_append_drop i l
  have hne : l.drop i ≠ [] := by
    intro hnil
    rw [drop_eq_nil_iff] at hnil
    omega
  have := posAt_total sz (l.take i) (l.drop i) (fun a ha => hpos a (mem_of_mem_take ha)) hne
  rw [hsplit, length_take, Nat.min_eq_left (Nat.le_of_lt hi)] at this
  rw [← h]
  exact this

theorem itemAt_offs {l : List α} (hpos : ∀ a ∈ l, 0 < sz a) {i o : Nat}
    (h : (offsFrom sz 0 l)[i]? = some o) : itemAt sz l o = l[i]? := by
  rw [itemAt, posAt_offs sz hpos h]
  rfl

end Libbpf.Lib
