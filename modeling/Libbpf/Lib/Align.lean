/-
Blocks laid one behind another, each at a multiple of its alignment.

The alignment of the whole is the largest so far, and a block goes to the next
multiple of that one, not only of its own (`Laid.next`). For powers of two this
is no loss: the larger of two is a multiple of the smaller, so every block sits
at a multiple of its own alignment, and the whole may be moved to any multiple
of the last alignment (`Laid.dvd_align`).
-/
import Mathlib.Algebra.Order.Ring.Int
import Mathlib.Data.List.Basic

namespace Libbpf.Lib

/-- The least multiple of `a` from `n` on. -/
def roundUp (n a : Nat) : Nat := (n + a - 1) / a * a

section

variable {n a : Nat}

theorem dvd_roundUp (n a : Nat) : a ∣ roundUp n a := Nat.dvd_mul_left a _

theorem le_roundUp (ha : 0 < a) : n ≤ roundUp n a := by
  have h := Nat.div_add_mod (n + a - 1) a
  have hlt := Nat.mod_lt (n + a - 1) ha
  rw [roundUp, Nat.mul_comm]
  omega

theorem roundUp_lt (ha : 0 < a) : roundUp n a < n + a := by
  have h := Nat.div_mul_le_self (n + a - 1) a
  rw [roundUp]
  omega

theorem roundUp_zero (ha : 0 < a) : roundUp 0 a = 0 := by
  rw [roundUp, Nat.div_eq_of_lt (by omega), Nat.zero_mul]

/-- A number up to the alignment is rounded to the alignment itself. -/
theorem roundUp_of_le (hn : 0 < n) (h : n ≤ a) : roundUp n a = a := by
  have hone : (n + a - 1) / a = 1 := by
    apply Nat.div_eq_of_lt_le
    · omega
    · omega
  rw [roundUp, hone, Nat.one_mul]

/-- A place that is cut to a word and lies behind what is there was not cut. -/
theorem roundUp_lt_of_mod {k w : Nat} (hn : n < 2 ^ w) (hlt : roundUp n (2 ^ k) % 2 ^ (w + 1) < 2 ^ w)
    (hle : n ≤ roundUp n (2 ^ k) % 2 ^ (w + 1)) : roundUp n (2 ^ k) < 2 ^ w := by
  rcases Nat.eq_zero_or_pos n with rfl | hpos
  · rw [roundUp_zero (Nat.two_pow_pos k)]
    exact Nat.two_pow_pos w
  rcases Nat.lt_or_ge w k with hk | hk
  · -- a larger alignment is a multiple of the word, and nothing is left of it
    have hround : roundUp n (2 ^ k) = 2 ^ k :=
      roundUp_of_le hpos (Nat.le_trans hn.le (Nat.pow_le_pow_right (by decide) hk.le))
    rw [hround, Nat.mod_eq_zero_of_dvd (Nat.pow_dvd_pow 2 hk)] at hle
    omega
  have hround := roundUp_lt (n := n) (Nat.two_pow_pos k)
  have hkw : 2 ^ k ≤ 2 ^ w := Nat.pow_le_pow_right (by decide) hk
  rw [Nat.mod_eq_of_lt (by omega)] at hlt
  exact hlt

end

/-- Of two powers of two each divides the larger. -/
theorem pow_dvd_max (j k : Nat) : 2 ^ j ∣ max (2 ^ j) (2 ^ k) := by
  rcases Nat.le_total j k with h | h
  · rw [Nat.max_eq_right (Nat.pow_le_pow_right (by decide) h)]
    exact Nat.pow_dvd_pow 2 h
  · rw [Nat.max_eq_left (Nat.pow_le_pow_right (by decide) h)]

/-- What a block asks for; no alignment is written 0 or 1. -/
structure Block where
  align : Nat
  size : Nat
deriving DecidableEq

/-- The alignment is none or a power of two. -/
def Block.Pow2 (b : Block) : Prop := b.align = 0 ∨ ∃ k, b.align = 2 ^ k

/-- How far a layout has come: the largest alignment and the end. -/
structure Laid where
  align : Nat
  stop : Nat
deriving DecidableEq

namespace Laid

/-- Nothing laid yet. -/
def start : Laid := ⟨1, 0⟩

/-- Where the next block goes. -/
def off (s : Laid) (b : Block) : Nat := roundUp s.stop (max s.align b.align)

/-- Lay a block. -/
def next (s : Laid) (b : Block) : Laid := ⟨max s.align b.align, s.off b + b.size⟩

/-- Lay the blocks of a list. -/
def all (s : Laid) (bs : List Block) : Laid := bs.foldl next s

section

variable {s : Laid} {b : Block}

theorem all_append (s : Laid) (bs bs' : List Block) : s.all (bs ++ bs') = (s.all bs).all bs' :=
  List.foldl_append

theorem align_pos (h : 0 < s.align) : 0 < (s.next b).align :=
  Nat.lt_of_lt_of_le h (Nat.le_max_left ..)

theorem all_align_pos (h : 0 < s.align) (bs : List Block) : 0 < (s.all bs).align := by
  induction bs generalizing s with
  | nil => exact h
  | cons b bs ih => exact ih (align_pos h)

theorem stop_le_off (h : 0 < s.align) : s.stop ≤ s.off b :=
  le_roundUp (align_pos h)

theorem stop_le_next (h : 0 < s.align) : s.stop ≤ (s.next b).stop :=
  Nat.le_trans (stop_le_off h) (Nat.le_add_right ..)

/-- The end never moves back. -/
theorem stop_le_all (h : 0 < s.align) (bs : List Block) : s.stop ≤ (s.all bs).stop := by
  induction bs generalizing s with
  | nil => exact Nat.le_refl _
  | cons b bs ih => exact Nat.le_trans (stop_le_next h) (ih (align_pos h))

/-- The largest alignment stays a power of two. -/
theorem pow_next {k : Nat} (hs : s.align = 2 ^ k) (hb : b.Pow2) :
    ∃ j, (s.next b).align = 2 ^ j := by
  rcases hb with hb | ⟨j, hb⟩
  · refine ⟨k, ?_⟩
    rw [next, hb, Nat.max_zero, hs]
  rcases Nat.le_total k j with h | h
  · refine ⟨j, ?_⟩
    rw [next, hs, hb]
    exact Nat.max_eq_right (Nat.pow_le_pow_right (by decide) h)
  · refine ⟨k, ?_⟩
    rw [next, hs, hb]
    exact Nat.max_eq_left (Nat.pow_le_pow_right (by decide) h)

/-- The largest alignment so far divides the next one. -/
theorem dvd_next {k : Nat} (hs : s.align = 2 ^ k) (hb : b.Pow2) : s.align ∣ (s.next b).align := by
  rcases hb with hb | ⟨j, hb⟩
  · rw [next, hb, Nat.max_zero]
  · rw [next, hs, hb]
    exact pow_dvd_max k j

/-- A block's own alignment divides the largest. -/
theorem dvd_align {k : Nat} (hs : s.align = 2 ^ k) (hb : b.Pow2) :
    max 1 b.align ∣ (s.next b).align := by
  rcases hb with hb | ⟨j, hb⟩
  · rw [hb]
    exact Nat.one_dvd _
  have hone : max 1 b.align = 2 ^ j := by
    rw [hb]
    exact Nat.max_eq_right Nat.one_le_two_pow
  rw [hone, next, hs, hb, Nat.max_comm]
  exact pow_dvd_max j k

theorem dvd_off (s : Laid) (b : Block) : (s.next b).align ∣ s.off b := dvd_roundUp ..

end

end Laid

end Libbpf.Lib
