/-
Bitfields in memory, numbered from the low end.

A memory is a byte for each address; its bit `k` is bit `k % 8` of byte
`k / 8`. `load` is what a little-endian load of some bytes gives, and
`bitsAt` the number a run of bits makes up, wherever it starts. A field
that lies within the bytes of a load is cut out of the 64-bit value by two
shifts, one to drop what is above it and one to drop what is below
(`extract_load`).
-/
import Mathlib.Algebra.Order.Ring.Int
import Mathlib.Data.Nat.Bitwise

namespace Libbpf.Lib

/-- A byte for each address. -/
abbrev Memory := Nat → BitVec 8

/-- Bit `k` of a memory. -/
def bitAt (mem : Memory) (k : Nat) : Bool := (mem (k / 8)).getLsbD (k % 8)

/-- The number made up of the bits from `k` on, the lowest first. -/
def bitsAt (mem : Memory) : Nat → Nat → Nat
  | _, 0 => 0
  | k, n + 1 => (bitAt mem k).toNat + 2 * bitsAt mem (k + 1) n

/-- A little-endian load of the bytes from `a` on. -/
def load (mem : Memory) : Nat → Nat → Nat
  | _, 0 => 0
  | a, n + 1 => (mem a).toNat + 2 ^ 8 * load mem (a + 1) n

theorem testBit_bitsAt (mem : Memory) : ∀ (n k i : Nat),
    (bitsAt mem k n).testBit i = (decide (i < n) && bitAt mem (k + i))
  | 0, k, i => by simp [bitsAt]
  | n + 1, k, 0 => by
    rw [bitsAt, Nat.testBit_zero]
    cases bitAt mem k <;> simp [Nat.add_mod]
  | n + 1, k, i + 1 => by
    have hdiv : ((bitAt mem k).toNat + 2 * bitsAt mem (k + 1) n) / 2 = bitsAt mem (k + 1) n := by
      have := Bool.toNat_lt (bitAt mem k)
      omega
    rw [bitsAt, Nat.testBit_succ, hdiv, testBit_bitsAt mem n]
    simp [Nat.add_assoc, Nat.add_comm 1 i]

theorem bitsAt_lt_of_le (mem : Memory) (k : Nat) {n w : Nat} (h : n ≤ w) :
    bitsAt mem k n < 2 ^ w := by
  refine Nat.lt_pow_two_of_testBit _ fun i hi => ?_
  rw [testBit_bitsAt, decide_eq_false (by omega), Bool.false_and]

theorem testBit_load (mem : Memory) : ∀ (n a i : Nat),
    (load mem a n).testBit i = (decide (i < 8 * n) && bitAt mem (8 * a + i))
  | 0, a, i => by simp [load]
  | n + 1, a, i => by
    rw [load, Nat.add_comm, Nat.testBit_two_pow_mul_add _ (mem a).isLt]
    by_cases hi : i < 8
    · rw [if_pos hi]
      have hdiv : (8 * a + i) / 8 = a := by omega
      have hmod : (8 * a + i) % 8 = i := by omega
      have hlt : i < 8 * (n + 1) := by omega
      simp [bitAt, hdiv, hmod, hlt, BitVec.testBit_toNat]
    rw [if_neg hi, testBit_load mem n]
    have hpos : 8 * (a + 1) + (i - 8) = 8 * a + i := by omega
    have hlt : i - 8 < 8 * n ↔ i < 8 * (n + 1) := by omega
    simp [hpos, hlt]

/-- A 64-bit value, shifted left and then right: logically, or
arithmetically. -/
def extract (x : BitVec 64) (l r : Nat) (signed : Bool) : BitVec 64 :=
  if signed then (x <<< l).sshiftRight r else (x <<< l) >>> r

/-- A field, extended to 64 bits by zeros or by its sign. -/
def widen {n : Nat} (v : BitVec n) (signed : Bool) : BitVec 64 :=
  if signed then v.signExtend 64 else v.setWidth 64

/-- The two shifts cut a field out of the load of the bytes around it. -/
theorem extract_load (mem : Memory) {a m d n : Nat} (hn : 0 < n) (hfit : d + n ≤ 64)
    (hin : d + n ≤ 8 * m) (signed : Bool) :
    extract (BitVec.ofNat 64 (load mem a m)) (64 - (d + n)) (64 - n) signed
      = widen (BitVec.ofNat n (bitsAt mem (8 * a + d) n)) signed := by
  have hbit : ∀ i, i < n →
      ((BitVec.ofNat 64 (load mem a m)) <<< (64 - (d + n))).getLsbD (64 - n + i)
        = bitAt mem (8 * a + d + i) := by
    intro i hi
    have hlt : 64 - n + i < 64 := by omega
    have hge : ¬ 64 - n + i < 64 - (d + n) := by omega
    have hpos : 64 - n + i - (64 - (d + n)) = d + i := by omega
    have hlt' : d + i < 64 := by omega
    have hin' : d + i < 8 * m := by omega
    simp only [BitVec.getLsbD_shiftLeft, BitVec.getLsbD_ofNat, testBit_load, hlt, hge, hpos,
      hlt', hin', decide_true, decide_false, Bool.not_false, Bool.true_and, Nat.add_assoc]
  have hfield : ∀ i, i < n →
      (BitVec.ofNat n (bitsAt mem (8 * a + d) n)).getLsbD i = bitAt mem (8 * a + d + i) := by
    intro i hi
    simp only [BitVec.getLsbD_ofNat, testBit_bitsAt, hi, decide_true, Bool.true_and]
  unfold extract widen
  cases signed with
  | false =>
    apply BitVec.eq_of_getLsbD_eq
    intro i hi
    simp only [Bool.false_eq_true, if_false, BitVec.getLsbD_ushiftRight,
      BitVec.getLsbD_setWidth, hi, decide_true, Bool.true_and]
    by_cases hi' : i < n
    · rw [hbit i hi', hfield i hi']
    · rw [BitVec.getLsbD_of_ge _ _ (by omega), BitVec.getLsbD_of_ge _ _ (by omega)]
  | true =>
    apply BitVec.eq_of_getLsbD_eq
    intro i hi
    have hmsb : ((BitVec.ofNat 64 (load mem a m)) <<< (64 - (d + n))).msb
        = (BitVec.ofNat n (bitsAt mem (8 * a + d) n)).msb := by
      have htop : 64 - 1 = 64 - n + (n - 1) := by omega
      rw [BitVec.msb_eq_getLsbD_last, BitVec.msb_eq_getLsbD_last, htop,
        hbit _ (by omega), hfield _ (by omega)]
    simp only [if_true, BitVec.getLsbD_sshiftRight, BitVec.getLsbD_signExtend, hi,
      decide_true, Bool.true_and, hmsb]
    by_cases hi' : i < n
    · rw [if_pos (by omega), if_pos hi', hbit i hi', hfield i hi']
      simp [Nat.not_le.mpr hi]
    · rw [if_neg (by omega), if_neg hi']
      simp [Nat.not_le.mpr hi]

/-- A load is its bytes as a field, extended by zeros. -/
theorem widen_load (mem : Memory) (a m : Nat) :
    widen (BitVec.ofNat (8 * m) (bitsAt mem (8 * a) (8 * m))) false
      = BitVec.ofNat 64 (load mem a m) := by
  apply BitVec.eq_of_getLsbD_eq
  intro i hi
  unfold widen
  simp only [Bool.false_eq_true, if_false, BitVec.getLsbD_setWidth, BitVec.getLsbD_ofNat,
    testBit_bitsAt, testBit_load, hi, decide_true, Bool.true_and]
  cases decide (i < 8 * m) <;> rfl

end Libbpf.Lib
