/-
Integers of a given number of bytes.

`intBytes` is how a number is stored, cut to the bytes there are; `natOf` and
`intOf` read it back, without and with a sign. What is read is the one number
of the range that differs from the stored one by a multiple of `256 ^ n`
(`intOf_intBytes`).
-/
import Libbpf.Lib.Bytes

namespace Libbpf.Lib

open List

/-- The `n` low bytes of a number, lowest first. -/
def leBytes : Nat → Nat → Bytes
  | 0, _ => []
  | n + 1, v => (v % 256).toUInt8 :: leBytes n (v / 256)

/-- The number with these bytes, lowest first. -/
def leNat : Bytes → Nat
  | [] => 0
  | b :: l => b.toNat + 256 * leNat l

/-- A number as stored in `n` bytes. -/
def intBytes : ByteOrder → Nat → Nat → Bytes
  | .little, n, v => leBytes n v
  | .big, n, v => (leBytes n v).reverse

/-- The number stored in these bytes. -/
def natOf : ByteOrder → Bytes → Nat
  | .little, b => leNat b
  | .big, b => leNat b.reverse

/-- The number stored in these bytes, read with a sign or without. -/
def intOf (o : ByteOrder) (signed : Bool) (b : Bytes) : Int :=
  if signed then Int.bmod (natOf o b) (256 ^ b.length) else natOf o b

/-- The numbers that `n` bytes can hold. -/
def IntFits (n : Nat) (signed : Bool) (z : Int) : Prop :=
  if signed then -(256 ^ n : Int) ≤ 2 * z ∧ 2 * z < 256 ^ n else 0 ≤ z ∧ z < 256 ^ n

instance (n : Nat) (signed : Bool) (z : Int) : Decidable (IntFits n signed z) := by
  unfold IntFits
  infer_instance

theorem leBytes_length (n v : Nat) : (leBytes n v).length = n := by
  induction n generalizing v with
  | zero => rfl
  | succ n ih => rw [leBytes, length_cons, ih]

theorem intBytes_length (o : ByteOrder) (n v : Nat) : (intBytes o n v).length = n := by
  cases o with
  | little => exact leBytes_length n v
  | big => rw [intBytes, length_reverse, leBytes_length]

theorem leNat_leBytes (n v : Nat) : leNat (leBytes n v) = v % 256 ^ n := by
  induction n generalizing v with
  | zero => rw [leBytes, leNat, Nat.pow_zero, Nat.mod_one]
  | succ n ih =>
    have hbyte : (v % 256).toUInt8.toNat = v % 256 := by
      rw [UInt8.toNat_ofNat']
      omega
    rw [leBytes, leNat, ih, hbyte, Nat.pow_succ', Nat.mod_mul]

theorem natOf_intBytes (o : ByteOrder) (n v : Nat) : natOf o (intBytes o n v) = v % 256 ^ n := by
  cases o with
  | little => exact leNat_leBytes n v
  | big => rw [natOf, intBytes, reverse_reverse, leNat_leBytes]

/-- What is read is the number that fits and differs from the stored one by
a multiple of the modulus. -/
theorem intOf_intBytes {o : ByteOrder} {n v : Nat} {signed : Bool} {z : Int} :
    intOf o signed (intBytes o n v) = z ↔ IntFits n signed z ∧ ((256 ^ n : Nat) : Int) ∣ z - v := by
  have hpos : 0 < 256 ^ n := Nat.pow_pos (by decide)
  have hcast : (256 ^ n : Int) = ((256 ^ n : Nat) : Int) := by
    rfl
  have hmod : ((v % 256 ^ n : Nat) : Int) = v % ((256 ^ n : Nat) : Int) := Int.natCast_emod v _
  have hsub : ((256 ^ n : Nat) : Int) ∣ z - v % ((256 ^ n : Nat) : Int)
      ↔ ((256 ^ n : Nat) : Int) ∣ z - v := by
    have hsplit : z - (v : Int) % ((256 ^ n : Nat) : Int)
        = z - v + ((256 ^ n : Nat) : Int) * (v / ((256 ^ n : Nat) : Int)) := by
      have := Int.emod_add_mul_ediv v ((256 ^ n : Nat) : Int)
      omega
    rw [hsplit]
    exact (Int.dvd_add_left (Int.dvd_mul_right _ _))
  rw [intOf, natOf_intBytes, intBytes_length, IntFits, hmod]
  cases signed with
  | true =>
    rw [if_pos rfl, if_pos rfl, Int.bmod_eq_iff hpos]
    omega
  | false =>
    rw [if_neg Bool.false_ne_true, ← hsub]
    have hlt := Int.emod_lt_of_pos v (Int.natCast_pos.mpr hpos)
    have hge := Int.emod_nonneg v (Int.natCast_ne_zero_iff_pos.mpr hpos)
    constructor
    · rintro rfl
      exact ⟨⟨hge, hlt⟩, by rw [Int.sub_self]; exact Int.dvd_zero _⟩
    · rintro ⟨⟨h0, hz⟩, hd⟩
      have := Int.eq_zero_of_abs_lt_dvd hd (abs_lt.mpr ⟨by omega, by omega⟩)
      omega

theorem leNat_lt (b : Bytes) : leNat b < 256 ^ b.length := by
  induction b with
  | nil => exact Nat.one_pos
  | cons c b ih =>
    have := c.toNat_lt
    rw [leNat, length_cons]
    omega

theorem natOf_lt (o : ByteOrder) (b : Bytes) : natOf o b < 256 ^ b.length := by
  cases o with
  | little => exact leNat_lt b
  | big =>
    have := leNat_lt b.reverse
    rwa [length_reverse] at this

/-- What is read fits the bytes it is read from. -/
theorem intOf_fits (o : ByteOrder) (signed : Bool) (b : Bytes) :
    IntFits b.length signed (intOf o signed b) := by
  have hlt := natOf_lt o b
  have hpos : 0 < 256 ^ b.length := Nat.pow_pos (by decide)
  have hcast : (256 ^ b.length : Int) = ((256 ^ b.length : Nat) : Int) := by
    rfl
  rw [IntFits, intOf]
  cases signed with
  | true =>
    rw [if_pos rfl, if_pos rfl]
    have hle := Int.le_bmod (x := natOf o b) hpos
    have hgt := Int.bmod_lt (x := natOf o b) hpos
    omega
  | false =>
    rw [if_neg Bool.false_ne_true, if_neg Bool.false_ne_true]
    omega

end Libbpf.Lib
