/-
Circular memory.

A ring of a power-of-two size is addressed by positions that only grow:
the place of a position is the position masked with the size less one, and
positions may wrap around their own word without harm since the size
divides it (`toNat_add_mod`). Mapping the ring twice in a row makes what
wraps around its end contiguous (`slice_double`), and what is laid out in
one round does not overlap (`arc_ne`).
-/
import Libbpf.Lib.Bytes

namespace Libbpf.Lib

open List

/-- `len` bytes of the ring `b` from position `pos` on. -/
def ringSlice (b : Bytes) (pos len : Nat) : Bytes :=
  (List.range len).map fun j => b.getD ((pos + j) % b.length) 0

@[simp] theorem ringSlice_length (b : Bytes) (pos len : Nat) :
    (ringSlice b pos len).length = len := by
  simp [ringSlice]

/-- A ring reads the same from positions that differ by its size. -/
theorem ringSlice_congr {b : Bytes} {pos pos' : Nat} (len : Nat)
    (h : pos % b.length = pos' % b.length) : ringSlice b pos len = ringSlice b pos' len := by
  refine map_congr_left fun j _ => ?_
  rw [Nat.add_mod, h, ← Nat.add_mod]

/-- What two copies in a row show is what the ring holds. -/
theorem slice_double {b : Bytes} {off len : Nat} (h : off + len ≤ (b ++ b).length) :
    slice (b ++ b) off len = ringSlice b off len := by
  rw [length_append] at h
  refine ext_getElem? fun i => ?_
  by_cases hi : i < len
  · have hget : (ringSlice b off len)[i]? = some (b.getD ((off + i) % b.length) 0) := by
      rw [ringSlice, getElem?_map, getElem?_range hi]
      rfl
    rw [hget, slice, getElem?_take_of_lt hi, getElem?_drop]
    -- the byte is in the first copy or in the second
    by_cases hfirst : off + i < b.length
    · rw [getElem?_append_left hfirst, Nat.mod_eq_of_lt hfirst,
        getD_eq_getElem?_getD, getElem?_eq_getElem hfirst]
      rfl
    have hsecond : off + i - b.length < b.length := by omega
    rw [getElem?_append_right (by omega), Nat.mod_eq_sub_mod (by omega),
      Nat.mod_eq_of_lt hsecond, getD_eq_getElem?_getD,
      getElem?_eq_getElem hsecond]
    rfl
  · have hlen : (slice (b ++ b) off len).length = len := by
      refine slice_length ?_
      rw [length_append]
      exact h
    rw [getElem?_eq_none (by omega), getElem?_eq_none (by rw [ringSlice_length]; omega)]

/-- Masking a position. -/
theorem toNat_and_mask {w k : Nat} (pos : BitVec w) (hk : k ≤ w) :
    (pos &&& BitVec.ofNat w (2 ^ k - 1)).toNat = pos.toNat % 2 ^ k := by
  have hpow : 2 ^ k ≤ 2 ^ w := Nat.pow_le_pow_right (by decide) hk
  have hpos : 0 < 2 ^ k := Nat.two_pow_pos k
  rw [BitVec.toNat_and, BitVec.toNat_ofNat, Nat.mod_eq_of_lt (by omega),
    Nat.and_two_pow_sub_one_eq_mod]

/-- A position that moves on keeps its place modulo the size. -/
theorem toNat_add_mod {w k : Nat} (pos : BitVec w) (d : Nat) (hk : k ≤ w) :
    (pos + BitVec.ofNat w d).toNat % 2 ^ k = (pos.toNat + d) % 2 ^ k := by
  have hdvd : 2 ^ k ∣ 2 ^ w := Nat.pow_dvd_pow 2 hk
  rw [BitVec.toNat_add, BitVec.toNat_ofNat, Nat.mod_mod_of_dvd _ hdvd, Nat.add_mod,
    Nat.mod_mod_of_dvd _ hdvd, ← Nat.add_mod]

/-- Two arcs of a ring, the second after the first and both within one
round, have no place in common. -/
theorem arc_ne {size a b la lb x y : Nat} (hab : a + la ≤ b) (hround : b + lb ≤ a + size)
    (hx : x < la) (hy : y < lb) : (a + x) % size ≠ (b + y) % size := by
  intro h
  have hdvd : size ∣ b + y - (a + x) :=
    Nat.dvd_of_mod_eq_zero (Nat.sub_mod_eq_zero_of_mod_eq h.symm)
  have := Nat.le_of_dvd (by omega) hdvd
  omega

end Libbpf.Lib
