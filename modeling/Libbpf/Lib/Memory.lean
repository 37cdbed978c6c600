/-
A buffer that a C function reads and writes through pointers into it.

Pointers are offsets here. `loadBytes` and `storeBytes` are the accesses:
both fault unless the whole range is inside the buffer, so a computation
that returns has touched nothing outside it, and `storeBytes` keeps the
length.
-/
import Libbpf.Lib.Run
import Libbpf.Lib.Bytes

namespace Libbpf.Lib

open List

/-- Read `len` bytes at `pos`. -/
def loadBytes (b : Bytes) (pos len : Nat) : Res Bytes := do
  faultIf (b.length < pos + len)
  return slice b pos len

/-- Write `new` at `pos`. -/
def storeBytes (b : Bytes) (pos : Nat) (new : Bytes) : Res Bytes := do
  faultIf (b.length < pos + new.length)
  return patch b pos new

/-- `memmove` within one buffer: all is read before any is written. -/
def memmove (b : Bytes) (dst src len : Nat) : Res Bytes := do
  let new ← loadBytes b src len
  storeBytes b dst new

section

variable {b new : Bytes} {pos src len : Nat}

theorem loadBytes_ok (h : pos + len ≤ b.length) : loadBytes b pos len = .ok (slice b pos len) := by
  rw [loadBytes, faultIf, if_neg (by omega)]
  rfl

theorem storeBytes_ok (h : pos + new.length ≤ b.length) :
    storeBytes b pos new = .ok (patch b pos new) := by
  rw [storeBytes, faultIf, if_neg (by omega)]
  rfl

theorem memmove_ok (hsrc : src + len ≤ b.length) (hdst : pos + len ≤ b.length) :
    memmove b pos src len = .ok (patch b pos (slice b src len)) := by
  rw [memmove, loadBytes_ok hsrc]
  exact storeBytes_ok (by rw [slice_length hsrc]; exact hdst)

/-- What a write returns has the same size. -/
theorem storeBytes_length {b' : Bytes} (h : storeBytes b pos new = .ok b') :
    b'.length = b.length := by
  obtain ⟨_, hin, heq⟩ := of_bind_ok h
  rw [faultIf_eq_ok] at hin
  cases heq
  exact patch_length (by omega)

/-- Two writes that meet: one after the other. -/
theorem patch_before_patch {fst snd : Bytes} (h : pos + fst.length + snd.length ≤ b.length) :
    patch (patch b (pos + fst.length) snd) pos fst
      = b.take pos ++ fst ++ snd ++ b.drop (pos + fst.length + snd.length) := by
  have hlen : (b.take (pos + fst.length)).length = pos + fst.length := by
    rw [length_take]
    omega
  have htake : (patch b (pos + fst.length) snd).take pos = b.take pos :=
    take_patch (Nat.le_add_right pos fst.length) (by omega)
  rw [patch, htake]
  conv_lhs => rw [patch, append_assoc (b.take (pos + fst.length)), drop_left' hlen]
  simp only [append_assoc]

end

end Libbpf.Lib
