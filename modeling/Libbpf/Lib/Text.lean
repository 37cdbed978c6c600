/-
Text as C code handles it: the bytes of a literal, a number in decimal,
what `snprintf` leaves in its buffer, and the length of a string in one.
-/
import Libbpf.Lib.Memory

namespace Libbpf.Lib

/-- The bytes of a literal. -/
def ascii (s : String) : Bytes := s.toUTF8.data.toList

/-- `%d`. -/
def decimal (n : Int) : Bytes :=
  (if n < 0 then [45] else []) ++ (Nat.toDigits 10 n.natAbs).map fun c => c.toNat.toUInt8

/-- The string `snprintf` leaves in a buffer of `size` bytes. -/
def snprintf (size : Nat) (text : Bytes) : CStr := cstrAt (text.take (size - 1)) 0

/-- `strlen`, which reads past a buffer that holds no terminator. -/
def strlen (b : Bytes) : Res Nat := do
  faultIf ((0 : UInt8) ∉ b)
  return (cstr b).length

/-- `str_has_pfx`. -/
def strHasPfx (b : Bytes) (pfx : Bytes) : Bool := pfx.isPrefixOf (cstr b)

section

variable {b : Bytes}

theorem strlen_ok (h : (0 : UInt8) ∈ b) : strlen b = .ok (cstr b).length := by
  rw [strlen, faultIf, if_neg (not_not_intro h)]
  rfl

/-- A buffer with a terminator in it: the string, the terminator, the rest. -/
theorem eq_cstr_append (h : (0 : UInt8) ∈ b) : ∃ rest, b = cstr b ++ 0 :: rest := by
  obtain ⟨s, rest, rfl, hs⟩ := List.eq_append_cons_of_mem h
  exact ⟨rest, by rw [cstr_nul hs]⟩

end

end Libbpf.Lib
