/-
Machine words in memory: the two byte orders, byte swapping, arrays of
32-bit words, and NUL-terminated strings.

Words are natural numbers; the lemmas that need a word to fit its width
say so. A host of either byte order is a parameter, so that a fact about
native and swapped data is one statement: swapping a word and storing it
natively is storing it in the other order (`u32Bytes_bswap32`), and
reading is the same the other way round (`bswap32_rdU32`).
-/
import Mathlib.Algebra.Order.Ring.Int
import Mathlib.Data.List.TakeWhile
import Mathlib.Data.List.Basic

namespace Libbpf.Lib

open List

variable {n : Nat}

/-- Memory contents. -/
abbrev Bytes := List UInt8

/-- The order in which a host stores the bytes of a word. -/
inductive ByteOrder where
  | little
  | big
deriving DecidableEq, Repr

/-- The foreign order. -/
def ByteOrder.other : ByteOrder → ByteOrder
  | .little => .big
  | .big => .little

-- ======== single words

/-- Byte `i` of a memory area, zero past its end. -/
def byteAt (b : Bytes) (i : Nat) : Nat := (b.getD i 0).toNat

theorem byteAt_lt (b : Bytes) (i : Nat) : byteAt b i < 2 ^ 8 :=
  (b.getD i 0).toNat_lt

/-- The word whose bytes are `a`, `b`, `c`, `d`, least significant
first. -/
def ofBytes (a b c d : Nat) : Nat := a + 2 ^ 8 * b + 2 ^ 16 * c + 2 ^ 24 * d

/-- A 16-bit word as stored. -/
def u16Bytes : ByteOrder → Nat → Bytes
  | .little, n => [.ofNat n, .ofNat (n / 2 ^ 8)]
  | .big, n => [.ofNat (n / 2 ^ 8), .ofNat n]

/-- The 16-bit word stored at the start of `b`. -/
def rdU16 : ByteOrder → Bytes → Nat
  | .little, b => ofBytes (byteAt b 0) (byteAt b 1) 0 0
  | .big, b => ofBytes (byteAt b 1) (byteAt b 0) 0 0

/-- A 32-bit word as stored. -/
def u32Bytes : ByteOrder → Nat → Bytes
  | .little, n =>
    [.ofNat n, .ofNat (n / 2 ^ 8), .ofNat (n / 2 ^ 16), .ofNat (n / 2 ^ 24)]
  | .big, n =>
    [.ofNat (n / 2 ^ 24), .ofNat (n / 2 ^ 16), .ofNat (n / 2 ^ 8), .ofNat n]

/-- The 32-bit word stored at the start of `b`. -/
def rdU32 : ByteOrder → Bytes → Nat
  | .little, b => ofBytes (byteAt b 0) (byteAt b 1) (byteAt b 2) (byteAt b 3)
  | .big, b => ofBytes (byteAt b 3) (byteAt b 2) (byteAt b 1) (byteAt b 0)

/-- Reverse the bytes of a 16-bit word. -/
def bswap16 (n : Nat) : Nat := ofBytes (n / 2 ^ 8 % 2 ^ 8) (n % 2 ^ 8) 0 0

/-- Reverse the bytes of a 32-bit word. -/
def bswap32 (n : Nat) : Nat :=
  ofBytes (n / 2 ^ 24 % 2 ^ 8) (n / 2 ^ 16 % 2 ^ 8) (n / 2 ^ 8 % 2 ^ 8) (n % 2 ^ 8)

section

variable {a b c d : Nat}

theorem ofBytes_lt (ha : a < 2 ^ 8) (hb : b < 2 ^ 8) (hc : c < 2 ^ 8)
    (hd : d < 2 ^ 8) : ofBytes a b c d < 2 ^ 32 := by
  unfold ofBytes
  omega

theorem ofBytes_byte0 (ha : a < 2 ^ 8) : ofBytes a b c d % 2 ^ 8 = a := by
  unfold ofBytes
  omega

theorem ofBytes_byte1 (ha : a < 2 ^ 8) (hb : b < 2 ^ 8) : ofBytes a b c d / 2 ^ 8 % 2 ^ 8 = b := by
  unfold ofBytes
  omega

theorem ofBytes_byte2 (ha : a < 2 ^ 8) (hb : b < 2 ^ 8) (hc : c < 2 ^ 8) :
    ofBytes a b c d / 2 ^ 16 % 2 ^ 8 = c := by
  unfold ofBytes
  omega

theorem ofBytes_byte3 (ha : a < 2 ^ 8) (hb : b < 2 ^ 8) (hc : c < 2 ^ 8)
    (hd : d < 2 ^ 8) : ofBytes a b c d / 2 ^ 24 % 2 ^ 8 = d := by
  unfold ofBytes
  omega

/-- Swapping reverses the bytes. -/
theorem bswap32_ofBytes (ha : a < 2 ^ 8) (hb : b < 2 ^ 8) (hc : c < 2 ^ 8)
    (hd : d < 2 ^ 8) : bswap32 (ofBytes a b c d) = ofBytes d c b a := by
  rw [bswap32, ofBytes_byte0 ha, ofBytes_byte1 ha hb, ofBytes_byte2 ha hb hc,
    ofBytes_byte3 ha hb hc hd]

theorem bswap16_ofBytes (ha : a < 2 ^ 8) (hb : b < 2 ^ 8) :
    bswap16 (ofBytes a b 0 0) = ofBytes b a 0 0 := by
  rw [bswap16, ofBytes_byte0 ha, ofBytes_byte1 ha hb]

end

/-- Every 32-bit word is made of its four bytes. -/
theorem eq_ofBytes (h : n < 2 ^ 32) :
    n = ofBytes (n % 2 ^ 8) (n / 2 ^ 8 % 2 ^ 8) (n / 2 ^ 16 % 2 ^ 8) (n / 2 ^ 24 % 2 ^ 8) := by
  unfold ofBytes
  omega

theorem eq_ofBytes16 (h : n < 2 ^ 16) : n = ofBytes (n % 2 ^ 8) (n / 2 ^ 8 % 2 ^ 8) 0 0 := by
  unfold ofBytes
  omega

private theorem mod8_lt (n : Nat) : n % 2 ^ 8 < 2 ^ 8 :=
  Nat.mod_lt _ (by decide)

@[simp] theorem u16Bytes_length (o : ByteOrder) (n : Nat) : (u16Bytes o n).length = 2 := by
  cases o <;> rfl

@[simp] theorem u32Bytes_length (o : ByteOrder) (n : Nat) : (u32Bytes o n).length = 4 := by
  cases o <;> rfl

theorem rdU16_lt (o : ByteOrder) (b : Bytes) : rdU16 o b < 2 ^ 16 := by
  have h0 := byteAt_lt b 0
  have h1 := byteAt_lt b 1
  cases o <;> simp only [rdU16, ofBytes] <;> omega

theorem rdU32_lt (o : ByteOrder) (b : Bytes) : rdU32 o b < 2 ^ 32 := by
  cases o <;> exact ofBytes_lt (byteAt_lt b _) (byteAt_lt b _) (byteAt_lt b _) (byteAt_lt b _)

theorem bswap32_lt (n : Nat) : bswap32 n < 2 ^ 32 :=
  ofBytes_lt (mod8_lt _) (mod8_lt _) (mod8_lt _) (mod8_lt _)

/-- A byte stored and read again. -/
private theorem toNat_ofNat8 (n : Nat) : (UInt8.ofNat n).toNat = n % 2 ^ 8 :=
  UInt8.toNat_ofNat'

/-- Reading the stored bytes of a 16-bit word gives its bytes. -/
theorem rdU16_u16Bytes (o : ByteOrder) (h : n < 2 ^ 16) (r : Bytes) :
    rdU16 o (u16Bytes o n ++ r) = n := by
  conv_rhs => rw [eq_ofBytes16 h]
  cases o <;> simp only [rdU16, u16Bytes, byteAt, cons_append, nil_append,
      getD_cons_zero, getD_cons_succ, toNat_ofNat8]

/-- Reading the stored bytes of a 32-bit word gives its bytes. -/
theorem rdU32_u32Bytes (o : ByteOrder) (h : n < 2 ^ 32) (r : Bytes) :
    rdU32 o (u32Bytes o n ++ r) = n := by
  conv_rhs => rw [eq_ofBytes h]
  cases o <;> simp only [rdU32, u32Bytes, byteAt, cons_append, nil_append,
      getD_cons_zero, getD_cons_succ, toNat_ofNat8]

private theorem ofNat8_eq {b : UInt8} (h : n % 2 ^ 8 = b.toNat) : UInt8.ofNat n = b := by
  rw [← UInt8.toNat_inj, toNat_ofNat8, h]

/-- Storing the word read from four bytes gives the four bytes back. -/
theorem u32Bytes_rdU32 (o : ByteOrder) {b : Bytes} (h : 4 ≤ b.length) :
    u32Bytes o (rdU32 o b) = b.take 4 := by
  match b, h with
  | b0 :: b1 :: b2 :: b3 :: r, _ =>
    have h0 := b0.toNat_lt
    have h1 := b1.toNat_lt
    have h2 := b2.toNat_lt
    have h3 := b3.toNat_lt
    cases o with
    | little =>
      simp only [u32Bytes, rdU32, byteAt, getD_cons_zero, getD_cons_succ, take_succ_cons, take_zero]
      rw [ofNat8_eq (ofBytes_byte0 h0), ofNat8_eq (ofBytes_byte1 h0 h1),
        ofNat8_eq (ofBytes_byte2 h0 h1 h2),
        ofNat8_eq (ofBytes_byte3 h0 h1 h2 h3)]
    | big =>
      simp only [u32Bytes, rdU32, byteAt, getD_cons_zero, getD_cons_succ, take_succ_cons, take_zero]
      rw [ofNat8_eq (ofBytes_byte0 h3), ofNat8_eq (ofBytes_byte1 h3 h2),
        ofNat8_eq (ofBytes_byte2 h3 h2 h1),
        ofNat8_eq (ofBytes_byte3 h3 h2 h1 h0)]

/-- Storing the word read from two bytes gives the two bytes back. -/
theorem u16Bytes_rdU16 (o : ByteOrder) {b : Bytes} (h : 2 ≤ b.length) :
    u16Bytes o (rdU16 o b) = b.take 2 := by
  match b, h with
  | b0 :: b1 :: r, _ =>
    have h0 := b0.toNat_lt
    have h1 := b1.toNat_lt
    cases o with
    | little =>
      simp only [u16Bytes, rdU16, byteAt, getD_cons_zero, getD_cons_succ, take_succ_cons, take_zero]
      rw [ofNat8_eq (ofBytes_byte0 h0), ofNat8_eq (ofBytes_byte1 h0 h1)]
    | big =>
      simp only [u16Bytes, rdU16, byteAt, getD_cons_zero, getD_cons_succ, take_succ_cons, take_zero]
      rw [ofNat8_eq (ofBytes_byte0 h1), ofNat8_eq (ofBytes_byte1 h1 h0)]

private theorem ofNat8_congr {m : Nat} (h : m % 2 ^ 8 = n % 2 ^ 8) :
    UInt8.ofNat m = UInt8.ofNat n :=
  ofNat8_eq (h.trans (toNat_ofNat8 n).symm)

/-- A swapped word stored natively is the word stored in the foreign
order. -/
theorem u32Bytes_bswap32 (o : ByteOrder) (n : Nat) :
    u32Bytes o (bswap32 n) = u32Bytes o.other n := by
  have e0 : UInt8.ofNat (bswap32 n) = UInt8.ofNat (n / 2 ^ 24) :=
    ofNat8_congr (ofBytes_byte0 (mod8_lt _))
  have e1 : UInt8.ofNat (bswap32 n / 2 ^ 8) = UInt8.ofNat (n / 2 ^ 16) :=
    ofNat8_congr (ofBytes_byte1 (mod8_lt _) (mod8_lt _))
  have e2 : UInt8.ofNat (bswap32 n / 2 ^ 16) = UInt8.ofNat (n / 2 ^ 8) :=
    ofNat8_congr (ofBytes_byte2 (mod8_lt _) (mod8_lt _) (mod8_lt _))
  have e3 : UInt8.ofNat (bswap32 n / 2 ^ 24) = UInt8.ofNat n :=
    ofNat8_congr (ofBytes_byte3 (mod8_lt _) (mod8_lt _) (mod8_lt _) (mod8_lt _))
  cases o <;> simp only [u32Bytes, ByteOrder.other, e0, e1, e2, e3]

/-- Reading natively and swapping is reading in the foreign order. -/
theorem bswap32_rdU32 (o : ByteOrder) (b : Bytes) : bswap32 (rdU32 o b) = rdU32 o.other b := by
  cases o <;> exact bswap32_ofBytes (byteAt_lt b _) (byteAt_lt b _) (byteAt_lt b _) (byteAt_lt b _)

theorem u16Bytes_bswap16 (o : ByteOrder) (n : Nat) :
    u16Bytes o (bswap16 n) = u16Bytes o.other n := by
  have e0 : UInt8.ofNat (bswap16 n) = UInt8.ofNat (n / 2 ^ 8) :=
    ofNat8_congr (ofBytes_byte0 (mod8_lt _))
  have e1 : UInt8.ofNat (bswap16 n / 2 ^ 8) = UInt8.ofNat n :=
    ofNat8_congr (ofBytes_byte1 (mod8_lt _) (mod8_lt _))
  cases o <;> simp only [u16Bytes, ByteOrder.other, e0, e1]

theorem bswap16_rdU16 (o : ByteOrder) (b : Bytes) : bswap16 (rdU16 o b) = rdU16 o.other b := by
  cases o <;> exact bswap16_ofBytes (byteAt_lt b _) (byteAt_lt b _)

-- ======== word arrays

/-- The first `n` words of a memory area. -/
def rdWords (o : ByteOrder) : Nat → Bytes → List Nat
  | 0, _ => []
  | n + 1, b => rdU32 o b :: rdWords o n (b.drop 4)

/-- A word array as stored. -/
def wrWords (o : ByteOrder) (ws : List Nat) : Bytes := ws.flatMap (u32Bytes o)

@[simp] theorem rdWords_length (o : ByteOrder) (n : Nat) (b : Bytes) :
    (rdWords o n b).length = n := by
  induction n generalizing b with
  | zero => rfl
  | succ n ih => simp [rdWords, ih]

@[simp] theorem wrWords_cons (o : ByteOrder) (w : Nat) (ws : List Nat) :
    wrWords o (w :: ws) = u32Bytes o w ++ wrWords o ws := rfl

@[simp] theorem wrWords_length (o : ByteOrder) (ws : List Nat) :
    (wrWords o ws).length = 4 * ws.length := by
  induction ws with
  | nil => rfl
  | cons w ws ih =>
    simp only [wrWords_cons, length_append, u32Bytes_length, length_cons]
    omega

theorem rdWords_lt (o : ByteOrder) (n : Nat) (b : Bytes) : ∀ w ∈ rdWords o n b, w < 2 ^ 32 := by
  induction n generalizing b with
  | zero => intro w hw; cases hw
  | succ n ih =>
    intro w hw
    rcases mem_cons.mp hw with rfl | hw
    · exact rdU32_lt o b
    · exact ih _ w hw

/-- A stored word array reads back. -/
theorem rdWords_wrWords (o : ByteOrder) {ws : List Nat} (h : ∀ w ∈ ws, w < 2 ^ 32) (r : Bytes) :
    rdWords o ws.length (wrWords o ws ++ r) = ws := by
  induction ws with
  | nil => rfl
  | cons w ws ih =>
    simp only [length_cons, rdWords, wrWords_cons, append_assoc]
    rw [rdU32_u32Bytes o (h w (mem_cons_self ..)), drop_left' (u32Bytes_length o w),
      ih fun v hv => h v (mem_cons_of_mem _ hv)]

/-- Storing the words read from an area gives its bytes back. -/
theorem wrWords_rdWords (o : ByteOrder) {b : Bytes}
    (h : 4 * n ≤ b.length) : wrWords o (rdWords o n b) = b.take (4 * n) := by
  induction n generalizing b with
  | zero => rfl
  | succ n ih =>
    rw [rdWords, wrWords_cons, u32Bytes_rdU32 o (by omega), ih (by rw [length_drop]; omega)]
    rw [show 4 * (n + 1) = 4 + 4 * n by omega, take_add]

theorem map_bswap32_rdWords (o : ByteOrder) (n : Nat) (b : Bytes) :
    (rdWords o n b).map bswap32 = rdWords o.other n b := by
  induction n generalizing b with
  | zero => rfl
  | succ n ih => simp [rdWords, bswap32_rdU32, ih]

-- ======== memory areas

/-- The `len` bytes at `pos`. -/
def slice (b : Bytes) (pos len : Nat) : Bytes := (b.drop pos).take len

/-- Overwrite the bytes at `pos`. -/
def patch (b : Bytes) (pos : Nat) (new : Bytes) : Bytes :=
  b.take pos ++ new ++ b.drop (pos + new.length)

section

variable {b new : Bytes} {pos q len : Nat}

theorem slice_length (h : pos + len ≤ b.length) : (slice b pos len).length = len := by
  rw [slice, length_take, length_drop]
  omega

theorem slice_append_left (r : Bytes) (h : pos + len ≤ b.length) :
    slice (b ++ r) pos len = slice b pos len := by
  rw [slice, slice, drop_append_of_le_length (by omega),
    take_append_of_le_length (by rw [length_drop]; omega)]

theorem slice_append_right (r : Bytes) (h : b.length ≤ pos) :
    slice (b ++ r) pos len = slice r (pos - b.length) len := by
  rw [slice, slice, drop_append, drop_of_length_le h, nil_append]

theorem patch_length (h : pos + new.length ≤ b.length) : (patch b pos new).length = b.length := by
  simp only [patch, length_append, length_take, length_drop]
  omega

theorem take_patch {k : Nat} (h : k ≤ pos) (hb : pos ≤ b.length) :
    (patch b pos new).take k = b.take k := by
  rw [patch, append_assoc, take_append_of_le_length (by rw [length_take]; omega),
    take_take, Nat.min_eq_left h]

@[simp] theorem patch_nil (b : Bytes) (pos : Nat) : patch b pos [] = b := by
  simp [patch]

/-- An area before or after the overwritten one is unchanged. -/
theorem slice_patch_disjoint (hb : pos + new.length ≤ b.length)
    (h : q + len ≤ pos ∨ pos + new.length ≤ q) :
    slice (patch b pos new) q len = slice b q len := by
  have hl : (b.take pos).length = pos := by
    rw [length_take]
    omega
  rcases h with h | h
  · have hsplit : slice b q len = slice (b.take pos ++ b.drop pos) q len := by
      rw [take_append_drop]
    rw [hsplit, patch, append_assoc, slice_append_left _ (by omega), slice_append_left _ (by omega)]
  have hl' : (b.take pos ++ new).length = pos + new.length := by
    rw [length_append, hl]
  have hl'' : (b.take (pos + new.length)).length = pos + new.length := by
    rw [length_take]
    omega
  have hsplit : slice b q len = slice (b.take (pos + new.length) ++ b.drop (pos + new.length))
        q len := by
    rw [take_append_drop]
  rw [hsplit, patch, slice_append_right _ (by omega), hl', slice_append_right _ (by omega), hl'']

/-- Writing back what is there changes nothing. -/
theorem patch_slice_self (h : slice b pos new.length = new)
    (hb : pos + new.length ≤ b.length) : patch b pos new = b := by
  rw [patch]
  conv_lhs => rw [← h]
  rw [slice, length_take, length_drop, Nat.min_eq_left (by omega), append_assoc, ← drop_drop,
    take_append_drop, take_append_drop]

end

-- ======== C strings

/-- The string that starts where `b` does. -/
def cstr (b : Bytes) : Bytes := b.takeWhile (· != 0)

/-- A string is not affected by what follows its terminator. -/
theorem cstr_append_of_mem {b : Bytes} (h : (0 : UInt8) ∈ b) (r : Bytes) :
    cstr (b ++ r) = cstr b := by
  induction b with
  | nil => cases h
  | cons c b ih =>
    by_cases hc : c = 0
    · simp [cstr, hc]
    have hb : (0 : UInt8) ∈ b := by
      rcases mem_cons.mp h with h | h
      · exact absurd h.symm hc
      · exact h
    have := ih hb
    simp only [cstr, cons_append] at this ⊢
    rw [takeWhile_cons_of_pos (by simpa using hc), takeWhile_cons_of_pos (by simpa using hc), this]

/-- A terminated string reads back. -/
theorem cstr_nul {s : Bytes} (h : (0 : UInt8) ∉ s) (r : Bytes) : cstr (s ++ 0 :: r) = s := by
  induction s with
  | nil => rfl
  | cons c s ih =>
    have hc : c ≠ 0 := fun hc => h (hc ▸ mem_cons_self ..)
    simp only [cstr, cons_append] at ih ⊢
    rw [takeWhile_cons_of_pos (by simpa using hc), ih fun hs => h (mem_cons_of_mem _ hs)]

theorem nul_not_mem_cstr (b : Bytes) : (0 : UInt8) ∉ cstr b := by
  intro h
  have := mem_takeWhile_imp h
  simp at this

/-- The contents of a C string: bytes without a terminator. -/
def CStr := { s : Bytes // (0 : UInt8) ∉ s }

instance : DecidableEq CStr := inferInstanceAs (DecidableEq (Subtype _))

/-- The string that starts `off` bytes into a buffer. -/
def cstrAt (b : Bytes) (off : Nat) : CStr :=
  ⟨cstr (b.drop off), nul_not_mem_cstr _⟩

def CStr.empty : CStr := ⟨[], by simp⟩

/-- The string with its terminator, as it lies in memory. -/
def CStr.stored (s : CStr) : Bytes := s.val ++ [0]

@[simp] theorem CStr.stored_length (s : CStr) : s.stored.length = s.val.length + 1 := by
  simp [stored]

/-- A table of terminated strings: empty, or ending in a terminator. -/
def Terminated (b : Bytes) : Prop := b = [] ∨ b.getLast? = some 0

instance (b : Bytes) : Decidable (Terminated b) :=
  inferInstanceAs (Decidable (_ ∨ _))

theorem Terminated.nul_mem_drop {b : Bytes} (h : Terminated b) {off : Nat}
    (hoff : off < b.length) : (0 : UInt8) ∈ b.drop off := by
  rcases h with rfl | h
  · cases hoff
  have hne : b.drop off ≠ [] := by
    intro hnil
    rw [drop_eq_nil_iff] at hnil
    omega
  have hl : (b.drop off).getLast? = some 0 := by
    rw [getLast?_drop, if_neg (by omega), h]
  exact mem_of_getLast? hl

theorem Terminated.append_stored {b : Bytes} (s : CStr) : Terminated (b ++ s.stored) := by
  right
  simp [CStr.stored]

/-- Appending to a terminated table leaves its strings alone. -/
theorem Terminated.cstrAt_append {b : Bytes} (h : Terminated b) {off : Nat}
    (hoff : off < b.length) (r : Bytes) :
    cstrAt (b ++ r) off = cstrAt b off := by
  apply Subtype.ext
  change cstr ((b ++ r).drop off) = cstr (b.drop off)
  rw [drop_append_of_le_length (Nat.le_of_lt hoff)]
  exact cstr_append_of_mem (h.nul_mem_drop hoff) r

/-- An appended string is found at the old end. -/
theorem cstrAt_append_stored (b : Bytes) (s : CStr) (r : Bytes) :
    cstrAt (b ++ s.stored ++ r) b.length = s := by
  apply Subtype.ext
  change cstr ((b ++ s.stored ++ r).drop b.length) = s.val
  rw [append_assoc, drop_left, CStr.stored, append_assoc]
  exact cstr_nul s.property r

end Libbpf.Lib
