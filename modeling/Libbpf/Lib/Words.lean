/-
A buffer of words, swapped where it lies.

A walk over untrusted data that changes its byte order does so word by
word in one buffer, and reads the counts that steer it from the same
buffer. What it has done is then a matter of which words it has swapped:
swapping `n` words at `p` mirrors the bytes of each (`getElem?_swapWords`),
and everything else here is read off that. Swapping twice is nothing
(`swapWords_twice`), areas that do not meet are swapped in any order
(`swapWords_comm`), and a word reads natively after the swap as it read
in the foreign order before it (`wordAt_swapWords`).
-/
import Libbpf.Lib.Bytes

namespace Libbpf.Lib

open List

-- ======== definitions

/-- The word at position `p`, as the order `o` reads it. -/
def wordAt (o : ByteOrder) (b : Bytes) (p : Nat) : Nat := rdU32 o (b.drop p)

/-- Store `w` at position `p`. -/
def setWord (o : ByteOrder) (b : Bytes) (p w : Nat) : Bytes :=
  patch b p (u32Bytes o w)

/-- Swap the word at position `p` where it lies. -/
def swapWord (o : ByteOrder) (b : Bytes) (p : Nat) : Bytes :=
  setWord o b p (bswap32 (wordAt o b p))

/-- Swap `n` words from position `p` on. -/
def swapWords (o : ByteOrder) (b : Bytes) (p : Nat) : Nat → Bytes
  | 0 => b
  | n + 1 => swapWords o (swapWord o b p) (p + 4) n

/-- Where the byte at `i` comes from when its word is mirrored; words
start at `p`. -/
def mirror (p i : Nat) : Nat := p + 4 * ((i - p) / 4) + (3 - (i - p) % 4)

-- ======== single words

section

variable {b : Bytes} {p q n i : Nat} {o : ByteOrder}

theorem getElem?_patch {new : Bytes} (h : p + new.length ≤ b.length) (i : Nat) : (patch b p new)[i]?
      = if p ≤ i ∧ i < p + new.length then new[i - p]? else b[i]? := by
  have hp : (b.take p).length = p := by
    rw [length_take]
    omega
  rw [patch, append_assoc]
  by_cases hlo : p ≤ i
  · rw [getElem?_append_right (by omega), hp]
    by_cases hhi : i < p + new.length
    · rw [if_pos ⟨hlo, hhi⟩, getElem?_append_left (by omega)]
    · rw [if_neg (fun hc => hhi hc.2), getElem?_append_right (by omega), getElem?_drop]
      congr 1
      omega
  · rw [if_neg (fun hc => hlo hc.1), getElem?_append_left (by omega),
      getElem?_take_of_lt (by omega)]

theorem slice_congr {b' : Bytes} {len : Nat}
    (h : ∀ i, p ≤ i → i < p + len → b[i]? = b'[i]?) : slice b p len = slice b' p len := by
  refine ext_getElem? fun i => ?_
  rw [slice, slice, getElem?_take, getElem?_take, getElem?_drop, getElem?_drop]
  by_cases hi : i < len
  · rw [if_pos hi, if_pos hi, h _ (by omega) (by omega)]
  · rw [if_neg hi, if_neg hi]

theorem u32Bytes_other (o : ByteOrder) (w : Nat) : u32Bytes o.other w = (u32Bytes o w).reverse := by
  cases o <;> rfl

/-- A word depends on its four bytes only. -/
theorem wordAt_congr {b' : Bytes} (h : ∀ i, i < 4 → b[p + i]? = b'[q + i]?) :
    wordAt o b p = wordAt o b' q := by
  have hbyte : ∀ i, i < 4 → byteAt (b.drop p) i = byteAt (b'.drop q) i := by
    intro i hi
    rw [byteAt, byteAt, getD_eq_getElem?_getD, getD_eq_getElem?_getD,
      getElem?_drop, getElem?_drop, h i hi]
  cases o <;> simp only [wordAt, rdU32, hbyte 0 (by decide), hbyte 1 (by decide),
      hbyte 2 (by decide), hbyte 3 (by decide)]

theorem wordAt_lt (o : ByteOrder) (b : Bytes) (p : Nat) : wordAt o b p < 2 ^ 32 := rdU32_lt o _

theorem bswap32_wordAt (o : ByteOrder) (b : Bytes) (p : Nat) :
    bswap32 (wordAt o b p) = wordAt o.other b p := bswap32_rdU32 o _

theorem setWord_length {w : Nat} (h : p + 4 ≤ b.length) : (setWord o b p w).length = b.length :=
  patch_length (by rw [u32Bytes_length]; exact h)

theorem getElem?_setWord {w : Nat} (h : p + 4 ≤ b.length) (i : Nat) : (setWord o b p w)[i]?
      = if p ≤ i ∧ i < p + 4 then (u32Bytes o w)[i - p]? else b[i]? := by
  rw [setWord, getElem?_patch (by rw [u32Bytes_length]; exact h), u32Bytes_length]

/-- A stored word reads back. -/
theorem wordAt_setWord {w : Nat} (h : p + 4 ≤ b.length) (hw : w < 2 ^ 32) :
    wordAt o (setWord o b p w) p = w := by
  have hb : wordAt o (setWord o b p w) p = wordAt o (u32Bytes o w ++ []) 0 := by
    refine wordAt_congr fun i hi => ?_
    rw [getElem?_setWord h, if_pos (by omega), append_nil]
    congr 1
    omega
  rw [hb, wordAt, drop_zero, rdU32_u32Bytes o hw]

/-- A word elsewhere is not affected by a store. -/
theorem wordAt_setWord_of_disjoint {w : Nat} (h : p + 4 ≤ b.length)
    (hq : q + 4 ≤ p ∨ p + 4 ≤ q) : wordAt o (setWord o b p w) q = wordAt o b q := by
  refine wordAt_congr fun i hi => ?_
  rw [getElem?_setWord h, if_neg (by omega)]

/-- Storing the word that is there changes nothing. -/
theorem setWord_wordAt (h : p + 4 ≤ b.length) : setWord o b p (wordAt o b p) = b := by
  have hs : u32Bytes o (wordAt o b p) = slice b p 4 :=
    u32Bytes_rdU32 o (by rw [length_drop]; omega)
  refine patch_slice_self ?_ (by rw [u32Bytes_length]; exact h)
  rw [u32Bytes_length, hs]

theorem swapWord_length (h : p + 4 ≤ b.length) :
    (swapWord o b p).length = b.length := setWord_length h

/-- Swapping a word reverses its four bytes. -/
theorem getElem?_swapWord (h : p + 4 ≤ b.length) (i : Nat) : (swapWord o b p)[i]?
      = if p ≤ i ∧ i < p + 4 then b[p + (3 - (i - p))]? else b[i]? := by
  have hbytes : u32Bytes o (bswap32 (wordAt o b p)) = (slice b p 4).reverse := by
    have hlen : 4 ≤ (b.drop p).length := by
      rw [length_drop]
      omega
    rw [u32Bytes_bswap32, u32Bytes_other]
    congr 1
    exact u32Bytes_rdU32 o hlen
  rw [swapWord, getElem?_setWord h, hbytes]
  refine if_ctx_congr Iff.rfl (fun hin => ?_) fun _ => rfl
  have hlen : (slice b p 4).length = 4 := slice_length h
  rw [getElem?_reverse (by omega), hlen, slice, getElem?_take_of_lt (by omega), getElem?_drop]

-- ======== runs of words

theorem swapWords_length : ∀ {n p : Nat} {b : Bytes}, p + 4 * n ≤ b.length →
    (swapWords o b p n).length = b.length
  | 0, _, _, _ => rfl
  | n + 1, p, b, h => by
    have hw : (swapWord o b p).length = b.length := swapWord_length (by omega)
    rw [swapWords, swapWords_length (by rw [hw]; omega), hw]

/-- Swapping a run of words mirrors the bytes of each of them. -/
theorem getElem?_swapWords : ∀ {n p : Nat} {b : Bytes}, p + 4 * n ≤ b.length →
    ∀ i, (swapWords o b p n)[i]? = if p ≤ i ∧ i < p + 4 * n then b[mirror p i]? else b[i]?
  | 0, p, b, _, i => by
    rw [swapWords, if_neg (by omega)]
  | n + 1, p, b, h, i => by
    have hw : (swapWord o b p).length = b.length := swapWord_length (by omega)
    rw [swapWords, getElem?_swapWords (by rw [hw]; omega)]
    -- the first word, then the words after it, then the rest
    by_cases hfirst : p ≤ i ∧ i < p + 4
    · rw [if_neg (by omega), getElem?_swapWord (by omega), if_pos hfirst, if_pos (by omega), mirror]
      congr 1
      omega
    by_cases hin : p + 4 ≤ i ∧ i < p + 4 + 4 * n
    · rw [if_pos hin, if_pos (by omega), getElem?_swapWord (by omega),
        if_neg (by unfold mirror; omega)]
      congr 1
      unfold mirror
      omega
    · rw [if_neg hin, if_neg (by omega), getElem?_swapWord (by omega), if_neg hfirst]

theorem swapWords_add : ∀ (m : Nat) {n p : Nat} {b : Bytes},
    swapWords o b p (m + n) = swapWords o (swapWords o b p m) (p + 4 * m) n
  | 0, n, p, b => by rw [Nat.zero_add, Nat.mul_zero, Nat.add_zero, swapWords]
  | m + 1, n, p, b => by
    rw [Nat.add_right_comm, swapWords, swapWords, swapWords_add m]
    congr 1
    omega

/-- A swapped word reads natively as it read in the foreign order. -/
theorem wordAt_swapWords {k : Nat} (h : p + 4 * n ≤ b.length) (hk : k < n) :
    wordAt o (swapWords o b p n) (p + 4 * k) = wordAt o.other b (p + 4 * k) := by
  have hword : p + 4 * k + 4 ≤ b.length := by omega
  have hsame : wordAt o (swapWords o b p n) (p + 4 * k)
      = wordAt o (swapWord o b (p + 4 * k)) (p + 4 * k) := by
    refine wordAt_congr fun i hi => ?_
    rw [getElem?_swapWords h, if_pos (by omega), getElem?_swapWord hword, if_pos (by omega), mirror]
    congr 1
    omega
  rw [hsame, swapWord, wordAt_setWord hword (bswap32_lt _), bswap32_wordAt]

/-- A word outside the run is not affected. -/
theorem wordAt_swapWords_of_disjoint (h : p + 4 * n ≤ b.length) (hq : q + 4 ≤ p ∨ p + 4 * n ≤ q) :
    wordAt o (swapWords o b p n) q = wordAt o b q := by
  refine wordAt_congr fun i hi => ?_
  rw [getElem?_swapWords h, if_neg (by omega)]

/-- Swapping twice is nothing. -/
theorem swapWords_twice (h : p + 4 * n ≤ b.length) : swapWords o (swapWords o b p n) p n = b := by
  have hl : (swapWords o b p n).length = b.length := swapWords_length h
  refine ext_getElem? fun i => ?_
  rw [getElem?_swapWords (by rw [hl]; exact h)]
  by_cases hin : p ≤ i ∧ i < p + 4 * n
  · rw [if_pos hin, getElem?_swapWords h, if_pos (by unfold mirror; omega)]
    congr 1
    unfold mirror
    omega
  · rw [if_neg hin, getElem?_swapWords h, if_neg hin]

/-- Swapping two areas that do not meet, byte by byte. -/
private theorem getElem?_swapWords_swapWords {m : Nat} (hp : p + 4 * n ≤ b.length)
    (hq : q + 4 * m ≤ b.length) (hd : p + 4 * n ≤ q ∨ q + 4 * m ≤ p) (i : Nat) :
    (swapWords o (swapWords o b p n) q m)[i]? = if p ≤ i ∧ i < p + 4 * n then b[mirror p i]?
        else if q ≤ i ∧ i < q + 4 * m then b[mirror q i]? else b[i]? := by
  have hl : (swapWords o b p n).length = b.length := swapWords_length hp
  rw [getElem?_swapWords (by rw [hl]; exact hq)]
  by_cases hin : q ≤ i ∧ i < q + 4 * m
  · rw [if_pos hin, if_pos hin, getElem?_swapWords hp,
      if_neg (by unfold mirror; omega), if_neg (by omega)]
  · rw [if_neg hin, if_neg hin, getElem?_swapWords hp]

/-- Areas that do not meet are swapped in any order. -/
theorem swapWords_comm {m : Nat} (hp : p + 4 * n ≤ b.length)
    (hq : q + 4 * m ≤ b.length) (hd : p + 4 * n ≤ q ∨ q + 4 * m ≤ p) :
    swapWords o (swapWords o b p n) q m = swapWords o (swapWords o b q m) p n := by
  refine ext_getElem? fun i => ?_
  rw [getElem?_swapWords_swapWords hp hq hd, getElem?_swapWords_swapWords hq hp hd.symm]
  by_cases hin : p ≤ i ∧ i < p + 4 * n
  · rw [if_pos hin, if_pos hin, if_neg (by omega)]
  · rw [if_neg hin, if_neg hin]

end

end Libbpf.Lib
