/-
User ring buffers.

Here the program is the producer. `user_ring_buffer__reserve` hands out the
space of one record, with a header word that holds the length and the busy
bit; `user_ring_buffer__submit` and `user_ring_buffer__discard` find the
header again from the pointer the program was given and clear the bit. The
kernel takes the records in order, as far as they are no longer busy, and
moves the consumer position on.

The data pages are kept as 32-bit words, once; they are mapped twice in a
row, and `UserRing.index` is where an access to that mapping lands. An access
that is outside the mapping or not on a word is taken as undefined. Positions
have 64 bits and sizes 32, as in the source, and a pointer into the data is
its distance from `rb->data`.
-/
import Libbpf.Btf.Type
import Libbpf.Ringbuf.Consume

namespace Libbpf

open Lib

variable {pos : BitVec 64}

def EBUSY : Int := 16

def BPF_RINGBUF_BUSY_BIT : BitVec 32 := 0x80000000#32

def BPF_RINGBUF_DISCARD_BIT : BitVec 32 := 0x40000000#32

/-- `struct user_ring_buffer`. -/
structure UserRing where
  /-- The data pages, once, in words. -/
  words : List (BitVec 32)
  consumerPos : BitVec 64
  producerPos : BitVec 64
  mask : BitVec 64
  /-- The size is the `max_entries` of the map, a power of two of at least a
  page that fits in 32 bits, and the mask is for it. -/
  sized : ∃ k, 12 ≤ k ∧ k ≤ 31 ∧ 4 * words.length = 2 ^ k ∧ mask = BitVec.ofNat 64 (2 ^ k - 1)

/-- The size of the ring, in bytes. -/
def UserRing.size (rb : UserRing) : Nat := 4 * rb.words.length

/-- The word at `rb->data + off`. -/
def UserRing.index (rb : UserRing) (off : Nat) : Option Nat :=
  if off % 4 = 0 ∧ off + 4 ≤ 2 * rb.size then some (off / 4 % rb.words.length) else none

/-- Set a word of the data pages. -/
def UserRing.store (rb : UserRing) (i : Nat) (w : BitVec 32) : UserRing :=
  { rb with
    words := rb.words.set i w
    sized := by simpa only [List.length_set] using rb.sized }

/-- Read a word of `struct ringbuf_hdr`. -/
def readHdr (off : Nat) : Run UserRing (BitVec 32) := do
  let rb ← get
  let i ← liftRes (deref (rb.index off))
  liftRes (deref rb.words[i]?)

/-- Write a word of `struct ringbuf_hdr`. -/
def writeHdr (off : Nat) (w : BitVec 32) : Run UserRing Unit := do
  let rb ← get
  let i ← liftRes (deref (rb.index off))
  set (rb.store i w)

/-- `(size + BPF_RINGBUF_HDR_SZ + 7) / 8 * 8`. -/
def reserveTotal (size : BitVec 32) : BitVec 32 :=
  (size + BitVec.ofNat 32 BPF_RINGBUF_HDR_SZ + 7) / 8 * 8

/-- `user_ring_buffer__reserve`. -/
def userRingBufferReserve (size : BitVec 32) : Run UserRing (BitVec 64) := do
  -- the top two bits are used as special flags
  liftRes (failIf (size &&& (BPF_RINGBUF_BUSY_BIT ||| BPF_RINGBUF_DISCARD_BIT) ≠ 0) E2BIG)
  let rb ← get
  let consPos := rb.consumerPos
  let prodPos := rb.producerPos
  let maxSize : BitVec 32 := (rb.mask + 1).setWidth 32
  let availSize : BitVec 32 := (maxSize.setWidth 64 - (prodPos - consPos)).setWidth 32
  let totalSize := reserveTotal size
  liftRes (failIf (totalSize > maxSize) E2BIG)
  liftRes (failIf (availSize < totalSize) ENOSPC)
  let hdr := (prodPos &&& rb.mask).toNat
  writeHdr hdr (size ||| BPF_RINGBUF_BUSY_BIT)
  writeHdr (hdr + 4) 0
  modify fun rb => { rb with producerPos := prodPos + totalSize.setWidth 64 }
  return (prodPos + BitVec.ofNat 64 BPF_RINGBUF_HDR_SZ) &&& rb.mask

/-- `user_ringbuf_commit`. -/
def userRingbufCommit (sample : BitVec 64) (discard : Bool) : Run UserRing Unit := do
  let rb ← get
  let hdrOffset := rb.mask + 1 + sample - BitVec.ofNat 64 BPF_RINGBUF_HDR_SZ
  let hdr := (hdrOffset &&& rb.mask).toNat
  let len ← readHdr hdr
  let newLen := len &&& ~~~BPF_RINGBUF_BUSY_BIT
  writeHdr hdr (if discard then newLen ||| BPF_RINGBUF_DISCARD_BIT else newLen)

/-- `user_ring_buffer__discard`. -/
def userRingBufferDiscard (sample : BitVec 64) : Run UserRing Unit :=
  userRingbufCommit sample true

/-- `user_ring_buffer__submit`. -/
def userRingBufferSubmit (sample : BitVec 64) : Run UserRing Unit :=
  userRingbufCommit sample false

/-- The kernel takes the record at the consumer position, which must not be
busy any more. -/
def kernelConsume : Run UserRing Unit := do
  let rb ← get
  let len ← readHdr (rb.consumerPos &&& rb.mask).toNat
  liftRes (failIf (ringbufBusy len.toNat) EBUSY)
  set { rb with
    consumerPos := rb.consumerPos + BitVec.ofNat 64 (roundupLen len.toNat) }

-- ======== the geometry

namespace UserRing

variable (rb : UserRing)

theorem size_pow : ∃ k, 12 ≤ k ∧ k ≤ 31 ∧ rb.size = 2 ^ k
    ∧ rb.mask = BitVec.ofNat 64 (2 ^ k - 1) := rb.sized

theorem size_le : rb.size ≤ 2 ^ 31 := by
  obtain ⟨k, -, hk, hsize, -⟩ := rb.size_pow
  rw [hsize]
  exact Nat.pow_le_pow_right (by decide) hk

theorem page_le_size : 4096 ≤ rb.size := by
  obtain ⟨k, hk, -, hsize, -⟩ := rb.size_pow
  rw [hsize]
  exact Nat.pow_le_pow_right (show 0 < 2 by decide) hk

theorem dvd_size : 8 ∣ rb.size := by
  obtain ⟨k, hk, -, hsize, -⟩ := rb.size_pow
  rw [hsize]
  exact Nat.pow_dvd_pow 2 (show 3 ≤ k by omega)

/-- Where a position is in the data pages. -/
def place (pos : BitVec 64) : Nat := pos.toNat % rb.size

theorem place_lt (pos : BitVec 64) : rb.place pos < rb.size :=
  Nat.mod_lt _ (by have := rb.page_le_size; omega)

theorem and_mask (pos : BitVec 64) : (pos &&& rb.mask).toNat = rb.place pos := by
  obtain ⟨k, -, hk, hsize, hmask⟩ := rb.size_pow
  rw [hmask, toNat_and_mask pos (by omega), place, hsize]

theorem place_add (pos : BitVec 64) (d : Nat) :
    rb.place (pos + BitVec.ofNat 64 d) = (pos.toNat + d) % rb.size := by
  obtain ⟨k, -, hk, hsize, -⟩ := rb.size_pow
  rw [place, hsize, toNat_add_mod pos d (by omega)]

theorem place_mod (h : pos.toNat % 8 = 0) : rb.place pos % 8 = 0 := by
  rw [place, Nat.mod_mod_of_dvd _ rb.dvd_size, h]

theorem mask_succ : (rb.mask + 1).toNat = rb.size := by
  obtain ⟨k, -, hk, hsize, hmask⟩ := rb.size_pow
  have hle : 2 ^ k ≤ 2 ^ 31 := Nat.pow_le_pow_right (by decide) hk
  have hpos : 0 < 2 ^ k := Nat.two_pow_pos k
  rw [hmask, BitVec.toNat_add, BitVec.toNat_ofNat]
  have hone : (1 : BitVec 64).toNat = 1 := rfl
  omega

/-- The header word of the record at a position. -/
def slot (pos : BitVec 64) : Nat := rb.place pos / 4

/-- The two words of a header are in the data pages, also at their end. -/
theorem slot_lt (h : pos.toNat % 8 = 0) : rb.slot pos + 1 < rb.words.length := by
  have hlt := rb.place_lt pos
  have hmod := rb.place_mod h
  have hdvd := rb.dvd_size
  rw [size] at hlt hdvd
  rw [slot]
  omega

theorem index_place (h : pos.toNat % 8 = 0) : rb.index (rb.place pos) = some (rb.slot pos) := by
  have hlt := rb.slot_lt h
  have hmod := rb.place_mod h
  have hplace := rb.place_lt pos
  have hpage := rb.page_le_size
  rw [index, if_pos (by omega), ← slot, Nat.mod_eq_of_lt (by omega)]

theorem index_place_pad (h : pos.toNat % 8 = 0) :
    rb.index (rb.place pos + 4) = some (rb.slot pos + 1) := by
  have hlt := rb.slot_lt h
  have hmod := rb.place_mod h
  have hplace := rb.place_lt pos
  have hpage := rb.page_le_size
  have hslot : (rb.place pos + 4) / 4 = rb.slot pos + 1 := by rw [slot]; omega
  rw [index, if_pos (by omega), hslot, Nat.mod_eq_of_lt hlt]

/-- Different places have different header words. -/
theorem slot_ne {pos' : BitVec 64} (h : pos.toNat % 8 = 0) (h' : pos'.toNat % 8 = 0)
    (hne : rb.place pos ≠ rb.place pos') :
    rb.slot pos ≠ rb.slot pos' ∧ rb.slot pos ≠ rb.slot pos' + 1 := by
  have hmod := rb.place_mod h
  have hmod' := rb.place_mod h'
  rw [slot, slot]
  omega

section

variable (i : Nat) (w : BitVec 32)

@[simp] theorem store_words : (rb.store i w).words = rb.words.set i w := rfl

@[simp] theorem store_consumerPos : (rb.store i w).consumerPos = rb.consumerPos := rfl

@[simp] theorem store_producerPos : (rb.store i w).producerPos = rb.producerPos := rfl

@[simp] theorem store_mask : (rb.store i w).mask = rb.mask := rfl

@[simp] theorem store_size : (rb.store i w).size = rb.size := by
  simp [size]

@[simp] theorem store_slot (pos : BitVec 64) : (rb.store i w).slot pos = rb.slot pos := by
  simp [slot, place]

@[simp] theorem store_index (off : Nat) : (rb.store i w).index off = rb.index off := by
  simp [index]

end

end UserRing

-- ======== the words

/-- The bytes of a record with `size` bytes of data: the header, the data,
and what fills it up to a multiple of eight. -/
def recordBytes (size : BitVec 32) : Nat := (size.toNat + 15) / 8 * 8

theorem recordBytes_mod (size : BitVec 32) : recordBytes size % 8 = 0 := by
  rw [recordBytes]
  omega

theorem recordBytes_pos (size : BitVec 32) : 8 ≤ recordBytes size := by
  rw [recordBytes]
  omega

theorem flags_getLsbD : ∀ i < 32,
    (BPF_RINGBUF_BUSY_BIT ||| BPF_RINGBUF_DISCARD_BIT).getLsbD i = decide (30 ≤ i) := by
  decide

theorem busy_getLsbD : ∀ i < 32, BPF_RINGBUF_BUSY_BIT.getLsbD i = decide (i = 31) := by
  decide

theorem discard_getLsbD : ∀ i < 32, BPF_RINGBUF_DISCARD_BIT.getLsbD i = decide (i = 30) := by
  decide

/-- The bits of a size that is free of flags. -/
theorem getLsbD_small {size : BitVec 32} (h : size.toNat < 2 ^ 30) {i : Nat} (hi : 30 ≤ i) :
    size.getLsbD i = false :=
  Nat.testBit_lt_two_pow (Nat.lt_of_lt_of_le h (Nat.pow_le_pow_right (by decide) hi))

/-- The two flags are what sizes of a gigabyte or more have. -/
theorem flags_clear_iff (size : BitVec 32) :
    size &&& (BPF_RINGBUF_BUSY_BIT ||| BPF_RINGBUF_DISCARD_BIT) = 0 ↔ size.toNat < 2 ^ 30 := by
  constructor
  · intro h
    refine Nat.lt_pow_two_of_testBit _ fun i hi => ?_
    by_cases hlt : i < 32
    · have hbit := congrArg (fun v : BitVec 32 => v.getLsbD i) h
      rw [BitVec.testBit_toNat]
      simpa [flags_getLsbD i hlt, hi] using hbit
    · exact Nat.testBit_lt_two_pow (Nat.lt_of_lt_of_le size.isLt
        (Nat.pow_le_pow_right (by decide) (by omega)))
  · intro h
    refine BitVec.eq_of_getLsbD_eq fun i hi => ?_
    rw [BitVec.getLsbD_and, flags_getLsbD i hi]
    by_cases hlow : 30 ≤ i
    · rw [getLsbD_small h hlow]
      simp
    · simp [hlow]

/-- The word a commit leaves in a header. -/
def commitWord (size : BitVec 32) (discard : Bool) : BitVec 32 :=
  if discard then size ||| BPF_RINGBUF_DISCARD_BIT else size

theorem clear_busy {size : BitVec 32} (h : size.toNat < 2 ^ 30) :
    (size ||| BPF_RINGBUF_BUSY_BIT) &&& ~~~BPF_RINGBUF_BUSY_BIT = size := by
  refine BitVec.eq_of_getLsbD_eq fun i hi => ?_
  rw [BitVec.getLsbD_and, BitVec.getLsbD_or, BitVec.getLsbD_not, busy_getLsbD i hi]
  by_cases htop : i = 31
  · rw [htop, getLsbD_small h (by decide)]
    simp
  · simp [htop, hi]

theorem busy_reserved (size : BitVec 32) :
    ringbufBusy (size ||| BPF_RINGBUF_BUSY_BIT).toNat = true := by
  have h : (size ||| BPF_RINGBUF_BUSY_BIT).getLsbD 31 = true := by
    rw [BitVec.getLsbD_or, busy_getLsbD 31 (by decide)]
    simp
  exact h

theorem busy_commitWord {size : BitVec 32} (h : size.toNat < 2 ^ 30) (discard : Bool) :
    ringbufBusy (commitWord size discard).toNat = false := by
  have hbit : (commitWord size discard).getLsbD 31 = false := by
    cases discard
    · exact getLsbD_small h (by decide)
    · rw [commitWord, if_pos rfl, BitVec.getLsbD_or, getLsbD_small h (by decide),
        discard_getLsbD 31 (by decide)]
      rfl
  exact hbit

/-- The length a header holds, without its flags. -/
theorem commitWord_mod {size : BitVec 32} (h : size.toNat < 2 ^ 30) (discard : Bool) :
    (commitWord size discard).toNat % 2 ^ 30 = size.toNat := by
  refine Nat.eq_of_testBit_eq fun i => ?_
  rw [Nat.testBit_mod_two_pow, BitVec.testBit_toNat, BitVec.testBit_toNat]
  by_cases hi : i < 30
  · cases discard
    · simp [commitWord, hi]
    · have hbit := discard_getLsbD i (by omega)
      rw [show decide (i = 30) = false by simp; omega] at hbit
      have : (commitWord size true).getLsbD i = size.getLsbD i := by
        rw [commitWord, if_pos rfl, BitVec.getLsbD_or, hbit, Bool.or_false]
      simpa [hi] using this
  · have : size.getLsbD i = false := getLsbD_small h (by omega)
    simpa [hi] using this.symm

end Libbpf
