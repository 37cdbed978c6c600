/-
Reservations are exclusive.

A user ring is used by any interleaving of reservations, commits of samples
that are outstanding, in any order, and the kernel taking the oldest record
once it is committed. `UserStep` runs the calls of the model and keeps, next
to the ring, the list of records between the consumer position and the
producer position. `UserInv` says how the two belong together: the records
lie one after the other, together they are at most the ring, and each has its
length and its state in the header word at its own position.

The header is found from the sample by masked arithmetic; it comes out right
also where the header is the last word of the ring and the data starts at its
beginning (`userRingbufCommit_eq`).

A reservation fails where the record does not fit. There is one more reason:
a size of a gigabyte or more does not leave the two flag bits of the header
free, and is refused even by a ring of two gigabytes that has the space.
-/
import Mathlib.Logic.Relation
import Libbpf.Ringbuf.Exact
import Libbpf.Ringbuf.User

namespace Libbpf

open Lib List

-- ======== the calls

section

variable {rb : UserRing} {size : BitVec 32} {pos : BitVec 64}

theorem writeHdr_ok {off i : Nat} (w : BitVec 32) (h : rb.index off = some i) :
    writeHdr off w rb = .ok () (rb.store i w) := by
  unfold writeHdr
  rw [run_bind, run_get]
  dsimp only
  rw [h]
  rfl

theorem readHdr_ok {off i : Nat} {w : BitVec 32} (h : rb.index off = some i)
    (hw : rb.words[i]? = some w) : readHdr off rb = .ok w rb := by
  unfold readHdr
  rw [run_bind, run_get]
  dsimp only
  rw [run_bind, h]
  dsimp only [deref, liftRes]
  rw [hw]

/-- The sum the source rounds up does not wrap around once the flags are
checked. -/
theorem reserveTotal_toNat (h : size.toNat < 2 ^ 30) :
    (reserveTotal size).toNat = recordBytes size := by
  unfold reserveTotal recordBytes
  rw [BitVec.toNat_mul, BitVec.toNat_udiv, BitVec.toNat_add, BitVec.toNat_add]
  have h8 : (8 : BitVec 32).toNat = 8 := rfl
  have h7 : (7 : BitVec 32).toNat = 7 := rfl
  have hhdr : (BitVec.ofNat 32 BPF_RINGBUF_HDR_SZ).toNat = 8 := rfl
  rw [h8]
  omega

/-- The ring after a reservation. -/
def UserRing.reserve (rb : UserRing) (size : BitVec 32) : UserRing :=
  { (rb.store (rb.slot rb.producerPos) (size ||| BPF_RINGBUF_BUSY_BIT)).store
      (rb.slot rb.producerPos + 1) 0 with
    producerPos := rb.producerPos + BitVec.ofNat 64 (recordBytes size) }

/-- What the producer has reserved and the kernel has not taken. -/
structure UserRing.Uses (rb : UserRing) (used : Nat) : Prop where
  aligned : rb.producerPos.toNat % 8 = 0
  ends : rb.producerPos = rb.consumerPos + BitVec.ofNat 64 used
  fits : used ≤ rb.size

theorem UserRing.Uses.avail {used : Nat} (h : rb.Uses used) :
    (((((rb.mask + 1).setWidth 32 : BitVec 32).setWidth 64
      - (rb.producerPos - rb.consumerPos)).setWidth 32 : BitVec 32)).toNat
      = rb.size - used := by
  have hsize := rb.size_le
  have hfits := h.fits
  have hused : rb.producerPos - rb.consumerPos = BitVec.ofNat 64 used := by
    rw [h.ends, BitVec.add_comm, BitVec.add_sub_cancel]
  rw [hused, BitVec.toNat_setWidth, BitVec.toNat_sub, BitVec.toNat_setWidth,
    BitVec.toNat_setWidth, rb.mask_succ, BitVec.toNat_ofNat]
  omega

theorem userRingBufferReserve_eq {used : Nat} (h : rb.Uses used) (size : BitVec 32) :
    userRingBufferReserve size rb =
      if 2 ^ 30 ≤ size.toNat ∨ rb.size < recordBytes size then .error (.err (-E2BIG)) rb
      else if rb.size < used + recordBytes size then .error (.err (-ENOSPC)) rb
      else .ok ((rb.producerPos + BitVec.ofNat 64 BPF_RINGBUF_HDR_SZ) &&& rb.mask)
        (rb.reserve size) := by
  have hsize := rb.size_le
  have hfits := h.fits
  have hmax : (((rb.mask + 1).setWidth 32 : BitVec 32)).toNat = rb.size := by
    rw [BitVec.toNat_setWidth, rb.mask_succ]
    omega
  unfold userRingBufferReserve
  rw [run_bind]
  by_cases hflags : size.toNat < 2 ^ 30
  · have htotal := reserveTotal_toNat hflags
    rw [failIf, if_neg (not_not.mpr ((flags_clear_iff size).mpr hflags)), liftRes_ok]
    dsimp only
    rw [run_bind, run_get]
    dsimp only
    rw [run_bind]
    by_cases hmore : rb.size < recordBytes size
    · rw [if_pos (Or.inr hmore), failIf, if_pos]
      · rfl
      · rw [gt_iff_lt, BitVec.lt_def, hmax, htotal]
        exact hmore
    rw [if_neg (not_or.mpr ⟨Nat.not_le.mpr hflags, hmore⟩), failIf, if_neg, liftRes_ok]
    · dsimp only
      rw [run_bind]
      by_cases hroom : rb.size < used + recordBytes size
      · rw [if_pos hroom, failIf, if_pos]
        · rfl
        · rw [BitVec.lt_def, h.avail, htotal]
          omega
      rw [if_neg hroom, failIf, if_neg, liftRes_ok]
      · dsimp only
        rw [rb.and_mask, run_bind, writeHdr_ok _ (rb.index_place h.aligned)]
        dsimp only
        rw [run_bind, writeHdr_ok (i := rb.slot rb.producerPos + 1)]
        · have hwide : (reserveTotal size).setWidth 64 = BitVec.ofNat 64 (recordBytes size) := by
            rw [← htotal, BitVec.ofNat_toNat]
          rw [hwide]
          rfl
        · rw [UserRing.store_index]
          exact rb.index_place_pad h.aligned
      · rw [BitVec.lt_def, h.avail, htotal]
        omega
    · rw [gt_iff_lt, BitVec.lt_def, hmax, htotal]
      exact hmore
  · rw [if_pos (Or.inl (Nat.not_lt.mp hflags)), failIf, if_pos]
    · rfl
    · exact fun hclear => hflags ((flags_clear_iff size).mp hclear)

/-- The header found from a sample is the one before it, around the end of
the ring if need be. -/
theorem place_of_sample (rb : UserRing) (pos : BitVec 64) :
    rb.place (rb.mask + 1 + ((pos + BitVec.ofNat 64 BPF_RINGBUF_HDR_SZ) &&& rb.mask)
      - BitVec.ofNat 64 BPF_RINGBUF_HDR_SZ) = rb.place pos := by
  have hle := rb.size_le
  have hpage := rb.page_le_size
  have hhdr : (BitVec.ofNat 64 BPF_RINGBUF_HDR_SZ).toNat = 8 := rfl
  have hplace : rb.place (pos + BitVec.ofNat 64 BPF_RINGBUF_HDR_SZ)
      = (rb.place pos + 8) % rb.size := by
    rw [rb.place_add, UserRing.place, Nat.mod_add_mod]
    rfl
  have hlt := rb.place_lt pos
  have hsum : (rb.mask + 1 + ((pos + BitVec.ofNat 64 BPF_RINGBUF_HDR_SZ) &&& rb.mask)
      - BitVec.ofNat 64 BPF_RINGBUF_HDR_SZ).toNat
      = rb.size + (rb.place pos + 8) % rb.size - 8 := by
    have hmod := Nat.mod_lt (rb.place pos + 8) (show 0 < rb.size by omega)
    rw [BitVec.toNat_sub, BitVec.toNat_add, rb.mask_succ, rb.and_mask, hplace, hhdr]
    omega
  rw [UserRing.place, hsum]
  by_cases hwrap : rb.place pos + 8 < rb.size
  · rw [Nat.mod_eq_of_lt hwrap, show rb.size + (rb.place pos + 8) - 8
      = rb.place pos + rb.size by omega, Nat.add_mod_right, Nat.mod_eq_of_lt hlt]
  have hover : (rb.place pos + 8) % rb.size = rb.place pos + 8 - rb.size := by
    rw [Nat.mod_eq_sub_mod (by omega), Nat.mod_eq_of_lt (by omega)]
  rw [hover, show rb.size + (rb.place pos + 8 - rb.size) - 8 = rb.place pos by omega,
    Nat.mod_eq_of_lt hlt]

/-- A commit changes the header word of its own record and nothing else. -/
theorem userRingbufCommit_eq (hpos : pos.toNat % 8 = 0) (hsize : size.toNat < 2 ^ 30)
    (hhdr : rb.words[rb.slot pos]? = some (size ||| BPF_RINGBUF_BUSY_BIT)) (discard : Bool) :
    userRingbufCommit ((pos + BitVec.ofNat 64 BPF_RINGBUF_HDR_SZ) &&& rb.mask) discard rb
      = .ok () (rb.store (rb.slot pos) (commitWord size discard)) := by
  unfold userRingbufCommit
  rw [run_bind, run_get]
  dsimp only
  rw [rb.and_mask, place_of_sample, run_bind, readHdr_ok (rb.index_place hpos) hhdr]
  dsimp only
  rw [clear_busy hsize, writeHdr_ok _ (rb.index_place hpos)]
  rfl

/-- The kernel takes a committed record as a whole. -/
theorem kernelConsume_eq (hpos : rb.consumerPos.toNat % 8 = 0) (hsize : size.toNat < 2 ^ 30)
    {discard : Bool} (hhdr : rb.words[rb.slot rb.consumerPos]? = some (commitWord size discard)) :
    kernelConsume rb = .ok ()
      { rb with consumerPos := rb.consumerPos + BitVec.ofNat 64 (recordBytes size) } := by
  unfold kernelConsume
  rw [run_bind, run_get]
  dsimp only
  rw [run_bind, rb.and_mask, readHdr_ok (rb.index_place hpos) hhdr]
  dsimp only
  rw [run_bind, failIf, if_neg (by rw [busy_commitWord hsize]; decide), liftRes_ok]
  dsimp only
  rw [roundupLen_eq, commitWord_mod hsize]
  rfl

/-- A busy record is not taken. -/
theorem kernelConsume_busy {rb' : UserRing} (hpos : rb.consumerPos.toNat % 8 = 0)
    (hhdr : rb.words[rb.slot rb.consumerPos]? = some (size ||| BPF_RINGBUF_BUSY_BIT)) :
    kernelConsume rb ≠ .ok () rb' := by
  unfold kernelConsume
  rw [run_bind, run_get]
  dsimp only
  rw [run_bind, rb.and_mask, readHdr_ok (rb.index_place hpos) hhdr]
  dsimp only
  rw [failIf, if_pos (busy_reserved size)]
  intro h
  cases h

end

-- ======== the runs

/-- A record the kernel has not taken: where it was reserved, for how many
bytes, the pointer the program got, and how it was committed, if it was. -/
structure Reservation where
  pos : BitVec 64
  size : BitVec 32
  sample : BitVec 64
  commit : Option Bool

/-- The header word of a record. -/
def Reservation.header (r : Reservation) : BitVec 32 :=
  match r.commit with
  | none => r.size ||| BPF_RINGBUF_BUSY_BIT
  | some discard => commitWord r.size discard

/-- One call of the program, or the kernel taking a record. -/
inductive UserStep : UserRing × List Reservation → UserRing × List Reservation → Prop where
  | reserved {rb rb' : UserRing} {live : List Reservation} {size : BitVec 32}
      {sample : BitVec 64} (h : userRingBufferReserve size rb = .ok sample rb') :
      UserStep (rb, live) (rb', live ++ [⟨rb.producerPos, size, sample, none⟩])
  | refused {rb rb' : UserRing} {live : List Reservation} {size : BitVec 32} {e : Stop}
      (h : userRingBufferReserve size rb = .error e rb') : UserStep (rb, live) (rb', live)
  | submitted {rb rb' : UserRing} {pre post : List Reservation} {r : Reservation}
      (hout : r.commit = none) (h : userRingBufferSubmit r.sample rb = .ok () rb') :
      UserStep (rb, pre ++ r :: post) (rb', pre ++ { r with commit := some false } :: post)
  | discarded {rb rb' : UserRing} {pre post : List Reservation} {r : Reservation}
      (hout : r.commit = none) (h : userRingBufferDiscard r.sample rb = .ok () rb') :
      UserStep (rb, pre ++ r :: post) (rb', pre ++ { r with commit := some true } :: post)
  | consumed {rb rb' : UserRing} {r : Reservation} {live : List Reservation}
      (h : kernelConsume rb = .ok () rb') : UserStep (rb, r :: live) (rb', live)

/-- The bytes records take. -/
def totalBytes (live : List Reservation) : Nat :=
  (live.map fun r => recordBytes r.size).sum

/-- Two records have no byte of the ring in common. -/
def UserRing.Apart (rb : UserRing) (r s : Reservation) : Prop :=
  ∀ x < recordBytes r.size, ∀ y < recordBytes s.size,
    (r.pos.toNat + x) % rb.size ≠ (s.pos.toNat + y) % rb.size

/-- Records that lie one after the other from `pos` on. -/
def LaidOut : BitVec 64 → List Reservation → Prop
  | _, [] => True
  | pos, r :: rs => r.pos = pos ∧ LaidOut (pos + BitVec.ofNat 64 (recordBytes r.size)) rs

section

variable {pos : BitVec 64} {live : List Reservation}

@[simp] theorem totalBytes_nil : totalBytes [] = 0 := rfl

@[simp] theorem totalBytes_cons (r : Reservation) (live : List Reservation) :
    totalBytes (r :: live) = recordBytes r.size + totalBytes live := by
  simp [totalBytes]

@[simp] theorem totalBytes_append (l m : List Reservation) :
    totalBytes (l ++ m) = totalBytes l + totalBytes m := by
  simp [totalBytes]

theorem pos_add_add (pos : BitVec 64) (a b : Nat) :
    pos + BitVec.ofNat 64 a + BitVec.ofNat 64 b = pos + BitVec.ofNat 64 (a + b) := by
  rw [BitVec.add_assoc, BitVec.ofNat_add]

theorem laidOut_append {l m : List Reservation} :
    LaidOut pos (l ++ m) ↔ LaidOut pos l ∧ LaidOut (pos + BitVec.ofNat 64 (totalBytes l)) m := by
  induction l generalizing pos with
  | nil => simp [LaidOut]
  | cons r l ih =>
    rw [cons_append, LaidOut, LaidOut, ih, totalBytes_cons, pos_add_add, and_assoc]

/-- Where a record is among those laid out. -/
theorem LaidOut.mem (h : LaidOut pos live) {r : Reservation} (hr : r ∈ live) :
    ∃ off, r.pos = pos + BitVec.ofNat 64 off ∧ off % 8 = 0
      ∧ off + recordBytes r.size ≤ totalBytes live := by
  induction live generalizing pos with
  | nil => cases hr
  | cons s live ih =>
    rw [totalBytes_cons]
    rcases mem_cons.mp hr with rfl | hr
    · refine ⟨0, ?_, rfl, by omega⟩
      rw [h.1]
      exact (BitVec.add_zero pos).symm
    · obtain ⟨off, hpos, hmod, hle⟩ := ih h.2 hr
      have := recordBytes_mod s.size
      exact ⟨recordBytes s.size + off, by rw [hpos, pos_add_add], by omega, by omega⟩

theorem LaidOut.aligned (h : LaidOut pos live) (hpos : pos.toNat % 8 = 0) {r : Reservation}
    (hr : r ∈ live) : r.pos.toNat % 8 = 0 := by
  obtain ⟨off, hoff, hmod, -⟩ := h.mem hr
  have hadd := toNat_add_mod (k := 3) pos off (by decide)
  rw [hoff]
  omega

/-- Records in one round of the ring do not overlap. -/
theorem LaidOut.pairwise (rb : UserRing) (h : LaidOut pos live)
    (hfits : totalBytes live ≤ rb.size) : live.Pairwise rb.Apart := by
  induction live generalizing pos with
  | nil => exact List.Pairwise.nil
  | cons r live ih =>
    rw [totalBytes_cons] at hfits
    refine List.Pairwise.cons (fun s hs x hx y hy => ?_) (ih h.2 (by omega))
    obtain ⟨off, hoff, -, hle⟩ := h.2.mem hs
    -- both places, counted from the position of the first record
    have hplace : (s.pos.toNat + y) % rb.size
        = (pos.toNat + (recordBytes r.size + off) + y) % rb.size := by
      rw [hoff, pos_add_add, Nat.add_mod, ← UserRing.place, rb.place_add, ← Nat.add_mod]
    rw [h.1, hplace]
    exact arc_ne (by omega) (by omega) hx hy

theorem UserRing.Apart.place_ne {rb : UserRing} {r s : Reservation} (h : rb.Apart r s) :
    rb.place r.pos ≠ rb.place s.pos :=
  h 0 (by have := recordBytes_pos r.size; omega) 0 (by have := recordBytes_pos s.size; omega)

end

/-- A record is as its reservation and its commit left it. -/
structure UserRing.Holds (rb : UserRing) (r : Reservation) : Prop where
  small : r.size.toNat < 2 ^ 30
  sample : r.sample = (r.pos + BitVec.ofNat 64 BPF_RINGBUF_HDR_SZ) &&& rb.mask
  header : rb.words[rb.slot r.pos]? = some r.header

/-- The ring and the records that the kernel has not taken. -/
structure UserInv (rb : UserRing) (live : List Reservation) : Prop where
  aligned : rb.consumerPos.toNat % 8 = 0
  laid : LaidOut rb.consumerPos live
  ends : rb.producerPos = rb.consumerPos + BitVec.ofNat 64 (totalBytes live)
  fits : totalBytes live ≤ rb.size
  holds : ∀ r ∈ live, rb.Holds r

theorem totalBytes_mod (live : List Reservation) : totalBytes live % 8 = 0 := by
  induction live with
  | nil => rfl
  | cons r live ih =>
    have := recordBytes_mod r.size
    rw [totalBytes_cons]
    omega

namespace UserInv

variable {rb : UserRing} {live pre post : List Reservation} {r : Reservation}

theorem uses (h : UserInv rb live) : rb.Uses (totalBytes live) where
  aligned := by
    have hadd := toNat_add_mod (k := 3) rb.consumerPos (totalBytes live) (by decide)
    have := totalBytes_mod live
    have := h.aligned
    rw [h.ends]
    omega
  ends := h.ends
  fits := h.fits

theorem pairwise (h : UserInv rb live) : live.Pairwise rb.Apart := h.laid.pairwise rb h.fits

/-- An empty ring. -/
theorem start (hempty : rb.producerPos = rb.consumerPos)
    (haligned : rb.consumerPos.toNat % 8 = 0) : UserInv rb [] where
  aligned := haligned
  laid := trivial
  ends := by rw [hempty]; exact (BitVec.add_zero _).symm
  fits := Nat.zero_le _
  holds := fun r hr => by cases hr

/-- A reservation writes behind the records there are. -/
theorem reserve {size : BitVec 32} (h : UserInv rb live) (hsize : size.toNat < 2 ^ 30)
    (hfits : totalBytes live + recordBytes size ≤ rb.size) :
    UserInv (rb.reserve size) (live ++ [⟨rb.producerPos, size,
      (rb.producerPos + BitVec.ofNat 64 BPF_RINGBUF_HDR_SZ) &&& rb.mask, none⟩]) := by
  have hslot := rb.slot_lt h.uses.aligned
  have hlaid : LaidOut rb.consumerPos (live ++ [⟨rb.producerPos, size,
      (rb.producerPos + BitVec.ofNat 64 BPF_RINGBUF_HDR_SZ) &&& rb.mask, none⟩]) :=
    laidOut_append.mpr ⟨h.laid, h.ends, trivial⟩
  have hsame : (rb.reserve size).size = rb.size := by
    rw [UserRing.reserve, UserRing.size]
    simp [UserRing.size]
  have hslots : ∀ pos, (rb.reserve size).slot pos = rb.slot pos := fun pos => by
    rw [UserRing.slot, UserRing.slot, UserRing.place, UserRing.place, hsame]
  have hapart := hlaid.pairwise rb (by simpa using hfits)
  rw [pairwise_append] at hapart
  refine ⟨h.aligned, hlaid, ?_, by rw [hsame]; simpa using hfits, fun r hr => ?_⟩
  · show rb.producerPos + BitVec.ofNat 64 (recordBytes size) = _
    rw [h.ends, pos_add_add, totalBytes_append, totalBytes_cons, totalBytes_nil]
    rfl
  · rcases mem_append.mp hr with hr | hr
    · have hold := h.holds r hr
      have hne := rb.slot_ne (h.laid.aligned h.aligned hr) h.uses.aligned
        (hapart.2.2 r hr _ (mem_singleton_self _)).place_ne
      refine ⟨hold.small, hold.sample, ?_⟩
      rw [hslots]
      show ((rb.words.set _ _).set _ _)[_]? = _
      rw [getElem?_set_ne hne.2.symm, getElem?_set_ne hne.1.symm]
      exact hold.header
    · cases mem_singleton.mp hr
      refine ⟨hsize, rfl, ?_⟩
      rw [hslots]
      dsimp only
      show ((rb.words.set _ _).set _ _)[_]? = _
      rw [getElem?_set_ne (by omega), getElem?_set_self (by omega)]
      rfl

/-- A commit of an outstanding sample. -/
theorem commit_eq (h : UserInv rb live) (hr : r ∈ live) (hout : r.commit = none)
    (discard : Bool) : userRingbufCommit r.sample discard rb
      = .ok () (rb.store (rb.slot r.pos) (commitWord r.size discard)) := by
  have hold := h.holds r hr
  have hheader := hold.header
  rw [Reservation.header, hout] at hheader
  rw [hold.sample]
  exact userRingbufCommit_eq (h.laid.aligned h.aligned hr) hold.small hheader discard

/-- A commit writes the header of its own record. -/
theorem commit (h : UserInv rb (pre ++ r :: post)) (discard : Bool) :
    UserInv (rb.store (rb.slot r.pos) (commitWord r.size discard))
      (pre ++ { r with commit := some discard } :: post) := by
  have hmem : r ∈ pre ++ r :: post := by simp
  have hslot := rb.slot_lt (h.laid.aligned h.aligned hmem)
  have hpairs := h.pairwise
  rw [pairwise_append, pairwise_cons] at hpairs
  obtain ⟨-, ⟨hpost, -⟩, hpre⟩ := hpairs
  -- a record other than this one keeps its header
  have hother : ∀ s ∈ pre ++ r :: post, rb.place s.pos ≠ rb.place r.pos →
      (rb.store (rb.slot r.pos) (commitWord r.size discard)).Holds s := by
    intro s hs hplace
    have hold := h.holds s hs
    have hne := rb.slot_ne (h.laid.aligned h.aligned hs) (h.laid.aligned h.aligned hmem) hplace
    refine ⟨hold.small, hold.sample, ?_⟩
    rw [UserRing.store_slot, UserRing.store_words, getElem?_set_ne hne.1.symm]
    exact hold.header
  obtain ⟨hlaid, hpos, htail⟩ := laidOut_append.mp h.laid
  refine ⟨h.aligned, laidOut_append.mpr ⟨hlaid, hpos, htail⟩, ?_, ?_, fun s hs => ?_⟩
  · simpa using h.ends
  · simpa using h.fits
  · rcases mem_append.mp hs with hs | hs
    · exact hother s (mem_append_left _ hs) (hpre s hs r (mem_cons_self ..)).place_ne
    rcases mem_cons.mp hs with rfl | hs
    · have hold := h.holds r hmem
      refine ⟨hold.small, hold.sample, ?_⟩
      rw [UserRing.store_slot, UserRing.store_words, getElem?_set_self (by omega)]
      rfl
    · exact hother s (by simp [hs]) (hpost s hs).place_ne.symm

/-- The kernel takes the oldest record, which is committed. -/
theorem consume {rb' : UserRing} (h : UserInv rb (r :: live))
    (hrun : kernelConsume rb = .ok () rb') : UserInv rb' live := by
  have hold := h.holds r (mem_cons_self ..)
  have hpos : r.pos = rb.consumerPos := h.laid.1
  have hheader := hold.header
  rw [Reservation.header, hpos] at hheader
  cases hcommit : r.commit with
  | none =>
    rw [hcommit] at hheader
    exact absurd hrun (kernelConsume_busy h.aligned hheader)
  | some discard =>
    rw [hcommit] at hheader
    rw [kernelConsume_eq h.aligned hold.small hheader] at hrun
    cases hrun
    have hends := h.ends
    have hfits := h.fits
    have hadd := toNat_add_mod (k := 3) rb.consumerPos (recordBytes r.size) (by decide)
    have hmod := recordBytes_mod r.size
    have hcons := h.aligned
    refine ⟨?_, h.laid.2, ?_, ?_, fun s hs => ?_⟩
    · show (rb.consumerPos + BitVec.ofNat 64 (recordBytes r.size)).toNat % 8 = 0
      omega
    · rw [pos_add_add]
      exact hends
    · exact Nat.le_trans (Nat.le_add_left ..) hfits
    · have hs := h.holds s (mem_cons_of_mem _ hs)
      exact ⟨hs.small, hs.sample, hs.header⟩

theorem step {s s' : UserRing × List Reservation} (h : UserInv s.1 s.2)
    (hstep : UserStep s s') : UserInv s'.1 s'.2 := by
  cases hstep with
  | @reserved rb rb' live size sample hrun =>
    rw [userRingBufferReserve_eq h.uses] at hrun
    split_ifs at hrun with hbig hroom
    cases hrun
    exact h.reserve (by omega) (by omega)
  | @refused rb rb' live size e hrun =>
    rw [userRingBufferReserve_eq h.uses] at hrun
    split_ifs at hrun
    · cases hrun; exact h
    · cases hrun; exact h
  | @submitted rb rb' pre post r hout hrun =>
    rw [userRingBufferSubmit, h.commit_eq (by simp) hout] at hrun
    cases hrun
    exact h.commit false
  | @discarded rb rb' pre post r hout hrun =>
    rw [userRingBufferDiscard, h.commit_eq (by simp) hout] at hrun
    cases hrun
    exact h.commit true
  | consumed hrun => exact h.consume hrun

theorem run {s s' : UserRing × List Reservation} (h : UserInv s.1 s.2)
    (hrun : Relation.ReflTransGen UserStep s s') : UserInv s'.1 s'.2 := by
  induction hrun with
  | refl => exact h
  | tail _ hstep ih => exact ih.step hstep

end UserInv

/-- A reservation is refused, and the ring is as it was. -/
def Refused (size : BitVec 32) (rb : UserRing) : Prop :=
  userRingBufferReserve size rb = .error (.err (-E2BIG)) rb
    ∨ userRingBufferReserve size rb = .error (.err (-ENOSPC)) rb

theorem UserInv.refused_iff {rb : UserRing} {live : List Reservation} (h : UserInv rb live)
    (size : BitVec 32) :
    Refused size rb ↔ 2 ^ 30 ≤ size.toNat ∨ rb.size < totalBytes live + recordBytes size := by
  rw [Refused, userRingBufferReserve_eq h.uses]
  split_ifs with hbig hroom
  · simp only [true_or, true_iff]
    omega
  · simp only [or_true, true_iff]
    omega
  · simp only [or_self, false_iff]
    omega

/-- Whatever was reserved, committed and taken, in whatever order: the
records that are not taken share no byte and fit in the ring; a reservation
is refused exactly when its record does not fit next to them or its size
needs the flag bits, and otherwise its header is written at the producer
position; and the commit of an outstanding sample turns the busy word of its
own header into its length, with the discard bit if it is discarded, and
writes nothing else. -/
theorem user_ring_exclusive {start rb : UserRing} {live : List Reservation}
    (hempty : start.producerPos = start.consumerPos) (haligned : start.consumerPos.toNat % 8 = 0)
    (hrun : Relation.ReflTransGen UserStep (start, []) (rb, live)) :
    live.Pairwise rb.Apart ∧ totalBytes live ≤ rb.size ∧ (∀ size, (Refused size rb
            ↔ 2 ^ 30 ≤ size.toNat ∨ rb.size < totalBytes live + recordBytes size)
          ∧ (¬ Refused size rb → userRingBufferReserve size rb
            = .ok ((rb.producerPos + BitVec.ofNat 64 BPF_RINGBUF_HDR_SZ) &&& rb.mask)
              (rb.reserve size)))
      ∧ ∀ r ∈ live, r.commit = none →
          rb.words[rb.slot r.pos]? = some (r.size ||| BPF_RINGBUF_BUSY_BIT)
          ∧ ∀ discard, userRingbufCommit r.sample discard rb
            = .ok () (rb.store (rb.slot r.pos) (commitWord r.size discard)) := by
  have h : UserInv rb live := (UserInv.start hempty haligned).run hrun
  refine ⟨h.pairwise, h.fits, fun size => ⟨h.refused_iff size, fun hok => ?_⟩,
    fun r hr hout => ⟨?_, h.commit_eq hr hout⟩⟩
  · rw [h.refused_iff] at hok
    rw [userRingBufferReserve_eq h.uses, if_neg (by omega), if_neg (by omega)]
  · have hheader := (h.holds r hr).header
    rwa [Reservation.header, hout] at hheader

/-- A ring of `2 ^ k` zero bytes with nothing in it. -/
def UserRing.blank (k : Nat) (hk : 12 ≤ k ∧ k ≤ 31) (pos : BitVec 64) : UserRing where
  words := List.replicate (2 ^ (k - 2)) 0
  consumerPos := pos
  producerPos := pos
  mask := BitVec.ofNat 64 (2 ^ k - 1)
  sized := ⟨k, hk.1, hk.2, by
    rw [length_replicate, ← Nat.pow_add 2 2, Nat.add_sub_cancel' (by omega)], rfl⟩

theorem UserRing.blank_size (k : Nat) (hk : 12 ≤ k ∧ k ≤ 31) (pos : BitVec 64) :
    (blank k hk pos).size = 2 ^ k := by
  rw [size, blank, length_replicate, ← Nat.pow_add 2 2, Nat.add_sub_cancel' (by omega)]

/-- A page whose next header is its last eight bytes. -/
private def lastHeader : UserRing := .blank 12 (by decide) 4088

/-- A sample at the beginning of the ring, whose header is at its end. -/
theorem user_ring_exclusive_wraps : ∃ rb, userRingBufferReserve 100 lastHeader = .ok 0 rb
      ∧ rb.words[1022]? = some 0x80000064#32
      ∧ userRingbufCommit 0 true rb = .ok () (rb.store 1022 0x40000064#32)
      ∧ Refused 3977 rb := by
  have hempty : lastHeader.producerPos = lastHeader.consumerPos := rfl
  have haligned : lastHeader.consumerPos.toNat % 8 = 0 := rfl
  have h := user_ring_exclusive hempty haligned .refl
  have hsize : lastHeader.size = 4096 := UserRing.blank_size 12 (by decide) 4088
  have hfirst := (h.2.2.1 100).2 (by rw [(h.2.2.1 100).1, hsize]; decide)
  have hrun : Relation.ReflTransGen UserStep (lastHeader, [])
      (lastHeader.reserve 100, [⟨4088, 100, 0, none⟩]) :=
    .single (.reserved hfirst)
  have h' := user_ring_exclusive hempty haligned hrun
  have hlive := h'.2.2.2 _ (mem_singleton_self _) rfl
  have hslot : (lastHeader.reserve 100).slot 4088 = 1022 := by decide +kernel
  rw [hslot] at hlive
  have hroom : (lastHeader.reserve 100).size < totalBytes [⟨4088, 100, 0, none⟩]
      + recordBytes 3977 := by decide +kernel
  exact ⟨lastHeader.reserve 100, hfirst, hlive.1, hlive.2 true,
    (h'.2.2.1 3977).1.mpr (Or.inr hroom)⟩

/-- An empty ring of two gigabytes. -/
private def twoGigabytes : UserRing := .blank 31 (by decide) 0

/-- A record of one gigabyte fits, but its size cannot stand next to the
flags. -/
theorem reserve_gigabyte_refused : twoGigabytes.size = 2 ^ 31
      ∧ twoGigabytes.producerPos = twoGigabytes.consumerPos
      ∧ recordBytes 0x40000000#32 ≤ 2 ^ 31
      ∧ userRingBufferReserve 0x40000000#32 twoGigabytes = .error (.err (-E2BIG)) twoGigabytes := by
  have hinv : UserInv twoGigabytes [] := .start rfl rfl
  refine ⟨UserRing.blank_size 31 (by decide) 0, rfl, by decide, ?_⟩
  rw [userRingBufferReserve_eq hinv.uses, if_pos (Or.inl (by decide))]

end Libbpf
