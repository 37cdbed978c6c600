/-
Consuming ring buffers.

A `struct ring` is its data pages, two positions and a callback. The kernel
writes records at the producer position, each with a header word that holds
the length and, in its top two bits, whether the record is still busy or
was discarded; the library reads them at the consumer position and moves
it on. The data pages are mapped twice in a row, so that a record that
wraps around the end can be handed out in one piece; `Ring.bytes` is a read
from that mapping.

The callback is the user's code: it takes the sample, returns an `int` and
may change the user's state. What it was called with is kept in a list, with
the map the sample came from. Memory does not change while a call runs, and
different rings are different maps.

The loops have no bound of their own, so they take one; `fuel` is what they
stop with when it was too small.
-/
import Libbpf.Lib.Circular
import Libbpf.Lib.Run

namespace Libbpf

open Lib

/-- `BPF_RINGBUF_HDR_SZ`. -/
def BPF_RINGBUF_HDR_SZ : Nat := 8

def INT_MAX : Nat := 2 ^ 31 - 1

/-- `struct ring`. The context of the callback is part of the callback. -/
structure Ring (σ : Type) where
  sampleCb : σ → Bytes → Int × σ
  /-- The data pages, once. -/
  data : Bytes
  consumerPos : BitVec 64
  producerPos : BitVec 64
  mask : BitVec 64
  mapFd : Int
  /-- The size is a power of two, and the mask is for it. -/
  sized : ∃ k < 64, data.length = 2 ^ k ∧ mask = BitVec.ofNat 64 (2 ^ k - 1)

variable {σ : Type}

/-- Read `len` bytes at `r->data + off`. -/
def Ring.bytes (r : Ring σ) (off len : Nat) : Option Bytes :=
  if off + len ≤ (r.data ++ r.data).length then some (slice (r.data ++ r.data) off len)
  else none

/-- `len & BPF_RINGBUF_BUSY_BIT`. -/
def ringbufBusy (len : Nat) : Bool := len.testBit 31

/-- `len & BPF_RINGBUF_DISCARD_BIT`. -/
def ringbufDiscard (len : Nat) : Bool := len.testBit 30

/-- `roundup_len`. -/
def roundupLen (len : Nat) : Nat :=
  -- clear out the top 2 bits
  let len := (len <<< 2) % 2 ^ 32
  let len := len >>> 2
  let len := len + BPF_RINGBUF_HDR_SZ
  (len + 7) / 8 * 8

/-- A ring under way: the ring, the user's state, and the calls made. -/
structure Reading (σ : Type) where
  ring : Ring σ
  user : σ
  calls : List (Int × Bytes)

/-- `smp_store_release(r->consumer_pos, pos)`. -/
def Reading.storeConsumer (s : Reading σ) (pos : BitVec 64) : Reading σ :=
  { s with ring := { s.ring with consumerPos := pos } }

/-- `r->sample_cb(r->ctx, sample, len)`. -/
def Reading.call (s : Reading σ) (sample : Bytes) : Int × Reading σ :=
  ((s.ring.sampleCb s.user sample).1, { s with
      user := (s.ring.sampleCb s.user sample).2
      calls := s.calls ++ [(s.ring.mapFd, sample)] })

/-- How the inner loop of `ringbuf_process_ring` is left. -/
inductive WhileEnd where
  /-- `goto done`. -/
  | done (cnt : Nat)
  /-- `return err`. -/
  | failed (err : Int)
  /-- There is no more data. -/
  | drained (consPos : BitVec 64) (cnt : Nat) (gotNewData : Bool)
deriving DecidableEq

/-- The inner loop of `ringbuf_process_ring`. -/
def ringbufWhile (host : ByteOrder) (n : BitVec 64) : Nat → BitVec 64 → Nat → Bool →
    Reading σ → Res (WhileEnd × Reading σ)
  | 0, _, _, _, _ => .error .fuel
  | fuel + 1, consPos, cnt, gotNewData, s =>
    if s.ring.producerPos - consPos > 0 then do
      let off := (consPos &&& s.ring.mask).toNat
      let len := rdU32 host (← deref (s.ring.bytes off 4))
      if ringbufBusy len then return (.done cnt, s)
      let consPos := consPos + BitVec.ofNat 64 (roundupLen len)
      if !ringbufDiscard len then
        let sample ← deref (s.ring.bytes (off + BPF_RINGBUF_HDR_SZ) len)
        let (err, s) := s.call sample
        if err < 0 then return (.failed err, s.storeConsumer consPos)
        let s := s.storeConsumer consPos
        if cnt + 1 ≥ n.toNat then return (.done (cnt + 1), s)
        ringbufWhile host n fuel consPos (cnt + 1) true s
      else
        let s := s.storeConsumer consPos
        if cnt ≥ n.toNat then return (.done cnt, s)
        ringbufWhile host n fuel consPos cnt true s
    else .ok (.drained consPos cnt gotNewData, s)

/-- The outer loop of `ringbuf_process_ring`. -/
def ringbufProcessFrom (host : ByteOrder) (n : BitVec 64) : Nat → BitVec 64 → Nat →
    Reading σ → Res (Int × Reading σ)
  | 0, _, _, _ => .error .fuel
  | fuel + 1, consPos, cnt, s => do
    let (how, s) ← ringbufWhile host n (fuel + 1) consPos cnt false s
    match how with
    | .done cnt => return (cnt, s)
    | .failed err => return (err, s)
    | .drained consPos cnt gotNewData =>
      if gotNewData then ringbufProcessFrom host n fuel consPos cnt s
      else return (cnt, s)

/-- `ringbuf_process_ring`. -/
def ringbufProcessRing (host : ByteOrder) (n : BitVec 64) (fuel : Nat) (s : Reading σ) :
    Res (Int × Reading σ) :=
  ringbufProcessFrom host n fuel s.ring.consumerPos 0 s

/-- What a call leaves. -/
structure Consumption (σ : Type) where
  ret : Int
  rings : List (Ring σ)
  user : σ
  calls : List (Int × Bytes)

/-- `res > INT_MAX ? INT_MAX : res`. -/
def capIntMax (res : Int) : Int := if res > INT_MAX then INT_MAX else res

/-- The loop of `ring_buffer__consume_n` over the rings. -/
def ringBufferConsumeFrom (host : ByteOrder) (fuel : Nat) : List (Ring σ) → BitVec 64 →
    Int → σ → List (Int × Bytes) → Res (Consumption σ)
  | [], _, res, user, calls => .ok ⟨capIntMax res, [], user, calls⟩
  | r :: rs, n, res, user, calls => do
    let (err, s) ← ringbufProcessRing host n fuel ⟨r, user, calls⟩
    if err < 0 then return ⟨err, s.ring :: rs, s.user, s.calls⟩
    let res := res + err
    let n := n - BitVec.ofInt 64 err
    if n = 0 then return ⟨capIntMax res, s.ring :: rs, s.user, s.calls⟩
    let out ← ringBufferConsumeFrom host fuel rs n res s.user s.calls
    return { out with rings := s.ring :: out.rings }

/-- `ring_buffer__consume_n`. -/
def ringBufferConsumeN (host : ByteOrder) (rings : List (Ring σ)) (n : BitVec 64)
    (user : σ) (fuel : Nat) : Res (Consumption σ) :=
  ringBufferConsumeFrom host fuel rings n 0 user []

/-- `ring__consume_n`. -/
def ringConsumeN (host : ByteOrder) (r : Ring σ) (n : BitVec 64) (user : σ) (fuel : Nat) :
    Res (Consumption σ) := do
  let (res, s) ← ringbufProcessRing host n fuel ⟨r, user, []⟩
  if res < 0 then return ⟨res, [s.ring], s.user, s.calls⟩
  return ⟨capIntMax res, [s.ring], s.user, s.calls⟩

/-- `ring__consume`. -/
def ringConsume (host : ByteOrder) (r : Ring σ) (user : σ) (fuel : Nat) : Res (Consumption σ) :=
  ringConsumeN host r (BitVec.ofNat 64 INT_MAX) user fuel

end Libbpf
