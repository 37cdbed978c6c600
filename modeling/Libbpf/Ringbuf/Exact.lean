/-
Which records a call consumes.

The range between a ring's positions is tiled by records (`Tiled`). What
the library does on it is a walk over these records (`walk`): past the
discarded ones, handing out the samples, to the first busy record, to the
limit or to a callback that fails. `ringbufProcessRing_walk` says that the
loops over memory are this walk, with the consumer position after the
records it has taken; everything else is about lists.

A walk whose limit is at least one hands out what is due and no more
(`walk_spec`). The limit is looked at only after a record was taken, so
with a limit of zero one record is taken all the same, and over several
rings the limit then wraps around to its largest value. With that case
apart, and the return value being an `int`, a call is exact
(`consumeN_exact_iff`).
-/
import Libbpf.Ringbuf.Consume
import Mathlib.Data.List.Forall2

namespace Libbpf

open Lib List

variable {pos : BitVec 64} {lim : Nat}

variable {σ : Type}

-- ======== the records

/-- A record: its header word and the bytes after the header. -/
structure RingRecord where
  word : Nat
  data : Bytes
deriving DecidableEq

namespace RingRecord

/-- The producer has not committed it yet. -/
def busy (rec : RingRecord) : Bool := ringbufBusy rec.word

def discarded (rec : RingRecord) : Bool := ringbufDiscard rec.word

/-- What it takes of the ring. -/
def size (rec : RingRecord) : Nat := roundupLen rec.word

end RingRecord

/-- The range from `pos` to the producer position is tiled by `recs`. -/
inductive Tiled (host : ByteOrder) (r : Ring σ) : BitVec 64 → List RingRecord → Prop
  | nil : Tiled host r r.producerPos []
  | cons {pos : BitVec 64} {rec : RingRecord} {recs : List RingRecord} (hne : pos ≠ r.producerPos)
      (hword : rec.word = rdU32 host (ringSlice r.data pos.toNat 4))
      (hdata : rec.data = ringSlice r.data (pos.toNat + BPF_RINGBUF_HDR_SZ) (rec.word % 2 ^ 30))
      (hfit : rec.size ≤ r.data.length)
      (h : Tiled host r (pos + BitVec.ofNat 64 rec.size) recs) :
      Tiled host r pos (rec :: recs)

/-- The records before the first busy one. -/
def committed (recs : List RingRecord) : List RingRecord := recs.takeWhile (!·.busy)

/-- The samples among records. -/
def samples (recs : List RingRecord) : List Bytes :=
  (recs.filter (!·.discarded)).map (·.data)

/-- The bytes of a ring that records take. -/
def span (recs : List RingRecord) : Nat := (recs.map (·.size)).sum

theorem roundupLen_eq (len : Nat) : roundupLen len = (len % 2 ^ 30 + 15) / 8 * 8 := by
  have hclear : ((len <<< 2) % 2 ^ 32) >>> 2 = len % 2 ^ 30 := by
    omega
  unfold roundupLen
  dsimp only
  rw [hclear, BPF_RINGBUF_HDR_SZ]

/-- The length of a sample has its top bits clear. -/
theorem lt_of_committed {w : Nat} (hw : w < 2 ^ 32) (hb : ringbufBusy w = false)
    (hd : ringbufDiscard w = false) : w < 2 ^ 30 := by
  unfold ringbufBusy at hb
  unfold ringbufDiscard at hd
  rw [Nat.testBit_eq_decide_div_mod_eq, decide_eq_false_iff_not] at hb hd
  omega

-- ======== memory

section

variable {host : ByteOrder} {r : Ring σ}

/-- A read at a position's place gives the ring's bytes there. -/
theorem Ring.bytes_pos (pos : BitVec 64) {k len : Nat} (h : k + len ≤ r.data.length) :
    r.bytes ((pos &&& r.mask).toNat + k) len = some (ringSlice r.data (pos.toNat + k) len) := by
  obtain ⟨e, he, hsize, hmask⟩ := r.sized
  have hplace : (pos &&& r.mask).toNat = pos.toNat % r.data.length := by
    rw [hmask, toNat_and_mask pos (Nat.le_of_lt he), hsize]
  have hlt : pos.toNat % r.data.length < r.data.length := by
    refine Nat.mod_lt _ ?_
    rw [hsize]
    exact Nat.two_pow_pos e
  have hin : (pos &&& r.mask).toNat + k + len ≤ (r.data ++ r.data).length := by
    rw [length_append]
    omega
  rw [Ring.bytes, if_pos hin, slice_double hin, hplace]
  refine congrArg some (ringSlice_congr len ?_)
  rw [Nat.mod_add_mod]

/-- The loop goes on while the positions differ. -/
theorem pos_sub_gt_zero {a b : BitVec 64} : a - b > 0 ↔ b ≠ a := by
  bv_omega

end

-- ======== the walk

/-- How a walk over records ends. -/
inductive WalkEnd where
  /-- At a busy record or at the limit. -/
  | done (cnt : Nat)
  /-- At a callback that failed. -/
  | failed (err : Int)
  /-- At the end of the records. -/
  | drained (cnt : Nat)
deriving DecidableEq

/-- The `int64_t` that is returned. -/
def WalkEnd.ret : WalkEnd → Int
  | .done cnt => cnt
  | .failed err => err
  | .drained cnt => cnt

/-- The records taken, the samples handed out, the user's state and the end. -/
structure Walk (σ : Type) where
  taken : List RingRecord
  fed : List Bytes
  user : σ
  how : WalkEnd

/-- A record before a walk. -/
def Walk.after (w : Walk σ) (rec : RingRecord) (fed : List Bytes) : Walk σ :=
  { w with taken := rec :: w.taken, fed := fed ++ w.fed }

/-- What `ringbuf_process_ring` does, over records in place of memory. -/
def walk (cb : σ → Bytes → Int × σ) (n : Nat) : List RingRecord → Nat → σ → Walk σ
  | [], cnt, u => ⟨[], [], u, .drained cnt⟩
  | rec :: recs, cnt, u =>
    if rec.busy then ⟨[], [], u, .done cnt⟩
    else if rec.discarded then
      if n ≤ cnt then ⟨[rec], [], u, .done cnt⟩
      else (walk cb n recs cnt u).after rec []
    else if (cb u rec.data).1 < 0 then
      ⟨[rec], [rec.data], (cb u rec.data).2, .failed (cb u rec.data).1⟩
    else if n ≤ cnt + 1 then ⟨[rec], [rec.data], (cb u rec.data).2, .done (cnt + 1)⟩
    else (walk cb n recs (cnt + 1) (cb u rec.data).2).after rec [rec.data]

/-- A ring after a walk. -/
def Ring.advance (r : Ring σ) (recs : List RingRecord) : Ring σ :=
  { r with consumerPos := r.consumerPos + BitVec.ofNat 64 (span recs) }

/-- What a walk leaves of a reading. -/
def Reading.walked (s : Reading σ) (w : Walk σ) : Reading σ where
  ring := s.ring.advance w.taken
  user := w.user
  calls := s.calls ++ w.fed.map (s.ring.mapFd, ·)

/-- The end of the inner loop for the end of a walk that started at `pos`. -/
def WalkEnd.toWhile (pos : BitVec 64) (got : Bool) : WalkEnd → WhileEnd
  | .done cnt => .done cnt
  | .failed err => .failed err
  | .drained cnt => .drained pos cnt got

section

variable {host : ByteOrder} {n : BitVec 64}

/-- The ring, apart from its consumer position, is all that tiling is about. -/
theorem Tiled.store {r : Ring σ} {recs : List RingRecord}
    (h : Tiled host r pos recs) (p : BitVec 64) :
    Tiled host { r with consumerPos := p } pos recs := by
  induction h with
  | nil => exact Tiled.nil (r := { r with consumerPos := p })
  | cons hne hword hdata hfit _ ih => exact .cons hne hword hdata hfit ih

theorem Tiled.end_eq {r : Ring σ} (h : Tiled host r pos []) : pos = r.producerPos := by
  cases h
  rfl

/-- What is known of the first record. -/
theorem Tiled.first {r : Ring σ} {rec : RingRecord}
    {recs : List RingRecord} (h : Tiled host r pos (rec :: recs)) :
    pos ≠ r.producerPos ∧ rec.word = rdU32 host (ringSlice r.data pos.toNat 4)
      ∧ rec.data = ringSlice r.data (pos.toNat + BPF_RINGBUF_HDR_SZ) (rec.word % 2 ^ 30)
      ∧ rec.size ≤ r.data.length ∧ Tiled host r (pos + BitVec.ofNat 64 rec.size) recs := by
  cases h with
  | cons hne hword hdata hfit h => exact ⟨hne, hword, hdata, hfit, h⟩

theorem span_cons (rec : RingRecord) (recs : List RingRecord) :
    span (rec :: recs) = rec.size + span recs := by
  rfl

theorem Reading.walked_nil (s : Reading σ) (how : WalkEnd) :
    s.walked ⟨[], [], s.user, how⟩ = s := by
  have hpos : s.ring.consumerPos + BitVec.ofNat 64 (span []) = s.ring.consumerPos :=
    BitVec.add_zero _
  rw [Reading.walked, Ring.advance, hpos, map_nil, append_nil]

/-- A reading with a record taken and its sample, if there is one, handed out. -/
def Reading.took (s : Reading σ) (rec : RingRecord) (user : σ) (fed : List Bytes) : Reading σ where
  ring := { s.ring with consumerPos := s.ring.consumerPos + BitVec.ofNat 64 rec.size }
  user := user
  calls := s.calls ++ fed.map (s.ring.mapFd, ·)

/-- Taking one record, then walking on. -/
theorem Reading.took_walked (s : Reading σ) (rec : RingRecord) (user : σ)
    (fed : List Bytes) (w : Walk σ) :
    (s.took rec user fed).walked w = s.walked (w.after rec fed) := by
  dsimp only [Reading.walked, Walk.after, Ring.advance, Reading.took]
  rw [span_cons, BitVec.ofNat_add, BitVec.add_assoc, map_append, append_assoc]

theorem Reading.walked_one (s : Reading σ) (rec : RingRecord) (user : σ)
    (fed : List Bytes) (how : WalkEnd) :
    s.walked ⟨[rec], fed, user, how⟩ = s.took rec user fed := by
  have h := s.took_walked rec user fed ⟨[], [], user, how⟩
  rw [Walk.after, append_nil] at h
  rw [← h]
  exact (s.took rec user fed).walked_nil how

/-- The inner loop is the walk. -/
theorem ringbufWhile_walk (recs : List RingRecord) : ∀ (fuel cnt : Nat) (got : Bool)
    (s : Reading σ), Tiled host s.ring s.ring.consumerPos recs → recs.length < fuel →
    ringbufWhile host n fuel s.ring.consumerPos cnt got s
      = .ok ((walk s.ring.sampleCb n.toNat recs cnt s.user).how.toWhile
            s.ring.producerPos (got || !recs.isEmpty),
          s.walked (walk s.ring.sampleCb n.toNat recs cnt s.user)) := by
  induction recs with
  | nil =>
    intro fuel cnt got s h hfuel
    obtain ⟨fuel, rfl⟩ : ∃ k, fuel = k + 1 := ⟨fuel - 1, by omega⟩
    have hpos := h.end_eq
    rw [ringbufWhile, if_neg (by rw [pos_sub_gt_zero]; exact not_not_intro hpos), walk,
      Reading.walked_nil, hpos]
    simp [WalkEnd.toWhile]
  | cons rec recs ih =>
    intro fuel cnt got s h hfuel
    obtain ⟨fuel, rfl⟩ : ∃ k, fuel = k + 1 := ⟨fuel - 1, by omega⟩
    rw [length_cons] at hfuel
    obtain ⟨hne, hword, hdata, hfit, hrest⟩ := h.first
    have hsize : rec.size = (rec.word % 2 ^ 30 + 15) / 8 * 8 := roundupLen_eq rec.word
    have hlt : rec.word < 2 ^ 32 := by
      rw [hword]
      exact rdU32_lt _ _
    have hhdr : s.ring.bytes (s.ring.consumerPos &&& s.ring.mask).toNat 4
        = some (ringSlice s.ring.data s.ring.consumerPos.toNat 4) := by
      have h4 : 0 + 4 ≤ s.ring.data.length := by omega
      have := Ring.bytes_pos s.ring.consumerPos h4
      rwa [Nat.add_zero, Nat.add_zero] at this
    -- the rest of the loop, from the state with the record taken
    have hgo : ∀ (cnt' : Nat) (user : σ) (fed : List Bytes),
        ringbufWhile host n fuel (s.ring.consumerPos + BitVec.ofNat 64 rec.size) cnt' true
            (s.took rec user fed)
          = .ok ((walk s.ring.sampleCb n.toNat recs cnt' user).how.toWhile s.ring.producerPos true,
            s.walked ((walk s.ring.sampleCb n.toNat recs cnt' user).after rec fed)) := by
      intro cnt' user fed
      rw [← s.took_walked rec user fed]
      exact ih fuel cnt' true (s.took rec user fed) (hrest.store _) (by omega)
    rw [ringbufWhile, if_pos (pos_sub_gt_zero.mpr hne)]
    dsimp only
    rw [hhdr]
    dsimp only [deref, bind, Except.bind]
    rw [← hword, walk]
    change (if rec.busy = true then _ else _) = _
    by_cases hbusy : rec.busy = true
    · rw [if_pos hbusy, if_pos hbusy, Reading.walked_nil]
      rfl
    rw [if_neg hbusy, if_neg hbusy]
    change (if (!rec.discarded) = true then _ else _) = _
    by_cases hdisc : rec.discarded = true
    · have hstore : s.storeConsumer (s.ring.consumerPos + BitVec.ofNat 64 rec.size)
          = s.took rec s.user [] := by
        rw [Reading.took, map_nil, append_nil]
        rfl
      rw [if_neg (by simp [hdisc]), if_pos hdisc]
      by_cases hlim : n.toNat ≤ cnt
      · rw [if_pos hlim, if_pos hlim, Reading.walked_one, ← hstore]
        rfl
      rw [if_neg hlim, if_neg hlim]
      have := hgo cnt s.user []
      rw [← hstore] at this
      refine this.trans ?_
      simp [Walk.after]
    · have hword30 : rec.word < 2 ^ 30 :=
        lt_of_committed hlt (Bool.not_eq_true _ ▸ hbusy) (Bool.not_eq_true _ ▸ hdisc)
      have hsample : s.ring.bytes ((s.ring.consumerPos &&& s.ring.mask).toNat
          + BPF_RINGBUF_HDR_SZ) rec.word = some rec.data := by
        have hin : BPF_RINGBUF_HDR_SZ + rec.word ≤ s.ring.data.length := by
          unfold BPF_RINGBUF_HDR_SZ
          omega
        rw [Ring.bytes_pos _ hin, hdata, Nat.mod_eq_of_lt hword30]
      have hstore : (s.call rec.data).2.storeConsumer
          (s.ring.consumerPos + BitVec.ofNat 64 rec.size)
          = s.took rec (s.ring.sampleCb s.user rec.data).2 [rec.data] := rfl
      rw [if_pos (by simp [hdisc]), if_neg hdisc, hsample]
      dsimp only
      change (if (s.ring.sampleCb s.user rec.data).1 < 0 then _ else _) = _
      by_cases hneg : (s.ring.sampleCb s.user rec.data).1 < 0
      · rw [if_pos hneg, if_pos hneg, Reading.walked_one, ← hstore]
        rfl
      rw [if_neg hneg, if_neg hneg]
      change (if n.toNat ≤ cnt + 1 then _ else _) = _
      by_cases hlim : n.toNat ≤ cnt + 1
      · rw [if_pos hlim, if_pos hlim, Reading.walked_one, ← hstore]
        rfl
      · rw [if_neg hlim, if_neg hlim]
        refine (hgo (cnt + 1) (s.ring.sampleCb s.user rec.data).2 [rec.data]).trans ?_
        simp [Walk.after]

theorem Tiled.end_pos {r : Ring σ} {recs : List RingRecord}
    (h : Tiled host r pos recs) : pos + BitVec.ofNat 64 (span recs) = r.producerPos := by
  induction h with
  | nil => exact BitVec.add_zero _
  | cons _ _ _ _ _ ih =>
    rw [span_cons, BitVec.ofNat_add, ← BitVec.add_assoc]
    exact ih

/-- A walk that is drained has taken everything. -/
theorem walk_drained {cb : σ → Bytes → Int × σ} {c : Nat} (recs : List RingRecord) :
    ∀ {cnt : Nat} {u : σ}, (walk cb lim recs cnt u).how = .drained c →
      (walk cb lim recs cnt u).taken = recs := by
  induction recs with
  | nil => intro cnt u _; rfl
  | cons rec recs ih =>
    intro cnt u h
    rw [walk] at h ⊢
    by_cases hbusy : rec.busy = true
    · rw [if_pos hbusy] at h
      cases h
    rw [if_neg hbusy] at h ⊢
    by_cases hdisc : rec.discarded = true
    · rw [if_pos hdisc] at h ⊢
      by_cases hlim : lim ≤ cnt
      · rw [if_pos hlim] at h
        cases h
      · rw [if_neg hlim] at h ⊢
        exact congrArg (rec :: ·) (ih h)
    rw [if_neg hdisc] at h ⊢
    by_cases hneg : (cb u rec.data).1 < 0
    · rw [if_pos hneg] at h
      cases h
    rw [if_neg hneg] at h ⊢
    by_cases hlim : lim ≤ cnt + 1
    · rw [if_pos hlim] at h
      cases h
    · rw [if_neg hlim] at h ⊢
      exact congrArg (rec :: ·) (ih h)

/-- Processing a ring is the walk over its records. -/
theorem ringbufProcessRing_walk {recs : List RingRecord} {fuel : Nat} {s : Reading σ}
    (h : Tiled host s.ring s.ring.consumerPos recs) (hfuel : recs.length + 1 < fuel) :
    ringbufProcessRing host n fuel s = .ok ((walk s.ring.sampleCb n.toNat recs 0 s.user).how.ret,
          s.walked (walk s.ring.sampleCb n.toNat recs 0 s.user)) := by
  obtain ⟨fuel, rfl⟩ : ∃ k, fuel = k + 2 := ⟨fuel - 2, by omega⟩
  rw [ringbufProcessRing, ringbufProcessFrom, ringbufWhile_walk recs _ 0 false s h (by omega)]
  dsimp only [bind, Except.bind]
  cases hhow : (walk s.ring.sampleCb n.toNat recs 0 s.user).how with
  | done cnt => rfl
  | failed err => rfl
  | drained cnt =>
    dsimp only [WalkEnd.toWhile]
    split
    · -- a second round finds nothing new
      have hpos : (s.walked (walk s.ring.sampleCb n.toNat recs 0 s.user)).ring.consumerPos
          = s.ring.producerPos := by
        rw [Reading.walked, Ring.advance, walk_drained recs hhow]
        exact h.end_pos
      have hend : Tiled host (s.walked (walk s.ring.sampleCb n.toNat recs 0 s.user)).ring
          (s.walked (walk s.ring.sampleCb n.toNat recs 0 s.user)).ring.consumerPos [] := by
        rw [hpos]
        exact .nil
      have hround := ringbufWhile_walk (n := n) [] (fuel + 1) cnt false _ hend (Nat.succ_pos fuel)
      rw [walk, Reading.walked_nil, hpos] at hround
      rw [ringbufProcessFrom, hround]
      rfl
    · rfl

end

-- ======== what is handed out

/-- What became of the samples handed to callbacks. -/
structure Delivery (σ : Type) where
  calls : List (Int × Bytes)
  user : σ
  /-- The value of the callback that failed. -/
  stop : Option Int

/-- Hand samples to the callbacks of their rings, up to the first that fails. -/
def deliver : List (Ring σ × Bytes) → σ → Delivery σ
  | [], u => ⟨[], u, none⟩
  | (r, d) :: rest, u =>
    if (r.sampleCb u d).1 < 0 then
      ⟨[(r.mapFd, d)], (r.sampleCb u d).2, some (r.sampleCb u d).1⟩
    else
      { deliver rest (r.sampleCb u d).2 with
        calls := (r.mapFd, d) :: (deliver rest (r.sampleCb u d).2).calls }

/-- The samples of the records of several rings, in ring order. -/
def handed : List (Ring σ) → List (List RingRecord) → List (Ring σ × Bytes)
  | r :: rs, recs :: recss => (samples recs).map (r, ·) ++ handed rs recss
  | _, _ => []

/-- How calls are recorded. -/
def recorded (l : List (Ring σ × Bytes)) : List (Int × Bytes) :=
  l.map fun x => (x.1.mapFd, x.2)

/-- A callback that fails ends the delivery. -/
theorem deliver_append_failed {a : List (Ring σ × Bytes)} (b : List (Ring σ × Bytes))
    {u : σ} (h : (deliver a u).stop.isSome = true) : deliver (a ++ b) u = deliver a u := by
  induction a generalizing u with
  | nil => cases h
  | cons x a ih =>
    obtain ⟨r, d⟩ := x
    rw [cons_append, deliver, deliver]
    rw [deliver] at h
    by_cases hneg : (r.sampleCb u d).1 < 0
    · rw [if_pos hneg, if_pos hneg]
    · rw [if_neg hneg] at h
      rw [if_neg hneg, if_neg hneg, ih h]

/-- Without one, the second part of a list is delivered after the first. -/
theorem deliver_append {a : List (Ring σ × Bytes)} (b : List (Ring σ × Bytes)) {u u' : σ}
    {calls : List (Int × Bytes)} (h : deliver a u = ⟨calls, u', none⟩) :
    deliver (a ++ b) u
      = ⟨calls ++ (deliver b u').calls, (deliver b u').user, (deliver b u').stop⟩ := by
  induction a generalizing u calls with
  | nil =>
    cases h
    rfl
  | cons x a ih =>
    obtain ⟨r, d⟩ := x
    rw [deliver] at h
    by_cases hneg : (r.sampleCb u d).1 < 0
    · rw [if_pos hneg] at h
      cases h
    rw [if_neg hneg] at h
    obtain ⟨hcalls, hrest⟩ := Delivery.mk.inj h
    obtain ⟨huser, hstop⟩ := hrest
    have hd : deliver a (r.sampleCb u d).2 = ⟨(deliver a (r.sampleCb u d).2).calls, u', none⟩ := by
      rw [← huser, ← hstop]
    rw [cons_append, deliver, if_neg hneg, ih hd, ← hcalls]
    rfl

theorem deliver_all {l : List (Ring σ × Bytes)} {u : σ} (h : (deliver l u).stop = none) :
    (deliver l u).calls = recorded l := by
  induction l generalizing u with
  | nil => rfl
  | cons x l ih =>
    obtain ⟨r, d⟩ := x
    rw [deliver] at h ⊢
    split at h
    · cases h
    · next hneg =>
        rw [if_neg hneg]
        exact congrArg ((r.mapFd, d) :: ·) (ih h)

/-- What is known of a walk below its limit: it takes committed records and
hands out their samples, which are those that are due. -/
structure WalkSpec (r : Ring σ) (lim : Nat) (recs : List RingRecord) (cnt : Nat) (u : σ)
    (w : Walk σ) : Prop where
  inside : w.taken <+: committed recs
  fed : w.fed = samples w.taken
  due : deliver (((samples (committed recs)).take (lim - cnt)).map (r, ·)) u
    = ⟨w.fed.map (r.mapFd, ·), w.user, match w.how with
        | .failed err => some err
        | _ => none⟩
  drained : ∀ c, w.how = .drained c → c = cnt + w.fed.length
  done : ∀ c, w.how = .done c → c = cnt + w.fed.length
  failed : ∀ err, w.how = .failed err → err < 0
    ∧ ∃ rec, w.taken.getLast? = some rec ∧ rec.discarded = false

section

variable {rec : RingRecord} {recs : List RingRecord}

theorem committed_busy (h : rec.busy = true) : committed (rec :: recs) = [] := by
  rw [committed, takeWhile_cons_of_neg (by simp [h])]

theorem committed_cons (h : ¬ rec.busy = true) :
    committed (rec :: recs) = rec :: committed recs := by
  rw [committed, takeWhile_cons_of_pos (by simp [h])]
  rfl

theorem samples_discarded (h : rec.discarded = true) : samples (rec :: recs) = samples recs := by
  rw [samples, filter_cons_of_neg (by simp [h])]
  rfl

theorem samples_cons (h : ¬ rec.discarded = true) :
    samples (rec :: recs) = rec.data :: samples recs := by
  rw [samples, filter_cons_of_pos (by simp [h])]
  rfl

theorem getLast?_cons_of_some {α : Type} {a b : α} {l : List α}
    (h : l.getLast? = some b) : (a :: l).getLast? = some b := by
  rw [getLast?_cons, h]
  rfl

end

/-- A walk below its limit. By induction on the records; the limit is
reached by a sample, since only samples count. -/
theorem walk_spec (r : Ring σ) (recs : List RingRecord) : ∀ (cnt : Nat) (u : σ),
    cnt < lim → WalkSpec r lim recs cnt u (walk r.sampleCb lim recs cnt u) := by
  induction recs with
  | nil =>
    intro cnt u _
    refine ⟨prefix_refl _, rfl, ?_, fun c hc => ?_, fun c hc => ?_, fun e he => ?_⟩
    · rw [committed, takeWhile_nil, samples, filter_nil, map_nil, take_nil]
      rfl
    · cases hc
      rfl
    · cases hc
    · cases he
  | cons rec recs ih =>
    intro cnt u hlim
    rw [walk]
    by_cases hbusy : rec.busy = true
    · rw [if_pos hbusy]
      refine ⟨ nil_prefix, rfl, ?_, fun c hc => ?_, fun c hc => ?_, fun e he => ?_⟩
      · rw [committed_busy hbusy, samples, filter_nil, map_nil, take_nil]
        rfl
      · cases hc
      · cases hc
        rfl
      · cases he
    rw [if_neg hbusy]
    by_cases hdisc : rec.discarded = true
    · obtain ⟨hcom, hfed, hdue, hdrained, hdone, hfailed⟩ := ih cnt u hlim
      rw [if_pos hdisc, if_neg (by omega)]
      refine ⟨?_, ?_, ?_, fun c hc => ?_, fun c hc => ?_, fun e he => ?_⟩
      · rw [committed_cons hbusy]
        exact cons_prefix_cons.mpr ⟨rfl, hcom⟩
      · rw [Walk.after, samples_discarded hdisc, ← hfed]
        rfl
      · rw [committed_cons hbusy, samples_discarded hdisc]
        exact hdue
      · exact hdrained c hc
      · exact hdone c hc
      · obtain ⟨hneg, last, hlast, hsample⟩ := hfailed e he
        exact ⟨hneg, last, getLast?_cons_of_some hlast, hsample⟩
    rw [if_neg hdisc]
    have hdue : (samples (committed (rec :: recs))).take (lim - cnt)
        = rec.data :: (samples (committed recs)).take (lim - (cnt + 1)) := by
      have hk : lim - cnt = lim - (cnt + 1) + 1 := by omega
      rw [committed_cons hbusy, samples_cons hdisc, hk, take_succ_cons]
    have hone : samples [rec] = [rec.data] := samples_cons hdisc
    have hfirst : [rec] <+: committed (rec :: recs) := by
      rw [committed_cons hbusy]
      exact cons_prefix_cons.mpr ⟨rfl, nil_prefix⟩
    by_cases hneg : (r.sampleCb u rec.data).1 < 0
    · rw [if_pos hneg]
      refine ⟨hfirst, hone.symm, ?_, fun c hc => ?_, fun c hc => ?_, fun e he => ?_⟩
      · rw [hdue, map_cons, deliver, if_pos hneg]
        rfl
      · cases hc
      · cases hc
      · cases he
        exact ⟨hneg, rec, rfl, by simpa using hdisc⟩
    rw [if_neg hneg]
    by_cases hlast : lim ≤ cnt + 1
    · rw [if_pos hlast]
      refine ⟨hfirst, hone.symm, ?_, fun c hc => ?_, fun c hc => ?_, fun e he => ?_⟩
      · have hk : lim - (cnt + 1) = 0 := by omega
        rw [hdue, hk, map_cons, deliver, if_neg hneg]
        rfl
      · cases hc
      · cases hc
        rfl
      · cases he
    · obtain ⟨hcom, hfed, hnext, hdrained, hdone, hfailed⟩ :=
        ih (cnt + 1) (r.sampleCb u rec.data).2 (by omega)
      rw [if_neg hlast]
      refine ⟨?_, ?_, ?_, fun c hc => ?_, fun c hc => ?_, fun e he => ?_⟩
      · rw [committed_cons hbusy]
        exact cons_prefix_cons.mpr ⟨rfl, hcom⟩
      · rw [Walk.after, samples_cons hdisc, ← hfed]
        rfl
      · rw [hdue, map_cons, deliver, if_neg hneg, hnext]
        rfl
      · rw [hdrained c hc, Walk.after, length_append, length_singleton]
        omega
      · rw [hdone c hc, Walk.after, length_append, length_singleton]
        omega
      · obtain ⟨hlt, last, hl, hsample⟩ := hfailed e he
        exact ⟨hlt, last, getLast?_cons_of_some hl, hsample⟩

/-- A walk fails, or its value counts what it handed out. -/
theorem WalkSpec.ends {r : Ring σ} {recs : List RingRecord} {u : σ} {w : Walk σ}
    (h : WalkSpec r lim recs 0 u w) :
    (∃ err, w.how = .failed err ∧ deliver (((samples (committed recs)).take lim).map (r, ·)) u
        = ⟨w.fed.map (r.mapFd, ·), w.user, some err⟩)
    ∨ w.how.ret = (w.fed.length : Int)
      ∧ deliver (((samples (committed recs)).take lim).map (r, ·)) u
        = ⟨w.fed.map (r.mapFd, ·), w.user, none⟩
      ∧ w.fed.length = min lim (samples (committed recs)).length := by
  have hdue := h.due
  rw [Nat.sub_zero] at hdue
  -- all that is due was handed out if nothing failed
  have hcount : (deliver (((samples (committed recs)).take lim).map (r, ·)) u).stop = none →
      w.fed.length = min lim (samples (committed recs)).length := by
    intro hstop
    have hcalls := congrArg List.length (deliver_all hstop)
    rw [hdue, recorded, length_map, length_map, length_map, length_take] at hcalls
    exact hcalls
  cases hhow : w.how with
  | failed err =>
    rw [hhow] at hdue
    exact .inl ⟨err, rfl, hdue⟩
  | done c =>
    rw [hhow] at hdue
    have hc := h.done c hhow
    rw [Nat.zero_add] at hc
    exact .inr ⟨congrArg Int.ofNat hc, hdue, hcount (by rw [hdue])⟩
  | drained c =>
    rw [hhow] at hdue
    have hc := h.drained c hhow
    rw [Nat.zero_add] at hc
    exact .inr ⟨congrArg Int.ofNat hc, hdue, hcount (by rw [hdue])⟩

-- ======== several rings

/-- Nothing is taken of any of the rings. -/
def untouched (rings : List (Ring σ)) : List (List RingRecord) := rings.map fun _ => []

theorem Ring.advance_nil (r : Ring σ) : r.advance [] = r := by
  have hpos : r.consumerPos + BitVec.ofNat 64 (span []) = r.consumerPos := BitVec.add_zero _
  rw [Ring.advance, hpos]

theorem zipWith_untouched (rings : List (Ring σ)) :
    List.zipWith Ring.advance rings (untouched rings) = rings := by
  induction rings with
  | nil => rfl
  | cons r rs ih =>
    rw [untouched, map_cons, zipWith_cons_cons, r.advance_nil]
    exact congrArg (r :: ·) ih

theorem handed_untouched (rings : List (Ring σ)) : handed rings (untouched rings) = [] := by
  induction rings with
  | nil => rfl
  | cons r rs ih =>
    exact ih

theorem flatten_untouched (rings : List (Ring σ)) : (untouched rings).flatten = [] := by
  induction rings with
  | nil => rfl
  | cons r rs ih =>
    exact ih

/-- Of each ring, records before its first busy one. -/
def Taken (pres recss : List (List RingRecord)) : Prop :=
  List.Forall₂ (fun pre recs => pre <+: committed recs) pres recss

theorem taken_untouched {host : ByteOrder} {rings : List (Ring σ)} {recss : List (List RingRecord)}
    (h : List.Forall₂ (fun r recs => Tiled host r r.consumerPos recs) rings recss) :
    Taken (untouched rings) recss := by
  induction h with
  | nil => exact .nil
  | cons _ _ ih => exact .cons nil_prefix ih

/-- The samples that are due: the first `n` of those before the busy records. -/
def due (rings : List (Ring σ)) (recss : List (List RingRecord)) (n : Nat) :
    List (Ring σ × Bytes) :=
  (handed rings (recss.map committed)).take n

/-- The records a call took: what it took them from, that their samples are
the calls made, and that a callback that fails ends it. -/
structure Took (rings : List (Ring σ)) (recss pres : List (List RingRecord))
    (d : Delivery σ) : Prop where
  taken : Taken pres recss
  calls : d.calls = recorded (handed rings pres)
  last : d.stop.isSome = true → ∃ rec, pres.flatten.getLast? = some rec ∧ rec.discarded = false

theorem recorded_map (r : Ring σ) (l : List Bytes) :
    recorded (l.map (r, ·)) = l.map (r.mapFd, ·) := by
  rw [recorded, map_map]
  rfl

/-- The first ring of several, when the others are not touched. -/
theorem Took.first {host : ByteOrder} {r : Ring σ} {rs : List (Ring σ)}
    {recs : List RingRecord} {recss : List (List RingRecord)} {w : Walk σ} {stop : Option Int}
    (hrest : List.Forall₂ (fun r recs => Tiled host r r.consumerPos recs) rs recss)
    (hcom : w.taken <+: committed recs) (hfed : w.fed = samples w.taken)
    (hlast : stop.isSome = true → ∃ rec, w.taken.getLast? = some rec ∧ rec.discarded = false) :
    Took (r :: rs) (recs :: recss) (w.taken :: untouched rs)
      ⟨w.fed.map (r.mapFd, ·), w.user, stop⟩ := by
  refine ⟨.cons hcom (taken_untouched hrest), ?_, ?_⟩
  · rw [handed, handed_untouched, append_nil, recorded_map, hfed]
  · rw [flatten_cons, flatten_untouched, append_nil]
    exact hlast

/-- The loop over the rings, with a limit of at least one. -/
theorem consumeFrom_spec {host : ByteOrder} {fuel : Nat} {rings : List (Ring σ)}
    {recss : List (List RingRecord)}
    (h : List.Forall₂ (fun r recs => Tiled host r r.consumerPos recs) rings recss) :
    ∀ (n : BitVec 64) (res : Int) (u : σ) (calls : List (Int × Bytes)),
      (∀ recs ∈ recss, recs.length + 1 < fuel) → n ≠ 0 →
      ∃ pres, Took rings recss pres (deliver (due rings recss n.toNat) u)
        ∧ ringBufferConsumeFrom host fuel rings n res u calls
          = .ok ⟨match (deliver (due rings recss n.toNat) u).stop with
                | some err => err
                | none => capIntMax (res + (deliver (due rings recss n.toNat) u).calls.length),
              List.zipWith Ring.advance rings pres,
              (deliver (due rings recss n.toNat) u).user,
              calls ++ (deliver (due rings recss n.toNat) u).calls⟩ := by
  induction h with
  | nil =>
    intro n res u calls _ _
    refine ⟨[], ⟨.nil, ?_, fun hs => ?_⟩, ?_⟩
    · simp [due, handed, deliver, recorded]
    · simp [due, handed, deliver] at hs
    · simp [due, handed, deliver, ringBufferConsumeFrom]
  | @cons r recs rs recss htiled hrest ih =>
    intro n res u calls hfuel hn
    have hpos : 0 < n.toNat := by
      rw [Nat.pos_iff_ne_zero]
      exact fun h0 => hn (BitVec.eq_of_toNat_eq h0)
    have hspec := walk_spec r recs 0 u hpos
    have hproc := ringbufProcessRing_walk (n := n) (s := ⟨r, u, calls⟩) htiled
      (hfuel recs mem_cons_self)
    dsimp only at hproc
    generalize hw : walk r.sampleCb n.toNat recs 0 u = w at hspec hproc
    have hdue : due (r :: rs) (recs :: recss) n.toNat
        = ((samples (committed recs)).take n.toNat).map (r, ·)
          ++ due rs recss (n.toNat - (samples (committed recs)).length) := by
      rw [due, due, map_cons, handed, take_append, length_map, map_take]
    rw [ringBufferConsumeFrom, hproc]
    dsimp only [bind, Except.bind]
    rw [hdue]
    rcases hspec.ends with ⟨err, hhow, hd⟩ | ⟨hret, hd, hcount⟩
    · -- the callback failed
      obtain ⟨hneg, hlast⟩ := hspec.failed err hhow
      rw [deliver_append_failed _ (by rw [hd]; rfl), hd]
      refine ⟨w.taken :: untouched rs, Took.first hrest hspec.inside hspec.fed fun _ => hlast, ?_⟩
      rw [hhow, WalkEnd.ret, if_pos hneg, zipWith_cons_cons, zipWith_untouched]
      rfl
    · -- the limit is counted down by what was handed out
      have hle : w.fed.length ≤ n.toNat := by omega
      have hlimit : (n - BitVec.ofInt 64 w.how.ret).toNat = n.toNat - w.fed.length := by
        have hlt := n.isLt
        rw [hret, BitVec.ofInt_natCast, BitVec.toNat_sub, BitVec.toNat_ofNat,
          Nat.mod_eq_of_lt (by omega : w.fed.length < 2 ^ 64)]
        omega
      rw [deliver_append _ hd, if_neg (by rw [hret]; omega)]
      dsimp only
      by_cases hzero : n - BitVec.ofInt 64 w.how.ret = 0
      · have hnone : due rs recss (n.toNat - (samples (committed recs)).length) = [] := by
          have h0 : (0 : BitVec 64).toNat = 0 := rfl
          rw [hzero, h0] at hlimit
          rw [due, take_eq_nil_iff]
          exact .inl (by omega)
        rw [if_pos hzero, hnone, deliver, append_nil]
        refine ⟨w.taken :: untouched rs,
          Took.first hrest hspec.inside hspec.fed Bool.noConfusion, ?_⟩
        rw [zipWith_cons_cons, zipWith_untouched, hret, length_map]
        rfl
      · have hmore : w.fed.length = (samples (committed recs)).length := by
          have : (n - BitVec.ofInt 64 w.how.ret).toNat ≠ 0 :=
            fun h0 => hzero (BitVec.eq_of_toNat_eq h0)
          omega
        obtain ⟨pres, htook, hrun⟩ := ih (n - BitVec.ofInt 64 w.how.ret)
          (res + w.how.ret) w.user (calls ++ w.fed.map (r.mapFd, ·))
          (fun recs hrecs => hfuel recs (mem_cons_of_mem _ hrecs)) hzero
        rw [hlimit, hmore] at htook hrun
        refine ⟨w.taken :: pres, ⟨.cons hspec.inside htook.taken, ?_, ?_⟩, ?_⟩
        · rw [htook.calls, handed, recorded, recorded, map_append, hspec.fed]
          exact congrArg (· ++ _) (recorded_map r _).symm
        · intro hstop
          obtain ⟨rec, hlast, hsample⟩ := htook.last hstop
          refine ⟨rec, ?_, hsample⟩
          rw [flatten_cons, getLast?_append, hlast]
          rfl
        · rw [if_neg hzero]
          dsimp only [Reading.walked]
          rw [hrun]
          dsimp only
          rw [zipWith_cons_cons, length_append, length_map, Int.natCast_add,
            ← Int.add_assoc, hret, append_assoc]
          rfl

-- ======== a limit of zero

section

variable {host : ByteOrder} {fuel : Nat} {r : Ring σ} {rs : List (Ring σ)}
  {recs : List RingRecord} {rec : RingRecord} {u : σ}

/-- A walk with a limit of zero takes a first record that is discarded. -/
theorem walk_zero (cb : σ → Bytes → Int × σ)
    (hfirst : ∀ rec ∈ recs.head?, rec.busy = true ∨ rec.discarded = true) :
    ∃ pre how, walk cb 0 recs 0 u = ⟨pre, [], u, how⟩ ∧ how.ret = 0
      ∧ pre <+: committed recs ∧ samples pre = [] := by
  cases recs with
  | nil => exact ⟨[], .drained 0, rfl, rfl, nil_prefix, rfl⟩
  | cons rec recs =>
    rw [walk]
    by_cases hbusy : rec.busy = true
    · rw [if_pos hbusy]
      exact ⟨[], .done 0, rfl, rfl, nil_prefix, rfl⟩
    have hdisc : rec.discarded = true := (hfirst rec rfl).resolve_left hbusy
    rw [if_neg hbusy, if_pos hdisc, if_pos (Nat.le_refl 0)]
    refine ⟨[rec], .done 0, rfl, rfl, ?_, samples_discarded hdisc⟩
    rw [committed_cons hbusy]
    exact cons_prefix_cons.mpr ⟨rfl, nil_prefix⟩

/-- A walk with a limit of zero hands out a first record that is a sample. -/
theorem walk_zero_sample (cb : σ → Bytes → Int × σ) (recs : List RingRecord)
    (hbusy : ¬ rec.busy = true) (hdisc : ¬ rec.discarded = true) :
    ∃ how, walk cb 0 (rec :: recs) 0 u = ⟨[rec], [rec.data], (cb u rec.data).2, how⟩
      ∧ (how.ret < 0 ∨ how.ret = 1) := by
  rw [walk, if_neg hbusy, if_neg hdisc]
  by_cases hneg : (cb u rec.data).1 < 0
  · rw [if_pos hneg]
    exact ⟨_, rfl, .inl hneg⟩
  · rw [if_neg hneg, if_pos (Nat.zero_le _)]
    exact ⟨_, rfl, .inr rfl⟩

/-- With a limit of zero nothing happens unless the first record of the
first ring is a sample. -/
theorem consumeFrom_zero (rs : List (Ring σ)) (h : Tiled host r r.consumerPos recs)
    (hfuel : recs.length + 1 < fuel)
    (hfirst : ∀ rec ∈ recs.head?, rec.busy = true ∨ rec.discarded = true) :
    ∃ pre, pre <+: committed recs ∧ samples pre = []
      ∧ ringBufferConsumeFrom host fuel (r :: rs) 0 0 u []
        = .ok ⟨0, r.advance pre :: rs, u, []⟩ := by
  obtain ⟨pre, how, hwalk, hret, hpre, hsamples⟩ :=
    walk_zero (u := u) r.sampleCb hfirst
  have hproc := ringbufProcessRing_walk (n := 0) (s := ⟨r, u, []⟩) h hfuel
  have h0 : (0 : BitVec 64).toNat = 0 := rfl
  dsimp only at hproc
  rw [h0, hwalk, hret] at hproc
  refine ⟨pre, hpre, hsamples, ?_⟩
  rw [ringBufferConsumeFrom, hproc]
  rfl

/-- If it is one, it is handed out. -/
theorem consumeFrom_zero_sample {recss : List (List RingRecord)}
    (h : List.Forall₂ (fun r recs => Tiled host r r.consumerPos recs) (r :: rs)
      ((rec :: recs) :: recss))
    (hfuel : ∀ recs' ∈ (rec :: recs) :: recss, recs'.length + 1 < fuel)
    (hbusy : ¬ rec.busy = true) (hdisc : ¬ rec.discarded = true) :
    ∃ out, ringBufferConsumeFrom host fuel (r :: rs) 0 0 u [] = .ok out ∧ out.calls ≠ [] := by
  obtain ⟨htiled, hrest⟩ := List.forall₂_cons.mp h
  obtain ⟨how, hwalk, hret⟩ :=
    walk_zero_sample (u := u) r.sampleCb recs hbusy hdisc
  have hproc := ringbufProcessRing_walk (n := 0) (s := ⟨r, u, []⟩) htiled (hfuel _ mem_cons_self)
  have h0 : (0 : BitVec 64).toNat = 0 := rfl
  rw [h0, hwalk] at hproc
  rw [ringBufferConsumeFrom, hproc]
  dsimp only [bind, Except.bind]
  rcases hret with hneg | hone
  · rw [if_pos hneg]
    exact ⟨_, rfl, cons_ne_nil _ _⟩
  -- the limit wraps around, and the other rings are read to their ends
  rw [hone]
  obtain ⟨pres, -, hrun⟩ := consumeFrom_spec hrest (0 - BitVec.ofInt 64 1) (0 + 1)
    (r.sampleCb u rec.data).2 [(r.mapFd, rec.data)]
    (fun recs' hrecs' => hfuel recs' (mem_cons_of_mem _ hrecs')) (by decide)
  dsimp only [Reading.walked]
  rw [nil_append, map_singleton, hrun]
  exact ⟨_, rfl, cons_ne_nil _ _⟩

end

-- ======== the result

/-- A call that consumes exactly what it should: the callbacks are given the
first `n` samples before the busy records, in ring order, each once, up to
one that fails; the number of them or the value of the one that failed is
returned; and every ring's position is after records that were taken, which
are not busy, of which the samples were handed out, and of which the one
that failed is the last. -/
structure ExactlyConsumed (rings : List (Ring σ)) (recss : List (List RingRecord)) (n : Nat)
    (u : σ) (out : Consumption σ) : Prop where
  calls : out.calls = (deliver (due rings recss n) u).calls
  user : out.user = (deliver (due rings recss n) u).user
  ret : out.ret = match (deliver (due rings recss n) u).stop with
    | some err => err
    | none => ((due rings recss n).length : Int)
  places : ∃ pres, Took rings recss pres (deliver (due rings recss n) u)
    ∧ out.rings = List.zipWith Ring.advance rings pres

/-- What a call needs to be exact: with a limit of zero, the first ring does
not start with a sample; and the number to be returned is an `int`. -/
structure Countable (rings : List (Ring σ)) (recss : List (List RingRecord)) (n : Nat)
    (u : σ) : Prop where
  limit : n = 0 → ∀ recs ∈ recss.head?, ∀ rec ∈ recs.head?, rec.busy = true ∨ rec.discarded = true
  fits : (deliver (due rings recss n) u).stop = none → (due rings recss n).length ≤ INT_MAX

theorem capIntMax_eq_iff (k : Nat) : capIntMax (k : Int) = (k : Int) ↔ k ≤ INT_MAX := by
  unfold capIntMax
  split
  · next h =>
      omega
  · next h =>
      omega

theorem delivered_length {l : List (Ring σ × Bytes)} {u : σ}
    (h : (deliver l u).stop = none) : (deliver l u).calls.length = l.length := by
  rw [deliver_all h, recorded, length_map]

section

variable {host : ByteOrder} {fuel : Nat} {rings : List (Ring σ)}
  {recss : List (List RingRecord)}

/-- With a limit of zero. -/
theorem ringBufferConsumeN_zero
    (h : List.Forall₂ (fun r recs => Tiled host r r.consumerPos recs) rings recss)
    (hfuel : ∀ recs ∈ recss, recs.length + 1 < fuel) (u : σ) :
    ∃ out, ringBufferConsumeN host rings 0 u fuel = .ok out
      ∧ (ExactlyConsumed rings recss 0 u out ↔ Countable rings recss 0 u) := by
  have hdue : due rings recss 0 = [] := take_zero
  have hfits : (deliver (due rings recss 0) u).stop = none →
      (due rings recss 0).length ≤ INT_MAX := by
    intro _
    rw [hdue]
    exact Nat.zero_le _
  cases h with
  | nil =>
    refine ⟨⟨0, [], u, []⟩, rfl, fun _ => ⟨fun _ recs hrecs => ?_, hfits⟩,
      fun _ => ⟨rfl, rfl, rfl, [], ⟨.nil, rfl, Bool.noConfusion⟩, rfl⟩⟩
    cases hrecs
  | @cons r recs rs recss htiled hrest =>
    by_cases hfirst : ∀ rec ∈ recs.head?, rec.busy = true ∨ rec.discarded = true
    · obtain ⟨pre, hpre, hsamples, hrun⟩ := consumeFrom_zero (u := u) rs htiled
        (hfuel recs mem_cons_self) hfirst
      have htaken : Taken (pre :: untouched rs) (recs :: recss) :=
        .cons hpre (taken_untouched hrest)
      refine ⟨_, hrun, fun _ => ⟨fun _ recs' hrecs' => ?_, hfits⟩,
        fun _ => ⟨?_, ?_, ?_, pre :: untouched rs, ⟨htaken, ?_, ?_⟩, ?_⟩⟩
      · cases hrecs'
        exact hfirst
      · rw [hdue]
        rfl
      · rw [hdue]
        rfl
      · rw [hdue]
        rfl
      · rw [hdue, handed, hsamples, handed_untouched]
        rfl
      · rw [hdue]
        exact Bool.noConfusion
      · rw [zipWith_cons_cons, zipWith_untouched]
    · push Not at hfirst
      obtain ⟨rec, hhead, hbusy, hdisc⟩ := hfirst
      obtain ⟨tail, rfl⟩ := head?_eq_some_iff.mp hhead
      obtain ⟨out, hrun, hcalls⟩ := consumeFrom_zero_sample (u := u)
        (.cons htiled hrest) hfuel hbusy hdisc
      refine ⟨out, hrun, fun hex => absurd ?_ hcalls, fun hc => ?_⟩
      · rw [hex.calls, hdue]
        rfl
      · rcases hc.limit rfl _ rfl rec rfl with hb | hd
        · exact absurd hb hbusy
        · exact absurd hd hdisc

/-- `ring_buffer__consume_n` on tiled rings. -/
theorem ringBufferConsumeN_exact
    (h : List.Forall₂ (fun r recs => Tiled host r r.consumerPos recs) rings recss)
    (hfuel : ∀ recs ∈ recss, recs.length + 1 < fuel) (n : BitVec 64) (u : σ) :
    ∃ out, ringBufferConsumeN host rings n u fuel = .ok out
      ∧ (ExactlyConsumed rings recss n.toNat u out ↔ Countable rings recss n.toNat u) := by
  by_cases hn : n = 0
  · subst hn
    exact ringBufferConsumeN_zero h hfuel u
  obtain ⟨pres, htook, hrun⟩ := consumeFrom_spec h n 0 u [] hfuel hn
  rw [nil_append, Int.zero_add] at hrun
  have hn0 : n.toNat ≠ 0 := fun h0 => hn (BitVec.eq_of_toNat_eq h0)
  refine ⟨_, hrun, fun hex => ⟨fun h0 => absurd h0 hn0, fun hstop => ?_⟩,
    fun hc => ⟨rfl, rfl, ?_, pres, htook, rfl⟩⟩
  · have hret := hex.ret
    dsimp only at hret
    rw [hstop, delivered_length hstop] at hret
    exact (capIntMax_eq_iff _).mp hret
  · dsimp only
    cases hstop : (deliver (due rings recss n.toNat) u).stop with
    | some err => rfl
    | none =>
      dsimp only
      rw [delivered_length hstop]
      exact (capIntMax_eq_iff _).mpr (hc.fits hstop)

/-- One ring is several rings of which there is one. -/
theorem ringConsumeN_eq (r : Ring σ) (n : BitVec 64) (u : σ) :
    ringConsumeN host r n u fuel = ringBufferConsumeN host [r] n u fuel := by
  unfold ringConsumeN ringBufferConsumeN
  rw [ringBufferConsumeFrom]
  cases ringbufProcessRing host n fuel ⟨r, u, []⟩ with
  | error e => rfl
  | ok out =>
    obtain ⟨err, s⟩ := out
    dsimp only [bind, Except.bind]
    by_cases hneg : err < 0
    · rw [if_pos hneg, if_pos hneg]
    · rw [if_neg hneg, if_neg hneg, Int.zero_add]
      split <;> rfl

end

/-- On rings whose ranges are tiled by records, `ring_buffer__consume_n` on
all of them and `ring__consume_n` on one of them return, and they consume
exactly what they should if and only if the limit is not zero or there is no
sample to start with, and the number of samples is an `int`. -/
theorem consumeN_exact_iff {host : ByteOrder} {fuel : Nat} {rings : List (Ring σ)}
    {recss : List (List RingRecord)}
    (h : List.Forall₂ (fun r recs => Tiled host r r.consumerPos recs) rings recss)
    (hfuel : ∀ recs ∈ recss, recs.length + 1 < fuel) (n : BitVec 64) (u : σ) :
    (∃ out, ringBufferConsumeN host rings n u fuel = .ok out
      ∧ (ExactlyConsumed rings recss n.toNat u out ↔ Countable rings recss n.toNat u))
    ∧ ∀ r recs, (r, recs) ∈ rings.zip recss → ∃ out, ringConsumeN host r n u fuel = .ok out
        ∧ (ExactlyConsumed [r] [recs] n.toNat u out ↔ Countable [r] [recs] n.toNat u) := by
  refine ⟨ringBufferConsumeN_exact h hfuel n u, fun r recs hmem => ?_⟩
  have htiled : Tiled host r r.consumerPos recs := List.forall₂_zip h hmem
  have hlen : ∀ recs' ∈ [recs], recs'.length + 1 < fuel := by
    intro recs' hrecs'
    cases mem_singleton.mp hrecs'
    exact hfuel recs (of_mem_zip hmem).2
  rw [ringConsumeN_eq]
  exact ringBufferConsumeN_exact (.cons htiled .nil) hlen n u

/-- A ring of 32 bytes with one sample, which wraps around the end of the
ring, at a position that wraps around its word. -/
private def wrapping (fd : Int) : Ring Unit where
  sampleCb := fun u _ => (0, u)
  data := [7, 8, 9] ++ List.replicate 21 0 ++ [3, 0, 0, 0, 0, 0, 0, 0]
  consumerPos := -8
  producerPos := 8
  mask := 31
  mapFd := fd
  sized := ⟨5, by decide, rfl, rfl⟩

private theorem wrapping_tiled (fd : Int) :
    Tiled .little (wrapping fd) (wrapping fd).consumerPos [⟨3, [7, 8, 9]⟩] := by
  have hne : (-8 : BitVec 64) ≠ 8 := by decide
  have hword : 3 = rdU32 .little (ringSlice (wrapping 0).data (-8 : BitVec 64).toNat 4) := by
    decide +kernel
  have hdata : [7, 8, 9] = ringSlice (wrapping 0).data ((-8 : BitVec 64).toNat + 8) 3 := by
    decide +kernel
  have hfit : roundupLen 3 ≤ (wrapping 0).data.length := by decide +kernel
  refine .cons hne hword hdata hfit ?_
  show Tiled .little (wrapping fd) (-8 + BitVec.ofNat 64 (roundupLen 3)) []
  exact .nil

theorem consumeN_exact_iff_wrapping : ∃ out,
    ringBufferConsumeN .little [wrapping 5] 1 () 10 = .ok out
      ∧ ExactlyConsumed [wrapping 5] [[⟨3, [7, 8, 9]⟩]] 1 () out
      ∧ out.ret = 1 ∧ out.calls = [(5, [7, 8, 9])] := by
  have htiled : List.Forall₂ (fun r recs => Tiled .little r r.consumerPos recs)
      [wrapping 5] [[⟨3, [7, 8, 9]⟩]] := .cons (wrapping_tiled 5) .nil
  have hfuel : ∀ recs ∈ [[(⟨3, [7, 8, 9]⟩ : RingRecord)]], recs.length + 1 < 10 := by
    decide
  obtain ⟨out, hrun, hiff⟩ := (consumeN_exact_iff htiled hfuel 1 ()).1
  have hex := hiff.mpr ⟨fun h => absurd h (by decide), fun _ => by decide +kernel⟩
  exact ⟨out, hrun, hex, hex.ret, hex.calls⟩

/-- With a limit of zero, `ring__consume_n` hands out a sample, and over two
rings `ring_buffer__consume_n` hands out both. -/
theorem consumeN_zero_consumes : List.Forall₂ (fun r recs => Tiled .little r r.consumerPos recs)
        [wrapping 5, wrapping 6] [[⟨3, [7, 8, 9]⟩], [⟨3, [7, 8, 9]⟩]]
      ∧ (∃ out, ringConsumeN .little (wrapping 5) 0 () 10 = .ok out
        ∧ out.ret = 1 ∧ out.calls = [(5, [7, 8, 9])])
      ∧ ∃ out, ringBufferConsumeN .little [wrapping 5, wrapping 6] 0 () 10 = .ok out
        ∧ out.ret = 2 ∧ out.calls = [(5, [7, 8, 9]), (6, [7, 8, 9])]
        ∧ out.rings.map (·.consumerPos) = [8, 8] := by
  refine ⟨.cons (wrapping_tiled 5) (.cons (wrapping_tiled 6) .nil), ?_, ?_⟩
  · have hrun : (ringConsumeN .little (wrapping 5) 0 () 10).toOption.map (fun out =>
        (out.ret, out.calls)) = some (1, [(5, [7, 8, 9])]) := by decide +kernel
    obtain ⟨out, hout, hfacts⟩ := Option.map_eq_some_iff.mp hrun
    obtain ⟨hret, hcalls⟩ := Prod.mk.inj hfacts
    exact ⟨out, eq_ok_of_toOption hout, hret, hcalls⟩
  · have hrun : (ringBufferConsumeN .little [wrapping 5, wrapping 6] 0 () 10).toOption.map
        (fun out => (out.ret, out.calls, out.rings.map (·.consumerPos)))
        = some (2, [(5, [7, 8, 9]), (6, [7, 8, 9])], [8, 8]) := by decide +kernel
    obtain ⟨out, hout, hfacts⟩ := Option.map_eq_some_iff.mp hrun
    obtain ⟨hret, hrest⟩ := Prod.mk.inj hfacts
    obtain ⟨hcalls, hrings⟩ := Prod.mk.inj hrest
    exact ⟨out, eq_ok_of_toOption hout, hret, hcalls, hrings⟩

-- ======== runs

/-- A walk takes committed records and hands out their samples, whatever its
limit is. -/
theorem walk_taken (cb : σ → Bytes → Int × σ) (n : Nat) (recs : List RingRecord) (cnt : Nat)
    (u : σ) : ∃ rest, recs = (walk cb n recs cnt u).taken ++ rest
      ∧ committed recs = (walk cb n recs cnt u).taken ++ committed rest
      ∧ (walk cb n recs cnt u).fed = samples (walk cb n recs cnt u).taken := by
  fun_induction walk cb n recs cnt u with
  | case1 | case2 => exact ⟨_, rfl, rfl, rfl⟩
  | case3 | case5 | case6 => exact ⟨_, rfl, committed_cons ‹_›, by simp [samples, *]⟩
  | case4 rec recs cnt u hbusy hdisc _ ih | case7 rec recs cnt u hbusy hdisc _ _ ih =>
    obtain ⟨rest, hrecs, hcom, hfed⟩ := ih
    refine ⟨rest, congrArg (rec :: ·) hrecs, ?_, by simp [Walk.after, samples, hfed, hdisc]⟩
    rw [committed_cons hbusy, hcom]
    rfl

/-- A ring in use: the kernel and `ring__consume_n` take turns in any order.
`stream` is what the kernel has committed so far, records that are discarded
included, and `calls` the calls made. The kernel keeps the range between the
positions tiled and leaves committed records and the consumer position alone. -/
inductive RingRun (host : ByteOrder) : Ring σ → σ → List RingRecord → List (Int × Bytes) → Prop
  | start {r : Ring σ} (u : σ) {recs : List RingRecord} (ht : Tiled host r r.consumerPos recs) :
      RingRun host r u (committed recs) []
  | kernel {r r' : Ring σ} {u : σ} {stream more : List RingRecord} {calls : List (Int × Bytes)}
      (h : RingRun host r u stream calls) (hfd : r'.mapFd = r.mapFd)
      (hk : ∀ recs, Tiled host r r.consumerPos recs → ∃ recs',
        Tiled host r' r.consumerPos recs' ∧ committed recs' = committed recs ++ more)
      (hpos : r'.consumerPos = r.consumerPos) : RingRun host r' u (stream ++ more) calls
  | consume {r r' : Ring σ} {u u' : σ} {stream : List RingRecord}
      {calls new : List (Int × Bytes)} (n : BitVec 64) (ret : Int)
      (h : RingRun host r u stream calls)
      (hrun : ∃ k, ∀ fuel > k, ringConsumeN host r n u fuel = .ok ⟨ret, [r'], u', new⟩) :
      RingRun host r' u' stream (calls ++ new)

section

variable {host : ByteOrder} {r r' : Ring σ} {u u' : σ}

/-- The records after the first ones. -/
theorem Tiled.rest {rest : List RingRecord} (taken : List RingRecord)
    (h : Tiled host r pos (taken ++ rest)) :
    Tiled host r (pos + BitVec.ofNat 64 (span taken)) rest := by
  induction taken generalizing pos with
  | nil =>
    have hpos : pos + BitVec.ofNat 64 (span []) = pos := BitVec.add_zero _
    rw [hpos]
    exact h
  | cons rec taken ih =>
    rw [span_cons, BitVec.ofNat_add, ← BitVec.add_assoc]
    exact ih h.first.2.2.2.2

theorem ringConsumeN_takes {n : BitVec 64} {ret : Int} {recs : List RingRecord}
    {new : List (Int × Bytes)} (ht : Tiled host r r.consumerPos recs)
    (hrun : ∃ k, ∀ fuel > k, ringConsumeN host r n u fuel = .ok ⟨ret, [r'], u', new⟩) :
    ∃ taken rest, Tiled host r' r'.consumerPos rest ∧ r'.mapFd = r.mapFd
      ∧ committed recs = taken ++ committed rest ∧ new = (samples taken).map (r.mapFd, ·) := by
  obtain ⟨rest, hrecs, hcom, hfed⟩ := walk_taken r.sampleCb n.toNat recs 0 u
  obtain ⟨k, hrun⟩ := hrun
  specialize hrun (k + recs.length + 2) (by omega)
  rw [ringConsumeN, ringbufProcessRing_walk (s := ⟨r, u, []⟩) ht (by omega)] at hrun
  dsimp only [bind, Except.bind, Reading.walked] at hrun
  generalize walk r.sampleCb n.toNat recs 0 u = w at hrun hfed hcom hrecs
  have hout : r.advance w.taken = r' ∧ w.fed.map (r.mapFd, ·) = new := by
    by_cases hneg : w.how.ret < 0
    · rw [if_pos hneg] at hrun
      cases hrun
      exact ⟨rfl, rfl⟩
    · rw [if_neg hneg] at hrun
      cases hrun
      exact ⟨rfl, rfl⟩
  obtain ⟨rfl, rfl⟩ := hout
  rw [hrecs] at ht
  refine ⟨w.taken, rest, (Tiled.rest w.taken ht).store _, rfl, hcom, ?_⟩
  rw [hfed]

/-- Whatever the order of the turns, the samples handed out are those of the
first records of the stream, in order and each once, and the rest of the
stream lies before the first busy record in the ring: nothing is lost. -/
theorem ring_run_exact {stream : List RingRecord} {calls : List (Int × Bytes)}
    (h : RingRun host r u stream calls) :
    ∃ past recs, Tiled host r r.consumerPos recs ∧ stream = past ++ committed recs
      ∧ calls = (samples past).map (r.mapFd, ·) := by
  induction h with
  | @start r u recs ht => exact ⟨[], recs, ht, rfl, rfl⟩
  | kernel _ hfd hk hpos ih =>
    obtain ⟨past, recs, ht, hstream, hcalls⟩ := ih
    obtain ⟨recs', ht', hmore⟩ := hk recs ht
    refine ⟨past, recs', ?_, ?_, ?_⟩
    · rw [hpos]
      exact ht'
    · rw [hstream, hmore, append_assoc]
    · rw [hfd]
      exact hcalls
  | consume _ _ _ hrun ih =>
    obtain ⟨past, recs, ht, hstream, hcalls⟩ := ih
    obtain ⟨taken, rest, ht', hfd, hcom, hnew⟩ := ringConsumeN_takes ht hrun
    refine ⟨past ++ taken, rest, ht', ?_, ?_⟩
    · rw [hstream, hcom, append_assoc]
    · rw [hcalls, hnew, hfd, samples, samples, samples, filter_append, map_append, map_append]

end

theorem ring_run_exact_wrapping : ∃ r, RingRun .little r () [⟨3, [7, 8, 9]⟩] [(5, [7, 8, 9])]
    ∧ ∃ past recs, Tiled .little r r.consumerPos recs ∧ [⟨3, [7, 8, 9]⟩] = past ++ committed recs
      ∧ [(5, [7, 8, 9])] = (samples past).map (r.mapFd, ·) := by
  have hrun : RingRun .little ((wrapping 5).advance [⟨3, [7, 8, 9]⟩]) () [⟨3, [7, 8, 9]⟩]
      [(5, [7, 8, 9])] := by
    refine .consume 1 1 (.start () (wrapping_tiled 5)) ⟨2, fun fuel hfuel => ?_⟩
    rw [ringConsumeN, ringbufProcessRing_walk (s := ⟨wrapping 5, (), []⟩) (wrapping_tiled 5) hfuel]
    rfl
  exact ⟨_, hrun, ring_run_exact hrun⟩

end Libbpf
