/-
The string set of strset.c: a growing blob of terminated strings and a
hash table that holds one offset for each distinct string.

The table's callbacks take offsets into the blob, so a lookup first
writes the wanted string after the end of the blob and asks for that
offset; only a successful insertion moves the end over it. The callbacks
below therefore read the blob with the candidate appended, and `Wf` is
stated over the blob without it.

`addStr_cases` is the whole contract of `strset__add_str`: the string
was there and nothing changes, or it was not and the blob grows by
exactly it, or the size limit is hit and nothing changes.
-/
import Libbpf.Lib.Run
import Libbpf.Lib.Bytes
import Libbpf.Hashmap

namespace Libbpf

open Lib List

variable {ss : Strset} {data : Bytes} {s : CStr} {off : Nat}

def ENOMEM : Int := 12

/-- `str_hash` with a signed `char`, as on x86-64. -/
def strHash (s : CStr) : Nat :=
  s.val.foldl (fun h c =>
      (h * 31 + (if c < 128 then c.toNat else c.toNat + (2 ^ 64 - 256))) % 2 ^ 64)
    0

/-- `struct strset`; the blob's spare capacity is not part of it. -/
structure Strset where
  strsData : Bytes
  strsDataMaxLen : Nat
  strsHash : Hashmap
deriving DecidableEq

namespace Strset

/-- `strset_hash_fn`. -/
def hashFn (data : Bytes) (key : Nat) : Nat := strHash (cstrAt data key)

/-- `strset_equal_fn`. -/
def equalFn (data : Bytes) (key1 key2 : Nat) : Bool :=
  cstrAt data key1 == cstrAt data key2

/-- The indexing loop of `strset__new`, one string a step. -/
def index (data : Bytes) : Nat → Nat → Hashmap → Hashmap
  | 0, _, hash => hash
  | fuel + 1, off, hash =>
    if off < data.length then
      let hash' := (hash.insert (hashFn data) (equalFn data) off off .add).map
      index data fuel (off + (cstrAt data off).val.length + 1) hash'
    else hash

/-- `strset__new`; a NULL `init_data` is the empty one. -/
def new (maxDataSz : Nat) (initData : Bytes) : Strset where
  strsData := initData
  strsDataMaxLen := maxDataSz
  -- every step moves at least one byte on, so the length bounds the steps
  strsHash := index initData initData.length 0 Hashmap.init

/-- The blob as the callbacks see it after `strset_str_append`. -/
def strAppend (set : Strset) (s : CStr) : Res Bytes :=
  if set.strsData.length + s.stored.length > set.strsDataMaxLen then
    .error (.err (-ENOMEM))
  else .ok (set.strsData ++ s.stored)

/-- `strset__find_str`. -/
def findStr (set : Strset) (s : CStr) : Res Nat := do
  let data ← set.strAppend s
  match set.strsHash.find (hashFn data) (equalFn data) set.strsData.length with
  | some oldOff => .ok oldOff
  | none => .error (.err (-ENOENT))

/-- `strset__add_str`. -/
def addStr (s : CStr) : Run Strset Nat := do
  let ss ← get
  let data ← liftRes (ss.strAppend s)
  let newOff := ss.strsData.length
  let r := ss.strsHash.insert (hashFn data) (equalFn data) newOff newOff .add
  if r.ret = -EEXIST then return r.oldKey
  if r.ret ≠ 0 then throw (.err r.ret)
  set { ss with strsData := data, strsHash := r.map }
  return newOff

/-- A string that is not added is refused with a code. -/
theorem addStr_error {ss' : Strset} {e : Stop}
    (h : addStr s ss = .error e ss') : ∃ code, e = .err code := by
  unfold addStr strAppend at h
  by_cases hfull : ss.strsData.length + s.stored.length > ss.strsDataMaxLen
  · simp only [run_bind, run_get, if_pos hfull] at h
    cases h
    exact ⟨_, rfl⟩
  simp only [run_bind, run_get, if_neg hfull, liftRes_ok] at h
  generalize Hashmap.insert _ _ _ _ _ _ = r at h
  by_cases hexist : r.ret = -EEXIST
  · simp only [if_pos hexist] at h
    cases h
  by_cases hret : r.ret ≠ 0
  · simp only [if_neg hexist, if_pos hret] at h
    cases h
    exact ⟨_, rfl⟩
  · simp only [if_neg hexist, if_neg hret] at h
    cases h

-- ======== invariant

/-- What every operation keeps: the index is well formed over the blob,
its keys are offsets into it, no two of them spell the same string, and
the blob is terminated. -/
structure Wf (ss : Strset) : Prop where
  hash : ss.strsHash.Wf (hashFn ss.strsData)
  keys : ∀ e ∈ ss.strsHash.entries, e.value = e.key ∧ e.key < ss.strsData.length
  distinct : ∀ e ∈ ss.strsHash.entries, ∀ e' ∈ ss.strsHash.entries,
    cstrAt ss.strsData e.key = cstrAt ss.strsData e'.key → e = e'
  terminated : Terminated ss.strsData

/-- `s` is indexed at offset `off`. -/
def Holds (ss : Strset) (s : CStr) (off : Nat) : Prop :=
  ⟨off, off⟩ ∈ ss.strsHash.entries ∧ cstrAt ss.strsData off = s

theorem equalFn_iff {k k' : Nat} : equalFn data k k' = true ↔ cstrAt data k = cstrAt data k' := by
  simp [equalFn]

theorem hashFn_congr {k k' : Nat} (h : equalFn data k k' = true) : hashFn data k = hashFn data k' := by
  rw [hashFn, hashFn, equalFn_iff.mp h]

theorem Wf.holds_lt (hw : ss.Wf) (h : ss.Holds s off) : off < ss.strsData.length :=
  (hw.keys _ h.1).2

theorem Wf.holds_unique (hw : ss.Wf) {off' : Nat} (h : ss.Holds s off) (h' : ss.Holds s off') :
    off = off' := by
  have := hw.distinct _ h.1 _ h'.1 (h.2.trans h'.2.symm)
  exact congrArg HashmapEntry.key this

/-- The invariant in terms of any blob that extends the indexed one by
appending: the form the callbacks see it in. -/
private theorem Wf.hash_append (hw : ss.Wf) (r : Bytes) :
    ss.strsHash.Wf (hashFn (ss.strsData ++ r)) := by
  apply hw.hash.congr
  intro e he
  rw [hashFn, hashFn, hw.terminated.cstrAt_append (hw.keys e he).2 r]

/-- What a probe for `s`, appended at the end, finds. -/
private theorem probe_some (hw : ss.Wf) (s : CStr) {h : Nat} {e : HashmapEntry}
    (hf : ss.strsHash.findEntry (equalFn (ss.strsData ++ s.stored)) ss.strsData.length h = some e) :
    e.value = e.key ∧ ss.Holds s e.key := by
  obtain ⟨he, hq⟩ := Hashmap.findEntry_some hf
  have hk := hw.keys e he
  have hs : cstrAt ss.strsData e.key = s := by
    rw [← hw.terminated.cstrAt_append hk.2 s.stored, equalFn_iff.mp hq]
    have := cstrAt_append_stored ss.strsData s []
    rwa [append_nil] at this
  refine ⟨hk.1, ?_, hs⟩
  obtain ⟨k, v⟩ := e
  have hv : v = k := hk.1
  rw [hv] at he
  exact he

private theorem probe_none (hw : ss.Wf) (s : CStr)
    (hf : ss.strsHash.findEntry (equalFn (ss.strsData ++ s.stored)) ss.strsData.length
      (hashBits (hashFn (ss.strsData ++ s.stored) ss.strsData.length) ss.strsHash.capBits) = none)
    {e : HashmapEntry} (he : e ∈ ss.strsHash.entries) :
    cstrAt ss.strsData e.key ≠ s := by
  intro hs
  have hq := Hashmap.findEntry_none (hw.hash_append s.stored) hf he hashFn_congr
  have hq' : equalFn (ss.strsData ++ s.stored) e.key ss.strsData.length = true := by
    rw [equalFn_iff, hw.terminated.cstrAt_append (hw.keys e he).2, hs]
    have := cstrAt_append_stored ss.strsData s []
    rw [append_nil] at this
    exact this.symm
  rw [hq] at hq'
  cases hq'

/-- Linking a string that is not there. -/
private theorem wf_link (hw : ss.Wf) (s : CStr)
    (hnew : ∀ e ∈ ss.strsHash.entries, cstrAt ss.strsData e.key ≠ s) :
    Wf { ss with
      strsData := ss.strsData ++ s.stored
      strsHash := ss.strsHash.link (hashFn (ss.strsData ++ s.stored))
        ss.strsData.length ss.strsData.length } := by
  obtain ⟨hlw, hent⟩ := Hashmap.link_spec (hw.hash_append s.stored)
    ss.strsData.length ss.strsData.length
  have hend : cstrAt (ss.strsData ++ s.stored) ss.strsData.length = s := by
    have := cstrAt_append_stored ss.strsData s []
    rwa [append_nil] at this
  have hold : ∀ e ∈ ss.strsHash.entries,
      cstrAt (ss.strsData ++ s.stored) e.key = cstrAt ss.strsData e.key :=
    fun e he => hw.terminated.cstrAt_append (hw.keys e he).2 _
  refine ⟨hlw, ?_, ?_, Terminated.append_stored s⟩
  · intro e he
    rcases (hent e).mp he with rfl | he
    · exact ⟨rfl, by simp⟩
    · obtain ⟨h1, h2⟩ := hw.keys e he
      exact ⟨h1, by simp only [length_append]; omega⟩
  · intro e he e' he' hs
    rcases (hent e).mp he with rfl | he
    · rcases (hent e').mp he' with rfl | he'
      · rfl
      · rw [hend, hold e' he'] at hs
        exact absurd hs.symm (hnew e' he')
    rcases (hent e').mp he' with rfl | he'
    · rw [hend, hold e he] at hs
      exact absurd hs (hnew e he)
    · rw [hold e he, hold e' he'] at hs
      exact hw.distinct e he e' he' hs

-- ======== operations

/-- There is room for `s` after the blob. -/
def Fits (ss : Strset) (s : CStr) : Prop :=
  ss.strsData.length + s.stored.length ≤ ss.strsDataMaxLen

instance (ss : Strset) (s : CStr) : Decidable (ss.Fits s) :=
  inferInstanceAs (Decidable (_ ≤ _))

theorem strAppend_eq (ss : Strset) (s : CStr) :
    ss.strAppend s = if ss.Fits s then .ok (ss.strsData ++ s.stored)
      else .error (.err (-ENOMEM)) := by
  by_cases h : ss.Fits s
  · rw [if_pos h]
    exact if_neg (Nat.not_lt_of_le h)
  · rw [if_neg h]
    exact if_pos (Nat.lt_of_not_le h)

/-- `strset__add_str`: the string is there, or it is appended, or it
does not fit. -/
theorem addStr_cases (hw : ss.Wf) (s : CStr) :
    (∃ off, ss.Holds s off ∧ ss.Fits s ∧ addStr s ss = .ok off ss)
      ∨ (∃ ss' : Strset, (∀ off, ¬ ss.Holds s off) ∧ ss.Fits s
        ∧ addStr s ss = .ok ss.strsData.length ss' ∧ ss'.Wf
        ∧ ss'.strsData = ss.strsData ++ s.stored
        ∧ ss'.strsDataMaxLen = ss.strsDataMaxLen
        ∧ ∀ t off, ss'.Holds t off ↔ (t = s ∧ off = ss.strsData.length) ∨ ss.Holds t off)
      ∨ (¬ ss.Fits s ∧ addStr s ss = .error (.err (-ENOMEM)) ss) := by
  by_cases hfit : ss.Fits s
  · have happ : ss.strAppend s = .ok (ss.strsData ++ s.stored) := by
      rw [strAppend_eq, if_pos hfit]
    cases hf : ss.strsHash.findEntry (equalFn (ss.strsData ++ s.stored))
        ss.strsData.length
        (hashBits (hashFn (ss.strsData ++ s.stored) ss.strsData.length) ss.strsHash.capBits) with
    | some e =>
      left
      obtain ⟨-, hh⟩ := probe_some hw s hf
      refine ⟨e.key, hh, hfit, ?_⟩
      simp [addStr, run_bind, happ, Hashmap.insert, hf]
    | none =>
      right; left
      have hnew := fun e he => probe_none hw s hf (e := e) he
      obtain ⟨-, hent⟩ := Hashmap.link_spec (hw.hash_append s.stored)
        ss.strsData.length ss.strsData.length
      have hend := cstrAt_append_stored ss.strsData s []
      rw [append_nil] at hend
      refine ⟨_, ?_, hfit, ?_, wf_link hw s hnew, rfl, rfl, fun t off => ⟨?_, ?_⟩⟩
      · intro off hoff
        exact hnew _ hoff.1 hoff.2
      · simp [addStr, run_bind, run_map, happ, Hashmap.insert, hf, EEXIST]
      · rintro ⟨he, ht⟩
        rcases (hent _).mp he with heq | he
        · cases heq
          exact .inl ⟨ht.symm.trans hend, rfl⟩
        · refine .inr ⟨he, ?_⟩
          rw [← ht]
          exact (hw.terminated.cstrAt_append (hw.keys _ he).2 _).symm
      · rintro (⟨rfl, rfl⟩ | ht)
        · exact ⟨(hent _).mpr (Or.inl rfl), hend⟩
        · refine ⟨(hent _).mpr (Or.inr ht.1), ?_⟩
          rw [← ht.2]
          exact hw.terminated.cstrAt_append (hw.holds_lt ht) _
  · right; right
    have happ : ss.strAppend s = .error (.err (-ENOMEM)) := by
      rw [strAppend_eq, if_neg hfit]
    exact ⟨hfit, by simp [addStr, run_bind, happ]⟩

/-- `strset__find_str` finds exactly the indexed strings, as long as
there is room to write the probe. -/
theorem findStr_eq_ok (hw : ss.Wf) (s : CStr) (off : Nat) :
    ss.findStr s = .ok off ↔ ss.Holds s off ∧ ss.Fits s := by
  by_cases hfit : ss.Fits s
  · have happ : ss.strAppend s = .ok (ss.strsData ++ s.stored) := by
      rw [strAppend_eq, if_pos hfit]
    cases hf : ss.strsHash.findEntry (equalFn (ss.strsData ++ s.stored))
        ss.strsData.length
        (hashBits (hashFn (ss.strsData ++ s.stored) ss.strsData.length) ss.strsHash.capBits) with
    | some e =>
      obtain ⟨hv, hh⟩ := probe_some hw s hf
      have hval : ss.findStr s = .ok e.key := by
        simp [findStr, happ, bind, Except.bind, Hashmap.find, hf, hv]
      rw [hval]
      refine ⟨fun h => ?_, fun h => ?_⟩
      · cases h
        exact ⟨hh, hfit⟩
      · rw [hw.holds_unique hh h.1]
    | none =>
      have hval : ss.findStr s = .error (.err (-ENOENT)) := by
        simp [findStr, happ, bind, Except.bind, Hashmap.find, hf]
      rw [hval]
      refine ⟨fun h => (by cases h), fun h => ?_⟩
      exact absurd h.1.2 (probe_none hw s hf h.1.1)
  · have happ : ss.strAppend s = .error (.err (-ENOMEM)) := by
      rw [strAppend_eq, if_neg hfit]
    simp [findStr, happ, bind, Except.bind, hfit]

-- ======== indexing

/-- One step of the indexing loop on a terminated blob. -/
theorem wf_insert {max : Nat} {hash : Hashmap}
    (hw : Wf ⟨data, max, hash⟩) (hoff : off < data.length) :
    Wf ⟨data, max, (hash.insert (hashFn data) (equalFn data) off off .add).map⟩ := by
  cases hf : hash.findEntry (equalFn data) off (hashBits (hashFn data off) hash.capBits) with
  | some e =>
    simp only [Hashmap.insert, hf]
    exact hw
  | none =>
    simp only [Hashmap.insert, hf]
    obtain ⟨hlw, hent⟩ := Hashmap.link_spec hw.hash off off
    have hnew : ∀ e ∈ hash.entries, cstrAt data e.key ≠ cstrAt data off := by
      intro e he hs
      have := Hashmap.findEntry_none hw.hash hf he hashFn_congr
      rw [equalFn_iff.mpr hs] at this
      cases this
    refine ⟨hlw, ?_, ?_, hw.terminated⟩
    · intro e he
      rcases (hent e).mp he with rfl | he
      · exact ⟨rfl, hoff⟩
      · exact hw.keys e he
    · intro e he e' he' hs
      rcases (hent e).mp he with rfl | he
      · rcases (hent e').mp he' with rfl | he'
        · rfl
        · exact absurd hs.symm (hnew e' he')
      · rcases (hent e').mp he' with rfl | he'
        · exact absurd hs (hnew e he)
        · exact hw.distinct e he e' he' hs

private theorem wf_index {max : Nat} : ∀ (fuel off : Nat) (hash : Hashmap), Wf ⟨data, max, hash⟩ →
      Wf ⟨data, max, index data fuel off hash⟩ := by
  intro fuel
  induction fuel with
  | zero =>
    intro off hash h
    exact h
  | succ fuel ih =>
    intro off hash h
    unfold index
    split
    next hoff => exact ih _ _ (wf_insert h hoff)
    next => exact h

/-- A set made from a terminated blob is well formed. -/
theorem wf_new (max : Nat) (ht : Terminated data) : (new max data).Wf := by
  apply wf_index
  exact ⟨Hashmap.wf_init, by simp [Hashmap.entries, Hashmap.init],
    by simp [Hashmap.entries, Hashmap.init], ht⟩

end Strset

end Libbpf
