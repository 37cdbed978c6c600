/-
What `btf_sanity_check` guarantees about the words the iterator visits.

The validator and the iterator each carry their own table of the
fields of a kind. `validated_ids` and `validated_strs` compare the two
tables kind by kind. They agree on every string offset. They agree on
type IDs with two exceptions: the validator skips the third word of a
FWD, which the iterator treats as an ID, and the return type of a
FUNC_PROTO. `btfNew_slots_iff` is the exact statement: the slots of an
accepted input are all in range when those two are.
-/
import Libbpf.Btf.ParseSpec

namespace Libbpf

open Lib List

variable {btf : Btf} {t : BtfType} {id addr : Nat} {u : Unit} {host : ByteOrder} {data : Bytes}
  {base : Option Btf}

-- ======== what slots promise

/-- The object and its bases, nearest first. -/
def Btf.chain (btf : Btf) : List Btf :=
  match btf with
  | ⟨own, some base⟩ => ⟨own, some base⟩ :: base.chain
  | ⟨own, none⟩ => [⟨own, none⟩]
termination_by structural btf

/-- A string offset denotes a string that starts and ends inside the
string data of the object or of one of its bases. -/
def Btf.StrInside (btf : Btf) (off : Nat) : Prop :=
  ∃ b ∈ btf.chain, b.startStrOff ≤ off
    ∧ (0 : UInt8) ∈ (b.strsData.take b.hdr.strLen).drop (off - b.startStrOff)

/-- The words of a type that the iterator visits are usable: every ID
is below the type count and every string offset denotes a string. -/
structure Btf.SlotsOk (btf : Btf) (t : BtfType) : Prop where
  ids : ∀ slots, btfFieldSlots .ids t = .ok slots → ∀ i ∈ slots, t.word i < btf.typeCnt
  strs : ∀ slots, btfFieldSlots .strs t = .ok slots → ∀ i ∈ slots, btf.StrInside (t.word i)

theorem Btf.chain_eq (btf : Btf) : btf.chain = btf :: (match btf.baseBtf with
      | some base => base.chain
      | none => []) := by
  obtain ⟨own, base⟩ := btf
  rw [Btf.chain.eq_def]
  cases base <;> rfl

/-- A lookup that succeeds found a string inside the data. -/
theorem Btf.Wf.strInside (h : btf.Wf) {off : Nat} {s : CStr}
    (hs : btf.strByOffset off = some s) : btf.StrInside off := by
  induction btf using Btf.induct with
  | h own base ih =>
    rw [Btf.strByOffset_eq] at hs
    split at hs
    next hlt =>
      cases base with
      | none => cases hs
      | some b =>
        obtain ⟨c, hc, hin⟩ := ih b rfl (h.base rfl) hs
        refine ⟨c, ?_, hin⟩
        exact mem_cons_of_mem _ hc
    next hge =>
      split at hs
      next hlt =>
        refine ⟨_, ?_, Nat.le_of_not_lt hge, ?_⟩
        · rw [Btf.chain_eq]
          exact mem_cons_self
        · apply h.own.strs.terminated.nul_mem_drop
          have := h.own.strs.strLen_le
          rw [length_take]
          omega
      next => cases hs

-- ======== reading the validator

theorem btfValidateId_eq_ok : btfValidateId btf id = .ok u ↔ ∃ t, btf.typeById id = some t := by
  unfold btfValidateId
  cases btf.typeById id <;> simp

theorem btfValidateStr_eq_ok {off : Nat} :
    btfValidateStr btf off = .ok u ↔ ∃ s, btf.strByOffset off = some s := by
  unfold btfValidateStr
  cases btf.strByOffset off <;> simp

theorem Btf.typeById_lt (h : btf.typeById id = some t) : id < btf.typeCnt := by
  unfold Btf.typeById at h
  split at h
  next => cases h
  next hlt => exact Nat.lt_of_not_le hlt

/-- A checked ID is in range. -/
theorem validateId_lt (h : btfValidateId btf id = .ok u) : id < btf.typeCnt := by
  obtain ⟨t, ht⟩ := btfValidateId_eq_ok.mp h
  exact Btf.typeById_lt ht

/-- The two ID slots the validator does not look at. -/
def BtfType.Unchecked (t : BtfType) : Prop :=
  t.kind = .fwd ∨ t.kind = .funcProto

instance (t : BtfType) : Decidable t.Unchecked :=
  inferInstanceAs (Decidable (_ ∨ _))

/-- The validated IDs of a type are those of the iterator, but for the
third word of a FWD or FUNC_PROTO. -/
theorem validated_ids {d : BtfFieldDesc} (hv : btfValidateType btf t = .ok ())
    (hd : btfFieldDesc .ids t.kind = some d) (hret : t.Unchecked → t.type < btf.typeCnt) {i : Nat}
    (hi : i ∈ d.slots t.vlen) : t.word i < btf.typeCnt := by
  obtain ⟨-, -, hv⟩ := of_bind_ok hv
  rcases mem_slots.mp hi with ⟨o, ho, rfl⟩ | ⟨m, hm, o, ho, rfl⟩
  · -- a once-per-type slot
    cases hk : t.kind with
    | unkn | int | enum | enum64 | float | locParam | struct | union
    | datasec | locProto | locsec =>
      rw [hk] at hd
      cases hd
      cases ho
    | ptr | typedef | volatile | const | restrict | var | declTag
    | typeTag =>
      rw [hk] at hd hv
      cases hd
      cases mem_singleton.mp ho
      exact validateId_lt hv
    | func =>
      rw [hk] at hd hv
      cases hd
      cases mem_singleton.mp ho
      obtain ⟨_, hv, -⟩ := of_bind_ok hv
      exact validateId_lt hv
    | fwd =>
      rw [hk] at hd
      cases hd
      cases mem_singleton.mp ho
      exact hret (Or.inl hk)
    | funcProto =>
      rw [hk] at hd
      cases hd
      cases mem_singleton.mp ho
      exact hret (Or.inr hk)
    | array =>
      rw [hk] at hd hv
      cases hd
      obtain ⟨_, h3, h4⟩ := of_bind_ok hv
      rcases mem_cons.mp ho with rfl | ho
      · exact validateId_lt h3
      · cases mem_singleton.mp ho
        exact validateId_lt h4
    | other n =>
      rw [hk] at hd
      cases hd
  · -- a slot of member `m`
    cases hk : t.kind with
    | unkn | int | enum | enum64 | float | locParam | ptr | typedef
    | volatile | const | restrict | var | declTag | typeTag | func | fwd
    | array =>
      rw [hk] at hd
      cases hd
      cases ho
    | struct | union | funcProto =>
      rw [hk] at hd hv
      cases hd
      cases mem_singleton.mp ho
      obtain ⟨-, -, hid⟩ := of_bind_ok (checkAll_eq_ok.mp hv m (mem_range.mpr hm))
      convert validateId_lt hid using 2
      dsimp only
      omega
    | datasec | locProto =>
      rw [hk] at hd hv
      cases hd
      cases mem_singleton.mp ho
      have hid := checkAll_eq_ok.mp hv m (mem_range.mpr hm)
      convert validateId_lt hid using 2
      dsimp only
      omega
    | locsec =>
      rw [hk] at hd hv
      cases hd
      obtain ⟨_, hf, hl⟩ := of_bind_ok (checkAll_eq_ok.mp hv m (mem_range.mpr hm))
      rcases mem_cons.mp ho with rfl | ho
      · convert validateId_lt hf using 2
        dsimp only
        omega
      cases mem_singleton.mp ho
      convert validateId_lt hl using 2
      dsimp only
      omega
    | other n =>
      rw [hk] at hd
      cases hd

/-- The validated string offsets of a type are those of the iterator. -/
theorem validated_strs {d : BtfFieldDesc} (hv : btfValidateType btf t = .ok ())
    (hd : btfFieldDesc .strs t.kind = some d) {i : Nat}
    (hi : i ∈ d.slots t.vlen) : ∃ s, btf.strByOffset (t.word i) = some s := by
  obtain ⟨_, hname, hv⟩ := of_bind_ok hv
  have hname := btfValidateStr_eq_ok.mp hname
  rcases mem_slots.mp hi with ⟨o, ho, rfl⟩ | ⟨m, hm, o, ho, rfl⟩
  · -- the only once-per-type slot is the name
    have h0 : o = 0 := by
      cases hk : t.kind <;> rw [hk] at hd <;> cases hd <;>
        first | cases ho; done | exact mem_singleton.mp ho
    rw [h0]
    exact hname
  · cases hk : t.kind with
    | struct | union | funcProto =>
      rw [hk] at hd hv
      cases hd
      cases mem_singleton.mp ho
      obtain ⟨_, hs, -⟩ := of_bind_ok (checkAll_eq_ok.mp hv m (mem_range.mpr hm))
      convert btfValidateStr_eq_ok.mp hs using 5
      dsimp only
      omega
    | enum | enum64 =>
      rw [hk] at hd hv
      cases hd
      cases mem_singleton.mp ho
      have hs := checkAll_eq_ok.mp hv m (mem_range.mpr hm)
      convert btfValidateStr_eq_ok.mp hs using 5
      dsimp only
      omega
    | unkn | int | ptr | array | fwd | typedef | volatile | const | restrict
    | func | var | datasec | float | declTag | typeTag | locParam
    | locProto | locsec =>
      rw [hk] at hd
      cases hd
      cases ho
    | other n =>
      rw [hk] at hd
      cases hd

-- ======== btf_new

theorem btfCheckSorted_eq_ok {btf' : Btf} (h : btfCheckSorted btf = .ok btf') :
    btf' = { btf with namedStartId := btf'.namedStartId } := by
  obtain ⟨r, -, h⟩ := of_bind_ok h
  split at h
  all_goals
    cases h
    exact Btf.ext_own rfl rfl

/-- An accepted input decodes to the object, up to the sortedness note,
and every type of it passed the validator. -/
theorem btfNew_eq_ok (h : btfNew host addr data base = .ok btf) :
    ∃ pre, btfDecode host addr data base = .ok pre ∧ btfSanityCheck pre = .ok ()
      ∧ btf = { pre with namedStartId := btf.namedStartId } := by
  obtain ⟨pre, hd, h⟩ := of_bind_ok h
  obtain ⟨_, hs, h⟩ := of_bind_ok h
  exact ⟨pre, hd, hs, btfCheckSorted_eq_ok h⟩

/-- An accepted object is well formed if its base is. -/
theorem btfNew_wf (hbase : ∀ b, base = some b → b.Wf)
    (h : btfNew host addr data base = .ok btf) : btf.Wf := by
  obtain ⟨pre, hd, -, hbtf⟩ := btfNew_eq_ok h
  have hw := btfDecode_wf hbase hd
  rw [hbtf]
  have ho := hw.own
  exact .mk ⟨ho.hdr, ⟨ho.types.offs, ho.types.typeLen, ho.types.fits,
    ho.types.known, ho.types.cnt⟩, ⟨ho.strs.strLen_le, ho.strs.length_le,
    ho.strs.terminated, ho.strs.first, ho.strs.raw, ho.strs.set⟩,
    ho.layout, ho.startId, ho.startStrOff⟩
    fun b hb => hw.base hb

theorem btfNew_sized (h : btfNew host addr data base = .ok btf) : btf.Sized := by
  obtain ⟨pre, hd, -, hbtf⟩ := btfNew_eq_ok h
  have hsz : pre.Sized := btfDecode_sized hd
  rw [hbtf]
  intro t ht
  exact hsz t ht

/-- Every own type of an accepted object passed the validator. -/
theorem btfSanityCheck_ok (hw : btf.Wf) (h : btfSanityCheck btf = .ok ()) (ht : t ∈ btf.types) :
    btfValidateType btf t = .ok () := by
  obtain ⟨k, hk⟩ := mem_iff_getElem?.mp ht
  have hklt : k < btf.types.length := (List.getElem?_eq_some_iff.mp hk).1
  have hpos := hw.startId_pos
  have hget : btfTypeById btf (btf.startId + k) = some t := by
    rw [btfTypeById_own hw.own.types (by omega) (by omega), Nat.add_sub_cancel_left]
    exact hk
  have hid : btf.startId + k ∈ List.range' btf.startId btf.nrTypes := by
    rw [mem_range'_1, hw.own.types.nrTypes]
    omega
  obtain ⟨u, hu, hv⟩ := of_bind_ok (checkAll_eq_ok.mp h _ hid)
  rw [hget] at hu
  cases hu
  exact hv

/-- The own types are the records, in order. -/
theorem Btf.typeById_own (hw : btf.Wf) (k : Nat) :
    btf.typeById (btf.startId + k) = btf.types[k]? := by
  have hpos := hw.startId_pos
  rw [Btf.typeById, hw.own.types.nrTypes, btfTypeById_own hw.own.types (by omega) (by omega),
    Nat.add_sub_cancel_left]
  split
  next hge => rw [getElem?_eq_none (by omega)]
  next => rfl

/-- The type an own ID denotes is one of the records. -/
theorem Btf.mem_types_of_typeById (hw : btf.Wf)
    (hid : btf.startId ≤ id) (h : btf.typeById id = some t) :
    t ∈ btf.types := by
  have hpos := hw.startId_pos
  unfold Btf.typeById at h
  split at h
  next => cases h
  next =>
    rw [btfTypeById_own hw.own.types (by omega) hid] at h
    exact mem_of_getElem? h

/-- The slots of an accepted input are usable exactly when the third
words of its FWDs and FUNC_PROTOs, which the validator skips, are below
the type count. -/
theorem btfNew_slots_iff {host : ByteOrder} {addr : Nat} {data : Bytes}
    {base : Option Btf} {btf : Btf} {i : BtfInput}
    (hbase : ∀ b, base = some b → b.Wf) (hi : i.Ok host addr data base)
    (h : btfNew host addr data base = .ok btf) :
    (∀ id t, btf.startId ≤ id → btf.typeById id = some t → t.kind.known = true → btf.SlotsOk t)
      ↔ ∀ t ∈ i.types, t.Unchecked → t.type < Btf.startIdOn base + i.types.length := by
  have hw := btfNew_wf hbase h
  obtain ⟨pre, hd, hs, hbtf⟩ := btfNew_eq_ok h
  have hpre : pre = i.btf host addr data base := by
    have := btfDecode_iff.mpr ⟨i, hi, rfl⟩
    rw [hd] at this
    exact Except.ok.inj this
  have hwpre := btfDecode_wf hbase hd
  have htypes : btf.types = i.types := by rw [hbtf, hpre]; rfl
  have hcnt : btf.typeCnt = Btf.startIdOn base + i.types.length := by
    rw [hw.own.typeCnt, htypes, hw.own.startId, hbtf, hpre]
    rfl
  have hcntpre : pre.typeCnt = btf.typeCnt := by rw [hbtf]; rfl
  have hstr : ∀ off, pre.strByOffset off = btf.strByOffset off := by
    intro off
    rw [Btf.strByOffset_eq pre, Btf.strByOffset_eq btf, hbtf]
  constructor
  · intro hall t ht hun
    obtain ⟨k, hk⟩ := mem_iff_getElem?.mp ht
    rw [← htypes] at hk
    have hknown : t.kind.known = true := by
      rcases hun with hk | hk <;> rw [hk] <;> rfl
    have hok := hall _ t (Nat.le_add_right _ k) ((Btf.typeById_own hw k).trans hk) hknown
    rw [← hcnt]
    -- the third word is the first slot of both kinds
    rcases hun with hkind | hkind
    · exact hok.ids _ (btfFieldSlots_eq (by rw [hkind]; rfl)) 2
        (mem_slots.mpr (Or.inl ⟨8, by simp, rfl⟩))
    · exact hok.ids _ (btfFieldSlots_eq (by rw [hkind]; rfl)) 2
        (mem_slots.mpr (Or.inl ⟨8, by simp, rfl⟩))
  · intro hret id t hid ht hknown
    have hmem := Btf.mem_types_of_typeById hw hid ht
    rw [htypes] at hmem
    have hv := btfSanityCheck_ok hwpre hs (show t ∈ pre.types by rw [hpre]; exact hmem)
    refine ⟨fun slots hsl j hj => ?_, fun slots hsl j hj => ?_⟩
    · cases hdesc : btfFieldDesc .ids t.kind with
      | none =>
        rw [btfFieldSlots_none hdesc] at hsl
        cases hsl
      | some d =>
        rw [btfFieldSlots_eq hdesc] at hsl
        cases hsl
        rw [← hcntpre]
        exact validated_ids hv hdesc (fun hun => by rw [hcntpre, hcnt]; exact hret t hmem hun) hj
    · cases hdesc : btfFieldDesc .strs t.kind with
      | none =>
        rw [btfFieldSlots_none hdesc] at hsl
        cases hsl
      | some d =>
        rw [btfFieldSlots_eq hdesc] at hsl
        cases hsl
        obtain ⟨s, hs⟩ := validated_strs hv hdesc hj
        rw [hstr] at hs
        exact hw.strInside hs

/-- A one-type input: a FUNC_PROTO without parameters that returns
type `ret`. -/
def protoReturning (ret : Nat) : Bytes :=
  wrHdr .little ⟨BTF_MAGIC, BTF_VERSION, 0, 32, 0, 12, 12, 1, 0, 0⟩
    ++ BtfType.bytes .little ⟨0, btfTypeInfo .funcProto 0 false, ret, []⟩ ++ [0]

/-- With return type `void` both sides hold. -/
theorem btfNew_slots_iff_returning_void :
    ∃ (btf : Btf) (i : BtfInput), i.Ok .little 0 (protoReturning 0) none
      ∧ btfNew .little 0 (protoReturning 0) none = .ok btf
      ∧ ((∀ id t, btf.startId ≤ id → btf.typeById id = some t → t.kind.known = true → btf.SlotsOk t)
          ↔ ∀ t ∈ i.types, t.Unchecked → t.type < Btf.startIdOn none + i.types.length) := by
  obtain ⟨btf, hbtf⟩ : ∃ btf, btfNew .little 0 (protoReturning 0) none = .ok btf :=
    exists_ok_of_isSome (by decide +kernel)
  obtain ⟨pre, hd, -, -⟩ := btfNew_eq_ok hbtf
  obtain ⟨i, hi, -⟩ := btfDecode_iff.mp hd
  exact ⟨btf, i, hi, hbtf, btfNew_slots_iff nofun hi hbtf⟩

/-- With return type 77 the input is accepted as well, and the iterator
then stops at an ID past the end. -/
theorem btfNew_accepts_dangling_return :
    ∃ btf t, btfNew .little 0 (protoReturning 77) none = .ok btf
      ∧ btf.typeById 1 = some t ∧ t.kind.known = true ∧ ¬ btf.SlotsOk t := by
  obtain ⟨btf, hbtf, hty, hcnt⟩ := exists_ok_of_any (r := btfNew .little 0 (protoReturning 77) none)
    (P := fun btf => btf.typeById 1 = some ⟨0, btfTypeInfo .funcProto 0 false, 77, []⟩
      ∧ btf.typeCnt = 2) (by decide +kernel)
  refine ⟨btf, _, hbtf, hty, rfl, fun hok => ?_⟩
  have hlt : 77 < btf.typeCnt := hok.ids [2] rfl 2 (mem_singleton.mpr rfl)
  omega

end Libbpf
