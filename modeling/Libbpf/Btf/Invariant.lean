/-
What every object the library builds satisfies.

`OwnWf` collects what the source maintains by hand at one level: the
offset index and the section length agree with the records, every word
fits its field, the header's counts agree with the string and layout
data, and the split part starts where its base ends. `Wf` asks for it
along the whole chain of bases. Under it the offset index can be
forgotten: `btfTypeById_own` reads a type of the object itself straight
from the list of records. That records of the other kinds, too, have the
size the layout says (`Sized`) is not among these.
-/
import Libbpf.Btf.Object

namespace Libbpf

open Lib

variable {btf : Btf} {id : Nat}

/-- Every field of the header fits its width. -/
structure BtfHeader.Fits (h : BtfHeader) : Prop where
  magic : h.magic < 2 ^ 16
  version : h.version < 2 ^ 8
  flags : h.flags < 2 ^ 8
  hdrLen : h.hdrLen < 2 ^ 32
  typeOff : h.typeOff < 2 ^ 32
  typeLen : h.typeLen < 2 ^ 32
  strOff : h.strOff < 2 ^ 32
  strLen : h.strLen < 2 ^ 32
  layoutOff : h.layoutOff < 2 ^ 32
  layoutLen : h.layoutLen < 2 ^ 32

/-- Every field of a layout entry fits its width. -/
def BtfLayout.Fits (l : BtfLayout) : Prop :=
  l.infoSz < 2 ^ 8 ∧ l.elemSz < 2 ^ 8 ∧ l.flags < 2 ^ 16

/-- Every word of a record fits. -/
def BtfType.Fits (t : BtfType) : Prop := ∀ w ∈ t.words, w < 2 ^ 32

instance (t : BtfType) : Decidable t.Fits :=
  inferInstanceAs (Decidable (∀ w ∈ _, _))

namespace Btf

/-- The first own ID of an object on `base`. -/
def startIdOn (base : Option Btf) : Nat :=
  match base with
  | some base => base.typeCnt
  | none => 1

/-- The first own string offset of an object on `base`. -/
def startStrOffOn (base : Option Btf) : Nat :=
  match base with
  | some base => base.hdr.strLen + base.startStrOff
  | none => 0

/-- The type section: the index and the length agree with the records,
and records of known kinds have their size. -/
structure TypesWf (btf : Btf) : Prop where
  offs : btf.typeOffs = offsFrom BtfType.byteSz 0 btf.types
  typeLen : btf.hdr.typeLen = total BtfType.byteSz btf.types
  fits : ∀ t ∈ btf.types, t.Fits
  known : ∀ t ∈ btf.types, t.kind.known = true → t.Sized
  cnt : btf.types.length ≤ BTF_MAX_NR_TYPES

/-- Every own record has the size `btf_type_size` says. It is so after
parsing, but a copied record of kind `BTF_KIND_UNKN` has the size the
layout of its source said. -/
def Sized (btf : Btf) : Prop :=
  ∀ t ∈ btf.types, btfTypeSize btf t = .ok t.byteSz

/-- The string section: the header's length is covered by the data and
ends a string. A parsed section is no longer than that; a set may be.
Without a base, offset 0 is the empty string. -/
structure StrsWf (btf : Btf) : Prop where
  strLen_le : btf.hdr.strLen ≤ btf.strsData.length
  length_le : btf.strsData.length ≤ BTF_MAX_STR_OFFSET + 1
  terminated : Terminated (btf.strsData.take btf.hdr.strLen)
  first : btf.baseBtf = none → 0 < btf.hdr.strLen ∧ btf.strsData.getD 0 0 = 0
  raw : ∀ data, btf.strs = .raw data → data.length = btf.hdr.strLen
  set : ∀ ss, btf.strs = .set ss → ss.Wf ∧ ss.strsDataMaxLen = BTF_MAX_STR_OFFSET

/-- The layout section: its length agrees with the header. -/
def LayoutWf (btf : Btf) : Prop :=
  match btf.layout with
  | none => btf.hdr.layoutLen = 0
  | some l => btf.hdr.layoutLen = 4 * l.length ∧ l ≠ [] ∧ ∀ e ∈ l, e.Fits

/-- One level of an object. -/
structure OwnWf (btf : Btf) : Prop where
  hdr : btf.hdr.Fits
  types : btf.TypesWf
  strs : btf.StrsWf
  layout : btf.LayoutWf
  startId : btf.startId = startIdOn btf.baseBtf
  startStrOff : btf.startStrOff = startStrOffOn btf.baseBtf

/-- An object and all its bases. -/
inductive Wf : Btf → Prop
  | mk {btf : Btf} (own : btf.OwnWf) (base : ∀ base, btf.baseBtf = some base → base.Wf) : btf.Wf

theorem Wf.own (h : btf.Wf) : btf.OwnWf := by
  cases h with
  | mk own base => exact own

theorem Wf.base (h : btf.Wf) {base : Btf} (hb : btf.baseBtf = some base) : base.Wf := by
  cases h with
  | mk own hbase => exact hbase base hb

theorem TypesWf.nrTypes (h : btf.TypesWf) : btf.nrTypes = btf.types.length := by
  rw [Btf.nrTypes, h.offs, offsFrom_length]

theorem OwnWf.typeCnt (h : btf.OwnWf) : btf.typeCnt = btf.startId + btf.types.length := by
  rw [Btf.typeCnt, h.types.nrTypes]

theorem Wf.startId_pos (h : btf.Wf) : 0 < btf.startId := by
  induction btf using Btf.induct with
  | h own base ih =>
    rw [h.own.startId]
    cases base with
    | none => exact Nat.one_pos
    | some b =>
      have := ih b rfl (h.base rfl)
      simp only [startIdOn, Btf.typeCnt]
      omega

end Btf

theorem BtfType.byteSz_pos (t : BtfType) : 0 < t.byteSz := by
  unfold BtfType.byteSz
  omega

/-- An own ID reads the record at its position. -/
theorem btfTypeById_own (ht : btf.TypesWf) (h0 : id ≠ 0) (hid : btf.startId ≤ id) :
    btfTypeById btf id = btf.types[id - btf.startId]? := by
  rw [btfTypeById_eq, if_neg h0, if_neg (Nat.not_lt_of_le hid), ht.offs]
  cases ho : (offsFrom BtfType.byteSz 0 btf.types)[id - btf.startId]? with
  | none =>
    rw [List.getElem?_eq_none_iff, offsFrom_length] at ho
    rw [List.getElem?_eq_none ho]
    rfl
  | some o =>
    exact itemAt_offs BtfType.byteSz (fun t _ => t.byteSz_pos) ho

/-- An ID below the start is the base's. -/
theorem btfTypeById_base (h0 : id ≠ 0) (hid : id < btf.startId) :
    btfTypeById btf id = btf.baseBtf.bind (btfTypeById · id) := by
  rw [btfTypeById_eq, if_neg h0, if_pos hid]

@[simp] theorem btfTypeById_zero (btf : Btf) : btfTypeById btf 0 = some btfVoid := by
  rw [btfTypeById_eq, if_pos rfl]

/-- Every ID below the count is a type. -/
theorem Btf.Wf.typeById_isSome (h : btf.Wf) (hid : id < btf.typeCnt) : (btfTypeById btf id).isSome := by
  induction btf using Btf.induct with
  | h own base ih =>
    by_cases h0 : id = 0
    · simp [h0]
    by_cases hlt : id < own.startId
    · rw [btfTypeById_base h0 hlt]
      cases base with
      | none =>
        have hs := h.own.startId
        simp only [Btf.startIdOn] at hs
        omega
      | some b =>
        have hs := h.own.startId
        simp only [Btf.startIdOn] at hs
        exact ih b rfl (h.base rfl) (by omega)
    · rw [btfTypeById_own h.own.types h0 (by simpa using hlt)]
      have hc := h.own.typeCnt
      have : id - own.startId < own.types.length := by
        simp only at hc hlt
        omega
      simp [this]

end Libbpf
