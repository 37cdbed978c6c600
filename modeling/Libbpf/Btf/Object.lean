/-
The `struct btf` object and its lookups.

Sections are kept decoded: `types` is the type data cut at record
boundaries, the string section is the raw bytes of a parsed object or
the string set of a modifiable one, and `layout` is the kind layout
array. The header copy, the offset index `typeOffs` and the two raw-data
caches are fields of their own, since the source maintains each of them
by hand. What the object leaves out is allocation: buffer capacities, the
`owns_base` and mmap flags, the file descriptor and the pointer size.

An object is identified by `addr` where the source compares pointers.
`baseBtf` is the base the split part sits on, itself possibly split, so
the lookups recurse along it. `btf_type_by_id` does not check its
argument: an ID past the end reads outside the object, here `none`.
-/
import Libbpf.Strset
import Libbpf.Btf.FieldIter
import Libbpf.Lib.Offsets

namespace Libbpf

open Lib

-- ======== the parts

/-- `struct btf_header`. -/
structure BtfHeader where
  magic : Nat
  version : Nat
  flags : Nat
  hdrLen : Nat
  typeOff : Nat
  typeLen : Nat
  strOff : Nat
  strLen : Nat
  layoutOff : Nat
  layoutLen : Nat
deriving DecidableEq, Repr

def BTF_MAGIC : Nat := 0xeB9F

def BTF_VERSION : Nat := 1

/-- `BTF_MAX_NR_TYPES`. -/
def BTF_MAX_NR_TYPES : Nat := 0x7fffffff

/-- `BTF_MAX_STR_OFFSET`. -/
def BTF_MAX_STR_OFFSET : Nat := 0x7fffffff

/-- `struct btf_layout`. -/
structure BtfLayout where
  infoSz : Nat
  elemSz : Nat
  flags : Nat
deriving DecidableEq, Repr

/-- Where the strings of an object live: inside the parsed data
(`strs_data`) or in a set (`strs_set`). Exactly one pointer is not NULL. -/
inductive BtfStrs where
  | raw (data : Bytes)
  | set (ss : Strset)
deriving DecidableEq

/-- `btf_strs_data`. -/
def BtfStrs.data : BtfStrs → Bytes
  | .raw data => data
  | .set ss => ss.strsData

/-- The fields of `struct btf` other than the base. -/
structure BtfOwn where
  addr : Nat
  rawData : Option Bytes
  rawDataSwapped : Option Bytes
  rawSize : Nat
  swappedEndian : Bool
  hdr : BtfHeader
  types : List BtfType
  typeOffs : List Nat
  namedStartId : Nat
  startId : Nat
  startStrOff : Nat
  strs : BtfStrs
  strsDeduped : Bool
  hasHdrExtra : Bool
  layout : Option (List BtfLayout)
deriving DecidableEq

/-- `struct btf`. -/
structure Btf extends BtfOwn where
  baseBtf : Option Btf

theorem Btf.ext_own {b b' : Btf} (h : b.toBtfOwn = b'.toBtfOwn)
    (hbase : b.baseBtf = b'.baseBtf) : b = b' := by
  obtain ⟨own, base⟩ := b
  obtain ⟨own', base'⟩ := b'
  cases h
  cases hbase
  rfl

/-- Induction along the chain of bases. -/
theorem Btf.induct {P : Btf → Prop}
    (h : ∀ own base, (∀ b, base = some b → P b) → P ⟨own, base⟩) (btf : Btf) :
    P btf := by
  match btf with
  | ⟨own, none⟩ => exact h own none (fun b hb => nomatch hb)
  | ⟨own, some base⟩ =>
    refine h own (some base) fun b hb => ?_
    cases hb
    exact Btf.induct h base

namespace Btf

/-- `nr_types`. -/
def nrTypes (btf : Btf) : Nat := btf.typeOffs.length

/-- `btf__type_cnt`. -/
def typeCnt (btf : Btf) : Nat := btf.startId + btf.nrTypes

/-- `btf_is_modifiable`. -/
def modifiable (btf : Btf) : Bool :=
  match btf.strs with
  | .raw _ => false
  | .set _ => true

abbrev strsData (btf : Btf) : Bytes := btf.strs.data

end Btf

-- ======== lookups

/-- `btf_type_by_id`, which trusts its argument. -/
def btfTypeById (btf : Btf) (typeId : Nat) : Option BtfType :=
  match btf with
  | ⟨own, base⟩ =>
    if typeId = 0 then some btfVoid
    else if typeId < own.startId then
      match base with
      | some base => btfTypeById base typeId
      | none => none
    else
      own.typeOffs[typeId - own.startId]?.bind (itemAt BtfType.byteSz own.types)
termination_by structural btf

/-- `btf__type_by_id`; `none` is NULL. -/
def Btf.typeById (btf : Btf) (typeId : Nat) : Option BtfType :=
  if typeId ≥ btf.startId + btf.nrTypes then none
  else btfTypeById btf typeId

theorem Btf.typeById_of_lt {btf : Btf} {id : Nat} (h : id < btf.typeCnt) :
    btf.typeById id = btfTypeById btf id := if_neg (Nat.not_le_of_lt h)

theorem Btf.btfTypeById_of_typeById {btf : Btf} {id : Nat} {t : BtfType}
    (h : btf.typeById id = some t) : btfTypeById btf id = some t := by
  unfold Btf.typeById at h
  split at h
  · cases h
  · exact h

/-- `btf__str_by_offset`; `none` is NULL. -/
def Btf.strByOffset (btf : Btf) (offset : Nat) : Option CStr :=
  match btf with
  | ⟨own, base⟩ =>
    if offset < own.startStrOff then
      match base with
      | some base => Btf.strByOffset base offset
      | none => none
    else if offset - own.startStrOff < own.hdr.strLen then
      some (cstrAt (Btf.strsData ⟨own, base⟩) (offset - own.startStrOff))
    else none
termination_by structural btf

theorem btfTypeById_eq (btf : Btf) (typeId : Nat) : btfTypeById btf typeId =
      if typeId = 0 then some btfVoid
      else if typeId < btf.startId then
        btf.baseBtf.bind (btfTypeById · typeId)
      else
        btf.typeOffs[typeId - btf.startId]?.bind (itemAt BtfType.byteSz btf.types) := by
  obtain ⟨own, base⟩ := btf
  rw [btfTypeById.eq_def]
  cases base <;> rfl

theorem Btf.strByOffset_eq (btf : Btf) (offset : Nat) : btf.strByOffset offset =
      if offset < btf.startStrOff then
        btf.baseBtf.bind (·.strByOffset offset)
      else if offset - btf.startStrOff < btf.hdr.strLen then
        some (cstrAt btf.strsData (offset - btf.startStrOff))
      else none := by
  obtain ⟨own, base⟩ := btf
  rw [Btf.strByOffset.eq_def]
  cases base <;> rfl

-- ======== sizes

/-- The layout array `btf_type_size_unknown` consults, with its length
from the header: the object's own, else its base's. -/
def btfLayoutFor (btf : Btf) : Option (List BtfLayout × Nat) :=
  match btf.layout, btf.baseBtf with
  | some l, _ => some (l, btf.hdr.layoutLen / 4)
  | none, some base => base.layout.map (·, base.hdr.layoutLen / 4)
  | none, none => none

/-- `btf_type_size_unknown`; its `int` result is negative when the size
does not fit. -/
def btfTypeSizeUnknown (btf : Btf) (t : BtfType) : Res Nat :=
  match btfLayoutFor btf with
  | none => .error (.err (-EINVAL))
  | some (l, lCnt) =>
    let kind := t.kind.toNat
    if kind ≥ lCnt then .error (.err (-EINVAL))
    else
      let e := l.getD kind ⟨0, 0, 0⟩
      if e.infoSz % 4 ≠ 0 then .error (.err (-EINVAL))
      else if e.elemSz % 4 ≠ 0 then .error (.err (-EINVAL))
      else
        let sz := 12 + e.infoSz + t.vlen * e.elemSz
        if sz < 2 ^ 31 then .ok sz else .error (.err (sz - 2 ^ 32))

/-- `btf_type_size`. -/
def btfTypeSize (btf : Btf) (t : BtfType) : Res Nat :=
  match btfKnownSize t.kind t.vlen with
  | some sz => .ok sz
  | none => btfTypeSizeUnknown btf t

end Libbpf
