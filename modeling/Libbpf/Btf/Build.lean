/-
The writing interface: `btf__new_empty`, the `btf__add_*` calls that
append a record, and those that append an element to the last record.

Both families have one body each. `btfAddTypeRec` makes the object
modifiable, reserves the record, adds its name and commits it;
`btfAppendElem` reserves an element, adds its name and bumps the count of
the last record. The calls differ in the checks made first, in whether
the arguments or the last type are checked first, and in the words they
write. A name that is NULL or empty is `CStr.empty`; its offset is 0.

The calls keep the source's argument types, so a `__u32` is a `UInt32`
and an `int` an `Int32`; what the conversions between them do to a type
ID is part of the checks.
-/
import Libbpf.Btf.Modify
import Libbpf.Btf.Invariant

namespace Libbpf

open Lib

-- ======== new objects

/-- The `layouts` table: `info_sz` and `elem_sz` by kind. -/
def btfLayouts : List BtfLayout :=
  [(0, 0), (4, 0), (0, 0), (12, 0), (0, 12), (0, 12), (0, 8), (0, 0), (0, 0),
    (0, 0), (0, 0), (0, 0), (0, 0), (0, 8), (4, 0), (0, 12), (0, 0), (4, 0),
    (0, 0), (0, 12), (4, 4), (0, 4), (0, 12)].map fun e => ⟨e.1, e.2, 0⟩

/-- The header `btf_new_empty` writes. -/
def btfEmptyHdr (layoutLen strLen : Nat) : BtfHeader where
  magic := BTF_MAGIC
  version := BTF_VERSION
  flags := 0
  hdrLen := 32
  typeOff := 0
  typeLen := 0
  strOff := layoutLen
  strLen := strLen
  layoutOff := 0
  layoutLen := layoutLen

/-- `btf_new_empty`; `addLayout` is the option of the same name. -/
def btfNewEmpty (host : ByteOrder) (addr : Nat) (addLayout : Bool) (base : Option Btf) : Btf :=
  let layout := if addLayout then some btfLayouts else none
  -- strings of a split object start with its first one
  let strs : Bytes := if base.isSome then [] else [0]
  let hdr := btfEmptyHdr (4 * (layout.getD []).length) strs.length
  let raw := wrHdr host hdr ++ (layout.getD []).flatMap (BtfLayout.bytes host) ++ strs
  { addr
    rawData := some raw
    rawDataSwapped := none
    rawSize := raw.length
    swappedEndian := match base with
      | some base => base.swappedEndian
      | none => false
    hdr
    types := []
    typeOffs := []
    namedStartId := 0
    startId := Btf.startIdOn base
    startStrOff := Btf.startStrOffOn base
    strs := .raw strs
    strsDeduped := false
    hasHdrExtra := false
    layout
    baseBtf := base }

-- ======== the two bodies

/-- Leave with a code when a condition holds. -/
def check (c : Prop) [Decidable c] (code : Int) : Run Btf Unit :=
  liftRes (failIf c code)

/-- `validate_type_id`. -/
def validateTypeId (id : Int32) : Run Btf Unit :=
  check (id.toInt < 0 ∨ id.toInt > BTF_MAX_NR_TYPES) EINVAL

/-- `name_off = btf__add_str(btf, name)` unless the name is empty. -/
def btfAddName (name : CStr) : Run Btf Nat :=
  if name = CStr.empty then pure 0 else Btf.addStr name

/-- The common tail of the calls that append a record. -/
def btfAddTypeRec (name : CStr) (info size : Nat) (rest : List Nat) : Run Btf Nat := do
  btfEnsureModifiable
  btfAddTypeMem (12 + 4 * rest.length)
  let nameOff ← btfAddName name
  btfCommitType ⟨nameOff, info, size, rest⟩

/-- `btf_last_type`. -/
def btfLastType : Run Btf BtfType := do
  let btf ← get
  liftRes (deref (btfTypeById btf (btf.typeCnt - 1)))

/-- The last type, when it is of the kind an element can be added to. -/
def btfCheckLast (kinds : List BtfKind) : Run Btf BtfType := do
  let btf ← get
  check (btf.nrTypes = 0) EINVAL
  let t ← btfLastType
  check (t.kind ∉ kinds) EINVAL
  return t

/-- `btf_type_inc_vlen`, as the new info word. -/
def btfTypeIncVlen (t : BtfType) : Res Nat :=
  if t.vlen = BTF_MAX_VLEN then fail ENOSPC
  else .ok (btfTypeInfo t.kind (t.vlen + 1) t.kflag)

/-- The common tail of the calls that append an element of `n` words to
the last type; `newInfo` computes its info word. -/
def btfAppendElem (name : CStr) (n : Nat) (elem : Nat → List Nat)
    (newInfo : BtfType → Res Nat) : Run Btf Nat := do
  btfEnsureModifiable
  btfAddTypeMem (4 * n)
  let nameOff ← btfAddName name
  let t ← btfLastType
  let info ← liftRes (newInfo t)
  let btf ← get
  -- the element was written right after the last record
  let t' := { t with info, rest := t.rest ++ elem nameOff }
  set (btfHdrUpdateTypeLen (btf.hdr.typeLen + 4 * n)
    { btf with types := btf.types.dropLast ++ [t'] })
  return 0

-- ======== adding a record

/-- A power of two up to `max`. -/
def badByteSz (byteSz max : Nat) : Prop :=
  byteSz = 0 ∨ byteSz &&& (byteSz - 1) ≠ 0 ∨ byteSz > max

instance (byteSz max : Nat) : Decidable (badByteSz byteSz max) :=
  inferInstanceAs (Decidable (_ ∨ _))

/-- `btf__add_int`. -/
def Btf.addInt (name : CStr) (byteSz : Nat) (encoding : Int32) : Run Btf Nat := do
  check (name = CStr.empty) EINVAL
  check (badByteSz byteSz 16) EINVAL
  -- only the signed, char and bool bits
  check (encoding.toInt < 0 ∨ encoding.toInt > 7) EINVAL
  btfAddTypeRec name (btfTypeInfo .int 0 false) byteSz
    [encoding.toInt.toNat * 2 ^ 24 + byteSz * 8]

/-- `btf__add_float`. -/
def Btf.addFloat (name : CStr) (byteSz : Nat) : Run Btf Nat := do
  check (name = CStr.empty) EINVAL
  check (byteSz ∉ [2, 4, 8, 12, 16]) EINVAL
  btfAddTypeRec name (btfTypeInfo .float 0 false) byteSz []

/-- `btf_add_ref_kind`. -/
def btfAddRefKind (kind : BtfKind) (name : CStr) (refTypeId : Int32)
    (kflag : Bool) : Run Btf Nat := do
  validateTypeId refTypeId
  btfAddTypeRec name (btfTypeInfo kind 0 kflag) refTypeId.toInt.toNat []

/-- `btf_add_ref_kind` of the kinds that must have a name. -/
def btfAddNamedRefKind (kind : BtfKind) (name : CStr) (refTypeId : Int32)
    (kflag : Bool) : Run Btf Nat := do
  check (name = CStr.empty) EINVAL
  btfAddRefKind kind name refTypeId kflag

/-- `btf__add_ptr`. -/
def Btf.addPtr (refTypeId : Int32) : Run Btf Nat :=
  btfAddRefKind .ptr CStr.empty refTypeId false

/-- `btf__add_volatile`. -/
def Btf.addVolatile (refTypeId : Int32) : Run Btf Nat :=
  btfAddRefKind .volatile CStr.empty refTypeId false

/-- `btf__add_const`. -/
def Btf.addConst (refTypeId : Int32) : Run Btf Nat :=
  btfAddRefKind .const CStr.empty refTypeId false

/-- `btf__add_restrict`. -/
def Btf.addRestrict (refTypeId : Int32) : Run Btf Nat :=
  btfAddRefKind .restrict CStr.empty refTypeId false

/-- `btf__add_typedef`. -/
def Btf.addTypedef (name : CStr) (refTypeId : Int32) : Run Btf Nat :=
  btfAddNamedRefKind .typedef name refTypeId false

/-- `btf__add_type_tag`. -/
def Btf.addTypeTag (value : CStr) (refTypeId : Int32) : Run Btf Nat :=
  btfAddNamedRefKind .typeTag value refTypeId false

/-- `btf__add_type_attr`. -/
def Btf.addTypeAttr (value : CStr) (refTypeId : Int32) : Run Btf Nat :=
  btfAddNamedRefKind .typeTag value refTypeId true

/-- `btf__add_array`. -/
def Btf.addArray (indexTypeId elemTypeId : Int32) (nrElems : UInt32) : Run Btf Nat := do
  validateTypeId indexTypeId
  validateTypeId elemTypeId
  btfAddTypeRec CStr.empty (btfTypeInfo .array 0 false) 0
    [elemTypeId.toInt.toNat, indexTypeId.toInt.toNat, nrElems.toNat]

/-- `btf_add_composite`. -/
def btfAddComposite (kind : BtfKind) (name : CStr) (bytesSz : UInt32) : Run Btf Nat :=
  btfAddTypeRec name (btfTypeInfo kind 0 false) bytesSz.toNat []

/-- `btf__add_struct`. -/
def Btf.addStruct (name : CStr) (byteSz : UInt32) : Run Btf Nat :=
  btfAddComposite .struct name byteSz

/-- `btf__add_union`. -/
def Btf.addUnion (name : CStr) (byteSz : UInt32) : Run Btf Nat :=
  btfAddComposite .union name byteSz

/-- `btf_add_enum_common`. -/
def btfAddEnumCommon (name : CStr) (byteSz : UInt32) (isSigned : Bool)
    (kind : BtfKind) : Run Btf Nat := do
  check (badByteSz byteSz.toNat 8) EINVAL
  btfAddTypeRec name (btfTypeInfo kind 0 isSigned) byteSz.toNat []

/-- `btf__add_enum`. -/
def Btf.addEnum (name : CStr) (byteSz : UInt32) : Run Btf Nat :=
  btfAddEnumCommon name byteSz false .enum

/-- `btf__add_enum64`. -/
def Btf.addEnum64 (name : CStr) (byteSz : UInt32) (isSigned : Bool) : Run Btf Nat :=
  btfAddEnumCommon name byteSz isSigned .enum64

/-- Overwrite the info word of the record just committed. -/
def btfSetLastInfo (info : Nat) : Run Btf Unit :=
  modify fun btf => { btf with
    types := btf.types.modify (btf.types.length - 1) ({ · with info }) }

/-- `enum btf_fwd_kind`. -/
inductive BtfFwdKind where
  | struct
  | union
  | enum
deriving DecidableEq, Repr

/-- `btf__add_fwd`; a forward declared enum is an enum without values. -/
def Btf.addFwd (name : CStr) (fwdKind : BtfFwdKind) : Run Btf Nat := do
  check (name = CStr.empty) EINVAL
  match fwdKind with
  | .struct | .union =>
    let id ← btfAddRefKind .fwd name 0 false
    btfSetLastInfo (btfTypeInfo .fwd 0 (fwdKind == .union))
    return id
  | .enum => Btf.addEnum name 4

/-- `btf__add_func`; the linkage is kept where other kinds have a
count. -/
def Btf.addFunc (name : CStr) (linkage : UInt32) (protoTypeId : Int32) : Run Btf Nat := do
  check (name = CStr.empty) EINVAL
  check (linkage.toNat > 2) EINVAL
  let id ← btfAddRefKind .func name protoTypeId false
  btfSetLastInfo (btfTypeInfo .func linkage.toNat false)
  return id

/-- `btf__add_func_proto`. -/
def Btf.addFuncProto (retTypeId : Int32) : Run Btf Nat := do
  validateTypeId retTypeId
  btfAddTypeRec CStr.empty (btfTypeInfo .funcProto 0 false)
    retTypeId.toInt.toNat []

/-- `btf__add_var`. -/
def Btf.addVar (name : CStr) (linkage : UInt32) (typeId : Int32) : Run Btf Nat := do
  check (name = CStr.empty) EINVAL
  check (linkage.toNat > 2) EINVAL
  validateTypeId typeId
  btfAddTypeRec name (btfTypeInfo .var 0 false) typeId.toInt.toNat
    [linkage.toNat]

/-- `btf__add_datasec`. -/
def Btf.addDatasec (name : CStr) (byteSz : UInt32) : Run Btf Nat := do
  check (name = CStr.empty) EINVAL
  btfAddTypeRec name (btfTypeInfo .datasec 0 false) byteSz.toNat []

/-- `btf_add_decl_tag`. -/
def btfAddDeclTag (value : CStr) (refTypeId componentIdx : Int32) (kflag : Bool) : Run Btf Nat := do
  check (value = CStr.empty ∨ componentIdx.toInt < -1) EINVAL
  validateTypeId refTypeId
  btfAddTypeRec value (btfTypeInfo .declTag 0 kflag) refTypeId.toInt.toNat
    [componentIdx.toUInt32.toNat]

/-- `btf__add_decl_tag`. -/
def Btf.addDeclTag (value : CStr) (refTypeId componentIdx : Int32) : Run Btf Nat :=
  btfAddDeclTag value refTypeId componentIdx false

/-- `btf__add_decl_attr`. -/
def Btf.addDeclAttr (value : CStr) (refTypeId componentIdx : Int32) : Run Btf Nat :=
  btfAddDeclTag value refTypeId componentIdx true

/-- `btf__add_loc_param`. -/
def Btf.addLocParam (byteSz flags : UInt32) : Run Btf Nat := do
  check (byteSz.toNat = 0 ∨ byteSz.toNat > 16) EINVAL
  btfAddTypeRec CStr.empty (btfTypeInfo .locParam 0 false) byteSz.toNat
    [flags.toNat]

/-- `btf__add_loc_proto`. -/
def Btf.addLocProto : Run Btf Nat :=
  btfAddTypeRec CStr.empty (btfTypeInfo .locProto 0 false) 0 []

/-- `btf__add_locsec`. -/
def Btf.addLocsec (name : CStr) : Run Btf Nat := do
  check (name = CStr.empty) EINVAL
  btfAddTypeRec name (btfTypeInfo .locsec 0 false) 0 []

-- ======== adding an element

/-- `btf__add_field`. -/
def Btf.addField (name : CStr) (typeId : Int32) (bitOffset bitSize : UInt32) : Run Btf Nat := do
  let t ← btfCheckLast [.struct, .union]
  check (t.vlen = BTF_MAX_VLEN) ENOSPC
  validateTypeId typeId
  let isBitfield : Bool := bitSize.toNat ≠ 0 ∨ bitOffset.toNat % 8 ≠ 0
  -- best-effort enforcement of bit field offset and size
  check (isBitfield ∧ (bitSize.toNat = 0 ∨ bitSize.toNat > 255 ∨ bitOffset.toNat > 0xffffff)) EINVAL
  check (t.kind = .union ∧ bitOffset.toNat ≠ 0) EINVAL
  btfAppendElem name 3 (fun nameOff => [nameOff, typeId.toInt.toNat,
      bitOffset.toNat ||| bitSize.toNat * 2 ^ 24 % 2 ^ 32])
    fun t => .ok (btfTypeInfo t.kind (t.vlen + 1) (isBitfield || t.kflag))

/-- `btf__add_enum_value`; a negative value makes the enum signed. -/
def Btf.addEnumValue (name : CStr) (value : Int64) : Run Btf Nat := do
  let _ ← btfCheckLast [.enum]
  check (name = CStr.empty) EINVAL
  check (value.toInt < -2 ^ 31 ∨ value.toInt > 2 ^ 32 - 1) E2BIG
  btfAppendElem name 2 (fun nameOff => [nameOff, value.toUInt64.toUInt32.toNat])
    fun t => do
      let info ← btfTypeIncVlen t
      return if value.toInt < 0 then
          let t := { t with info }
          btfTypeInfo t.kind t.vlen true
        else info

/-- `btf__add_enum64_value`. -/
def Btf.addEnum64Value (name : CStr) (value : UInt64) : Run Btf Nat := do
  let _ ← btfCheckLast [.enum64]
  check (name = CStr.empty) EINVAL
  btfAppendElem name 3 (fun nameOff => [nameOff, value.toUInt32.toNat, value.toNat / 2 ^ 32])
    btfTypeIncVlen

/-- `btf__add_func_param`. -/
def Btf.addFuncParam (name : CStr) (typeId : Int32) : Run Btf Nat := do
  validateTypeId typeId
  let _ ← btfCheckLast [.funcProto]
  btfAppendElem name 2 (fun nameOff => [nameOff, typeId.toInt.toNat])
    btfTypeIncVlen

/-- `btf__add_datasec_var_info`. -/
def Btf.addDatasecVarInfo (varTypeId : Int32) (offset byteSz : UInt32) : Run Btf Nat := do
  let _ ← btfCheckLast [.datasec]
  validateTypeId varTypeId
  btfAppendElem CStr.empty 3 (fun _ => [varTypeId.toInt.toNat, offset.toNat, byteSz.toNat])
    btfTypeIncVlen

/-- `btf__add_loc_param_value`. -/
def Btf.addLocParamValue (value : UInt32) : Run Btf Nat := do
  let _ ← btfCheckLast [.locParam]
  btfAppendElem CStr.empty 1 (fun _ => [value.toNat]) btfTypeIncVlen

/-- `btf__add_loc_proto_param`; the unsigned ID is checked as an `int`. -/
def Btf.addLocProtoParam (id : UInt32) : Run Btf Nat := do
  validateTypeId id.toInt32
  let _ ← btfCheckLast [.locProto]
  btfAppendElem CStr.empty 1 (fun _ => [id.toNat]) btfTypeIncVlen

/-- `btf__add_locsec_loc`. -/
def Btf.addLocsecLoc (func locProto offset : UInt32) : Run Btf Nat := do
  validateTypeId func.toInt32
  validateTypeId locProto.toInt32
  let _ ← btfCheckLast [.locsec]
  btfAppendElem CStr.empty 3 (fun _ => [func.toNat, locProto.toNat, offset.toNat]) btfTypeIncVlen

end Libbpf
