/-
What CO-RE reads of a BTF: the type behind typedefs and modifiers, sizes,
names, and the two notions of compatible types.

`skip_mods_and_typedefs`, the array case of `bpf_core_fields_are_compat`
and one loop of `bpf_core_calc_field_relo` follow references without a
bound of their own. They take a step bound `n` here, and run out of it
where the source would not return. The other walks carry the bound the
source gives them: `MAX_RESOLVE_DEPTH`, the `depth` of the two `recur`
labels and the `level` of their recursive calls.

Data after a record is read through `member?`, `array?`, `param?` and
the like; a read outside the record is a fault.
-/
import Libbpf.Btf.Object

namespace Libbpf

open Lib

-- ======== reading one record

/-- `struct btf_member`. -/
structure BtfMember where
  nameOff : Nat
  type : Nat
  offset : Nat
deriving DecidableEq, Repr

/-- `struct btf_array`. -/
structure BtfArray where
  type : Nat
  indexType : Nat
  nelems : Nat
deriving DecidableEq, Repr

namespace BtfType

/-- `btf_members(t)[i]`. -/
def member? (t : BtfType) (i : Nat) : Option BtfMember :=
  match t.rest[3 * i]?, t.rest[3 * i + 1]?, t.rest[3 * i + 2]? with
  | some nameOff, some type, some offset => some ⟨nameOff, type, offset⟩
  | _, _, _ => none

/-- `btf_array(t)`. -/
def array? (t : BtfType) : Option BtfArray :=
  match t.rest[0]?, t.rest[1]?, t.rest[2]? with
  | some type, some indexType, some nelems => some ⟨type, indexType, nelems⟩
  | _, _, _ => none

/-- `btf_params(t)[i].type`. -/
def paramType? (t : BtfType) (i : Nat) : Option Nat := t.rest[2 * i + 1]?

/-- The word after the record of an INT. -/
def intWord? (t : BtfType) : Option Nat := t.rest[0]?

/-- `btf_is_mod`. -/
def isMod (t : BtfType) : Bool :=
  match t.kind with
  | .volatile | .const | .restrict | .typeTag => true
  | _ => false

/-- `btf_is_typedef`. -/
def isTypedef (t : BtfType) : Bool :=
  match t.kind with
  | .typedef => true
  | _ => false

/-- `btf_is_composite`. -/
def isComposite (t : BtfType) : Bool :=
  t.kind == .struct || t.kind == .union

/-- `btf_is_array`. -/
def isArray (t : BtfType) : Bool := t.kind == .array

/-- `btf_is_any_enum`. -/
def isAnyEnum (t : BtfType) : Bool := t.kind == .enum || t.kind == .enum64

end BtfType

/-- `btf_kind_core_compat`. -/
def btfKindCoreCompat (t₁ t₂ : BtfType) : Bool :=
  t₁.kind == t₂.kind || (t₁.isAnyEnum && t₂.isAnyEnum)

/-- `btf_int_encoding`. -/
def btfIntEncoding (w : Nat) : Nat := w / 2 ^ 24 % 2 ^ 4

/-- `btf_int_offset`. -/
def btfIntOffset (w : Nat) : Nat := w / 2 ^ 16 % 2 ^ 8

def BTF_INT_SIGNED : Nat := 1

/-- `btf_member_bit_offset` of a member of `t`. -/
def btfMemberBitOffset (t : BtfType) (m : BtfMember) : Nat :=
  if t.kflag then m.offset % 2 ^ 24 else m.offset

/-- `btf_member_bitfield_size` of a member of `t`. -/
def btfMemberBitfieldSize (t : BtfType) (m : BtfMember) : Nat :=
  if t.kflag then m.offset / 2 ^ 24 else 0

/-- The name offset of enumerator `i` of an ENUM or ENUM64. -/
def btfEnumNameOff? (t : BtfType) (i : Nat) : Option Nat :=
  if t.kind == .enum then t.rest[2 * i]? else t.rest[3 * i]?

/-- The value of enumerator `i` as a `__u64`: an ENUM's is an `__s32`. -/
def btfEnumValue? (t : BtfType) (i : Nat) : Option Nat :=
  if t.kind == .enum then
    t.rest[2 * i + 1]?.map fun v =>
      if v < 2 ^ 31 then v else v + (2 ^ 64 - 2 ^ 32)
  else
    match t.rest[3 * i + 1]?, t.rest[3 * i + 2]? with
    | some lo, some hi => some (hi * 2 ^ 32 + lo)
    | _, _ => none

-- ======== walking over the types

/-- `skip_mods_and_typedefs`: the type and its ID. The source looks at the
kind of a type it may not have found. -/
def skipModsAndTypedefs (btf : Btf) : Nat → Nat → Res (BtfType × Nat)
  | 0, _ => .error .fuel
  | n + 1, id =>
    match btf.typeById id with
    | none => .error .fault
    | some t =>
      if t.isMod || t.isTypedef then skipModsAndTypedefs btf n t.type
      else .ok (t, id)

/-- The names of `determine_ptr_size`. -/
def longAliases : List String :=
  ["long", "long int", "int long", "unsigned long", "long unsigned",
    "unsigned long int", "unsigned int long", "long unsigned int",
    "long int unsigned", "int unsigned long", "int long unsigned"]

/-- `determine_ptr_size` at one type. -/
def btfLongSize (btf : Btf) (id : Nat) : Option Nat :=
  match btf.typeById id with
  | some t =>
    if t.kind == .int && (t.size == 4 || t.size == 8) then
      match btf.strByOffset t.nameOff with
      | some name =>
        if longAliases.any fun s => s.toUTF8.toList == name.val
        then some t.size else none
      | none => none
    else none
  | none => none

/-- `btf_ptr_sz` of an object whose pointer size was not set. -/
def btfPtrSz (btf : Btf) : Nat :=
  ((List.range' 1 (btf.typeCnt - 1)).findSome? (btfLongSize btf)).getD 8

/-- The end of `btf__resolve_size`: both factors in range, and their
product too. -/
def btfSizeTimes (nelems size : Nat) : Res Nat :=
  if nelems ≠ 0 ∧ size > (2 ^ 32 - 1) / nelems then fail E2BIG
  else .ok (nelems * size)

/-- The loop of `btf__resolve_size`, with the turns it has left. -/
def btfResolveSizeFrom (btf : Btf) : Nat → Nat → Nat → Res Nat
  | 0, _, _ => fail EINVAL
  | left + 1, typeId, nelems =>
    match btf.typeById typeId with
    | none => fail EINVAL
    | some t =>
      if typeId = 0 then fail EINVAL
      else match t.kind with
      | .fwd => fail EINVAL
      | .int | .struct | .union | .enum | .enum64 | .datasec | .float =>
        btfSizeTimes nelems t.size
      | .ptr => btfSizeTimes nelems (btfPtrSz btf)
      | .typedef | .volatile | .const | .restrict | .var | .declTag
      | .typeTag => btfResolveSizeFrom btf left t.type nelems
      | .array =>
        match t.array? with
        | none => .error .fault
        | some a =>
          if nelems ≠ 0 ∧ a.nelems > (2 ^ 32 - 1) / nelems
          then fail E2BIG
          else btfResolveSizeFrom btf left a.type (nelems * a.nelems)
      | _ => fail EINVAL

/-- `btf__resolve_size`. -/
def btfResolveSize (btf : Btf) (typeId : Nat) : Res Nat :=
  btfResolveSizeFrom btf 32 typeId 1

-- ======== names

/-- `str_is_empty`; a NULL name is `none`. -/
def strIsEmpty : Option CStr → Bool
  | none => true
  | some s => s.val.isEmpty

/-- `strcmp(a, b) == 0`. -/
def strEq (a b : Option CStr) : Res Bool :=
  match a, b with
  | some a, some b => .ok (a == b)
  | _, _ => .error .fault

/-- `strncmp(a, b, n) == 0`. -/
def strnEq (a b : CStr) (n : Nat) : Bool := a.stored.take n == b.stored.take n

/-- `bpf_core_is_flavor_sep` at `s + i`. -/
def bpfCoreIsFlavorSep (s : Bytes) (i : Nat) : Bool :=
  s.getD i 0 != 95 && s.getD (i + 1) 0 == 95 && s.getD (i + 2) 0 == 95
    && s.getD (i + 3) 0 == 95 && s.getD (i + 4) 0 != 95

/-- `bpf_core_essential_name_len`. -/
def bpfCoreEssentialNameLen (name : CStr) : Nat :=
  match (List.range (name.val.length - 4)).reverse.find? (bpfCoreIsFlavorSep name.val) with
  | some i => i + 1
  | none => name.val.length

/-- The names agree up to their flavors. -/
def essentialNameEq (a b : CStr) : Bool :=
  bpfCoreEssentialNameLen a == bpfCoreEssentialNameLen b
    && strnEq a b (bpfCoreEssentialNameLen a)

/-- `bpf_core_names_match`. -/
def bpfCoreNamesMatch (lb : Btf) (localOff : Nat) (tb : Btf) (targOff : Nat) : Res Bool :=
  let localN := lb.strByOffset localOff
  let targN := tb.strByOffset targOff
  if strIsEmpty targN then .ok (strIsEmpty localN)
  else match localN, targN with
  | some localN, some targN => .ok (essentialNameEq targN localN)
  | _, _ => .error .fault

-- ======== compatible types

/-- The names of two FWDs or ENUMs in `bpf_core_fields_are_compat`. -/
def fieldNamesCompat (localName targName : Option CStr) : Res Bool :=
  match localName, targName with
  | some localName, some targName =>
    .ok (bpfCoreEssentialNameLen localName == 0
      || bpfCoreEssentialNameLen targName == 0
      || essentialNameEq localName targName)
  | _, _ => .error .fault

/-- Neither INT is one of the old bitfield-like ones. -/
def intsCompat (localType targType : BtfType) : Res Bool :=
  match localType.intWord?, targType.intWord? with
  | some l, some t => .ok (btfIntOffset l == 0 && btfIntOffset t == 0)
  | _, _ => .error .fault

/-- `bpf_core_fields_are_compat`, with the turns through `recur` it has
left. -/
def fieldsCompatFrom (lb tb : Btf) (n : Nat) : Nat → Nat → Nat → Res Bool
  | 0, _, _ => .error .fuel
  | left + 1, localId, targId => do
    let (localType, _) ← skipModsAndTypedefs lb n localId
    let (targType, _) ← skipModsAndTypedefs tb n targId
    if localType.isComposite && targType.isComposite then return true
    if !btfKindCoreCompat localType targType then return false
    match localType.kind with
    | .ptr | .float => return true
    | .fwd | .enum64 | .enum =>
      fieldNamesCompat (lb.strByOffset localType.nameOff) (tb.strByOffset targType.nameOff)
    | .int => intsCompat localType targType
    | .array =>
      let la ← deref localType.array?
      let ta ← deref targType.array?
      fieldsCompatFrom lb tb n left la.type ta.type
    | _ => return false

/-- `bpf_core_fields_are_compat`. -/
def bpfCoreFieldsAreCompat (lb : Btf) (localId : Nat) (tb : Btf) (targId n : Nat) : Res Bool :=
  fieldsCompatFrom lb tb n n localId targId

/-- The body of `__bpf_core_types_are_compat` from `recur` on, with the
`depth` left; `param` is its call with a smaller `level`, and `none` if
there is none. -/
def typesCompatFrom (lb tb : Btf) (n : Nat)
    (param : Option (Nat → Nat → Res Bool)) : Nat → Nat → Nat → Res Bool
  | 0, _, _ => fail EINVAL
  | depth + 1, localId, targId => do
    let (localType, _) ← skipModsAndTypedefs lb n localId
    let (targType, _) ← skipModsAndTypedefs tb n targId
    if !btfKindCoreCompat localType targType then return false
    match localType.kind with
    | .unkn | .struct | .union | .enum | .fwd | .enum64 => return true
    | .int => intsCompat localType targType
    | .ptr =>
      typesCompatFrom lb tb n param depth localType.type targType.type
    | .array =>
      let la ← deref localType.array?
      let ta ← deref targType.array?
      typesCompatFrom lb tb n param depth la.type ta.type
    | .funcProto =>
      if localType.vlen ≠ targType.vlen then return false
      let same ← (List.range localType.vlen).allM fun i => do
        match param with
        | none => fail EINVAL
        | some rec =>
          let (_, localP) ← skipModsAndTypedefs lb n (← deref (localType.paramType? i))
          let (_, targP) ← skipModsAndTypedefs tb n (← deref (targType.paramType? i))
          rec localP targP
      if !same then return false
      let (_, localR) ← skipModsAndTypedefs lb n localType.type
      let (_, targR) ← skipModsAndTypedefs tb n targType.type
      typesCompatFrom lb tb n param depth localR targR
    | _ => return false

/-- `__bpf_core_types_are_compat`. -/
def typesAreCompatAt (lb tb : Btf) (n : Nat) : Nat → Nat → Nat → Res Bool
  | level, localId, targId => do
    let localType ← deref (btfTypeById lb localId)
    let targType ← deref (btfTypeById tb targId)
    if !btfKindCoreCompat localType targType then return false
    match level with
    | 0 => typesCompatFrom lb tb n none 32 localId targId
    | level + 1 =>
      typesCompatFrom lb tb n (some (typesAreCompatAt lb tb n level)) 32
        localId targId

/-- `bpf_core_types_are_compat`. -/
def bpfCoreTypesAreCompat (lb : Btf) (localId : Nat) (tb : Btf) (targId n : Nat) : Res Bool :=
  typesAreCompatAt lb tb n 32 localId targId

/-- `bpf_core_enums_match`. -/
def bpfCoreEnumsMatch (lb : Btf) (localT : BtfType) (tb : Btf) (targT : BtfType) : Res Bool :=
  if localT.size ≠ targT.size then .ok false
  else if localT.vlen > targT.vlen then .ok false
  else (List.range localT.vlen).allM fun i => do
    let localOff ← deref (btfEnumNameOff? localT i)
    (List.range targT.vlen).anyM fun j => do
      bpfCoreNamesMatch lb localOff tb (← deref (btfEnumNameOff? targT j))

/-- `bpf_core_composites_match`; `member` is `__bpf_core_types_match` with
the next `level`. -/
def bpfCoreCompositesMatch (lb : Btf) (localT : BtfType) (tb : Btf)
    (targT : BtfType) (member : Nat → Nat → Res Bool) : Res Bool :=
  if localT.vlen > targT.vlen then .ok false
  else (List.range localT.vlen).allM fun i => do
    let localM ← deref (localT.member? i)
    (List.range targT.vlen).anyM fun j => do
      let targM ← deref (targT.member? j)
      if !(← bpfCoreNamesMatch lb localM.nameOff tb targM.nameOff) then
        return false
      member localM.type targM.type

/-- `__bpf_core_types_match` from `recur` on, with the `depth` left; `next`
is the function itself with the next `level`. -/
def typesMatchFrom (lb tb : Btf) (n : Nat) (next : Bool → Nat → Nat → Res Bool) :
    Nat → Bool → Nat → Nat → Res Bool
  | 0, _, _, _ => fail EINVAL
  | depth + 1, behindPtr, localId, targId => do
    let (localT, _) ← skipModsAndTypedefs lb n localId
    let (targT, _) ← skipModsAndTypedefs tb n targId
    if !(← bpfCoreNamesMatch lb localT.nameOff tb targT.nameOff) then
      return false
    match localT.kind with
    | .unkn => return targT.kind == .unkn
    | .fwd =>
      if targT.kind == .fwd then return localT.kflag == targT.kflag
      else if behindPtr then
        return (targT.kind == .struct && !localT.kflag)
          || (targT.kind == .union && localT.kflag)
      else return false
    | .enum | .enum64 =>
      if !targT.isAnyEnum then return false
      bpfCoreEnumsMatch lb localT tb targT
    | .struct | .union =>
      if behindPtr then
        if localT.kind == targT.kind then return true
        if targT.kind != .fwd then return false
        return (localT.kind == .union) == targT.kflag
      else
        if localT.kind != targT.kind then return false
        bpfCoreCompositesMatch lb localT tb targT (next behindPtr)
    | .int =>
      if targT.kind != .int then return false
      let localW ← deref localT.intWord?
      let targW ← deref targT.intWord?
      return localT.size == targT.size
        && btfIntEncoding localW % 2 == btfIntEncoding targW % 2
    | .ptr =>
      if targT.kind != .ptr then return false
      typesMatchFrom lb tb n next depth true localT.type targT.type
    | .array =>
      if targT.kind != .array then return false
      let la ← deref localT.array?
      let ta ← deref targT.array?
      if la.nelems ≠ ta.nelems then return false
      typesMatchFrom lb tb n next depth behindPtr la.type ta.type
    | .funcProto =>
      if targT.kind != .funcProto then return false
      if localT.vlen ≠ targT.vlen then return false
      let same ← (List.range localT.vlen).allM fun i => do
        next behindPtr (← deref (localT.paramType? i)) (← deref (targT.paramType? i))
      if !same then return false
      typesMatchFrom lb tb n next depth behindPtr localT.type targT.type
    | _ => return false

/-- `__bpf_core_types_match`. -/
def typesMatchAt (lb tb : Btf) (n : Nat) : Nat → Bool → Nat → Nat → Res Bool
  | 0, _, _, _ => fail EINVAL
  | level + 1, behindPtr, localId, targId =>
    typesMatchFrom lb tb n (typesMatchAt lb tb n level) 32 behindPtr
      localId targId

/-- `bpf_core_types_match`. -/
def bpfCoreTypesMatch (lb : Btf) (localId : Nat) (tb : Btf) (targId n : Nat) : Res Bool :=
  typesMatchAt lb tb n 32 false localId targId

end Libbpf
