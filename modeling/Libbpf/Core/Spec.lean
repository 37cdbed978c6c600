/-
CO-RE access specs: parsing a local one, and matching it against a target
type.

A spec's arrays are lists here: `spec->spec[spec->len++] = acc` appends,
`spec->raw_len--` drops the last index. That is what the arrays hold below
their lengths, also when a search gives back more than it took. The bit
offset is a `__u32` and wraps.

`bpf_core_match_member` searches the members of a target type for a name,
descending into unnamed ones. It enters each member on the raw spec before
it looks at it and takes it off again if it was not the one, except on one
path: a member of the right name and an incompatible type is left on the
raw spec when the search returns 0 (`matchNamed`).
-/
import Libbpf.Core.Type

namespace Libbpf

open Lib

/-- `enum bpf_core_relo_kind`. -/
inductive CoreReloKind where
  | fieldByteOffset
  | fieldByteSize
  | fieldExists
  | fieldSigned
  | fieldLshiftU64
  | fieldRshiftU64
  | typeIdLocal
  | typeIdTarget
  | typeExists
  | typeSize
  | enumvalExists
  | enumvalValue
  | typeMatches
  | other (n : Nat)
deriving DecidableEq, Repr

/-- `core_relo_is_field_based`. -/
def coreReloIsFieldBased : CoreReloKind → Bool
  | .fieldByteOffset | .fieldByteSize | .fieldExists | .fieldSigned
  | .fieldLshiftU64 | .fieldRshiftU64 => true
  | _ => false

/-- `core_relo_is_type_based`. -/
def coreReloIsTypeBased : CoreReloKind → Bool
  | .typeIdLocal | .typeIdTarget | .typeExists | .typeMatches | .typeSize =>
    true
  | _ => false

/-- `core_relo_is_enumval_based`. -/
def coreReloIsEnumvalBased : CoreReloKind → Bool
  | .enumvalExists | .enumvalValue => true
  | _ => false

/-- `struct bpf_core_relo`, less the instruction it is for. -/
structure CoreRelo where
  typeId : Nat
  accessStrOff : Nat
  kind : CoreReloKind
deriving DecidableEq, Repr

/-- `struct bpf_core_accessor`. -/
structure CoreAccessor where
  typeId : Nat
  idx : Nat
  name : Option CStr
deriving DecidableEq

/-- `struct bpf_core_spec`, less the BTF it is over. -/
structure CoreSpec where
  spec : List CoreAccessor
  rootTypeId : Nat
  reloKind : CoreReloKind
  rawSpec : List Nat
  bitOffset : BitVec 32
deriving DecidableEq

/-- `BPF_CORE_SPEC_MAX_LEN`. -/
def BPF_CORE_SPEC_MAX_LEN : Nat := 64

/-- An empty spec for a root type. -/
def CoreSpec.start (rootTypeId : Nat) (kind : CoreReloKind) : CoreSpec :=
  ⟨[], rootTypeId, kind, [], 0⟩

namespace CoreSpec

/-- Append an accessor. -/
def addAcc (s : CoreSpec) (acc : CoreAccessor) : CoreSpec :=
  { s with spec := s.spec ++ [acc] }

/-- `spec->raw_spec[spec->raw_len++] = i`. -/
def pushRaw (s : CoreSpec) (i : Nat) : CoreSpec :=
  { s with rawSpec := s.rawSpec ++ [i] }

/-- `spec->bit_offset += off`. -/
def addBits (s : CoreSpec) (off : Nat) : CoreSpec :=
  { s with bitOffset := s.bitOffset + BitVec.ofNat 32 off }

/-- Take back `addBits off` and `pushRaw`. -/
def unpush (s : CoreSpec) (off : Nat) : CoreSpec :=
  { s with
    rawSpec := s.rawSpec.dropLast
    bitOffset := s.bitOffset - BitVec.ofNat 32 off }

end CoreSpec

/-- `is_flex_arr`; `acc` is the accessor before the array's. -/
def isFlexArr (btf : Btf) (acc : CoreAccessor) (arr : BtfArray) : Res Bool :=
  if acc.name.isNone ∨ arr.nelems > 0 then .ok false
  else do
    let t ← deref (btfTypeById btf acc.typeId)
    return acc.idx == (t.vlen + (2 ^ 32 - 1)) % 2 ^ 32

-- ======== parsing

/-- `isspace` in the C locale. -/
def isSpaceByte (c : UInt8) : Bool := c == 32 || (9 ≤ c && c ≤ 13)

def isDigitByte (c : UInt8) : Bool := 48 ≤ c && c ≤ 57

/-- A `long` cut down to an `int`. -/
def toInt32 (v : Int) : Int := Int.bmod v (2 ^ 32)

/-- `sscanf(s, "%d%n", ...)`: the number and the rest of the string. A
number that does not fit is cut off at the bounds of `long` first. -/
def scanInt (s : Bytes) : Option (Int × Bytes) :=
  let s := s.dropWhile isSpaceByte
  let (neg, s) := match s with
    | 45 :: r => (true, r)
    | 43 :: r => (false, r)
    | _ => (false, s)
  let digits := s.takeWhile isDigitByte
  if digits.isEmpty then none
  else
    let v : Nat := digits.foldl (fun v c => v * 10 + (c.toNat - 48)) 0
    let long : Int :=
      if neg then max (-(v : Int)) (-(2 ^ 63)) else min (v : Int) (2 ^ 63 - 1)
    some (toInt32 long, s.dropWhile isDigitByte)

/-- The parsing loop of `bpf_core_parse_spec`, with the room left in
`raw_spec`. -/
def parseRawFrom : Nat → Bytes → Res (List Nat)
  | left, s =>
    match s with
    | [] => .ok []
    | c :: r =>
      match scanInt (if c == 58 then r else c :: r) with
      | none => fail EINVAL
      | some (idx, rest) =>
        if idx < 0 then fail EINVAL
        else match left with
        | 0 => fail E2BIG
        | left + 1 => do
          let raw ← parseRawFrom left rest
          return idx.toNat :: raw

/-- One turn of the loop of `bpf_core_parse_spec` over `raw_spec`. -/
def parseSpecStep (btf : Btf) (n idx id : Nat) (s : CoreSpec) : Res (Nat × CoreSpec) := do
  let (t, id) ← skipModsAndTypedefs btf n id
  if t.isComposite then
    failIf (idx ≥ t.vlen) EINVAL
    let m ← deref (t.member? idx)
    let s := s.addBits (btfMemberBitOffset t m)
    if m.nameOff ≠ 0 then
      let name := btf.strByOffset m.nameOff
      failIf (strIsEmpty name = true) EINVAL
      return (m.type, s.addAcc ⟨id, idx, name⟩)
    else return (m.type, s)
  else if t.isArray then
    let a ← deref t.array?
    let (_, id) ← skipModsAndTypedefs btf n a.type
    let last ← deref s.spec.getLast?
    let flex ← isFlexArr btf last a
    failIf (!flex ∧ idx ≥ a.nelems) EINVAL
    let sz ← btfResolveSize btf id
    return (id, (s.addAcc ⟨id, idx, none⟩).addBits (idx * sz * 8))
  else fail EINVAL

/-- The loop of `bpf_core_parse_spec` over `raw_spec`. -/
def parseSpecFrom (btf : Btf) (n : Nat) : List Nat → Nat → CoreSpec → Res CoreSpec
  | [], _, s => .ok s
  | idx :: raw, id, s => do
    let (id, s) ← parseSpecStep btf n idx id s
    parseSpecFrom btf n raw id s

/-- `-EINVAL` for what is not there. -/
def orEinval {α : Type} (o : Option α) : Res α :=
  match o with
  | none => fail EINVAL
  | some a => .ok a

/-- `bpf_core_parse_spec`. -/
def bpfCoreParseSpec (btf : Btf) (relo : CoreRelo) (n : Nat) : Res CoreSpec := do
  let specStr ← orEinval (btf.strByOffset relo.accessStrOff)
  let str := specStr.val
  failIf (str = [] ∨ str.head? = some 58) EINVAL
  let spec := CoreSpec.start relo.typeId relo.kind
  if coreReloIsTypeBased relo.kind then
    failIf (str ≠ [48]) EINVAL
    return spec
  let raw ← parseRawFrom BPF_CORE_SPEC_MAX_LEN str
  let first ← orEinval raw.head?
  let (t, id) ← skipModsAndTypedefs btf n relo.typeId
  let spec := { spec with rawSpec := raw }
  if coreReloIsEnumvalBased relo.kind then
    failIf (t.isAnyEnum = false ∨ raw.length > 1 ∨ first ≥ t.vlen) EINVAL
    let nameOff ← deref (btfEnumNameOff? t first)
    return spec.addAcc ⟨id, first, btf.strByOffset nameOff⟩
  failIf (coreReloIsFieldBased relo.kind = false) EINVAL
  let sz ← btfResolveSize btf id
  parseSpecFrom btf n raw.tail id ((spec.addAcc ⟨id, first, none⟩).addBits (first * sz * 8))

-- ======== matching

/-- A member of the right name: entered as an accessor, and taken off
again if its type is not compatible. -/
def matchNamed (lb : Btf) (localType : Nat) (tb : Btf) (n targId i : Nat)
    (m : BtfMember) (name : Option CStr) (s : CoreSpec) :
    Res (Option Nat × CoreSpec) := do
  let found ← bpfCoreFieldsAreCompat lb localType tb m.type n
  if found then return (some m.type, s.addAcc ⟨targId, i, name⟩)
  else return (none, s)

/-- The loop of `bpf_core_match_member` over the members `is` of `targType`;
`deeper` is the function itself. -/
def matchMembers (lb : Btf) (localName : Option CStr) (localType : Nat)
    (tb : Btf) (n : Nat) (targType : BtfType) (targId : Nat)
    (deeper : Nat → CoreSpec → Res (Option Nat × CoreSpec)) :
    List Nat → CoreSpec → Res (Option Nat × CoreSpec)
  | [], s => .ok (none, s)
  | i :: is, s => do
    let m ← deref (targType.member? i)
    let off := btfMemberBitOffset targType m
    failIf (s.rawSpec.length = BPF_CORE_SPEC_MAX_LEN) E2BIG
    let s := (s.addBits off).pushRaw i
    let name := tb.strByOffset m.nameOff
    if strIsEmpty name then
      let (next, s) ← deeper m.type s
      if next.isSome then return (next, s)
      matchMembers lb localName localType tb n targType targId deeper is (s.unpush off)
    else
      let same ← strEq localName name
      if same then matchNamed lb localType tb n targId i m name s
      else
        matchMembers lb localName localType tb n targType targId deeper is (s.unpush off)

/-- `bpf_core_match_member` with the recursion depth left: the ID of the
member's type if one was found, and the target spec it leaves. -/
def matchMemberFrom (lb : Btf) (localAcc : CoreAccessor) (tb : Btf)
    (n : Nat) : Nat → Nat → CoreSpec → Res (Option Nat × CoreSpec)
  | 0, _, _ => .error .fuel
  | depth + 1, targId, s => do
    let (targType, targId) ← skipModsAndTypedefs tb n targId
    if !targType.isComposite then return (none, s)
    let localType ← deref (btfTypeById lb localAcc.typeId)
    let localMember ← deref (localType.member? localAcc.idx)
    matchMembers lb (lb.strByOffset localMember.nameOff) localMember.type
      tb n targType targId (matchMemberFrom lb localAcc tb n depth)
      (List.range targType.vlen) s

/-- `bpf_core_match_member`. -/
def bpfCoreMatchMember (lb : Btf) (localAcc : CoreAccessor) (tb : Btf)
    (targId : Nat) (s : CoreSpec) (n : Nat) :
    Res (Option Nat × CoreSpec) :=
  matchMemberFrom lb localAcc tb n n targId s

/-- The loop of `bpf_core_spec_match` over the enumerators `is`. -/
def matchEnumval (tb : Btf) (localName : CStr) (targType : BtfType)
    (targId : Nat) (s : CoreSpec) : List Nat → Res (Bool × CoreSpec)
  | [] => .ok (false, s)
  | i :: is => do
    let nameOff ← deref (btfEnumNameOff? targType i)
    let targName ← deref (tb.strByOffset nameOff)
    if essentialNameEq localName targName then
      return (true, (s.addAcc ⟨targId, i, some targName⟩).pushRaw i)
    else matchEnumval tb localName targType targId s is

/-- The type an accessor without a name is for: at the first accessor the
type itself, later the element of an array, if the index is inside it. -/
def specElemType (localAcc : CoreAccessor) (tb : Btf) (n : Nat)
    (first : Bool) (targType : BtfType) (targId : Nat) (s : CoreSpec) :
    Res (Option Nat) :=
  if first then .ok (some targId)
  else if !targType.isArray then .ok none
  else do
    let a ← deref targType.array?
    let last ← deref s.spec.getLast?
    let flex ← isFlexArr tb last a
    if !flex && localAcc.idx ≥ a.nelems then return none
    else
      let (_, targId) ← skipModsAndTypedefs tb n a.type
      return some targId

/-- Enter an element access; the size is an `int` here. -/
def specAddElem (tb : Btf) (idx targId : Nat) (s : CoreSpec) : Res (Option Nat × CoreSpec) := do
  failIf (s.rawSpec.length = BPF_CORE_SPEC_MAX_LEN) E2BIG
  let sz ← btfResolveSize tb targId
  if sz ≥ 2 ^ 31 then .error (.err (toInt32 sz))
  else
    return (some targId, ((s.addAcc ⟨targId, idx, none⟩).pushRaw idx).addBits (idx * sz * 8))

/-- One turn of the loop of `bpf_core_spec_match` for a field-based
relocation: the target type to go on with, or that there is no match.
`first` says that this is the first accessor. -/
def specMatchStep (lb : Btf) (localAcc : CoreAccessor) (tb : Btf) (n : Nat)
    (first : Bool) (targId : Nat) (s : CoreSpec) :
    Res (Option Nat × CoreSpec) := do
  let (targType, targId) ← skipModsAndTypedefs tb n targId
  if localAcc.name.isSome then
    bpfCoreMatchMember lb localAcc tb targId s n
  else
    match ← specElemType localAcc tb n first targType targId s with
    | none => return (none, s)
    | some targId => specAddElem tb localAcc.idx targId s

/-- The loop of `bpf_core_spec_match` for a field-based relocation. -/
def specMatchFrom (lb tb : Btf) (n : Nat) : List CoreAccessor → Bool → Nat →
    CoreSpec → Res (Bool × CoreSpec)
  | [], _, _, s => .ok (true, s)
  | acc :: accs, first, targId, s => do
    let (next, s) ← specMatchStep lb acc tb n first targId s
    match next with
    | none => return (false, s)
    | some targId => specMatchFrom lb tb n accs false targId s

/-- `bpf_core_spec_match`: whether the target type matches, and the target
spec. -/
def bpfCoreSpecMatch (lb : Btf) (localSpec : CoreSpec) (tb : Btf)
    (targId n : Nat) : Res (Bool × CoreSpec) := do
  let s := CoreSpec.start targId localSpec.reloKind
  if coreReloIsTypeBased localSpec.reloKind then
    let same ←
      if localSpec.reloKind = .typeMatches then
        bpfCoreTypesMatch lb localSpec.rootTypeId tb targId n
      else bpfCoreTypesAreCompat lb localSpec.rootTypeId tb targId n
    return (same, s)
  if coreReloIsEnumvalBased localSpec.reloKind then
    let (targType, targId) ← skipModsAndTypedefs tb n targId
    if !targType.isAnyEnum then return (false, s)
    let acc ← deref localSpec.spec.head?
    let localName ← deref acc.name
    matchEnumval tb localName targType targId s (List.range targType.vlen)
  else
    failIf (coreReloIsFieldBased localSpec.reloKind = false) EINVAL
    specMatchFrom lb tb n localSpec.spec true targId s

end Libbpf
