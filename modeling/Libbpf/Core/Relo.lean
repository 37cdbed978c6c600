/-
CO-RE relocation values: `bpf_core_calc_relo_insn` and what it is made of.

A candidate is evaluated on its own (`evalCand`): matched against the
local spec, and if it matches, its relocation result computed. The loop
over the candidates keeps the first result and compares the later ones
with it in three of their fields (`candsFrom`). The log messages are left
out, and with them `bpf_core_format_spec`, which only writes to the log.
-/
import Libbpf.Core.Spec

namespace Libbpf

open Lib

def EUCLEAN : Int := 117

/-- `struct bpf_core_relo_res`. -/
structure CoreReloRes where
  origVal : Nat
  newVal : Nat
  poison : Bool
  validate : Bool
  failMemszAdjust : Bool
  origSz : Nat
  origTypeId : Nat
  newSz : Nat
  newTypeId : Nat
deriving DecidableEq, Repr

/-- What `bpf_core_calc_field_relo` stores through its pointers. -/
structure FieldRelo where
  val : Nat
  fieldSz : Nat
  typeId : Nat
  validate : Bool
deriving DecidableEq, Repr

/-- A failed size is `-EINVAL`, whatever it failed with. -/
def sizeOrEinval (r : Res Nat) : Res Nat :=
  match r with
  | .error (.err _) => fail EINVAL
  | r => r

/-- The element behind arrays, with the turns the loop has left. -/
def arrayElemFrom (btf : Btf) (n : Nat) : Nat → BtfType → Nat → Res Nat
  | 0, _, _ => .error .fuel
  | left + 1, t, id =>
    if t.isArray then do
      let a ← deref t.array?
      let (t, id) ← skipModsAndTypedefs btf n a.type
      arrayElemFrom btf n left t id
    else .ok id

/-- The size a load or store of the type has: that of its elements. -/
def memSize (btf : Btf) (n typeId : Nat) : Res Nat := do
  let (t, id) ← skipModsAndTypedefs btf n typeId
  let elemId ← arrayElemFrom btf n n t id
  sizeOrEinval (btfResolveSize btf elemId)

/-- The bytes to load a bitfield with: size and offset. The loop doubles
the size until the bitfield fits, at most to 8. -/
def bitfieldBytes (bitOff bitSz : Nat) : Nat → Nat → Res (Nat × Nat)
  | 0, _ => .error .fuel
  | left + 1, byteSz =>
    if byteSz = 0 then .error .divZero
    else
      let byteOff := bitOff / 8 / byteSz * byteSz
      if (bitOff + bitSz + 2 ^ 32 - byteOff * 8) % 2 ^ 32
          > byteSz * 8 % 2 ^ 32 then
        if byteSz ≥ 8 then fail E2BIG
        else bitfieldBytes bitOff bitSz left (byteSz * 2)
      else .ok (byteSz, byteOff)

/-- The part of `bpf_core_calc_field_relo` for an array element. -/
def calcElemRelo (btf : Btf) (kind : CoreReloKind) (spec : CoreSpec)
    (acc : CoreAccessor) (n : Nat) : Res FieldRelo :=
  match kind with
  | .fieldByteOffset => do
    let sz ← memSize btf n acc.typeId
    return ⟨spec.bitOffset.toNat / 8, sz, acc.typeId, true⟩
  | .fieldByteSize => do
    let sz ← sizeOrEinval (btfResolveSize btf acc.typeId)
    return ⟨sz, 0, 0, true⟩
  | _ => fail EINVAL

/-- Where a member lies: its bytes and bits. -/
structure FieldPlace where
  byteSz : Nat
  byteOff : Nat
  bitSz : Nat
  bitfield : Bool
deriving DecidableEq, Repr

/-- The place of the member of `t`, whose type is `mt`, at `bitOff`. -/
def fieldPlace (btf : Btf) (t : BtfType) (m : BtfMember) (mt : BtfType)
    (fieldTypeId bitOff : Nat) : Res FieldPlace :=
  let bitSz := btfMemberBitfieldSize t m
  if bitSz > 0 then do
    let (byteSz, byteOff) ← bitfieldBytes bitOff bitSz 4 mt.size
    return ⟨byteSz, byteOff, bitSz, true⟩
  else do
    let sz ← sizeOrEinval (btfResolveSize btf fieldTypeId)
    return ⟨sz, bitOff / 8, sz * 8 % 2 ^ 32, false⟩

/-- `BPF_CORE_FIELD_SIGNED`. -/
def fieldSigned (mt : BtfType) : Res Bool :=
  if mt.isAnyEnum then .ok mt.kflag
  else if mt.kind == .int then do
    let w ← deref mt.intWord?
    return btfIntEncoding w % 2 == 1
  else .ok false

/-- The `switch` of `bpf_core_calc_field_relo`. -/
def calcPlacedRelo (host : ByteOrder) (btf : Btf) (kind : CoreReloKind)
    (mt : BtfType) (fieldTypeId bitOff : Nat) (p : FieldPlace) (n : Nat) :
    Res FieldRelo :=
  match kind with
  | .fieldByteOffset =>
    if p.bitfield then .ok ⟨p.byteOff, 0, 0, false⟩
    else do
      let sz ← memSize btf n fieldTypeId
      return ⟨p.byteOff, sz, fieldTypeId, true⟩
  | .fieldByteSize => .ok ⟨p.byteSz, 0, 0, !p.bitfield⟩
  | .fieldSigned => do
    let signed ← fieldSigned mt
    return ⟨if signed then 1 else 0, 0, 0, true⟩
  | .fieldLshiftU64 =>
    .ok ⟨match host with
      | .little =>
        (64 + 2 ^ 32 * 2 + p.byteOff * 8 - (bitOff + p.bitSz)) % 2 ^ 32
      | .big =>
        ((8 + 2 ^ 32 - p.byteSz) * 8 + bitOff - p.byteOff * 8) % 2 ^ 32,
      0, 0, !p.bitfield⟩
  | .fieldRshiftU64 => .ok ⟨(64 + 2 ^ 32 - p.bitSz) % 2 ^ 32, 0, 0, true⟩
  | _ => fail EOPNOTSUPP

/-- `bpf_core_calc_field_relo`; a NULL spec is `none`. -/
def bpfCoreCalcFieldRelo (host : ByteOrder) (btf : Btf) (kind : CoreReloKind)
    (spec : Option CoreSpec) (n : Nat) : Res FieldRelo :=
  if kind = .fieldExists then
    .ok ⟨if spec.isSome then 1 else 0, 0, 0, true⟩
  else
    match spec with
    | none => fail EUCLEAN
    | some spec => do
      let acc ← deref spec.spec.getLast?
      if acc.name.isNone then calcElemRelo btf kind spec acc n
      else
        let t ← deref (btfTypeById btf acc.typeId)
        let m ← deref (t.member? acc.idx)
        let (mt, fieldTypeId) ← skipModsAndTypedefs btf n m.type
        let p ← fieldPlace btf t m mt fieldTypeId spec.bitOffset.toNat
        calcPlacedRelo host btf kind mt fieldTypeId spec.bitOffset.toNat p n

/-- `bpf_core_calc_type_relo`: the value, and `*validate`. -/
def bpfCoreCalcTypeRelo (btf : Btf) (kind : CoreReloKind)
    (spec : Option CoreSpec) : Res (Nat × Bool) :=
  match spec with
  | none => .ok (0, true)
  | some spec =>
    match kind with
    | .typeIdTarget => .ok (spec.rootTypeId, false)
    | .typeExists | .typeMatches => .ok (1, true)
    | .typeSize => do
      let sz ← sizeOrEinval (btfResolveSize btf spec.rootTypeId)
      return (sz, true)
    | _ => fail EOPNOTSUPP

/-- `bpf_core_calc_enumval_relo`. -/
def bpfCoreCalcEnumvalRelo (btf : Btf) (kind : CoreReloKind) (spec : Option CoreSpec) : Res Nat :=
  match kind with
  | .enumvalExists => .ok (if spec.isSome then 1 else 0)
  | .enumvalValue =>
    match spec with
    | none => fail EUCLEAN
    | some spec => do
      let acc ← deref spec.spec.head?
      let t ← deref (btfTypeById btf acc.typeId)
      deref (btfEnumValue? t acc.idx)
  | _ => fail EOPNOTSUPP

/-- Whether a load or store can be given another size: the two types are
pointers, or integers that are not signed. -/
def memszAdjustable (lb : Btf) (origTypeId : Nat) (tb : Btf) (newTypeId : Nat) : Res Bool := do
  let origT ← deref (btfTypeById lb origTypeId)
  let newT ← deref (btfTypeById tb newTypeId)
  if origT.kind == .ptr && newT.kind == .ptr then return true
  if origT.kind == .int && newT.kind == .int then
    let origW ← deref origT.intWord?
    let newW ← deref newT.intWord?
    return btfIntEncoding origW != BTF_INT_SIGNED
      && btfIntEncoding newW != BTF_INT_SIGNED
  else return false

/-- A result whose target value asks for poisoning. -/
def orPoison {α : Type} (r : Res α) (poisoned : CoreReloRes)
    (k : α → Res CoreReloRes) : Res CoreReloRes :=
  match r with
  | .error (.err code) =>
    if code = -EUCLEAN then .ok poisoned else .error (.err code)
  | .error e => .error e
  | .ok a => k a

/-- `bpf_core_calc_relo`; the target spec comes with its BTF. -/
def bpfCoreCalcRelo (host : ByteOrder) (kind : CoreReloKind) (lb : Btf)
    (localSpec : CoreSpec) (targ : Option (Btf × CoreSpec)) (n : Nat) :
    Res CoreReloRes :=
  let tb := (targ.map (·.1)).getD lb
  let targSpec := targ.map (·.2)
  if coreReloIsFieldBased kind then do
    let orig ← bpfCoreCalcFieldRelo host lb kind (some localSpec) n
    let res : CoreReloRes :=
      ⟨orig.val, 0, false, orig.validate, false, orig.fieldSz, orig.typeId, 0, 0⟩
    orPoison (bpfCoreCalcFieldRelo host tb kind targSpec n)
      { res with poison := true } fun new => do
        let res := { res with
          newVal := new.val, newSz := new.fieldSz, newTypeId := new.typeId }
        if orig.fieldSz ≠ new.fieldSz then
          let ok ← memszAdjustable lb orig.typeId tb new.typeId
          return { res with failMemszAdjust := !ok }
        else return res
  else if coreReloIsTypeBased kind then do
    let (origVal, validate) ← bpfCoreCalcTypeRelo lb kind (some localSpec)
    let (newVal, _) ← bpfCoreCalcTypeRelo tb kind targSpec
    return ⟨origVal, newVal, false, validate, false, 0, 0, 0, 0⟩
  else if coreReloIsEnumvalBased kind then do
    let origVal ← bpfCoreCalcEnumvalRelo lb kind (some localSpec)
    let res : CoreReloRes := ⟨origVal, 0, false, true, false, 0, 0, 0, 0⟩
    orPoison (bpfCoreCalcEnumvalRelo tb kind targSpec)
      { res with poison := true } fun newVal =>
        .ok { res with newVal := newVal }
  else fail EOPNOTSUPP

-- ======== the candidates

/-- `struct bpf_core_cand`. -/
structure CoreCand where
  btf : Btf
  id : Nat

/-- One candidate: its relocation result and its spec, if it matches. -/
def evalCand (host : ByteOrder) (relo : CoreRelo) (lb : Btf)
    (localSpec : CoreSpec) (n : Nat) (c : CoreCand) :
    Res (Option (CoreReloRes × CoreSpec)) := do
  let (matched, candSpec) ← bpfCoreSpecMatch lb localSpec c.btf c.id n
  if !matched then return none
  let res ← bpfCoreCalcRelo host relo.kind lb localSpec (some (c.btf, candSpec)) n
  return some (res, candSpec)

/-- The fields in which later candidates are compared with the first. -/
def candsAgree (first cand : CoreReloRes × CoreSpec) : Bool :=
  cand.2.bitOffset == first.2.bitOffset && cand.1.poison == first.1.poison
    && cand.1.newVal == first.1.newVal

/-- The loop of `bpf_core_calc_relo_insn`: the first result, and the
candidates that matched. -/
def candsFrom {α β : Type} (eval : α → Res (Option β))
    (agree : β → β → Bool) : List α → Option β → Res (Option β × List α)
  | [], first => .ok (first, [])
  | c :: cs, first => do
    match ← eval c with
    | none => candsFrom eval agree cs first
    | some r =>
      match first with
      | none =>
        let (first, kept) ← candsFrom eval agree cs (some r)
        return (first, c :: kept)
      | some f =>
        failIf (agree f r = false) EINVAL
        let (first, kept) ← candsFrom eval agree cs (some f)
        return (first, c :: kept)

/-- `bpf_core_calc_relo_insn`: the result, and the candidates it leaves in
the list. -/
def bpfCoreCalcReloInsn (host : ByteOrder) (relo : CoreRelo) (lb : Btf)
    (cands : List CoreCand) (n : Nat) : Res (CoreReloRes × List CoreCand) := do
  let localType ← deref (btfTypeById lb relo.typeId)
  let localName ← match lb.strByOffset localType.nameOff with
    | none => fail EINVAL
    | some s => pure s
  let localSpec ← match bpfCoreParseSpec lb relo n with
    | .error (.err _) => fail EINVAL
    | r => r
  if relo.kind = .typeIdLocal then
    return (⟨localSpec.rootTypeId, localSpec.rootTypeId, false, false, false, 0, 0, 0, 0⟩, cands)
  failIf (localName.val = []) EOPNOTSUPP
  let (first, kept) ← candsFrom (evalCand host relo lb localSpec n)
    candsAgree cands none
  match first with
  | some (res, _) => return (res, kept)
  | none =>
    let res ← bpfCoreCalcRelo host relo.kind lb localSpec none n
    return (res, cands)

end Libbpf
