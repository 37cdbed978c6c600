/-
`btf__relocate`: moving a split object from its distilled base to another
base.

A distilled base has the named types that the split object refers to, and
nothing about what is in them. Each is looked for in the new base, by name
and where it matters by size; the maps that come of it, one for type IDs and
one for string offsets, are then applied to the records of the split object
where they lie, first all the IDs and then all the strings. Last the object
is put on the new base.

Names are sorted by the C library: `qsort` is a parameter. The search for
embedded structs follows references as long as they go, so it takes a bound.
A difference of the two string lengths is added to an offset modulo the word.
-/
import Libbpf.Btf.AddBtf
import Libbpf.Core.Type

namespace Libbpf

open Lib

/-- `BTF_IS_EMBEDDED`. -/
def BTF_IS_EMBEDDED : Nat := 2 ^ 32 - 1

/-- `struct btf_name_info`; `size` has 31 bits. -/
structure BtfNameInfo where
  name : CStr
  needsSize : Bool
  size : Nat
  id : Nat
deriving DecidableEq

/-- `strcmp`, as far as its sign goes. -/
def strcmp (a b : CStr) : Int :=
  if a.val < b.val then -1 else if b.val < a.val then 1 else 0

/-- `cmp_btf_name_size`. -/
def cmpBtfNameSize (n1 n2 : BtfNameInfo) : Int :=
  let nameDiff := strcmp n1.name n2.name
  if nameDiff = 0 ∧ n1.needsSize ∧ n2.needsSize then (n2.size : Int) - n1.size
  else nameDiff

/-- The loop of `search_btf_name_size`; `high` is one more than the
source's, so that it does not go below zero. -/
def searchBtfNameSizeFrom (key : BtfNameInfo) (vals : List BtfNameInfo) :
    Nat → Nat → Nat → Option Nat → Res (Option Nat)
  | 0, _, _, _ => .error .fuel
  | fuel + 1, low, high, ret =>
    if low < high then do
      let mid := (low + (high - 1)) / 2
      let val ← deref vals[mid]?
      let diff := cmpBtfNameSize key val
      let ret := if diff = 0 then some mid else ret
      -- even if found, keep searching for the leftmost match
      if diff ≤ 0 then searchBtfNameSizeFrom key vals fuel low mid ret
      else searchBtfNameSizeFrom key vals fuel (mid + 1) high ret
    else return ret

/-- `search_btf_name_size`. -/
def searchBtfNameSize (key : BtfNameInfo) (vals : List BtfNameInfo) : Res (Option Nat) :=
  searchBtfNameSizeFrom key vals (vals.length + 1) 0 vals.length none

/-- The two maps of `struct btf_relocate`. -/
structure BtfRelocateMaps where
  idMap : List Nat
  strMap : List Nat
deriving DecidableEq

-- ======== the two bases

/-- `btf_relocate_validate_distilled_base`. -/
def btfRelocateValidateDistilledBase (dist : Btf) : Res Unit :=
  checkAll (fun i => do
    let t ← deref (btfTypeById dist i)
    match t.kind with
    | .int | .float | .enum | .struct | .union | .fwd => failIf (t.nameOff = 0) EINVAL
    | _ => fail EINVAL) (List.range' 1 (dist.typeCnt - 1))

/-- The walk of `btf_mark_embedded_composite_type_ids` from one member. -/
def btfMarkEmbeddedFrom (btf : Btf) (nrDist : Nat) : Nat → Nat → List Nat → Res (List Nat)
  | 0, _, _ => .error .fuel
  | fuel + 1, nextId, idMap =>
    if nextId = 0 then .ok idMap
    else do
      let t ← deref (btfTypeById btf nextId)
      match t.kind with
      | .const | .restrict | .volatile | .typedef | .typeTag =>
        btfMarkEmbeddedFrom btf nrDist fuel t.type idMap
      | .array => btfMarkEmbeddedFrom btf nrDist fuel (t.word 3) idMap
      | .struct | .union =>
        return if nextId < nrDist then idMap.set nextId BTF_IS_EMBEDDED else idMap
      | _ => return idMap

/-- The loop over the members. -/
def btfMarkEmbeddedSlots (btf : Btf) (nrDist fuel : Nat) (t : BtfType) :
    List Nat → List Nat → Res (List Nat)
  | [], idMap => .ok idMap
  | i :: slots, idMap => do
    let idMap ← btfMarkEmbeddedFrom btf nrDist fuel (t.word i) idMap
    btfMarkEmbeddedSlots btf nrDist fuel t slots idMap

/-- `btf_mark_embedded_composite_type_ids` on the types `ids`. -/
def btfMarkEmbedded (btf : Btf) (nrDist fuel : Nat) : List Nat → List Nat → Res (List Nat)
  | [], idMap => .ok idMap
  | i :: ids, idMap => do
    let t ← deref (btfTypeById btf i)
    if t.isComposite then
      let slots ← btfFieldSlots .ids t
      let idMap ← btfMarkEmbeddedSlots btf nrDist fuel t slots idMap
      btfMarkEmbedded btf nrDist fuel ids idMap
    else btfMarkEmbedded btf nrDist fuel ids idMap

/-- The sort index of the distilled base, not yet sorted. -/
def btfNameInfos (dist : Btf) : List Nat → Res (List BtfNameInfo)
  | [] => .ok []
  | id :: ids => do
    let t ← deref (btfTypeById dist id)
    let name ← deref (dist.strByOffset t.nameOff)
    let infos ← btfNameInfos dist ids
    return ⟨name, true, t.size % 2 ^ 31, id⟩ :: infos

/-- The name counts of the structs and unions of the base, by offset. -/
def btfBaseNameCnt (base : Btf) : List Nat → List Nat → Res (List Nat)
  | [], cnts => .ok cnts
  | id :: ids, cnts => do
    let t ← deref (btfTypeById base id)
    if !t.isComposite || t.nameOff == 0 then btfBaseNameCnt base ids cnts
    else
      let cnt ← deref cnts[t.nameOff]?
      btfBaseNameCnt base ids (if cnt < 255 then cnts.set t.nameOff (cnt + 1) else cnts)

/-- What a base type is looked for with; `none` for the kinds a distilled
base does not have. -/
def btfBaseInfo (base : Btf) (nameCnt : List Nat) (id : Nat) (t : BtfType) :
    Res (Option BtfNameInfo) := do
  let name ← deref (base.strByOffset t.nameOff)
  match t.kind with
  | .int | .float | .enum | .enum64 => return some ⟨name, true, t.size % 2 ^ 31, id⟩
  -- no size considerations
  | .fwd => return some ⟨name, false, 0, id⟩
  | .struct | .union =>
    let cnt ← deref nameCnt[t.nameOff]?
    return some ⟨name, cnt > 1, t.size % 2 ^ 31, id⟩
  | _ => return none

/-- Whether the type found in the distilled base is compatible; `cur` is
its entry in the map. -/
def btfDistilledCompat (distT baseT : BtfType) (cur : Nat) : Bool :=
  match distT.kind with
  | .fwd =>
    match baseT.kind with
    | .fwd => distT.kflag == baseT.kflag
    | .struct => !baseT.kflag
    | .union => baseT.kflag
    | _ => false
  | .int => baseT.kind == .int
      && btfIntEncoding (baseT.word 3) == btfIntEncoding (distT.word 3)
  | .float => baseT.kind == .float
  -- an enum64 is encoded as a sized enum in a distilled base
  | .enum => baseT.kind == .enum || baseT.kind == .enum64
  -- the size is that of an embedded struct or union
  | .struct | .union => !(cur == BTF_IS_EMBEDDED && baseT.size != distT.size)
  | _ => false

/-- The loop over the distilled types that a base type compares equal to. -/
def btfRelocateMatch (dist : Btf) (baseT : BtfType) (baseInfo : BtfNameInfo) :
    List BtfNameInfo → BtfRelocateMaps → Res BtfRelocateMaps
  | [], m => .ok m
  | d :: ds, m =>
    if cmpBtfNameSize baseInfo d ≠ 0 then .ok m
    else do
      failIf (d.id = 0 ∨ d.id ≥ dist.typeCnt) EINVAL
      let distT ← deref (btfTypeById dist d.id)
      let cur ← deref m.idMap[d.id]?
      if btfDistilledCompat distT baseT cur then
        -- several base types of the same name and size
        failIf (cur ≠ 0 ∧ cur ≠ BTF_IS_EMBEDDED) EINVAL
        faultIf (distT.nameOff ≥ m.strMap.length)
        btfRelocateMatch dist baseT baseInfo ds
          ⟨m.idMap.set d.id baseInfo.id, m.strMap.set distT.nameOff baseT.nameOff⟩
      else btfRelocateMatch dist baseT baseInfo ds m

/-- The loop over the types of the base. -/
def btfRelocateMatchAll (base dist : Btf) (info : List BtfNameInfo) (nameCnt : List Nat) :
    List Nat → BtfRelocateMaps → Res BtfRelocateMaps
  | [], m => .ok m
  | id :: ids, m => do
    let baseT ← deref (btfTypeById base id)
    -- a distilled base consists of named types only
    if baseT.nameOff = 0 then btfRelocateMatchAll base dist info nameCnt ids m
    else
      match ← btfBaseInfo base nameCnt id baseT with
      | none => btfRelocateMatchAll base dist info nameCnt ids m
      | some baseInfo =>
        match ← searchBtfNameSize baseInfo info with
        | none => btfRelocateMatchAll base dist info nameCnt ids m
        | some i =>
          let m ← btfRelocateMatch dist baseT baseInfo (info.drop i) m
          btfRelocateMatchAll base dist info nameCnt ids m

/-- `btf_relocate_map_distilled_base`. -/
def btfRelocateMapDistilledBase (qsort : List BtfNameInfo → List BtfNameInfo) (fuel : Nat)
    (btf base dist : Btf) (m : BtfRelocateMaps) : Res BtfRelocateMaps := do
  let nrDist := dist.typeCnt
  let info ← btfNameInfos dist (List.range nrDist)
  let info := qsort info
  let idMap ← btfMarkEmbedded btf nrDist fuel (List.range' nrDist (btf.typeCnt - nrDist)) m.idMap
  let nameCnt ← btfBaseNameCnt base (List.range' 1 (base.typeCnt - 1))
    (List.replicate base.hdr.strLen 0)
  let m ← btfRelocateMatchAll base dist info nameCnt (List.range' 1 (base.typeCnt - 1))
    { m with idMap }
  -- every distilled type has a mapping
  checkAll (fun id => do
    let cur ← deref m.idMap[id]?
    failIf (cur = 0 ∨ cur = BTF_IS_EMBEDDED) EINVAL) (List.range' 1 (nrDist - 1))
  return m

-- ======== the rewriting

/-- Write a type section of the same layout where the types lie: in the raw
data, unless the object was made modifiable. -/
def btfStoreTypes (host : ByteOrder) (types : List BtfType) (btf : Btf) : Btf :=
  { btf with
    types
    rawData := match btf.strs with
      | .raw _ => btf.rawData.map fun raw =>
        patch raw (btf.hdr.hdrLen + btf.hdr.typeOff) (types.flatMap (BtfType.bytes host))
      | .set _ => btf.rawData }

/-- Change an own record where it lies. -/
def onType (host : ByteOrder) (id : Nat) (m : Run BtfType Unit) : Run Btf Unit := fun btf =>
  match btf.types[id - btf.startId]? with
  | none => .error .fault btf
  | some t =>
    match m t with
    | .ok _ t => .ok () (btfStoreTypes host (btf.types.set (id - btf.startId) t) btf)
    | .error e t => .error e (btfStoreTypes host (btf.types.set (id - btf.startId) t) btf)

/-- Change one word of a record. -/
def onWord (f : Nat → Res Nat) (i : Nat) : Run BtfType Unit := fun t =>
  match f (t.word i) with
  | .ok w => .ok () (t.setWord i w)
  | .error e => .error e t

/-- Change the words of a record that the iterator visits. -/
def onFields (kind : BtfFieldIterKind) (f : Nat → Res Nat) : Run BtfType Unit := do
  let t ← get
  let slots ← liftRes (btfFieldSlots kind t)
  each (onWord f) slots

/-- `btf_relocate_rewrite_type_id`. -/
def btfRelocateRewriteTypeId (host : ByteOrder) (m : BtfRelocateMaps) (i : Nat) : Run Btf Unit :=
  onType host i (onFields .ids fun id => deref m.idMap[id]?)

/-- The new value of a string offset. -/
def btfRelocateStr (distStrLen baseStrLen : Nat) (strMap : List Nat) (strOff : Nat) : Res Nat :=
  if strOff = 0 then .ok 0
  else if strOff ≥ distStrLen then
    .ok ((strOff + baseStrLen + 2 ^ 32 - distStrLen) % 2 ^ 32)
  else do
    let off ← deref strMap[strOff]?
    failIf (off = 0) ENOENT
    return off

/-- `btf_relocate_rewrite_strs`. -/
def btfRelocateRewriteStrs (host : ByteOrder) (base dist : Btf) (m : BtfRelocateMaps)
    (i : Nat) : Run Btf Unit :=
  onType host i (onFields .strs (btfRelocateStr dist.hdr.strLen base.hdr.strLen m.strMap))

/-- `btf_set_base_btf`. -/
def btfSetBaseBtf (base btf : Btf) : Btf :=
  { btf with
    baseBtf := some base
    startId := base.typeCnt
    startStrOff := base.hdr.strLen + base.startStrOff }

/-- `btf__relocate`. -/
def btfRelocate (host : ByteOrder) (qsort : List BtfNameInfo → List BtfNameInfo) (fuel : Nat)
    (base : Option Btf) : Run Btf Unit := do
  let btf ← get
  let base ← liftRes (match base with
    | none => fail EINVAL
    | some base => .ok base)
  liftRes (failIf (btf.baseBtf.map (·.addr) = some base.addr) EINVAL)
  let dist ← liftRes (deref btf.baseBtf)
  let nrDist := dist.typeCnt
  let nrSplit := btf.typeCnt - nrDist
  liftRes (btfRelocateValidateDistilledBase dist)
  -- split IDs move with the number of types of the base
  let idMap := List.replicate nrDist 0 ++ (List.range' nrDist nrSplit).map fun id =>
      (id + base.typeCnt + 2 ^ 32 - nrDist) % 2 ^ 32
  let m ← liftRes (btfRelocateMapDistilledBase qsort fuel btf base dist
    ⟨idMap, List.replicate dist.hdr.strLen 0⟩)
  each (btfRelocateRewriteTypeId host m) (List.range' nrDist nrSplit)
  each (btfRelocateRewriteStrs host base dist m) (List.range' nrDist nrSplit)
  modify (btfSetBaseBtf base)

end Libbpf
