/-
Map definitions in BTF.

A map is declared as a variable of a struct type whose members stand for its
attributes: `int (*type)[1]` says that the map is of type 1, `__u32 *key` that
its keys are `__u32`. `parse_btf_map_def` goes over the members and collects
the attributes in a `btf_map_def`; `values` may hold the definition of an
inner map.

A member is read first (`readMapField`: which attribute, and its value, which
depend on the BTF only), then entered into what was collected so far
(`MapField.apply`).
-/
import Libbpf.Btf.Parse
import Libbpf.Core.Type
import Libbpf.Lib.Text

namespace Libbpf

open Lib

def MAP_DEF_MAP_TYPE : Nat := 0x001
def MAP_DEF_KEY_TYPE : Nat := 0x002
def MAP_DEF_KEY_SIZE : Nat := 0x004
def MAP_DEF_VALUE_TYPE : Nat := 0x008
def MAP_DEF_VALUE_SIZE : Nat := 0x010
def MAP_DEF_MAX_ENTRIES : Nat := 0x020
def MAP_DEF_MAP_FLAGS : Nat := 0x040
def MAP_DEF_NUMA_NODE : Nat := 0x080
def MAP_DEF_PINNING : Nat := 0x100
def MAP_DEF_INNER_MAP : Nat := 0x200
def MAP_DEF_MAP_EXTRA : Nat := 0x400

def BPF_MAP_TYPE_UNSPEC : Nat := 0
def BPF_MAP_TYPE_PROG_ARRAY : Nat := 3
def BPF_MAP_TYPE_ARRAY_OF_MAPS : Nat := 12
def BPF_MAP_TYPE_HASH_OF_MAPS : Nat := 13

/-- `struct btf_map_def`. -/
structure BtfMapDef where
  parts : Nat := 0
  mapType : Nat := 0
  keyTypeId : Nat := 0
  keySize : Nat := 0
  valueTypeId : Nat := 0
  valueSize : Nat := 0
  maxEntries : Nat := 0
  mapFlags : Nat := 0
  numaNode : Nat := 0
  pinning : Nat := 0
  mapExtra : Nat := 0
deriving DecidableEq

/-- The members of a struct. -/
def BtfType.members? (t : BtfType) : Option (List BtfMember) := (List.range t.vlen).mapM t.member?

-- ======== reading a member

/-- `get_map_field_int`: nothing, if it returns false. -/
def getMapFieldInt (btf : Btf) (n : Nat) (m : BtfMember) : Res (Option Nat) := do
  let (t, _) ← skipModsAndTypedefs btf n m.type
  if t.kind ≠ .ptr then return none
  match btf.typeById t.type with
  | none => return none
  | some arrT =>
    if arrT.isArray = false then return none
    let arr ← deref arrT.array?
    return some arr.nelems

/-- `get_map_field_long`. -/
def getMapFieldLong (btf : Btf) (n : Nat) (m : BtfMember) : Res (Option Nat) := do
  let (t, _) ← skipModsAndTypedefs btf n m.type
  if t.kind = .ptr then getMapFieldInt btf n m
  else if t.isAnyEnum = false then return none
  else if t.vlen ≠ 1 then return none
  else return some (← deref (btfEnumValue? t 0))

/-- An attribute that a member sets. -/
inductive MapField where
  | type (v : Nat)
  | maxEntries (v : Nat)
  | mapFlags (v : Nat)
  | numaNode (v : Nat)
  | keySize (sz : Nat)
  | key (sz typeId : Nat)
  | valueSize (sz : Nat)
  | value (sz typeId : Nat)
  /-- What `values` says depends on the type of the map. -/
  | values
  | pinning (v : Nat)
  | mapExtra (v : Nat)
  /-- An unknown member, when these are ignored. -/
  | unknown
deriving DecidableEq

/-- A member that has to hold an integer. -/
def readInt (btf : Btf) (n : Nat) (m : BtfMember) (f : Nat → MapField) : Res MapField := do
  match ← getMapFieldInt btf n m with
  | none => fail EINVAL
  | some v => return f v

/-- A member that has to be a pointer to the type of the keys or values. -/
def readType (btf : Btf) (m : BtfMember) (f : Nat → Nat → MapField) : Res MapField :=
  match btf.typeById m.type with
  | none => fail EINVAL
  | some t => do
    failIf (t.kind ≠ .ptr) EINVAL
    let sz ← btfResolveSize btf t.type
    return f sz t.type

/-- A member of a map definition, up to the checks against what was collected. -/
def readMapField (btf : Btf) (n : Nat) (strict isInner : Bool) (m : BtfMember) : Res MapField :=
  match btf.strByOffset m.nameOff with
  | none => fail EINVAL
  | some name =>
    if name.val = ascii "type" then readInt btf n m .type
    else if name.val = ascii "max_entries" then readInt btf n m .maxEntries
    else if name.val = ascii "map_flags" then readInt btf n m .mapFlags
    else if name.val = ascii "numa_node" then readInt btf n m .numaNode
    else if name.val = ascii "key_size" then readInt btf n m .keySize
    else if name.val = ascii "key" then readType btf m .key
    else if name.val = ascii "value_size" then readInt btf n m .valueSize
    else if name.val = ascii "value" then readType btf m .value
    else if name.val = ascii "values" then .ok .values
    else if name.val = ascii "pinning" then do
      failIf (isInner = true) EINVAL
      let f ← readInt btf n m .pinning
      -- LIBBPF_PIN_NONE or LIBBPF_PIN_BY_NAME
      failIf (f ≠ .pinning 0 ∧ f ≠ .pinning 1) EINVAL
      return f
    else if name.val = ascii "map_extra" then do
      match ← getMapFieldLong btf n m with
      | none => fail EINVAL
      | some v => return .mapExtra v
    else if strict then fail ENOTSUP
    else .ok .unknown

-- ======== collecting

/-- A size is there already, and another one: 0 stands for none. -/
def MapField.Clashes (d : BtfMapDef) : MapField → Prop
  | .keySize sz | .key sz _ => d.keySize ≠ 0 ∧ d.keySize ≠ sz
  | .valueSize sz | .value sz _ => d.valueSize ≠ 0 ∧ d.valueSize ≠ sz
  | _ => False

instance (d : BtfMapDef) : (f : MapField) → Decidable (f.Clashes d)
  | .keySize _ | .key _ _ | .valueSize _ | .value _ _ => inferInstanceAs (Decidable (_ ∧ _))
  | .type _ | .maxEntries _ | .mapFlags _ | .numaNode _ | .values | .pinning _ | .mapExtra _
  | .unknown => inferInstanceAs (Decidable False)

/-- The definition with an attribute set. -/
def MapField.set (d : BtfMapDef) : MapField → BtfMapDef
  | .type v => { d with mapType := v, parts := d.parts ||| MAP_DEF_MAP_TYPE }
  | .maxEntries v => { d with maxEntries := v, parts := d.parts ||| MAP_DEF_MAX_ENTRIES }
  | .mapFlags v => { d with mapFlags := v, parts := d.parts ||| MAP_DEF_MAP_FLAGS }
  | .numaNode v => { d with numaNode := v, parts := d.parts ||| MAP_DEF_NUMA_NODE }
  | .keySize sz => { d with keySize := sz, parts := d.parts ||| MAP_DEF_KEY_SIZE }
  | .key sz typeId =>
    { d with
      keySize := sz, keyTypeId := typeId
      parts := d.parts ||| (MAP_DEF_KEY_SIZE ||| MAP_DEF_KEY_TYPE) }
  | .valueSize sz => { d with valueSize := sz, parts := d.parts ||| MAP_DEF_VALUE_SIZE }
  | .value sz typeId =>
    { d with
      valueSize := sz, valueTypeId := typeId
      parts := d.parts ||| (MAP_DEF_VALUE_SIZE ||| MAP_DEF_VALUE_TYPE) }
  | .pinning v => { d with pinning := v, parts := d.parts ||| MAP_DEF_PINNING }
  | .mapExtra v => { d with mapExtra := v, parts := d.parts ||| MAP_DEF_MAP_EXTRA }
  | .values | .unknown => d

/-- Enter an attribute. -/
def MapField.apply (d : BtfMapDef) (f : MapField) : Res BtfMapDef := do
  failIf (f.Clashes d) EINVAL
  return f.set d

/-- What is collected: the map's definition and that of its inner map. -/
abbrev MapDefs := BtfMapDef × BtfMapDef

/-- One member that was read; `onValues` is told whether it is the last. -/
def enterField (onValues : Bool → BtfMember → MapDefs → Res MapDefs) (isLast : Bool)
    (m : BtfMember) (d : MapDefs) (f : MapField) : Res MapDefs :=
  if f = .values then onValues isLast m d
  else do
    let def' ← f.apply d.1
    return (def', d.2)

/-- The loop of `parse_btf_map_def`. -/
def parseMembers (btf : Btf) (n : Nat) (strict isInner : Bool)
    (onValues : Bool → BtfMember → MapDefs → Res MapDefs) :
    List BtfMember → MapDefs → Res MapDefs
  | [], d => .ok d
  | m :: ms, d => do
    let f ← readMapField btf n strict isInner m
    let d ← enterField onValues ms.isEmpty m d f
    parseMembers btf n strict isInner onValues ms d

/-- `parse_btf_map_def` with what it does about `values`. -/
def parseDefWith (btf : Btf) (n : Nat) (strict isInner : Bool)
    (onValues : Bool → BtfMember → MapDefs → Res MapDefs) (ms : List BtfMember) (d : MapDefs) :
    Res MapDefs := do
  let d ← parseMembers btf n strict isInner onValues ms d
  failIf (d.1.mapType = BPF_MAP_TYPE_UNSPEC) EINVAL
  return d

/-- `parse_btf_map_def` of an inner map. -/
def parseInnerDef (btf : Btf) (n : Nat) (strict : Bool) (ms : List BtfMember) (d : BtfMapDef) :
    Res BtfMapDef := do
  let d ← parseDefWith btf n strict true (fun _ _ _ => fail ENOTSUP) ms (d, {})
  return d.1

def isMapInMap (mapType : Nat) : Bool :=
  mapType == BPF_MAP_TYPE_ARRAY_OF_MAPS || mapType == BPF_MAP_TYPE_HASH_OF_MAPS

/-- The member `values` of a map that is not an inner one. -/
def parseValues (btf : Btf) (n : Nat) (strict : Bool) (isLast : Bool) (m : BtfMember)
    (d : MapDefs) : Res MapDefs := do
  let isProgArray := d.1.mapType == BPF_MAP_TYPE_PROG_ARRAY
  failIf (isLast = false) EINVAL
  failIf (isMapInMap d.1.mapType = false ∧ isProgArray = false) ENOTSUP
  failIf (d.1.valueSize ≠ 0 ∧ d.1.valueSize ≠ 4) EINVAL
  let d : MapDefs := ({ d.1 with valueSize := 4 }, d.2)
  match btf.typeById m.type with
  | none => fail EINVAL
  | some t =>
    failIf (t.isArray = false) EINVAL
    let arr ← deref t.array?
    failIf (arr.nelems ≠ 0) EINVAL
    let (t, _) ← skipModsAndTypedefs btf n arr.type
    failIf (t.kind ≠ .ptr) EINVAL
    let (t, _) ← skipModsAndTypedefs btf n t.type
    if isProgArray then
      failIf (t.kind ≠ .funcProto) EINVAL
      return d
    else
      failIf (t.kind ≠ .struct) EINVAL
      let ms ← deref t.members?
      let inner ← parseInnerDef btf n strict ms d.2
      return ({ d.1 with parts := d.1.parts ||| MAP_DEF_INNER_MAP }, inner)

/-- `parse_btf_map_def` for a list of members; `isInner` is whether there is
no place for the definition of an inner map. -/
def parseMapMembers (btf : Btf) (n : Nat) (strict isInner : Bool) (ms : List BtfMember) :
    Res MapDefs :=
  if isInner then parseDefWith btf n strict true (fun _ _ _ => fail ENOTSUP) ms ({}, {})
  else parseDefWith btf n strict false (parseValues btf n strict) ms ({}, {})

/-- `parse_btf_map_def`, from definitions that are all zero. -/
def parseBtfMapDef (btf : Btf) (n : Nat) (defT : BtfType) (strict isInner : Bool) : Res MapDefs := do
  let ms ← deref defT.members?
  parseMapMembers btf n strict isInner ms

end Libbpf
