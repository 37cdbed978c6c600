/-
`btf__permute`: renumbering the types of an object.

The new type section is built in a buffer of its own, from an order
array that inverts the caller's map, and put in place at the very end.
The `.BTF.ext` records passed along are rewritten where they lie, before
that point and one by one.

Allocation does not fail here.
-/
import Libbpf.Btf.AddBtf
import Libbpf.Ext.Visit

namespace Libbpf

open Lib

/-- `struct btf_permute`, with what it reads of the object. -/
structure BtfPermute where
  startId : Nat
  typeCnt : Nat
  idMap : List Nat
  startOffs : Nat

/-- `btf_permute_remap_type_id`. -/
def btfPermuteRemapTypeId (p : BtfPermute) (typeId : Nat) : Res Nat :=
  -- the base and void are not renumbered
  if typeId < p.startId then .ok typeId
  else if typeId ≥ p.typeCnt then fail EINVAL
  else deref p.idMap[typeId - p.startId + p.startOffs]?

/-- The checks at the start of `btf__permute`. -/
def btfPermuteStart (idMap : List Nat) (btf : Btf) : Res BtfPermute :=
  match btf.baseBtf with
  | some _ => do
    failIf (idMap.length ≠ btf.nrTypes) EINVAL
    return ⟨btf.startId, btf.typeCnt, idMap, 0⟩
  | none => do
    let first ← deref idMap[0]?
    failIf (first ≠ 0) EINVAL
    failIf (idMap.length ≠ btf.typeCnt) EINVAL
    return ⟨btf.startId, btf.typeCnt, idMap, 1⟩

/-- The loop that records the sequence of types, from entry `i` of the
map on. -/
def btfPermuteOrderFrom (p : BtfPermute) : List Nat → Nat → List Nat → Res (List Nat)
  | [], _, order => .ok order
  | id :: ids, i, order => do
    failIf (id < p.startId ∨ id ≥ p.typeCnt) EINVAL
    let slot := id - (p.startId - p.startOffs)
    let cur ← deref order[slot]?
    failIf (cur ≠ 0) EINVAL
    btfPermuteOrderFrom p ids (i + 1) (order.set slot (i + p.startId - p.startOffs))

def btfPermuteOrder (p : BtfPermute) : Res (List Nat) :=
  btfPermuteOrderFrom p (p.idMap.drop p.startOffs) p.startOffs (List.replicate p.idMap.length 0)

/-- The ID loop on one record. -/
def btfPermuteIds (p : BtfPermute) : List Nat → BtfType → Res BtfType
  | [], t => .ok t
  | i :: slots, t => do
    let id ← btfPermuteRemapTypeId p (t.word i)
    btfPermuteIds p slots (t.setWord i id)

/-- `btf_type_size` where its result is not checked: a negative one is
taken for an absurd size. -/
def trustedTypeSize (btf : Btf) (t : BtfType) : Res Nat :=
  match btfTypeSize btf t with
  | .ok sz => .ok sz
  | .error _ => .error .fault

/-- The copying loop over the IDs in their new order, with `nt` bytes
written; `size` is that of the buffer. -/
def btfPermuteTypes (btf : Btf) (p : BtfPermute) (size : Nat) : List Nat → Nat → Res (List BtfType)
  | [], _ => .ok []
  | id :: ids, nt => do
    let t ← deref (btf.typeById id)
    let sz ← trustedTypeSize btf t
    let t ← btfCopyType sz t
    faultIf (nt + sz > size)
    let slots ← btfFieldSlots .ids t
    let t ← btfPermuteIds p slots t
    let ts ← btfPermuteTypes btf p size ids (nt + sz)
    return t :: ts

/-- The loop that indexes the new type section. -/
def btfPermuteOffs (btf : Btf) (types : List BtfType) : Nat → Nat → Res (List Nat)
  | 0, _ => .ok []
  | n + 1, nt => do
    let t ← deref (itemAt BtfType.byteSz types nt)
    let sz ← trustedTypeSize btf t
    let offs ← btfPermuteOffs btf types n (nt + sz)
    return nt :: offs

/-- What a call works on. -/
structure PermuteArgs where
  btf : Btf
  btfExt : Option BtfExt

def onBtf {α : Type} (m : Run Btf α) : Run PermuteArgs α := fun s =>
  match m s.btf with
  | .ok a btf => .ok a { s with btf }
  | .error e btf => .error e { s with btf }

def onBtfExt (m : Run BtfExt Unit) : Run PermuteArgs Unit := fun s =>
  match s.btfExt with
  | none => .ok () s
  | some ext =>
    match m ext with
    | .ok a ext => .ok a { s with btfExt := some ext }
    | .error e ext => .error e { s with btfExt := some ext }

/-- `btf__permute`. -/
def btfPermute (host : ByteOrder) (idMap : List Nat) : Run PermuteArgs Unit := do
  let s ← get
  let p ← liftRes (btfPermuteStart idMap s.btf)
  onBtf btfEnsureModifiable
  let order ← liftRes (btfPermuteOrder p)
  let s ← get
  let types ← liftRes (btfPermuteTypes s.btf p s.btf.hdr.typeLen (order.drop p.startOffs) 0)
  onBtfExt (btfExtVisitTypeIds host (btfPermuteRemapTypeId p))
  let typeOffs ← liftRes (btfPermuteOffs s.btf types (p.idMap.length - p.startOffs) 0)
  modify fun s => { s with btf := { s.btf with types, typeOffs } }

end Libbpf
