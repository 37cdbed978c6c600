/-
Copying types between objects: `btf__add_type` and `btf__add_btf`.

A copied record keeps its words but for the string offsets, which are
rewritten to offsets of the same string in the destination, adding the
string there if need be. `btf__add_btf` also moves the type IDs that
refer to the source's own types. Its records are written past the end of
the destination's type data and stay invisible until the last one is
done; its strings are in the destination at once.
-/
import Libbpf.Btf.Build

namespace Libbpf

open Lib

/-- `struct btf_pipe` but for the source. -/
structure BtfPipe where
  dst : Btf
  strOffMap : Option Hashmap

/-- Run a computation on the destination. -/
def onDst {α : Type} (m : Run Btf α) : Run BtfPipe α := fun p =>
  match m p.dst with
  | .ok a dst => .ok a { p with dst }
  | .error e dst => .error e { p with dst }

/-- `btf_dedup_identity_hash_fn` and `btf_dedup_equal_fn`. -/
def strOffFind (map : Hashmap) (strOff : Nat) : Option Nat :=
  map.find id (· == ·) strOff

def strOffAppend (map : Hashmap) (strOff off : Nat) : Hashmap :=
  (map.insert id (· == ·) strOff off .append).map

/-- `btf_rewrite_str`: the offset in the destination. -/
def btfRewriteStr (src : Btf) (strOff : Nat) : Run BtfPipe Nat := fun p =>
  if strOff = 0 then .ok 0 p
  else
    match p.strOffMap.bind (strOffFind · strOff) with
    | some mappedOff => .ok mappedOff p
    | none =>
      match src.strByOffset strOff with
      | none => .error .fault p
      | some s =>
        match Btf.addStr s p.dst with
        | .error e dst => .error e { p with dst }
        | .ok off dst =>
          .ok off ⟨dst, p.strOffMap.map (strOffAppend · strOff off)⟩

/-- A turn of the loop over the string offsets of a record; an offset
below `keep` stays. -/
def btfRewriteSlot (src : Btf) (keep strOff : Nat) : Run BtfPipe Nat := fun p =>
  if strOff < keep then .ok strOff p else btfRewriteStr src strOff p

/-- The loop. -/
def btfRewriteStrs (src : Btf) (keep : Nat) : List Nat → BtfType → Run BtfPipe BtfType
  | [], t => pure t
  | i :: slots, t => do
    let off ← btfRewriteSlot src keep (t.word i)
    btfRewriteStrs src keep slots (t.setWord i off)

/-- `memcpy` of `sz` bytes of a record. -/
def btfCopyType (sz : Nat) (t : BtfType) : Res BtfType :=
  if t.byteSz < sz then .error .fault
  else .ok { t with rest := t.rest.take ((sz - 12) / 4) }

/-- `btf_add_type`. -/
def btfAddType (src : Btf) (srcType : BtfType) : Run BtfPipe Nat := do
  let sz ← liftRes (btfTypeSize src srcType)
  onDst btfEnsureModifiable
  onDst (btfAddTypeMem sz)
  let t ← liftRes (btfCopyType sz srcType)
  let slots ← liftRes (btfFieldSlots .strs t)
  let t ← btfRewriteStrs src 0 slots t
  onDst (btfCommitType t)

/-- `btf__add_type`. -/
def Btf.addType (src : Btf) (srcType : BtfType) : Run Btf Nat := fun btf =>
  match btfAddType src srcType ⟨btf, none⟩ with
  | .ok id p => .ok id p.dst
  | .error e p => .error e p.dst

/-- The ID loop of `btf__add_btf` on one record: own IDs of the source
move from `lo` to `hi`. -/
def btfShiftIds (lo hi : Nat) (slots : List Nat) (t : BtfType) : BtfType :=
  slots.foldl (fun t i =>
    if t.word i = 0 ∨ t.word i < lo then t
    else t.setWord i ((t.word i + hi - lo) % 2 ^ 32)) t

/-- One turn of the main loop of `btf__add_btf`. -/
def btfCopyOne (src : Btf) (lo hi : Nat) (t : BtfType) : Run BtfPipe BtfType := do
  let _ ← liftRes (btfTypeSize src t)
  let slots ← liftRes (btfFieldSlots .strs t)
  let t ← btfRewriteStrs src src.startStrOff slots t
  let slots ← liftRes (btfFieldSlots .ids t)
  return btfShiftIds lo hi slots t

/-- The main loop. -/
def btfCopyAll (src : Btf) (lo hi : Nat) : List BtfType → Run BtfPipe (List BtfType)
  | [] => pure []
  | t :: ts => do
    let t ← btfCopyOne src lo hi t
    let ts ← btfCopyAll src lo hi ts
    return t :: ts

/-- The reservations of `btf__add_btf`. The source's type length is an
`int` there: one past its range asks for an absurd amount, which is
refused unless the sum happens to wrap around to a small one. -/
def btfAddBtfMem (src btf : Btf) : Res Unit := do
  let dataSz := src.hdr.typeLen
  let cnt := src.nrTypes
  if dataSz ≥ 2 ^ 31 ∧ btf.hdr.typeLen + dataSz ≥ 2 ^ 32 then .error .fault
  failIf (dataSz ≥ 2 ^ 31) ENOMEM
  failIf (btf.hdr.typeLen + dataSz > 2 ^ 32 - 1) ENOMEM
  failIf (btf.nrTypes + cnt > BTF_MAX_NR_TYPES) ENOMEM
  -- the index of an object without types is a NULL pointer
  failIf (btf.nrTypes + cnt = 0) ENOMEM

/-- `btf__add_btf` once the destination is modifiable. -/
def btfAddBtf (src : Btf) : Run Btf Nat := do
  let btf ← get
  liftRes (btfAddBtfMem src btf)
  let lo := match src.baseBtf with
    | some base => base.typeCnt
    | none => 1
  match btfCopyAll src lo (btf.startId + btf.nrTypes) src.types
      ⟨btf, some Hashmap.init⟩ with
  | .error e p =>
    -- only the header goes back: the strings stay in the set
    set { p.dst with hdr := { p.dst.hdr with strLen := btf.hdr.strLen } }
    throw e
  | .ok types p =>
    set (btfHdrUpdateTypeLen (p.dst.hdr.typeLen + src.hdr.typeLen) { p.dst with
      types := p.dst.types ++ types
      typeOffs := p.dst.typeOffs ++ offsFrom BtfType.byteSz p.dst.hdr.typeLen types })
    let cnt ← liftRes (intSum btf.startId (btf.nrTypes + src.nrTypes))
    return cnt - src.nrTypes

/-- `btf__add_btf`. -/
def Btf.addBtf (src : Btf) : Run Btf Nat := do
  let btf ← get
  check (src.baseBtf.isSome ∧ src.baseBtf.map (·.addr) ≠ btf.baseBtf.map (·.addr)) EOPNOTSUPP
  btfEnsureModifiable
  btfAddBtf src

end Libbpf
