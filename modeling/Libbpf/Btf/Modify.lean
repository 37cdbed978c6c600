/-
Making an object modifiable, and its string table.

A parsed object is read-only: its sections lie inside one blob. The
first modification splits it up and indexes its strings, which is also
what a mere string lookup needs, so `btf__find_str` on an object, or on
a split object for each of its bases, drops their cached blobs.
-/
import Libbpf.Btf.Parse

namespace Libbpf

open Lib

/-- `btf_invalidate_raw_data`. -/
def btfInvalidateRawData (btf : Btf) : Btf :=
  { btf with rawData := none, rawDataSwapped := none, namedStartId := 0 }

/-- `btf_ensure_modifiable`. -/
def btfEnsureModifiable : Run Btf Unit := fun btf =>
  match btf.strs with
  | .set _ => .ok () (btfInvalidateRawData btf)
  | .raw data =>
    if btf.hasHdrExtra then .error (.err (-EOPNOTSUPP)) btf
    else .ok () (btfInvalidateRawData { btf with
      strs := .set (Strset.new BTF_MAX_STR_OFFSET data)
      -- strings of an object made from scratch are unique
      strsDeduped := if btf.hdr.strLen = 0 ∨ btf.baseBtf.isNone ∧ btf.hdr.strLen = 1 then true
        else btf.strsDeduped })

/-- Return the sum of two `int`s; its overflow is undefined. -/
def intSum (a b : Nat) : Res Nat :=
  if a + b < 2 ^ 31 then .ok (a + b) else .error .fault

/-- The own half of `btf__find_str`. -/
def btfFindStrOwn (s : CStr) : Run Btf Nat := do
  btfEnsureModifiable
  let btf ← get
  match btf.strs with
  | .set ss =>
    let off ← liftRes (ss.findStr s)
    liftRes (intSum btf.startStrOff off)
  | .raw _ => throw .fault

/-- `btf__find_str`: the base first, then the object itself. -/
def Btf.findStr (s : CStr) (btf : Btf) : EStateM.Result Stop Btf Nat :=
  match btf with
  | ⟨own, none⟩ => btfFindStrOwn s ⟨own, none⟩
  | ⟨own, some base⟩ =>
    match Btf.findStr s base with
    | .error e base' =>
      if e = .err (-ENOENT) then btfFindStrOwn s ⟨own, some base'⟩
      else .error e ⟨own, some base'⟩
    | .ok off base' => .ok off ⟨own, some base'⟩
termination_by structural btf

/-- The own half of `btf__add_str`. -/
def btfAddStrOwn (s : CStr) : Run Btf Nat := do
  btfEnsureModifiable
  let btf ← get
  match btf.strs with
  | .set ss =>
    match Strset.addStr s ss with
    | .error e ss' =>
      set { btf with strs := .set ss' }
      throw e
    | .ok off ss' =>
      set { btf with
        strs := .set ss'
        hdr := { btf.hdr with strLen := ss'.strsData.length } }
      liftRes (intSum btf.startStrOff off)
  | .raw _ => throw .fault

/-- `btf__add_str`: a string the base has is not added again. -/
def Btf.addStr (s : CStr) : Run Btf Nat := fun btf =>
  match btf.baseBtf with
  | none => btfAddStrOwn s btf
  | some base =>
    match Btf.findStr s base with
    | .error e base' =>
      if e = .err (-ENOENT) then
        btfAddStrOwn s { btf with baseBtf := some base' }
      else .error e { btf with baseBtf := some base' }
    | .ok off base' => .ok off { btf with baseBtf := some base' }

-- ======== types

/-- `btf_add_type_mem`, as far as it can refuse. -/
def btfAddTypeMem (addSz : Nat) : Run Btf Unit := do
  let btf ← get
  liftRes (failIf (btf.hdr.typeLen + addSz > 2 ^ 32 - 1) ENOMEM)

/-- The header with another type length; the sections after the types
move, with or without a layout section. -/
def BtfHeader.withTypeLen (h : BtfHeader) (newLen : Nat) : Bool → BtfHeader
  | true =>
    { h with
      typeLen := newLen % 2 ^ 32
      layoutOff := (h.typeOff + newLen) % 2 ^ 32
      strOff := (h.typeOff + newLen + h.layoutLen) % 2 ^ 32 }
  | false =>
    { h with
      typeLen := newLen % 2 ^ 32
      strOff := (h.typeOff + newLen) % 2 ^ 32 }

/-- `btf_hdr_update_type_len`. -/
def btfHdrUpdateTypeLen (newLen : Nat) (btf : Btf) : Btf :=
  { btf with hdr := btf.hdr.withTypeLen newLen btf.layout.isSome }

/-- `btf_commit_type` of the record written after the last one. -/
def btfCommitType (t : BtfType) : Run Btf Nat := do
  let btf ← get
  liftRes (failIf (btf.nrTypes + 1 > BTF_MAX_NR_TYPES) ENOMEM)
  set (btfHdrUpdateTypeLen (btf.hdr.typeLen + t.byteSz) { btf with
    types := btf.types ++ [t]
    typeOffs := btf.typeOffs ++ [btf.hdr.typeLen] })
  -- `start_id + nr_types - 1`
  let cnt ← liftRes (intSum btf.startId (btf.nrTypes + 1))
  return cnt - 1

end Libbpf
