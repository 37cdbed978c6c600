/-
Finding a type by its name.

`btf_find_by_name_kind` looks in the base first. In the object itself it goes
through the types one by one, unless `named_start_id` notes that they were
found to be sorted by name: then the first type with the name is found by
halving, and the types of that name lie next to each other.
-/
import Libbpf.Lib.Search
import Libbpf.Btf.Parse

namespace Libbpf

open Lib

/-- The string `"void"`. -/
def cstrVoid : CStr := ⟨[118, 111, 105, 100], by decide⟩

/-- `strcmp(tname, name) >= 0` for the type `id`. -/
def btfNameGe (btf : Btf) (name : CStr) (id : Nat) : Res Bool := do
  let t ← deref (btfTypeById btf id)
  let tname ← deref (btf.strByOffset t.nameOff)
  return decide (¬ tname.val < name.val)

/-- `btf_find_type_by_name_bsearch`. -/
def btfFindTypeByNameBsearch (btf : Btf) (name : CStr) (startId : Nat) : Res Nat :=
  leftmost (btfNameGe btf name) btf.typeCnt (btf.typeCnt + 1) startId (btf.typeCnt - 1)

/-- `kind < 0 || btf_kind(t) == kind`. -/
def kindMatches (kind : Int) (t : BtfType) : Bool := kind < 0 || (t.kind.toNat : Int) == kind

/-- The loop over the types from the one found by halving. -/
def btfFindSorted (btf : Btf) (name : CStr) (kind : Int) : List Nat → Res Nat
  | [] => fail ENOENT
  | id :: ids => do
    let t ← deref (btf.typeById id)
    let tname ← deref (btf.strByOffset t.nameOff)
    if tname ≠ name then fail ENOENT
    else if kindMatches kind t then return id
    else btfFindSorted btf name kind ids

/-- The loop over all types. -/
def btfFindLinear (btf : Btf) (name : CStr) (kind : Int) : List Nat → Res Nat
  | [] => fail ENOENT
  | id :: ids => do
    let t ← deref (btfTypeById btf id)
    if kind > 0 ∧ (t.kind.toNat : Int) ≠ kind then btfFindLinear btf name kind ids
    else
      let tname ← deref (btf.strByOffset t.nameOff)
      if tname = name then return id
      else btfFindLinear btf name kind ids

/-- `btf_find_by_name_kind` from an own ID on. -/
def btfFindOwn (btf : Btf) (startId : Nat) (typeName : CStr) (kind : Int) : Res Nat :=
  if kind = 0 ∨ typeName = cstrVoid then .ok 0
  else if btf.namedStartId > 0 ∧ typeName ≠ CStr.empty then do
    let startId := max startId btf.namedStartId
    let id ← btfFindTypeByNameBsearch btf typeName startId
    btfFindSorted btf typeName kind (List.range' id (btf.typeCnt - id))
  else btfFindLinear btf typeName kind (List.range' startId (btf.typeCnt - startId))

/-- `btf_find_by_name_kind`. -/
def btfFindByNameKind (btf : Btf) (startId : Nat) (typeName : CStr) (kind : Int) : Res Nat :=
  match btf with
  | ⟨own, base⟩ =>
    if startId < own.startId then
      match base with
      | none => .error .fault
      | some base =>
        match btfFindByNameKind base startId typeName kind with
        | .error (.err _) => btfFindOwn ⟨own, some base⟩ own.startId typeName kind
        | res => res
    else btfFindOwn ⟨own, base⟩ startId typeName kind
termination_by structural btf

/-- `btf__find_by_name`. -/
def Btf.findByName (btf : Btf) (typeName : CStr) : Res Nat :=
  btfFindByNameKind btf 1 typeName (-1)

/-- `btf__find_by_name_kind_own`. -/
def Btf.findByNameKindOwn (btf : Btf) (typeName : CStr) (kind : UInt32) : Res Nat :=
  btfFindByNameKind btf btf.startId typeName kind.toInt32.toInt

/-- `btf__find_by_name_kind`. -/
def Btf.findByNameKind (btf : Btf) (typeName : CStr) (kind : UInt32) : Res Nat :=
  btfFindByNameKind btf 1 typeName kind.toInt32.toInt

end Libbpf
