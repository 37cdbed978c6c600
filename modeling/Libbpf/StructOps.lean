/-
The maps of a struct_ops section.

`init_struct_ops_maps` adds a map for each variable of the section's DATASEC.
A name that starts with `?` says that the maps are not created by default;
the first variable takes the `?` off the name, so the others do not see it
(`structOpsVars_eq_ok`). The end of a variable is computed in 32 bits.
-/
import Mathlib.Data.List.Forall2
import Libbpf.Btf.Find
import Libbpf.Btf.Image
import Libbpf.Core.Type
import Libbpf.Lib.Text

namespace Libbpf

open Lib List

def BPF_F_LINK : Nat := 2 ^ 13
def STRUCT_OPS_SEC : Bytes := ascii ".struct_ops"
def STRUCT_OPS_LINK_SEC : Bytes := ascii ".struct_ops.link"

/-- The character `?`. -/
def questionMark : UInt8 := 63

/-- The sections that `bpf_object__elf_collect` takes for struct_ops ones. -/
def structOpsSecs : List Bytes :=
  [STRUCT_OPS_SEC, STRUCT_OPS_LINK_SEC, questionMark :: STRUCT_OPS_SEC,
    questionMark :: STRUCT_OPS_LINK_SEC]

/-- `btf__resolve_type`, with the steps that are left of `MAX_RESOLVE_DEPTH`. -/
def btfResolveType (btf : Btf) : Nat → Nat → Res Nat
  | 0, _ => fail EINVAL
  | depth + 1, id =>
    match btf.typeById id with
    | none => fail EINVAL
    | some t =>
      if id = 0 ∨ t.kind = .fwd then fail EINVAL
      else if t.isMod || t.isTypedef || t.kind == .var then btfResolveType btf depth t.type
      else .ok id

/-- A variable of the section. -/
structure StructOpsVar where
  name : CStr
  typeId : Nat
  offset : Nat
  size : Nat
deriving DecidableEq

/-- The fields of `struct bpf_map` and of its `st_ops` that are set. -/
structure StructOpsMap where
  secIdx : Int
  secOffset : Nat
  name : CStr
  btfValueTypeId : Nat
  autocreate : Bool
  keySize : Nat
  valueSize : Nat
  maxEntries : Nat
  mapFlags : Nat
  autoattach : Bool
  data : Bytes
  typeId : Nat
deriving DecidableEq

/-- Variable `i` of the DATASEC, if it is a struct with a name. -/
def structOpsVar (btf : Btf) (datasec : BtfType) (i : Nat) : Res StructOpsVar := do
  let type ← deref datasec.rest[3 * i]?
  let offset ← deref datasec.rest[3 * i + 1]?
  let var ← deref (btf.typeById type)
  let typeId ← btfResolveType btf 32 type
  let t ← deref (btf.typeById typeId)
  let tname ← deref (btf.strByOffset t.nameOff)
  failIf (tname.val = []) ENOTSUP
  failIf (t.kind ≠ .struct) EINVAL
  let name ← deref (btf.strByOffset var.nameOff)
  return ⟨name, typeId, offset, t.size⟩

/-- The section name without `?`. -/
def plainName (secName : Bytes) : Bytes :=
  if secName.head? = some questionMark then secName.tail else secName

/-- The map of a variable whose bytes are `bytes`. -/
def structOpsMap (shndx : Int) (secName : Bytes) (v : StructOpsVar) (bytes : Bytes) :
    StructOpsMap where
  secIdx := shndx
  secOffset := v.offset
  name := v.name
  btfValueTypeId := v.typeId
  autocreate := secName.head? != some questionMark
  keySize := 4
  valueSize := v.size
  maxEntries := 1
  mapFlags := if plainName secName = STRUCT_OPS_LINK_SEC then BPF_F_LINK else 0
  autoattach := true
  data := bytes
  typeId := v.typeId

/-- The loop of `init_struct_ops_maps`. -/
def structOpsVars (btf : Btf) (shndx : Int) (data : Bytes) (datasec : BtfType) :
    List Nat → Bytes → Res (List StructOpsMap)
  | [], _ => .ok []
  | i :: is, secName => do
    let v ← structOpsVar btf datasec i
    failIf (data.length < (v.offset + v.size) % 2 ^ 32) EINVAL
    let bytes ← loadBytes data v.offset v.size
    let maps ← structOpsVars btf shndx data datasec is (plainName secName)
    return structOpsMap shndx secName v bytes :: maps

/-- `init_struct_ops_maps`: the maps it adds. -/
def initStructOpsMaps (btf : Btf) (secName : CStr) (shndx : Int) (data : Bytes) :
    Res (List StructOpsMap) :=
  if shndx = -1 then .ok []
  else
    match btf.findByNameKind secName 15 with
    | .ok id => do
      let datasec ← deref (btf.typeById id)
      structOpsVars btf shndx data datasec (List.range datasec.vlen) secName.val
    | .error (.err _) => fail EINVAL
    | .error e => .error e

/-- The map is the one that the section name and the variable ask for. -/
structure StructOpsMap.Right (secName data : Bytes) (v : StructOpsVar) (m : StructOpsMap) :
    Prop where
  autocreate : m.autocreate = false ↔ secName.head? = some questionMark
  link : m.mapFlags = BPF_F_LINK ↔ plainName secName = STRUCT_OPS_LINK_SEC
  inside : v.offset + v.size ≤ data.length
  data : m.data = slice data v.offset v.size

section

variable {btf : Btf} {shndx : Int} {data : Bytes} {datasec : BtfType} {secName : Bytes}

theorem structOpsMap_right {v : StructOpsVar} (h : v.offset + v.size ≤ data.length) :
    (structOpsMap shndx secName v (slice data v.offset v.size)).Right secName data v := by
  refine ⟨?_, ?_, h, rfl⟩
  · show (secName.head? != some questionMark) = false ↔ _
    rw [bne_eq_false_iff_eq]
  · show (if _ then BPF_F_LINK else 0) = BPF_F_LINK ↔ _
    split
    · next hlink => exact iff_of_true rfl hlink
    · next hlink => exact iff_of_false (by decide) hlink

/-- One variable: its bytes are inside, and the rest sees the plain name. -/
theorem structOpsVars_eq_ok {i : Nat} {is : List Nat} {maps : List StructOpsMap} :
    structOpsVars btf shndx data datasec (i :: is) secName = .ok maps
      ↔ ∃ v maps', structOpsVar btf datasec i = .ok v ∧ v.offset + v.size ≤ data.length
        ∧ structOpsVars btf shndx data datasec is (plainName secName) = .ok maps'
        ∧ maps = structOpsMap shndx secName v (slice data v.offset v.size) :: maps' := by
  rw [structOpsVars]
  constructor
  · intro h
    obtain ⟨v, hv, h⟩ := of_bind_ok h
    obtain ⟨_, -, h⟩ := of_bind_ok h
    obtain ⟨bytes, hbytes, h⟩ := of_bind_ok h
    obtain ⟨maps', hmaps, h⟩ := of_bind_ok h
    cases h
    obtain ⟨_, hin, hbytes⟩ := of_bind_ok hbytes
    cases hbytes
    exact ⟨v, maps', hv, Nat.le_of_not_lt (faultIf_eq_ok.mp hin), hmaps, rfl⟩
  · rintro ⟨v, maps', hv, hin, hmaps, rfl⟩
    have hmod := Nat.mod_le (v.offset + v.size) (2 ^ 32)
    refine bind_ok hv (failIf_bind_ok (by omega) ?_)
    rw [loadBytes_ok hin]
    exact bind_ok rfl (bind_ok hmaps rfl)

/-- Under a plain name all maps are right. -/
theorem structOpsVars_plain (hplain : secName.head? ≠ some questionMark) : ∀ is : List Nat,
    (∀ i ∈ is, ∃ v, structOpsVar btf datasec i = .ok v ∧ v.offset + v.size ≤ data.length) →
      ∃ maps, structOpsVars btf shndx data datasec is secName = .ok maps
        ∧ List.Forall₂ (fun i m => ∃ v, structOpsVar btf datasec i = .ok v
          ∧ m.Right secName data v) is maps
  | [], _ => ⟨[], rfl, .nil⟩
  | i :: is, h => by
    obtain ⟨v, hv, hin⟩ := h i mem_cons_self
    obtain ⟨maps, hmaps, hright⟩ :=
      structOpsVars_plain hplain is fun j hj => h j (mem_cons_of_mem _ hj)
    refine ⟨_, structOpsVars_eq_ok.mpr ⟨v, maps, hv, hin, ?_, rfl⟩,
      .cons ⟨v, hv, structOpsMap_right hin⟩ hright⟩
    rw [plainName, if_neg hplain]
    exact hmaps

/-- Every variable of a struct_ops section whose checks pass gets the map that
the section asks for, exactly if there is one variable at most when the name
starts with `?`, and no variable ends behind the section. -/
theorem struct_ops_alike_iff {name : CStr} {id : Nat} (hsec : name.val ∈ structOpsSecs)
    (hshndx : shndx ≠ -1) (hfind : btf.findByNameKind name 15 = .ok id)
    (hid : btf.typeById id = some datasec)
    (hacc : ∀ i < datasec.vlen, ∃ v, structOpsVar btf datasec i = .ok v
      ∧ (v.offset + v.size) % 2 ^ 32 ≤ data.length) :
    (∃ maps, initStructOpsMaps btf name shndx data = .ok maps
        ∧ List.Forall₂ (fun i m => ∃ v, structOpsVar btf datasec i = .ok v
          ∧ m.Right name.val data v) (List.range datasec.vlen) maps)
      ↔ (name.val.head? = some questionMark → datasec.vlen ≤ 1)
        ∧ ∀ i < datasec.vlen, ∀ v, structOpsVar btf datasec i = .ok v →
          v.offset + v.size ≤ data.length := by
  have hrun : initStructOpsMaps btf name shndx data
      = structOpsVars btf shndx data datasec (List.range datasec.vlen) name.val := by
    unfold initStructOpsMaps
    rw [if_neg hshndx, hfind]
    dsimp only
    rw [hid]
    rfl
  have hone : (plainName name.val).head? ≠ some questionMark := by
    revert hsec
    generalize name.val = s
    revert s
    decide
  rw [hrun]
  constructor
  · rintro ⟨maps, hmaps, hright⟩
    refine ⟨fun hq => ?_, fun i hi v hv => ?_⟩
    · by_contra hmany
      obtain ⟨n, hn⟩ : ∃ n, datasec.vlen = n + 2 := ⟨datasec.vlen - 2, by omega⟩
      rw [hn, range_succ_eq_map, range_succ_eq_map, map_cons] at hmaps hright
      obtain ⟨_, _, -, -, hrest, rfl⟩ := structOpsVars_eq_ok.mp hmaps
      obtain ⟨_, _, -, -, -, rfl⟩ := structOpsVars_eq_ok.mp hrest
      -- the second one
      cases hright with
      | cons _ hrest =>
        cases hrest with
        | cons hsnd _ =>
          obtain ⟨v, -, hv⟩ := hsnd
          have hauto := hv.autocreate.mpr hq
          exact hone (bne_eq_false_iff_eq.mp hauto)
    · have hall : List.Forall₂ (fun i _ => (∃ v, structOpsVar btf datasec i = .ok v
          ∧ v.offset + v.size ≤ data.length) ∧ True) (List.range datasec.vlen) maps :=
        hright.imp fun i m ⟨v, hv, hm⟩ => ⟨⟨v, hv, hm.inside⟩, trivial⟩
      obtain ⟨v', hv', hin⟩ := ((List.forall₂_and_left _ _).mp hall).1 i (mem_range.mpr hi)
      cases hv.symm.trans hv'
      exact hin
  · rintro ⟨hq, hin⟩
    have hvars : ∀ i ∈ List.range datasec.vlen,
        ∃ v, structOpsVar btf datasec i = .ok v ∧ v.offset + v.size ≤ data.length := by
      intro i hi
      obtain ⟨v, hv, -⟩ := hacc i (mem_range.mp hi)
      exact ⟨v, hv, hin i (mem_range.mp hi) v hv⟩
    by_cases hplain : name.val.head? = some questionMark
    · rcases Nat.le_one_iff_eq_zero_or_eq_one.mp (hq hplain) with hn | hn
      · rw [hn]
        exact ⟨[], rfl, .nil⟩
      obtain ⟨v, hv, hin⟩ := hvars 0 (by rw [hn]; exact mem_singleton.mpr rfl)
      rw [hn]
      exact ⟨_, structOpsVars_eq_ok.mpr ⟨v, [], hv, hin, rfl, rfl⟩,
        .cons ⟨v, hv, structOpsMap_right hin⟩ .nil⟩
    · exact structOpsVars_plain hplain _ hvars

end

private def oneVar : BtfType := ⟨8, btfTypeInfo .datasec 1 false, 8, [3, 4, 4]⟩

/-- Variables of a struct of four bytes in three sections: two, one, and one
that starts four bytes before 2 ^ 32. -/
private def opsSections : Bytes :=
  btfImage .little
    [⟨1, btfTypeInfo .struct 0 false, 4, []⟩, ⟨3, btfTypeInfo .var 0 false, 1, [1]⟩,
      ⟨5, btfTypeInfo .var 0 false, 1, [1]⟩,
      ⟨7, btfTypeInfo .datasec 2 false, 8, [2, 0, 4, 3, 4, 4]⟩, oneVar,
      ⟨20, btfTypeInfo .datasec 1 false, 8, [2, 2 ^ 32 - 4, 4]⟩]
    -- "", "s", "a", "b", "?.struct_ops" and ".struct_ops.link"
    ([0, 115, 0, 97, 0, 98, 0] ++ questionMark :: STRUCT_OPS_SEC ++ 0 :: STRUCT_OPS_LINK_SEC ++ [0])

private def eightBytes : Bytes := [1, 2, 3, 4, 5, 6, 7, 8]

/-- The section with one variable. -/
theorem struct_ops_alike_iff_one : ∃ btf maps, btfNew .little 0 opsSections none = .ok btf
    ∧ initStructOpsMaps btf (cstrAt STRUCT_OPS_SEC 0) 3 eightBytes = .ok maps
    ∧ maps.length = 1 := by
  obtain ⟨btf, hbtf, hfind, hid, hvar⟩ := exists_ok_of_any
    (r := btfNew .little 0 opsSections none) (P := fun btf =>
      btf.findByNameKind (cstrAt STRUCT_OPS_SEC 0) 15 = .ok 5 ∧ btf.typeById 5 = some oneVar
      ∧ structOpsVar btf oneVar 0 = .ok ⟨cstrAt [98] 0, 1, 4, 4⟩) (by decide +kernel)
  obtain ⟨maps, hmaps, hright⟩ := (@struct_ops_alike_iff btf 3 eightBytes oneVar
    (cstrAt STRUCT_OPS_SEC 0) 5 (by decide) (by decide) hfind hid fun i hi => by
      cases Nat.lt_one_iff.mp hi
      exact ⟨_, hvar, by decide⟩).mpr ⟨fun h => absurd h (by decide), fun i hi v hv => by
        cases Nat.lt_one_iff.mp hi
        cases hvar.symm.trans hv
        decide⟩
  exact ⟨btf, maps, hbtf, hmaps, hright.length_eq.symm⟩

/-- The second variable of a section with `?` is created by default, and a
variable that starts before 2 ^ 32 and ends behind it is read from there. -/
theorem struct_ops_second_created : ∃ btf, btfNew .little 0 opsSections none = .ok btf
    ∧ (initStructOpsMaps btf (cstrAt (questionMark :: STRUCT_OPS_SEC) 0) 3 eightBytes).toOption.map
        (·.map (·.autocreate)) = some [false, true]
    ∧ initStructOpsMaps btf (cstrAt STRUCT_OPS_LINK_SEC 0) 3 eightBytes = .error .fault :=
  exists_ok_of_any (by decide +kernel)

end Libbpf
