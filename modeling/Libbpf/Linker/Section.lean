/-
The sections of the static linker (linker.c): how the sections of the input
objects are put together into the sections of the output.

An ephemeral section stands for a DATASEC of externs and has no ELF part; that
is what `scn = none` says, for an input as for an output section. The output
lives in the linker's state, the sections of the object that is being added are
passed along: `dst_id` and `dst_off` are filled in as they are appended.

Sizes are kept as the source keeps them. `sec_sz` and `dst_off` are `int`s,
everything that comes from ELF is 64 bits wide, and the conversions between the
two are written out. The allocator is a parameter, with the contract of
`realloc`.
-/
import Libbpf.Btf.Type
import Libbpf.Strset

namespace Libbpf

open Lib

def SHT_PROGBITS : BitVec 32 := 1
def SHT_SYMTAB : BitVec 32 := 2
def SHT_STRTAB : BitVec 32 := 3
def SHT_NOBITS : BitVec 32 := 8
def SHT_REL : BitVec 32 := 9
def SHF_EXECINSTR : BitVec 64 := 4
def SHF_STRINGS : BitVec 64 := 32

/-- `sizeof(Elf64_Sym)`. -/
def sizeofSym : BitVec 64 := 24

-- ======== memory

/-- `realloc`: NULL, or a block of the size asked for that starts with what was
there before. -/
structure Allocator where
  realloc : Bytes → Nat → Option Bytes
  size_eq : ∀ {old new : Bytes} {n : Nat}, realloc old n = some new → new.length = n
  keeps : ∀ {old new : Bytes} {n i : Nat}, realloc old n = some new → i < old.length → i < n →
    new[i]? = old[i]?

/-- An allocator that never fails. -/
def Allocator.zeroing : Allocator where
  realloc old n := some (old.take n ++ List.replicate (n - old.length) 0)
  size_eq h := by
    cases h
    simp
    omega
  keeps h hi hn := by
    cases h
    rw [List.getElem?_append_left (by simp; omega), List.getElem?_take_of_lt hn]

/-- `memset` on a part of a block. -/
def memset (b : Bytes) (pos : Int) (c : UInt8) (n : Nat) : Res Bytes :=
  if n = 0 then .ok b
  else if 0 ≤ pos ∧ pos + n ≤ b.length then .ok (patch b pos.toNat (List.replicate n c))
  else .error .fault

/-- `memcpy` into a block. -/
def memcpy (b : Bytes) (pos : Nat) (src : Bytes) (n : Nat) : Res Bytes :=
  if n = 0 then .ok b
  else if pos + n ≤ b.length ∧ n ≤ src.length then .ok (patch b pos (src.take n))
  else .error .fault

-- ======== types

/-- `Elf64_Shdr`, the fields that the linker reads or writes. -/
structure Elf64Shdr where
  shName : Nat := 0
  shType : BitVec 32 := 0
  shFlags : BitVec 64 := 0
  shSize : BitVec 64 := 0
  shLink : BitVec 32 := 0
  shInfo : BitVec 32 := 0
  shAddralign : BitVec 64 := 0
  shEntsize : BitVec 64 := 0
deriving DecidableEq

/-- `Elf_Data`. -/
structure ElfData where
  dBuf : Bytes := []
  dSize : BitVec 64 := 0
  dAlign : BitVec 64 := 0
deriving DecidableEq

/-- What `scn`, `shdr`, `data` and `sec_idx` of a section refer to. -/
structure ElfScn where
  secIdx : Nat
  shdr : Elf64Shdr := {}
  data : ElfData := {}
deriving DecidableEq

/-- `struct src_sec`. -/
structure SrcSec where
  secName : CStr
  dstId : Nat := 0
  dstOff : BitVec 32 := 0
  skipped : Bool := false
  scn : Option ElfScn
deriving DecidableEq

/-- `struct dst_sec`, the part that has to do with section data. -/
structure DstSec where
  secName : CStr
  id : Nat
  scn : Option ElfScn := none
  secSz : BitVec 32 := 0
  rawData : Bytes := []
deriving DecidableEq

def SrcSec.ephemeral (s : SrcSec) : Bool := s.scn.isNone

def DstSec.ephemeral (d : DstSec) : Bool := d.scn.isNone

/-- `struct bpf_linker`, the part that has to do with sections. Slot zero of
`secs` is unused; `scnCnt` counts the sections of the output file. -/
structure Linker where
  swappedEndian : Bool
  scnCnt : Nat
  secs : List DstSec
  strtabStrs : Strset
  symtabSecIdx : Nat
deriving DecidableEq

/-- Change the section in slot `id`. -/
def Linker.modifySec (l : Linker) (id : Nat) (f : DstSec → DstSec) : Linker :=
  { l with secs := l.secs.modify id f }

/-- `strset__add_str` on the output's string table. -/
def linkerAddStr (s : CStr) : Run Linker Nat :=
  onPart Linker.strtabStrs (fun l strs => { l with strtabStrs := strs }) (Strset.addStr s)

-- ======== sections

/-- The slot that is not used. -/
def DstSec.unused : DstSec := { secName := CStr.empty, id := 0 }

/-- `add_dst_sec`; the index of the new section. The first one comes with the
slot before it. -/
def addDstSec (secName : CStr) : Run Linker Nat := do
  let l ← get
  let secs := if l.secs = [] then [DstSec.unused] else l.secs
  let sec : DstSec := { secName, id := secs.length }
  set { l with secs := secs ++ [sec] }
  return sec.id

/-- What `init_sec` takes over from the first section of a name. -/
def ElfScn.initFrom (secIdx nameOff : Nat) (src : ElfScn) : ElfScn where
  secIdx
  shdr :=
    { shName := nameOff
      shType := src.shdr.shType
      shFlags := src.shdr.shFlags
      shSize := 0
      shLink := 0
      shInfo := 0
      shAddralign := src.shdr.shAddralign
      shEntsize := src.shdr.shEntsize }
  data := { dBuf := [], dSize := 0, dAlign := src.data.dAlign }

/-- `init_sec`. -/
def initSec (id : Nat) (src : SrcSec) : Run Linker Unit := do
  modify fun l => l.modifySec id fun d => { d with secSz := 0, scn := none }
  match src.scn with
  -- ephemeral sections are just thin section shells lacking most parts
  | none => pure ()
  | some e =>
    let secIdx := (← get).scnCnt + 1
    modify fun l =>
      { l with scnCnt := secIdx }.modifySec id fun d => { d with scn := some { secIdx } }
    let nameOff ← linkerAddStr src.secName
    modify fun l =>
      l.modifySec id fun d => { d with scn := some (ElfScn.initFrom secIdx nameOff e) }

/-- ".strtab". -/
def strtabSec : CStr := ⟨[46, 115, 116, 114, 116, 97, 98], by decide⟩

/-- ".symtab". -/
def symtabSec : CStr := ⟨[46, 115, 121, 109, 116, 97, 98], by decide⟩

/-- A section that `init_output_elf` makes itself. -/
def addOutputSec (secName : CStr) (shdr : Elf64Shdr) : Run Linker Nat := do
  let id ← addDstSec secName
  let secIdx := (← get).scnCnt + 1
  let nameOff ← linkerAddStr secName
  modify fun l => { l with scnCnt := secIdx }.modifySec id fun d =>
    { d with scn := some { secIdx, shdr := { shdr with shName := nameOff } } }
  return secIdx

/-- `init_output_elf`, the sections: the string table, and the symbol table with
its all-zero symbol. -/
def initOutputElf : Run Linker Unit := do
  let strtabSecIdx ← addOutputSec strtabSec
    { shType := SHT_STRTAB, shFlags := SHF_STRINGS, shAddralign := 1 }
  let symtabSecIdx ← addOutputSec symtabSec
    { shType := SHT_SYMTAB, shLink := BitVec.ofNat 32 strtabSecIdx, shAddralign := 8,
      shEntsize := sizeofSym }
  modify fun l => { l with symtabSecIdx := symtabSecIdx }.modifySec symtabSecIdx fun d =>
    { d with
      rawData := List.replicate 24 0
      secSz := 24
      scn := d.scn.map fun (s : ElfScn) =>
        { s with shdr := { s.shdr with shSize := sizeofSym }, data := { dSize := sizeofSym } } }

/-- `bpf_linker__new`. -/
def bpfLinkerNew : EStateM.Result Stop Linker Unit :=
  initOutputElf
    { swappedEndian := false
      scnCnt := 0
      secs := []
      strtabStrs := Strset.new (2 ^ 31 - 1) [0]
      symtabSecIdx := 0 }

/-- `find_dst_sec_by_name`; the index of the section. -/
def findDstSecByName (l : Linker) (secName : CStr) : Option Nat :=
  ((l.secs.drop 1).findIdx? (·.secName == secName)).map (· + 1)

/-- `secs_match`. -/
def secsMatch (dst : DstSec) (src : SrcSec) : Bool :=
  match dst.scn, src.scn with
  | some d, some s =>
    d.shdr.shType == s.shdr.shType && d.shdr.shFlags == s.shdr.shFlags
      && d.shdr.shEntsize == s.shdr.shEntsize
  | _, _ => true

/-- `sec_content_is_same`; an ephemeral source has no header to look at. -/
def secContentIsSame (dst : DstSec) (src : SrcSec) : Res Bool := do
  let s ← deref src.scn
  if dst.secSz.signExtend 64 ≠ s.shdr.shSize then return false
  let n := s.shdr.shSize.toNat
  faultIf (dst.rawData.length < n ∨ s.data.dBuf.length < n)
  return dst.rawData.take n == s.data.dBuf.take n

/-- `is_exec_sec`. -/
def isExecSec (dst : DstSec) : Bool :=
  match dst.scn with
  | none => false
  | some d => d.shdr.shType == SHT_PROGBITS && d.shdr.shFlags &&& SHF_EXECINSTR != 0

/-- `bpf_insn_bswap` on the eight bytes of an instruction: the two register
fields, the offset and the immediate. -/
def bpfInsnBswap : Bytes → Bytes
  | [code, regs, o0, o1, i0, i1, i2, i3] =>
    [code, regs <<< 4 ||| regs >>> 4, o1, o0, i3, i2, i1, i0]
  | b => b

/-- The loop of `exec_sec_bswap`. -/
def bpfInsnsBswap : Nat → Bytes → Bytes
  | 0, b => b
  | n + 1, b => bpfInsnBswap (b.take 8) ++ bpfInsnsBswap n (b.drop 8)

/-- `insn_cnt` of `exec_sec_bswap`: an `int` that a `size_t` is divided for. -/
def insnCnt (size : BitVec 32) : BitVec 32 := (size.signExtend 64 / 8).setWidth 32

/-- `exec_sec_bswap`. -/
def execSecBswap (rawData : Bytes) (size : BitVec 32) : Bytes :=
  bpfInsnsBswap (insnCnt size).toInt.toNat rawData

/-- The larger alignment, `dst_align` of `extend_sec`. -/
def dstAlign (dst src : Elf64Shdr) : BitVec 64 :=
  let align := if dst.shAddralign = 0 then 1 else dst.shAddralign
  if align < src.shAddralign then src.shAddralign else align

/-- `dst_align_sz` of `extend_sec`: the `int` size is converted to `size_t`. -/
def dstAlignSz (secSz : BitVec 32) (align : BitVec 64) : BitVec 64 :=
  (secSz.signExtend 64 + align - 1) / align * align

/-- The new contents of a section in `extend_sec`. -/
def extendRawData (alloc : Allocator) (swapped : Bool) (dst : DstSec) (src : ElfScn)
    (alignSz finalSz : BitVec 64) : Res Bytes :=
  if src.shdr.shType = SHT_NOBITS then .ok dst.rawData
  else do
    let tmp := alloc.realloc dst.rawData finalSz.toNat
    failIf (tmp = none ∧ 0 < alignSz) ENOMEM
    -- pad the section, then copy the data behind the padding
    let raw ← memset (tmp.getD []) dst.secSz.toInt 0 (alignSz - dst.secSz.signExtend 64).toNat
    let raw ← memcpy raw alignSz.toNat src.data.dBuf src.shdr.shSize.toNat
    if swapped && isExecSec dst then
      return raw.take alignSz.toNat
        ++ execSecBswap (raw.drop alignSz.toNat) (src.shdr.shSize.setWidth 32)
    return raw

/-- The last part of `extend_sec`, for an output section that has its ELF
part; the new section and the place of the added data. -/
def extendScn (alloc : Allocator) (swapped : Bool) (dst : DstSec) (src : ElfScn) :
    Res (DstSec × BitVec 32) := do
  let d ← deref dst.scn
  let align := dstAlign d.shdr src.shdr
  let alignSz := dstAlignSz dst.secSz align
  let finalSz := alignSz + src.shdr.shSize
  let raw ← extendRawData alloc swapped dst src alignSz finalSz
  return ({ dst with
      rawData := raw
      secSz := finalSz.setWidth 32
      scn := some
        { d with
          shdr := { d.shdr with shSize := finalSz, shAddralign := align }
          data := { d.data with dSize := finalSz, dAlign := align } } },
    alignSz.setWidth 32)

/-- `extend_sec` once the output section is a real one. -/
def extendRealSec (alloc : Allocator) (id : Nat) (src : SrcSec) (e : ElfScn) :
    Run Linker SrcSec := do
  let l ← get
  let dst ← liftRes (deref l.secs[id]?)
  let (dst', off) ← liftRes (extendScn alloc l.swappedEndian dst e)
  set (l.modifySec id fun _ => dst')
  return { src with dstOff := off }

/-- `extend_sec`; the source section with its place. -/
def extendSec (alloc : Allocator) (id : Nat) (src : SrcSec) : Run Linker SrcSec :=
  match src.scn with
  -- an ephemeral source section does not contribute anything
  | none => pure src
  | some e => do
    let dst ← liftRes (deref (← get).secs[id]?)
    -- a section that was ephemeral so far becomes a real one
    if dst.ephemeral then initSec id src
    extendRealSec alloc id src e

/-- `is_data_sec`. -/
def isDataSec (sec : SrcSec) : Bool :=
  !sec.skipped && match sec.scn with
    | none => true
    | some s => s.shdr.shType == SHT_PROGBITS || s.shdr.shType == SHT_NOBITS

/-- `is_relo_sec`. -/
def isReloSec (sec : SrcSec) : Bool :=
  !sec.skipped && match sec.scn with
    | none => false
    | some s => s.shdr.shType == SHT_REL

/-- "license". -/
def licenseSec : CStr := ⟨[108, 105, 99, 101, 110, 115, 101], by decide⟩

/-- "version". -/
def versionSec : CStr := ⟨[118, 101, 114, 115, 105, 111, 110], by decide⟩

/-- A section of an object in the loop of `linker_append_sec_data`. -/
def appendSec (alloc : Allocator) (src : SrcSec) : Run Linker SrcSec :=
  if !isDataSec src then pure src
  else do
    let l ← get
    match findDstSecByName l src.secName with
    | none =>
      let id ← addDstSec src.secName
      initSec id src
      extendSec alloc id { src with dstId := id }
    | some id =>
      let dst ← liftRes (deref l.secs[id]?)
      liftRes (failIf (¬ secsMatch dst src) EINVAL)
      -- "license" and "version" sections are deduped
      if src.secName = licenseSec ∨ src.secName = versionSec then
        let same ← liftRes (secContentIsSame dst src)
        liftRes (failIf (¬ same) EINVAL)
        return { src with skipped := true, dstId := id }
      extendSec alloc id { src with dstId := id }

/-- `linker_append_sec_data`, the object given by its sections; slot zero is
not looked at. -/
def linkerAppendSecData (alloc : Allocator) : List SrcSec → Run Linker (List SrcSec)
  | [] => pure []
  | unused :: secs => do
    return unused :: (← collect (appendSec alloc) secs)

end Libbpf
