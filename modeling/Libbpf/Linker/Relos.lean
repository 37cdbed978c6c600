/-
The relocations of the static linker (linker.c): what an object's symbol table
and relocation sections are checked for when it is loaded, and how its
relocations are appended to those of the output.

The data of symbol tables and relocation sections are in the order of the host,
libelf sees to that; instructions are, once they are in an output section. A
relocation against a section symbol has its addend in the section it relocates,
at `r_offset` behind the place that the section was put to. That word is
changed in the output section, wherever it lies: positions are computed modulo
2^64, and an access outside the section's contents is a fault.
-/
import Libbpf.Linker.Section

namespace Libbpf

open Lib

def SHT_LLVM_ADDRSIG : BitVec 32 := 0x6FFF4C03
def SHN_LORESERVE : Nat := 0xff00
def STB_LOCAL : Nat := 0
def STB_GLOBAL : Nat := 1
def STB_WEAK : Nat := 2
def STT_NOTYPE : Nat := 0
def STT_SECTION : Nat := 3
def STV_DEFAULT : Nat := 0
def STV_HIDDEN : Nat := 2
def R_BPF_64_64 : Nat := 1
def R_BPF_64_ABS64 : Nat := 2
def R_BPF_64_ABS32 : Nat := 3
def R_BPF_64_32 : Nat := 10

/-- `BPF_JMP | BPF_CALL`. -/
def BPF_JMP_CALL : Nat := 0x85

/-- `sizeof(Elf64_Rel)`. -/
def sizeofRel : BitVec 64 := 16

-- ======== reading

/-- The 64-bit word stored at the start of `b`. -/
def rdU64 : ByteOrder → Bytes → Nat
  | .little, b => rdU32 .little b + 2 ^ 32 * rdU32 .little (b.drop 4)
  | .big, b => 2 ^ 32 * rdU32 .big b + rdU32 .big (b.drop 4)

/-- A 64-bit word as stored. -/
def u64Bytes : ByteOrder → Nat → Bytes
  | .little, n => u32Bytes .little n ++ u32Bytes .little (n / 2 ^ 32)
  | .big, n => u32Bytes .big (n / 2 ^ 32) ++ u32Bytes .big n

/-- `Elf64_Sym`. -/
structure Elf64Sym where
  stName : Nat
  stInfo : Nat
  stOther : Nat
  stShndx : Nat
  stValue : Nat
  stSize : Nat
deriving DecidableEq

/-- `Elf64_Rel`. -/
structure Elf64Rel where
  rOffset : Nat
  rInfo : Nat
deriving DecidableEq

namespace Elf64Sym

/-- `ELF64_ST_TYPE`. -/
def type (s : Elf64Sym) : Nat := s.stInfo % 16

/-- `ELF64_ST_BIND`. -/
def bind (s : Elf64Sym) : Nat := s.stInfo / 16

/-- `ELF64_ST_VISIBILITY`. -/
def visibility (s : Elf64Sym) : Nat := s.stOther % 4

end Elf64Sym

namespace Elf64Rel

/-- `ELF64_R_SYM`. -/
def sym (r : Elf64Rel) : Nat := r.rInfo / 2 ^ 32

/-- `ELF64_R_TYPE`. -/
def type (r : Elf64Rel) : Nat := r.rInfo % 2 ^ 32

end Elf64Rel

/-- The bytes of an access, if they are there. -/
def access (b : Bytes) (pos len : Nat) : Res Bytes :=
  if pos + len ≤ b.length then .ok (slice b pos len) else .error .fault

/-- Symbol `i` of a symbol table. -/
def symAt (host : ByteOrder) (syms : Bytes) (i : Nat) : Res Elf64Sym := do
  let b ← access syms (24 * i) 24
  return { stName := rdU32 host b
           stInfo := byteAt b 4
           stOther := byteAt b 5
           stShndx := rdU16 host (b.drop 6)
           stValue := rdU64 host (b.drop 8)
           stSize := rdU64 host (b.drop 16) }

/-- Relocation `i` of a relocation section. -/
def relAt (host : ByteOrder) (rels : Bytes) (i : Nat) : Res Elf64Rel := do
  let b ← access rels (16 * i) 16
  return { rOffset := rdU64 host b, rInfo := rdU64 host (b.drop 8) }

-- ======== sanity

/-- `struct src_obj`, the part that has to do with sections and symbols. -/
structure SrcObj where
  secs : List SrcSec
  symtabSecIdx : Nat
  shstrsSecIdx : Nat
  symMap : List (BitVec 32) := []
deriving DecidableEq

/-- ".text". -/
def textName : Bytes := [46, 116, 101, 120, 116]

/-- ".BTF". -/
def btfName : Bytes := [46, 66, 84, 70]

/-- ".BTF.ext". -/
def btfExtName : Bytes := [46, 66, 84, 70, 46, 101, 120, 116]

/-- ".rel". -/
def relName : Bytes := [46, 114, 101, 108]

/-- ".debug_". -/
def debugName : Bytes := [46, 100, 101, 98, 117, 103, 95]

/-- `is_dwarf_sec_name`. -/
def isDwarfSecName (name : Bytes) : Bool := debugName.isPrefixOf name

/-- `is_ignored_sec`. -/
def isIgnoredSec (secName : CStr) (shdr : Elf64Shdr) : Bool :=
  shdr.shType == SHT_STRTAB || shdr.shType == SHT_LLVM_ADDRSIG
    -- no subprograms will lead to an empty .text section, ignore it
    || (shdr.shType == SHT_PROGBITS && shdr.shSize == 0 && secName.val == textName)
    || isDwarfSecName secName.val
    -- neither DWARF relocations nor those of .BTF and .BTF.ext are needed
    || (relName.isPrefixOf secName.val
      && (isDwarfSecName (secName.val.drop 4) || secName.val.drop 4 == btfName
        || secName.val.drop 4 == btfExtName))

/-- `is_pow_of_2`. -/
def isPowOf2 (x : BitVec 64) : Bool := x != 0 && x &&& (x - 1) == 0

/-- The check of one symbol in `linker_sanity_check_elf_symtab`. -/
def sanityCheckSym (secCnt i : Nat) (sym : Elf64Sym) : Res Unit :=
  if i = 0 then
    failIf (sym.stName ≠ 0 ∨ sym.stInfo ≠ 0 ∨ sym.stOther ≠ 0 ∨ sym.stShndx ≠ 0 ∨ sym.stValue ≠ 0
      ∨ sym.stSize ≠ 0) EINVAL
  else do
    failIf (sym.bind ≠ STB_LOCAL ∧ sym.bind ≠ STB_GLOBAL ∧ sym.bind ≠ STB_WEAK) EINVAL
    failIf (sym.visibility ≠ STV_DEFAULT ∧ sym.visibility ≠ STV_HIDDEN) EINVAL
    if sym.stShndx = 0 then
      failIf (sym.type ≠ STT_NOTYPE ∨ sym.bind = STB_LOCAL ∨ sym.stValue ≠ 0 ∨ sym.stSize ≠ 0)
        EINVAL
    else do
      failIf (sym.stShndx < SHN_LORESERVE ∧ secCnt ≤ sym.stShndx) EINVAL
      failIf (sym.type = STT_SECTION ∧ sym.stValue ≠ 0) EINVAL

/-- How often a table of `int n = sh_size / sh_entsize` entries is gone
through. -/
def entryCnt (shdr : Elf64Shdr) : Nat :=
  ((shdr.shSize / shdr.shEntsize).setWidth 32).toInt.toNat

/-- `linker_sanity_check_elf_symtab`. -/
def linkerSanityCheckElfSymtab (host : ByteOrder) (obj : SrcObj) (sec : ElfScn) : Res Unit := do
  failIf (sec.shdr.shEntsize ≠ sizeofSym) EINVAL
  failIf (sec.shdr.shSize.toNat % 24 ≠ 0) EINVAL
  failIf (sec.shdr.shLink = 0 ∨ obj.secs.length ≤ sec.shdr.shLink.toNat) EINVAL
  let link ← deref obj.secs[sec.shdr.shLink.toNat]?
  let linkScn ← deref link.scn
  failIf (linkScn.shdr.shType ≠ SHT_STRTAB) EINVAL
  checkAll (fun i => do sanityCheckSym obj.secs.length i (← symAt host sec.data.dBuf i))
    (List.range (entryCnt sec.shdr))

/-- The check of one relocation in `linker_sanity_check_elf_relos`. -/
def sanityCheckRel (link symtab : ElfScn) (rel : Elf64Rel) : Res Unit := do
  failIf (rel.type ≠ R_BPF_64_64 ∧ rel.type ≠ R_BPF_64_32 ∧ rel.type ≠ R_BPF_64_ABS64
    ∧ rel.type ≠ R_BPF_64_ABS32) EINVAL
  failIf (rel.sym = 0 ∨ symtab.shdr.shSize.toNat ≤ rel.sym * 24) EINVAL
  failIf (link.shdr.shFlags &&& SHF_EXECINSTR ≠ 0 ∧ rel.rOffset % 8 ≠ 0) EINVAL

/-- `linker_sanity_check_elf_relos`. -/
def linkerSanityCheckElfRelos (host : ByteOrder) (obj : SrcObj) (secName : CStr) (sec : ElfScn) :
    Res Unit := do
  failIf (sec.shdr.shEntsize ≠ sizeofRel) EINVAL
  failIf (sec.shdr.shSize.toNat % 16 ≠ 0) EINVAL
  -- SHT_REL's sh_link should point to SYMTAB
  failIf (sec.shdr.shLink.toNat ≠ obj.symtabSecIdx) EINVAL
  -- SHT_REL's sh_info points to relocated section
  failIf (sec.shdr.shInfo = 0 ∨ obj.secs.length ≤ sec.shdr.shInfo.toNat) EINVAL
  let link ← deref obj.secs[sec.shdr.shInfo.toNat]?
  failIf (secName.val ≠ relName ++ link.secName.val) EINVAL
  -- don't further validate relocations for ignored sections
  if link.skipped then return ()
  let linkScn ← deref link.scn
  failIf (linkScn.shdr.shType ≠ SHT_PROGBITS ∧ linkScn.shdr.shType ≠ SHT_NOBITS) EINVAL
  let symtab ← deref obj.secs[obj.symtabSecIdx]?
  let symtabScn ← deref symtab.scn
  checkAll (fun i => do sanityCheckRel linkScn symtabScn (← relAt host sec.data.dBuf i))
    (List.range (entryCnt sec.shdr))

/-- The check of one section in `linker_sanity_check_elf`. -/
def sanityCheckSec (host : ByteOrder) (obj : SrcObj) (sec : SrcSec) : Res Unit := do
  failIf (sec.secName.val = []) EINVAL
  if isDwarfSecName sec.secName.val then return ()
  let s ← deref sec.scn
  failIf (s.shdr.shAddralign ≠ 0 ∧ ¬ isPowOf2 s.shdr.shAddralign) EINVAL
  failIf (s.shdr.shAddralign ≠ s.data.dAlign) EINVAL
  failIf (s.shdr.shSize ≠ s.data.dSize) EINVAL
  if s.shdr.shType = SHT_SYMTAB then linkerSanityCheckElfSymtab host obj s
  else if s.shdr.shType = SHT_STRTAB then return ()
  else if s.shdr.shType = SHT_PROGBITS then
    failIf (s.shdr.shFlags &&& SHF_EXECINSTR ≠ 0 ∧ s.shdr.shSize.toNat % 8 ≠ 0) EINVAL
  else if s.shdr.shType = SHT_NOBITS then return ()
  else if s.shdr.shType = SHT_REL then linkerSanityCheckElfRelos host obj sec.secName s
  else if s.shdr.shType = SHT_LLVM_ADDRSIG then return ()
  else fail EINVAL

/-- `linker_sanity_check_elf`. -/
def linkerSanityCheckElf (host : ByteOrder) (obj : SrcObj) : Res Unit := do
  failIf (obj.symtabSecIdx = 0) EINVAL
  failIf (obj.shstrsSecIdx = 0) EINVAL
  checkAll (sanityCheckSec host obj) (obj.secs.drop 1)

-- ======== relocations

/-- Change the contents of an output section by a store of `new` at `pos`. -/
def storeAt (id pos : Nat) (new : Bytes) : Run Linker Unit := do
  let dst ← liftRes (deref (← get).secs[id]?)
  liftRes (faultIf (dst.rawData.length < pos + new.length))
  modify fun l => l.modifySec id fun d => { d with rawData := patch d.rawData pos new }

/-- The bytes of an output section at `pos`. -/
def loadAt (id pos len : Nat) : Run Linker Bytes := do
  let dst ← liftRes (deref (← get).secs[id]?)
  liftRes (access dst.rawData pos len)

/-- A relocation by 64 bits against an executable section. -/
def isCodePtr (relType : Nat) (sec : SrcSec) : Res Bool :=
  if relType = R_BPF_64_ABS64 then do
    let s ← deref sec.scn
    return s.shdr.shFlags &&& SHF_EXECINSTR != 0
  else return false

/-- Add to the word in place that a relocation against a section symbol refers
to; `place` is the offset in the output section, `sec` the symbol's section. -/
def addInPlace (host : ByteOrder) (linked sec : SrcSec) (relType place : Nat) :
    Run Linker Unit := do
  let linkedScn ← liftRes (deref linked.scn)
  if linkedScn.shdr.shFlags &&& SHF_EXECINSTR ≠ 0 then
    let insn ← loadAt linked.dstId place 8
    let off := sec.dstOff.signExtend 64
    let add := if byteAt insn 0 = BPF_JMP_CALL then off / 8 else off
    let imm := BitVec.ofNat 32 (rdU32 host (insn.drop 4)) + add.setWidth 32
    storeAt linked.dstId (place + 4) (u32Bytes host imm.toNat)
  else
    liftRes (failIf ((← liftRes (isCodePtr relType sec)) = false) EINVAL)
    -- data sections are kept in the byte order of the object
    let order := if (← get).swappedEndian then host.other else host
    let word ← loadAt linked.dstId place 8
    let off := BitVec.ofNat 64 (rdU64 order word) + sec.dstOff.signExtend 64
    storeAt linked.dstId place (u64Bytes order off.toNat)

/-- Relocation `j` of a section in `linker_append_elf_relos`: `secs` are the
object's sections, `id` the output section of the relocations, `pos` the place
that they were put to. -/
def appendRelo (host : ByteOrder) (obj : SrcObj) (secs : List SrcSec) (linked : SrcSec)
    (rels : Bytes) (id : Nat) (pos : Int) (j : Nat) : Run Linker Unit := do
  let rel ← liftRes (relAt host rels j)
  let symtab ← liftRes (deref secs[obj.symtabSecIdx]?)
  let symtabScn ← liftRes (deref symtab.scn)
  let sym ← liftRes (symAt host symtabScn.data.dBuf rel.sym)
  let dstSymIdx ← liftRes (deref obj.symMap[rel.sym]?)
  let dstRel := pos + 16 * j
  liftRes (faultIf (dstRel < 0))
  let old ← loadAt id dstRel.toNat 16
  let place := BitVec.ofNat 64 (rdU64 host old) + linked.dstOff.signExtend 64
  storeAt id dstRel.toNat (u64Bytes host place.toNat)
  let info := (dstSymIdx.signExtend 64 <<< 32) + BitVec.ofNat 64 rel.type
  storeAt id (dstRel.toNat + 8) (u64Bytes host info.toNat)
  if sym.type = STT_SECTION then
    let sec ← liftRes (deref secs[sym.stShndx]?)
    addInPlace host linked sec rel.type place.toNat

/-- The output section for a relocation section. -/
def reloDstSec (src : SrcSec) : Run Linker Nat := do
  let l ← get
  match findDstSecByName l src.secName with
  | none =>
    let id ← addDstSec src.secName
    initSec id src
    return id
  | some id =>
    let dst ← liftRes (deref l.secs[id]?)
    liftRes (failIf (¬ secsMatch dst src) EINVAL)
    return id

/-- Let the header of the output section refer to the symbol table and to the
relocated section. -/
def linkReloSec (id linkedId : Nat) : Run Linker Unit := do
  let l ← get
  let dst ← liftRes (deref l.secs[id]?)
  let scn ← liftRes (deref dst.scn)
  let linked ← liftRes (deref l.secs[linkedId]?)
  let info := (linked.scn.map (·.secIdx)).getD 0
  let shdr := { scn.shdr with
    shLink := BitVec.ofNat 32 l.symtabSecIdx, shInfo := BitVec.ofNat 32 info }
  set (l.modifySec id fun d => { d with scn := some { scn with shdr } })

/-- A section of an object in the loop of `linker_append_elf_relos`; `done` are
the sections before it, `rest` those after it. -/
def appendReloSec (alloc : Allocator) (host : ByteOrder) (obj : SrcObj) (done : List SrcSec)
    (src : SrcSec) (rest : List SrcSec) : Run Linker SrcSec :=
  if !isReloSec src then pure src
  else do
    let e ← liftRes (deref src.scn)
    let linked ← liftRes (deref (done ++ src :: rest)[e.shdr.shInfo.toNat]?)
    if linked.skipped then return src
    let id ← reloDstSec src
    linkReloSec id linked.dstId
    let src ← extendSec alloc id { src with dstId := id }
    liftRes (if e.shdr.shEntsize = 0 then .error .divZero else .ok ())
    each (appendRelo host obj (done ++ src :: rest) linked e.data.dBuf id src.dstOff.toInt)
      (List.range (entryCnt e.shdr))
    return src

/-- The loop of `linker_append_elf_relos`. -/
def appendReloSecs (alloc : Allocator) (host : ByteOrder) (obj : SrcObj) :
    List SrcSec → List SrcSec → Run Linker (List SrcSec)
  | done, [] => pure done
  | done, src :: rest => do
    let src ← appendReloSec alloc host obj done src rest
    appendReloSecs alloc host obj (done ++ [src]) rest

/-- `linker_append_elf_relos`; the object's sections with the places of the
relocations. -/
def linkerAppendElfRelos (alloc : Allocator) (host : ByteOrder) (obj : SrcObj) :
    Run Linker (List SrcSec) :=
  appendReloSecs alloc host obj (obj.secs.take 1) (obj.secs.drop 1)

end Libbpf
