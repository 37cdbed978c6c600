/-
Patching a relocated instruction: `bpf_core_patch_insn`.

The instruction is a pair, as an LDIMM64 takes up two; the other classes
leave the second one alone. A call either fails, poisons the instruction
or writes the new value into the operand of its class: the immediate of an
ALU instruction, the offset of a load or a store, the 64 bits of an
LDIMM64. Only the offset is checked against its width, and a load or store
whose size has to change gets its offset before the sizes are looked at.

`patchInsn_exact_iff` says for which instructions and results the call
does no more and no less than it should. The log messages are left out.
-/
import Libbpf.Core.Relo

namespace Libbpf

open Lib

variable {i : BpfInsn} {out : InsnPair}

-- ======== the instruction

/-- `struct bpf_insn`. -/
structure BpfInsn where
  code : BitVec 8
  dstReg : BitVec 4
  srcReg : BitVec 4
  off : BitVec 16
  imm : BitVec 32
deriving DecidableEq, Repr

/-- `BPF_CLASS`. -/
def bpfClass (code : BitVec 8) : BitVec 8 := code &&& 0x07

/-- `BPF_SIZE`. -/
def bpfSize (code : BitVec 8) : BitVec 8 := code &&& 0x18

/-- `BPF_MODE`. -/
def bpfMode (code : BitVec 8) : BitVec 8 := code &&& 0xe0

/-- `BPF_SRC`. -/
def bpfSrc (code : BitVec 8) : BitVec 8 := code &&& 0x08

def BPF_LD : BitVec 8 := 0x00
def BPF_LDX : BitVec 8 := 0x01
def BPF_ST : BitVec 8 := 0x02
def BPF_STX : BitVec 8 := 0x03
def BPF_ALU : BitVec 8 := 0x04
def BPF_JMP : BitVec 8 := 0x05
def BPF_ALU64 : BitVec 8 := 0x07
def BPF_W : BitVec 8 := 0x00
def BPF_H : BitVec 8 := 0x08
def BPF_B : BitVec 8 := 0x10
def BPF_DW : BitVec 8 := 0x18
def BPF_IMM : BitVec 8 := 0x00
def BPF_K : BitVec 8 := 0x00
def BPF_CALL : BitVec 8 := 0x80

def ERANGE : Int := 34
def SHRT_MAX : Nat := 2 ^ 15 - 1

/-- An instruction and the one after it. -/
abbrev InsnPair := BpfInsn × BpfInsn

/-- `is_ldimm64_insn`. -/
def isLdimm64Insn (insn : BpfInsn) : Bool := insn.code == (BPF_LD ||| BPF_IMM ||| BPF_DW)

/-- `insn_bpf_size_to_bytes`. -/
def insnBpfSizeToBytes (insn : BpfInsn) : Int :=
  if bpfSize insn.code = BPF_DW then 8
  else if bpfSize insn.code = BPF_W then 4
  else if bpfSize insn.code = BPF_H then 2
  else if bpfSize insn.code = BPF_B then 1
  else -1

/-- `insn_bytes_to_bpf_size`; `none` is a negative result. -/
def insnBytesToBpfSize (sz : Nat) : Option (BitVec 8) :=
  match sz with
  | 8 => some BPF_DW
  | 4 => some BPF_W
  | 2 => some BPF_H
  | 1 => some BPF_B
  | _ => none

-- ======== the patching

/-- The instruction `bpf_core_poison_insn` puts in the place of one. -/
def poisonInsn : BpfInsn := ⟨BPF_JMP ||| BPF_CALL, 0, 0, 0, 195896080⟩

/-- `bpf_core_poison_insn`. -/
def bpfCorePoisonInsn : Run InsnPair Unit := fun insn =>
  .ok () (poisonInsn, if isLdimm64Insn insn.1 then poisonInsn else insn.2)

/-- The value to write; the field is a `__u64`. -/
def CoreReloRes.new64 (res : CoreReloRes) : BitVec 64 := BitVec.ofNat 64 res.newVal

/-- The value to be expected. -/
def CoreReloRes.orig64 (res : CoreReloRes) : BitVec 64 := BitVec.ofNat 64 res.origVal

/-- The case of `bpf_core_patch_insn` for BPF_ALU and BPF_ALU64. -/
def bpfCorePatchAlu (res : CoreReloRes) : Run InsnPair Unit := fun insn =>
  if bpfSrc insn.1.code ≠ BPF_K then .error (.err (-EINVAL)) insn
  else if res.poison then bpfCorePoisonInsn insn
  else if res.validate ∧ insn.1.imm.signExtend 64 ≠ res.orig64 then
    .error (.err (-EINVAL)) insn
  else .ok () ({ insn.1 with imm := res.new64.setWidth 32 }, insn.2)

/-- The size of a load or store, once its offset is written. -/
def bpfCorePatchMemSz (res : CoreReloRes) : Run InsnPair Unit := fun insn =>
  if res.newSz ≠ res.origSz then
    if insnBpfSizeToBytes insn.1 ≠ res.origSz then .error (.err (-EINVAL)) insn
    else
      match insnBytesToBpfSize res.newSz with
      | none => .error (.err (-EINVAL)) insn
      | some sz =>
        .ok () ({ insn.1 with
          code := bpfMode insn.1.code ||| sz ||| bpfClass insn.1.code }, insn.2)
  else .ok () insn

/-- The case of `bpf_core_patch_insn` for BPF_LDX, BPF_ST and BPF_STX. -/
def bpfCorePatchMem (res : CoreReloRes) : Run InsnPair Unit := fun insn =>
  if res.poison then bpfCorePoisonInsn insn
  else if res.validate ∧ insn.1.off.signExtend 64 ≠ res.orig64 then
    .error (.err (-EINVAL)) insn
  else if res.new64.toNat > SHRT_MAX then .error (.err (-ERANGE)) insn
  else if res.failMemszAdjust then bpfCorePoisonInsn insn
  else bpfCorePatchMemSz res ({ insn.1 with off := res.new64.setWidth 16 }, insn.2)

/-- An LDIMM64 as `bpf_core_patch_insn` expects it. -/
def isPlainLdimm64 (insn : InsnPair) : Bool :=
  isLdimm64Insn insn.1 && insn.1.srcReg == 0 && insn.1.off == 0 && insn.2.code == 0
    && insn.2.dstReg == 0 && insn.2.srcReg == 0 && insn.2.off == 0

/-- The two immediates of an LDIMM64. -/
def imm64 (insn : InsnPair) : BitVec 64 :=
  insn.1.imm.setWidth 64 ||| (insn.2.imm.signExtend 64 <<< 32)

/-- The case of `bpf_core_patch_insn` for BPF_LD. -/
def bpfCorePatchLd (res : CoreReloRes) : Run InsnPair Unit := fun insn =>
  if isPlainLdimm64 insn = false then .error (.err (-EINVAL)) insn
  else if res.poison then bpfCorePoisonInsn insn
  else if res.validate ∧ imm64 insn ≠ res.orig64 then .error (.err (-EINVAL)) insn
  else .ok () ({ insn.1 with imm := res.new64.setWidth 32 },
    { insn.2 with imm := (res.new64 >>> 32).setWidth 32 })

/-- An instruction of the class BPF_ALU or BPF_ALU64. -/
def BpfInsn.isAlu (insn : BpfInsn) : Bool :=
  bpfClass insn.code == BPF_ALU || bpfClass insn.code == BPF_ALU64

/-- A load or a store. -/
def BpfInsn.isMem (insn : BpfInsn) : Bool :=
  bpfClass insn.code == BPF_LDX || bpfClass insn.code == BPF_ST
    || bpfClass insn.code == BPF_STX

/-- `bpf_core_patch_insn`. -/
def bpfCorePatchInsn (res : CoreReloRes) : Run InsnPair Unit := fun insn =>
  if insn.1.isAlu then bpfCorePatchAlu res insn
  else if insn.1.isMem then bpfCorePatchMem res insn
  else if bpfClass insn.1.code = BPF_LD then bpfCorePatchLd res insn
  else .error (.err (-EINVAL)) insn

-- ======== what it should do

/-- The operand of an instruction that can be relocated, as a `__u64`. -/
def relocOperand (insn : InsnPair) : BitVec 64 :=
  if insn.1.isAlu then insn.1.imm.signExtend 64
  else if insn.1.isMem then insn.1.off.signExtend 64
  else imm64 insn

/-- A result that has the instruction poisoned. -/
def CoreReloRes.poisons (res : CoreReloRes) (insn : BpfInsn) : Bool :=
  res.poison || (insn.isMem && res.failMemszAdjust)

/-- `out` is `insn` with the new value for an operand: the rest is as it
was, but for the size of a load or store if that is to change. -/
structure Patched (res : CoreReloRes) (insn out : InsnPair) : Prop where
  operand : relocOperand out = res.new64
  regs : out.1.dstReg = insn.1.dstReg ∧ out.1.srcReg = insn.1.srcReg
  code : out.1.code = insn.1.code ∨ insn.1.isMem = true ∧ res.newSz ≠ res.origSz
  kind : bpfClass out.1.code = bpfClass insn.1.code
    ∧ (insn.1.isMem = true → bpfMode out.1.code = bpfMode insn.1.code)
  size : insn.1.isMem = true → res.newSz ≠ res.origSz → insnBpfSizeToBytes out.1 = res.newSz
  off : insn.1.isMem = true ∨ out.1.off = insn.1.off
  imm : insn.1.isMem = false ∨ out.1.imm = insn.1.imm
  second : out.2 = insn.2 ∨ bpfClass insn.1.code = BPF_LD ∧ out.2 = { insn.2 with imm := out.2.imm }

/-- The call writes the value or fails: a call that returns 0 and does not
poison has patched the instruction, one that fails has left it alone. -/
def PatchExact (res : CoreReloRes) (insn : InsnPair) : Prop :=
  (∀ out, bpfCorePatchInsn res insn = .ok () out → res.poisons insn.1 = false →
    Patched res insn out)
  ∧ ∀ e out, bpfCorePatchInsn res insn = .error e out → out = insn

/-- An ALU instruction that gets the new value. -/
def aluWritten (res : CoreReloRes) (insn : InsnPair) : Prop :=
  insn.1.isAlu = true ∧ bpfSrc insn.1.code = BPF_K ∧ res.poison = false
    ∧ (res.validate = true → insn.1.imm.signExtend 64 = res.orig64)

/-- A load or store that gets its new offset, and a size that is refused. -/
def memHalfway (res : CoreReloRes) (insn : InsnPair) : Prop :=
  insn.1.isMem = true ∧ res.poison = false
    ∧ (res.validate = true → insn.1.off.signExtend 64 = res.orig64)
    ∧ res.new64.toNat ≤ SHRT_MAX ∧ res.failMemszAdjust = false
    ∧ res.newSz ≠ res.origSz
    ∧ (insnBpfSizeToBytes insn.1 ≠ res.origSz ∨ insnBytesToBpfSize res.newSz = none)

-- ======== the words

/-- A code with another size. -/
theorem resized_code {sz : BitVec 8} (hsz : sz &&& 0x18 = sz) (code : BitVec 8) :
    bpfClass (bpfMode code ||| sz ||| bpfClass code) = bpfClass code
      ∧ bpfMode (bpfMode code ||| sz ||| bpfClass code) = bpfMode code
      ∧ bpfSize (bpfMode code ||| sz ||| bpfClass code) = sz := by
  unfold bpfClass bpfMode bpfSize
  revert sz code
  decide +kernel

/-- Sizes in bytes and in a code are each other's inverse. -/
theorem bytesToBpfSize_eq_some {bytes : Nat} {sz : BitVec 8}
    (h : insnBytesToBpfSize bytes = some sz) :
    sz &&& 0x18 = sz ∧ ∀ insn : BpfInsn, bpfSize insn.code = sz →
      insnBpfSizeToBytes insn = bytes := by
  unfold insnBytesToBpfSize at h
  split at h
  all_goals first
    | cases h
      refine ⟨by decide, fun insn hsize => ?_⟩
      unfold insnBpfSizeToBytes
      rw [hsize]
      rfl
    | cases h

/-- An offset in range is read back as it was written. -/
theorem signExtend_off {v : BitVec 64} (h : v.toNat ≤ SHRT_MAX) :
    (v.setWidth 16).signExtend 64 = v := by
  unfold SHRT_MAX at h
  apply BitVec.eq_of_toNat_eq
  have hmsb : (v.setWidth 16).msb = false := by
    rw [BitVec.msb_eq_decide]
    simp only [BitVec.toNat_setWidth, decide_eq_false_iff_not]
    omega
  rw [BitVec.signExtend_eq_setWidth_of_msb_false hmsb, BitVec.toNat_setWidth, BitVec.toNat_setWidth]
  omega

theorem signExtend_off_iff {v : BitVec 64} (h : v.toNat ≤ SHRT_MAX) (off : BitVec 16) :
    v.setWidth 16 = off ↔ off.signExtend 64 = v := by
  constructor
  · rintro rfl
    exact signExtend_off h
  · rintro rfl
    apply BitVec.eq_of_getLsbD_eq
    intro i hi
    have hi64 : i < 64 := by omega
    simp only [BitVec.getLsbD_setWidth, BitVec.getLsbD_signExtend, hi, hi64, decide_true,
      Bool.true_and, if_true]

/-- The two immediates hold the value. -/
theorem imm64_halves (v : BitVec 64) (insn : InsnPair) :
    imm64 ({ insn.1 with imm := v.setWidth 32 },
      { insn.2 with imm := (v >>> 32).setWidth 32 }) = v := by
  unfold imm64
  apply BitVec.eq_of_getLsbD_eq
  intro i hi
  simp only [BitVec.getLsbD_or, BitVec.getLsbD_setWidth, BitVec.getLsbD_shiftLeft,
    BitVec.getLsbD_signExtend, BitVec.getLsbD_ushiftRight, hi, decide_true, Bool.true_and]
  by_cases hlow : i < 32
  · simp only [hlow, decide_true, Bool.true_and, Bool.not_true, Bool.false_and, Bool.or_false]
  have hpos : 32 + (i - 32) = i := by omega
  have hlt : i - 32 < 32 := by omega
  have hlt' : i - 32 < 64 := by omega
  simp only [hlow, decide_false, Bool.false_and, Bool.false_or, Bool.not_false, hlt, hlt',
    decide_true, Bool.true_and, if_true, hpos]

-- ======== the classes

section

variable {res : CoreReloRes} {insn : InsnPair}

theorem isMem_of_isAlu (h : i.isAlu = true) : i.isMem = false := by
  unfold BpfInsn.isAlu at h
  unfold BpfInsn.isMem
  rw [Bool.or_eq_true, beq_iff_eq, beq_iff_eq] at h
  rcases h with h | h <;> rw [h] <;> decide

theorem isMem_congr {j : BpfInsn} (h : bpfClass i.code = bpfClass j.code) : i.isMem = j.isMem := by
  unfold BpfInsn.isMem
  rw [h]

/-- A call that returns has to have patched the instruction, unless it
poisons it. -/
theorem patchExact_ok (h : bpfCorePatchInsn res insn = .ok () out) :
    PatchExact res insn ↔ (res.poisons insn.1 = false → Patched res insn out) := by
  unfold PatchExact
  rw [h]
  constructor
  · intro hexact
    exact hexact.1 out rfl
  · intro hp
    constructor
    · intro out' ho
      cases ho
      exact hp
    · intro e out' ho
      cases ho

/-- A call that fails has to leave the instruction alone. -/
theorem patchExact_error {e : Stop} (h : bpfCorePatchInsn res insn = .error e out) :
    PatchExact res insn ↔ out = insn := by
  unfold PatchExact
  rw [h]
  constructor
  · intro hexact
    exact hexact.2 e out rfl
  · intro hsame
    constructor
    · intro out' ho
      cases ho
    · intro e' out' ho
      cases ho
      exact hsame

/-- There is nothing to be said about an instruction that is poisoned. -/
theorem patchExact_poison (h : bpfCorePatchInsn res insn = bpfCorePoisonInsn insn)
    (hp : res.poisons insn.1 = true) : PatchExact res insn := by
  refine (patchExact_ok h).mpr fun hno => ?_
  rw [hp] at hno
  cases hno

-- -------- BPF_ALU(64)

/-- An ALU instruction with the new value. -/
theorem patched_alu (h : insn.1.isAlu = true) :
    Patched res insn ({ insn.1 with imm := res.new64.setWidth 32 }, insn.2)
      ↔ (res.new64.setWidth 32).signExtend 64 = res.new64 := by
  have hmem := isMem_of_isAlu h
  have hop : relocOperand ({ insn.1 with imm := res.new64.setWidth 32 }, insn.2)
      = (res.new64.setWidth 32).signExtend 64 := if_pos h
  constructor
  · intro hp
    rw [← hop]
    exact hp.operand
  · intro hv
    refine ⟨hop.trans hv, ⟨rfl, rfl⟩, .inl rfl, ⟨rfl, fun _ => rfl⟩, fun hm => ?_, .inr rfl,
      .inl hmem, .inl rfl⟩
    rw [hmem] at hm
    cases hm

theorem patchAlu_exact (h : insn.1.isAlu = true) : PatchExact res insn
    ↔ (aluWritten res insn → (res.new64.setWidth 32).signExtend 64 = res.new64) := by
  have hcall : bpfCorePatchInsn res insn = bpfCorePatchAlu res insn := if_pos h
  unfold bpfCorePatchAlu at hcall
  split at hcall
  · next hsrc => exact iff_of_true ((patchExact_error hcall).mpr rfl) fun hw => absurd hw.2.1 hsrc
  next hsrc =>
  split at hcall
  · next hpoison =>
      refine iff_of_true (patchExact_poison hcall ?_) fun hw => ?_
      · simp [CoreReloRes.poisons, hpoison]
      · cases hpoison.symm.trans hw.2.2.1
  next hpoison =>
  split at hcall
  · next hval =>
      exact iff_of_true ((patchExact_error hcall).mpr rfl)
        fun hw => absurd (hw.2.2.2 hval.1) hval.2
  next hval =>
  have hpoison : res.poison = false := by simpa using hpoison
  have hw : aluWritten res insn :=
    ⟨h, not_not.mp hsrc, hpoison, fun hv => not_not.mp fun hne => hval ⟨hv, hne⟩⟩
  have hclean : res.poisons insn.1 = false := by
    simp [CoreReloRes.poisons, hpoison, isMem_of_isAlu h]
  rw [patchExact_ok hcall, patched_alu h]
  exact ⟨fun hp _ => hp hclean, fun hv _ => hv hw⟩

-- -------- BPF_LDX, BPF_ST(X)

theorem isAlu_of_isMem (h : i.isMem = true) : i.isAlu = false := by
  cases ha : i.isAlu with
  | false => rfl
  | true => cases h.symm.trans (isMem_of_isAlu ha)

/-- A load or store with the new offset, and perhaps another code. -/
theorem patched_mem (h : insn.1.isMem = true) (hrange : res.new64.toNat ≤ SHRT_MAX)
    {code : BitVec 8} (hclass : bpfClass code = bpfClass insn.1.code)
    (hmode : bpfMode code = bpfMode insn.1.code) (hsz : code = insn.1.code ∧ res.newSz = res.origSz
      ∨ res.newSz ≠ res.origSz ∧ insnBpfSizeToBytes { insn.1 with code := code } = res.newSz) :
    Patched res insn ({ insn.1 with off := res.new64.setWidth 16, code := code }, insn.2) := by
  have hmem : BpfInsn.isMem { insn.1 with off := res.new64.setWidth 16, code := code } = true := by
    rw [← h]
    exact isMem_congr hclass
  have hop : relocOperand ({ insn.1 with off := res.new64.setWidth 16, code := code }, insn.2)
      = res.new64 := by
    unfold relocOperand
    rw [if_neg (by simp [isAlu_of_isMem hmem]), if_pos hmem]
    exact signExtend_off hrange
  refine ⟨hop, ⟨rfl, rfl⟩, ?_, ⟨hclass, fun _ => hmode⟩, fun _ hne => ?_, .inl h, .inr rfl,
    .inl rfl⟩
  · rcases hsz with ⟨hcode, -⟩ | ⟨hne, -⟩
    · exact .inl hcode
    · exact .inr ⟨h, hne⟩
  · rcases hsz with ⟨-, heq⟩ | ⟨-, hbytes⟩
    · exact absurd heq hne
    · exact hbytes

theorem patchMem_exact (h : insn.1.isMem = true) : PatchExact res insn
    ↔ (memHalfway res insn → insn.1.off.signExtend 64 = res.new64) := by
  have hcall : bpfCorePatchInsn res insn = bpfCorePatchMem res insn :=
    (if_neg (by simp [isAlu_of_isMem h])).trans (if_pos h)
  unfold bpfCorePatchMem at hcall
  split at hcall
  · next hpoison =>
      refine iff_of_true (patchExact_poison hcall ?_) fun hw => ?_
      · simp [CoreReloRes.poisons, hpoison]
      · cases hpoison.symm.trans hw.2.1
  next hpoison =>
  split at hcall
  · next hval =>
      exact iff_of_true ((patchExact_error hcall).mpr rfl)
        fun hw => absurd (hw.2.2.1 hval.1) hval.2
  next hval =>
  split at hcall
  · next hbig =>
      exact iff_of_true ((patchExact_error hcall).mpr rfl)
        fun hw => absurd hw.2.2.2.1 (Nat.not_le.mpr hbig)
  next hrange =>
  split at hcall
  · next hfail =>
      refine iff_of_true (patchExact_poison hcall ?_) fun hw => ?_
      · simp [CoreReloRes.poisons, h, hfail]
      · cases hfail.symm.trans hw.2.2.2.2.1
  next hfail =>
  have hpoison : res.poison = false := by simpa using hpoison
  have hfail : res.failMemszAdjust = false := by simpa using hfail
  have hrange : res.new64.toNat ≤ SHRT_MAX := Nat.not_lt.mp hrange
  -- from here on the offset is written
  have hhalfway : res.newSz ≠ res.origSz →
      insnBpfSizeToBytes insn.1 ≠ res.origSz ∨ insnBytesToBpfSize res.newSz = none →
      memHalfway res insn := fun hne hbad =>
    ⟨h, hpoison, fun hv => not_not.mp fun hne => hval ⟨hv, hne⟩, hrange, hfail, hne, hbad⟩
  have hrefused : bpfCorePatchInsn res insn = .error (.err (-EINVAL))
        ({ insn.1 with off := res.new64.setWidth 16 }, insn.2) →
      memHalfway res insn →
      (PatchExact res insn ↔ (memHalfway res insn → insn.1.off.signExtend 64 = res.new64)) := by
    intro hcall hw
    rw [patchExact_error hcall, ← signExtend_off_iff hrange]
    constructor
    · intro hsame _
      exact congrArg (fun p : InsnPair => p.1.off) hsame
    · intro hoff
      have hoff := hoff hw
      rw [hoff]
  unfold bpfCorePatchMemSz at hcall
  split at hcall
  · next hne =>
      split at hcall
      · next hbytes => exact hrefused hcall (hhalfway hne (.inl hbytes))
      next hbytes =>
        cases hsz : insnBytesToBpfSize res.newSz with
        | none =>
          rw [hsz] at hcall
          exact hrefused hcall (hhalfway hne (.inr hsz))
        | some sz =>
          rw [hsz] at hcall
          obtain ⟨hmask, hconv⟩ := bytesToBpfSize_eq_some hsz
          obtain ⟨hclass, hmode, hsize⟩ := resized_code hmask insn.1.code
          refine iff_of_true ((patchExact_ok hcall).mpr fun _ =>
            patched_mem h hrange hclass hmode (.inr ⟨hne, hconv _ hsize⟩)) fun hw => ?_
          rcases hw.2.2.2.2.2.2 with hbad | hbad
          · exact absurd (not_not.mp hbytes) hbad
          · cases hsz.symm.trans hbad
  · next heq =>
      exact iff_of_true ((patchExact_ok hcall).mpr fun _ =>
        patched_mem h hrange rfl rfl (.inl ⟨rfl, not_not.mp heq⟩))
          fun hw => absurd hw.2.2.2.2.2.1 heq

/-- A load or store that is patched and gets another size has it
afterwards. -/
theorem patchMem_size (h : insn.1.isMem = true)
    (hclean : res.poisons insn.1 = false) (hne : res.newSz ≠ res.origSz)
    (hok : bpfCorePatchInsn res insn = .ok () out) :
    insnBpfSizeToBytes out.1 = res.newSz := by
  have hpoison : res.poison = false ∧ res.failMemszAdjust = false := by
    simpa [CoreReloRes.poisons, h] using hclean
  have hcall : bpfCorePatchInsn res insn = bpfCorePatchMem res insn :=
    (if_neg (by simp [isAlu_of_isMem h])).trans (if_pos h)
  rw [hcall] at hok
  unfold bpfCorePatchMem at hok
  rw [if_neg (by simp [hpoison.1])] at hok
  split at hok
  · cases hok
  split at hok
  · cases hok
  rw [if_neg (by simp [hpoison.2])] at hok
  unfold bpfCorePatchMemSz at hok
  rw [if_pos hne] at hok
  split at hok
  · cases hok
  split at hok
  · cases hok
  next sz hsz =>
    cases hok
    obtain ⟨hmask, hconv⟩ := bytesToBpfSize_eq_some hsz
    exact hconv _ (resized_code hmask insn.1.code).2.2

-- -------- BPF_LD

theorem patchLd_exact (halu : insn.1.isAlu = false) (hmem : insn.1.isMem = false)
    (h : bpfClass insn.1.code = BPF_LD) : PatchExact res insn := by
  have hcall : bpfCorePatchInsn res insn = bpfCorePatchLd res insn :=
    (if_neg (by simp [halu])).trans ((if_neg (by simp [hmem])).trans (if_pos h))
  unfold bpfCorePatchLd at hcall
  split at hcall
  · exact (patchExact_error hcall).mpr rfl
  split at hcall
  · next hpoison => exact patchExact_poison hcall (by simp [CoreReloRes.poisons, hpoison])
  split at hcall
  · exact (patchExact_error hcall).mpr rfl
  refine (patchExact_ok hcall).mpr fun _ => ?_
  have hop : relocOperand ({ insn.1 with imm := res.new64.setWidth 32 },
      { insn.2 with imm := (res.new64 >>> 32).setWidth 32 }) = res.new64 := by
    have halu' : BpfInsn.isAlu { insn.1 with imm := res.new64.setWidth 32 } = false := halu
    have hmem' : BpfInsn.isMem { insn.1 with imm := res.new64.setWidth 32 } = false := hmem
    unfold relocOperand
    rw [if_neg (by simp [halu']), if_neg (by simp [hmem']), imm64_halves]
  refine ⟨hop, ⟨rfl, rfl⟩, .inl rfl, ⟨rfl, fun _ => rfl⟩, fun hm => ?_, .inr rfl, .inl hmem,
    .inr ⟨h, rfl⟩⟩
  cases hmem.symm.trans hm

end

/-- For every instruction and every result: the call writes the value or
fails, exactly if an ALU instruction that gets its value can hold it, and a
load or store whose size is refused already has its offset. -/
theorem patchInsn_exact_iff (res : CoreReloRes) (insn : InsnPair) : PatchExact res insn
      ↔ (aluWritten res insn → (res.new64.setWidth 32).signExtend 64 = res.new64)
        ∧ (memHalfway res insn → insn.1.off.signExtend 64 = res.new64) := by
  cases halu : insn.1.isAlu with
  | true =>
    rw [patchAlu_exact halu]
    refine (and_iff_left fun hw => ?_).symm
    cases (isMem_of_isAlu halu).symm.trans hw.1
  | false =>
    have hno : aluWritten res insn → (res.new64.setWidth 32).signExtend 64 = res.new64 :=
      fun hw => by cases halu.symm.trans hw.1
    rw [and_iff_right hno]
    cases hmem : insn.1.isMem with
    | true => exact patchMem_exact hmem
    | false =>
      refine iff_of_true ?_ fun hw => by cases hmem.symm.trans hw.1
      by_cases hld : bpfClass insn.1.code = BPF_LD
      · exact patchLd_exact halu hmem hld
      · have hcall : bpfCorePatchInsn res insn = .error (.err (-EINVAL)) insn :=
          (if_neg (by simp [halu])).trans ((if_neg (by simp [hmem])).trans (if_neg hld))
        exact (patchExact_error hcall).mpr rfl

/-- `r1 = 8` with a value of 33 bits for its immediate: the call returns 0
and has cut the value off. -/
theorem patchInsn_cuts_off : ¬ PatchExact ⟨8, 2 ^ 32 + 16, false, true, false, 0, 0, 0, 0⟩
      (⟨0xb7, 1, 0, 0, 8⟩, ⟨0, 0, 0, 0, 0⟩)
    ∧ bpfCorePatchInsn ⟨8, 2 ^ 32 + 16, false, true, false, 0, 0, 0, 0⟩
      (⟨0xb7, 1, 0, 0, 8⟩, ⟨0, 0, 0, 0, 0⟩)
      = .ok () (⟨0xb7, 1, 0, 0, 16⟩, ⟨0, 0, 0, 0, 0⟩)
    -- a load of a `u32` as 8 bytes, for a field that is now a `u64`
    ∧ ¬ PatchExact ⟨8, 16, false, true, false, 4, 1, 8, 1⟩ (⟨0x79, 1, 2, 8, 0⟩, ⟨0, 0, 0, 0, 0⟩)
    ∧ bpfCorePatchInsn ⟨8, 16, false, true, false, 4, 1, 8, 1⟩ (⟨0x79, 1, 2, 8, 0⟩, ⟨0, 0, 0, 0, 0⟩)
      = .error (.err (-EINVAL)) (⟨0x79, 1, 2, 16, 0⟩, ⟨0, 0, 0, 0, 0⟩) := by
  have halu : bpfCorePatchInsn ⟨8, 2 ^ 32 + 16, false, true, false, 0, 0, 0, 0⟩
      (⟨0xb7, 1, 0, 0, 8⟩, ⟨0, 0, 0, 0, 0⟩)
      = .ok () (⟨0xb7, 1, 0, 0, 16⟩, ⟨0, 0, 0, 0, 0⟩) := by rfl
  have hmem : bpfCorePatchInsn ⟨8, 16, false, true, false, 4, 1, 8, 1⟩
      (⟨0x79, 1, 2, 8, 0⟩, ⟨0, 0, 0, 0, 0⟩)
      = .error (.err (-EINVAL)) (⟨0x79, 1, 2, 16, 0⟩, ⟨0, 0, 0, 0, 0⟩) := by rfl
  refine ⟨fun h => ?_, halu, fun h => ?_, hmem⟩
  · have hop := ((patchExact_ok halu).mp h rfl).operand
    revert hop
    decide
  · have hsame := (patchExact_error hmem).mp h
    revert hsame
    decide

end Libbpf
