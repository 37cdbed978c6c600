/-
How `extend_sec` puts one input behind another.

The inputs of a section are the pieces that were appended under its name, each
with the place it was put to. While the sizes stay below 2^31 the linker does
what `Laid` says: each piece goes to the next multiple of the largest alignment
so far, the gap is filled with zeros, and nothing that is there is touched
(`Layout`, `Grown.finished`).
-/
import Libbpf.Lib.Align
import Libbpf.Linker.SectionSpec

namespace Libbpf

open Lib List

-- ======== pieces

/-- An input of an output section, with its place. -/
structure Piece where
  scn : ElfScn
  off : BitVec 32
deriving DecidableEq

namespace Piece

def size (p : Piece) : Nat := p.scn.shdr.shSize.toNat

def align (p : Piece) : Nat := p.scn.shdr.shAddralign.toNat

def block (p : Piece) : Block := ⟨p.align, p.size⟩

def bytes (p : Piece) : Bytes := p.scn.data.dBuf.take p.size

/-- The bytes at the piece's place, with the instructions of an executable
section swapped back if they are foreign. -/
def readBack (swapped : Bool) (d : DstSec) (p : Piece) : Bytes :=
  if swapped && isExecSec d then
    execSecBswap (slice d.rawData p.off.toNat p.size) (p.scn.shdr.shSize.setWidth 32)
  else slice d.rawData p.off.toNat p.size

end Piece

/-- What a section that went through `linker_append_sec_data` contributes under
a name. -/
def SrcSec.piece? (name : CStr) (s : SrcSec) : Option Piece :=
  if s.secName = name ∧ isDataSec s = true then s.scn.map fun e => ⟨e, s.dstOff⟩ else none

def pieces (name : CStr) (secs : List SrcSec) : List Piece := secs.filterMap (·.piece? name)

/-- How far the pieces reach, in unbounded arithmetic. -/
def laid (ps : List Piece) : Laid := Laid.start.all (ps.map Piece.block)

/-- The output section `d` with the ELF part `s` is the concatenation of the
pieces. -/
structure Concatenated (swapped : Bool) (ps : List Piece) (d : DstSec) (s : ElfScn) : Prop where
  nonneg : ∀ p ∈ ps, 0 ≤ p.off.toInt
  inOrder : ps.Pairwise fun (p q : Piece) => p.off.toInt + (p.size : Int) ≤ q.off.toInt
  aligned : ∀ p ∈ ps, ((max 1 p.align : Nat) : Int) ∣ p.off.toInt
  outAligned : ∀ p ∈ ps, max 1 p.align ∣ s.shdr.shAddralign.toNat
  sizes : ∀ p, ps.getLast? = some p → d.secSz.toInt = p.off.toInt + p.size
    ∧ (s.shdr.shSize.toNat : Int) = p.off.toInt + p.size
    ∧ (s.data.dSize.toNat : Int) = p.off.toInt + p.size
  stored : s.shdr.shType ≠ SHT_NOBITS → d.rawData.length = s.shdr.shSize.toNat
  copied : s.shdr.shType ≠ SHT_NOBITS → ∀ p ∈ ps, p.readBack swapped d = p.bytes
  padding : ∀ i, i < d.rawData.length →
    (∀ p ∈ ps, ¬ (p.off.toNat ≤ i ∧ i < p.off.toNat + p.size)) → d.rawData[i]? = some 0

-- ======== byte order

section

/-- The register fields of an instruction are swapped back. -/
theorem swapNibbles_twice (r : UInt8) :
    (r <<< 4 ||| r >>> 4) <<< 4 ||| (r <<< 4 ||| r >>> 4) >>> 4 = r := by
  refine UInt8.toBitVec_inj.mp (BitVec.eq_of_getLsbD_eq fun i hi => ?_)
  have h : i = 0 ∨ i = 1 ∨ i = 2 ∨ i = 3 ∨ i = 4 ∨ i = 5 ∨ i = 6 ∨ i = 7 := by omega
  rcases h with rfl | rfl | rfl | rfl | rfl | rfl | rfl | rfl <;> simp

theorem bpfInsnBswap_length (b : Bytes) : (bpfInsnBswap b).length = b.length := by
  unfold bpfInsnBswap
  split <;> rfl

theorem bpfInsnBswap_twice (b : Bytes) : bpfInsnBswap (bpfInsnBswap b) = b := by
  fun_cases bpfInsnBswap b
  case case1 => simp [bpfInsnBswap, swapNibbles_twice]
  case case2 h => exact bpfInsnBswap.eq_2 b h

theorem bpfInsnsBswap_length (n : Nat) (b : Bytes) : (bpfInsnsBswap n b).length = b.length := by
  induction n generalizing b with
  | zero => rfl
  | succ n ih =>
    rw [bpfInsnsBswap, length_append, bpfInsnBswap_length, ih, length_take, length_drop]
    omega

theorem bpfInsnsBswap_twice (n : Nat) (b : Bytes) : bpfInsnsBswap n (bpfInsnsBswap n b) = b := by
  induction n generalizing b with
  | zero => rfl
  | succ n ih =>
    generalize hx : bpfInsnBswap (b.take 8) = x
    -- the first instruction, or what is there of it, keeps its length
    have hlen : x.length = min 8 b.length := by
      rw [← hx, bpfInsnBswap_length, length_take]
    have hrest : b.length ≤ 8 → bpfInsnsBswap n (b.drop 8) = [] := by
      rw [← length_eq_zero_iff, bpfInsnsBswap_length, length_drop]
      omega
    have hsplit : (x ++ bpfInsnsBswap n (b.drop 8)).take 8 = x
        ∧ (x ++ bpfInsnsBswap n (b.drop 8)).drop 8 = bpfInsnsBswap n (b.drop 8) := by
      by_cases h : b.length ≤ 8
      · rw [hrest h, append_nil]
        exact ⟨take_of_length_le (by omega), drop_of_length_le (by omega)⟩
      · have h8 : x.length = 8 := by omega
        rw [← h8]
        exact ⟨take_left, drop_left⟩
    rw [bpfInsnsBswap, bpfInsnsBswap, hx, hsplit.1, hsplit.2, ih, ← hx, bpfInsnBswap_twice,
      take_append_drop]

theorem execSecBswap_length (b : Bytes) (size : BitVec 32) :
    (execSecBswap b size).length = b.length := bpfInsnsBswap_length _ _

theorem execSecBswap_twice (b : Bytes) (size : BitVec 32) :
    execSecBswap (execSecBswap b size) size = b := bpfInsnsBswap_twice _ _

end

-- ======== sizes

section

variable {secSz : BitVec 32} {align size : BitVec 64} {n : Nat}

theorem toNat_signExtend_of_small (h : secSz.toNat < 2 ^ 31) :
    (secSz.signExtend 64).toNat = secSz.toNat := by
  rw [BitVec.signExtend_eq_setWidth_of_msb_false (by
    rw [BitVec.msb_eq_false_iff_two_mul_lt]
    omega), BitVec.toNat_setWidth]
  omega

theorem toInt_of_small (h : secSz.toNat < 2 ^ 31) : secSz.toInt = secSz.toNat := by
  rw [BitVec.toInt_eq_toNat_of_lt]
  omega

theorem toNat_dstAlign (dst src : Elf64Shdr) : (dstAlign dst src).toNat
      = max (max 1 dst.shAddralign.toNat) src.shAddralign.toNat := by
  have hone : (if dst.shAddralign = 0 then (1 : BitVec 64) else dst.shAddralign).toNat
      = max 1 dst.shAddralign.toNat := by
    by_cases h : dst.shAddralign = 0
    · rw [if_pos h, h]
      rfl
    have hpos : 0 < dst.shAddralign.toNat :=
      Nat.pos_of_ne_zero fun h0 => h (BitVec.eq_of_toNat_eq h0)
    rw [if_neg h]
    omega
  unfold dstAlign
  generalize (if dst.shAddralign = 0 then (1 : BitVec 64) else dst.shAddralign) = a at hone ⊢
  by_cases h : a < src.shAddralign
  · rw [if_pos h]
    have := BitVec.lt_def.mp h
    omega
  · rw [if_neg h]
    have := mt BitVec.lt_def.mpr h
    omega

/-- Rounding up does not overflow: an alignment is at most 2^63. -/
theorem toNat_dstAlignSz (h : secSz.toNat < 2 ^ 31) {k : Nat} (ha : align.toNat = 2 ^ k) :
    (dstAlignSz secSz align).toNat = roundUp secSz.toNat align.toNat := by
  have hk : align.toNat ≤ 2 ^ 63 := by
    have hlt := align.isLt
    rw [ha] at hlt ⊢
    have : k < 64 := (Nat.pow_lt_pow_iff_right (by decide)).mp hlt
    exact Nat.pow_le_pow_right (by decide) (by omega)
  have hpos : 0 < align.toNat := ha ▸ Nat.two_pow_pos k
  have hsum : (secSz.signExtend 64 + align - 1).toNat = secSz.toNat + align.toNat - 1 := by
    have hadd : (secSz.signExtend 64 + align).toNat = secSz.toNat + align.toNat := by
      rw [BitVec.toNat_add, toNat_signExtend_of_small h]
      omega
    have hone : (1 : BitVec 64).toNat = 1 := rfl
    rw [BitVec.toNat_sub]
    omega
  have hle := Nat.div_mul_le_self (secSz.toNat + align.toNat - 1) align.toNat
  rw [dstAlignSz, BitVec.toNat_mul, BitVec.toNat_udiv, hsum]
  exact Nat.mod_eq_of_lt (by omega)

end

-- ======== contents

theorem memset_ok {b b' : Bytes} {p n : Nat} {c : UInt8} (h : memset b p c n = .ok b') :
    b' = b.take p ++ List.replicate n c ++ b.drop (p + n) := by
  unfold memset at h
  by_cases hn : n = 0
  · rw [if_pos hn] at h
    cases h
    simp [hn]
  rw [if_neg hn] at h
  by_cases hin : (0 : Int) ≤ p ∧ (p : Int) + n ≤ b.length
  · rw [if_pos hin] at h
    cases h
    simp [patch]
  · rw [if_neg hin] at h
    cases h

theorem memcpy_ok {b b' src : Bytes} {p n : Nat} (h : memcpy b p src n = .ok b') :
    b' = b.take p ++ src.take n ++ b.drop (p + n)
      ∧ (n ≠ 0 → p + n ≤ b.length) ∧ n ≤ src.length := by
  unfold memcpy at h
  by_cases hn : n = 0
  · rw [if_pos hn] at h
    cases h
    simp [hn]
  rw [if_neg hn] at h
  by_cases hin : p + n ≤ b.length ∧ n ≤ src.length
  · rw [if_pos hin] at h
    cases h
    refine ⟨?_, fun _ => hin.1, hin.2⟩
    rw [patch, length_take, Nat.min_eq_left hin.2]
  · rw [if_neg hin] at h
    cases h

/-- The data that are appended, in the byte order of the host. -/
def appendedBytes (swapped : Bool) (d : DstSec) (e : ElfScn) : Bytes :=
  let data := e.data.dBuf.take e.shdr.shSize.toNat
  if swapped && isExecSec d then execSecBswap data (e.shdr.shSize.setWidth 32) else data

/-- The contents grow by padding and the data; what is there stays. -/
theorem extendRawData_eq {alloc : Allocator} {swapped : Bool} {d : DstSec} {e : ElfScn}
    {alignSz finalSz : BitVec 64} {raw : Bytes} (hbits : e.shdr.shType ≠ SHT_NOBITS)
    (hsmall : d.secSz.toNat < 2 ^ 31) (hlen : d.rawData.length = d.secSz.toNat)
    (hle : d.secSz.toNat ≤ alignSz.toNat)
    (hfinal : finalSz.toNat = alignSz.toNat + e.shdr.shSize.toNat)
    (h : extendRawData alloc swapped d e alignSz finalSz = .ok raw) :
    e.shdr.shSize.toNat ≤ e.data.dBuf.length
      ∧ raw = d.rawData ++ List.replicate (alignSz.toNat - d.secSz.toNat) 0
        ++ appendedBytes swapped d e := by
  have hgap : (alignSz - d.secSz.signExtend 64).toNat = alignSz.toNat - d.secSz.toNat := by
    have := alignSz.isLt
    rw [BitVec.toNat_sub, toNat_signExtend_of_small hsmall]
    omega
  unfold extendRawData at h
  rw [if_neg hbits] at h
  simp only [except_bind_eq_ok, failIf_eq_ok] at h
  obtain ⟨_, hnull, raw₁, hset, raw₂, hcpy, h⟩ := h
  rw [hgap, toInt_of_small hsmall] at hset
  have hset := memset_ok hset
  obtain ⟨hcpy, hroom, hsrc⟩ := memcpy_ok hcpy
  refine ⟨hsrc, ?_⟩
  generalize hb : (alloc.realloc d.rawData finalSz.toNat).getD [] = b at hset
  -- NULL comes back for an empty section only
  have hblock : b.length = finalSz.toNat ∧ b.take d.secSz.toNat = d.rawData := by
    cases hr : alloc.realloc d.rawData finalSz.toNat with
    | some new =>
      rw [hr, Option.getD_some] at hb
      subst hb
      refine ⟨alloc.size_eq hr, ext_getElem? fun i => ?_⟩
      by_cases hi : i < d.secSz.toNat
      · rw [getElem?_take_of_lt hi]
        exact alloc.keeps hr (by omega) (by omega)
      · rw [getElem?_take_eq_none (by omega), getElem?_eq_none (by omega)]
    | none =>
      rw [hr, Option.getD_none] at hb
      subst hb
      have hzero : alignSz.toNat = 0 := by
        by_contra hne
        refine hnull ⟨hr, BitVec.lt_def.mpr ?_⟩
        exact Nat.pos_of_ne_zero hne
      have hraw : d.rawData = [] := eq_nil_of_length_eq_zero (by omega)
      have hsize : e.shdr.shSize.toNat = 0 := by
        by_contra hne
        have := hroom hne
        rw [hset, hzero] at this
        simp at this
        omega
      rw [hraw]
      simp
      omega
  obtain ⟨hbl, hbt⟩ := hblock
  have hpre : raw₁ = d.rawData ++ List.replicate (alignSz.toNat - d.secSz.toNat) 0
      ++ b.drop alignSz.toNat := by
    rw [hset, hbt]
    congr 2
    omega
  have hprelen : (d.rawData ++ List.replicate (alignSz.toNat - d.secSz.toNat) (0 : UInt8)).length
      = alignSz.toNat := by
    rw [length_append, length_replicate]
    omega
  have htake : raw₁.take alignSz.toNat
      = d.rawData ++ List.replicate (alignSz.toNat - d.secSz.toNat) 0 := by
    rw [hpre]
    exact take_left' hprelen
  have hdrop : raw₁.drop (alignSz.toNat + e.shdr.shSize.toNat) = [] := by
    apply drop_of_length_le
    rw [hpre, length_append, hprelen, length_drop]
    omega
  rw [htake, hdrop, append_nil] at hcpy
  unfold appendedBytes
  by_cases hswap : (swapped && isExecSec d) = true
  · rw [if_pos hswap] at h ⊢
    cases h
    rw [hcpy, take_left' hprelen, drop_left' hprelen]
  · rw [if_neg hswap] at h ⊢
    cases h
    exact hcpy

-- ======== layout

theorem laid_concat (ps : List Piece) (p : Piece) : laid (ps ++ [p]) = (laid ps).next p.block := by
  rw [laid, map_append, Laid.all_append]
  rfl

theorem laid_align_pos (ps : List Piece) : 0 < (laid ps).align :=
  Laid.all_align_pos (by decide) _

theorem laid_stop_le (ps qs : List Piece) : (laid ps).stop ≤ (laid (ps ++ qs)).stop := by
  rw [laid, laid, map_append, Laid.all_append]
  exact Laid.stop_le_all (laid_align_pos ps) _

/-- A section of a size that its `int` holds. -/
structure Sized (lay : Laid) (d : DstSec) (s : ElfScn) : Prop where
  small : lay.stop < 2 ^ 31
  pow : ∃ k, lay.align = 2 ^ k
  secSz : d.secSz.toNat = lay.stop
  stored : s.shdr.shType ≠ SHT_NOBITS → d.rawData.length = lay.stop

/-- A section that is laid out as it should be, so far as the next piece
matters: all but the sizes and the alignment that its header has. -/
structure Layout (swapped : Bool) (ps : List Piece) (d : DstSec) (s : ElfScn) : Prop
    extends Sized (laid ps) d s where
  nobits : s.shdr.shType = SHT_NOBITS → d.rawData = []
  inOrder : ps.Pairwise fun (p q : Piece) => p.off.toNat + p.size ≤ q.off.toNat
  ends : ∀ p ∈ ps, p.off.toNat + p.size ≤ (laid ps).stop
  last : ∀ p, ps.getLast? = some p → p.off.toNat + p.size = (laid ps).stop
  aligned : ∀ p ∈ ps, max 1 p.align ∣ p.off.toNat
  outAligned : ∀ p ∈ ps, max 1 p.align ∣ (laid ps).align
  copied : s.shdr.shType ≠ SHT_NOBITS → ∀ p ∈ ps, p.readBack swapped d = p.bytes
  padding : ∀ i, i < d.rawData.length →
    (∀ p ∈ ps, ¬ (p.off.toNat ≤ i ∧ i < p.off.toNat + p.size)) → d.rawData[i]? = some 0

/-- The same with the header of the section. -/
structure Finished (swapped : Bool) (ps : List Piece) (d : DstSec) (s : ElfScn) : Prop
    extends Layout swapped ps d s where
  shSize : s.shdr.shSize.toNat = (laid ps).stop
  dSize : s.data.dSize.toNat = (laid ps).stop
  shAddralign : s.shdr.shAddralign.toNat = (laid ps).align

theorem Finished.concatenated {swapped : Bool} {ps : List Piece} {d : DstSec} {s : ElfScn}
    (h : Finished swapped ps d s) : Concatenated swapped ps d s := by
  have hoff : ∀ p ∈ ps, p.off.toInt = p.off.toNat := by
    intro p hp
    have hend := h.ends p hp
    have hsmall := h.small
    exact toInt_of_small (by omega)
  refine ⟨fun p hp => ?_, ?_, fun p hp => ?_, fun p hp => ?_, fun p hp => ?_, fun hb => ?_,
    h.copied, h.padding⟩
  · rw [hoff p hp]
    exact Int.natCast_nonneg _
  · refine h.inOrder.imp_of_mem fun hp hq hpq => ?_
    rw [hoff _ hp, hoff _ hq]
    exact_mod_cast hpq
  · rw [hoff p hp]
    exact_mod_cast h.aligned p hp
  · rw [h.shAddralign]
    exact h.outAligned p hp
  · have hlast := h.last p hp
    have hp' := hoff p (mem_of_getLast? hp)
    rw [toInt_of_small (by rw [h.secSz]; exact h.small), h.secSz, h.shSize, h.dSize, hp', ← hlast]
    simp
  · rw [h.shSize]
    exact h.stored hb

/-- The section of a name: none, a shell, or one that is laid out. -/
inductive Good (swapped : Bool) (ps : List Piece) : Option DstSec → Prop
  | none (h : ps = []) : Good swapped ps none
  | shell {d : DstSec} (h : ps = []) (hs : d.scn = .none) (hraw : d.rawData = [])
      (hsz : d.secSz = 0) : Good swapped ps (some d)
  | real {d : DstSec} {s : ElfScn} (hne : ps ≠ []) (hs : d.scn = some s)
      (h : Finished swapped ps d s) : Good swapped ps (some d)

theorem layout_nil {swapped : Bool} {d : DstSec} (s : ElfScn) (hraw : d.rawData = [])
    (hsz : d.secSz = 0) : Layout swapped [] d s where
  small := by decide
  pow := ⟨0, rfl⟩
  secSz := by rw [hsz]; rfl
  stored _ := by rw [hraw]; rfl
  nobits _ := hraw
  inOrder := .nil
  ends _ hp := by cases hp
  last _ hp := by cases hp
  aligned _ hp := by cases hp
  outAligned _ hp := by cases hp
  copied _ _ hp := by cases hp
  padding i hi := by rw [hraw] at hi; cases hi

/-- The section that the next piece is put behind. -/
theorem Good.begun {swapped : Bool} {ps : List Piece} {old : Option DstSec} {d : DstSec}
    {e : ElfScn} (h : Good swapped ps old) (hb : Begun e old d) :
    ∃ s, d.scn = some s ∧ s.shdr.shType = e.shdr.shType ∧ Layout swapped ps d s
      ∧ max (max 1 s.shdr.shAddralign.toNat) e.shdr.shAddralign.toNat
        = max (laid ps).align e.shdr.shAddralign.toNat := by
  cases hb with
  | @going d s hs htype =>
    cases h with
    | shell _ hno _ _ =>
      rw [hs] at hno
      cases hno
    | @real _ s' _ hs' hf =>
      rw [hs] at hs'
      cases hs'
      refine ⟨s, hs, htype, hf.toLayout, ?_⟩
      have hpos := laid_align_pos ps
      rw [hf.shAddralign]
      omega
  | @fresh _ _ secIdx nameOff hold hnone hs hsz =>
    have hnil : ps = [] ∧ d.rawData = [] := by
      cases h with
      | none hps => exact ⟨hps, hnone rfl⟩
      | shell hps _ hraw _ => exact ⟨hps, (hold _ rfl).2 ▸ hraw⟩
      | real _ hs' _ =>
        rw [(hold _ rfl).1] at hs'
        cases hs'
    obtain ⟨rfl, hraw⟩ := hnil
    refine ⟨_, hs, rfl, layout_nil _ hraw hsz, ?_⟩
    show max (max 1 e.shdr.shAddralign.toNat) e.shdr.shAddralign.toNat
      = max 1 e.shdr.shAddralign.toNat
    omega

-- ======== step

section

variable {alloc : Allocator} {swapped : Bool} {lay : Laid} {d d' : DstSec} {s e : ElfScn}
  {off : BitVec 32}

/-- The header that `extend_sec` leaves. -/
def extendedScn (s e : ElfScn) (finalSz : BitVec 64) : ElfScn :=
  { s with
    shdr := { s.shdr with shSize := finalSz, shAddralign := dstAlign s.shdr e.shdr }
    data := { s.data with dSize := finalSz, dAlign := dstAlign s.shdr e.shdr } }

theorem extendScn_ok (hs : d.scn = some s) (h : extendScn alloc swapped d e = .ok (d', off)) :
    ∃ alignSz raw, alignSz = dstAlignSz d.secSz (dstAlign s.shdr e.shdr)
      ∧ extendRawData alloc swapped d e alignSz (alignSz + e.shdr.shSize) = .ok raw
      ∧ off = alignSz.setWidth 32
      ∧ d' = { d with
          rawData := raw
          secSz := (alignSz + e.shdr.shSize).setWidth 32
          scn := some (extendedScn s e (alignSz + e.shdr.shSize)) } := by
  simp only [extendScn, hs, except_bind_eq_ok, deref_eq_ok] at h
  obtain ⟨_, ⟨⟩, raw, hraw, h⟩ := h
  cases h
  exact ⟨_, raw, rfl, hraw, rfl, rfl⟩

variable (hl : Sized lay d s)
  (halign : max (max 1 s.shdr.shAddralign.toNat) e.shdr.shAddralign.toNat
    = max lay.align e.shdr.shAddralign.toNat)
  (hpow : (Piece.mk e off).block.Pow2)

include hl halign hpow

/-- The place of the next piece, computed without an overflow. -/
theorem toNat_alignSz : (dstAlign s.shdr e.shdr).toNat = (lay.next (Piece.mk e off).block).align
      ∧ (dstAlignSz d.secSz (dstAlign s.shdr e.shdr)).toNat = lay.off (Piece.mk e off).block := by
  have ha : (dstAlign s.shdr e.shdr).toNat = (lay.next (Piece.mk e off).block).align := by
    rw [toNat_dstAlign, halign]
    rfl
  obtain ⟨k, hk⟩ := hl.pow
  obtain ⟨j, hj⟩ := Laid.pow_next hk hpow
  refine ⟨ha, ?_⟩
  rw [toNat_dstAlignSz (hl.secSz ▸ hl.small) (ha.trans hj), hl.secSz, ha]
  rfl

omit hl halign hpow in
theorem isExecSec_extendedScn {raw : Bytes} {secSz : BitVec 32} (hs : d.scn = some s)
    (finalSz : BitVec 64) :
    isExecSec { d with rawData := raw, secSz := secSz, scn := some (extendedScn s e finalSz) }
      = isExecSec d := by
  simp only [isExecSec, hs]
  rfl

/-- A section and what it becomes with a piece behind it. -/
structure Grown (swapped : Bool) (lay : Laid) (p : Piece) (d d' : DstSec) (s s' : ElfScn) :
    Prop where
  off : p.off.toNat = lay.off p.block
  secSz : d'.secSz.toNat = (lay.next p.block).stop
  shSize : s'.shdr.shSize.toNat = (lay.next p.block).stop
  dSize : s'.data.dSize.toNat = (lay.next p.block).stop
  shAddralign : s'.shdr.shAddralign.toNat = (lay.next p.block).align
  type : s'.shdr.shType = s.shdr.shType
  exec : isExecSec d' = isExecSec d
  nobits : s.shdr.shType = SHT_NOBITS → d'.rawData = d.rawData
  grows : s.shdr.shType ≠ SHT_NOBITS → p.size ≤ p.scn.data.dBuf.length
    ∧ d'.rawData = d.rawData ++ List.replicate (p.off.toNat - lay.stop) 0
      ++ appendedBytes swapped d p.scn

theorem Sized.grown (hs : d.scn = some s) (htype : s.shdr.shType = e.shdr.shType)
    (h : extendScn alloc swapped d e = .ok (d', off))
    (hsmall : (lay.next (Piece.mk e off).block).stop < 2 ^ 31) :
    ∃ s', d'.scn = some s' ∧ Grown swapped lay ⟨e, off⟩ d d' s s' := by
  obtain ⟨alignSz, raw, halignSz, hraw, hoff, hd'⟩ := extendScn_ok hs h
  obtain ⟨hal, hsz⟩ := toNat_alignSz hl halign hpow
  rw [← halignSz] at hsz
  have hstop : (lay.next (Piece.mk e off).block).stop = alignSz.toNat + e.shdr.shSize.toNat := by
    rw [hsz]
    rfl
  have hfinal : (alignSz + e.shdr.shSize).toNat = alignSz.toNat + e.shdr.shSize.toNat := by
    rw [BitVec.toNat_add]
    omega
  have hplace : off.toNat = alignSz.toNat := by
    rw [hoff, BitVec.toNat_setWidth]
    omega
  have hle : d.secSz.toNat ≤ alignSz.toNat := by
    obtain ⟨k, hk⟩ := hl.pow
    rw [hl.secSz, hsz]
    exact Laid.stop_le_off (hk ▸ Nat.two_pow_pos k)
  subst hd'
  refine ⟨_, rfl, hplace.trans hsz, ?_, ?_, ?_, ?_, rfl, isExecSec_extendedScn hs _, ?_, ?_⟩
  · rw [BitVec.toNat_setWidth]
    omega
  · exact hfinal.trans hstop.symm
  · exact hfinal.trans hstop.symm
  · exact hal
  · intro hb
    unfold extendRawData at hraw
    rw [if_pos (htype ▸ hb)] at hraw
    cases hraw
    rfl
  · intro hb
    obtain ⟨hsrc, heq⟩ := extendRawData_eq (htype ▸ hb) (hl.secSz ▸ hl.small)
      ((hl.stored hb).trans hl.secSz.symm) hle hfinal hraw
    refine ⟨hsrc, heq.trans ?_⟩
    rw [hplace, hl.secSz]

omit hl halign hpow in
/-- An allocation that fails is the only thing that can go wrong with sizes that
fit. -/
theorem extendRawData_exists {alignSz finalSz : BitVec 64}
    (halloc : ∀ (b : Bytes) (n : Nat), 0 < n → alloc.realloc b n ≠ none)
    (hsmall : d.secSz.toNat < 2 ^ 31) (hle : d.secSz.toNat ≤ alignSz.toNat)
    (hfinal : finalSz.toNat = alignSz.toNat + e.shdr.shSize.toNat)
    (hsrc : e.shdr.shSize.toNat ≤ e.data.dBuf.length) :
    ∃ raw, extendRawData alloc swapped d e alignSz finalSz = .ok raw := by
  have hgap : (alignSz - d.secSz.signExtend 64).toNat = alignSz.toNat - d.secSz.toNat := by
    have := alignSz.isLt
    rw [BitVec.toNat_sub, toNat_signExtend_of_small hsmall]
    omega
  unfold extendRawData
  by_cases hbits : e.shdr.shType = SHT_NOBITS
  · rw [if_pos hbits]
    exact ⟨_, rfl⟩
  rw [if_neg hbits]
  generalize htmp : alloc.realloc d.rawData finalSz.toNat = tmp
  -- a block of the new size, or none and nothing to store
  have hblock : finalSz.toNat ≤ (tmp.getD []).length := by
    cases tmp with
    | some b => exact (alloc.size_eq htmp).ge
    | none =>
      rcases Nat.eq_zero_or_pos finalSz.toNat with h | h
      · rw [h]
        exact Nat.zero_le _
      · exact absurd htmp (halloc _ _ h)
  have hnull : ¬ (tmp = none ∧ 0 < alignSz) := by
    rintro ⟨rfl, hpos⟩
    have := BitVec.lt_def.mp hpos
    have hz : (0 : BitVec 64).toNat = 0 := rfl
    rw [Option.getD_none, length_nil] at hblock
    omega
  have hset : ∃ raw, memset (tmp.getD []) d.secSz.toInt 0
      (alignSz - d.secSz.signExtend 64).toNat = .ok raw ∧ raw.length = (tmp.getD []).length := by
    rw [hgap, toInt_of_small hsmall]
    unfold memset
    by_cases hn : alignSz.toNat - d.secSz.toNat = 0
    · rw [if_pos hn]
      exact ⟨_, rfl, rfl⟩
    rw [if_neg hn, if_pos (by omega)]
    refine ⟨_, rfl, patch_length ?_⟩
    rw [length_replicate, Int.toNat_natCast]
    omega
  obtain ⟨raw₁, hset, hlen⟩ := hset
  have hcpy : ∃ raw, memcpy raw₁ alignSz.toNat e.data.dBuf e.shdr.shSize.toNat = .ok raw := by
    unfold memcpy
    by_cases hn : e.shdr.shSize.toNat = 0
    · rw [if_pos hn]
      exact ⟨_, rfl⟩
    · rw [if_neg hn, if_pos ⟨by omega, hsrc⟩]
      exact ⟨_, rfl⟩
  obtain ⟨raw₂, hcpy⟩ := hcpy
  simp only [failIf, if_neg hnull, bind, Except.bind, hset, hcpy]
  by_cases hswap : (swapped && isExecSec d) = true
  · rw [if_pos hswap]
    exact ⟨_, rfl⟩
  · rw [if_neg hswap]
    exact ⟨_, rfl⟩

theorem Sized.extend_exists
    (halloc : ∀ (b : Bytes) (n : Nat), 0 < n → alloc.realloc b n ≠ none) (hs : d.scn = some s)
    (hsrc : e.shdr.shSize.toNat ≤ e.data.dBuf.length)
    (hsmall : (lay.next (Piece.mk e off).block).stop < 2 ^ 31) :
    ∃ d' off', extendScn alloc swapped d e = .ok (d', off') := by
  obtain ⟨-, hsz⟩ := toNat_alignSz hl halign hpow
  have hstop : (lay.next (Piece.mk e off).block).stop
      = (dstAlignSz d.secSz (dstAlign s.shdr e.shdr)).toNat + e.shdr.shSize.toNat := by
    rw [hsz]
    rfl
  have hle : d.secSz.toNat ≤ (dstAlignSz d.secSz (dstAlign s.shdr e.shdr)).toNat := by
    obtain ⟨k, hk⟩ := hl.pow
    rw [hl.secSz, hsz]
    exact Laid.stop_le_off (hk ▸ Nat.two_pow_pos k)
  obtain ⟨raw, hraw⟩ : ∃ raw, extendRawData alloc swapped d e
      (dstAlignSz d.secSz (dstAlign s.shdr e.shdr))
      (dstAlignSz d.secSz (dstAlign s.shdr e.shdr) + e.shdr.shSize) = .ok raw :=
    extendRawData_exists halloc (hl.secSz ▸ hl.small) hle (by rw [BitVec.toNat_add]; omega) hsrc
  simp only [extendScn, hs, deref, bind, Except.bind, hraw]
  exact ⟨_, _, rfl⟩

end

section

variable {swapped : Bool} {ps : List Piece} {lay : Laid} {p : Piece} {d d' : DstSec}
  {s s' : ElfScn}

theorem Grown.rawData_grows (h : Grown swapped lay p d d' s s') : d.rawData <+: d'.rawData := by
  by_cases hb : s.shdr.shType = SHT_NOBITS
  · exact ⟨[], by rw [append_nil, h.nobits hb]⟩
  · rw [(h.grows hb).2, append_assoc]
    exact prefix_append _ _

theorem appendedBytes_length {d : DstSec} {e : ElfScn}
    (h : e.shdr.shSize.toNat ≤ e.data.dBuf.length) :
    (appendedBytes swapped d e).length = e.shdr.shSize.toNat := by
  unfold appendedBytes
  by_cases hswap : (swapped && isExecSec d) = true
  · rw [if_pos hswap, execSecBswap_length, length_take, Nat.min_eq_left h]
  · rw [if_neg hswap, length_take, Nat.min_eq_left h]

/-- The piece reads back. -/
theorem Grown.readBack_self (hl : Layout swapped ps d s) (h : Grown swapped (laid ps) p d d' s s')
    (hb : s.shdr.shType ≠ SHT_NOBITS) : p.readBack swapped d' = p.bytes := by
  obtain ⟨hsrc, hraw⟩ := h.grows hb
  have hle : (laid ps).stop ≤ p.off.toNat := h.off ▸ Laid.stop_le_off (laid_align_pos ps)
  have hslice : slice d'.rawData p.off.toNat p.size = appendedBytes swapped d p.scn := by
    have hlen := hl.stored hb
    rw [slice, hraw, drop_left' (by simp; omega)]
    exact take_of_length_le (appendedBytes_length hsrc).le
  unfold Piece.readBack
  rw [h.exec, hslice]
  unfold appendedBytes
  by_cases hswap : (swapped && isExecSec d) = true
  · rw [if_pos hswap, if_pos hswap]
    exact execSecBswap_twice _ _
  · rw [if_neg hswap, if_neg hswap]
    rfl

/-- The pieces before it read as they did. -/
theorem Grown.readBack_old (hl : Layout swapped ps d s) (h : Grown swapped (laid ps) p d d' s s')
    (hb : s.shdr.shType ≠ SHT_NOBITS) {q : Piece} (hq : q ∈ ps) :
    q.readBack swapped d' = q.readBack swapped d := by
  obtain ⟨r, hr⟩ := h.rawData_grows
  have hend := hl.ends q hq
  have hlen := hl.stored hb
  unfold Piece.readBack
  rw [h.exec, ← hr, slice_append_left r (by omega)]

/-- Between the pieces there are zeros. -/
theorem Grown.padding (hl : Layout swapped ps d s) (h : Grown swapped (laid ps) p d d' s s') {i : Nat}
    (hi : i < d'.rawData.length)
    (hout : ∀ q ∈ ps ++ [p], ¬ (q.off.toNat ≤ i ∧ i < q.off.toNat + q.size)) :
    d'.rawData[i]? = some 0 := by
  have hold : i < d.rawData.length → d.rawData[i]? = some 0 := fun hlt =>
    hl.padding i hlt fun q hq => hout q (mem_append_left _ hq)
  by_cases hb : s.shdr.shType = SHT_NOBITS
  · rw [h.nobits hb, hl.nobits hb] at hi
    cases hi
  obtain ⟨hsrc, hraw⟩ := h.grows hb
  have hlen := hl.stored hb
  have hnew := hout p (mem_append_right _ mem_cons_self)
  have happ : (appendedBytes swapped d p.scn).length = p.size := appendedBytes_length hsrc
  have hle : (laid ps).stop ≤ p.off.toNat := h.off ▸ Laid.stop_le_off (laid_align_pos ps)
  rw [hraw] at hi ⊢
  simp only [length_append, length_replicate] at hi
  by_cases hlt : i < d.rawData.length
  · rw [append_assoc, getElem?_append_left hlt]
    exact hold hlt
  · rw [getElem?_append_left (by simp; omega), getElem?_append_right (by omega),
      getElem?_replicate, if_pos (by omega)]

/-- The next piece is laid behind the others. -/
theorem Grown.finished (hl : Layout swapped ps d s) (h : Grown swapped (laid ps) p d d' s s')
    (hpow : p.block.Pow2) (hsmall : (laid (ps ++ [p])).stop < 2 ^ 31) :
    Finished swapped (ps ++ [p]) d' s' := by
  obtain ⟨k, hk⟩ := hl.pow
  have hnext := laid_concat ps p
  have hend : p.off.toNat + p.size = (laid (ps ++ [p])).stop := by
    rw [hnext, h.off]
    rfl
  have hle : (laid ps).stop ≤ p.off.toNat := h.off ▸ Laid.stop_le_off (laid_align_pos ps)
  have hdvd : max 1 p.align ∣ (laid (ps ++ [p])).align := hnext ▸ Laid.dvd_align hk hpow
  refine ⟨⟨⟨hsmall, hnext ▸ Laid.pow_next hk hpow, hnext ▸ h.secSz, fun hb => ?_⟩, fun hb => ?_,
    ?_, ?_, ?_, ?_, ?_, fun hb => ?_, fun i hi => h.padding hl hi⟩, hnext ▸ h.shSize,
    hnext ▸ h.dSize, hnext ▸ h.shAddralign⟩
  · rw [h.type] at hb
    obtain ⟨hsrc, hraw⟩ := h.grows hb
    have hlen := hl.stored hb
    have happ : (appendedBytes swapped d p.scn).length = p.size := appendedBytes_length hsrc
    rw [hraw]
    simp only [length_append, length_replicate]
    omega
  · rw [h.type] at hb
    rw [h.nobits hb, hl.nobits hb]
  · refine pairwise_append.mpr ⟨hl.inOrder, pairwise_singleton _ _, ?_⟩
    intro q hq r hr
    rw [mem_singleton.mp hr]
    exact Nat.le_trans (hl.ends q hq) hle
  · intro q hq
    rcases mem_append.mp hq with hq | hq
    · exact Nat.le_trans (hl.ends q hq) (laid_stop_le ps [p])
    · rw [mem_singleton.mp hq, hend]
  · intro q hq
    rw [getLast?_concat] at hq
    cases hq
    exact hend
  · intro q hq
    rcases mem_append.mp hq with hq | hq
    · exact hl.aligned q hq
    · rw [mem_singleton.mp hq, h.off]
      exact Nat.dvd_trans hdvd (hnext ▸ Laid.dvd_off _ _)
  · intro q hq
    rcases mem_append.mp hq with hq | hq
    · exact Nat.dvd_trans (hl.outAligned q hq) (hnext ▸ Laid.dvd_next hk hpow)
    · rw [mem_singleton.mp hq]
      exact hdvd
  · rw [h.type] at hb
    intro q hq
    rcases mem_append.mp hq with hq | hq
    · rw [h.readBack_old hl hb hq]
      exact hl.copied hb q hq
    · rw [mem_singleton.mp hq]
      exact h.readBack_self hl hb

end

end Libbpf
