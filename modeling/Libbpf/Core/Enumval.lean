/-
Enumerator values: what BPF_CORE_ENUMVAL_VALUE relocates to.

An enumerator stands for a number, which its enum encodes in one of two
ways: as one word, or as two, read with a sign if the enum has its flag
set. `enumNumber?` is that number. The code reads the one word with a sign
in any case (`btfEnumValue?`), so an unsigned value with the top bit set
comes out as another number, while its ENUM64 form does not.
-/
import Libbpf.Core.Accepted
import Libbpf.Core.Patch

namespace Libbpf

open Lib

/-- A word of `w` bits as a number: with a sign, or without. -/
def wordNumber (signed : Bool) (w v : Nat) : Int :=
  if signed && decide (2 ^ (w - 1) ≤ v) then (v : Int) - 2 ^ w else v

/-- The number enumerator `i` stands for. -/
def enumNumber? (t : BtfType) (i : Nat) : Option Int :=
  if t.kind == .enum then t.rest[2 * i + 1]?.map (wordNumber t.kflag 32)
  else
    match t.rest[3 * i + 1]?, t.rest[3 * i + 2]? with
    | some lo, some hi => some (wordNumber t.kflag 64 (hi * 2 ^ 32 + lo))
    | _, _ => none

/-- Enumerator `i` is not an unsigned word with the top bit set. -/
def EnumPlain (t : BtfType) (i : Nat) : Prop :=
  t.kind = .enum → t.kflag = false → ∀ w, t.rest[2 * i + 1]? = some w → w < 2 ^ 31

theorem wordNumber_emod {signed : Bool} {w v : Nat} (h : v < 2 ^ w) :
    wordNumber signed w v % 2 ^ w = v := by
  have hv : (v : Int) < 2 ^ w := by exact_mod_cast h
  have hmod : (v : Int) % 2 ^ w = v := Int.emod_eq_of_lt (by omega) hv
  unfold wordNumber
  split
  · rw [Int.sub_emod_right, hmod]
  · exact hmod

/-- What the code reads of an enumerator, against the number. -/
theorem enumValue_number {t : BtfType} {i v : Nat} {x : Int} (hfits : t.Fits)
    (hv : btfEnumValue? t i = some v) (hx : enumNumber? t i = some x) :
    v < 2 ^ 64 ∧ ((v : Int) = x % 2 ^ 64 ↔ EnumPlain t i) := by
  have hword : ∀ {k w : Nat}, t.rest[k]? = some w → w < 2 ^ 32 := fun hk =>
    hfits _ (by simp [BtfType.words, List.mem_of_getElem? hk])
  unfold btfEnumValue? at hv
  unfold enumNumber? at hx
  unfold EnumPlain
  by_cases hk : t.kind = .enum
  · -- one word, read with a sign
    rw [if_pos (by rw [hk]; rfl)] at hv hx
    obtain ⟨w, hw, rfl⟩ := Option.map_eq_some_iff.mp hv
    rw [hw, Option.map_some, Option.some.injEq] at hx
    have hlt := hword hw
    subst hx
    have hplain : (t.kind = .enum → t.kflag = false →
        ∀ w', t.rest[2 * i + 1]? = some w' → w' < 2 ^ 31) ↔ (t.kflag = false → w < 2 ^ 31) := by
      constructor
      · intro h hflag
        exact h hk hflag w hw
      · intro h _ hflag w' hw'
        cases hw.symm.trans hw'
        exact h hflag
    rw [hplain]
    unfold wordNumber
    cases t.kflag with
    | true =>
      refine ⟨by split <;> omega, iff_of_true ?_ fun h => by cases h⟩
      by_cases htop : w < 2 ^ 31
      · rw [if_pos htop, if_neg (by simp; omega)]
        omega
      · rw [if_neg htop, if_pos (by simp; omega)]
        omega
    | false =>
      refine ⟨by split <;> omega, ?_⟩
      by_cases htop : w < 2 ^ 31
      · rw [if_pos htop, if_neg (by simp)]
        exact iff_of_true (by omega) fun _ => htop
      · rw [if_neg htop, if_neg (by simp)]
        exact iff_of_false (by omega) fun h => htop (h rfl)
  · -- two words
    rw [if_neg (by simpa using hk)] at hv hx
    split at hv
    case h_2 => cases hv
    case h_1 lo hi hlo hhi =>
      cases hv
      rw [hlo, hhi] at hx
      cases hx
      have h1 := hword hlo
      have h2 := hword hhi
      have hlt : hi * 2 ^ 32 + lo < 2 ^ 64 := by omega
      exact ⟨hlt, iff_of_true (wordNumber_emod hlt).symm fun h => absurd h hk⟩

/-- Both read the same words. -/
theorem enumValue_isSome {t : BtfType} {i : Nat} {x : Int} (hx : enumNumber? t i = some x) :
    ∃ v, btfEnumValue? t i = some v := by
  unfold enumNumber? at hx
  unfold btfEnumValue?
  split at hx
  · next hk =>
      obtain ⟨w, hw, -⟩ := Option.map_eq_some_iff.mp hx
      rw [if_pos hk, hw]
      exact ⟨_, rfl⟩
  next hk =>
    rw [if_neg hk]
    cases hlo : t.rest[3 * i + 1]? with
    | none =>
      rw [hlo] at hx
      cases hx
    | some lo =>
      cases hhi : t.rest[3 * i + 2]? with
      | none =>
        rw [hlo, hhi] at hx
        cases hx
      | some hi => exact ⟨_, rfl⟩

/-- The enumerator a spec is for, and its number. -/
structure CoreSpec.Enumerator (btf : Btf) (spec : CoreSpec) (t : BtfType) (i : Nat)
    (x : Int) : Prop where
  type : ∃ acc, spec.spec.head? = some acc ∧ acc.idx = i ∧ btfTypeById btf acc.typeId = some t
  isEnum : t.isAnyEnum = true
  number : enumNumber? t i = some x

theorem CoreSpec.Enumerator.relo {btf : Btf} {spec : CoreSpec} {t : BtfType} {i : Nat}
    {x : Int} (hwf : btf.Wf) (h : spec.Enumerator btf t i x) :
    ∃ v, bpfCoreCalcEnumvalRelo btf .enumvalValue (some spec) = .ok v
      ∧ v < 2 ^ 64 ∧ ((v : Int) = x % 2 ^ 64 ↔ EnumPlain t i) := by
  obtain ⟨acc, hacc, rfl, ht⟩ := h.type
  obtain ⟨v, hv⟩ := enumValue_isSome h.number
  refine ⟨v, ?_, enumValue_number (hwf.typeById_fits ht) hv h.number⟩
  unfold bpfCoreCalcEnumvalRelo
  dsimp only
  rw [hacc]
  dsimp only [deref, bind, Except.bind]
  rw [ht]
  dsimp only
  rw [hv]

section

variable {host : ByteOrder} {lb tb : Btf} {localSpec targSpec : CoreSpec} {n : Nat}
  {res : CoreReloRes} {t t' : BtfType} {i i' : Nat} {x x' : Int}

/-- The two values of the relocation. -/
theorem calcRelo_enumval (hlb : lb.Wf) (htb : tb.Wf) (hl : localSpec.Enumerator lb t i x)
    (ht : targSpec.Enumerator tb t' i' x')
    (h : bpfCoreCalcRelo host .enumvalValue lb localSpec (some (tb, targSpec)) n = .ok res) :
    res.poison = false ∧ res.validate = true
      ∧ (res.origVal < 2 ^ 64 ∧ ((res.origVal : Int) = x % 2 ^ 64 ↔ EnumPlain t i))
      ∧ (res.newVal < 2 ^ 64 ∧ ((res.newVal : Int) = x' % 2 ^ 64 ↔ EnumPlain t' i')) := by
  obtain ⟨v, hv, hnum⟩ := hl.relo hlb
  obtain ⟨v', hv', hnum'⟩ := ht.relo htb
  unfold bpfCoreCalcRelo at h
  dsimp only [Option.map_some, Option.getD_some] at h
  rw [if_neg (by decide), if_neg (by decide), if_pos (by decide), hv] at h
  dsimp only [bind, Except.bind] at h
  rw [hv'] at h
  cases h
  exact ⟨rfl, rfl, hnum, hnum'⟩

end

/-- The class of an LDIMM64. -/
theorem patchInsn_ldimm64 {res : CoreReloRes} {insn : InsnPair}
    (h : isPlainLdimm64 insn = true) : bpfCorePatchInsn res insn = bpfCorePatchLd res insn := by
  have hcode : insn.1.code = 0x18 := by
    unfold isPlainLdimm64 at h
    simp only [Bool.and_eq_true] at h
    exact beq_iff_eq.mp h.1.1.1.1.1.1
  unfold bpfCorePatchInsn BpfInsn.isAlu BpfInsn.isMem
  rw [hcode, if_neg (by decide), if_neg (by decide), if_pos (by decide)]

/-- An LDIMM64 is patched if it holds the value it should. -/
theorem patchLd_ok_iff {res : CoreReloRes} {insn : InsnPair} (h : isPlainLdimm64 insn = true)
    (hpoison : res.poison = false) (hval : res.validate = true) :
    (∃ out, bpfCorePatchInsn res insn = .ok () out) ↔ imm64 insn = res.orig64 := by
  rw [patchInsn_ldimm64 h]
  unfold bpfCorePatchLd
  rw [if_neg (by simp [h]), if_neg (by simp [hpoison])]
  by_cases himm : imm64 insn = res.orig64
  · rw [if_neg fun hbad => hbad.2 himm]
    exact iff_of_true ⟨_, rfl⟩ himm
  rw [if_pos ⟨hval, himm⟩]
  refine iff_of_false ?_ himm
  rintro ⟨out, ho⟩
  cases ho

/-- The relocation of an enumerator: the new value is the enumerator's
number modulo 2 ^ 64; an LDIMM64 with the number of the local enumerator
passes validation; and an ENUM and an ENUM64 with the same number give the
same value. Each of them exactly if the enumerator is not an unsigned word
with its top bit set. -/
theorem enumval_relo_number {host : ByteOrder} {lb tb : Btf} {localSpec targSpec : CoreSpec}
    {n : Nat} {res : CoreReloRes} {t t' : BtfType} {i i' : Nat} {x x' : Int}
    (hlb : lb.Wf) (htb : tb.Wf) (hl : localSpec.Enumerator lb t i x)
    (ht : targSpec.Enumerator tb t' i' x')
    (h : bpfCoreCalcRelo host .enumvalValue lb localSpec (some (tb, targSpec)) n = .ok res) :
    ((res.newVal : Int) = x' % 2 ^ 64 ↔ EnumPlain t' i')
      ∧ (∀ insn : InsnPair, isPlainLdimm64 insn = true → ((imm64 insn).toNat : Int) = x % 2 ^ 64 →
          ((∃ out, bpfCorePatchInsn res insn = .ok () out) ↔ EnumPlain t i))
      ∧ ∀ (tb₂ : Btf) (spec₂ : CoreSpec) (t₂ : BtfType) (i₂ : Nat) (res₂ : CoreReloRes),
          tb₂.Wf → spec₂.Enumerator tb₂ t₂ i₂ x' → t'.kind = .enum → t₂.kind = .enum64 →
          bpfCoreCalcRelo host .enumvalValue lb localSpec (some (tb₂, spec₂)) n = .ok res₂ →
          (res₂.newVal = res.newVal ↔ EnumPlain t' i') := by
  obtain ⟨hpoison, hval, ⟨hlt, horig⟩, -, hnew⟩ := calcRelo_enumval hlb htb hl ht h
  refine ⟨hnew, fun insn hform himm => ?_, ?_⟩
  · rw [patchLd_ok_iff hform hpoison hval, ← horig, ← himm]
    constructor
    · intro heq
      rw [heq, CoreReloRes.orig64, BitVec.toNat_ofNat, Nat.mod_eq_of_lt hlt]
    · intro heq
      apply BitVec.eq_of_toNat_eq
      rw [CoreReloRes.orig64, BitVec.toNat_ofNat, Nat.mod_eq_of_lt hlt]
      exact (Int.ofNat_inj.mp heq).symm
  · intro tb₂ spec₂ t₂ i₂ res₂ htb₂ ht₂ _ hk₂ h₂
    obtain ⟨-, -, -, -, hnew₂⟩ := calcRelo_enumval hlb htb₂ hl ht₂ h₂
    have hplain₂ : EnumPlain t₂ i₂ := fun hk => by cases hk₂.symm.trans hk
    rw [← hnew, ← hnew₂.mpr hplain₂]
    exact ⟨fun heq => by rw [heq], fun heq => (Int.ofNat_inj.mp heq).symm⟩

/-- An unsigned enum `e` with the enumerators 5 and 2 ^ 31, as ENUM and as
ENUM64. -/
private def topBit : Bytes :=
  btfImage .little
    [⟨1, btfTypeInfo .enum 2 false, 4, [3, 5, 5, 2 ^ 31]⟩,
      ⟨1, btfTypeInfo .enum64 2 false, 8, [3, 5, 0, 5, 2 ^ 31, 0]⟩]
    -- "", "e", "a", "b" and the access strings "0" and "1"
    [0, 101, 0, 97, 0, 98, 0, 48, 0, 49, 0]

private def topBitSpec (id i : Nat) (name : UInt8) (h : (0 : UInt8) ∉ [name]) : CoreSpec :=
  ⟨[⟨id, i, some ⟨[name], h⟩⟩], id, .enumvalValue, [i], 0⟩

/-- The small one relocates to itself. -/
theorem enumval_relo_number_small : ∃ btf res, btfNew .little 0 topBit none = .ok btf
      ∧ bpfCoreParseSpec btf ⟨1, 7, .enumvalValue⟩ 100 = .ok (topBitSpec 1 0 97 (by decide))
      ∧ bpfCoreCalcRelo .little .enumvalValue btf (topBitSpec 1 0 97 (by decide))
        (some (btf, topBitSpec 1 0 97 (by decide))) 100 = .ok res
      ∧ (res.newVal : Int) = 5 % 2 ^ 64 := by
  obtain ⟨btf, hbtf, ht, hparse, hres⟩ := exists_ok_of_any
    (r := btfNew .little 0 topBit none) (P := fun btf =>
      btfTypeById btf 1 = some ⟨1, btfTypeInfo .enum 2 false, 4, [3, 5, 5, 2 ^ 31]⟩
      ∧ bpfCoreParseSpec btf ⟨1, 7, .enumvalValue⟩ 100 = .ok (topBitSpec 1 0 97 (by decide))
      ∧ bpfCoreCalcRelo .little .enumvalValue btf (topBitSpec 1 0 97 (by decide))
        (some (btf, topBitSpec 1 0 97 (by decide))) 100
        = .ok ⟨5, 5, false, true, false, 0, 0, 0, 0⟩) (by decide +kernel)
  have hwf : btf.Wf := btfNew_wf (fun b hb => by cases hb) hbtf
  have henum : (topBitSpec 1 0 97 (by decide)).Enumerator btf
      ⟨1, btfTypeInfo .enum 2 false, 4, [3, 5, 5, 2 ^ 31]⟩ 0 5 :=
    ⟨⟨_, rfl, rfl, ht⟩, by decide, by decide⟩
  refine ⟨btf, _, hbtf, hparse, hres, ?_⟩
  refine (enumval_relo_number hwf hwf henum henum hres).1.mpr ?_
  intro _ _ w hw
  cases hw
  decide

/-- The large one relocates to 2 ^ 64 - 2 ^ 31 from its ENUM and to 2 ^ 31
from its ENUM64, and the LDIMM64 of a compiler that knows its number is
refused. -/
theorem enumval_relo_top_bit : ∃ btf t t₂ res res₂, btfNew .little 0 topBit none = .ok btf
      ∧ bpfCoreParseSpec btf ⟨1, 9, .enumvalValue⟩ 100 = .ok (topBitSpec 1 1 98 (by decide))
      ∧ (topBitSpec 1 1 98 (by decide)).Enumerator btf t 1 (2 ^ 31)
      ∧ (topBitSpec 2 1 98 (by decide)).Enumerator btf t₂ 1 (2 ^ 31)
      ∧ bpfCoreCalcRelo .little .enumvalValue btf (topBitSpec 1 1 98 (by decide))
        (some (btf, topBitSpec 1 1 98 (by decide))) 100 = .ok res
      ∧ bpfCoreCalcRelo .little .enumvalValue btf (topBitSpec 1 1 98 (by decide))
        (some (btf, topBitSpec 2 1 98 (by decide))) 100 = .ok res₂
      ∧ res.newVal = 2 ^ 64 - 2 ^ 31 ∧ res₂.newVal = 2 ^ 31
      ∧ bpfCorePatchInsn res (⟨0x18, 1, 0, 0, 0x80000000⟩, ⟨0, 0, 0, 0, 0⟩)
        = .error (.err (-EINVAL)) (⟨0x18, 1, 0, 0, 0x80000000⟩, ⟨0, 0, 0, 0, 0⟩) := by
  obtain ⟨btf, hbtf, ht, ht₂, hparse, hres, hres₂⟩ := exists_ok_of_any
    (r := btfNew .little 0 topBit none) (P := fun btf =>
      btfTypeById btf 1 = some ⟨1, btfTypeInfo .enum 2 false, 4, [3, 5, 5, 2 ^ 31]⟩
      ∧ btfTypeById btf 2 = some ⟨1, btfTypeInfo .enum64 2 false, 8, [3, 5, 0, 5, 2 ^ 31, 0]⟩
      ∧ bpfCoreParseSpec btf ⟨1, 9, .enumvalValue⟩ 100 = .ok (topBitSpec 1 1 98 (by decide))
      ∧ bpfCoreCalcRelo .little .enumvalValue btf (topBitSpec 1 1 98 (by decide))
        (some (btf, topBitSpec 1 1 98 (by decide))) 100
        = .ok ⟨2 ^ 64 - 2 ^ 31, 2 ^ 64 - 2 ^ 31, false, true, false, 0, 0, 0, 0⟩
      ∧ bpfCoreCalcRelo .little .enumvalValue btf (topBitSpec 1 1 98 (by decide))
        (some (btf, topBitSpec 2 1 98 (by decide))) 100
        = .ok ⟨2 ^ 64 - 2 ^ 31, 2 ^ 31, false, true, false, 0, 0, 0, 0⟩) (by decide +kernel)
  exact ⟨btf, _, _, _, _, hbtf, hparse, ⟨⟨_, rfl, rfl, ht⟩, by decide, by decide⟩,
    ⟨⟨_, rfl, rfl, ht₂⟩, by decide, by decide⟩, hres, hres₂, rfl, rfl, rfl⟩

end Libbpf
