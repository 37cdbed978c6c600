/-
How `btf_new` fails.

A failure is an error pointer, and a caller tells it from an object by
`IS_ERR`: the code has to lie between -4095 and -1. Every code that the
parser makes itself does. The size of a type is an `int` as well, and a
negative one is handed on as the code; a size described by a layout can be
2 GiB and more, and then the pointer is neither an object nor an error.
`btfNew_reports_iff` says that this is the only way.
-/
import Libbpf.Btf.FindSpec
import Libbpf.Lib.Report

namespace Libbpf

open Lib List

variable {t : BtfType} {addr : Nat} {data : Bytes} {base : Option Btf}

-- ======== error pointers

def MAX_ERRNO : Int := 4095

/-- `ERR_PTR` of an `int`. -/
def errPtr (error : Int) : BitVec 64 := BitVec.ofInt 64 error

/-- `IS_ERR`. -/
def isErr (ptr : BitVec 64) : Bool := BitVec.ofInt 64 (-MAX_ERRNO) ≤ ptr

/-- `IS_ERR` recognises the codes of an `errno`. -/
theorem isErr_errPtr {error : Int} (hlo : -2 ^ 31 ≤ error) (hhi : error < 2 ^ 31) :
    isErr (errPtr error) = true ↔ -MAX_ERRNO ≤ error ∧ error ≤ -1 := by
  unfold isErr errPtr MAX_ERRNO
  rw [decide_eq_true_iff, BitVec.le_def, BitVec.toNat_ofInt, BitVec.toNat_ofInt]
  omega

/-- A code that `IS_ERR` recognises. -/
def Recognized (code : Int) : Prop := isErr (errPtr code) = true

instance (code : Int) : Decidable (Recognized code) :=
  inferInstanceAs (Decidable (_ = true))

theorem recognized_einval : Recognized (-EINVAL) := by decide

theorem recognized_enomem : Recognized (-ENOMEM) := by decide

theorem recognized_enotsup : Recognized (-ENOTSUP) := by decide

-- ======== sizes

/-- The layout describes the type, with a size of 2 GiB or more. -/
def Btf.Overlong (btf : Btf) (t : BtfType) : Prop :=
  btfKnownSize t.kind t.vlen = none ∧ ∃ l lCnt, btfLayoutFor btf = some (l, lCnt)
    ∧ t.kind.toNat < lCnt
    ∧ (l.getD t.kind.toNat ⟨0, 0, 0⟩).infoSz % 4 = 0
    ∧ (l.getD t.kind.toNat ⟨0, 0, 0⟩).elemSz % 4 = 0
    ∧ 2 ^ 31 ≤ 12 + (l.getD t.kind.toNat ⟨0, 0, 0⟩).infoSz
      + t.vlen * (l.getD t.kind.toNat ⟨0, 0, 0⟩).elemSz

/-- The entries of the layout that sizes are looked up in. -/
def Btf.LayoutFits (btf : Btf) : Prop :=
  ∀ l lCnt, btfLayoutFor btf = some (l, lCnt) → ∀ e ∈ l, e.Fits

/-- A code made of a size of 2 GiB or more is no error. -/
theorem overlong_code {infoSz elemSz vlen : Nat} (hi : infoSz < 2 ^ 8) (he : elemSz < 2 ^ 8)
    (hi4 : infoSz % 4 = 0) (he4 : elemSz % 4 = 0) (hv : vlen < 2 ^ 24)
    (hbig : 2 ^ 31 ≤ 12 + infoSz + vlen * elemSz) :
    ¬ Recognized ((12 + infoSz + vlen * elemSz : Nat) - 2 ^ 32 : Int) := by
  have hmul : vlen * elemSz ≤ (2 ^ 24 - 1) * 252 := Nat.mul_le_mul (by omega) (by omega)
  unfold Recognized
  rw [isErr_errPtr (by omega) (by omega), MAX_ERRNO]
  omega

/-- A size is reported unless the type is too long. -/
theorem btfTypeSize_reports_iff {btf : Btf} (hl : btf.LayoutFits) (t : BtfType) :
    Reports Recognized (btfTypeSize btf t) (fun _ => True) ↔ ¬ btf.Overlong t := by
  unfold btfTypeSize Btf.Overlong
  cases hk : btfKnownSize t.kind t.vlen with
  | some sz => exact ⟨fun _ h => (by cases h.1), fun _ => trivial⟩
  | none =>
    unfold btfTypeSizeUnknown
    cases hf : btfLayoutFor btf with
    | none =>
      refine ⟨fun _ h => ?_, fun _ => recognized_einval⟩
      obtain ⟨-, l, lCnt, hsome, -⟩ := h
      cases hsome
    | some p =>
      obtain ⟨l, lCnt⟩ := p
      dsimp only
      have hfits : (l.getD t.kind.toNat ⟨0, 0, 0⟩).Fits := by
        rw [getD_eq_getElem?_getD]
        cases he : l[t.kind.toNat]? with
        | none => exact ⟨by decide, by decide, by decide⟩
        | some e => exact hl l lCnt hf e (mem_of_getElem? he)
      generalize hget : l.getD t.kind.toNat ⟨0, 0, 0⟩ = e at hfits ⊢
      have hiff : (∃ l' lCnt', some (l, lCnt) = some (l', lCnt') ∧ t.kind.toNat < lCnt'
          ∧ (l'.getD t.kind.toNat ⟨0, 0, 0⟩).infoSz % 4 = 0
          ∧ (l'.getD t.kind.toNat ⟨0, 0, 0⟩).elemSz % 4 = 0
          ∧ 2 ^ 31 ≤ 12 + (l'.getD t.kind.toNat ⟨0, 0, 0⟩).infoSz
            + t.vlen * (l'.getD t.kind.toNat ⟨0, 0, 0⟩).elemSz)
          ↔ t.kind.toNat < lCnt ∧ e.infoSz % 4 = 0 ∧ e.elemSz % 4 = 0
            ∧ 2 ^ 31 ≤ 12 + e.infoSz + t.vlen * e.elemSz := by
        constructor
        · rintro ⟨l', lCnt', heq, h⟩
          cases heq
          rwa [hget] at h
        · intro h
          exact ⟨l, lCnt, rfl, by rwa [hget]⟩
      rw [hiff]
      by_cases hcnt : t.kind.toNat ≥ lCnt
      · rw [if_pos hcnt]
        exact ⟨fun _ h => absurd h.2.1 (Nat.not_lt_of_le hcnt), fun _ => recognized_einval⟩
      rw [if_neg hcnt]
      by_cases hi : e.infoSz % 4 ≠ 0
      · rw [if_pos hi]
        exact ⟨fun _ h => hi h.2.2.1, fun _ => recognized_einval⟩
      rw [if_neg hi]
      by_cases he : e.elemSz % 4 ≠ 0
      · rw [if_pos he]
        exact ⟨fun _ h => he h.2.2.2.1, fun _ => recognized_einval⟩
      rw [if_neg he]
      by_cases hsz : 12 + e.infoSz + t.vlen * e.elemSz < 2 ^ 31
      · rw [if_pos hsz]
        exact ⟨fun _ h => absurd h.2.2.2.2 (Nat.not_le_of_lt hsz), fun _ => trivial⟩
      rw [if_neg hsz]
      have hbig := Nat.le_of_not_lt hsz
      have hcode := overlong_code hfits.1 hfits.2.1 (not_not.mp hi) (not_not.mp he)
        (Nat.mod_lt _ (by decide)) hbig
      exact ⟨fun h => absurd h hcode,
        fun h => absurd ⟨rfl, Nat.lt_of_not_le hcnt, not_not.mp hi, not_not.mp he, hbig⟩ h⟩

-- ======== the records

/-- The fixed part of the record at the start of `data`. -/
def btfTypeHead (host : ByteOrder) (btf : Btf) (data : Bytes) : BtfType :=
  let t : BtfType := ⟨rdU32 host data, rdU32 host (data.drop 4), rdU32 host (data.drop 8), []⟩
  if btf.swappedEndian then btfBswapTypeBase t else t

/-- After `nr` records, `data` goes on with records the parser accepts and
then with the fixed part of one that is too long. -/
def Btf.OverlongIn (host : ByteOrder) (btf : Btf) (nr : Nat) (data : Bytes) : Prop :=
  ∃ types rest, data = typesBytes (btf.dataOrder host) types ++ rest
    ∧ (∀ t ∈ types, btf.Parses t) ∧ nr + types.length ≤ BTF_MAX_NR_TYPES
    ∧ 12 ≤ rest.length ∧ btf.Overlong (btfTypeHead host btf rest)

section

variable (host : ByteOrder) {btf : Btf}

/-- A record is reported unless it is too long. -/
theorem btfParseType_reports_iff (hl : btf.LayoutFits) (data : Bytes) :
    Reports Recognized (btfParseType host btf data) (fun _ => True)
      ↔ ¬ btf.Overlong (btfTypeHead host btf data) := by
  rw [← btfTypeSize_reports_iff hl]
  constructor
  · intro h
    exact Reports.first (r := btfTypeSize btf (btfTypeHead host btf data)) h
  · intro h
    refine h.bind fun sz _ _ => (reports_failIf recognized_einval).bind fun _ _ _ => ?_
    dsimp only
    by_cases hs : btf.swappedEndian = true
    · rw [if_pos hs]
      refine Reports.bind (P := fun _ => True) ?_ fun _ _ _ => trivial
      unfold btfBswapTypeRest
      split
      · trivial
      · exact recognized_einval
    · rw [if_neg hs]
      trivial

theorem btfParseType_image (hp : btf.Parses t) (rest : Bytes) :
    btfParseType host btf (t.bytes (btf.dataOrder host) ++ rest) = .ok (t, t.byteSz) := by
  refine btfParseType_iff.mpr ⟨hp, rfl, ?_, ?_⟩
  · rw [length_append, BtfType.bytes_length]
    exact Nat.le_add_right _ _
  · exact take_left' (BtfType.bytes_length _ _)

/-- A record that is too long is not the first one, so it is behind it. -/
theorem overlongIn_image {rest : Bytes} (nr : Nat) (hp : btf.Parses t)
    (hfirst : ¬ btf.Overlong (btfTypeHead host btf (t.bytes (btf.dataOrder host) ++ rest))) :
    btf.OverlongIn host nr (t.bytes (btf.dataOrder host) ++ rest)
      ↔ nr + 1 ≤ BTF_MAX_NR_TYPES ∧ btf.OverlongIn host (nr + 1) rest := by
  constructor
  · rintro ⟨types, rest', hd, hall, hcnt, hlen, hover⟩
    cases types with
    | nil =>
      rw [hd] at hfirst
      exact absurd hover hfirst
    | cons u types =>
      have hu := hall u mem_cons_self
      have hd' : t.bytes (btf.dataOrder host) ++ rest = u.bytes (btf.dataOrder host)
          ++ (typesBytes (btf.dataOrder host) types ++ rest') := by
        rw [hd, typesBytes, flatMap_cons, append_assoc]
        rfl
      have hsame := btfParseType_image host hp rest
      rw [hd', btfParseType_image host hu] at hsame
      cases hsame
      rw [length_cons] at hcnt
      exact ⟨by omega, types, rest', append_cancel_left hd',
        fun v hv => hall v (mem_cons_of_mem _ hv), by omega, hlen, hover⟩
  · rintro ⟨-, types, rest', hd, hall, hcnt, hlen, hover⟩
    refine ⟨t :: types, rest', ?_, fun v hv => ?_, ?_, hlen, hover⟩
    · rw [hd, ← append_assoc]
      rfl
    · rcases mem_cons.mp hv with rfl | hv
      · exact hp
      · exact hall v hv
    · rw [length_cons]
      omega

/-- The type section is reported unless a record of it is too long. -/
theorem btfParseTypes_reports_iff (hl : btf.LayoutFits) :
    ∀ {fuel : Nat} {data : Bytes} (off : Nat) {nr : Nat}, data.length < fuel →
      nr ≤ BTF_MAX_NR_TYPES →
      (Reports Recognized (btfParseTypes host btf fuel data off nr) (fun _ => True)
        ↔ ¬ btf.OverlongIn host nr data)
  | fuel + 1, data, off, nr, hfuel, hnr => by
    rw [btfParseTypes]
    by_cases h12 : data.length < 12
    · rw [if_pos h12]
      constructor
      · rintro - ⟨types, rest, hd, -, -, hrest, -⟩
        rw [hd, length_append] at h12
        omega
      · intro _
        split
        · trivial
        · exact recognized_einval
    rw [if_neg h12]
    by_cases hover : btf.Overlong (btfTypeHead host btf data)
    · -- the first record is the one
      refine ⟨fun h => absurd hover ((btfParseType_reports_iff host hl data).mp h.first), fun h => ?_⟩
      exact absurd ⟨[], data, rfl, fun t ht => (by cases ht), hnr, Nat.le_of_not_lt h12, hover⟩ h
    have hfirst := (btfParseType_reports_iff host hl data).mpr hover
    cases hp : btfParseType host btf data with
    | error e =>
      rw [hp] at hfirst
      refine ⟨fun _ hin => ?_, fun _ => hfirst.bind fun _ _ _ => (by contradiction)⟩
      obtain ⟨types, rest, hd, hall, -, -, hhead⟩ := hin
      cases types with
      | nil =>
        rw [hd] at hover
        exact hover hhead
      | cons t types =>
        rw [hd, typesBytes, flatMap_cons, append_assoc,
          btfParseType_image host (hall t mem_cons_self)] at hp
        cases hp
    | ok p =>
      obtain ⟨t, sz⟩ := p
      obtain ⟨hparses, rfl, hlen, htake⟩ := btfParseType_iff.mp hp
      have hd : data = t.bytes (btf.dataOrder host) ++ data.drop t.byteSz := by
        rw [← htake, take_append_drop]
      have hrest : (data.drop t.byteSz).length < fuel := by
        have := t.byteSz_pos
        rw [length_drop]
        omega
      have hiff : btf.OverlongIn host nr data ↔ nr + 1 ≤ BTF_MAX_NR_TYPES
          ∧ btf.OverlongIn host (nr + 1) (data.drop t.byteSz) := by
        rw [hd] at hover
        have := overlongIn_image host nr hparses hover
        rwa [← hd] at this
      rw [hiff]
      by_cases hmax : nr + 1 > BTF_MAX_NR_TYPES
      · refine ⟨fun _ h => absurd h.1 (Nat.not_le_of_lt hmax), fun _ => ?_⟩
        show Reports Recognized (failIf (nr + 1 > BTF_MAX_NR_TYPES) ENOMEM >>= _) _
        rw [failIf, if_pos hmax]
        exact recognized_enomem
      have hnr' : nr + 1 ≤ BTF_MAX_NR_TYPES := Nat.le_of_not_lt hmax
      have ih := btfParseTypes_reports_iff hl (off + t.byteSz) hrest hnr'
      rw [not_and, imp_iff_right hnr', ← ih]
      change Reports Recognized (failIf (nr + 1 > BTF_MAX_NR_TYPES) ENOMEM >>= _) _ ↔ _
      rw [failIf, if_neg hmax]
      change Reports Recognized (btfParseTypes host btf fuel (data.drop t.byteSz)
        (off + t.byteSz) (nr + 1) >>= _) _ ↔ _
      exact ⟨fun h => Reports.first h, fun h => Reports.bind h fun _ _ _ => trivial⟩

end

-- ======== the sections

/-- `btf_new` up to the type section. -/
def btfBeforeTypes (host : ByteOrder) (addr : Nat) (data : Bytes) (base : Option Btf) :
    Res Btf := do
  let btf ← btfParseHdr host (btfAlloc addr data base)
  let btf : Btf := { btf with
    strs := .raw (btf.sectionBytes btf.hdr.strOff btf.hdr.strLen) }
  btfParseStrSec btf
  btfParseLayoutSec host btf

theorem btfDecode_eq (host : ByteOrder) (addr : Nat) (data : Bytes) (base : Option Btf) :
    btfDecode host addr data base = btfBeforeTypes host addr data base >>= btfParseTypeSec host := by
  unfold btfDecode btfBeforeTypes
  simp only [bind_assoc]

theorem btfHdrLen_reports (host : ByteOrder) (raw : Bytes) :
    Reports Recognized (btfHdrLen host raw) fun _ => True := by
  unfold btfHdrLen
  dsimp only
  split
  · split
    · exact recognized_enotsup
    · trivial
  · split
    · exact recognized_einval
    · trivial

theorem btfCheckSecs_reports (hdr : BtfHeader) (metaLeft : Nat) :
    Reports Recognized (btfCheckSecs hdr metaLeft) fun _ => True := by
  refine (reports_failIf recognized_einval).bind fun _ _ _ => ?_
  refine (reports_failIf recognized_einval).bind fun _ _ _ => ?_
  refine (reports_failIf recognized_einval).bind fun _ _ _ => ?_
  split
  · trivial
  refine (reports_failIf recognized_einval).bind fun _ _ _ => ?_
  refine (reports_failIf recognized_einval).bind fun _ _ _ => ?_
  exact (reports_failIf recognized_einval).mono fun _ _ _ => trivial

/-- The header and the two sections before the types are reported. -/
theorem btfBeforeTypes_reports (host : ByteOrder) (addr : Nat) (data : Bytes) (base : Option Btf) :
    Reports Recognized (btfBeforeTypes host addr data base) fun _ => True := by
  have hhdr : Reports Recognized (btfParseHdr host (btfAlloc addr data base)) fun _ => True := by
    refine (reports_failIf recognized_einval).bind fun _ _ _ => ?_
    refine (btfHdrLen_reports _ _).bind fun p _ _ => ?_
    refine (reports_failIf recognized_einval).bind fun _ _ _ => ?_
    exact (btfCheckSecs_reports _ _).bind fun _ _ _ => trivial
  have hstrs : ∀ btf, Reports Recognized (btfParseStrSec btf) fun _ => True := by
    intro btf
    unfold btfParseStrSec
    split
    · trivial
    refine (reports_failIf recognized_einval).bind fun _ _ _ => ?_
    exact (reports_failIf recognized_einval).mono fun _ _ _ => trivial
  refine hhdr.bind fun btf _ _ => (hstrs _).bind fun _ _ _ => ?_
  unfold btfParseLayoutSec
  split
  · trivial
  split
  · exact recognized_einval
  · trivial

theorem rdLayout_fits (o : ByteOrder) : ∀ (n : Nat) (b : Bytes), ∀ e ∈ rdLayout o n b, e.Fits
  | 0, _, e, he => by cases he
  | n + 1, b, e, he => by
    rcases mem_cons.mp he with rfl | he
    · exact ⟨byteAt_lt b 0, byteAt_lt b 1, rdU16_lt o _⟩
    · exact rdLayout_fits o n _ e he

theorem btfParseHdr_kept {host : ByteOrder} {btf btf' : Btf} (h : btfParseHdr host btf = .ok btf') :
    btf'.layout = btf.layout ∧ btf'.baseBtf = btf.baseBtf := by
  obtain ⟨_, -, h⟩ := of_bind_ok h
  obtain ⟨⟨swapped, hdrLen⟩, -, h⟩ := of_bind_ok h
  obtain ⟨_, -, h⟩ := of_bind_ok h
  obtain ⟨_, -, h⟩ := of_bind_ok h
  cases h
  exact ⟨rfl, rfl⟩

/-- The layout that was parsed, or the base's. -/
theorem btfBeforeTypes_layoutFits {host : ByteOrder} {btf : Btf} (hbase : ∀ b, base = some b → b.Wf)
    (h : btfBeforeTypes host addr data base = .ok btf) : btf.LayoutFits := by
  obtain ⟨parsed, hhdr, h⟩ := of_bind_ok h
  obtain ⟨_, -, h⟩ := of_bind_ok h
  obtain ⟨hnone, hpb⟩ := btfParseHdr_kept hhdr
  intro l lCnt hfor e he
  unfold btfParseLayoutSec at h
  split at h
  · -- no layout of its own
    cases h
    rw [hnone, hpb] at hfor
    cases base with
    | none => cases hfor
    | some b =>
      obtain ⟨l', hl', heq⟩ := Option.map_eq_some_iff.mp hfor
      cases heq
      have hw := (hbase b rfl).own.layout
      unfold Btf.LayoutWf at hw
      rw [hl'] at hw
      exact hw.2.2 e he
  split at h
  · cases h
  cases h
  cases hfor
  split at he
  · rw [map_bswap_rdLayout] at he
    exact rdLayout_fits _ _ _ e he
  · exact rdLayout_fits _ _ _ e he

/-- The input leads the parser to a type of 2 GiB or more. -/
def OverlongInput (host : ByteOrder) (addr : Nat) (data : Bytes) (base : Option Btf) : Prop :=
  ∃ btf, btfBeforeTypes host addr data base = .ok btf
    ∧ btf.OverlongIn host 0 (btf.sectionBytes btf.hdr.typeOff btf.hdr.typeLen)

/-- An input is decoded or reported, unless it leads to a type that is too
long. -/
theorem btfDecode_reports_iff {host : ByteOrder} (hbase : ∀ b, base = some b → b.Wf) :
    Reports Recognized (btfDecode host addr data base) (fun _ => True)
      ↔ ¬ OverlongInput host addr data base := by
  have hbefore := btfBeforeTypes_reports host addr data base
  rw [btfDecode_eq]
  unfold OverlongInput
  cases hb : btfBeforeTypes host addr data base with
  | error e =>
    rw [hb] at hbefore
    refine ⟨?_, fun _ => hbefore.bind fun _ _ _ => (by contradiction)⟩
    rintro - ⟨btf, hok, -⟩
    cases hok
  | ok btf =>
    have hl := btfBeforeTypes_layoutFits hbase hb
    have htypes := btfParseTypes_reports_iff host hl 0
      (Nat.lt_succ_self (btf.sectionBytes btf.hdr.typeOff btf.hdr.typeLen).length)
      (Nat.zero_le _)
    have hsec : Reports Recognized (btfParseTypeSec host btf) (fun _ => True)
        ↔ ¬ btf.OverlongIn host 0 (btf.sectionBytes btf.hdr.typeOff btf.hdr.typeLen) := by
      rw [← htypes]
      exact ⟨fun h => Reports.first h, fun h => h.bind fun _ _ _ => trivial⟩
    refine hsec.trans (not_congr ⟨fun h => ⟨btf, rfl, h⟩, ?_⟩)
    rintro ⟨btf', hok, h⟩
    cases hok
    exact h

-- ======== the validation

section

variable {btf : Btf}

theorem btfValidateStr_reports (btf : Btf) (off : Nat) :
    Reports Recognized (btfValidateStr btf off) fun _ => True := by
  unfold btfValidateStr
  split
  · exact recognized_einval
  · trivial

theorem btfValidateId_reports (btf : Btf) (id : Nat) :
    Reports Recognized (btfValidateId btf id) fun _ => True := by
  unfold btfValidateId
  split
  · exact recognized_einval
  · trivial

theorem btfValidateType_reports (btf : Btf) (t : BtfType) :
    Reports Recognized (btfValidateType btf t) fun _ => True := by
  refine (btfValidateStr_reports btf _).bind fun _ _ _ => ?_
  have hpair : ∀ a b, Reports Recognized (do
      btfValidateStr btf a
      btfValidateId btf b) fun _ => True :=
    fun a b => (btfValidateStr_reports btf a).bind fun _ _ _ => btfValidateId_reports btf b
  have hids : ∀ a b, Reports Recognized (do
      btfValidateId btf a
      btfValidateId btf b) fun _ => True :=
    fun a b => (btfValidateId_reports btf a).bind fun _ _ _ => btfValidateId_reports btf b
  cases t.kind with
  | unkn | int | fwd | float | locParam => trivial
  | ptr | typedef | volatile | const | restrict | var | declTag | typeTag =>
    exact btfValidateId_reports btf _
  | array => exact hids _ _
  | struct | union | funcProto => exact reports_checkAll fun i _ => hpair _ _
  | enum | enum64 => exact reports_checkAll fun i _ => btfValidateStr_reports btf _
  | datasec | locProto => exact reports_checkAll fun i _ => btfValidateId_reports btf _
  | locsec => exact reports_checkAll fun i _ => hids _ _
  | func =>
    refine (btfValidateId_reports btf _).bind fun _ hid _ => ?_
    obtain ⟨u, hu⟩ := btfValidateId_eq_ok.mp hid
    refine (reports_deref hu).bind fun _ _ _ => ?_
    exact (reports_failIf recognized_einval).mono fun _ _ _ => trivial
  | other n =>
    dsimp only
    split
    · exact recognized_einval
    · trivial

theorem btfSanityCheck_reports (hw : btf.Wf) :
    Reports Recognized (btfSanityCheck btf) fun _ => True := by
  refine reports_checkAll fun id hid => ?_
  rw [mem_range'_1] at hid
  obtain ⟨t, ht⟩ := Option.isSome_iff_exists.mp (hw.typeById_isSome hid.2)
  exact (reports_deref ht).bind fun u _ _ => btfValidateType_reports btf u

/-- Sorted or not, the names are there. -/
theorem btfCheckSortedFrom_reports
    (hn : ∀ i, btf.startId ≤ i → i < btf.typeCnt → (btf.nameOf i).isSome = true) :
    ∀ {ids : List Nat} {named : Nat}, (∀ i ∈ ids, btf.startId < i ∧ i < btf.typeCnt) →
      Reports Recognized (btfCheckSortedFrom btf ids named) fun _ => True
  | [], _, _ => trivial
  | i :: ids, named, h => by
    obtain ⟨hlt, hcnt⟩ := h i mem_cons_self
    obtain ⟨na, hna⟩ := Option.isSome_iff_exists.mp (hn (i - 1) (by omega) (by omega))
    obtain ⟨nb, hnb⟩ := Option.isSome_iff_exists.mp (hn i (by omega) hcnt)
    obtain ⟨ta, hta, hna⟩ := Option.bind_eq_some_iff.mp hna
    obtain ⟨tb, htb, hnb⟩ := Option.bind_eq_some_iff.mp hnb
    rw [btfCheckSortedFrom, hta, htb]
    dsimp only [deref, bind, Except.bind]
    rw [hna, hnb]
    dsimp only [deref]
    split
    · trivial
    · exact btfCheckSortedFrom_reports hn fun j hj => h j (mem_cons_of_mem _ hj)

theorem btfCheckSorted_reports (hw : btf.Wf) (hs : btfSanityCheck btf = .ok ()) :
    Reports Recognized (btfCheckSorted btf) fun _ => True := by
  have hpos := hw.startId_pos
  have hcnt : btf.typeCnt = btf.startId + btf.nrTypes := rfl
  refine Reports.bind (P := fun _ => True) (btfCheckSortedFrom_reports (fun i hi hlt => ?_) ?_) ?_
  · have hk : i - btf.startId < btf.types.length := by
      have := hw.own.typeCnt
      omega
    have hget := btfTypeById_own hw.own.types (show i ≠ 0 by omega) hi
    rw [getElem?_eq_getElem hk] at hget
    obtain ⟨_, hstr, -⟩ := of_bind_ok (btfSanityCheck_ok hw hs (getElem_mem hk))
    obtain ⟨s, hs⟩ := btfValidateStr_eq_ok.mp hstr
    rw [Btf.nameOf, hget, Option.bind_some, hs]
    rfl
  · intro i hi
    rw [mem_range'_1] at hi
    omega
  · intro r _ _
    cases r with
    | none => trivial
    | some n => cases n <;> trivial

end

-- ======== the theorem

/-- The types lie end to end: each begins where the one before it ends, and
the last one ends with the section. -/
structure Btf.Tiles (btf : Btf) : Prop where
  length : btf.typeOffs.length = btf.types.length
  first : btf.typeOffs.getD 0 btf.hdr.typeLen = 0
  next : ∀ (k : Nat) t off, btf.types[k]? = some t → btf.typeOffs[k]? = some off →
    ∃ sz, btfTypeSize btf t = .ok sz ∧ btf.typeOffs.getD (k + 1) btf.hdr.typeLen = off + sz

theorem Btf.Wf.tiles {btf : Btf} (hw : btf.Wf) (hs : btf.Sized) : btf.Tiles := by
  have hoffs := hw.own.types.offs
  have hlen := hw.own.types.typeLen
  refine ⟨by rw [hoffs, offsFrom_length], ?_, fun k t off ht ho => ⟨t.byteSz, ?_, ?_⟩⟩
  · rw [hoffs, hlen]
    cases btf.types with
    | nil => rfl
    | cons t types => rfl
  · exact hs t (mem_of_getElem? ht)
  · have hk := (List.getElem?_eq_some_iff.mp ht).1
    have htake : btf.types.take (k + 1) = btf.types.take k ++ [t] := by
      rw [take_add_one, ht]
      rfl
    have hoff : off = total BtfType.byteSz (btf.types.take k) := by
      rw [hoffs, getElem?_offsFrom _ _ _ hk, Nat.zero_add] at ho
      exact (Option.some.inj ho).symm
    have hend : off + t.byteSz = total BtfType.byteSz (btf.types.take (k + 1)) := by
      rw [htake, total_append, hoff, total_cons, total_nil, Nat.add_zero]
    rw [hend, hoffs, hlen, getD_eq_getElem?_getD]
    by_cases hlast : k + 1 < btf.types.length
    · rw [getElem?_offsFrom _ _ _ hlast, Nat.zero_add]
      rfl
    · rw [getElem?_eq_none (by rw [offsFrom_length]; omega), Option.getD_none,
        take_of_length_le (by omega)]

/-- `btf_new` returns types that lie end to end, or an error that `IS_ERR`
recognises, exactly if the input does not lead it to a type whose layout makes
it 2 GiB or more. -/
theorem btfNew_reports_iff {host : ByteOrder} {addr : Nat} {data : Bytes} {base : Option Btf}
    (hbase : ∀ b, base = some b → b.Wf) :
    ((∃ btf, btfNew host addr data base = .ok btf ∧ btf.Tiles)
        ∨ ∃ code, btfNew host addr data base = .error (.err code) ∧ Recognized code)
      ↔ ¬ OverlongInput host addr data base := by
  rw [← reports_iff, ← btfDecode_reports_iff hbase]
  constructor
  · intro h
    exact Reports.first h
  · intro h
    have hnew : Reports Recognized (btfNew host addr data base) fun _ => True := by
      refine h.bind fun pre hpre _ => ?_
      have hw := btfDecode_wf hbase hpre
      exact (btfSanityCheck_reports hw).bind fun _ hs _ => btfCheckSorted_reports hw hs
    exact hnew.mono fun btf hbtf _ => (btfNew_wf hbase hbtf).tiles (btfNew_sized hbtf)

/-- Two types, of 12 and 16 bytes. -/
private def ptrAndInt : Bytes :=
  btfImage .little [⟨0, btfTypeInfo .ptr 0 false, 2, []⟩,
    ⟨1, btfTypeInfo .int 0 false, 4, [32]⟩] [0, 105, 0]

theorem btfNew_reports_iff_without_layout :
    ∃ btf, btfNew .little 0 ptrAndInt none = .ok btf ∧ btf.typeOffs = [0, 12] ∧ btf.Tiles := by
  have hnone : (btfBeforeTypes .little 0 ptrAndInt none).toOption.map btfLayoutFor =
      some none := by decide +kernel
  have hoffs : (btfNew .little 0 ptrAndInt none).toOption.map (fun btf => btf.typeOffs) =
      some [0, 12] := by decide +kernel
  have hshort : ¬ OverlongInput .little 0 ptrAndInt none := by
    rintro ⟨btf, hbtf, hover⟩
    obtain ⟨types, rest, -, -, -, -, hover⟩ := hover
    obtain ⟨-, l, lCnt, hl, -⟩ := hover
    rw [hbtf] at hnone
    have hfor : btfLayoutFor btf = none := Option.some.inj hnone
    rw [hfor] at hl
    cases hl
  rcases (btfNew_reports_iff fun b hb => by cases hb).mpr hshort with
    ⟨btf, hbtf, htiles⟩ | ⟨code, herr, -⟩
  · rw [hbtf] at hoffs
    exact ⟨btf, hbtf, Option.some.inj hoffs, htiles⟩
  · rw [herr] at hoffs
    cases hoffs

/-- A type of kind 23 with 2 ^ 24 - 1 elements, and a layout that gives each of
them 252 bytes. -/
private def overlongKind : Bytes :=
  wrHdr .little ⟨BTF_MAGIC, BTF_VERSION, 0, 32, 0, 12, 108, 1, 12, 96⟩
    ++ wrWords .little [0, 23 * 2 ^ 24 + (2 ^ 24 - 1), 0]
    ++ List.replicate 93 0 ++ [252, 0, 0] ++ [0]

/-- The size of the type, taken for an error code, is no error. -/
theorem btfNew_unrecognized : btfNew .little 0 overlongKind none = .error (.err (-67109104))
      ∧ ¬ Recognized (-67109104) := by
  refine ⟨eq_error_of_stopOf ?_, ?_⟩
  · decide +kernel
  · decide

end Libbpf
