/-
Reading a field with the five values of its relocations.

A program that reads a field, bitfield or not, through relocations loads
BYTE_SIZE bytes at BYTE_OFFSET into 64 bits and shifts them left by
LSHIFT_U64 and right by RSHIFT_U64, arithmetically if SIGNED. The five
values come from five calls that each work out the place of the field anew;
they agree because the place does not depend on which of them is asked for
(`calcField_named`).

The window of a bitfield grows until the bits are inside
(`bitfieldBytes_covers`). A member that is no bitfield gets the bytes from
the one its first bit is in, which are the right ones only if it starts
with that byte.
-/
import Libbpf.Core.Offset
import Libbpf.Core.Relo
import Libbpf.Lib.Bitfield

namespace Libbpf

open Lib

variable {bitOff i : Nat} {p : FieldPlace}

/-- The width of a member in bits: its bitfield size, or that of its
type. -/
def memberBits (t : BtfType) (m : BtfMember) (mt : BtfType) : Nat :=
  if btfMemberBitfieldSize t m > 0 then btfMemberBitfieldSize t m else mt.size * 8

/-- The values of an integer or enum type may be negative. -/
def BtfType.isSigned (t : BtfType) : Bool :=
  match t.kind with
  | .enum | .enum64 => t.kflag
  | .int => (t.intWord?.map fun w => (btfIntEncoding w).testBit 0).getD false
  | _ => false

/-- The bytes loaded and the shifts give the field of `bits` bits at
`bitOff`, for whatever is in memory. -/
structure ReadsField (byteOff byteSz l r : Nat) (arith : Bool)
    (bitOff bits : Nat) (signed : Bool) : Prop where
  size : byteSz = 1 ∨ byteSz = 2 ∨ byteSz = 4 ∨ byteSz = 8
  covers : byteOff * 8 ≤ bitOff ∧ bitOff + bits ≤ (byteOff + byteSz) * 8
  left : l < 64
  right : r < 64
  value : ∀ mem : Memory, extract (BitVec.ofNat 64 (load mem byteOff byteSz)) l r arith
      = widen (BitVec.ofNat bits (bitsAt mem bitOff bits)) signed

-- ======== the place

/-- The window found for a bitfield is aligned to its size, and the
bitfield is inside. -/
theorem bitfieldBytes_covers {bitSz : Nat} (hsmall : bitSz < 2 ^ 8) : ∀ {left byteSz bs bo : Nat},
      byteSz = 1 ∨ byteSz = 2 ∨ byteSz = 4 ∨ byteSz = 8 →
      bitfieldBytes bitOff bitSz left byteSz = .ok (bs, bo) →
      (bs = 1 ∨ bs = 2 ∨ bs = 4 ∨ bs = 8) ∧ bo * 8 ≤ bitOff ∧ bitOff + bitSz ≤ (bo + bs) * 8 := by
  intro left
  induction left with
  | zero => intro byteSz bs bo _ h; cases h
  | succ left ih =>
    intro byteSz bs bo hsz h
    rw [bitfieldBytes, if_neg (by omega)] at h
    dsimp only at h
    have hle : bitOff / 8 / byteSz * byteSz ≤ bitOff / 8 := Nat.div_mul_le_self _ _
    have hlt : bitOff / 8 < bitOff / 8 / byteSz * byteSz + byteSz := by
      have := Nat.lt_div_mul_add (a := bitOff / 8) (b := byteSz) (by omega)
      omega
    split at h
    · split at h
      · cases h
      · exact ih (by omega) h
    · next hfits =>
        cases h
        exact ⟨hsz, by omega, by omega⟩

theorem member_offset_lt {t : BtfType} (hfits : t.Fits) {m : BtfMember}
    (hm : t.member? i = some m) : m.offset < 2 ^ 32 := by
  unfold BtfType.member? at hm
  split at hm
  · next hoff =>
      cases hm
      exact hfits _ (by simp [BtfType.words, List.mem_of_getElem? hoff])
  · cases hm

theorem bitfieldSize_lt {t : BtfType} (hfits : t.Fits) {m : BtfMember}
    (hm : t.member? i = some m) : btfMemberBitfieldSize t m < 2 ^ 8 := by
  have := member_offset_lt hfits hm
  unfold btfMemberBitfieldSize
  split <;> omega

/-- The size of the type behind typedefs and modifiers, if it has one of
its own. -/
theorem resolveSize_own {btf : Btf} {id fid n sz : Nat} {mt : BtfType}
    (hmt : skipModsAndTypedefs btf n id = .ok (mt, fid)) (hk : mt.kind = .int ∨ mt.isAnyEnum = true)
    (h : sizeOrEinval (btfResolveSize btf fid) = .ok sz) : sz = mt.size := by
  have hparts : sizeParts btf mt = some (mt.size, none) := by
    unfold sizeParts
    rcases hk with hk | hk
    · rw [hk]
    · unfold BtfType.isAnyEnum at hk
      rw [Bool.or_eq_true, beq_iff_eq, beq_iff_eq] at hk
      rcases hk with hk | hk <;> rw [hk]
  have hsz : btfResolveSize btf fid = .ok sz := by
    unfold sizeOrEinval at h
    split at h
    · cases h
    · exact h
  exact (TypeSize.own (skipMods_end hmt).1 hparts).unique (resolveSize_typeSize hsz)

-- ======== the five calls

section

variable {btf : Btf} {spec : CoreSpec} {n : Nat} {acc : CoreAccessor} {t : BtfType}
  {m : BtfMember} {mt : BtfType} {fid : Nat}

/-- What a call works with, for a named member. -/
theorem calcField_named {host : ByteOrder} {kind : CoreReloKind} {r : FieldRelo}
    (hkind : kind ≠ .fieldExists) (hacc : spec.spec.getLast? = some acc)
    (hname : acc.name.isSome = true) (ht : btfTypeById btf acc.typeId = some t)
    (hm : t.member? acc.idx = some m) (hmt : skipModsAndTypedefs btf n m.type = .ok (mt, fid))
    (h : bpfCoreCalcFieldRelo host btf kind (some spec) n = .ok r) :
    ∃ p, fieldPlace btf t m mt fid spec.bitOffset.toNat = .ok p
      ∧ calcPlacedRelo host btf kind mt fid spec.bitOffset.toNat p n = .ok r := by
  unfold bpfCoreCalcFieldRelo at h
  rw [if_neg hkind] at h
  dsimp only at h
  obtain ⟨acc', hacc', h⟩ := of_bind_ok h
  cases hacc.symm.trans (deref_eq_ok.mp hacc')
  rw [if_neg (by simpa [Option.isSome_iff_ne_none] using hname)] at h
  obtain ⟨t', ht', h⟩ := of_bind_ok h
  cases ht.symm.trans (deref_eq_ok.mp ht')
  obtain ⟨m', hm', h⟩ := of_bind_ok h
  cases hm.symm.trans (deref_eq_ok.mp hm')
  obtain ⟨⟨mt', fid'⟩, hmt', h⟩ := of_bind_ok h
  cases hmt.symm.trans hmt'
  obtain ⟨p, hp, h⟩ := of_bind_ok h
  exact ⟨p, hp, h⟩

/-- The signedness asked for is that of the type. -/
theorem fieldSigned_isSigned (hk : mt.kind = .int ∨ mt.isAnyEnum = true) {signed : Bool}
    (h : fieldSigned mt = .ok signed) : signed = mt.isSigned := by
  unfold fieldSigned at h
  unfold BtfType.isSigned
  by_cases hany : mt.isAnyEnum = true
  · rw [if_pos hany] at h
    cases h
    unfold BtfType.isAnyEnum at hany
    rw [Bool.or_eq_true, beq_iff_eq, beq_iff_eq] at hany
    rcases hany with hk | hk <;> rw [hk]
  have hint : mt.kind = .int := hk.resolve_right hany
  rw [if_neg hany, if_pos (by rw [hint]; rfl)] at h
  obtain ⟨w, hw, h⟩ := of_bind_ok h
  cases h
  rw [hint]
  rw [deref_eq_ok.mp hw, Option.map_some, Nat.testBit_zero]
  rfl

/-- The place of a bitfield: the bits are inside an aligned window. -/
theorem fieldPlace_bitfield (hfits : t.Fits)
    (hm : t.member? i = some m) (hbits : 0 < btfMemberBitfieldSize t m)
    (hsz : mt.size = 1 ∨ mt.size = 2 ∨ mt.size = 4 ∨ mt.size = 8)
    (h : fieldPlace btf t m mt fid bitOff = .ok p) :
    p.bitSz = btfMemberBitfieldSize t m
      ∧ (p.byteSz = 1 ∨ p.byteSz = 2 ∨ p.byteSz = 4 ∨ p.byteSz = 8)
      ∧ p.byteOff * 8 ≤ bitOff ∧ bitOff + p.bitSz ≤ (p.byteOff + p.byteSz) * 8 := by
  unfold fieldPlace at h
  dsimp only at h
  rw [if_pos hbits] at h
  obtain ⟨⟨bs, bo⟩, hbytes, h⟩ := of_bind_ok h
  cases h
  exact ⟨rfl, bitfieldBytes_covers (bitfieldSize_lt hfits hm) hsz hbytes⟩

/-- The place of another member: the bytes of its type, from the one its
first bit is in. -/
theorem fieldPlace_plain (hbits : ¬ 0 < btfMemberBitfieldSize t m)
    (hmt : skipModsAndTypedefs btf n m.type = .ok (mt, fid))
    (hk : mt.kind = .int ∨ mt.isAnyEnum = true)
    (hsz : mt.size = 1 ∨ mt.size = 2 ∨ mt.size = 4 ∨ mt.size = 8)
    (h : fieldPlace btf t m mt fid bitOff = .ok p) :
    p.bitSz = mt.size * 8 ∧ p.byteSz = mt.size ∧ p.byteOff = bitOff / 8 := by
  unfold fieldPlace at h
  rw [if_neg hbits] at h
  obtain ⟨sz, hres, h⟩ := of_bind_ok h
  cases resolveSize_own hmt hk hres
  cases h
  exact ⟨Nat.mod_eq_of_lt (by omega), rfl, rfl⟩

/-- The values of a place that holds the bits cut the field out. -/
theorem readsField_of_covers {signed : Bool} (hpos : 0 < p.bitSz)
    (hsz : p.byteSz = 1 ∨ p.byteSz = 2 ∨ p.byteSz = 4 ∨ p.byteSz = 8)
    (hlo : p.byteOff * 8 ≤ bitOff) (hhi : bitOff + p.bitSz ≤ (p.byteOff + p.byteSz) * 8)
    (hoff : bitOff < 2 ^ 32) :
    ReadsField p.byteOff p.byteSz ((64 + 2 ^ 32 * 2 + p.byteOff * 8 - (bitOff + p.bitSz)) % 2 ^ 32)
      ((64 + 2 ^ 32 - p.bitSz) % 2 ^ 32) signed bitOff p.bitSz signed := by
  have hl : (64 + 2 ^ 32 * 2 + p.byteOff * 8 - (bitOff + p.bitSz)) % 2 ^ 32
      = 64 - (bitOff - p.byteOff * 8 + p.bitSz) := by omega
  have hr : (64 + 2 ^ 32 - p.bitSz) % 2 ^ 32 = 64 - p.bitSz := by omega
  rw [hl, hr]
  refine ⟨hsz, ⟨hlo, hhi⟩, by omega, by omega, fun mem => ?_⟩
  have hstart : 8 * p.byteOff + (bitOff - p.byteOff * 8) = bitOff := by omega
  have hcut := extract_load mem (a := p.byteOff) (m := p.byteSz)
    (d := bitOff - p.byteOff * 8) hpos (by omega) (by omega) signed
  rwa [hstart] at hcut

end

/-- The values of the five relocations of a member of integer or enum type,
as one program sees them: they give the field, for whatever is in memory,
exactly if the member is a bitfield or starts at a byte. -/
theorem field_relos_read {btf : Btf} {spec : CoreSpec} {n : Nat} {acc : CoreAccessor}
    {t : BtfType} {m : BtfMember} {mt : BtfType} {fid : Nat}
    {off size lshift rshift sign : FieldRelo} (hwf : btf.Wf)
    (hacc : spec.spec.getLast? = some acc) (hname : acc.name.isSome = true)
    (ht : btfTypeById btf acc.typeId = some t) (hm : t.member? acc.idx = some m)
    (hmt : skipModsAndTypedefs btf n m.type = .ok (mt, fid))
    (hk : mt.kind = .int ∨ mt.isAnyEnum = true)
    (hsz : mt.size = 1 ∨ mt.size = 2 ∨ mt.size = 4 ∨ mt.size = 8)
    (hoff : bpfCoreCalcFieldRelo .little btf .fieldByteOffset (some spec) n = .ok off)
    (hsize : bpfCoreCalcFieldRelo .little btf .fieldByteSize (some spec) n = .ok size)
    (hlshift : bpfCoreCalcFieldRelo .little btf .fieldLshiftU64 (some spec) n = .ok lshift)
    (hrshift : bpfCoreCalcFieldRelo .little btf .fieldRshiftU64 (some spec) n = .ok rshift)
    (hsign : bpfCoreCalcFieldRelo .little btf .fieldSigned (some spec) n = .ok sign) :
    ReadsField off.val size.val lshift.val rshift.val (sign.val != 0)
        spec.bitOffset.toNat (memberBits t m mt) mt.isSigned
      ↔ 0 < btfMemberBitfieldSize t m ∨ spec.bitOffset.toNat % 8 = 0 := by
  obtain ⟨p, hp, hoff⟩ := calcField_named (by decide) hacc hname ht hm hmt hoff
  -- the other calls find the same place
  have hplaced : ∀ {kind r}, kind ≠ .fieldExists →
      bpfCoreCalcFieldRelo .little btf kind (some spec) n = .ok r →
      calcPlacedRelo .little btf kind mt fid spec.bitOffset.toNat p n = .ok r := by
    intro kind r hkind h
    obtain ⟨p', hp', h⟩ := calcField_named hkind hacc hname ht hm hmt h
    cases hp.symm.trans hp'
    exact h
  have hval : off.val = p.byteOff := by
    unfold calcPlacedRelo at hoff
    dsimp only at hoff
    split at hoff
    · cases hoff
      rfl
    · obtain ⟨sz, -, hoff⟩ := of_bind_ok hoff
      cases hoff
      rfl
  have hsigned : (sign.val != 0) = mt.isSigned := by
    obtain ⟨signed, hsigned, hsign⟩ := of_bind_ok (hplaced (by decide) hsign)
    cases hsign
    rw [← fieldSigned_isSigned hk hsigned]
    cases signed <;> rfl
  cases hplaced (by decide) hsize
  cases hplaced (by decide) hlshift
  cases hplaced (by decide) hrshift
  rw [hval, hsigned]
  dsimp only
  have hlt : spec.bitOffset.toNat < 2 ^ 32 := spec.bitOffset.isLt
  by_cases hbits : 0 < btfMemberBitfieldSize t m
  · obtain ⟨hwidth, hbytes, hlo, hhi⟩ :=
      fieldPlace_bitfield (hwf.typeById_fits ht) hm hbits hsz hp
    have hmember : memberBits t m mt = p.bitSz := by
      rw [memberBits, if_pos hbits, hwidth]
    rw [hmember]
    exact iff_of_true (readsField_of_covers (by omega) hbytes hlo hhi hlt) (.inl hbits)
  · obtain ⟨hwidth, hbytes, hbyteOff⟩ := fieldPlace_plain hbits hmt hk hsz hp
    have hmember : memberBits t m mt = p.bitSz := by
      rw [memberBits, if_neg hbits, hwidth]
    rw [hmember]
    constructor
    · intro h
      -- the bytes hold the bits, and are no more than these
      have := h.covers
      exact .inr (by omega)
    · intro h
      have hstart := h.resolve_left hbits
      exact readsField_of_covers (by omega) (by omega) (by omega) (by omega) hlt

/-- A struct whose bitfield of 5 signed bits starts at bit 30 of an `int`. -/
private def straddling : Bytes :=
  btfImage .little
    [⟨1, btfTypeInfo .int 0 false, 4, [2 ^ 24 + 32]⟩,
      ⟨5, btfTypeInfo .struct 1 true, 8, [7, 1, 5 * 2 ^ 24 + 30]⟩]
    -- "", "int", "s", "b" and the access string "0:0"
    [0, 105, 110, 116, 0, 115, 0, 98, 0, 48, 58, 48, 0]

private def straddlingSpec : CoreSpec :=
  ⟨[⟨2, 0, none⟩, ⟨2, 0, some ⟨[98], by decide⟩⟩], 2, .fieldByteOffset, [0, 0], 30⟩

/-- The bitfield needs a load of 8 bytes. -/
theorem field_relos_read_straddling : ∃ btf, btfNew .little 0 straddling none = .ok btf
      ∧ bpfCoreParseSpec btf ⟨2, 9, .fieldByteOffset⟩ 100 = .ok straddlingSpec
      ∧ ReadsField 0 8 29 59 true straddlingSpec.bitOffset.toNat 5 true := by
  obtain ⟨btf, hbtf, ht, hmt, hparse, hoff, hsize, hlshift, hrshift, hsign⟩ := exists_ok_of_any
    (r := btfNew .little 0 straddling none) (P := fun btf =>
      btfTypeById btf 2 = some ⟨5, btfTypeInfo .struct 1 true, 8, [7, 1, 5 * 2 ^ 24 + 30]⟩
      ∧ skipModsAndTypedefs btf 100 1 = .ok (⟨1, btfTypeInfo .int 0 false, 4, [2 ^ 24 + 32]⟩, 1)
      ∧ bpfCoreParseSpec btf ⟨2, 9, .fieldByteOffset⟩ 100 = .ok straddlingSpec
      ∧ bpfCoreCalcFieldRelo .little btf .fieldByteOffset straddlingSpec 100 = .ok ⟨0, 0, 0, false⟩
      ∧ bpfCoreCalcFieldRelo .little btf .fieldByteSize straddlingSpec 100 = .ok ⟨8, 0, 0, false⟩
      ∧ bpfCoreCalcFieldRelo .little btf .fieldLshiftU64 straddlingSpec 100 = .ok ⟨29, 0, 0, false⟩
      ∧ bpfCoreCalcFieldRelo .little btf .fieldRshiftU64 straddlingSpec 100 = .ok ⟨59, 0, 0, true⟩
      ∧ bpfCoreCalcFieldRelo .little btf .fieldSigned straddlingSpec 100 = .ok ⟨1, 0, 0, true⟩)
    (by decide +kernel)
  have hm : BtfType.member? ⟨5, btfTypeInfo .struct 1 true, 8, [7, 1, 5 * 2 ^ 24 + 30]⟩ 0
      = some ⟨7, 1, 5 * 2 ^ 24 + 30⟩ := by decide
  refine ⟨btf, hbtf, hparse, ?_⟩
  exact (field_relos_read (btfNew_wf (fun b hb => by cases hb) hbtf) rfl rfl ht hm hmt (.inl rfl)
    (by decide) hoff hsize hlshift hrshift hsign).mpr (.inl (by decide))

/-- A struct whose 64-bit member, no bitfield by the flag of the struct,
starts at bit 4. -/
private def unaligned : Bytes :=
  btfImage .little
    [⟨1, btfTypeInfo .int 0 false, 8, [60]⟩, ⟨5, btfTypeInfo .struct 1 false, 8, [7, 1, 4]⟩]
    [0, 105, 110, 116, 0, 115, 0, 98, 0, 48, 58, 48, 0]

private def unalignedSpec : CoreSpec :=
  ⟨[⟨2, 0, none⟩, ⟨2, 0, some ⟨[98], by decide⟩⟩], 2, .fieldByteOffset, [0, 0], 4⟩

/-- The left shift is one by 4294967292 bits, whatever the width of the
field is taken to be. -/
theorem field_relos_unaligned : ∃ btf off size lshift rshift sign,
    btfNew .little 0 unaligned none = .ok btf
      ∧ bpfCoreParseSpec btf ⟨2, 9, .fieldByteOffset⟩ 100 = .ok unalignedSpec
      ∧ bpfCoreCalcFieldRelo .little btf .fieldByteOffset (some unalignedSpec) 100 = .ok off
      ∧ bpfCoreCalcFieldRelo .little btf .fieldByteSize (some unalignedSpec) 100 = .ok size
      ∧ bpfCoreCalcFieldRelo .little btf .fieldLshiftU64 (some unalignedSpec) 100 = .ok lshift
      ∧ bpfCoreCalcFieldRelo .little btf .fieldRshiftU64 (some unalignedSpec) 100 = .ok rshift
      ∧ bpfCoreCalcFieldRelo .little btf .fieldSigned (some unalignedSpec) 100 = .ok sign
      ∧ lshift.val = 4294967292
      ∧ ∀ bits signed, ¬ ReadsField off.val size.val lshift.val rshift.val (sign.val != 0)
          unalignedSpec.bitOffset.toNat bits signed := by
  obtain ⟨btf, hbtf, hparse, hoff, hsize, hlshift, hrshift, hsign⟩ := exists_ok_of_any
    (r := btfNew .little 0 unaligned none) (P := fun btf =>
      bpfCoreParseSpec btf ⟨2, 9, .fieldByteOffset⟩ 100 = .ok unalignedSpec
      ∧ bpfCoreCalcFieldRelo .little btf .fieldByteOffset unalignedSpec 100 = .ok ⟨0, 8, 1, true⟩
      ∧ bpfCoreCalcFieldRelo .little btf .fieldByteSize unalignedSpec 100 = .ok ⟨8, 0, 0, true⟩
      ∧ bpfCoreCalcFieldRelo .little btf .fieldLshiftU64 unalignedSpec 100
        = .ok ⟨4294967292, 0, 0, true⟩
      ∧ bpfCoreCalcFieldRelo .little btf .fieldRshiftU64 unalignedSpec 100 = .ok ⟨0, 0, 0, true⟩
      ∧ bpfCoreCalcFieldRelo .little btf .fieldSigned unalignedSpec 100 = .ok ⟨0, 0, 0, true⟩)
    (by decide +kernel)
  refine ⟨btf, _, _, _, _, _, hbtf, hparse, hoff, hsize, hlshift, hrshift, hsign, rfl,
    fun bits signed h => ?_⟩
  have hleft := h.left
  simp at hleft

end Libbpf
