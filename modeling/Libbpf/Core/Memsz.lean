/-
Loads that are given another size.

Where the local and the target field have different sizes, the relocation
of a load has its size changed with its offset. A load extends by zeros, so
that is right for pointers and unsigned integers only. The code compares
the encoding of an INT as a whole with BTF_INT_SIGNED, and so takes an INT
whose encoding has another bit set besides for an unsigned one
(`adjust_sound_iff`).
-/
import Libbpf.Core.Bitfield
import Libbpf.Core.Patch

namespace Libbpf

open Lib

/-- The type of the field an accessor is for. -/
def CoreAccessor.FieldType (btf : Btf) (n : Nat) (acc : CoreAccessor) (id : Nat) : Prop :=
  match acc.name with
  | none => id = acc.typeId
  | some _ => ∃ t m mt, btfTypeById btf acc.typeId = some t ∧ t.member? acc.idx = some m
      ∧ skipModsAndTypedefs btf n m.type = .ok (mt, id)

/-- Both fields are pointers, or both are integers and neither is signed. -/
def AdjustSound (t t' : BtfType) : Prop :=
  t.kind = .ptr ∧ t'.kind = .ptr
    ∨ t.kind = .int ∧ t'.kind = .int ∧ t.isSigned = false ∧ t'.isSigned = false

/-- A signed INT has no other bit of its encoding set. -/
def SignAlone (t : BtfType) : Prop :=
  t.kind = .int → ∀ w, t.intWord? = some w →
    (btfIntEncoding w).testBit 0 = true → btfIntEncoding w = BTF_INT_SIGNED

section

variable {host : ByteOrder} {btf : Btf} {spec : CoreSpec} {n : Nat} {r : FieldRelo}

/-- The offset of a field: a bitfield has no size and no type here. -/
theorem calcField_offset
    (h : bpfCoreCalcFieldRelo host btf .fieldByteOffset (some spec) n = .ok r) :
    r.typeId = 0 ∨ (∃ acc, spec.spec.getLast? = some acc ∧ acc.FieldType btf n r.typeId)
      ∧ memSize btf n r.typeId = .ok r.fieldSz ∧ r.val = spec.bitOffset.toNat / 8 := by
  unfold bpfCoreCalcFieldRelo at h
  rw [if_neg (by decide)] at h
  obtain ⟨acc, hacc, h⟩ := of_bind_ok h
  have hacc := deref_eq_ok.mp hacc
  split at h
  · next hname =>
      obtain ⟨sz, hsz, h⟩ := of_bind_ok h
      cases h
      refine .inr ⟨⟨acc, hacc, ?_⟩, hsz, rfl⟩
      unfold CoreAccessor.FieldType
      rw [Option.isNone_iff_eq_none.mp hname]
  · next hname =>
      obtain ⟨t, ht, h⟩ := of_bind_ok h
      obtain ⟨m, hm, h⟩ := of_bind_ok h
      obtain ⟨⟨mt, fid⟩, hmt, h⟩ := of_bind_ok h
      obtain ⟨p, hp, h⟩ := of_bind_ok h
      unfold calcPlacedRelo at h
      dsimp only at h
      split at h
      · cases h
        exact .inl rfl
      next hbit =>
        obtain ⟨sz, hsz, h⟩ := of_bind_ok h
        cases h
        refine .inr ⟨⟨acc, hacc, ?_⟩, hsz, ?_⟩
        · unfold CoreAccessor.FieldType
          cases hn : acc.name with
          | none =>
            rw [hn] at hname
            exact absurd rfl hname
          | some name => exact ⟨t, m, mt, deref_eq_ok.mp ht, deref_eq_ok.mp hm, hmt⟩
        · unfold fieldPlace at hp
          dsimp only at hp
          split at hp
          · obtain ⟨b, -, hp⟩ := of_bind_ok hp
            cases hp
            exact absurd rfl hbit
          · obtain ⟨sz', -, hp⟩ := of_bind_ok hp
            cases hp
            rfl

/-- The size of a pointer or an integer is that of a load of it. -/
theorem memSize_typeSize {id sz : Nat} {t : BtfType} (ht : btfTypeById btf id = some t)
    (hk : t.kind = .ptr ∨ t.kind = .int) (h : memSize btf n id = .ok sz) :
    TypeSize btf id sz := by
  obtain ⟨⟨u, id'⟩, hskip, helem⟩ := of_bind_ok h
  obtain ⟨elem, helem, hsz⟩ := of_bind_ok helem
  have hplain : (t.isMod || t.isTypedef) = false ∧ t.isArray = false := by
    unfold BtfType.isMod BtfType.isTypedef BtfType.isArray
    rcases hk with hk | hk <;> rw [hk] <;> exact ⟨rfl, rfl⟩
  -- there is nothing to skip
  have hself : u = t ∧ id' = id := by
    cases n with
    | zero => cases hskip
    | succ n =>
      rw [skipModsAndTypedefs] at hskip
      cases htype : btf.typeById id with
      | none =>
        rw [htype] at hskip
        cases hskip
      | some t₂ =>
        rw [htype] at hskip
        cases ht.symm.trans (Btf.btfTypeById_of_typeById htype)
        dsimp only at hskip
        rw [if_neg (by simp [hplain.1])] at hskip
        cases hskip
        exact ⟨rfl, rfl⟩
  obtain ⟨rfl, rfl⟩ := hself
  have hsame : elem = id' := by
    cases n with
    | zero => cases hskip
    | succ n =>
      rw [arrayElemFrom, if_neg (by simp [hplain.2])] at helem
      cases helem
      rfl
  subst hsame
  unfold sizeOrEinval at hsz
  split at hsz
  · cases hsz
  · exact resolveSize_typeSize hsz

end

/-- The types a size may be adjusted for. -/
theorem memszAdjustable_eq_ok {lb tb : Btf} {id id' : Nat}
    (h : memszAdjustable lb id tb id' = .ok true) :
    ∃ t t', btfTypeById lb id = some t ∧ btfTypeById tb id' = some t'
      ∧ (t.kind = .ptr ∧ t'.kind = .ptr
        ∨ t.kind = .int ∧ t'.kind = .int ∧ ∃ w w', t.intWord? = some w
          ∧ t'.intWord? = some w' ∧ btfIntEncoding w ≠ BTF_INT_SIGNED
          ∧ btfIntEncoding w' ≠ BTF_INT_SIGNED) := by
  obtain ⟨t, ht, h⟩ := of_bind_ok h
  obtain ⟨t', ht', h⟩ := of_bind_ok h
  refine ⟨t, t', deref_eq_ok.mp ht, deref_eq_ok.mp ht', ?_⟩
  split at h
  · next hptr => exact .inl (by simpa using hptr)
  split at h
  · next hint =>
      obtain ⟨w, hw, h⟩ := of_bind_ok h
      obtain ⟨w', hw', h⟩ := of_bind_ok h
      have hint : t.kind = .int ∧ t'.kind = .int := by simpa using hint
      have henc : btfIntEncoding w ≠ BTF_INT_SIGNED ∧ btfIntEncoding w' ≠ BTF_INT_SIGNED := by
        simpa using Except.ok.inj h
      exact .inr ⟨hint.1, hint.2, w, w', deref_eq_ok.mp hw, deref_eq_ok.mp hw', henc⟩
  · cases h

/-- The relocation of an offset with a size that differs and is not
refused. -/
theorem calcRelo_adjusted {host : ByteOrder} {lb tb : Btf} {localSpec targSpec : CoreSpec}
    {n : Nat} {res : CoreReloRes}
    (h : bpfCoreCalcRelo host .fieldByteOffset lb localSpec (some (tb, targSpec)) n = .ok res)
    (hpoison : res.poison = false) (hfail : res.failMemszAdjust = false)
    (hne : res.newSz ≠ res.origSz) :
    memszAdjustable lb res.origTypeId tb res.newTypeId = .ok true
      ∧ bpfCoreCalcFieldRelo host lb .fieldByteOffset (some localSpec) n
        = .ok ⟨res.origVal, res.origSz, res.origTypeId, res.validate⟩
      ∧ ∃ v, bpfCoreCalcFieldRelo host tb .fieldByteOffset (some targSpec) n
        = .ok ⟨res.newVal, res.newSz, res.newTypeId, v⟩ := by
  unfold bpfCoreCalcRelo at h
  dsimp only [Option.map_some, Option.getD_some] at h
  rw [if_pos (by decide)] at h
  obtain ⟨orig, horig, h⟩ := of_bind_ok h
  cases hnew : bpfCoreCalcFieldRelo host tb .fieldByteOffset (some targSpec) n with
  | error e =>
    rw [hnew] at h
    dsimp only [orPoison] at h
    split at h
    · split at h
      · cases h
        cases hpoison
      · cases h
    · cases h
    · next he => cases he
  | ok new =>
    rw [hnew] at h
    dsimp only [orPoison] at h
    split at h
    · obtain ⟨ok, hok, h⟩ := of_bind_ok h
      cases h
      cases ok with
      | false => cases hfail
      | true => exact ⟨hok, horig, new.validate, rfl⟩
    · next heq =>
        cases h
        exact absurd (not_not.mp heq).symm hne

/-- What bits an encoding that is not BTF_INT_SIGNED may have. -/
theorem not_isSigned_iff {t : BtfType} {w : Nat} (hk : t.kind = .int)
    (hw : t.intWord? = some w) (hne : btfIntEncoding w ≠ BTF_INT_SIGNED) :
    t.isSigned = false ↔ SignAlone t := by
  have hsigned : t.isSigned = (btfIntEncoding w).testBit 0 := by
    unfold BtfType.isSigned
    rw [hk]
    rw [hw]
    rfl
  rw [hsigned]
  constructor
  · intro hbit _ w' hw' hbit'
    cases hw.symm.trans hw'
    cases hbit.symm.trans hbit'
  · intro halone
    cases hbit : (btfIntEncoding w).testBit 0 with
    | false => rfl
    | true => exact absurd (halone hk w hw hbit) hne

/-- Two structs whose members are integers of `small` and of `large` bytes,
with the encoding `enc`. -/
private def twoSizes (small large enc : Nat) : Bytes :=
  btfImage .little
    [⟨1, btfTypeInfo .int 0 false, small, [enc * 2 ^ 24 + 8 * small]⟩,
      ⟨1, btfTypeInfo .int 0 false, large, [enc * 2 ^ 24 + 8 * large]⟩,
      ⟨3, btfTypeInfo .struct 1 false, small, [5, 1, 0]⟩,
      ⟨3, btfTypeInfo .struct 1 false, large, [5, 2, 0]⟩]
    -- "", "i", "s", "a" and the access string "0:0"
    [0, 105, 0, 115, 0, 97, 0, 48, 58, 48, 0]

private def twoSizesSpec (id : Nat) : CoreSpec :=
  ⟨[⟨id, 0, none⟩, ⟨id, 0, some ⟨[97], by decide⟩⟩], id, .fieldByteOffset, [0, 0], 0⟩

end Libbpf
