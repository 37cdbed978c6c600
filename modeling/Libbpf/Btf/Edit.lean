/-
What a write may do to an object, said once for all writing calls.

A call interns strings, and it may replace the type section: by a longer
one, or by one whose last record has grown. `Edited` says that nothing
else a reader can see changes, that the object stays well formed, and
that no cached blob outlives the change. It composes, so a call is
`Edited` when its steps are.
-/
import Libbpf.Btf.StrTable

namespace Libbpf

open Lib

-- ======== type sections

/-- The object with records appended to its type section. -/
def btfAppendTypes (ts : List BtfType) (btf : Btf) : Btf :=
  btfHdrUpdateTypeLen (btf.hdr.typeLen + total BtfType.byteSz ts) { btf with
    types := btf.types ++ ts
    typeOffs := btf.typeOffs ++ offsFrom BtfType.byteSz btf.hdr.typeLen ts }

theorem Btf.core_setTypes (ts : List BtfType) (btf : Btf) :
    (btf.setTypes ts).core = btf.core.setTypes ts := by
  refine Btf.ext_own ?_ ?_
  · rw [Btf.core_own]
    have hright : (btf.core.setTypes ts).toBtfOwn = { btf.core.toBtfOwn with
        hdr := btf.core.hdr.withTypeLen (total BtfType.byteSz ts)
          btf.core.layout.isSome
        types := ts
        typeOffs := offsFrom BtfType.byteSz 0 ts } := rfl
    have hlen : (btf.setTypes ts).hdr.strLen = btf.hdr.strLen :=
      BtfHeader.withTypeLen_strLen _ _ _
    rw [hright, Btf.core_own, hlen]
    rfl
  · rw [Btf.core_base]
    exact btf.core_base.symm

theorem btfAppendTypes_eq {btf : Btf} (h : btf.TypesWf) (ts : List BtfType) :
    btfAppendTypes ts btf = btf.setTypes (btf.types ++ ts) := by
  rw [btfAppendTypes, Btf.setTypes, total_append, h.typeLen, h.offs, offsFrom_append, Nat.zero_add]

/-- Replacing the type section keeps the rest well formed. -/
theorem Btf.Wf.setTypes {btf : Btf} (h : btf.Wf) {ts : List BtfType}
    (hts : Btf.Section ts) : (btf.setTypes ts).Wf :=
  .mk (h.own.setTypes hts) fun _ hb => h.base hb

theorem Btf.setTypes_addStrs (ts : List BtfType) (r : Bytes) (btf : Btf) :
    (btf.setTypes ts).addStrs r = (btf.addStrs r).setTypes ts := by
  refine Btf.ext_own ?_ rfl
  have hleft : ((btf.setTypes ts).addStrs r).toBtfOwn = { (btf.setTypes ts).toBtfOwn with
        strs := .raw (btf.strs.data ++ r)
        hdr := { btf.hdr.withTypeLen (total BtfType.byteSz ts)
            btf.layout.isSome with
          strLen := (btf.hdr.withTypeLen (total BtfType.byteSz ts)
            btf.layout.isSome).strLen + r.length } } := rfl
  rw [hleft, BtfHeader.withTypeLen_withStrLen, BtfHeader.withTypeLen_strLen]
  rfl

theorem Btf.setTypes_setTypes (ts ts' : List BtfType) (btf : Btf) :
    (btf.setTypes ts).setTypes ts' = btf.setTypes ts' := by
  simp only [Btf.setTypes, btfHdrUpdateTypeLen, BtfHeader.withTypeLen_withTypeLen]

section

variable {b : Btf} (hw : b.Wf) {ts : List BtfType} (hts : Btf.Section (b.types ++ ts))

include hw hts

theorem Btf.typeCnt_append : (b.setTypes (b.types ++ ts)).typeCnt = b.typeCnt + ts.length := by
  rw [(hw.setTypes hts).own.typeCnt, hw.own.typeCnt]
  show b.startId + (b.types ++ ts).length = _
  rw [List.length_append, Nat.add_assoc]

/-- Appending leaves the earlier IDs alone. -/
theorem btfTypeById_append_old {id : Nat} (hid : id < b.typeCnt) :
    btfTypeById (b.setTypes (b.types ++ ts)) id = btfTypeById b id := by
  by_cases h0 : id = 0
  · rw [h0, btfTypeById_zero, btfTypeById_zero]
  by_cases hlt : id < b.startId
  · rw [btfTypeById_base h0 hlt]
    exact btfTypeById_base h0 hlt
  have hge := Nat.le_of_not_lt hlt
  rw [hw.own.typeCnt] at hid
  rw [btfTypeById_own hw.own.types h0 hge, btfTypeById_own (hw.setTypes hts).own.types h0 hge]
  show (b.types ++ ts)[id - b.startId]? = _
  exact List.getElem?_append_left (by omega)

/-- The appended records come next. -/
theorem btfTypeById_append_new (k : Nat) :
    btfTypeById (b.setTypes (b.types ++ ts)) (b.typeCnt + k) = ts[k]? := by
  have hpos := hw.startId_pos
  have hcnt := hw.own.typeCnt
  rw [btfTypeById_own (hw.setTypes hts).own.types (by omega) (by show b.startId ≤ _; omega)]
  show (b.types ++ ts)[b.typeCnt + k - b.startId]? = _
  rw [show b.typeCnt + k - b.startId = b.types.length + k by omega,
    List.getElem?_append_right (Nat.le_add_right _ _), Nat.add_sub_cancel_left]

end

-- ======== edits

/-- What a writing call may do. -/
structure Btf.Edited (b b' : Btf) : Prop where
  wf : b'.Wf
  core : ∃ r, b'.core = b.core.addStrs r ∨ ∃ ts, b'.core = (b.core.addStrs r).setTypes ts
  base : b'.baseBtf.map Btf.norm = b.baseBtf.map Btf.norm
  cache : b'.toBtfOwn = b.toBtfOwn ∨ b'.rawData = none ∧ b'.rawDataSwapped = none

theorem Btf.Interned.edited {b b' : Btf} (h : b.Interned b') : b.Edited b' := by
  obtain ⟨r, hr⟩ := h.grown
  exact ⟨h.wf, ⟨r, Or.inl hr⟩, h.base, h.cache⟩

theorem Btf.Edited.refl {b : Btf} (hw : b.Wf) : b.Edited b :=
  (Btf.Looked.interned (Btf.Looked.refl b) hw).edited

theorem Btf.Edited.trans {b b' b'' : Btf} (h : b.Edited b')
    (h' : b'.Edited b'') : b.Edited b'' := by
  refine ⟨h'.wf, ?_, h'.base.trans h.base, ?_⟩
  · obtain ⟨r, hr⟩ := h.core
    obtain ⟨r', hr'⟩ := h'.core
    refine ⟨r ++ r', ?_⟩
    rw [← Btf.addStrs_addStrs]
    rcases hr with hr | ⟨ts, hr⟩
    · rw [hr] at hr'
      exact hr'
    rw [hr] at hr'
    right
    rcases hr' with hr' | ⟨ts', hr'⟩
    · exact ⟨ts, by rw [hr', Btf.setTypes_addStrs]⟩
    · exact ⟨ts', by rw [hr', Btf.setTypes_addStrs, Btf.setTypes_setTypes]⟩
  · rcases h'.cache with ho | hn
    · rw [ho]
      exact h.cache
    · exact Or.inr hn

/-- Replacing the type section of an object without cached blobs. -/
theorem Btf.edited_setTypes {b : Btf} (hw : b.Wf) {ts : List BtfType}
    (hts : Btf.Section ts) (hc : b.rawData = none ∧ b.rawDataSwapped = none) :
    b.Edited (b.setTypes ts) := by
  refine ⟨hw.setTypes hts, ⟨[], Or.inr ⟨ts, ?_⟩⟩, rfl, Or.inr hc⟩
  rw [Btf.core_addStrs_nil, Btf.core_setTypes]

theorem Btf.strByOffset_setTypes (ts : List BtfType) (b : Btf) (off : Nat) :
    (b.setTypes ts).strByOffset off = b.strByOffset off := by
  have hlen : (b.setTypes ts).hdr.strLen = b.hdr.strLen :=
    BtfHeader.withTypeLen_strLen _ _ _
  rw [Btf.strByOffset_eq, Btf.strByOffset_eq, hlen]
  rfl

theorem Btf.Edited.strByOffset {b b' : Btf} (hw : b.Wf) (h : b.Edited b')
    {off : Nat} {x : CStr} (hx : b.strByOffset off = some x) :
    b'.strByOffset off = some x := by
  obtain ⟨r, hr⟩ := h.core
  rw [← h.wf.strByOffset_core]
  rcases hr with hr | ⟨ts, hr⟩
  · rw [hr]
    exact hw.strByOffset_addStrs hx r
  · rw [hr, Btf.strByOffset_setTypes]
    exact hw.strByOffset_addStrs hx r

theorem Btf.Edited.baseFinds {b b' : Btf} (hw : b.Wf) (h : b.Edited b')
    (hf : b.BaseFinds) : b'.BaseFinds :=
  hf.mono h.base fun _ _ hx => h.strByOffset hw hx

end Libbpf
