/-
Two views of an object, each forgetting what its readers cannot see.

Operations rebuild caches and indexes all the time: a lookup in a split
object may split up its bases. `norm` is the object with every level that
can be made modifiable made so, caches dropped; two objects with one
`norm` behave alike under every string operation. `core` also forgets
the string index and what lies past the header's string length; two
objects with one `core` look alike to every lookup.

Writes are stated on the `core`: a string operation appends to its
string data (`addStrs`), the others also replace its type section
(`setTypes`).
-/
import Libbpf.Btf.Modify
import Libbpf.Btf.ParseSpec

namespace Libbpf

open Lib List

-- ======== the views

/-- Apply a change at every level. -/
def Btf.mapChain (f : BtfOwn → BtfOwn) (btf : Btf) : Btf :=
  match btf with
  | ⟨own, none⟩ => ⟨f own, none⟩
  | ⟨own, some base⟩ => ⟨f own, some (Btf.mapChain f base)⟩
termination_by structural btf

/-- Nothing that is only there to be fast. -/
def BtfOwn.bare (o : BtfOwn) : BtfOwn :=
  { o with
    rawData := none
    rawDataSwapped := none
    rawSize := 0
    namedStartId := 0
    strsDeduped := false }

/-- `btf_ensure_modifiable` refuses. -/
def BtfOwn.sealed (o : BtfOwn) : Bool :=
  match o.strs with
  | .raw _ => o.hasHdrExtra
  | .set _ => false

/-- The string set of a level, once it has one. -/
def BtfOwn.index (o : BtfOwn) : Strset :=
  match o.strs with
  | .raw data => Strset.new BTF_MAX_STR_OFFSET data
  | .set ss => ss

/-- The view of the string operations. -/
def Btf.norm : Btf → Btf := Btf.mapChain fun o =>
  { o.bare with strs := if o.sealed then o.strs else .set o.index }

/-- The view of the lookups. -/
def Btf.core : Btf → Btf := Btf.mapChain fun o =>
  { o.bare with strs := .raw (o.strs.data.take o.hdr.strLen) }

theorem Btf.mapChain_own (f : BtfOwn → BtfOwn) (btf : Btf) :
    (btf.mapChain f).toBtfOwn = f btf.toBtfOwn := by
  match btf with
  | ⟨_, none⟩ => rfl
  | ⟨_, some _⟩ => rfl

theorem Btf.mapChain_base (f : BtfOwn → BtfOwn) (btf : Btf) :
    (btf.mapChain f).baseBtf = btf.baseBtf.map (Btf.mapChain f) := by
  match btf with
  | ⟨_, none⟩ => rfl
  | ⟨_, some _⟩ => rfl

theorem Btf.mapChain_eq_iff {f g : BtfOwn → BtfOwn} {b b' : Btf} :
    b.mapChain f = b'.mapChain g ↔ f b.toBtfOwn = g b'.toBtfOwn
      ∧ b.baseBtf.map (Btf.mapChain f) = b'.baseBtf.map (Btf.mapChain g) := by
  refine ⟨fun h => ?_, fun h => Btf.ext_own ?_ ?_⟩
  · rw [← Btf.mapChain_own f, ← Btf.mapChain_own g, ← Btf.mapChain_base f, ← Btf.mapChain_base g, h]
    exact ⟨rfl, rfl⟩
  · rw [Btf.mapChain_own, Btf.mapChain_own, h.1]
  · rw [Btf.mapChain_base, Btf.mapChain_base, h.2]

theorem Btf.mapChain_mapChain {f g h : BtfOwn → BtfOwn} (hfg : ∀ o, g (f o) = h o) (btf : Btf) :
    (btf.mapChain f).mapChain g = btf.mapChain h := by
  induction btf using Btf.induct with
  | h own base ih =>
    refine Btf.ext_own ?_ ?_
    · rw [Btf.mapChain_own, Btf.mapChain_own, Btf.mapChain_own, hfg]
    · cases base with
      | none => rfl
      | some b => exact congrArg some (ih b rfl)

theorem BtfOwn.index_data (o : BtfOwn) : o.index.strsData = o.strs.data := by
  unfold BtfOwn.index
  cases o.strs <;> rfl

/-- The lookups' view factors through the string operations' one. -/
theorem Btf.core_norm (btf : Btf) : btf.norm.core = btf.core := by
  apply Btf.mapChain_mapChain
  intro o
  have hdata : (if o.sealed then o.strs else .set o.index : BtfStrs).data = o.strs.data := by
    split
    · rfl
    · exact o.index_data
  simp only [hdata]
  rfl

theorem Btf.core_own (btf : Btf) : btf.core.toBtfOwn = { btf.toBtfOwn.bare with
        strs := .raw (btf.strs.data.take btf.hdr.strLen) } :=
  Btf.mapChain_own _ btf

theorem Btf.core_base (btf : Btf) : btf.core.baseBtf = btf.baseBtf.map Btf.core :=
  Btf.mapChain_base _ btf

theorem Btf.norm_own (btf : Btf) : btf.norm.toBtfOwn = { btf.toBtfOwn.bare with
        strs := if btf.sealed then btf.strs else .set btf.index } :=
  Btf.mapChain_own _ btf

theorem Btf.norm_base (btf : Btf) : btf.norm.baseBtf = btf.baseBtf.map Btf.norm :=
  Btf.mapChain_base _ btf

section

variable (btf : Btf)

@[simp] theorem Btf.core_hdr : btf.core.hdr = btf.hdr := by
  rw [btf.core_own]; rfl

@[simp] theorem Btf.core_types : btf.core.types = btf.types := by
  rw [btf.core_own]; rfl

@[simp] theorem Btf.core_typeOffs : btf.core.typeOffs = btf.typeOffs := by
  rw [btf.core_own]; rfl

@[simp] theorem Btf.core_startId : btf.core.startId = btf.startId := by
  rw [btf.core_own]; rfl

@[simp] theorem Btf.core_startStrOff : btf.core.startStrOff = btf.startStrOff := by
  rw [btf.core_own]; rfl

@[simp] theorem Btf.core_layout : btf.core.layout = btf.layout := by
  rw [btf.core_own]; rfl

@[simp] theorem Btf.core_strs : btf.core.strs = .raw (btf.strsData.take btf.hdr.strLen) := by
  rw [btf.core_own]

theorem Btf.core_strsData : btf.core.strsData = btf.strsData.take btf.hdr.strLen := by
  rw [Btf.strsData, Btf.core_strs]
  rfl

@[simp] theorem Btf.core_typeCnt : btf.core.typeCnt = btf.typeCnt := by
  simp [Btf.typeCnt, Btf.nrTypes]

end

-- ======== lookups

theorem Btf.core_startIdOn (base : Option Btf) :
    Btf.startIdOn (base.map Btf.core) = Btf.startIdOn base := by
  cases base with
  | none => rfl
  | some b => exact b.core_typeCnt

theorem Btf.core_startStrOffOn (base : Option Btf) :
    Btf.startStrOffOn (base.map Btf.core) = Btf.startStrOffOn base := by
  cases base with
  | none => rfl
  | some b => simp [Btf.startStrOffOn]

theorem btfTypeById_core (btf : Btf) (id : Nat) : btfTypeById btf.core id = btfTypeById btf id := by
  induction btf using Btf.induct with
  | h own base ih =>
    rw [btfTypeById_eq, btfTypeById_eq, Btf.core_base, Btf.core_startId,
      Btf.core_typeOffs, Btf.core_types]
    cases base with
    | none => rfl
    | some b => rw [Option.map_some, Option.bind_some, ih b rfl]; rfl

theorem Btf.typeById_core (btf : Btf) (id : Nat) : btf.core.typeById id = btf.typeById id := by
  rw [Btf.typeById, Btf.typeById, btfTypeById_core]
  simp [Btf.nrTypes]

theorem Btf.Wf.strByOffset_core {btf : Btf} (h : btf.Wf) (off : Nat) :
    btf.core.strByOffset off = btf.strByOffset off := by
  induction btf using Btf.induct with
  | h own base ih =>
    rw [Btf.strByOffset_eq, Btf.strByOffset_eq, Btf.core_startStrOff,
      Btf.core_base, Btf.core_hdr, Btf.strsData, Btf.core_strs]
    have hbase : (base.map Btf.core).bind (·.strByOffset off) = base.bind (·.strByOffset off) := by
      cases base with
      | none => rfl
      | some b => exact ih b rfl (h.base rfl)
    simp only [hbase, BtfStrs.data]
    split
    next => rfl
    next =>
      split
      next hlt =>
        -- a string that starts inside the section ends inside it
        have hle : own.hdr.strLen ≤ own.strs.data.length :=
          h.own.strs.strLen_le
        have hin : off - own.startStrOff < (own.strs.data.take own.hdr.strLen).length := by
          rw [length_take]
          omega
        have hcat := h.own.strs.terminated.cstrAt_append hin (own.strs.data.drop own.hdr.strLen)
        rw [take_append_drop] at hcat
        rw [hcat]
      next => rfl

-- ======== well-formedness

theorem Btf.StrsWf.core {btf : Btf} (h : btf.StrsWf) : btf.core.StrsWf := by
  have hle := h.strLen_le
  have hlen : (btf.strsData.take btf.hdr.strLen).length = btf.hdr.strLen := by
    rw [length_take]
    omega
  have hdata : btf.core.strsData = btf.strsData.take btf.hdr.strLen := by
    rw [Btf.strsData, Btf.core_strs]
    rfl
  refine ⟨?_, ?_, ?_, ?_, ?_, ?_⟩
  · rw [Btf.core_hdr, hdata, hlen]
  · rw [hdata]
    have := h.length_le
    omega
  · rw [Btf.core_hdr, hdata, take_take, Nat.min_self]
    exact h.terminated
  · intro hnone
    rw [Btf.core_base, Option.map_eq_none_iff] at hnone
    obtain ⟨hpos, h0⟩ := h.first hnone
    rw [Btf.core_hdr, hdata]
    refine ⟨hpos, ?_⟩
    rw [getD_eq_getElem?_getD, getElem?_take_of_lt hpos]
    exact h0
  · intro data hd
    rw [Btf.core_strs] at hd
    cases hd
    rw [Btf.core_hdr]
    exact hlen
  · intro ss hss
    rw [Btf.core_strs] at hss
    cases hss

/-- One level is well formed when its view is and its strings are. -/
theorem Btf.ownWf_iff_core {btf : Btf} : btf.OwnWf ↔ btf.core.OwnWf ∧ btf.StrsWf := by
  have htypes : btf.core.TypesWf ↔ btf.TypesWf := by
    refine ⟨fun h => ?_, fun h => ?_⟩
    · have := h.offs
      have := h.typeLen
      have := h.fits
      have := h.known
      have := h.cnt
      simp only [Btf.core_hdr, Btf.core_types, Btf.core_typeOffs] at *
      exact ⟨‹_›, ‹_›, ‹_›, ‹_›, ‹_›⟩
    · refine ⟨?_, ?_, ?_, ?_, ?_⟩ <;> simp only [Btf.core_hdr, Btf.core_types, Btf.core_typeOffs]
      exacts [h.offs, h.typeLen, h.fits, h.known, h.cnt]
  have hlay : btf.core.LayoutWf ↔ btf.LayoutWf := by
    unfold Btf.LayoutWf
    rw [Btf.core_layout, Btf.core_hdr]
  have hid : btf.core.startId = Btf.startIdOn btf.core.baseBtf
      ↔ btf.startId = Btf.startIdOn btf.baseBtf := by
    rw [Btf.core_startId, Btf.core_base, Btf.core_startIdOn]
  have hso : btf.core.startStrOff = Btf.startStrOffOn btf.core.baseBtf
      ↔ btf.startStrOff = Btf.startStrOffOn btf.baseBtf := by
    rw [Btf.core_startStrOff, Btf.core_base, Btf.core_startStrOffOn]
  refine ⟨fun h => ⟨⟨?_, htypes.mpr h.types, h.strs.core, hlay.mpr h.layout,
    hid.mpr h.startId, hso.mpr h.startStrOff⟩, h.strs⟩, fun h => ?_⟩
  · rw [Btf.core_hdr]
    exact h.hdr
  · obtain ⟨hc, hs⟩ := h
    have hh := hc.hdr
    rw [Btf.core_hdr] at hh
    exact ⟨hh, htypes.mp hc.types, hs, hlay.mp hc.layout, hid.mp hc.startId, hso.mp hc.startStrOff⟩

-- ======== writes

/-- A view with more string data. -/
def Btf.addStrs (r : Bytes) (btf : Btf) : Btf :=
  { btf with
    strs := .raw (btf.strsData ++ r)
    hdr := { btf.hdr with strLen := btf.hdr.strLen + r.length } }

/-- A view with another type section. -/
def Btf.setTypes (ts : List BtfType) (btf : Btf) : Btf :=
  btfHdrUpdateTypeLen (total BtfType.byteSz ts) { btf with
    types := ts
    typeOffs := offsFrom BtfType.byteSz 0 ts }

theorem Btf.addStrs_addStrs (r r' : Bytes) (btf : Btf) :
    (btf.addStrs r).addStrs r' = btf.addStrs (r ++ r') := by
  refine Btf.ext_own ?_ rfl
  show { btf.toBtfOwn with
      strs := .raw (btf.strsData ++ r ++ r')
      hdr := { btf.hdr with
        strLen := btf.hdr.strLen + r.length + r'.length } } = _
  rw [append_assoc, Nat.add_assoc, ← length_append]
  rfl

section

variable (h : BtfHeader) (n : Nat) (l : Bool)

@[simp] theorem BtfHeader.withTypeLen_layoutLen : (h.withTypeLen n l).layoutLen = h.layoutLen := by
  cases l <;> rfl

@[simp] theorem BtfHeader.withTypeLen_strLen : (h.withTypeLen n l).strLen = h.strLen := by
  cases l <;> rfl

@[simp] theorem BtfHeader.withTypeLen_typeLen : (h.withTypeLen n l).typeLen = n % 2 ^ 32 := by
  cases l <;> rfl

theorem BtfHeader.withTypeLen_withTypeLen (m : Nat) :
    (h.withTypeLen n l).withTypeLen m l = h.withTypeLen m l := by
  cases l <;> rfl

theorem BtfHeader.withTypeLen_withStrLen (m : Nat) : { h.withTypeLen n l with strLen := m }
      = { h with strLen := m }.withTypeLen n l := by
  cases l <;> rfl

end

theorem Btf.OwnWf.addStrs {btf : Btf} (h : btf.OwnWf) {data r : Bytes}
    (hraw : btf.strs = .raw data) (hterm : Terminated (data ++ r))
    (hmax : data.length + r.length ≤ BTF_MAX_STR_OFFSET + 1) :
    (btf.addStrs r).OwnWf := by
  have hlen := h.strs.raw data hraw
  have hdata : btf.strsData = data := by rw [Btf.strsData, hraw]; rfl
  have hdata' : (btf.addStrs r).strsData = data ++ r := by
    rw [← hdata]
    rfl
  have hstrLen : (btf.addStrs r).hdr.strLen = data.length + r.length := by
    rw [hlen]
    rfl
  refine ⟨?_, ⟨h.types.offs, h.types.typeLen, h.types.fits, h.types.known,
    h.types.cnt⟩, ?_, h.layout, h.startId, h.startStrOff⟩
  · have hh := h.hdr
    refine ⟨hh.magic, hh.version, hh.flags, hh.hdrLen, hh.typeOff, hh.typeLen,
      hh.strOff, ?_, hh.layoutOff, hh.layoutLen⟩
    unfold BTF_MAX_STR_OFFSET at hmax
    omega
  · refine ⟨?_, ?_, ?_, ?_, ?_, ?_⟩
    · rw [hdata', hstrLen, length_append]
    · rw [hdata', length_append]
      exact hmax
    · rw [hdata', hstrLen, ← length_append, take_length]
      exact hterm
    · intro hnone
      obtain ⟨hpos, h0⟩ := h.strs.first hnone
      rw [hdata']
      refine ⟨by omega, ?_⟩
      rw [getD_eq_getElem?_getD, getElem?_append_left (by omega), ← getD_eq_getElem?_getD, ← hdata]
      exact h0
    · intro d hd
      cases hd
      rw [hstrLen, hdata, length_append]
    · intro ss hss
      cases hss

/-- A type section that is well formed on its own. -/
structure Btf.Section (ts : List BtfType) : Prop where
  fits : ∀ t ∈ ts, t.Fits
  known : ∀ t ∈ ts, t.kind.known = true → t.Sized
  cnt : ts.length ≤ BTF_MAX_NR_TYPES
  len : total BtfType.byteSz ts < 2 ^ 32

theorem Btf.OwnWf.setTypes {btf : Btf} (h : btf.OwnWf) {ts : List BtfType}
    (hts : Btf.Section ts) : (btf.setTypes ts).OwnWf := by
  have hh := h.hdr
  refine ⟨?_, ⟨rfl, ?_, hts.fits, hts.known, hts.cnt⟩, ?_, ?_, h.startId, h.startStrOff⟩
  · show (btf.hdr.withTypeLen _ btf.layout.isSome).Fits
    cases btf.layout.isSome with
    | true =>
      exact ⟨hh.magic, hh.version, hh.flags, hh.hdrLen, hh.typeOff,
        Nat.mod_lt _ (by decide), Nat.mod_lt _ (by decide), hh.strLen,
        Nat.mod_lt _ (by decide), hh.layoutLen⟩
    | false =>
      exact ⟨hh.magic, hh.version, hh.flags, hh.hdrLen, hh.typeOff,
        Nat.mod_lt _ (by decide), Nat.mod_lt _ (by decide), hh.strLen,
        hh.layoutOff, hh.layoutLen⟩
  · show (btf.hdr.withTypeLen _ _).typeLen = _
    rw [BtfHeader.withTypeLen_typeLen]
    exact Nat.mod_eq_of_lt hts.len
  · have hs := h.strs
    have hl : (btf.setTypes ts).hdr.strLen = btf.hdr.strLen :=
      BtfHeader.withTypeLen_strLen _ _ _
    refine ⟨?_, hs.length_le, ?_, ?_, ?_, hs.set⟩
    · rw [hl]
      exact hs.strLen_le
    · rw [hl]
      exact hs.terminated
    · rw [hl]
      exact hs.first
    · rw [hl]
      exact hs.raw
  · have hl := h.layout
    unfold Btf.LayoutWf at hl ⊢
    simp only [Btf.setTypes, btfHdrUpdateTypeLen, BtfHeader.withTypeLen_layoutLen]
    exact hl

-- ======== strings in range

/-- Offset 0 is the empty string. -/
theorem Btf.Wf.strByOffset_zero {b : Btf} (h : b.Wf) :
    b.strByOffset 0 = some CStr.empty ∧ 0 < b.startStrOff + b.hdr.strLen := by
  induction b using Btf.induct with
  | h own base ih =>
    have hso := h.own.startStrOff
    rw [Btf.strByOffset_eq]
    cases base with
    | none =>
      have h0 : own.startStrOff = 0 := hso
      obtain ⟨hpos, hfirst⟩ := h.own.strs.first rfl
      have hle := h.own.strs.strLen_le
      rw [h0, if_pos hpos]
      refine ⟨congrArg some (Subtype.ext ?_), by omega⟩
      -- the data starts with a terminator
      show cstr ((own.strs.data).drop 0) = []
      cases hd : own.strs.data with
      | nil =>
        rw [Btf.strsData, hd] at hle
        exact absurd hle (Nat.not_le_of_lt hpos)
      | cons c cs =>
        rw [Btf.strsData, hd] at hfirst
        have hc : c = 0 := hfirst
        rw [hc]
        rfl
    | some b =>
      obtain ⟨hb, hpos⟩ := ih b rfl (h.base rfl)
      have hs : own.startStrOff = b.hdr.strLen + b.startStrOff := hso
      dsimp only
      rw [if_pos (by omega)]
      exact ⟨hb, by omega⟩

/-- Every offset below the end of the strings is some string. -/
theorem Btf.Wf.strByOffset_isSome {b : Btf} (h : b.Wf) {off : Nat}
    (hlt : off < b.startStrOff + b.hdr.strLen) :
    ∃ s, b.strByOffset off = some s := by
  induction b using Btf.induct with
  | h own base ih =>
    rw [Btf.strByOffset_eq]
    by_cases hlo : off < own.startStrOff
    · rw [if_pos hlo]
      have hso := h.own.startStrOff
      cases base with
      | none =>
        have h0 : own.startStrOff = 0 := hso
        omega
      | some b =>
        have hs : own.startStrOff = b.hdr.strLen + b.startStrOff := hso
        exact ih b rfl (h.base rfl) (by omega)
    · rw [if_neg hlo]
      dsimp only at hlt ⊢
      rw [if_pos (by omega)]
      exact ⟨_, rfl⟩

end Libbpf
