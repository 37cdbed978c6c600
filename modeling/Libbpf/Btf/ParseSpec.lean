/-
What `btf_new` accepts, and what it makes of it.

`BtfInput` names what an input says (its order, the header length it
states, its layout array and its types) and `BtfInput.Ok` when the
decoder accepts it; `btfDecode_iff` says that the decoder returns the
object of an acceptable input and nothing else. The object is well
formed (`btfDecode_wf`).
-/
import Libbpf.Btf.Image

namespace Libbpf

open Lib List

-- ======== the decoder

/-- A layout section of `len` bytes, stored as `b`: absent, or an array. -/
def LayoutIs (o : ByteOrder) (len : Nat) (b : Bytes) : Option (List BtfLayout) → Prop
  | none => len = 0
  | some l => len = 4 * l.length ∧ l ≠ [] ∧ (∀ e ∈ l, e.Fits) ∧ b = layoutBytes o l

theorem LayoutIs.len {o : ByteOrder} {len : Nat} {b : Bytes}
    {layout : Option (List BtfLayout)} (h : LayoutIs o len b layout) :
    len = 4 * (layout.getD []).length := by
  cases layout with
  | none => exact h
  | some l => exact h.1

/-- What an input says: the order it is in, the header length it states,
its layout array and its types. -/
structure BtfInput where
  swapped : Bool
  hdrLen : Nat
  layout : Option (List BtfLayout)
  types : List BtfType

namespace BtfInput

variable (host : ByteOrder) (addr : Nat) (data : Bytes) (base : Option Btf) (i : BtfInput)

/-- The header copy. -/
def hdr : BtfHeader :=
  rdHdr host ((hdrRaw host data i.swapped i.hdrLen).take (min i.hdrLen 32))

/-- The byte order of the input. -/
def order : ByteOrder := if i.swapped then host.other else host

/-- The input brought to native order in place. -/
def raw : Bytes :=
  if i.swapped then
    patch (patch (btfBswapHdr host data i.hdrLen)
        ((i.hdr host data).hdrLen + (i.hdr host data).layoutOff)
        (layoutBytes host (i.layout.getD [])))
      ((i.hdr host data).hdrLen + (i.hdr host data).typeOff)
      (typesBytes host i.types)
  else data

/-- The object the decoder builds. -/
def btf : Btf :=
  { btfAlloc addr data base with
    rawData := some (i.raw host data)
    swappedEndian := i.swapped
    hdr := i.hdr host data
    types := i.types
    typeOffs := offsFrom BtfType.byteSz 0 i.types
    strs := .raw (slice data ((i.hdr host data).hdrLen + (i.hdr host data).strOff)
      (i.hdr host data).strLen)
    hasHdrExtra := (((hdrRaw host data i.swapped i.hdrLen).take i.hdrLen).drop 32).any (· != 0)
    layout := i.layout }

/-- The input is one the decoder accepts. -/
structure Ok : Prop where
  size : 24 ≤ data.length
  len : btfHdrLen host data = .ok (i.swapped, i.hdrLen)
  len_le : i.hdrLen ≤ data.length
  secs : SecsOk (i.hdr host data) (data.length - i.hdrLen)
  strSec : btfParseStrSec (i.btf host addr data base) = .ok ()
  layout : LayoutIs (i.order host) (i.hdr host data).layoutLen
    (slice data ((i.hdr host data).hdrLen + (i.hdr host data).layoutOff)
      (i.hdr host data).layoutLen) i.layout
  types : slice data ((i.hdr host data).hdrLen + (i.hdr host data).typeOff)
    (i.hdr host data).typeLen = typesBytes (i.order host) i.types
  parses : ∀ t ∈ i.types, (i.btf host addr data base).Parses t
  cnt : i.types.length ≤ BTF_MAX_NR_TYPES

end BtfInput

theorem Btf.Parses.congr {btf btf' : Btf} {t : BtfType} (h : btf.Parses t)
    (hl : btfLayoutFor btf = btfLayoutFor btf')
    (hs : btf.swappedEndian = btf'.swappedEndian) : btf'.Parses t :=
  ⟨h.fits, (btfTypeSize_layout t hl).symm.trans h.sized, fun h' => h.known (hs.trans h')⟩

/-- The layout section of an object that has none yet. -/
theorem btfParseLayoutSec_iff {host : ByteOrder} {btf btf' : Btf}
    {raw : Bytes} (hraw : btf.rawData = some raw) (hnone : btf.layout = none)
    (hfit : btf.hdr.layoutLen ≠ 0 →
      btf.hdr.hdrLen + btf.hdr.layoutOff + btf.hdr.layoutLen ≤ raw.length) :
    btfParseLayoutSec host btf = .ok btf' ↔ ∃ layout : Option (List BtfLayout),
      LayoutIs (btf.dataOrder host) btf.hdr.layoutLen
        (slice raw (btf.hdr.hdrLen + btf.hdr.layoutOff) btf.hdr.layoutLen)
        layout
      ∧ btf' = { btf with
          layout := layout
          rawData := some (if btf.swappedEndian then
              patch raw (btf.hdr.hdrLen + btf.hdr.layoutOff) (layoutBytes host (layout.getD []))
            else raw) } := by
  unfold btfParseLayoutSec
  by_cases h0 : btf.hdr.layoutLen = 0
  · rw [if_pos h0]
    have hpatch : (if btf.swappedEndian then
        patch raw (btf.hdr.hdrLen + btf.hdr.layoutOff) (layoutBytes host [])
        else raw) = raw := by
      split
      · exact patch_nil raw _
      · rfl
    have hself : btf = { btf with layout := none, rawData := some raw } :=
      Btf.ext_own (by rw [← hraw, ← hnone]) rfl
    constructor
    · intro h
      cases h
      refine ⟨none, h0, ?_⟩
      rw [Option.getD_none, hpatch]
      exact hself
    · rintro ⟨layout, hl, rfl⟩
      cases layout with
      | none =>
        rw [Option.getD_none, hpatch, ← hself]
      | some l =>
        obtain ⟨hlen, hne, -, -⟩ := hl
        have := length_pos_iff.mpr hne
        omega
  · rw [if_neg h0]
    have hslen : (slice raw (btf.hdr.hdrLen + btf.hdr.layoutOff)
        btf.hdr.layoutLen).length = btf.hdr.layoutLen :=
      slice_length (hfit h0)
    by_cases h4 : btf.hdr.layoutLen % 4 ≠ 0
    · rw [if_pos h4]
      refine ⟨fun h => (fail_ne_ok h).elim, ?_⟩
      rintro ⟨layout, hl, -⟩
      cases layout with
      | none => exact absurd hl h0
      | some l =>
        have := hl.1
        omega
    · rw [if_neg h4]
      -- either way the array is read in the order of the data
      have hread : (if btf.swappedEndian then
          (rdLayout host (btf.hdr.layoutLen / 4) (slice raw (btf.hdr.hdrLen + btf.hdr.layoutOff)
              btf.hdr.layoutLen)).map BtfLayout.bswap
          else rdLayout host (btf.hdr.layoutLen / 4) (slice raw (btf.hdr.hdrLen + btf.hdr.layoutOff)
              btf.hdr.layoutLen))
          = rdLayout (btf.dataOrder host) (btf.hdr.layoutLen / 4)
              (slice raw (btf.hdr.hdrLen + btf.hdr.layoutOff) btf.hdr.layoutLen) := by
        unfold Btf.dataOrder
        split
        · exact map_bswap_rdLayout _ _ _
        · rfl
      have hrawif : ∀ l : List BtfLayout, (if btf.swappedEndian then (some raw).map fun raw =>
              patch raw (btf.hdr.hdrLen + btf.hdr.layoutOff) (l.flatMap (BtfLayout.bytes host))
            else some raw)
          = some (if btf.swappedEndian then
              patch raw (btf.hdr.hdrLen + btf.hdr.layoutOff) (layoutBytes host ((some l).getD []))
            else raw) := by
        intro l
        split <;> rfl
      simp only [Btf.sectionBytes, hraw, Option.getD_some, hread]
      constructor
      · intro h
        cases h
        obtain ⟨hl1, hl2, hl3⟩ := (rdLayout_iff
          (show (slice raw (btf.hdr.hdrLen + btf.hdr.layoutOff)
            btf.hdr.layoutLen).length = 4 * (btf.hdr.layoutLen / 4) by
            omega)).mp rfl
        refine ⟨some _, ⟨by omega, ?_, hl2, hl3⟩, ?_⟩
        · intro hnil
          rw [hnil] at hl1
          simp only [length_nil] at hl1
          omega
        · rw [← hrawif]
      · rintro ⟨layout, hl, rfl⟩
        cases layout with
        | none => exact absurd hl h0
        | some l =>
          obtain ⟨hlen, -, hfits, hbytes⟩ := hl
          rw [(rdLayout_iff (show (slice raw (btf.hdr.hdrLen + btf.hdr.layoutOff)
            btf.hdr.layoutLen).length = 4 * (btf.hdr.layoutLen / 4) by
            omega)).mpr ⟨by omega, hfits, hbytes⟩, ← hrawif]

/-- The type section of an object that has no types yet. -/
theorem btfParseTypeSec_iff {host : ByteOrder} {btf btf' : Btf} {raw : Bytes}
    (hraw : btf.rawData = some raw) :
    btfParseTypeSec host btf = .ok btf' ↔ ∃ types : List BtfType,
      slice raw (btf.hdr.hdrLen + btf.hdr.typeOff) btf.hdr.typeLen
          = typesBytes (btf.dataOrder host) types
        ∧ (∀ t ∈ types, btf.Parses t)
        ∧ types.length ≤ BTF_MAX_NR_TYPES
        ∧ btf' = { btf with
            types := types
            typeOffs := offsFrom BtfType.byteSz 0 types
            rawData := some (if btf.swappedEndian then
                patch raw (btf.hdr.hdrLen + btf.hdr.typeOff) (typesBytes host types)
              else raw) } := by
  have hrawif : ∀ types : List BtfType, (if btf.swappedEndian then (some raw).map fun raw =>
          patch raw (btf.hdr.hdrLen + btf.hdr.typeOff) (types.flatMap (BtfType.bytes host))
        else some raw)
      = some (if btf.swappedEndian then
          patch raw (btf.hdr.hdrLen + btf.hdr.typeOff) (typesBytes host types)
        else raw) := by
    intro types
    split <;> rfl
  simp only [btfParseTypeSec, Btf.sectionBytes, hraw, Option.getD_some, except_bind_eq_ok]
  constructor
  · rintro ⟨⟨types, offs⟩, hp, heq⟩
    obtain ⟨hd, hall, ho, hmax⟩ :=
      (btfParseTypes_iff (Nat.lt_succ_self _)).mp hp
    cases heq
    refine ⟨types, hd, hall, ?_, ?_⟩
    · cases types with
      | nil => exact Nat.zero_le _
      | cons t ts =>
        have := hmax (by simp)
        omega
    · rw [← hrawif, ho]
  · rintro ⟨types, hd, hall, hmax, rfl⟩
    refine ⟨(types, offsFrom BtfType.byteSz 0 types), (btfParseTypes_iff (Nat.lt_succ_self _)).mpr
        ⟨hd, hall, rfl, fun _ => by omega⟩, ?_⟩
    rw [← hrawif]
    rfl

-- -------- where sections start

section

variable {host : ByteOrder} {data : Bytes} {i : BtfInput}

theorem BtfInput.swapped_len (hlen : btfHdrLen host data = .ok (i.swapped, i.hdrLen))
    (hs : i.swapped = true) : 24 ≤ i.hdrLen := by
  rcases btfHdrLen_eq_ok.mp hlen with ⟨-, -, -, h⟩ | ⟨h, -, -⟩
  · exact h
  · rw [hs] at h
    cases h

/-- The stated length, natively. -/
private theorem rdU32_hdrRaw (h24 : 24 ≤ data.length)
    (hlen : btfHdrLen host data = .ok (i.swapped, i.hdrLen)) :
    rdU32 host ((hdrRaw host data i.swapped i.hdrLen).drop 4) = i.hdrLen := by
  rcases btfHdrLen_eq_ok.mp hlen with ⟨hs, -, hl, h⟩ | ⟨hs, -, hl⟩
  · have hw : rdWords host (hdrWords i.hdrLen) ((btfBswapHdr host data i.hdrLen).drop 4)
        = rdWords host.other (hdrWords i.hdrLen) (data.drop 4) :=
      rdWords_btfBswapHdr (by omega)
    have hn : ∃ n, hdrWords i.hdrLen = n + 1 := by
      unfold hdrWords
      split
      · exact ⟨6, rfl⟩
      · exact ⟨4, rfl⟩
    obtain ⟨n, hn⟩ := hn
    rw [hn, rdWords, rdWords, List.cons.injEq] at hw
    rw [hdrRaw, if_pos hs, hw.1, ← hl]
  · rw [hs, hl]
    rfl

theorem BtfInput.hdrLen_le (h24 : 24 ≤ data.length)
    (hlen : btfHdrLen host data = .ok (i.swapped, i.hdrLen)) :
    (i.hdr host data).hdrLen ≤ i.hdrLen := by
  conv_rhs => rw [← rdU32_hdrRaw h24 hlen]
  rw [BtfInput.hdr, rdHdr]
  simp only [drop_take]
  exact rdU32_take_le _ _ _

/-- A header that covers the length field states its own length. -/
theorem BtfInput.hdrLen_eq (h24 : 24 ≤ data.length)
    (hlen : btfHdrLen host data = .ok (i.swapped, i.hdrLen))
    (h8 : 8 ≤ i.hdrLen) : (i.hdr host data).hdrLen = i.hdrLen := by
  conv_rhs => rw [← rdU32_hdrRaw h24 hlen]
  rw [BtfInput.hdr, rdHdr]
  simp only [drop_take]
  exact rdU32_take _ _ (by omega)

theorem hdrRaw_length (hle : i.hdrLen ≤ data.length)
    (hlen : btfHdrLen host data = .ok (i.swapped, i.hdrLen)) :
    (hdrRaw host data i.swapped i.hdrLen).length = data.length := by
  unfold hdrRaw
  split
  next hs =>
    have := hdrWords_le (BtfInput.swapped_len hlen hs)
    exact btfBswapHdr_length (by omega)
  next => rfl

/-- Swapping the header leaves the sections alone. -/
theorem slice_hdrRaw (h24 : 24 ≤ data.length)
    (hlen : btfHdrLen host data = .ok (i.swapped, i.hdrLen)) (off len : Nat) :
    slice (hdrRaw host data i.swapped i.hdrLen) ((i.hdr host data).hdrLen + off) len
      = slice data ((i.hdr host data).hdrLen + off) len := by
  unfold hdrRaw
  split
  next hs =>
    have hL := BtfInput.swapped_len hlen hs
    have := hdrWords_le hL
    have := BtfInput.hdrLen_eq h24 hlen (by omega)
    exact slice_btfBswapHdr (by omega) (by omega)
  next => rfl

end

/-- What the string section check admits. -/
theorem btfParseStrSec_iff {btf : Btf} : btfParseStrSec btf = .ok () ↔
      (btf.baseBtf.isSome = true ∧ btf.hdr.strLen = 0)
        ∨ (0 < btf.hdr.strLen ∧ btf.hdr.strLen ≤ BTF_MAX_STR_OFFSET + 1
          ∧ btf.strsData.getD (btf.hdr.strLen - 1) 0 = 0
          ∧ (btf.baseBtf.isNone = true → btf.strsData.getD 0 0 = 0)) := by
  unfold btfParseStrSec
  by_cases h1 : btf.baseBtf.isSome = true ∧ btf.hdr.strLen = 0
  · simp only [if_pos h1]
    exact ⟨fun _ => Or.inl h1, fun _ => rfl⟩
  simp only [if_neg h1, except_bind_eq_ok, failIf_eq_ok, not_or, not_and, not_not]
  constructor
  · rintro ⟨_, ⟨h2, h3, h4⟩, h5⟩
    exact Or.inr ⟨by omega, by omega, h4, h5⟩
  · rintro (h | ⟨h2, h3, h4, h5⟩)
    · exact absurd h h1
    · exact ⟨(), ⟨by omega, by omega, h4⟩, h5⟩

theorem btfParseStrSec_congr {btf btf' : Btf}
    (h : btfParseStrSec btf = .ok ()) (hb : btf.baseBtf = btf'.baseBtf)
    (hl : btf.hdr.strLen = btf'.hdr.strLen) (hs : btf.strs = btf'.strs) :
    btfParseStrSec btf' = .ok () := by
  have hd : btf.strsData = btf'.strsData := by
    rw [Btf.strsData, hs]
  rw [btfParseStrSec_iff] at h ⊢
  rwa [← hb, ← hl, ← hd]

/-- The object once its header is parsed and its strings are in place. -/
private def hdrBtf (host : ByteOrder) (addr : Nat) (data : Bytes)
    (base : Option Btf) (i : BtfInput) : Btf :=
  { btfAlloc addr data base with
    rawData := some (hdrRaw host data i.swapped i.hdrLen)
    swappedEndian := i.swapped
    hdr := i.hdr host data
    strs := .raw (slice data ((i.hdr host data).hdrLen + (i.hdr host data).strOff)
      (i.hdr host data).strLen)
    hasHdrExtra := (((hdrRaw host data i.swapped i.hdrLen).take i.hdrLen).drop 32).any (· != 0) }

/-- What the header fixes. -/
private structure HdrOk (host : ByteOrder) (data : Bytes) (i : BtfInput) : Prop where
  size : 24 ≤ data.length
  len : btfHdrLen host data = .ok (i.swapped, i.hdrLen)
  len_le : i.hdrLen ≤ data.length
  secs : SecsOk (i.hdr host data) (data.length - i.hdrLen)

private theorem HdrOk.fit {host : ByteOrder} {data : Bytes} {i : BtfInput}
    (h : HdrOk host data i) (hne : (i.hdr host data).layoutLen ≠ 0) :
    (i.hdr host data).hdrLen + (i.hdr host data).layoutOff + (i.hdr host data).layoutLen
      ≤ (hdrRaw host data i.swapped i.hdrLen).length := by
  rw [hdrRaw_length h.len_le h.len]
  have h1 := BtfInput.hdrLen_le h.size h.len
  have h2 := h.len_le
  have h3 := h.secs.strs
  rcases h.secs.layout with h4 | ⟨-, -, h4⟩
  · exact absurd h4 hne
  · omega

/-- Writing the layout back does not touch the type section. -/
private theorem HdrOk.type_slice {host : ByteOrder} {data : Bytes}
    {i : BtfInput} (h : HdrOk host data i) {l : List BtfLayout}
    (hl : (i.hdr host data).layoutLen = 4 * l.length) :
    slice (if i.swapped then
        patch (hdrRaw host data i.swapped i.hdrLen)
          ((i.hdr host data).hdrLen + (i.hdr host data).layoutOff)
          (layoutBytes host l)
        else hdrRaw host data i.swapped i.hdrLen)
        ((i.hdr host data).hdrLen + (i.hdr host data).typeOff)
        (i.hdr host data).typeLen
      = slice data ((i.hdr host data).hdrLen + (i.hdr host data).typeOff)
        (i.hdr host data).typeLen := by
  rw [← slice_hdrRaw h.size h.len]
  split
  next =>
    by_cases h0 : (i.hdr host data).layoutLen = 0
    · have hnil : l = [] := length_eq_zero_iff.mp (by omega)
      rw [hnil]
      exact congrArg (slice · _ _) (patch_nil _ _)
    have hfit := h.fit h0
    apply slice_patch_disjoint
    · rw [layoutBytes_length]
      omega
    · rcases h.secs.layout with h4 | ⟨-, h4, -⟩
      · exact absurd h4 h0
      · omega
  next => rfl

/-- The in-place copy after both passes. -/
private theorem raw_eq {host : ByteOrder} {data : Bytes} {i : BtfInput} : (if i.swapped then
        patch (if i.swapped then
            patch (hdrRaw host data i.swapped i.hdrLen)
              ((i.hdr host data).hdrLen + (i.hdr host data).layoutOff)
              (layoutBytes host (i.layout.getD []))
            else hdrRaw host data i.swapped i.hdrLen)
          ((i.hdr host data).hdrLen + (i.hdr host data).typeOff)
          (typesBytes host i.types)
      else (if i.swapped then
            patch (hdrRaw host data i.swapped i.hdrLen)
              ((i.hdr host data).hdrLen + (i.hdr host data).layoutOff)
              (layoutBytes host (i.layout.getD []))
            else hdrRaw host data i.swapped i.hdrLen)) = i.raw host data := by
  unfold BtfInput.raw hdrRaw
  cases i.swapped <;> rfl

/-- The layout and type passes after the header. -/
private theorem sections_iff {host : ByteOrder} {addr : Nat} {data : Bytes}
    {base : Option Btf} {btf : Btf} {i₀ : BtfInput} (h : HdrOk host data i₀) :
    (∃ b3, btfParseLayoutSec host (hdrBtf host addr data base i₀) = .ok b3
        ∧ btfParseTypeSec host b3 = .ok btf)
      ↔ ∃ layout types, let i : BtfInput := { i₀ with layout, types }
        LayoutIs (i.order host) (i.hdr host data).layoutLen
            (slice data ((i.hdr host data).hdrLen + (i.hdr host data).layoutOff)
              (i.hdr host data).layoutLen) layout
        ∧ slice data ((i.hdr host data).hdrLen + (i.hdr host data).typeOff)
            (i.hdr host data).typeLen = typesBytes (i.order host) types
        ∧ (∀ t ∈ types, (i.btf host addr data base).Parses t)
        ∧ types.length ≤ BTF_MAX_NR_TYPES
        ∧ btf = i.btf host addr data base := by
  have hslice := slice_hdrRaw h.size h.len (i₀.hdr host data).layoutOff (i₀.hdr host data).layoutLen
  constructor
  · rintro ⟨b3, h3, h4⟩
    obtain ⟨layout, hl, rfl⟩ := (btfParseLayoutSec_iff rfl rfl h.fit).mp h3
    obtain ⟨types, hd, hall, hmax, rfl⟩ := (btfParseTypeSec_iff rfl).mp h4
    refine ⟨layout, types, ?_, ?_, ?_, hmax, ?_⟩
    · exact hslice ▸ hl
    · exact (h.type_slice hl.len).symm.trans hd
    · exact fun t ht => (hall t ht).congr rfl rfl
    · refine Btf.ext_own ?_ rfl
      rw [BtfInput.btf, ← raw_eq]
      rfl
  · rintro ⟨layout, types, hl, hd, hall, hmax, rfl⟩
    refine ⟨_, (btfParseLayoutSec_iff rfl rfl h.fit).mpr
      ⟨layout, ?_, rfl⟩, (btfParseTypeSec_iff rfl).mpr
        ⟨types, ?_, ?_, hmax, ?_⟩⟩
    · exact hslice.symm ▸ hl
    · exact (h.type_slice hl.len).trans hd
    · exact fun t ht => (hall t ht).congr rfl rfl
    · refine Btf.ext_own ?_ rfl
      rw [BtfInput.btf, ← raw_eq]
      rfl

/-- The decoder returns the object of an acceptable input. -/
theorem btfDecode_iff {host : ByteOrder} {addr : Nat} {data : Bytes}
    {base : Option Btf} {btf : Btf} :
    btfDecode host addr data base = .ok btf ↔ ∃ i : BtfInput, i.Ok host addr data base
        ∧ btf = i.btf host addr data base := by
  simp only [btfDecode, except_bind_eq_ok]
  constructor
  · rintro ⟨b1, h1, _, h2, h3⟩
    obtain ⟨swapped, hdrLen, h24, hlen, hle, hsecs, rfl⟩ :=
      (btfParseHdr_iff rfl rfl).mp h1
    rw [btfCheckSecs_iff] at hsecs
    have h : HdrOk host data ⟨swapped, hdrLen, none, []⟩ :=
      ⟨h24, hlen, hle, hsecs⟩
    have hb2 := slice_hdrRaw h.size h.len
      (BtfInput.hdr host data ⟨swapped, hdrLen, none, []⟩).strOff
      (BtfInput.hdr host data ⟨swapped, hdrLen, none, []⟩).strLen
    simp only [BtfInput.hdr] at hb2
    simp only [Btf.sectionBytes, Option.getD_some, hb2] at h2 h3
    obtain ⟨layout, types, hl, hd, hall, hmax, rfl⟩ := (sections_iff h).mp h3
    exact ⟨⟨swapped, hdrLen, layout, types⟩, ⟨h24, hlen, hle, hsecs,
      btfParseStrSec_congr h2 rfl rfl rfl, hl, hd, hall, hmax⟩, rfl⟩
  · rintro ⟨i, hi, rfl⟩
    have h : HdrOk host data i := ⟨hi.size, hi.len, hi.len_le, hi.secs⟩
    have hb2 := slice_hdrRaw h.size h.len (i.hdr host data).strOff (i.hdr host data).strLen
    refine ⟨_, (btfParseHdr_iff rfl rfl).mpr ⟨i.swapped, i.hdrLen, hi.size,
      hi.len, hi.len_le, btfCheckSecs_iff.mpr hi.secs, rfl⟩, (), ?_, ?_⟩
    · refine btfParseStrSec_congr hi.strSec rfl rfl ?_
      exact congrArg BtfStrs.raw hb2.symm
    · simp only [BtfInput.hdr] at hb2
      simp only [Btf.sectionBytes, Option.getD_some, hb2]
      exact (sections_iff h).mpr
        ⟨i.layout, i.types, hi.layout, hi.types, hi.parses, hi.cnt, rfl⟩

-- ======== what a decoded object satisfies

theorem rdHdr_fits (o : ByteOrder) (b : Bytes) : (rdHdr o b).Fits :=
  ⟨rdU16_lt o _, byteAt_lt b 2, byteAt_lt b 3, rdU32_lt o _, rdU32_lt o _,
    rdU32_lt o _, rdU32_lt o _, rdU32_lt o _, rdU32_lt o _, rdU32_lt o _⟩

namespace BtfInput.Ok

variable {host : ByteOrder} {addr : Nat} {data : Bytes} {base : Option Btf}
  {i : BtfInput}

/-- A section the header places lies inside the input. -/
theorem section_le (h : i.Ok host addr data base) (off len : Nat)
    (hs : off + len ≤ (i.hdr host data).strOff + (i.hdr host data).strLen) :
    (i.hdr host data).hdrLen + off + len ≤ data.length := by
  have h1 := BtfInput.hdrLen_le h.size h.len
  have h2 := h.len_le
  have h3 := h.secs.strs
  omega

theorem typeLen (h : i.Ok host addr data base) :
    (i.hdr host data).typeLen = total BtfType.byteSz i.types := by
  have hfit := h.section_le (i.hdr host data).typeOff (i.hdr host data).typeLen
    (by have := h.secs.types; omega)
  rw [← typesBytes_length (i.order host), ← h.types, slice_length hfit]

theorem strs_length (h : i.Ok host addr data base) : (i.btf host addr data base).strsData.length
      = (i.btf host addr data base).hdr.strLen :=
  slice_length (h.section_le _ _ (Nat.le_refl _))

theorem typesWf (h : i.Ok host addr data base) : (i.btf host addr data base).TypesWf :=
  ⟨rfl, h.typeLen, fun t ht => (h.parses t ht).fits,
    fun t ht hk => BtfType.sized_of_known hk (h.parses t ht).sized, h.cnt⟩

theorem sized (h : i.Ok host addr data base) :
    (i.btf host addr data base).Sized := fun t ht => (h.parses t ht).sized

theorem strsWf (h : i.Ok host addr data base) : (i.btf host addr data base).StrsWf := by
  have hlen := h.strs_length
  have hraw : ∀ d, (i.btf host addr data base).strs = .raw d →
      d.length = (i.btf host addr data base).hdr.strLen := by
    intro d hd
    rw [← hlen, Btf.strsData, hd, BtfStrs.data]
  refine ⟨Nat.le_of_eq hlen.symm, ?_, ?_, ?_, hraw, ?_⟩
  · rw [hlen]
    rcases btfParseStrSec_iff.mp h.strSec with ⟨-, h0⟩ | ⟨-, hmax, -⟩
    · rw [h0]
      exact Nat.zero_le _
    · exact hmax
  · rw [take_of_length_le (Nat.le_of_eq hlen)]
    rcases btfParseStrSec_iff.mp h.strSec with ⟨-, h0⟩ | ⟨hpos, -, hend, -⟩
    · left
      exact length_eq_zero_iff.mp (hlen.trans h0)
    right
    rw [getLast?_eq_getElem?, getElem?_eq_getElem (by omega)]
    rw [← hlen, getD_eq_getElem?_getD, getElem?_eq_getElem (by omega), Option.getD_some] at hend
    rw [hend]
  · intro hnone
    rcases btfParseStrSec_iff.mp h.strSec with ⟨hsome, -⟩ | ⟨hpos, -, -, h0⟩
    · rw [hnone] at hsome
      cases hsome
    · exact ⟨hpos, h0 (by rw [hnone]; rfl)⟩
  · intro ss hss
    cases hss

theorem ownWf (h : i.Ok host addr data base) : (i.btf host addr data base).OwnWf := by
  refine ⟨rdHdr_fits host _, h.typesWf, h.strsWf, ?_, rfl, rfl⟩
  have hl := h.layout
  change match i.layout with
    | none => (i.hdr host data).layoutLen = 0
    | some l => (i.hdr host data).layoutLen = 4 * l.length ∧ l ≠ [] ∧ ∀ e ∈ l, e.Fits
  cases hlay : i.layout with
  | none =>
    rw [hlay] at hl
    exact hl
  | some l =>
    rw [hlay] at hl
    exact ⟨hl.1, hl.2.1, hl.2.2.1⟩

end BtfInput.Ok

/-- A decoded object is well formed if its base is. -/
theorem btfDecode_wf {host : ByteOrder} {addr : Nat} {data : Bytes} {base : Option Btf} {btf : Btf}
    (hbase : ∀ b, base = some b → b.Wf) (h : btfDecode host addr data base = .ok btf) : btf.Wf := by
  obtain ⟨i, hi, rfl⟩ := btfDecode_iff.mp h
  exact .mk hi.ownWf hbase

theorem btfDecode_sized {host : ByteOrder} {addr : Nat} {data : Bytes}
    {base : Option Btf} {btf : Btf} (h : btfDecode host addr data base = .ok btf) : btf.Sized := by
  obtain ⟨i, hi, rfl⟩ := btfDecode_iff.mp h
  exact hi.sized

end Libbpf
