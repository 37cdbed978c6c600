/-
Serialization: `btf_get_raw_data` and its two caches.

A parsed object still has the (native) blob it was parsed from; a
modified one has none until it is asked for. The blob in the other byte
order is cached separately, but both share `raw_size`. Regenerating
writes the header copy as it stands, then the type, layout and string
sections back to back, whatever offsets the header states.

The total is computed in 32 bits. When it does not fit, the buffer is
too short for the copies that follow: a fault.

Every call that changes an object drops both blobs, so one that is kept is
never that of an earlier state (`Coherent`), and the records of a blob read
back in either byte order.
-/
import Libbpf.Btf.Calls

namespace Libbpf

open Lib List

/-- The unwrapped sum behind `data_sz`. -/
def Btf.fullSz (btf : Btf) : Nat :=
  btf.hdr.hdrLen + btf.hdr.typeLen + btf.hdr.strLen
    + if btf.layout.isSome then btf.hdr.layoutLen else 0

/-- The header bytes of a fresh blob. -/
def btfRawHdr (host : ByteOrder) (btf : Btf) (swapEndian : Bool) : Bytes :=
  let n := min 32 btf.hdr.hdrLen
  let p := (wrHdr host btf.hdr).take n ++ List.replicate (btf.fullSz - n) 0
  let p := if swapEndian then btfBswapHdr host p btf.hdr.hdrLen else p
  p.take btf.hdr.hdrLen

/-- A type as written: the rest is swapped while the info word is still
native, the fixed words after it. -/
def btfRawType (swapEndian : Bool) (t : BtfType) : Res BtfType :=
  if swapEndian then do
    let t ← btfBswapTypeRest t
    return btfBswapTypeBase t
  else .ok t

/-- The fresh blob of `btf_get_raw_data`; a kind that cannot be swapped
makes it return NULL, reported as `ENOMEM`. -/
def btfRawFresh (host : ByteOrder) (btf : Btf) (swapEndian : Bool) : Res Bytes := do
  let dataSz := btf.fullSz % 2 ^ 32
  -- the copies below fill `fullSz` bytes, the header swap at least 24
  if dataSz < btf.fullSz ∨ swapEndian = true ∧ dataSz < 24 then .error .fault
  let types ← match btf.types.mapM (btfRawType swapEndian) with
    | .ok types => .ok types
    | .error _ => fail ENOMEM
  let layout := btf.layout.getD []
  let layout := if swapEndian then layout.map BtfLayout.bswap else layout
  return btfRawHdr host btf swapEndian ++ (types.flatMap (BtfType.bytes host)).take btf.hdr.typeLen
    ++ (layout.flatMap (BtfLayout.bytes host)).take btf.hdr.layoutLen
    ++ btf.strsData.take btf.hdr.strLen

/-- `btf_get_raw_data`: the buffer and the size it stores. -/
def btfGetRawData (host : ByteOrder) (btf : Btf) (swapEndian : Bool) : Res (Bytes × Nat) :=
  match if swapEndian then btf.rawDataSwapped else btf.rawData with
  | some data => .ok (data, btf.rawSize)
  | none => do
    let data ← btfRawFresh host btf swapEndian
    return (data, btf.fullSz % 2 ^ 32)

/-- `btf__raw_data`: the buffer and the size handed to the caller. -/
def Btf.getRawData (host : ByteOrder) : Run Btf (Bytes × Nat) := do
  let btf ← get
  let (data, dataSz) ← liftRes (btfGetRawData host btf btf.swappedEndian)
  set (if btf.swappedEndian then
      { btf with rawSize := dataSz, rawDataSwapped := some data }
    else { btf with rawSize := dataSz, rawData := some data } : Btf)
  return (data, dataSz)

/-- `enum btf_endianness`. -/
abbrev BtfEndianness := ByteOrder

/-- `btf__endianness`. -/
def Btf.endianness (host : ByteOrder) (btf : Btf) : BtfEndianness :=
  if btf.swappedEndian then host.other else host

/-- `btf__set_endianness` with one of the two valid values. -/
def Btf.setEndianness (host : ByteOrder) (endian : BtfEndianness) (btf : Btf) : Btf :=
  if endian = host then
    { btf with swappedEndian := false, rawDataSwapped := none }
  else { btf with swappedEndian := true }

-- ======== the caches

/-- A blob and its size are what serializing the object gives. -/
def Btf.IsRaw (host : ByteOrder) (b : Btf) (swap : Bool) (out : Bytes × Nat) : Prop :=
  btfRawFresh host b swap = .ok out.1 ∧ out.2 = b.fullSz % 2 ^ 32

/-- A blob that is kept is what a fresh one would be. -/
def Btf.Coherent (host : ByteOrder) (b : Btf) : Prop :=
  ∀ swap data, (if swap = true then b.rawDataSwapped else b.rawData) = some data →
    b.IsRaw host swap (data, b.rawSize)

/-- What calls, serializations and changes of the byte order, in any order,
make of `b`. -/
inductive BtfUsed (host : ByteOrder) (b : Btf) : Btf → Prop
  | new : BtfUsed host b b
  | call {b₁ b₂ : Btf} {c : BtfCall} (h : BtfUsed host b b₁) (hg : c.Given b₁)
      (hc : c.Returns b₁ b₂) : BtfUsed host b b₂
  | rawData {b₁ b₂ : Btf} {out : Bytes × Nat} (h : BtfUsed host b b₁)
      (hr : Btf.getRawData host b₁ = .ok out b₂) : BtfUsed host b b₂
  | setEndianness {b₁ : Btf} (endian : BtfEndianness) (h : BtfUsed host b b₁) :
      BtfUsed host b (b₁.setEndianness host endian)

section

variable {host : ByteOrder} {b b₁ b₂ : Btf} {swap : Bool} {out : Bytes × Nat}

/-- The caches and the byte order are no part of what is in order. -/
theorem Btf.Wf.recached (h : b.Wf) (raw swapped : Option Bytes) (size : Nat) (swap : Bool) :
    ({ b with rawData := raw, rawDataSwapped := swapped, rawSize := size,
              swappedEndian := swap } : Btf).Wf := by
  obtain ⟨hdr, ⟨h1, h2, h3, h4, h5⟩, ⟨h6, h7, h8, h9, h10, h11⟩, hl, hid, hoff⟩ := h.own
  exact .mk ⟨hdr, ⟨h1, h2, h3, h4, h5⟩, ⟨h6, h7, h8, h9, h10, h11⟩, hl, hid, hoff⟩ fun _ => h.base

theorem Btf.getRawData_ok (hr : Btf.getRawData host b = .ok out b₁) :
    btfGetRawData host b b.swappedEndian = .ok out
      ∧ b₁ = if b.swappedEndian then { b with rawSize := out.2, rawDataSwapped := some out.1 }
        else { b with rawSize := out.2, rawData := some out.1 } := by
  obtain ⟨_, _, hget, hr⟩ := bind_eq_ok.mp hr
  cases hget
  obtain ⟨p, s, hg, hr⟩ := bind_eq_ok.mp hr
  obtain ⟨hg, rfl⟩ := liftRes_eq_ok.mp hg
  cases hr
  exact ⟨hg, rfl⟩

namespace Btf.Coherent

variable (hc : b.Coherent host)
include hc

theorem edited (he : b.Edited b₁) : b₁.Coherent host := by
  intro swap data hd
  rcases he.cache with ho | ⟨hn, hs⟩
  · obtain ⟨o, base⟩ := b
    obtain ⟨o₁, base₁⟩ := b₁
    cases ho
    exact hc swap data hd
  · rw [hn, hs, ite_self] at hd
    cases hd

theorem isRaw (hg : btfGetRawData host b swap = .ok out) : b.IsRaw host swap out := by
  unfold btfGetRawData at hg
  cases hd : (if swap = true then b.rawDataSwapped else b.rawData) with
  | some data =>
    rw [hd] at hg
    cases hg
    exact hc swap data hd
  | none =>
    rw [hd] at hg
    obtain ⟨data, hfresh, hout⟩ := of_bind_ok hg
    cases hout
    exact ⟨hfresh, rfl⟩

theorem kept (hg : btfGetRawData host b swap = .ok out) :
    (if swap then { b with rawSize := out.2, rawDataSwapped := some out.1 }
      else { b with rawSize := out.2, rawData := some out.1 } : Btf).Coherent host := by
  have hout := hc.isRaw hg
  intro swap' data hd
  cases swap <;> cases swap'
  · cases hd
    exact hout
  · exact ⟨(hc true data hd).1, hout.2⟩
  · exact ⟨(hc false data hd).1, hout.2⟩
  · cases hd
    exact hout

end Btf.Coherent

theorem BtfUsed.coherent (h : BtfUsed host b b₁) (hw : b.Wf) (hc : b.Coherent host) :
    b₁.Wf ∧ b₁.Coherent host := by
  induction h with
  | new => exact ⟨hw, hc⟩
  | call _ hg hr ih =>
    have he := BtfCall.edited _ ih.1 hg
    rw [hr.after] at he
    exact ⟨he.wf, ih.2.edited he⟩
  | rawData _ hr ih =>
    obtain ⟨hg, rfl⟩ := Btf.getRawData_ok hr
    refine ⟨?_, ih.2.kept hg⟩
    split <;> exact ih.1.recached _ _ _ _
  | setEndianness endian _ ih =>
    unfold Btf.setEndianness
    split
    · refine ⟨ih.1.recached _ _ _ _, fun swap data hd => ?_⟩
      cases swap with
      | false => exact ih.2 false data hd
      | true => cases hd
    · exact ⟨ih.1.recached _ _ _ _, ih.2⟩

/-- Whatever was done with an object before, `btf__raw_data` returns the
serialization of what it holds now. -/
theorem raw_data_current (h : BtfUsed host b b₁) (hw : b.Wf) (hc : b.Coherent host)
    (hr : Btf.getRawData host b₁ = .ok out b₂) : b₁.IsRaw host b₁.swappedEndian out :=
  (h.coherent hw hc).2.isRaw (Btf.getRawData_ok hr).1

end

private def emptyBtf : Btf := btfNewEmpty .little 0 false none

private theorem emptyBtf_wf : emptyBtf.Wf := btfNewEmpty_wf .little 0 false nofun

theorem raw_data_current_swapped : ∃ b out b', BtfUsed .little emptyBtf b
    ∧ Btf.getRawData .little b = .ok out b' ∧ b.IsRaw .little b.swappedEndian out := by
  have hc : emptyBtf.Coherent .little := by
    intro swap data hd
    cases swap <;> cases hd
    exact ⟨by decide +kernel, by decide +kernel⟩
  have hused : BtfUsed .little emptyBtf _ := .setEndianness .big .new
  have hok : (value (Btf.getRawData .little (emptyBtf.setEndianness .little .big))).isOk = true := by
    decide +kernel
  cases hr : Btf.getRawData .little (emptyBtf.setEndianness .little .big) with
  | ok out b' => exact ⟨_, out, b', hused, hr, raw_data_current hused emptyBtf_wf hc hr⟩
  | error e b' =>
    rw [hr] at hok
    cases hok

/-- No run of calls, failing ones included, moves a string. -/
theorem btf_calls_strings_stay {b b' : Btf} {cs : List BtfCall} (hcs : BtfCalls b cs b')
    (hw : b.Wf) {off : Nat} {s : CStr} (hs : b.strByOffset off = some s) :
    b'.strByOffset off = some s := by
  induction hcs with
  | done b => exact hs
  | step hg hc _ ih =>
    have he := BtfCall.edited _ hw hg
    rw [hc.after] at he
    exact ih he.wf (he.strByOffset hw hs)

private theorem calls_addPtr : BtfCalls emptyBtf [.addPtr 0] (after (Btf.addPtr 0 emptyBtf)) :=
  .step trivial (Or.inl ⟨1, eq_of_value (v := .ok 1) (by decide +kernel)⟩) (.done _)

theorem btf_calls_strings_stay_added :
    (after (Btf.addPtr 0 emptyBtf)).strByOffset 0 = some CStr.empty :=
  btf_calls_strings_stay calls_addPtr emptyBtf_wf (by decide +kernel)

-- ======== reading records back

/-- A record in one byte order. -/
theorem BtfType.Sized.raw {t : BtfType} (hs : t.Sized) (host : ByteOrder) (swap : Bool) :
    ∃ t', btfRawType swap t = .ok t'
      ∧ t'.bytes host = t.bytes (if swap then host.other else host) := by
  cases swap with
  | false => exact ⟨t, rfl, rfl⟩
  | true =>
    have hrest : btfBswapTypeRest t = .ok { t with rest := t.rest.map bswap32 } := by
      rw [btfBswapTypeRest, hs]
      simp
    refine ⟨_, by rw [btfRawType, if_pos rfl, hrest]; rfl, ?_⟩
    show (t.words.map bswap32).flatMap (u32Bytes host) = _
    rw [flatMap_map]
    exact flatMap_congr fun w _ => u32Bytes_bswap32 host w

theorem mapM_btfRawType {types : List BtfType} (hs : ∀ t ∈ types, t.Sized) (host : ByteOrder)
    (swap : Bool) : ∃ ts, types.mapM (btfRawType swap) = .ok ts
      ∧ typesBytes host ts = typesBytes (if swap then host.other else host) types := by
  induction types with
  | nil => exact ⟨[], rfl, rfl⟩
  | cons t types ih =>
    obtain ⟨t', ht, hb⟩ := (hs t mem_cons_self).raw host swap
    obtain ⟨ts, hts, hbs⟩ := ih fun u hu => hs u (mem_cons_of_mem _ hu)
    refine ⟨t' :: ts, by rw [mapM_cons, ht, hts]; rfl, ?_⟩
    simp only [typesBytes, flatMap_cons] at hbs ⊢
    rw [hb, hbs]

/-- The type section, written in one byte order, is read back as it is in
memory. -/
def Btf.ReadsBack (host : ByteOrder) (b : Btf) (swap : Bool) : Prop :=
  ∃ ts, b.types.mapM (btfRawType swap) = .ok ts
    ∧ btfParseTypes host { b with swappedEndian := swap } (b.hdr.typeLen + 1)
      (typesBytes host ts) 0 0 = .ok (b.types, b.typeOffs)

end Libbpf
