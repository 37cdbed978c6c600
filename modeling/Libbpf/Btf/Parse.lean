/-
`btf_new`: decoding an untrusted byte string into an object.

The source parses in place. It copies the input, swaps the header, the
layout flags and the type records to native order where they lie when
the magic says so, and lets the section pointers point into the copy.
Here the copy is `rawData`, the swapped regions are written back to it,
and each section is also kept decoded. `host` is the byte order of the
machine: all words are read in it, and swapped when the input has the
other one.

`btfDecode` is everything up to the validation; `btfNew` validates what
it returns. Only the log texts of the source are left out.
-/
import Libbpf.Btf.Object

namespace Libbpf

open Lib

def ENOTSUP : Int := 95

-- ======== byte images

/-- A `struct btf_header` in memory; bytes past the end read as zero,
as they do in the zeroed copy a short header leaves. -/
def rdHdr (o : ByteOrder) (b : Bytes) : BtfHeader where
  magic := rdU16 o b
  version := byteAt b 2
  flags := byteAt b 3
  hdrLen := rdU32 o (b.drop 4)
  typeOff := rdU32 o (b.drop 8)
  typeLen := rdU32 o (b.drop 12)
  strOff := rdU32 o (b.drop 16)
  strLen := rdU32 o (b.drop 20)
  layoutOff := rdU32 o (b.drop 24)
  layoutLen := rdU32 o (b.drop 28)

/-- The memory image of a `struct btf_header`. -/
def wrHdr (o : ByteOrder) (h : BtfHeader) : Bytes :=
  u16Bytes o h.magic ++ [UInt8.ofNat h.version, UInt8.ofNat h.flags]
    ++ wrWords o [h.hdrLen, h.typeOff, h.typeLen, h.strOff, h.strLen, h.layoutOff, h.layoutLen]

/-- `btf_bswap_hdr` on the header at the start of `b`. -/
def btfBswapHdr (o : ByteOrder) (b : Bytes) (hdrLen : Nat) : Bytes :=
  -- the two layout fields are there only in a full-length header
  let n := if hdrLen ≥ 32 then 7 else 5
  u16Bytes o (bswap16 (rdU16 o b)) ++ (b.drop 2).take 2
    ++ wrWords o ((rdWords o n (b.drop 4)).map bswap32) ++ b.drop (4 + 4 * n)

/-- A `struct btf_layout` array of `n` entries. -/
def rdLayout (o : ByteOrder) : Nat → Bytes → List BtfLayout
  | 0, _ => []
  | n + 1, b =>
    ⟨byteAt b 0, byteAt b 1, rdU16 o (b.drop 2)⟩ :: rdLayout o n (b.drop 4)

def BtfLayout.bytes (o : ByteOrder) (l : BtfLayout) : Bytes :=
  [UInt8.ofNat l.infoSz, UInt8.ofNat l.elemSz] ++ u16Bytes o l.flags

/-- `l->flags = bswap_16(l->flags)`. -/
def BtfLayout.bswap (l : BtfLayout) : BtfLayout :=
  { l with flags := bswap16 l.flags }

def BtfType.bytes (o : ByteOrder) (t : BtfType) : Bytes := wrWords o t.words

/-- `btf_bswap_type_base`. -/
def btfBswapTypeBase (t : BtfType) : BtfType :=
  { t with
    nameOff := bswap32 t.nameOff
    info := bswap32 t.info
    size := bswap32 t.size }

/-- `btf_bswap_type_rest`. -/
def btfBswapTypeRest (t : BtfType) : Res BtfType :=
  match btfBswapRestCnt t.kind t.vlen with
  | some n =>
    .ok { t with rest := (t.rest.take n).map bswap32 ++ t.rest.drop n }
  | none => fail EINVAL

-- ======== sections

/-- The first half of `btf_parse_hdr`: whether the data is swapped, and
the header length it states. -/
def btfHdrLen (host : ByteOrder) (raw : Bytes) : Res (Bool × Nat) :=
  let magic := rdU16 host raw
  let hdrLen := rdU32 host (raw.drop 4)
  if magic = bswap16 BTF_MAGIC then
    if bswap32 hdrLen < 24 then fail ENOTSUP
    else .ok (true, bswap32 hdrLen)
  else if magic ≠ BTF_MAGIC then fail EINVAL
  else .ok (false, hdrLen)

/-- The second half: the placement of the sections in the `metaLeft`
bytes after the header. -/
def btfCheckSecs (hdr : BtfHeader) (metaLeft : Nat) : Res Unit := do
  failIf (metaLeft < hdr.strOff + hdr.strLen) EINVAL
  failIf (hdr.typeOff + hdr.typeLen > hdr.strOff) EINVAL
  failIf (hdr.typeOff % 4 ≠ 0) EINVAL
  if hdr.layoutLen = 0 then return
  -- the layout section sits between types and strings
  failIf (hdr.layoutOff % 4 ≠ 0) EINVAL
  failIf (hdr.layoutOff < hdr.typeOff + hdr.typeLen) EINVAL
  failIf (hdr.layoutOff + hdr.layoutLen > hdr.strOff ∨ hdr.layoutOff > hdr.strOff) EINVAL

/-- `btf_parse_hdr` on an object that holds the raw data. -/
def btfParseHdr (host : ByteOrder) (btf : Btf) : Res Btf := do
  let raw := btf.rawData.getD []
  failIf (btf.rawSize < 24) EINVAL
  let (swapped, hdrLen) ← btfHdrLen host raw
  failIf (btf.rawSize < hdrLen) EINVAL
  let raw := if swapped then btfBswapHdr host raw hdrLen else raw
  let hdr := rdHdr host (raw.take (min hdrLen 32))
  btfCheckSecs hdr (btf.rawSize - hdrLen)
  return { btf with
    rawData := some raw
    swappedEndian := swapped
    hdr
    -- unknown header data disallows modification
    hasHdrExtra := ((raw.take hdrLen).drop 32).any (· != 0) }

/-- The bytes of a section. -/
def Btf.sectionBytes (btf : Btf) (off len : Nat) : Bytes :=
  slice (btf.rawData.getD []) (btf.hdr.hdrLen + off) len

/-- `btf_parse_str_sec`. -/
def btfParseStrSec (btf : Btf) : Res Unit := do
  let data := btf.strsData
  if btf.baseBtf.isSome ∧ btf.hdr.strLen = 0 then return
  failIf (btf.hdr.strLen = 0 ∨ btf.hdr.strLen - 1 > BTF_MAX_STR_OFFSET
    ∨ data.getD (btf.hdr.strLen - 1) 0 ≠ 0) EINVAL
  failIf (btf.baseBtf.isNone ∧ data.getD 0 0 ≠ 0) EINVAL

/-- `btf_parse_layout_sec`. -/
def btfParseLayoutSec (host : ByteOrder) (btf : Btf) : Res Btf :=
  if btf.hdr.layoutLen = 0 then .ok btf
  else if btf.hdr.layoutLen % 4 ≠ 0 then fail EINVAL
  else
    let l := rdLayout host (btf.hdr.layoutLen / 4)
      (btf.sectionBytes btf.hdr.layoutOff btf.hdr.layoutLen)
    let l := if btf.swappedEndian then l.map BtfLayout.bswap else l
    .ok { btf with
      layout := some l
      rawData := if btf.swappedEndian then btf.rawData.map fun raw =>
          patch raw (btf.hdr.hdrLen + btf.hdr.layoutOff) (l.flatMap (BtfLayout.bytes host))
        else btf.rawData }

/-- The record at the start of the type data `data`, with its size. -/
def btfParseType (host : ByteOrder) (btf : Btf) (data : Bytes) : Res (BtfType × Nat) := do
  let t : BtfType := ⟨rdU32 host data, rdU32 host (data.drop 4), rdU32 host (data.drop 8), []⟩
  let t := if btf.swappedEndian then btfBswapTypeBase t else t
  let typeSize ← btfTypeSize btf t
  failIf (typeSize > data.length) EINVAL
  let t := { t with rest := rdWords host ((typeSize - 12) / 4) (data.drop 12) }
  let t ← if btf.swappedEndian then btfBswapTypeRest t else pure t
  return (t, typeSize)

/-- The loop of `btf_parse_type_sec`, with `off` bytes and `nr` records
behind it. -/
def btfParseTypes (host : ByteOrder) (btf : Btf) :
    Nat → Bytes → Nat → Nat → Res (List BtfType × List Nat)
  | 0, _, _, _ => .error .fuel
  | fuel + 1, data, off, nr =>
    if data.length < 12 then
      if data = [] then .ok ([], []) else fail EINVAL
    else do
      let (t, typeSize) ← btfParseType host btf data
      failIf (nr + 1 > BTF_MAX_NR_TYPES) ENOMEM
      let (types, offs) ← btfParseTypes host btf fuel (data.drop typeSize) (off + typeSize) (nr + 1)
      return (t :: types, off :: offs)

/-- `btf_parse_type_sec`. -/
def btfParseTypeSec (host : ByteOrder) (btf : Btf) : Res Btf := do
  let data := btf.sectionBytes btf.hdr.typeOff btf.hdr.typeLen
  -- a record takes at least 12 bytes, so the loop ends within the length
  let (types, typeOffs) ← btfParseTypes host btf (data.length + 1) data 0 0
  return { btf with
    types
    typeOffs
    rawData := if btf.swappedEndian then btf.rawData.map fun raw =>
        patch raw (btf.hdr.hdrLen + btf.hdr.typeOff) (types.flatMap (BtfType.bytes host))
      else btf.rawData }

-- ======== validation

/-- `btf_validate_str`. -/
def btfValidateStr (btf : Btf) (strOff : Nat) : Res Unit :=
  match btf.strByOffset strOff with
  | none => fail EINVAL
  | some _ => .ok ()

/-- `btf_validate_id`. -/
def btfValidateId (btf : Btf) (id : Nat) : Res Unit :=
  match btf.typeById id with
  | none => fail EINVAL
  | some _ => .ok ()

/-- `btf_validate_type`. -/
def btfValidateType (btf : Btf) (t : BtfType) : Res Unit := do
  btfValidateStr btf t.nameOff
  match t.kind with
  | .unkn | .int | .fwd | .float => return
  | .ptr | .typedef | .volatile | .const | .restrict | .var | .declTag
  | .typeTag => btfValidateId btf t.type
  | .array =>
    btfValidateId btf (t.word 3)
    btfValidateId btf (t.word 4)
  | .struct | .union =>
    checkAll (fun i => do
      btfValidateStr btf (t.word (3 + 3 * i))
      btfValidateId btf (t.word (3 + 3 * i + 1))) (List.range t.vlen)
  | .enum =>
    checkAll (fun i => btfValidateStr btf (t.word (3 + 2 * i))) (List.range t.vlen)
  | .enum64 =>
    checkAll (fun i => btfValidateStr btf (t.word (3 + 3 * i))) (List.range t.vlen)
  | .func =>
    btfValidateId btf t.type
    let ft ← deref (btf.typeById t.type)
    failIf (ft.kind ≠ .funcProto) EINVAL
  | .funcProto =>
    checkAll (fun i => do
      btfValidateStr btf (t.word (3 + 2 * i))
      btfValidateId btf (t.word (3 + 2 * i + 1))) (List.range t.vlen)
  | .datasec =>
    checkAll (fun i => btfValidateId btf (t.word (3 + 3 * i))) (List.range t.vlen)
  | .locParam => return
  | .locProto =>
    checkAll (fun i => btfValidateId btf (t.word (3 + i))) (List.range t.vlen)
  | .locsec =>
    checkAll (fun i => do
      btfValidateId btf (t.word (3 + 3 * i))
      btfValidateId btf (t.word (3 + 3 * i + 1))) (List.range t.vlen)
  | .other _ =>
    -- the kind may be described by the layout
    match btfTypeSizeUnknown btf t with
    | .error _ => fail EINVAL
    | .ok _ => return

/-- `btf_sanity_check`. -/
def btfSanityCheck (btf : Btf) : Res Unit :=
  checkAll (fun id => do
    let t ← deref (btfTypeById btf id)
    btfValidateType btf t) (List.range' btf.startId btf.nrTypes)

/-- The loop of `btf_check_sorted` over the IDs left; `none` is the
early return on a pair out of order. -/
def btfCheckSortedFrom (btf : Btf) : List Nat → Nat → Res (Option Nat)
  | [], namedStartId => .ok (some namedStartId)
  | i :: ids, namedStartId => do
    let ta ← deref (btfTypeById btf (i - 1))
    let tb ← deref (btfTypeById btf i)
    let na ← deref (btf.strByOffset ta.nameOff)
    let nb ← deref (btf.strByOffset tb.nameOff)
    if nb.val < na.val then return none
    let named := if namedStartId = 0 ∧ na.val ≠ [] then i - 1
      else namedStartId
    let named := if named = 0 ∧ nb.val ≠ [] then i else named
    btfCheckSortedFrom btf ids named

/-- `btf_check_sorted`. -/
def btfCheckSorted (btf : Btf) : Res Btf := do
  match ← btfCheckSortedFrom btf (List.range' (btf.startId + 1) (btf.nrTypes - 1)) 0 with
  | none => return btf
  | some 0 => return btf
  | some n => return { btf with namedStartId := n }

-- ======== btf_new

/-- The object `btf_new` starts from. -/
def btfAlloc (addr : Nat) (data : Bytes) (base : Option Btf) : Btf where
  addr
  rawData := some data
  rawDataSwapped := none
  rawSize := data.length
  swappedEndian := false
  hdr := ⟨0, 0, 0, 0, 0, 0, 0, 0, 0, 0⟩
  types := []
  typeOffs := []
  namedStartId := 0
  startId := match base with
    | some base => base.typeCnt
    | none => 1
  startStrOff := match base with
    | some base => base.hdr.strLen + base.startStrOff
    | none => 0
  strs := .raw []
  strsDeduped := false
  hasHdrExtra := false
  layout := none
  baseBtf := base

/-- `btf_new` up to the validation. -/
def btfDecode (host : ByteOrder) (addr : Nat) (data : Bytes) (base : Option Btf) : Res Btf := do
  let btf ← btfParseHdr host (btfAlloc addr data base)
  let btf : Btf := { btf with
    strs := .raw (btf.sectionBytes btf.hdr.strOff btf.hdr.strLen) }
  btfParseStrSec btf
  let btf ← btfParseLayoutSec host btf
  btfParseTypeSec host btf

/-- `btf_new`. -/
def btfNew (host : ByteOrder) (addr : Nat) (data : Bytes) (base : Option Btf) : Res Btf := do
  let btf ← btfDecode host addr data base
  btfSanityCheck btf
  btfCheckSorted btf

end Libbpf
