/-
`btf_ext__new`: checking a `.BTF.ext` section and bringing it to native
byte order.

The data stays one buffer. Its three subsections are validated where
they lie, by positions the header gives, and foreign data is then
swapped in place, subsection by subsection, with the record size and the
record counts read from the buffer that is being changed. Nothing asks
that the subsections do not overlap.

A swap runs on an `ExtBuf`, the bytes together with the words touched so
far; a step outside the buffer is a `fault`. As with the BTF itself,
`host` is the byte order of the machine. Log texts are left out.
-/
import Libbpf.Lib.Words
import Libbpf.Btf.Parse

namespace Libbpf

open Lib

-- ======== objects

/-- `struct btf_ext_header` after the flags. -/
structure BtfExtHeader where
  hdrLen : Nat
  funcInfoOff : Nat
  funcInfoLen : Nat
  lineInfoOff : Nat
  lineInfoLen : Nat
  coreReloOff : Nat
  coreReloLen : Nat
deriving DecidableEq, Repr

/-- The header at the start of `b`. -/
def rdExtHdr (o : ByteOrder) (b : Bytes) : BtfExtHeader where
  hdrLen := wordAt o b 4
  funcInfoOff := wordAt o b 8
  funcInfoLen := wordAt o b 12
  lineInfoOff := wordAt o b 16
  lineInfoLen := wordAt o b 20
  coreReloOff := wordAt o b 24
  coreReloLen := wordAt o b 28

/-- `struct btf_ext_info`, with `info` a position in the data. -/
structure BtfExtInfo where
  info : Nat
  recSize : Nat
  len : Nat
  secCnt : Nat
deriving DecidableEq, Repr

/-- What is known of a subsection that is not there. -/
def BtfExtInfo.absent : BtfExtInfo := ⟨0, 0, 0, 0⟩

/-- The three subsections of a `struct btf_ext`. -/
structure BtfExtInfos where
  funcInfo : BtfExtInfo
  lineInfo : BtfExtInfo
  coreReloInfo : BtfExtInfo
deriving DecidableEq, Repr

/-- `struct btf_ext`. -/
structure BtfExt where
  data : Bytes
  dataSwapped : Option Bytes
  swappedEndian : Bool
  infos : BtfExtInfos
deriving DecidableEq, Repr

/-- `struct btf_ext_sec_info_param`. -/
structure BtfExtSecParam where
  off : Nat
  len : Nat
  minRecSize : Nat
deriving DecidableEq, Repr

def BtfExtHeader.funcInfo (h : BtfExtHeader) : BtfExtSecParam :=
  ⟨h.funcInfoOff, h.funcInfoLen, 8⟩

def BtfExtHeader.lineInfo (h : BtfExtHeader) : BtfExtSecParam :=
  ⟨h.lineInfoOff, h.lineInfoLen, 16⟩

/-- The core relocations; a short header has none. -/
def BtfExtHeader.coreRelo (h : BtfExtHeader) : BtfExtSecParam :=
  if h.hdrLen < 32 then ⟨0, 0, 16⟩ else ⟨h.coreReloOff, h.coreReloLen, 16⟩

-- ======== validation

/-- The word at `p`, brought to native order. -/
def nativeWord (host : ByteOrder) (isNative : Bool) (b : Bytes) (p : Nat) : Nat :=
  if isNative then wordAt host b p else bswap32 (wordAt host b p)

/-- The same from a buffer that may end before. -/
def rdNative (host : ByteOrder) (isNative : Bool) (b : Bytes) (p : Nat) : Res Nat :=
  if p + 4 ≤ b.length then .ok (nativeWord host isNative b p)
  else .error .fault

/-- The loop of `btf_ext_parse_sec_info` over the sections at `pos`;
counts them. -/
def btfExtParseSecs (host : ByteOrder) (isNative : Bool) (b : Bytes)
    (recordSize : Nat) : Nat → Nat → Nat → Res Nat
  | 0, _, _ => .error .fuel
  | fuel + 1, pos, infoLeft =>
    if infoLeft = 0 then .ok 0
    else do
      failIf (infoLeft < 8) EINVAL
      let numRecords ← rdNative host isNative b (pos + 4)
      failIf (numRecords = 0) EINVAL
      let totalRecordSize := 8 + numRecords * recordSize
      failIf (infoLeft < totalRecordSize) EINVAL
      let secCnt ← btfExtParseSecs host isNative b recordSize fuel
        (pos + totalRecordSize) (infoLeft - totalRecordSize)
      return secCnt + 1

/-- `btf_ext_parse_sec_info`. -/
def btfExtParseSecInfo (host : ByteOrder) (isNative : Bool) (b : Bytes)
    (hdrLen : Nat) (sec : BtfExtSecParam) : Res BtfExtInfo :=
  if sec.len = 0 then .ok .absent
  else do
    failIf (sec.off % 4 ≠ 0) EINVAL
    failIf (hdrLen > b.length) EINVAL
    failIf (sec.off > b.length - hdrLen ∨ sec.len > b.length - hdrLen - sec.off) EINVAL
    let info := hdrLen + sec.off
    failIf (sec.len < 4) EINVAL
    let recordSize ← rdNative host isNative b info
    -- foreign data is swapped record by record, so the size must be exact
    failIf (recordSize < sec.minRecSize ∨ isNative = false ∧ recordSize ≠ sec.minRecSize
      ∨ recordSize % 4 ≠ 0) EINVAL
    failIf (sec.len - 4 = 0) EINVAL
    -- a section takes at least 8 bytes, so the loop ends within the length
    let secCnt ← btfExtParseSecs host isNative b recordSize sec.len (info + 4) (sec.len - 4)
    return ⟨info + 4, recordSize, sec.len - 4, secCnt⟩

/-- `btf_ext_parse_info`. -/
def btfExtParseInfo (host : ByteOrder) (isNative : Bool) (b : Bytes) : Res BtfExtInfos := do
  let h := rdExtHdr host b
  let funcInfo ← btfExtParseSecInfo host isNative b h.hdrLen h.funcInfo
  let lineInfo ← btfExtParseSecInfo host isNative b h.hdrLen h.lineInfo
  let coreReloInfo ← btfExtParseSecInfo host isNative b h.hdrLen h.coreRelo
  return ⟨funcInfo, lineInfo, coreReloInfo⟩

-- ======== swapping

/-- A buffer being swapped, and the words touched so far. -/
structure ExtBuf where
  bytes : Bytes
  touched : List Nat
deriving DecidableEq, Repr

/-- Swap `n` words at `p`. -/
def swapAt (host : ByteOrder) (p n : Nat) : Run ExtBuf Unit := fun s =>
  if p + 4 * n ≤ s.bytes.length then
    .ok () ⟨swapWords host s.bytes p n, s.touched ++ List.range' p n 4⟩
  else .error .fault s

/-- Swap the word at `p`, and return it in native order. -/
def swapRead (host : ByteOrder) (isNative : Bool) (p : Nat) : Run ExtBuf Nat :=
  do
    let s ← get
    let w ← liftRes (rdNative host isNative s.bytes p)
    swapAt host p 1
    return w

/-- `bswap_fn` on `n` records of `recWords` words. -/
def bswapRecs (host : ByteOrder) (recWords recSize : Nat) : Nat → Nat → Run ExtBuf Unit
  | 0, _ => pure ()
  | n + 1, p => do
    swapAt host p recWords
    bswapRecs host recWords recSize n (p + recSize)

/-- Subtraction of `__u32`s. -/
def sub32 (a b : Nat) : Nat := (a + (2 ^ 32 - b % 2 ^ 32)) % 2 ^ 32

/-- The loop of `btf_ext_bswap_info_sec` over the sections at `sec`. -/
def bswapSecs (host : ByteOrder) (isNative : Bool) (recWords recSize : Nat) :
    Nat → Nat → Nat → Run ExtBuf Unit
  | 0, _, _ => throw .fuel
  | fuel + 1, sec, infoLeft =>
    if infoLeft = 0 then pure ()
    else do
      swapAt host sec 1
      let numRecs ← swapRead host isNative (sec + 4)
      bswapRecs host recWords recSize numRecs (sec + 8)
      let total := 8 + recSize * numRecs
      bswapSecs host isNative recWords recSize fuel (sec + total) (sub32 infoLeft total)

/-- `btf_ext_bswap_info_sec`, with the record words `bswap_fn` swaps. -/
def btfExtBswapInfoSec (host : ByteOrder) (isNative : Bool)
    (recWords info len : Nat) : Run ExtBuf Unit :=
  if len = 0 then pure ()
  else do
    let recSize ← swapRead host isNative info
    -- each section moves the position by 8 bytes at least, until it is
    -- through or outside the buffer
    let s ← get
    bswapSecs host isNative recWords recSize (s.bytes.length + 1) (info + 4) (sub32 len 4)

/-- One call of `btf_ext_bswap_info_sec`; the header is read anew. -/
def btfExtBswapSec (host : ByteOrder) (isNative : Bool) (recWords : Nat)
    (sec : BtfExtHeader → BtfExtSecParam) : Run ExtBuf Unit := do
  let s ← get
  let h := rdExtHdr host s.bytes
  btfExtBswapInfoSec host isNative recWords (h.hdrLen + (sec h).off) (sec h).len

/-- `btf_ext_bswap_info`. -/
def btfExtBswapInfo (host : ByteOrder) (isNative : Bool) : Run ExtBuf Unit := do
  -- `bpf_func_info_bswap`
  btfExtBswapSec host isNative 2 BtfExtHeader.funcInfo
  -- `bpf_line_info_bswap`
  btfExtBswapSec host isNative 4 BtfExtHeader.lineInfo
  -- `bpf_core_relo_bswap`
  btfExtBswapSec host isNative 4 BtfExtHeader.coreRelo

/-- `btf_ext_bswap_hdr`. -/
def btfExtBswapHdr (host : ByteOrder) (b : Bytes) : Bytes :=
  let isNative := rdU16 host b = BTF_MAGIC
  let hdrLen := nativeWord host (decide isNative) b 4
  let b := patch b 0 (u16Bytes host (bswap16 (rdU16 host b)))
  swapWords host b 4 (if hdrLen < 32 then 5 else 7)

-- ======== btf_ext__new

/-- The header checks of `btf_ext_parse`; returns whether the data is
swapped. -/
def btfExtCheckHdr (host : ByteOrder) (data : Bytes) : Res Bool := do
  failIf (data.length < 8) EINVAL
  let magic := rdU16 host data
  failIf (magic ≠ bswap16 BTF_MAGIC ∧ magic ≠ BTF_MAGIC) EINVAL
  let swapped := decide (magic = bswap16 BTF_MAGIC)
  let hdrLen := nativeWord host (!swapped) data 4
  failIf (byteAt data 2 ≠ 1) ENOTSUP
  failIf (byteAt data 3 ≠ 0) ENOTSUP
  failIf (data.length ≤ hdrLen) EINVAL
  failIf (hdrLen < 24) EINVAL
  return swapped

/-- What `btf_ext_parse` has when all checks have passed: the data with
its header in native order, and the subsections. -/
structure BtfExtChecked where
  bytes : Bytes
  swapped : Bool
  infos : BtfExtInfos
deriving DecidableEq, Repr

/-- `btf_ext_parse` up to the end of the checks. -/
def btfExtCheck (host : ByteOrder) (data : Bytes) : Res BtfExtChecked := do
  let swapped ← btfExtCheckHdr host data
  let bytes := if swapped then btfExtBswapHdr host data else data
  let infos ← btfExtParseInfo host (!swapped) bytes
  return ⟨bytes, swapped, infos⟩

/-- The last step of `btf_ext_parse`: native data in memory. -/
def btfExtLoad (host : ByteOrder) (c : BtfExtChecked) : Res BtfExt :=
  if c.swapped then
    match btfExtBswapInfo host false ⟨c.bytes, []⟩ with
    | .ok _ buf => .ok ⟨buf.bytes, none, true, c.infos⟩
    | .error e _ => .error e
  else .ok ⟨c.bytes, none, false, c.infos⟩

/-- `btf_ext__new`. -/
def btfExtNew (host : ByteOrder) (data : Bytes) : Res BtfExt := do
  let c ← btfExtCheck host data
  btfExtLoad host c

/-- A section with its records, each a list of words. -/
structure BtfExtSec where
  secNameOff : Nat
  recs : List (List Nat)
deriving DecidableEq, Repr

/-- The record at `p`. -/
def extRec (o : ByteOrder) (b : Bytes) (recSize p : Nat) : List Nat :=
  (List.range (recSize / 4)).map fun k => wordAt o b (p + 4 * k)

/-- `for_each_btf_ext_sec` and `for_each_btf_ext_rec` over the `left`
bytes at `pos`. -/
def extSecsFrom (o : ByteOrder) (b : Bytes) (recSize : Nat) : Nat → Nat → Nat → List BtfExtSec
  | 0, _, _ => []
  | fuel + 1, pos, left =>
    if left = 0 then []
    else
      let num := wordAt o b (pos + 4)
      ⟨wordAt o b pos, (List.range num).map fun i =>
          extRec o b recSize (pos + 8 + recSize * i)⟩
        :: extSecsFrom o b recSize fuel (pos + (8 + recSize * num)) (left - (8 + recSize * num))

/-- The sections of a subsection, as the order `o` reads them. -/
def BtfExtInfo.secs (o : ByteOrder) (b : Bytes) (i : BtfExtInfo) : List BtfExtSec :=
  extSecsFrom o b i.recSize i.len i.info i.len

/-- `btf_ext_raw_data`. -/
def btfExtRawDataOf (host : ByteOrder) (swapEndian : Bool) : Run BtfExt Bytes :=
  fun ext =>
    if swapEndian = false then .ok ext.data ext
    else match ext.dataSwapped with
      | some data => .ok data ext
      | none =>
        match btfExtBswapInfo host ext.swappedEndian ⟨ext.data, []⟩ with
        | .ok _ buf =>
          let data := btfExtBswapHdr host buf.bytes
          .ok data { ext with dataSwapped := some data }
        | .error e _ => .error e ext

/-- `btf_ext__raw_data`. -/
def btfExtRawData (host : ByteOrder) : Run BtfExt Bytes := fun ext =>
  btfExtRawDataOf host ext.swappedEndian ext

end Libbpf
