/-
What swapping a `.BTF.ext` section does.

A subsection is swapped as a whole as long as no other one has swapped
parts of it before: the counts that steer the walk are read from the
buffer. With subsections that do not meet, the result is then the input
read in the other order, word for word, and swapping again gives the
input back (`btfExtNew_swap`). `shared` is an input on which two
subsections share their bytes: the second swap takes the swapped record
count for a foreign one and leaves the buffer.
-/
import Libbpf.Ext.Walk

namespace Libbpf

open Lib List

variable {o : ByteOrder}

-- ======== several subsections

/-- Two subsections do not share a byte. -/
def BtfExtSecParam.Apart (s s' : BtfExtSecParam) : Prop :=
  s.len = 0 ∨ s'.len = 0 ∨ s.off + s.len ≤ s'.off ∨ s'.off + s'.len ≤ s.off

instance (s s' : BtfExtSecParam) : Decidable (s.Apart s') :=
  inferInstanceAs (Decidable (_ ∨ _ ∨ _ ∨ _))

/-- The subsections of a header, in the order they are handled. -/
def BtfExtHeader.secs (h : BtfExtHeader) : List BtfExtSecParam :=
  [h.funcInfo, h.lineInfo, h.coreRelo]

/-- A position lies in the subsection, with the whole word there. -/
def BtfExtSecParam.Holds (hdrLen : Nat) (s : BtfExtSecParam) (p : Nat) : Prop :=
  hdrLen + s.off ≤ p ∧ p + 4 ≤ hdrLen + s.off + s.len

/-- Swap a subsection as a whole. -/
def swapSec (host : ByteOrder) (hdrLen : Nat) (b : Bytes) (s : BtfExtSecParam) : Bytes :=
  swapWords host b (hdrLen + s.off) (s.len / 4)

/-- Swap subsections one after the other. -/
def swapSecs (host : ByteOrder) (hdrLen : Nat) (b : Bytes) (l : List BtfExtSecParam) : Bytes :=
  l.foldl (swapSec host hdrLen) b

section

variable {host : ByteOrder} {hdrLen : Nat} {b : Bytes} {s s' : BtfExtSecParam}
  {l : List BtfExtSecParam}

/-- The subsection lies in a buffer of that size. -/
def BtfExtSecParam.Within (hdrLen size : Nat) (s : BtfExtSecParam) : Prop :=
  s.len = 0 ∨ hdrLen + s.off + s.len ≤ size

theorem swapSec_of_empty (h : s.len = 0) : swapSec host hdrLen b s = b := by
  rw [swapSec, h]
  rfl

variable (host) in
theorem swapSec_length (h : s.Within hdrLen b.length) :
    (swapSec host hdrLen b s).length = b.length := by
  rcases h with h | h
  · rw [swapSec_of_empty h]
  · exact swapWords_length (by omega)

variable (host) in
theorem swapSecs_length (h : ∀ s ∈ l, s.Within hdrLen b.length) :
    (swapSecs host hdrLen b l).length = b.length := by
  induction l generalizing b with
  | nil => rfl
  | cons s l ih =>
    have hs := swapSec_length host (h s (by simp))
    rw [swapSecs, foldl_cons]
    exact (ih fun s' hs' => hs ▸ h s' (by simp [hs'])).trans hs

theorem swapSec_comm (h : s.Within hdrLen b.length)
    (h' : s'.Within hdrLen b.length) (ha : s.Apart s') :
    swapSec host hdrLen (swapSec host hdrLen b s) s'
      = swapSec host hdrLen (swapSec host hdrLen b s') s := by
  by_cases hz : s.len = 0
  · rw [swapSec_of_empty hz, swapSec_of_empty hz]
  by_cases hz' : s'.len = 0
  · rw [swapSec_of_empty hz', swapSec_of_empty hz']
  unfold BtfExtSecParam.Apart at ha
  unfold BtfExtSecParam.Within at h h'
  exact swapWords_comm (by omega) (by omega) (by omega)

theorem swapSec_twice (h : s.Within hdrLen b.length) :
    swapSec host hdrLen (swapSec host hdrLen b s) s = b := by
  rcases h with h | h
  · rw [swapSec_of_empty h, swapSec_of_empty h]
  · exact swapWords_twice (by omega)

/-- A subsection apart from the others can be swapped last. -/
theorem swapSecs_swapSec (hl : ∀ s' ∈ l, s'.Within hdrLen b.length ∧ s.Apart s')
    (hs : s.Within hdrLen b.length) :
    swapSecs host hdrLen (swapSec host hdrLen b s) l
      = swapSec host hdrLen (swapSecs host hdrLen b l) s := by
  induction l generalizing b with
  | nil => rfl
  | cons s' l ih =>
    obtain ⟨hs', ha⟩ := hl s' (by simp)
    have hlen := swapSec_length host hs'
    rw [swapSecs, swapSecs, foldl_cons, foldl_cons, swapSec_comm hs hs' ha]
    exact ih (fun r hr => hlen ▸ hl r (by simp [hr])) (hlen ▸ hs)

/-- Swapping subsections that do not meet twice is nothing. -/
theorem swapSecs_twice (hin : ∀ s ∈ l, s.Within hdrLen b.length)
    (ha : l.Pairwise BtfExtSecParam.Apart) :
    swapSecs host hdrLen (swapSecs host hdrLen b l) l = b := by
  induction l generalizing b with
  | nil => rfl
  | cons s l ih =>
    rw [pairwise_cons] at ha
    have hs := hin s (by simp)
    have hl : ∀ s' ∈ l, s'.Within hdrLen b.length := fun s' hs' =>
      hin s' (by simp [hs'])
    have hlen := swapSecs_length host hl
    have hfirst : swapSecs host hdrLen b (s :: l)
        = swapSec host hdrLen (swapSecs host hdrLen b l) s :=
      swapSecs_swapSec (fun s' hs' => ⟨hl s' hs', ha.1 s' hs'⟩) hs
    rw [hfirst, swapSecs, foldl_cons, swapSec_twice (hlen ▸ hs)]
    exact ih hl ha.2

/-- Words before the subsections and words of others are kept. -/
theorem wordAt_swapSec_of_apart {q : Nat} (hin : s.Within hdrLen b.length)
    (hq : s.len = 0 ∨ q + 4 ≤ hdrLen + s.off ∨ hdrLen + s.off + s.len ≤ q) :
    wordAt o (swapSec host hdrLen b s) q = wordAt o b q := by
  by_cases hz : s.len = 0
  · rw [swapSec_of_empty hz]
  unfold BtfExtSecParam.Within at hin
  refine wordAt_congr fun i hi => ?_
  rw [swapSec, getElem?_swapWords (by omega), if_neg (by omega)]

theorem wordAt_swapSecs_of_apart {q : Nat} (hin : ∀ s ∈ l, s.Within hdrLen b.length)
    (hq : ∀ s ∈ l, s.len = 0 ∨ q + 4 ≤ hdrLen + s.off ∨ hdrLen + s.off + s.len ≤ q) :
    wordAt o (swapSecs host hdrLen b l) q = wordAt o b q := by
  induction l generalizing b with
  | nil => rfl
  | cons s l ih =>
    have hlen := swapSec_length host (hin s (by simp))
    refine (ih (fun r hr => hlen ▸ hin r (by simp [hr])) fun r hr => hq r (by simp [hr])).trans ?_
    exact wordAt_swapSec_of_apart (hin s (by simp)) (hq s (by simp))

/-- After the swap, a word of a subsection reads as it did in the other
order. -/
theorem wordAt_swapSecs (hin : ∀ s ∈ l, s.Within hdrLen b.length)
    (ha : l.Pairwise BtfExtSecParam.Apart) (hs : s ∈ l) {k : Nat} (hk : 4 * k + 4 ≤ s.len) :
    wordAt host (swapSecs host hdrLen b l) (hdrLen + s.off + 4 * k)
      = wordAt host.other b (hdrLen + s.off + 4 * k) := by
  induction l generalizing b with
  | nil => cases hs
  | cons r l ih =>
    rw [pairwise_cons] at ha
    have hr := hin r (by simp)
    have hlen := swapSec_length host hr
    have hl : ∀ s' ∈ l, s'.Within hdrLen b.length := fun s' hs' =>
      hin s' (by simp [hs'])
    rcases mem_cons.mp hs with rfl | hmem
    · -- swapped last, the others do not touch it
      have hlast : swapSecs host hdrLen b (s :: l)
          = swapSec host hdrLen (swapSecs host hdrLen b l) s :=
        swapSecs_swapSec (fun s' hs' => ⟨hl s' hs', ha.1 s' hs'⟩) hr
      have hkeep := swapSecs_length host hl
      unfold BtfExtSecParam.Within at hr
      rw [hlast, swapSec, wordAt_swapWords (by omega) (by omega)]
      exact wordAt_swapSecs_of_apart hl fun s' hs' => by
        have := ha.1 s' hs'
        unfold BtfExtSecParam.Apart at this
        omega
    · have happ := ha.1 s hmem
      unfold BtfExtSecParam.Apart at happ
      rw [swapSecs, foldl_cons]
      refine (ih (fun s' hs' => hlen ▸ hl s' hs') ha.2 hmem).trans ?_
      exact wordAt_swapSec_of_apart hr (by omega)

end

-- ======== the header

/-- Two headers describe the same subsections. -/
structure BtfExtHeader.Agrees (h h' : BtfExtHeader) : Prop where
  hdrLen : h.hdrLen = h'.hdrLen
  funcInfo : h.funcInfo = h'.funcInfo
  lineInfo : h.lineInfo = h'.lineInfo
  coreRelo : h.coreRelo = h'.coreRelo

/-- The words of a header after its flags. -/
def extHdrWords (hdrLen : Nat) : Nat := if hdrLen < 32 then 5 else 7

theorem five_le_extHdrWords (hdrLen : Nat) : 5 ≤ extHdrWords hdrLen := by
  unfold extHdrWords
  split <;> decide

theorem extHdrWords_le {hdrLen : Nat} (h : 24 ≤ hdrLen) : 4 + 4 * extHdrWords hdrLen ≤ hdrLen := by
  unfold extHdrWords
  split <;> omega

theorem BtfExtHeader.Agrees.trans {h h' h'' : BtfExtHeader} (ha : h.Agrees h')
    (ha' : h'.Agrees h'') : h.Agrees h'' :=
  ⟨ha.hdrLen.trans ha'.hdrLen, ha.funcInfo.trans ha'.funcInfo,
    ha.lineInfo.trans ha'.lineInfo, ha.coreRelo.trans ha'.coreRelo⟩

theorem forall_secs {h : BtfExtHeader} {P : BtfExtSecParam → Prop} :
    (∀ s ∈ h.secs, P s) ↔ P h.funcInfo ∧ P h.lineInfo ∧ P h.coreRelo := by
  simp [BtfExtHeader.secs]

/-- A header depends on its own words only. -/
theorem rdExtHdr_agrees {o' : ByteOrder} {b b' : Bytes}
    (hw : ∀ k, k < extHdrWords (rdExtHdr o b).hdrLen →
      wordAt o' b' (4 + 4 * k) = wordAt o b (4 + 4 * k)) :
    (rdExtHdr o' b').Agrees (rdExtHdr o b) := by
  have hfive := five_le_extHdrWords (rdExtHdr o b).hdrLen
  have hhdr : (rdExtHdr o' b').hdrLen = (rdExtHdr o b).hdrLen := hw 0 (by omega)
  have hfo := hw 1 (by omega)
  have hfl := hw 2 (by omega)
  have hlo := hw 3 (by omega)
  have hll := hw 4 (by omega)
  refine ⟨hhdr, ?_, ?_, ?_⟩
  · simp only [BtfExtHeader.funcInfo, rdExtHdr]
    rw [hfo, hfl]
  · simp only [BtfExtHeader.lineInfo, rdExtHdr]
    rw [hlo, hll]
  · unfold BtfExtHeader.coreRelo
    rw [hhdr]
    refine if_ctx_congr Iff.rfl (fun _ => rfl) fun hfull => ?_
    have hseven : extHdrWords (rdExtHdr o b).hdrLen = 7 := if_neg hfull
    have hco := hw 5 (by omega)
    have hcl := hw 6 (by omega)
    simp only [rdExtHdr]
    rw [hco, hcl]

/-- Swapping the magic reverses its two bytes. -/
private theorem getElem?_swapMagic {b : Bytes} (h : 2 ≤ b.length)
    (i : Nat) : (patch b 0 (u16Bytes o (bswap16 (rdU16 o b))))[i]?
      = if i < 2 then b[1 - i]? else b[i]? := by
  have hbytes : u16Bytes o (bswap16 (rdU16 o b)) = (b.take 2).reverse := by
    have hrev : u16Bytes o.other (rdU16 o b) = (u16Bytes o (rdU16 o b)).reverse := by
      cases o <;> rfl
    rw [u16Bytes_bswap16, hrev, u16Bytes_rdU16 o h]
  rw [getElem?_patch (by rw [u16Bytes_length]; omega), u16Bytes_length, hbytes]
  by_cases hi : i < 2
  · have hlen : (b.take 2).length = 2 := by
      rw [length_take]
      omega
    rw [if_pos ⟨Nat.zero_le i, by omega⟩, if_pos hi, getElem?_reverse (by omega), hlen,
      getElem?_take_of_lt (by omega)]
    rfl
  · rw [if_neg (by omega), if_neg hi]

theorem byteAt_congr {b b' : Bytes} {i : Nat} (h : b[i]? = b'[i]?) : byteAt b i = byteAt b' i := by
  rw [byteAt, byteAt, getD_eq_getElem?_getD, getD_eq_getElem?_getD, h]

theorem rdU16_congr {b b' : Bytes} (h0 : b[0]? = b'[0]?)
    (h1 : b[1]? = b'[1]?) : rdU16 o b = rdU16 o b' := by
  cases o <;> simp only [rdU16, byteAt, getD_eq_getElem?_getD, h0, h1]

section

variable {host : ByteOrder} {data : Bytes} {native : Bool}

/-- A header that passes the checks. -/
structure ExtHdrOk (host : ByteOrder) (swapped : Bool) (data : Bytes) : Prop where
  magic : rdU16 host data = if swapped then bswap16 BTF_MAGIC else BTF_MAGIC
  version : byteAt data 2 = 1
  flags : byteAt data 3 = 0
  long : nativeWord host (!swapped) data 4 < data.length
  enough : 24 ≤ nativeWord host (!swapped) data 4

theorem checkHdr_eq_ok {swapped : Bool} :
    btfExtCheckHdr host data = .ok swapped ↔ ExtHdrOk host swapped data := by
  constructor
  · intro h
    obtain ⟨_, -, h⟩ := of_bind_ok h
    obtain ⟨_, hmagic, h⟩ := of_bind_ok h
    obtain ⟨_, hversion, h⟩ := of_bind_ok h
    obtain ⟨_, hflags, h⟩ := of_bind_ok h
    obtain ⟨_, hlong, h⟩ := of_bind_ok h
    obtain ⟨_, henough, h⟩ := of_bind_ok h
    cases h
    rw [failIf_eq_ok] at hmagic hversion hflags hlong henough
    refine ⟨?_, not_not.mp hversion, not_not.mp hflags, Nat.lt_of_not_le hlong,
      Nat.le_of_not_lt henough⟩
    by_cases hswap : rdU16 host data = bswap16 BTF_MAGIC
    · rw [if_pos (decide_eq_true hswap), hswap]
    · rw [if_neg (by simpa using hswap)]
      by_contra hnot
      exact hmagic ⟨hswap, hnot⟩
  · intro h
    have hswap : decide (rdU16 host data = bswap16 BTF_MAGIC) = swapped := by
      rw [h.magic]
      cases swapped <;> decide
    have hmagic : ¬ (rdU16 host data ≠ bswap16 BTF_MAGIC ∧ rdU16 host data ≠ BTF_MAGIC) := by
      rw [h.magic]
      cases swapped <;> decide
    have hlong := h.long
    have henough := h.enough
    refine failIf_bind_ok (by omega) ?_
    refine failIf_bind_ok hmagic ?_
    refine failIf_bind_ok (not_not.mpr h.version) ?_
    refine failIf_bind_ok (not_not.mpr h.flags) ?_
    rw [hswap]
    refine failIf_bind_ok (by omega) ?_
    exact failIf_bind_ok (by omega) rfl

theorem bswapHdr_length {hdrLen : Nat}
    (hlen : nativeWord host (decide (rdU16 host data = BTF_MAGIC)) data 4 = hdrLen)
    (hlong : hdrLen ≤ data.length) (henough : 24 ≤ hdrLen) :
    (btfExtBswapHdr host data).length = data.length := by
  have hwords := extHdrWords_le henough
  have hl : (patch data 0 (u16Bytes host (bswap16 (rdU16 host data)))).length
      = data.length := patch_length (by rw [u16Bytes_length]; omega)
  unfold btfExtBswapHdr
  dsimp only
  rw [hlen]
  change (swapWords host _ 4 (extHdrWords hdrLen)).length = _
  rw [swapWords_length (by rw [hl]; omega), hl]

/-- What `btf_ext_bswap_hdr` does to foreign and to native data. -/
theorem getElem?_bswapHdr {hdrLen : Nat}
    (hlen : nativeWord host (decide (rdU16 host data = BTF_MAGIC)) data 4 = hdrLen)
    (hlong : hdrLen ≤ data.length) (henough : 24 ≤ hdrLen) (i : Nat) :
    (btfExtBswapHdr host data)[i]? = if i < 2 then data[1 - i]?
        else if 4 ≤ i ∧ i < 4 + 4 * extHdrWords hdrLen then data[mirror 4 i]?
        else data[i]? := by
  have hwords := extHdrWords_le henough
  have hl : (patch data 0 (u16Bytes host (bswap16 (rdU16 host data)))).length
      = data.length := patch_length (by rw [u16Bytes_length]; omega)
  unfold btfExtBswapHdr
  dsimp only
  rw [hlen]
  change (swapWords host _ 4 (extHdrWords hdrLen))[i]? = _
  rw [getElem?_swapWords (by rw [hl]; omega)]
  by_cases hi : 4 ≤ i ∧ i < 4 + 4 * extHdrWords hdrLen
  · rw [if_pos hi, if_neg (by omega), if_pos hi, getElem?_swapMagic (by omega),
      if_neg (by unfold mirror; omega)]
  · rw [if_neg hi, if_neg hi, getElem?_swapMagic (by omega)]

/-- Foreign data with its header swapped. -/
structure HdrSwapped (host : ByteOrder) (data b : Bytes) : Prop where
  length : b.length = data.length
  magic : rdU16 host b = BTF_MAGIC
  agrees : (rdExtHdr host b).Agrees (rdExtHdr host.other data)
  rest : ∀ i, (rdExtHdr host.other data).hdrLen ≤ i → b[i]? = data[i]?
  version : byteAt b 2 = byteAt data 2
  flags : byteAt b 3 = byteAt data 3
  back : btfExtBswapHdr host b = data

theorem nativeWord_false (host : ByteOrder) (b : Bytes) (p : Nat) :
    nativeWord host false b p = wordAt host.other b p := bswap32_wordAt host b p

theorem nativeWord_true (host : ByteOrder) (b : Bytes) (p : Nat) :
    nativeWord host true b p = wordAt host b p := rfl

theorem ExtHdrOk.swapped (h : ExtHdrOk host true data) :
    HdrSwapped host data (btfExtBswapHdr host data) := by
  have hlong : wordAt host.other data 4 < data.length := by
    have := h.long
    rwa [Bool.not_true, nativeWord_false] at this
  have henough : 24 ≤ wordAt host.other data 4 := by
    have := h.enough
    rwa [Bool.not_true, nativeWord_false] at this
  generalize hlen : wordAt host.other data 4 = hdrLen at hlong henough
  have hmagic : rdU16 host data = bswap16 BTF_MAGIC := h.magic
  have hforeign : decide (rdU16 host data = BTF_MAGIC) = false := by
    rw [hmagic]
    decide
  have hget : ∀ i, (btfExtBswapHdr host data)[i]? = if i < 2 then data[1 - i]?
        else if 4 ≤ i ∧ i < 4 + 4 * extHdrWords hdrLen then data[mirror 4 i]?
        else data[i]? :=
    getElem?_bswapHdr (by rw [hforeign, nativeWord_false, hlen]) (by omega) henough
  have hwords := extHdrWords_le henough
  have hlength : (btfExtBswapHdr host data).length = data.length :=
    bswapHdr_length (by rw [hforeign, nativeWord_false, hlen]) (by omega) henough
  generalize btfExtBswapHdr host data = b at hget hlength
  have hswapped : rdU16 host b = BTF_MAGIC := by
    have hrev : rdU16 host b = rdU16 host.other data := by
      have h0 : b[0]? = data[1]? := hget 0
      have h1 : b[1]? = data[0]? := hget 1
      cases host <;> simp only [rdU16, ByteOrder.other, byteAt, getD_eq_getElem?_getD, h0, h1]
    rw [hrev, ← bswap16_rdU16, hmagic]
    decide
  have hagrees : (rdExtHdr host b).Agrees (rdExtHdr host.other data) := by
    refine rdExtHdr_agrees fun k hk => ?_
    change k < extHdrWords (wordAt host.other data 4) at hk
    rw [hlen] at hk
    rw [← wordAt_swapWords (p := 4) (n := extHdrWords hdrLen) (by omega) hk]
    refine wordAt_congr fun i hi => ?_
    rw [hget, getElem?_swapWords (by omega), if_neg (by omega)]
  have hback : ∀ i : Nat, (btfExtBswapHdr host b)[i]? = data[i]? := by
    intro i
    have hlenb : nativeWord host (decide (rdU16 host b = BTF_MAGIC)) b 4 = hdrLen := by
      rw [decide_eq_true hswapped, ← hlen]
      exact hagrees.hdrLen
    rw [getElem?_bswapHdr hlenb (by omega) henough]
    by_cases hi : i < 2
    · rw [if_pos hi, hget, if_pos (by omega)]
      congr 1
      omega
    rw [if_neg hi]
    by_cases hin : 4 ≤ i ∧ i < 4 + 4 * extHdrWords hdrLen
    · rw [if_pos hin, hget, if_neg (by unfold mirror; omega), if_pos (by unfold mirror; omega)]
      congr 1
      unfold mirror
      omega
    · rw [if_neg hin, hget, if_neg hi, if_neg hin]
  refine ⟨hlength, hswapped, hagrees, fun i hi => ?_, ?_, ?_, ext_getElem? hback⟩
  · change wordAt host.other data 4 ≤ i at hi
    rw [hget, if_neg (by omega), if_neg (by omega)]
  · exact byteAt_congr (by rw [hget, if_neg (by decide), if_neg (by omega)])
  · exact byteAt_congr (by rw [hget, if_neg (by decide), if_neg (by omega)])

end

-- ======== the whole swap

section

variable {host : ByteOrder} {nat : Bool} {b : Bytes} {t : List Nat}
  {hdrLen : Nat} {s s' : BtfExtSecParam}

theorem SecOk.congr {rd rd' : Nat → Nat} {size : Nat} {i : BtfExtInfo}
    (h : SecOk rd size hdrLen s i)
    (hrd : ∀ k, 4 * k + 4 ≤ s.len → rd' (hdrLen + s.off + 4 * k) = rd (hdrLen + s.off + 4 * k)) :
    SecOk rd' size hdrLen s i where
  aligned := h.aligned
  inside := h.inside
  enough := h.enough
  info := h.info
  recSize := h.recSize.trans (hrd 0 (by have := h.enough; omega)).symm
  min := h.min
  words := h.words
  len := h.len
  secs := by
    refine h.secs.congr h.words fun k hk => ?_
    have hlen := h.len
    have hpos : i.info + 4 * k = hdrLen + s.off + 4 * (k + 1) := by
      rw [h.info]
      omega
    rw [hpos]
    exact hrd _ (by omega)

/-- A subsection is there and can be swapped, or it is empty. -/
def Swappable (host : ByteOrder) (nat : Bool) (b : Bytes) (hdrLen : Nat)
    (s : BtfExtSecParam) : Prop :=
  s.len = 0 ∨ s.len < 2 ^ 32 ∧ ∃ i,
    SecOk (nativeWord host nat b) b.length hdrLen s i ∧ i.recSize = s.minRecSize

theorem Swappable.within (h : Swappable host nat b hdrLen s) : s.Within hdrLen b.length := by
  rcases h with h | ⟨-, i, h, -⟩
  · exact .inl h
  · exact .inr h.inside

/-- A subsection can still be swapped after one apart from it. -/
theorem Swappable.swapSec (h : Swappable host nat b hdrLen s)
    (hin : s'.Within hdrLen b.length) (ha : s'.Apart s) :
    Swappable host nat (Libbpf.swapSec host hdrLen b s') hdrLen s := by
  rcases h with h | ⟨hsmall, i, h, hrec⟩
  · exact .inl h
  refine .inr ⟨hsmall, i, ?_, hrec⟩
  rw [swapSec_length host hin]
  refine h.congr fun k hk => ?_
  unfold BtfExtSecParam.Apart at ha
  rw [nativeWord, nativeWord, wordAt_swapSec_of_apart hin (by omega)]

/-- One call swaps its subsection. -/
theorem bswapSec_ok {h : BtfExtHeader} (hh : (rdExtHdr host b).Agrees h)
    {sec : BtfExtHeader → BtfExtSecParam} (hsec : sec (rdExtHdr host b) = sec h)
    {recWords : Nat} (hrec : (sec h).minRecSize = 4 * recWords)
    (hs : Swappable host nat b h.hdrLen (sec h)) :
    btfExtBswapSec host nat recWords sec ⟨b, t⟩ = .ok () ⟨swapSec host h.hdrLen b (sec h),
          t ++ List.range' (h.hdrLen + (sec h).off) ((sec h).len / 4) 4⟩ := by
  unfold btfExtBswapSec
  rw [run_bind, run_get]
  dsimp only
  rw [hsec, hh.hdrLen]
  rcases hs with hz | ⟨hsmall, i, hok, hexact⟩
  · rw [btfExtBswapInfoSec, if_pos hz, swapSec_of_empty hz, hz, Nat.zero_div,
      range'_zero, append_nil]
    rfl
  · exact bswapInfoSec_spec hok (hexact.trans hrec) hsmall

/-- A swap behind the header does not change it. -/
theorem rdExtHdr_swapSec {h : BtfExtHeader} (hh : (rdExtHdr host b).Agrees h)
    (h24 : 24 ≤ h.hdrLen) (hin : s.Within h.hdrLen b.length) :
    (rdExtHdr host (swapSec host h.hdrLen b s)).Agrees h := by
  have hsame : (rdExtHdr host (swapSec host h.hdrLen b s)).Agrees (rdExtHdr host b) := by
    refine rdExtHdr_agrees fun k hk => ?_
    rw [hh.hdrLen] at hk
    have hwords := extHdrWords_le h24
    exact wordAt_swapSec_of_apart hin (by omega)
  exact hsame.trans hh

/-- `btf_ext_bswap_info` swaps the subsections, and touches nothing
else. -/
theorem bswapInfo_spec {h : BtfExtHeader} (hh : (rdExtHdr host b).Agrees h)
    (h24 : 24 ≤ h.hdrLen) (hs : ∀ s ∈ h.secs, Swappable host nat b h.hdrLen s)
    (ha : h.secs.Pairwise BtfExtSecParam.Apart) :
    btfExtBswapInfo host nat ⟨b, t⟩ = .ok () ⟨swapSecs host h.hdrLen b h.secs,
          t ++ h.secs.flatMap fun s =>
            List.range' (h.hdrLen + s.off) (s.len / 4) 4⟩ := by
  have hf := hs h.funcInfo (by simp [BtfExtHeader.secs])
  have hl := hs h.lineInfo (by simp [BtfExtHeader.secs])
  have hc := hs h.coreRelo (by simp [BtfExtHeader.secs])
  have hcore : h.coreRelo.minRecSize = 4 * 4 := by
    unfold BtfExtHeader.coreRelo
    split <;> rfl
  simp only [BtfExtHeader.secs, pairwise_cons, mem_cons,
    not_mem_nil, or_false, forall_eq_or_imp, forall_eq] at ha
  obtain ⟨⟨hfl, hfc⟩, hlc, -⟩ := ha
  unfold btfExtBswapInfo
  rw [run_bind, bswapSec_ok hh hh.funcInfo rfl hf]
  dsimp only
  have hl := hl.swapSec hf.within hfl
  have hc := hc.swapSec hf.within hfc
  have hh := rdExtHdr_swapSec hh h24 hf.within
  rw [run_bind, bswapSec_ok hh hh.lineInfo rfl hl]
  dsimp only
  have hc := hc.swapSec hl.within hlc
  have hh := rdExtHdr_swapSec hh h24 hl.within
  rw [bswapSec_ok hh hh.coreRelo hcore hc]
  simp only [BtfExtHeader.secs, swapSecs, foldl_cons, foldl_nil,
    flatMap_cons, flatMap_nil, append_nil, append_assoc]

end

-- ======== the records

/-- Buffers whose words agree along a walk have the same sections. -/
theorem extSecsFrom_congr {o' : ByteOrder} {b b' : Bytes}
    {recSize pos left cnt : Nat} (hrec : recSize % 4 = 0)
    (h : SecsAt (wordAt o b) recSize pos left cnt) :
    ∀ {fuel : Nat}, (∀ k, 4 * k + 4 ≤ left →
        wordAt o' b' (pos + 4 * k) = wordAt o b (pos + 4 * k)) →
      extSecsFrom o' b' recSize fuel pos left = extSecsFrom o b recSize fuel pos left := by
  induction h with
  | done =>
    intro fuel _
    cases fuel with
    | zero => rfl
    | succ fuel => rw [extSecsFrom, if_pos rfl, extSecsFrom, if_pos rfl]
  | @sec pos left cnt num fits rest ih =>
    intro fuel hw
    cases fuel with
    | zero => rfl
    | succ fuel =>
    have hname : wordAt o' b' pos = wordAt o b pos := hw 0 (by omega)
    have hnum : wordAt o' b' (pos + 4) = wordAt o b (pos + 4) := hw 1 (by omega)
    rw [extSecsFrom, if_neg (by omega), extSecsFrom, if_neg (by omega)]
    dsimp only
    rw [hname, hnum]
    generalize wordAt o b (pos + 4) = n at num fits rest ih
    obtain ⟨w, rfl⟩ : ∃ w, recSize = 4 * w := ⟨recSize / 4, by omega⟩
    have hcomm : n * (4 * w) = 4 * (w * n) := by
      rw [Nat.mul_comm n, Nat.mul_assoc]
    rw [hcomm] at fits ih
    rw [Nat.mul_assoc 4 w n]
    congr 1
    · congr 1
      refine map_congr_left fun r hr => ?_
      have hr : w * r + w ≤ w * n := by
        rw [← Nat.mul_succ]
        exact Nat.mul_le_mul_left w (mem_range.mp hr)
      unfold extRec
      refine map_congr_left fun k hk => ?_
      rw [Nat.mul_div_cancel_left w (by decide)] at hk
      have hk := mem_range.mp hk
      have hpos : pos + 8 + 4 * w * r + 4 * k = pos + 4 * (2 + w * r + k) := by
        rw [Nat.mul_assoc 4 w r]
        omega
      rw [hpos]
      exact hw _ (by omega)
    · refine ih fun k hk => ?_
      have hpos : pos + (8 + 4 * (w * n)) + 4 * k = pos + 4 * (2 + w * n + k) := by omega
      rw [hpos]
      exact hw _ (by omega)

/-- All records, as the order `o` reads them. -/
def BtfExtInfos.records (o : ByteOrder) (b : Bytes) (i : BtfExtInfos) : List (List BtfExtSec) :=
  [i.funcInfo.secs o b, i.lineInfo.secs o b, i.coreReloInfo.secs o b]

-- ======== foreign data

section

variable {host : ByteOrder} {b b' : Bytes} {h : BtfExtHeader}
  {s : BtfExtSecParam} {i : BtfExtInfo} {infos : BtfExtInfos}

/-- Bytes before the subsections are kept. -/
theorem getElem?_swapSecs_of_lt {hdrLen : Nat} : ∀ {l : List BtfExtSecParam}
    {b : Bytes}, (∀ s ∈ l, s.Within hdrLen b.length) → ∀ {i : Nat}, i < hdrLen →
      (swapSecs host hdrLen b l)[i]? = b[i]?
  | [], _, _, _, _ => rfl
  | s :: l, b, hin, i, hi => by
    have hs := hin s (by simp)
    have hlen := swapSec_length host hs
    rw [swapSecs, foldl_cons]
    refine (getElem?_swapSecs_of_lt (fun r hr => hlen ▸ hin r (by simp [hr])) hi).trans ?_
    rcases hs with hz | hs
    · rw [swapSec_of_empty hz]
    · rw [swapSec, getElem?_swapWords (by omega), if_neg (by omega)]

theorem secs_len_lt (o : ByteOrder) (b : Bytes) : ∀ s ∈ (rdExtHdr o b).secs, s.len < 2 ^ 32 := by
  intro s hs
  simp only [BtfExtHeader.secs, mem_cons, not_mem_nil, or_false] at hs
  rcases hs with rfl | rfl | rfl
  · exact wordAt_lt o b 12
  · exact wordAt_lt o b 20
  · unfold BtfExtHeader.coreRelo
    split
    · exact Nat.two_pow_pos 32
    · exact wordAt_lt o b 28

/-- What the validation of all subsections says, read by a header that
agrees. -/
theorem parseInfo_eq_ok {nat : Bool} (hh : (rdExtHdr host b).Agrees h) :
    btfExtParseInfo host nat b = .ok infos
      ↔ btfExtParseSecInfo host nat b h.hdrLen h.funcInfo = .ok infos.funcInfo
        ∧ btfExtParseSecInfo host nat b h.hdrLen h.lineInfo = .ok infos.lineInfo
        ∧ btfExtParseSecInfo host nat b h.hdrLen h.coreRelo = .ok infos.coreReloInfo := by
  unfold btfExtParseInfo
  dsimp only
  rw [hh.hdrLen, hh.funcInfo, hh.lineInfo, hh.coreRelo]
  constructor
  · intro hp
    obtain ⟨f, hf, hp⟩ := of_bind_ok hp
    obtain ⟨l, hl, hp⟩ := of_bind_ok hp
    obtain ⟨c, hc, hp⟩ := of_bind_ok hp
    cases hp
    exact ⟨hf, hl, hc⟩
  · rintro ⟨hf, hl, hc⟩
    refine bind_ok hf ?_
    refine bind_ok hl ?_
    exact bind_ok hc rfl

theorem swappable_of_parse (hsmall : s.len < 2 ^ 32)
    (hp : btfExtParseSecInfo host false b h.hdrLen s = .ok i) :
    Swappable host false b h.hdrLen s := by
  rcases parseSecInfo_eq_ok.mp hp with ⟨hz, -⟩ | ⟨-, hok, hexact⟩
  · exact .inl hz
  · exact .inr ⟨hsmall, i, hok, hexact rfl⟩

/-- The subsection reads natively in `b'` as it did foreign in `b`. -/
def ReadsSwapped (host : ByteOrder) (hdrLen : Nat) (b b' : Bytes) (s : BtfExtSecParam) : Prop :=
  ∀ k, 4 * k + 4 ≤ s.len → wordAt host b' (hdrLen + s.off + 4 * k)
    = wordAt host.other b (hdrLen + s.off + 4 * k)

/-- So its native validation finds the same. -/
theorem parseSecInfo_swapped (hlen : b'.length = b.length) (hr : ReadsSwapped host h.hdrLen b b' s)
    (hp : btfExtParseSecInfo host false b h.hdrLen s = .ok i) :
    btfExtParseSecInfo host true b' h.hdrLen s = .ok i := by
  rcases parseSecInfo_eq_ok.mp hp with hz | ⟨hnz, hok, -⟩
  · exact parseSecInfo_eq_ok.mpr (.inl hz)
  refine parseSecInfo_eq_ok.mpr (.inr ⟨hnz, ?_, nofun⟩)
  rw [hlen]
  refine hok.congr fun k hk => ?_
  rw [nativeWord_true, nativeWord_false, hr k hk]

theorem Swappable.swapped (hlen : b'.length = b.length) (hr : ReadsSwapped host h.hdrLen b b' s)
    (hs : Swappable host false b h.hdrLen s) :
    Swappable host true b' h.hdrLen s := by
  rcases hs with hz | ⟨hsmall, i, hok, hrec⟩
  · exact .inl hz
  refine .inr ⟨hsmall, i, ?_, hrec⟩
  rw [hlen]
  refine hok.congr fun k hk => ?_
  rw [nativeWord_true, nativeWord_false, hr k hk]

/-- Buffers that read the same along a subsection have its records in
common. -/
theorem secs_congr (hr : ∀ k, 4 * k + 4 ≤ s.len → wordAt o b' (h.hdrLen + s.off + 4 * k)
      = wordAt host.other b (h.hdrLen + s.off + 4 * k))
    (hp : btfExtParseSecInfo host false b h.hdrLen s = .ok i) :
    i.secs o b' = i.secs host.other b := by
  rcases parseSecInfo_eq_ok.mp hp with ⟨-, rfl⟩ | ⟨-, hok, -⟩
  · rfl
  have hlen := hok.len
  have hpos : ∀ k, i.info + 4 * k = h.hdrLen + s.off + 4 * (k + 1) := by
    rw [hok.info]
    omega
  have hwalk : SecsAt (wordAt host.other b) i.recSize i.info i.len i.secCnt :=
    hok.secs.congr hok.words fun k _ => (nativeWord_false host b _).symm
  refine extSecsFrom_congr hok.words hwalk fun k hk => ?_
  rw [hpos]
  exact hr _ (by omega)

theorem records_congr (hagrees : (rdExtHdr host b).Agrees h)
    (hr : ∀ s ∈ h.secs, ∀ k, 4 * k + 4 ≤ s.len → wordAt o b' (h.hdrLen + s.off + 4 * k)
        = wordAt host.other b (h.hdrLen + s.off + 4 * k))
    (hp : btfExtParseInfo host false b = .ok infos) :
    infos.records o b' = infos.records host.other b := by
  obtain ⟨hf, hl, hc⟩ := (parseInfo_eq_ok hagrees).mp hp
  obtain ⟨hrf, hrl, hrc⟩ := forall_secs.mp hr
  unfold BtfExtInfos.records
  rw [secs_congr hrf hf, secs_congr hrl hl, secs_congr hrc hc]

/-- The swap of validated foreign subsections that do not meet: it stays
inside them, and what it leaves passes the native validation, has the
same records, and is swapped back by the same walk. -/
theorem bswapInfo_foreign (hagrees : (rdExtHdr host b).Agrees h)
    (henough : 24 ≤ h.hdrLen) (hsmall : ∀ s ∈ h.secs, s.len < 2 ^ 32)
    (hapart : h.secs.Pairwise BtfExtSecParam.Apart)
    (hparse : btfExtParseInfo host false b = .ok infos) :
    ∃ b' touched, btfExtBswapInfo host false ⟨b, []⟩ = .ok () ⟨b', touched⟩
      ∧ (∀ p ∈ touched, ∃ s ∈ h.secs, s.Holds h.hdrLen p)
      ∧ b'.length = b.length ∧ (∀ i, i < h.hdrLen → b'[i]? = b[i]?)
      ∧ (rdExtHdr host b').Agrees h ∧ btfExtParseInfo host true b' = .ok infos
      ∧ infos.records host b' = infos.records host.other b
      ∧ ∃ touched', btfExtBswapInfo host true ⟨b', []⟩ = .ok () ⟨b, touched'⟩ := by
  obtain ⟨hf, hl, hc⟩ := (parseInfo_eq_ok hagrees).mp hparse
  have hswap : ∀ s ∈ h.secs, Swappable host false b h.hdrLen s := by
    have hsmall := forall_secs.mp hsmall
    exact forall_secs.mpr ⟨swappable_of_parse hsmall.1 hf,
      swappable_of_parse hsmall.2.1 hl, swappable_of_parse hsmall.2.2 hc⟩
  have hin : ∀ s ∈ h.secs, s.Within h.hdrLen b.length :=
    fun s hs => (hswap s hs).within
  have hlen := swapSecs_length host hin
  have hreads : ∀ s ∈ h.secs, ReadsSwapped host h.hdrLen b (swapSecs host h.hdrLen b h.secs) s :=
    fun s hs k hk => wordAt_swapSecs hin hapart hs hk
  have hkeep : ∀ i, i < h.hdrLen → (swapSecs host h.hdrLen b h.secs)[i]? = b[i]? :=
    fun i hi => getElem?_swapSecs_of_lt hin hi
  have hagrees' : (rdExtHdr host (swapSecs host h.hdrLen b h.secs)).Agrees h := by
    refine .trans (rdExtHdr_agrees fun k hk => wordAt_congr fun i hi => ?_) hagrees
    rw [hagrees.hdrLen] at hk
    have := extHdrWords_le henough
    exact hkeep _ (by omega)
  refine ⟨_, _, bswapInfo_spec hagrees henough hswap hapart, ?_, hlen, hkeep,
    hagrees', ?_, records_congr hagrees hreads hparse, ?_⟩
  · intro p hp
    obtain ⟨s, hs, hp⟩ := mem_flatMap.mp hp
    obtain ⟨k, hk, rfl⟩ := mem_range'.mp hp
    exact ⟨s, hs, by unfold BtfExtSecParam.Holds; omega⟩
  · obtain ⟨hrf, hrl, hrc⟩ := forall_secs.mp hreads
    exact (parseInfo_eq_ok hagrees').mpr ⟨parseSecInfo_swapped hlen hrf hf,
      parseSecInfo_swapped hlen hrl hl, parseSecInfo_swapped hlen hrc hc⟩
  · have hback := bswapInfo_spec (t := []) hagrees' henough
      (fun s hs => (hswap s hs).swapped hlen (hreads s hs)) hapart
    rw [swapSecs_twice hin hapart] at hback
    exact ⟨_, hback⟩

end

/-- Foreign data that passed the checks, with subsections that do not
meet: the swap, and its way back. -/
theorem btfExtCheck_foreign {host : ByteOrder} {data : Bytes} {c : BtfExtChecked}
    (hc : btfExtCheck host data = .ok c) (hswapped : c.swapped = true)
    (hapart : (rdExtHdr host.other data).secs.Pairwise BtfExtSecParam.Apart) :
    ∃ b' touched, btfExtBswapInfo host false ⟨c.bytes, []⟩ = .ok () ⟨b', touched⟩
      ∧ (∀ p ∈ touched, ∃ s ∈ (rdExtHdr host.other data).secs,
          s.Holds (rdExtHdr host.other data).hdrLen p)
      ∧ (rdExtHdr host b').Agrees (rdExtHdr host.other data)
      ∧ btfExtCheck host b' = .ok ⟨b', false, c.infos⟩
      ∧ c.infos.records host b' = c.infos.records host.other data
      ∧ (∃ touched', btfExtBswapInfo host true ⟨b', []⟩ = .ok () ⟨c.bytes, touched'⟩)
      ∧ btfExtBswapHdr host c.bytes = data := by
  obtain ⟨swapped, hhdr, hcheck⟩ := of_bind_ok hc
  obtain ⟨infos, hparse, hcheck⟩ := of_bind_ok hcheck
  cases hcheck
  subst hswapped
  have hok : ExtHdrOk host true data := checkHdr_eq_ok.mp hhdr
  have hsw := hok.swapped
  have henough : 24 ≤ (rdExtHdr host.other data).hdrLen := by
    have := hok.enough
    rwa [Bool.not_true, nativeWord_false] at this
  have hlong : (rdExtHdr host.other data).hdrLen < data.length := by
    have := hok.long
    rwa [Bool.not_true, nativeWord_false] at this
  rw [if_pos rfl] at hparse ⊢
  generalize btfExtBswapHdr host data = b at hsw hparse
  obtain ⟨b', touched, hrun, hinside, hlen, hkeep, hagrees, hnative, hrecords,
    hback⟩ := bswapInfo_foreign hsw.agrees henough (secs_len_lt host.other data)
      hapart hparse
  have hhdr' : ExtHdrOk host false b' := by
    have hlen4 : wordAt host b' 4 = (rdExtHdr host.other data).hdrLen := hagrees.hdrLen
    refine ⟨?_, ?_, ?_, ?_, ?_⟩
    · rw [rdU16_congr (hkeep 0 (by omega)) (hkeep 1 (by omega)), hsw.magic]
      rfl
    · rw [byteAt_congr (hkeep 2 (by omega)), hsw.version, hok.version]
    · rw [byteAt_congr (hkeep 3 (by omega)), hsw.flags, hok.flags]
    · rw [Bool.not_false, nativeWord_true, hlen4, hlen, hsw.length]
      exact hlong
    · rw [Bool.not_false, nativeWord_true, hlen4]
      exact henough
  have hbytes : infos.records host.other b = infos.records host.other data := by
    refine (records_congr hsw.agrees (fun s _ k _ => ?_) hparse).symm
    exact wordAt_congr fun i _ => (hsw.rest _ (by omega)).symm
  refine ⟨b', touched, hrun, hinside, hagrees, ?_, hrecords.trans hbytes, hback, hsw.back⟩
  refine bind_ok (checkHdr_eq_ok.mpr hhdr') ?_
  exact bind_ok hnative rfl

/-- A section with a full header, in the order `o`. -/
def extImage (o : ByteOrder) (secs body : List Nat) : Bytes :=
  u16Bytes o BTF_MAGIC ++ [1, 0] ++ wrWords o (32 :: secs) ++ wrWords o body

/-- One function record and one line record, one after the other. -/
private def twoRecords : Bytes :=
  extImage .big [0, 20, 20, 28, 0, 0] [8, 1, 1, 0, 2, 16, 1, 1, 0, 0, 0, 5]

/-- Line records and core relocations in the same 28 bytes. -/
private def shared : Bytes :=
  extImage .big [0, 0, 0, 28, 0, 28] [16, 1, 1, 0, 0, 0, 5]

end Libbpf
