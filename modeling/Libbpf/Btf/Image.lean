/-
The byte images of the sections.

The parser is described section by section by the images it accepts.
`btfParseTypes_iff` says that the type loop returns a list of records
exactly when the section is their images laid end to end and each record
has the size the object gives its kind; `rdLayout_iff`, `btfHdrLen_eq_ok`
and `btfParseHdr_iff` do the same for the layout array and the header.
They are equivalences, so the same lemmas serve to show what a parsed
object satisfies and that an image written by the library is parsed back.
-/
import Libbpf.Btf.Parse
import Libbpf.Btf.Invariant

namespace Libbpf

open Lib List

variable {btf : Btf} {t : BtfType} {n sz : Nat} {data : Bytes} {host : ByteOrder}

-- ======== sizes

theorem btfTypeSize_congr {u : BtfType} (h : t.info = u.info) :
    btfTypeSize btf t = btfTypeSize btf u := by
  have hk : t.kind = u.kind := by rw [BtfType.kind, h, BtfType.kind]
  have hv : t.vlen = u.vlen := by rw [BtfType.vlen, h, BtfType.vlen]
  rw [btfTypeSize, btfTypeSizeUnknown, hk, hv]
  rfl

/-- The object matters for its layout only. -/
theorem btfTypeSize_layout {btf' : Btf} (t : BtfType) (h : btfLayoutFor btf = btfLayoutFor btf') :
    btfTypeSize btf t = btfTypeSize btf' t := by
  simp only [btfTypeSize, btfTypeSizeUnknown, h]

theorem btfTypeSize_known (h : btfBswapRestCnt t.kind t.vlen = some n) :
    btfTypeSize btf t = .ok (12 + 4 * n) := by
  rw [btfTypeSize, btfKnownSize_eq, h]
  rfl

/-- A record of a known kind that has the size of its kind. -/
theorem BtfType.sized_of_known {b : Btf}
    (hk : t.kind.known = true) (hs : btfTypeSize b t = .ok t.byteSz) :
    t.Sized := by
  rw [← btfKnownSize_isSome t.kind t.vlen, btfKnownSize_eq, Option.isSome_map] at hk
  obtain ⟨n, hn⟩ := Option.isSome_iff_exists.mp hk
  rw [btfTypeSize_known hn, Except.ok.injEq] at hs
  unfold BtfType.byteSz at hs
  rw [BtfType.Sized, hn]
  congr 1
  omega

/-- A size is a whole number of words and covers the fixed part. -/
theorem btfTypeSize_words (h : btfTypeSize btf t = .ok sz) : ∃ n, sz = 12 + 4 * n := by
  rw [btfTypeSize, btfKnownSize_eq] at h
  cases hc : btfBswapRestCnt t.kind t.vlen with
  | some n =>
    rw [hc] at h
    exact ⟨n, by simpa using h.symm⟩
  | none =>
    rw [hc] at h
    simp only [Option.map_none, btfTypeSizeUnknown] at h
    split at h
    next => cases h
    next l lCnt _ =>
      split at h
      next => cases h
      split at h
      next => cases h
      next hi =>
        split at h
        next => cases h
        next he =>
          split at h
          next =>
            simp only [Except.ok.injEq] at h
            obtain ⟨a, ha⟩ := Nat.dvd_of_mod_eq_zero (not_not.mp hi)
            obtain ⟨b, hb⟩ := Nat.dvd_of_mod_eq_zero (not_not.mp he)
            refine ⟨a + t.vlen * b, ?_⟩
            rw [← h, hb, Nat.mul_left_comm]
            omega
          next => cases h

-- ======== type records

/-- The byte order of an object's data. -/
def Btf.dataOrder (host : ByteOrder) (btf : Btf) : ByteOrder :=
  if btf.swappedEndian then host.other else host

/-- A record the parser can produce for `btf`. -/
structure Btf.Parses (btf : Btf) (t : BtfType) : Prop where
  fits : t.Fits
  sized : btfTypeSize btf t = .ok t.byteSz
  known : btf.swappedEndian = true → t.kind.known = true

@[simp] theorem BtfType.bytes_length (o : ByteOrder) (t : BtfType) :
    (t.bytes o).length = t.byteSz := by
  rw [bytes, wrWords_length, byteSz_eq]

/-- A record from its words. -/
private theorem words_eq_rdWords {o : ByteOrder} :
    (BtfType.words ⟨rdU32 o data, rdU32 o (data.drop 4), rdU32 o (data.drop 8),
      rdWords o n (data.drop 12)⟩) = rdWords o (n + 3) data := by
  rw [show n + 3 = ((n + 1) + 1) + 1 by omega]
  simp [BtfType.words, rdWords, drop_drop]

private theorem known_of_rest {k : BtfKind} {v : Nat}
    (h : btfBswapRestCnt k v = some n) : k.known = true := by
  rw [← btfKnownSize_isSome k v, btfKnownSize_eq, h]
  rfl

private theorem rest_of_known {k : BtfKind} (v : Nat) (h : k.known = true) :
    ∃ n, btfBswapRestCnt k v = some n := by
  rw [← btfKnownSize_isSome k v, btfKnownSize_eq, Option.isSome_map, Option.isSome_iff_exists] at h
  exact h

/-- Swapping the rest of a native-order reading reads it in the other
order. -/
private theorem bswapRest_eq (data : Bytes) (hn : btfBswapRestCnt t.kind t.vlen = some n) :
    btfBswapTypeRest { t with rest := rdWords host n data }
      = .ok { t with rest := rdWords host.other n data } := by
  have hn' : btfBswapRestCnt (BtfType.kind { t with rest := rdWords host n data })
      (BtfType.vlen { t with rest := rdWords host n data }) = some n := hn
  rw [btfBswapTypeRest, hn']
  simp only
  rw [take_of_length_le (by simp), drop_of_length_le (by simp), append_nil, map_bswap32_rdWords]

/-- The record at the start of `data`, read in order `o` with `n` words
after the fixed ones. -/
private def rdType (o : ByteOrder) (n : Nat) (data : Bytes) : BtfType :=
  ⟨rdU32 o data, rdU32 o (data.drop 4), rdU32 o (data.drop 8), rdWords o n (data.drop 12)⟩

private theorem rdType_words (o : ByteOrder) (n : Nat) (data : Bytes) :
    (rdType o n data).words = rdWords o (n + 3) data :=
  words_eq_rdWords

private theorem rdType_byteSz (o : ByteOrder) (n : Nat) (data : Bytes) :
    (rdType o n data).byteSz = 12 + 4 * n := by
  simp [rdType, BtfType.byteSz]

/-- A record is read exactly from its image. -/
private theorem rdType_iff {o : ByteOrder} (hlen : 12 + 4 * n ≤ data.length) : rdType o n data = t
      ↔ t.Fits ∧ t.rest.length = n ∧ data.take t.byteSz = t.bytes o := by
  constructor
  · rintro rfl
    refine ⟨?_, by simp [rdType], ?_⟩
    · intro w hw
      rw [rdType_words] at hw
      exact rdWords_lt o _ data w hw
    · rw [BtfType.bytes, rdType_words, wrWords_rdWords o (by omega), rdType_byteSz]
      congr 1
      omega
  · rintro ⟨hfits, hn, hb⟩
    apply BtfType.ext_words
    have hdata : data = t.bytes o ++ data.drop t.byteSz := by
      rw [← hb, take_append_drop]
    have hw := rdWords_wrWords o hfits (data.drop t.byteSz)
    rw [rdType_words, hdata, ← hn]
    exact hw

/-- What one turn of the type loop computes, in the order of the data. -/
private theorem btfParseType_eq_ok : btfParseType host btf data = .ok (t, sz)
      ↔ btfTypeSize btf (rdType (btf.dataOrder host) 0 data) = .ok sz ∧ sz ≤ data.length
        ∧ (btf.swappedEndian = true → (rdType (btf.dataOrder host) 0 data).kind.known = true)
        ∧ t = rdType (btf.dataOrder host) ((sz - 12) / 4) data := by
  have hbase : (if btf.swappedEndian then
      btfBswapTypeBase ⟨rdU32 host data, rdU32 host (data.drop 4), rdU32 host (data.drop 8), []⟩
      else ⟨rdU32 host data, rdU32 host (data.drop 4), rdU32 host (data.drop 8), []⟩)
      = rdType (btf.dataOrder host) 0 data := by
    unfold Btf.dataOrder rdType
    cases btf.swappedEndian with
    | false => rfl
    | true => simp [btfBswapTypeBase, bswap32_rdU32, rdWords]
  simp only [btfParseType, hbase, except_bind_eq_ok, failIf_eq_ok, Nat.not_lt, gt_iff_lt]
  cases hs : btf.swappedEndian with
  | false =>
    have ho : btf.dataOrder host = host := by simp [Btf.dataOrder, hs]
    simp only [ho, Bool.false_eq_true, if_false, false_implies, true_and]
    constructor
    · rintro ⟨sz', hsz, _, hlen, heq⟩
      cases heq
      exact ⟨hsz, hlen, rfl⟩
    · rintro ⟨hsz, hlen, rfl⟩
      exact ⟨sz, hsz, (), hlen, rfl⟩
  | true =>
    have ho : btf.dataOrder host = host.other := by simp [Btf.dataOrder, hs]
    simp only [if_true, except_bind_eq_ok, ho, true_implies]
    constructor
    · rintro ⟨sz', hsz, _, hlen, t', ht', heq⟩
      simp only [pure, Except.pure, Except.ok.injEq, Prod.mk.injEq] at heq
      obtain ⟨rfl, rfl⟩ := heq
      cases hc : btfBswapRestCnt (rdType host.other 0 data).kind
          (rdType host.other 0 data).vlen with
      | none =>
        have hnone : btfBswapTypeRest
            { rdType host.other 0 data with
              rest := rdWords host ((sz' - 12) / 4) (data.drop 12) }
            = fail EINVAL := by
          simp only [btfBswapTypeRest, BtfType.kind, BtfType.vlen] at hc ⊢
          rw [hc]
        rw [hnone] at ht'
        cases ht'
      | some n =>
        have hn : sz' = 12 + 4 * n := by
          rw [btfTypeSize_known hc] at hsz
          simpa using hsz.symm
        have hn' : (sz' - 12) / 4 = n := by omega
        rw [hn', bswapRest_eq _ hc] at ht'
        refine ⟨hsz, hlen, known_of_rest hc, ?_⟩
        rw [hn']
        exact (Except.ok.inj ht').symm
    · rintro ⟨hsz, hlen, hk, rfl⟩
      obtain ⟨n, hc⟩ := rest_of_known (rdType host.other 0 data).vlen hk
      have hn : sz = 12 + 4 * n := by
        rw [btfTypeSize_known hc] at hsz
        simpa using hsz.symm
      have hn' : (sz - 12) / 4 = n := by omega
      refine ⟨sz, hsz, (), hlen, _, ?_, rfl⟩
      rw [hn', bswapRest_eq _ hc]
      rfl

/-- One turn of the type loop: the record whose image the data starts
with, if the object can size it. -/
theorem btfParseType_iff : btfParseType host btf data = .ok (t, sz)
      ↔ btf.Parses t ∧ sz = t.byteSz ∧ t.byteSz ≤ data.length
        ∧ data.take t.byteSz = t.bytes (btf.dataOrder host) := by
  rw [btfParseType_eq_ok]
  have hinfo : ∀ n, (rdType (btf.dataOrder host) n data).info
      = (rdType (btf.dataOrder host) 0 data).info := fun _ => rfl
  constructor
  · rintro ⟨hsz, hlen, hk, rfl⟩
    obtain ⟨n, rfl⟩ := btfTypeSize_words hsz
    have hn : (12 + 4 * n - 12) / 4 = n := by omega
    rw [hn]
    obtain ⟨hfits, -, hbytes⟩ := (rdType_iff hlen).mp rfl
    refine ⟨⟨hfits, ?_, hk⟩, ?_, ?_, hbytes⟩
    · rw [btfTypeSize_congr (hinfo n), hsz, rdType_byteSz]
    · rw [rdType_byteSz]
    · rw [rdType_byteSz]
      exact hlen
  · rintro ⟨⟨hfits, hsized, hk⟩, rfl, hlen, hbytes⟩
    have ht := (rdType_iff hlen).mpr ⟨hfits, rfl, hbytes⟩
    have hn : (t.byteSz - 12) / 4 = t.rest.length := by
      unfold BtfType.byteSz
      omega
    have hi := hinfo t.rest.length
    rw [ht] at hi
    refine ⟨?_, hlen, fun hs => ?_, ?_⟩
    · rw [btfTypeSize_congr hi.symm, hsized]
    · rw [BtfType.kind, ← hi]
      exact hk hs
    · rw [hn, ht]

/-- The images of records laid end to end. -/
def typesBytes (o : ByteOrder) (types : List BtfType) : Bytes :=
  types.flatMap (BtfType.bytes o)

/-- An input of a full header, the types and the strings, and nothing
else. -/
def btfImage (o : ByteOrder) (types : List BtfType) (strs : Bytes) : Bytes :=
  wrHdr o ⟨BTF_MAGIC, BTF_VERSION, 0, 32, 0, (typesBytes o types).length,
      (typesBytes o types).length, strs.length, 0, 0⟩
    ++ typesBytes o types ++ strs

@[simp] theorem typesBytes_length (o : ByteOrder) (types : List BtfType) :
    (typesBytes o types).length = total BtfType.byteSz types := by
  induction types with
  | nil => rfl
  | cons t types ih =>
    rw [typesBytes, flatMap_cons, length_append, BtfType.bytes_length, total_cons]
    rw [typesBytes] at ih
    rw [ih]

/-- The type loop accepts exactly the images of records the object can
size, and returns them with their offsets. -/
theorem btfParseTypes_iff : ∀ {fuel : Nat} {data : Bytes} {off nr : Nat} {types : List BtfType}
      {offs : List Nat}, data.length < fuel →
      (btfParseTypes host btf fuel data off nr = .ok (types, offs)
        ↔ data = typesBytes (btf.dataOrder host) types ∧ (∀ t ∈ types, btf.Parses t)
          ∧ offs = offsFrom BtfType.byteSz off types
          ∧ (types ≠ [] → nr + types.length ≤ BTF_MAX_NR_TYPES)) := by
  intro fuel
  induction fuel with
  | zero => intro data off nr types offs h; cases h
  | succ fuel ih =>
    intro data off nr types offs hfuel
    rw [btfParseTypes]
    by_cases h12 : data.length < 12
    · -- no room for a record: the section has to be empty
      rw [if_pos h12]
      by_cases hnil : data = []
      · rw [if_pos hnil, hnil]
        constructor
        · intro h
          cases h
          exact ⟨rfl, by simp, rfl, by simp⟩
        · rintro ⟨hd, -, rfl, -⟩
          cases types with
          | nil => rfl
          | cons t types =>
            have := congrArg List.length hd
            rw [typesBytes_length, total_cons] at this
            have := t.byteSz_pos
            simp at *
            omega
      · rw [if_neg hnil]
        refine ⟨fun h => (fail_ne_ok h).elim, ?_⟩
        rintro ⟨hd, -, -, -⟩
        cases types with
        | nil => exact absurd hd hnil
        | cons t types =>
          have := congrArg List.length hd
          rw [typesBytes_length, total_cons, BtfType.byteSz] at this
          omega
    · rw [if_neg h12]
      simp only [except_bind_eq_ok, failIf_eq_ok]
      constructor
      · rintro ⟨⟨t, sz⟩, ht, _, hnr, ⟨ts, os⟩, hrec, heq⟩
        obtain ⟨hp, rfl, hlen, hb⟩ := btfParseType_iff.mp ht
        have hdrop : (data.drop t.byteSz).length < fuel := by
          have := t.byteSz_pos
          rw [length_drop]
          omega
        obtain ⟨hd, hall, ho, hmax⟩ := (ih hdrop).mp hrec
        cases heq
        refine ⟨?_, ?_, ?_, fun _ => ?_⟩
        · rw [typesBytes, flatMap_cons, ← hb]
          conv_lhs => rw [← take_append_drop t.byteSz data, hd]
          rfl
        · intro u hu
          rcases mem_cons.mp hu with rfl | hu
          · exact hp
          · exact hall u hu
        · rw [ho, offsFrom]
        · rw [length_cons]
          cases ts with
          | nil => simpa using hnr
          | cons u ts =>
            have := hmax (by simp)
            simp only [length_cons] at this ⊢
            omega
      · rintro ⟨hd, hall, ho, hmax⟩
        cases types with
        | nil =>
          rw [hd] at h12
          exact absurd (by simp [typesBytes]) h12
        | cons t ts =>
          have hcons : data = t.bytes (btf.dataOrder host)
              ++ typesBytes (btf.dataOrder host) ts := hd
          have hlen : t.byteSz ≤ data.length := by
            rw [hcons, length_append, BtfType.bytes_length]
            omega
          have htake : data.take t.byteSz = t.bytes (btf.dataOrder host) := by
            rw [hcons, take_left' (BtfType.bytes_length _ _)]
          have hdrop : data.drop t.byteSz = typesBytes (btf.dataOrder host) ts := by
            rw [hcons, drop_left' (BtfType.bytes_length _ _)]
          have hmax := hmax (by simp)
          rw [length_cons] at hmax
          refine ⟨(t, t.byteSz), btfParseType_iff.mpr
            ⟨hall t mem_cons_self, rfl, hlen, htake⟩, (), by omega,
            (ts, offsFrom BtfType.byteSz (off + t.byteSz) ts),
            (ih ?_).mpr ⟨hdrop, fun u hu => hall u
              (mem_cons_of_mem t hu), rfl, fun _ => by omega⟩, ?_⟩
          · have := t.byteSz_pos
            rw [length_drop]
            omega
          · rw [ho]
            rfl

-- ======== layout entries

/-- The images of layout entries laid end to end. -/
def layoutBytes (o : ByteOrder) (l : List BtfLayout) : Bytes :=
  l.flatMap (BtfLayout.bytes o)

@[simp] theorem BtfLayout.bytes_length (o : ByteOrder) (e : BtfLayout) :
    (e.bytes o).length = 4 := by
  simp [bytes]

@[simp] theorem layoutBytes_length (o : ByteOrder) (l : List BtfLayout) :
    (layoutBytes o l).length = 4 * l.length := by
  induction l with
  | nil => rfl
  | cons e l ih =>
    rw [layoutBytes] at ih ⊢
    rw [flatMap_cons, length_append, BtfLayout.bytes_length, length_cons]
    omega

private theorem rdLayout_entry {o : ByteOrder} {b : Bytes} (h : 4 ≤ b.length) :
    BtfLayout.bytes o ⟨byteAt b 0, byteAt b 1, rdU16 o (b.drop 2)⟩ = b.take 4 := by
  match b, h with
  | b0 :: b1 :: r, h =>
    have hr : 2 ≤ r.length := by simpa using h
    simp [BtfLayout.bytes, byteAt, u16Bytes_rdU16 o hr]

private theorem rdLayout_bytes {o : ByteOrder} {e : BtfLayout} (h : e.Fits) (r : Bytes) :
    (⟨byteAt (e.bytes o ++ r) 0, byteAt (e.bytes o ++ r) 1,
      rdU16 o ((e.bytes o ++ r).drop 2)⟩ : BtfLayout) = e := by
  obtain ⟨h1, h2, h3⟩ := h
  obtain ⟨i, el, f⟩ := e
  have hd : (BtfLayout.bytes o ⟨i, el, f⟩ ++ r).drop 2 = u16Bytes o f ++ r :=
    rfl
  have e1 : byteAt (BtfLayout.bytes o ⟨i, el, f⟩ ++ r) 0 = i := by
    change (UInt8.ofNat i).toNat = i
    rw [UInt8.toNat_ofNat']
    exact Nat.mod_eq_of_lt h1
  have e2 : byteAt (BtfLayout.bytes o ⟨i, el, f⟩ ++ r) 1 = el := by
    change (UInt8.ofNat el).toNat = el
    rw [UInt8.toNat_ofNat']
    exact Nat.mod_eq_of_lt h2
  rw [e1, e2, hd, rdU16_u16Bytes o h3]

/-- A layout array is read exactly from its image. -/
theorem rdLayout_iff {o : ByteOrder} {b : Bytes} {l : List BtfLayout} (h : b.length = 4 * n) :
    rdLayout o n b = l ↔ l.length = n ∧ (∀ e ∈ l, e.Fits) ∧ b = layoutBytes o l := by
  induction n generalizing b l with
  | zero =>
    have hb : b = [] := length_eq_zero_iff.mp (by omega)
    subst hb
    constructor
    · rintro rfl
      exact ⟨rfl, by simp [rdLayout], rfl⟩
    · rintro ⟨hl, -, -⟩
      rw [length_eq_zero_iff.mp hl]
      rfl
  | succ n ih =>
    have hd : (b.drop 4).length = 4 * n := by
      rw [length_drop]
      omega
    constructor
    · rintro rfl
      obtain ⟨h1, h2, h3⟩ := (ih hd).mp rfl
      refine ⟨by rw [rdLayout, length_cons, h1], ?_, ?_⟩
      · intro e he
        rcases mem_cons.mp he with rfl | he
        · exact ⟨byteAt_lt b 0, byteAt_lt b 1, rdU16_lt o _⟩
        · exact h2 e he
      · rw [rdLayout, layoutBytes, flatMap_cons, rdLayout_entry (by omega)]
        conv_lhs => rw [← take_append_drop 4 b, h3]
        rfl
    · rintro ⟨h1, h2, h3⟩
      cases l with
      | nil => cases h1
      | cons e l =>
        have hb : b = e.bytes o ++ layoutBytes o l := h3
        have htail : b.drop 4 = layoutBytes o l := by
          rw [hb, drop_left' (BtfLayout.bytes_length o e)]
        rw [rdLayout, (ih hd).mpr ⟨by simpa using h1,
          fun x hx => h2 x (mem_cons_of_mem e hx), htail⟩, hb,
          rdLayout_bytes (h2 e mem_cons_self)]

theorem map_bswap_rdLayout (o : ByteOrder) (n : Nat) (b : Bytes) :
    (rdLayout o n b).map BtfLayout.bswap = rdLayout o.other n b := by
  induction n generalizing b with
  | zero => rfl
  | succ n ih => simp [rdLayout, BtfLayout.bswap, bswap16_rdU16, ih]

-- ======== the header

/-- The words `btf_bswap_hdr` swaps after the magic. -/
def hdrWords (hdrLen : Nat) : Nat := if hdrLen ≥ 32 then 7 else 5

theorem hdrWords_le {hdrLen : Nat} (h : 24 ≤ hdrLen) : 4 + 4 * hdrWords hdrLen ≤ hdrLen := by
  unfold hdrWords
  split <;> omega

theorem btfBswapHdr_eq (o : ByteOrder) (b : Bytes) (hdrLen : Nat) :
    btfBswapHdr o b hdrLen = u16Bytes o (bswap16 (rdU16 o b)) ++ ((b.drop 2).take 2
      ++ (wrWords o ((rdWords o (hdrWords hdrLen) (b.drop 4)).map bswap32)
      ++ b.drop (4 + 4 * hdrWords hdrLen))) := by
  simp only [btfBswapHdr, hdrWords, append_assoc]

section

variable {o : ByteOrder} {b : Bytes} {hdrLen : Nat}

theorem btfBswapHdr_length (h : 4 + 4 * hdrWords hdrLen ≤ b.length) :
    (btfBswapHdr o b hdrLen).length = b.length := by
  rw [btfBswapHdr_eq]
  simp only [length_append, u16Bytes_length, length_take,
    length_drop, wrWords_length, length_map, rdWords_length]
  omega

/-- Past the header nothing is swapped. -/
theorem drop_btfBswapHdr (h : 4 ≤ b.length) {k : Nat} (hk : 4 + 4 * hdrWords hdrLen ≤ k) :
    (btfBswapHdr o b hdrLen).drop k = b.drop k := by
  rw [btfBswapHdr_eq, ← append_assoc, ← append_assoc, drop_append]
  have hl : (u16Bytes o (bswap16 (rdU16 o b)) ++ (b.drop 2).take 2
      ++ wrWords o ((rdWords o (hdrWords hdrLen) (b.drop 4)).map
        bswap32)).length = 4 + 4 * hdrWords hdrLen := by
    simp only [length_append, u16Bytes_length, length_take,
      length_drop, wrWords_length, length_map, rdWords_length]
    omega
  rw [drop_of_length_le (by omega), nil_append, drop_drop, hl, Nat.add_sub_cancel' hk]

theorem slice_btfBswapHdr (h : 4 ≤ b.length) {q len : Nat} (hq : 4 + 4 * hdrWords hdrLen ≤ q) :
    slice (btfBswapHdr o b hdrLen) q len = slice b q len := by
  rw [slice, slice, drop_btfBswapHdr h hq]

theorem drop_two_btfBswapHdr : (btfBswapHdr o b hdrLen).drop 2 = (b.drop 2).take 2
      ++ (wrWords o ((rdWords o (hdrWords hdrLen) (b.drop 4)).map bswap32)
      ++ b.drop (4 + 4 * hdrWords hdrLen)) := by
  rw [btfBswapHdr_eq, drop_left' (u16Bytes_length _ _)]

theorem drop_four_btfBswapHdr (h : 4 ≤ b.length) : (btfBswapHdr o b hdrLen).drop 4
      = wrWords o ((rdWords o (hdrWords hdrLen) (b.drop 4)).map bswap32)
        ++ b.drop (4 + 4 * hdrWords hdrLen) := by
  have h2 : ((b.drop 2).take 2).length = 2 := by
    rw [length_take, length_drop]
    omega
  rw [show (4 : Nat) = 2 + 2 by rfl, ← drop_drop, drop_two_btfBswapHdr, drop_left' h2]

/-- The header words after a swap, natively, are the words before it in
the other order. -/
theorem rdWords_btfBswapHdr (h : 4 ≤ b.length) :
    rdWords o (hdrWords hdrLen) ((btfBswapHdr o b hdrLen).drop 4)
      = rdWords o.other (hdrWords hdrLen) (b.drop 4) := by
  rw [drop_four_btfBswapHdr h]
  rw [map_bswap32_rdWords]
  have hw := rdWords_wrWords o (rdWords_lt o.other (hdrWords hdrLen) (b.drop 4))
    (b.drop (4 + 4 * hdrWords hdrLen))
  rwa [rdWords_length] at hw

end

/-- The input with its header in native order. -/
def hdrRaw (host : ByteOrder) (data : Bytes) (swapped : Bool) (hdrLen : Nat) : Bytes :=
  if swapped then btfBswapHdr host data hdrLen else data

/-- `btf_parse_hdr` on a fresh object. -/
theorem btfParseHdr_iff {btf' : Btf}
    (hraw : btf.rawData = some data) (hsize : btf.rawSize = data.length) :
    btfParseHdr host btf = .ok btf' ↔ ∃ swapped hdrLen, 24 ≤ data.length
        ∧ btfHdrLen host data = .ok (swapped, hdrLen)
        ∧ hdrLen ≤ data.length
        ∧ btfCheckSecs (rdHdr host ((hdrRaw host data swapped hdrLen).take (min hdrLen 32)))
            (data.length - hdrLen) = .ok ()
        ∧ btf' = { btf with
          rawData := some (hdrRaw host data swapped hdrLen)
          swappedEndian := swapped
          hdr := rdHdr host ((hdrRaw host data swapped hdrLen).take (min hdrLen 32))
          hasHdrExtra := (((hdrRaw host data swapped hdrLen).take hdrLen).drop
            32).any (· != 0) } := by
  simp only [btfParseHdr, hraw, hsize, Option.getD_some, except_bind_eq_ok,
    failIf_eq_ok, Nat.not_lt, hdrRaw]
  constructor
  · rintro ⟨_, h24, ⟨swapped, hdrLen⟩, hlen, _, hle, _, hsecs, heq⟩
    exact ⟨swapped, hdrLen, h24, hlen, hle, hsecs, (Except.ok.inj heq).symm⟩
  · rintro ⟨swapped, hdrLen, h24, hlen, hle, hsecs, rfl⟩
    exact ⟨(), h24, (swapped, hdrLen), hlen, (), hle, (), hsecs, rfl⟩

/-- The placement the header check admits. -/
structure SecsOk (hdr : BtfHeader) (metaLeft : Nat) : Prop where
  strs : hdr.strOff + hdr.strLen ≤ metaLeft
  types : hdr.typeOff + hdr.typeLen ≤ hdr.strOff
  aligned : hdr.typeOff % 4 = 0
  layout : hdr.layoutLen = 0 ∨ hdr.layoutOff % 4 = 0 ∧ hdr.typeOff + hdr.typeLen ≤ hdr.layoutOff
    ∧ hdr.layoutOff + hdr.layoutLen ≤ hdr.strOff

theorem btfCheckSecs_iff {hdr : BtfHeader} {metaLeft : Nat} :
    btfCheckSecs hdr metaLeft = .ok () ↔ SecsOk hdr metaLeft := by
  simp only [btfCheckSecs, except_bind_eq_ok, failIf_eq_ok, Nat.not_lt, not_not]
  constructor
  · rintro ⟨_, h1, _, h2, _, h3, h⟩
    refine ⟨h1, h2, h3, ?_⟩
    split at h
    next h0 => exact Or.inl h0
    next =>
      simp only [except_bind_eq_ok, failIf_eq_ok, not_not, Nat.not_lt, not_or] at h
      obtain ⟨_, h4, _, h5, h6, -⟩ := h
      exact Or.inr ⟨h4, h5, h6⟩
  · rintro ⟨h1, h2, h3, h⟩
    refine ⟨(), h1, (), h2, (), h3, ?_⟩
    split
    next => rfl
    next h0 =>
      rcases h with h | ⟨h4, h5, h6⟩
      · exact absurd h h0
      · simp only [except_bind_eq_ok, failIf_eq_ok, not_not, Nat.not_lt, not_or]
        exact ⟨(), h4, (), h5, h6, by omega⟩

private theorem byteAt_take_le (b : Bytes) (m i : Nat) : byteAt (b.take m) i ≤ byteAt b i := by
  unfold byteAt
  by_cases h : i < m
  · simp [h]
  · simp [h]

theorem rdU32_take_le (o : ByteOrder) (b : Bytes) (m : Nat) : rdU32 o (b.take m) ≤ rdU32 o b := by
  have h0 := byteAt_take_le b m 0
  have h1 := byteAt_take_le b m 1
  have h2 := byteAt_take_le b m 2
  have h3 := byteAt_take_le b m 3
  cases o <;> simp only [rdU32, ofBytes] <;> omega

private theorem byteAt_take (b : Bytes) {m i : Nat} (h : i < m) :
    byteAt (b.take m) i = byteAt b i := by
  simp [byteAt, h]

theorem rdU32_take (o : ByteOrder) (b : Bytes) {m : Nat} (h : 4 ≤ m) :
    rdU32 o (b.take m) = rdU32 o b := by
  cases o <;> simp only [rdU32] <;> rw [byteAt_take b (show 0 < m by omega),
      byteAt_take b (show 1 < m by omega), byteAt_take b (show 2 < m by omega),
      byteAt_take b (show 3 < m by omega)]

/-- The two answers of the length check. -/
theorem btfHdrLen_eq_ok {swapped : Bool} {hdrLen : Nat} :
    btfHdrLen host data = .ok (swapped, hdrLen)
      ↔ (swapped = true ∧ rdU16 host data = bswap16 BTF_MAGIC
          ∧ hdrLen = rdU32 host.other (data.drop 4) ∧ 24 ≤ hdrLen)
        ∨ (swapped = false ∧ rdU16 host data = BTF_MAGIC ∧ hdrLen = rdU32 host (data.drop 4)) := by
  have hne : bswap16 BTF_MAGIC ≠ BTF_MAGIC := by decide
  unfold btfHdrLen
  by_cases h1 : rdU16 host data = bswap16 BTF_MAGIC
  · simp only [h1, if_true, bswap32_rdU32]
    by_cases h2 : rdU32 host.other (data.drop 4) < 24
    · rw [if_pos h2]
      constructor
      · intro h
        exact (fail_ne_ok h).elim
      · rintro (⟨-, -, rfl, h⟩ | ⟨-, h, -⟩)
        · omega
        · exact absurd h hne
    · rw [if_neg h2]
      simp only [Except.ok.injEq, Prod.mk.injEq, true_and]
      constructor
      · rintro ⟨rfl, rfl⟩
        exact Or.inl ⟨rfl, rfl, by omega⟩
      · rintro (⟨rfl, rfl, -⟩ | ⟨-, h, -⟩)
        · exact ⟨rfl, rfl⟩
        · exact absurd h hne
  · rw [if_neg h1]
    by_cases h2 : rdU16 host data = BTF_MAGIC
    · simp only [h2, ne_eq, not_true, if_false, Except.ok.injEq,
        Prod.mk.injEq, true_and, hne.symm, false_and, and_false, false_or]
      constructor
      · rintro ⟨rfl, rfl⟩
        exact ⟨rfl, rfl⟩
      · rintro ⟨rfl, rfl⟩
        exact ⟨rfl, rfl⟩
    · simp [h1, h2]

end Libbpf
