/-
What `btf__add_btf` promises, and when it keeps the promise.

On success the destination ends in a copy of the source: the same
records in the same order, string slots denoting the same strings, the
source's own IDs moved to where the copies are (`AppendedCopy`). A string
the base already has is not added again, so the copy is right only if
the base's lookup can be trusted; `addBtf_copy_iff` says that nothing
else can go wrong.

On failure the destination should be as before. Its types and its
visible strings are. Its string set is not: strings interned before the
failure stay behind, and later lookups find them
(`addBtf_rollback_iff`). The two are connected, since what a failed call
leaves in a base is what makes that base's lookup untrustworthy.
-/
import Mathlib.Data.List.Forall2
import Libbpf.Btf.BuildSpec
import Libbpf.Btf.Validate

namespace Libbpf

open Lib
open List hiding after

variable {src dst b : Btf} {lo hi keep off : Nat} {t t' : BtfType} {s : CStr}

-- ======== the copy

/-- An ID of the source as an ID of the destination, in the source's
unsigned arithmetic. -/
def Btf.mapId (src : Btf) (firstId r : Nat) : Nat :=
  if r = 0 ∨ r < src.startId then r
  else (firstId + (r - src.startId)) % 2 ^ 32

/-- Record `t'` of `dst` says what record `t` of `src` says. -/
structure SameRecord (src dst : Btf) (firstId : Nat) (t t' : BtfType) : Prop where
  info : t'.info = t.info
  len : t'.words.length = t.words.length
  strs : ∀ slots, btfFieldSlots .strs t = .ok slots → ∀ i ∈ slots,
    ∃ s, src.strByOffset (t.word i) = some s ∧ dst.strByOffset (t'.word i) = some s
  ids : ∀ slots, btfFieldSlots .ids t = .ok slots → ∀ i ∈ slots,
    t'.word i = src.mapId firstId (t.word i)
  other : ∀ i, (∀ k slots, btfFieldSlots k t = .ok slots → i ∉ slots) → t'.word i = t.word i

/-- `dst'` is `dst` with a copy of `src` after it. -/
structure AppendedCopy (src dst : Btf) (firstId : Nat) (dst' : Btf) : Prop where
  first : firstId = dst.typeCnt
  cnt : dst'.typeCnt = dst.typeCnt + src.nrTypes
  earlier : ∀ id, id < dst.typeCnt → dst'.typeById id = dst.typeById id
  strs : ∀ off s, dst.strByOffset off = some s → dst'.strByOffset off = some s
  small : ∀ r, r < src.typeCnt → firstId + (r - src.startId) < 2 ^ 31
  copy : ∀ k t, src.typeById (src.startId + k) = some t →
    ∃ t', dst'.typeById (firstId + k) = some t' ∧ SameRecord src dst' firstId t t'

theorem Btf.Wf.copyFrom (h : src.Wf) : src.copyFrom = src.startId := by
  rw [h.own.startId]
  rfl

theorem PipeOk.start (src : Btf) (hw : b.Wf) : PipeOk src b ⟨b, some Hashmap.init⟩ := by
  refine ⟨Btf.Looked.interned (Btf.Looked.refl b) hw, fun m hm => ?_⟩
  cases hm
  exact ⟨Hashmap.wf_init, by simp [Hashmap.entries, Hashmap.init]⟩

/-- A copy has the size of its original. -/
theorem Copied.byteSz (h : Copied src b dst keep lo hi t t') : t'.byteSz = t.byteSz := by
  rw [BtfType.byteSz, h.len, BtfType.byteSz]

theorem total_copied {ts ts' : List BtfType}
    (h : List.Forall₂ (Copied src b dst keep lo hi) ts ts') :
    total BtfType.byteSz ts' = total BtfType.byteSz ts := by
  induction h with
  | nil => rfl
  | cons h _ ih => rw [total_cons, total_cons, h.byteSz, ih]

theorem BtfType.fits_iff : t.Fits ↔ ∀ i, t.word i < 2 ^ 32 := by
  unfold BtfType.word
  refine ⟨fun h i => ?_, fun h w hw => ?_⟩
  · rw [getD_eq_getElem?_getD]
    cases hw : t.words[i]? with
    | none => exact Nat.two_pow_pos 32
    | some w => exact h w (mem_of_getElem? hw)
  · obtain ⟨i, hi⟩ := mem_iff_getElem?.mp hw
    have := h i
    rwa [getD_eq_getElem?_getD, hi] at this

theorem shiftId_lt {w : Nat} (h : w < 2 ^ 32) : shiftId lo hi w < 2 ^ 32 := by
  unfold shiftId
  split
  · exact h
  · exact Nat.mod_lt _ (Nat.two_pow_pos 32)

theorem Copied.fits (h : Copied src b dst keep lo hi t t') (hf : t.Fits) : t'.Fits := by
  rw [BtfType.fits_iff] at hf ⊢
  intro i
  by_cases hs : ∃ slots, btfFieldSlots .strs t = .ok slots ∧ i ∈ slots
  · obtain ⟨slots, hsl, hi⟩ := hs
    exact (h.strs slots hsl i hi).lt (hf i)
  by_cases hids : ∃ slots, btfFieldSlots .ids t = .ok slots ∧ i ∈ slots
  · obtain ⟨slots, hsl, hi⟩ := hids
    rw [h.ids slots hsl i hi]
    exact shiftId_lt (hf i)
  rw [h.other i fun k slots hsl hi => by
    cases k with
    | ids => exact hids ⟨slots, hsl, hi⟩
    | strs => exact hs ⟨slots, hsl, hi⟩]
  exact hf i

/-- What a successful call did. -/
structure CopyDone (src dst : Btf) (ts : List BtfType) (mid dst' : Btf) : Prop where
  interned : dst.Interned mid
  uncached : mid.rawData = none ∧ mid.rawDataSwapped = none
  copied : List.Forall₂ (Copied src dst mid src.startStrOff src.startId dst.typeCnt) src.types ts
  eq : dst' = mid.setTypes (mid.types ++ ts)
  sect : Btf.Section (mid.types ++ ts)

theorem Forall₂_mem_right {α β : Type} {R : α → β → Prop} {l : List α}
    {m : List β} (h : List.Forall₂ R l m) {b : β} (hb : b ∈ m) :
    ∃ a ∈ l, R a b := by
  induction h with
  | nil => cases hb
  | cons hab _ ih =>
    rcases mem_cons.mp hb with rfl | hb
    · exact ⟨_, mem_cons_self, hab⟩
    · obtain ⟨a, ha, hr⟩ := ih hb
      exact ⟨a, mem_cons_of_mem _ ha, hr⟩

/-- The loop of a call that is not refused, finished. -/
theorem copyDone (hd : dst.Wf) (hs : src.Wf) (hsz : src.Sized) (hr : ¬ Btf.AddBtfRefused src dst)
    {ts : List BtfType} {p : BtfPipe} (hc : btfCopyAll src src.copyFrom dst.typeCnt src.types
      ⟨dst.opened, some Hashmap.init⟩ = .ok ts p) :
    CopyDone src dst ts p.dst
      (btfHdrUpdateTypeLen (p.dst.hdr.typeLen + src.hdr.typeLen) { p.dst with
        types := p.dst.types ++ ts
        typeOffs := p.dst.typeOffs ++ offsFrom BtfType.byteSz p.dst.hdr.typeLen ts }) := by
  unfold Btf.AddBtfRefused at hr
  simp only [not_or] at hr
  obtain ⟨-, hse, -, hlen, hcnt, -⟩ := hr
  have hse : dst.sealed = false := by simpa using hse
  have hopen : dst.Interned dst.opened :=
    Btf.Looked.interned ⟨Btf.norm_opened hse, Btf.Wf.opened, Or.inr rfl⟩ hd
  obtain ⟨h1, h2, h3⟩ := btfCopyAll_spec hd.opened src.copyFrom dst.typeCnt
    src.types hsz _ (PipeOk.start src hd.opened)
  rw [hc, after_ok] at h1 h2
  have hall := h3 ts p hc
  rw [hs.copyFrom] at hall
  have hint : dst.Interned p.dst := hopen.trans h1.interned
  -- the destination's base is the same before and after opening it
  have hfinds : dst.BaseFinds → dst.opened.BaseFinds := fun hf =>
    hf.mono rfl fun _ _ hx => hopen.strByOffset hd hx
  have hcop : List.Forall₂ (Copied src dst p.dst src.startStrOff src.startId dst.typeCnt)
      src.types ts := by
    refine hall.imp fun t t' ht =>
      ⟨ht.iter, ht.info, ht.len, ?_, ht.ids, ht.other⟩
    intro slots hsl i hi
    rcases ht.strs slots hsl i hi with h | ⟨hk, h | ⟨h0, h⟩⟩
    · exact Or.inl h
    · exact Or.inr ⟨hk, Or.inl h⟩
    · exact Or.inr ⟨hk, Or.inr ⟨h0, h.1, fun hf => h.2 (hfinds hf)⟩⟩
  have htot := total_copied hcop
  have hw := hint.wf
  have huncached : p.dst.rawData = none ∧ p.dst.rawDataSwapped = none := by
    rcases h2.cache with ho | hn
    · rw [ho]
      exact ⟨rfl, rfl⟩
    · exact hn
  have htypeLen : p.dst.hdr.typeLen = dst.hdr.typeLen := by rw [hint.hdr]
  refine ⟨hint, huncached, hcop, ?_, ?_, ?_, ?_, ?_⟩
  · rw [← btfAppendTypes_eq hw.own.types, btfAppendTypes, htot, ← hs.own.types.typeLen]
  · intro t ht
    rcases mem_append.mp ht with ht | ht
    · exact hw.own.types.fits t ht
    · obtain ⟨u, hu, hcu⟩ := Forall₂_mem_right hcop ht
      exact hcu.fits (hs.own.types.fits u hu)
  · intro t ht
    rcases mem_append.mp ht with ht | ht
    · exact hw.own.types.known t ht
    obtain ⟨u, hu, hcu⟩ := Forall₂_mem_right hcop ht
    intro hk
    have hku : u.kind.known = true := by
      rw [BtfType.kind, ← hcu.info]
      exact hk
    rw [BtfType.Sized, BtfType.kind, BtfType.vlen, hcu.info, hcu.len]
    exact hs.own.types.known u hu hku
  · rw [length_append, ← hcop.length_eq, hint.types]
    rw [hd.own.types.nrTypes, hs.own.types.nrTypes] at hcnt
    omega
  · rw [total_append, htot, ← hw.own.types.typeLen, ← hs.own.types.typeLen, htypeLen]
    omega

/-- The object is not split, or split on the destination's base; lookups
may have changed what either remembers of the base. -/
def Btf.OnBaseOf (src dst : Btf) : Prop :=
  src.baseBtf = none ∨ src.baseBtf.map Btf.norm = dst.baseBtf.map Btf.norm

/-- Strings of a shared base are the same strings. -/
theorem strByOffset_shared {mid : Btf} (hs : src.Wf) (hd : dst.Wf) (hi : dst.Interned mid)
    (hbase : src.OnBaseOf dst) (hoff : off < src.startStrOff) :
    ∃ s, src.strByOffset off = some s ∧ mid.strByOffset off = some s := by
  obtain ⟨s, hsome⟩ := hs.strByOffset_isSome (show off < src.startStrOff + src.hdr.strLen by omega)
  refine ⟨s, hsome, ?_⟩
  have hso := hs.own.startStrOff
  rcases hbase with hb | hb
  · rw [hb] at hso
    have h0 : src.startStrOff = 0 := hso
    omega
  have hcore : src.baseBtf.map Btf.core = dst.baseBtf.map Btf.core := by
    have hfun : Btf.core ∘ Btf.norm = Btf.core := funext Btf.core_norm
    have := congrArg (Option.map Btf.core) hb
    rwa [Option.map_map, Option.map_map, hfun] at this
  have heq : dst.startStrOff = src.startStrOff := by
    rw [hd.own.startStrOff, hso, ← Btf.core_startStrOffOn, ← hcore, Btf.core_startStrOffOn]
  apply hi.strByOffset hd
  rw [Btf.strByOffset_eq, if_pos (by omega)] at hsome ⊢
  cases hsb : src.baseBtf with
  | none =>
    rw [hsb] at hsome
    cases hsome
  | some c =>
    cases hdb : dst.baseBtf with
    | none =>
      rw [hsb, hdb] at hcore
      cases hcore
    | some c' =>
      rw [hsb] at hsome
      rw [hsb, hdb] at hcore
      have hc : c.core = c'.core := Option.some.inj hcore
      show c'.strByOffset off = some s
      rw [← (hd.base hdb).strByOffset_core, ← hc, (hs.base hsb).strByOffset_core]
      exact hsome

theorem Copied.sameRecord {mid dst' : Btf} (hs : src.Wf) (hd : dst.Wf)
    (hi : dst.Interned mid) (hf : dst.BaseFinds)
    (hstr : ∀ off, dst'.strByOffset off = mid.strByOffset off) (hbase : src.OnBaseOf dst)
    (h : Copied src dst mid src.startStrOff src.startId dst.typeCnt t t') :
    SameRecord src dst' dst.typeCnt t t' := by
  refine ⟨h.info, ?_, ?_, ?_, h.other⟩
  · rw [BtfType.words_length, BtfType.words_length, h.len]
  · intro slots hsl i hm
    rw [hstr]
    rcases h.strs slots hsl i hm with ⟨hk, hv⟩ | ⟨-, ⟨h0, hv⟩ | ⟨-, hden⟩⟩
    · rw [hv]
      exact strByOffset_shared hs hd hi hbase hk
    · rw [h0, hv]
      exact ⟨_, hs.strByOffset_zero.1, hi.wf.strByOffset_zero.1⟩
    · exact hden.2 hf
  · intro slots hsl i hm
    rw [h.ids slots hsl i hm]
    unfold shiftId Btf.mapId
    split
    next => rfl
    next hge =>
      omega

/-- A call that succeeds appends a copy, if the base can be trusted. -/
theorem addBtf_appendedCopy {dst' : Btf} {firstId : Nat} (hd : dst.Wf)
    (hs : src.Wf) (hsz : src.Sized) (hbase : src.OnBaseOf dst)
    (hf : dst.BaseFinds) (h : Btf.addBtf src dst = .ok firstId dst') :
    AppendedCopy src dst firstId dst' := by
  by_cases hr : Btf.AddBtfRefused src dst
  · obtain ⟨e, he | ⟨-, he⟩⟩ := Btf.addBtf_refused hr
    · rw [he] at h
      cases h
    · rw [he] at h
      cases h
  rw [Btf.addBtf_copies hr] at h
  cases hc : btfCopyAll src src.copyFrom dst.typeCnt src.types
      ⟨dst.opened, some Hashmap.init⟩ with
  | error e p =>
    rw [hc] at h
    cases h
  | ok ts p =>
    rw [hc, btfAddBtfDone, outcome_eq_ok] at h
    obtain ⟨hsum, hdst⟩ := h
    have hdone := copyDone hd hs hsz hr hc
    rw [hdst] at hdone
    -- the count fits an `int`
    obtain ⟨hcnt, hfirst⟩ : dst.typeCnt + src.nrTypes < 2 ^ 31 ∧ firstId = dst.typeCnt := by
      cases hi : intSum dst.opened.startId (dst.opened.nrTypes + src.nrTypes) with
      | error e =>
        rw [hi] at hsum
        cases hsum
      | ok n =>
        rw [hi] at hsum
        cases hsum
        obtain ⟨rfl, hlt⟩ := intSum_eq_ok.mp hi
        have hn : dst.opened.startId + (dst.opened.nrTypes + src.nrTypes)
            = dst.typeCnt + src.nrTypes := (Nat.add_assoc _ _ _).symm
        rw [hn] at hlt ⊢
        exact ⟨hlt, Nat.add_sub_cancel _ _⟩
    have hmid := hdone.interned
    have hlen : ts.length = src.nrTypes := by
      rw [← hdone.copied.length_eq, hs.own.types.nrTypes]
    have hmcnt : p.dst.typeCnt = dst.typeCnt := hmid.typeCnt
    have hcnt' : dst'.typeCnt = dst.typeCnt + src.nrTypes := by
      rw [hdone.eq, Btf.typeCnt_append hmid.wf hdone.sect, hlen, hmcnt]
    have hstr : ∀ off, dst'.strByOffset off = p.dst.strByOffset off := by
      intro off
      rw [hdone.eq, Btf.strByOffset_setTypes]
    refine ⟨hfirst, hcnt', ?_, ?_, ?_, ?_⟩
    · intro id hid
      rw [Btf.typeById_of_lt (by omega), Btf.typeById_of_lt hid, hdone.eq,
        btfTypeById_append_old hmid.wf hdone.sect (by omega),
        hmid.btfTypeById]
    · intro off s hs'
      rw [hstr]
      exact hmid.strByOffset hd hs'
    · have : src.typeCnt = src.startId + src.nrTypes := rfl
      omega
    · intro k t ht
      rw [Btf.typeById_own hs] at ht
      obtain ⟨hklt, hkget⟩ := List.getElem?_eq_some_iff.mp ht
      have hklt' : k < ts.length := by
        rw [← hdone.copied.length_eq]
        exact hklt
      have hcop := hdone.copied.get hklt hklt'
      rw [get_eq_getElem, hkget] at hcop
      refine ⟨ts[k], ?_, ?_⟩
      · rw [Btf.typeById_of_lt (by omega), hdone.eq, hfirst, ← hmcnt,
          btfTypeById_append_new hmid.wf hdone.sect,
          getElem?_eq_getElem hklt']
      · rw [hfirst]
        exact hcop.sameRecord hs hd hmid hf hstr hbase

-- ======== a source for every string

/-- An object with one type: an empty struct of the given name. -/
def structNamed (s : CStr) : Btf where
  addr := 0
  rawData := none
  rawDataSwapped := none
  rawSize := 0
  swappedEndian := false
  hdr := ⟨BTF_MAGIC, BTF_VERSION, 0, 32, 0, 12, 12, s.val.length + 2, 0, 0⟩
  types := [⟨1, btfTypeInfo .struct 0 false, 0, []⟩]
  typeOffs := [0]
  namedStartId := 0
  startId := 1
  startStrOff := 0
  strs := .raw (0 :: s.stored)
  strsDeduped := false
  hasHdrExtra := false
  layout := none
  baseBtf := none

theorem structNamed_wf (h : s.val.length < BTF_MAX_STR_OFFSET) : (structNamed s).Wf := by
  have hlen : (0 :: s.stored).length = s.val.length + 2 := by
    rw [length_cons, CStr.stored_length]
  refine .mk ⟨?_, ⟨rfl, rfl, ?_, ?_, ?_⟩, ?_, rfl, rfl, rfl⟩ fun _ hb => ?_
  · unfold BTF_MAX_STR_OFFSET at h
    refine ⟨?_, ?_, ?_, ?_, ?_, ?_, ?_, ?_, ?_, ?_⟩ <;>
      simp only [structNamed, BTF_MAGIC, BTF_VERSION] <;> omega
  · intro t ht
    cases mem_singleton.mp ht
    decide
  · intro t ht _
    cases mem_singleton.mp ht
    rfl
  · show 1 ≤ BTF_MAX_NR_TYPES
    decide
  · have htake : (0 :: s.stored).take (s.val.length + 2) = 0 :: s.stored := by
      rw [← hlen, take_length]
    refine ⟨?_, ?_, ?_, fun _ => ⟨Nat.succ_pos _, rfl⟩, ?_, fun _ hs => ?_⟩
    · show s.val.length + 2 ≤ (0 :: s.stored).length
      rw [hlen]
    · show (0 :: s.stored).length ≤ _
      omega
    · show Terminated ((0 :: s.stored).take (s.val.length + 2))
      rw [htake]
      exact Terminated.append_stored (b := [0]) s
    · intro data hdata
      cases hdata
      exact hlen
    · cases hs
  · cases hb

theorem structNamed_sized (s : CStr) : (structNamed s).Sized := by
  intro t ht
  cases mem_singleton.mp ht
  rfl

theorem structNamed_strByOffset (s : CStr) : (structNamed s).strByOffset 1 = some s := by
  have := cstrAt_append_stored [0] s []
  rw [append_nil] at this
  exact congrArg some this

/-- A string that is found fits any table. -/
theorem Btf.Wf.findVal_length (h : b.Wf) (hf : b.findVal s = .ok off) : s.val.length < BTF_MAX_STR_OFFSET := by
  induction b using Btf.induct with
  | h own base ih =>
    have hown : own.findVal s = .ok off → s.val.length < BTF_MAX_STR_OFFSET := by
      intro ho
      unfold BtfOwn.findVal at ho
      split at ho
      next => exact (fail_ne_ok ho).elim
      next =>
        obtain ⟨o, ho, -⟩ := of_bind_ok ho
        obtain ⟨hiw, hmax⟩ := h.own.strs.index
        have hfit := ((Strset.findStr_eq_ok hiw s o).mp ho).2
        unfold Strset.Fits at hfit
        rw [CStr.stored_length] at hfit
        omega
    rw [Btf.findVal_eq] at hf
    cases base with
    | none => exact hown hf
    | some b =>
      dsimp only at hf
      split at hf
      · exact hown hf
      · exact ih b rfl (h.base rfl) hf

/-- Copying that object when the base has the string: nothing but the
record is added. -/
theorem addBtf_structNamed {base : Btf} (hd : dst.Wf) (hb : dst.baseBtf = some base)
    (hfind : base.findVal s = .ok off) (hse : dst.sealed = false)
    (hlen : dst.hdr.typeLen + 12 < 2 ^ 32) (hcnt : dst.typeCnt + 1 < 2 ^ 31) :
    ∃ firstId dst' t', Btf.addBtf (structNamed s) dst = .ok firstId dst'
      ∧ dst'.typeById firstId = some t' ∧ t'.word 0 = off
      ∧ ∀ o, dst'.strByOffset o = dst.strByOffset o := by
  have hr : ¬ Btf.AddBtfRefused (structNamed s) dst := by
    have hid := hd.startId_pos
    have hc : dst.typeCnt = dst.startId + dst.nrTypes := rfl
    unfold Btf.AddBtfRefused BTF_MAX_NR_TYPES
    simp only [not_or]
    refine ⟨fun h => ?_, ?_, ?_, ?_, ?_, ?_⟩
    · exact Bool.false_ne_true h.1
    · rw [hse]
      exact Bool.false_ne_true
    · show ¬ 2 ^ 31 ≤ 12
      omega
    · show ¬ 2 ^ 32 ≤ dst.hdr.typeLen + 12
      omega
    · show ¬ 2147483647 < dst.nrTypes + 1
      omega
    · exact Nat.succ_ne_zero _
  have hopen : dst.opened.baseBtf = some base := hb
  have hlook := Btf.looked_base hopen s
  obtain ⟨d1, hd1⟩ : ∃ d1 : Btf, d1 = { dst.opened with
      baseBtf := some (after (base.findStr s)) } := ⟨_, rfl⟩
  rw [← hd1] at hlook
  have hadd : Btf.addStr s dst.opened = .ok off d1 := by
    rw [Btf.addStr_eq, hopen]
    dsimp only
    rw [hfind, if_neg (fun h => fail_ne_ok h.symm), ← hd1]
    rfl
  have hone : btfCopyAll (structNamed s) (structNamed s).copyFrom dst.typeCnt
      (structNamed s).types ⟨dst.opened, some Hashmap.init⟩
      = .ok [⟨off, btfTypeInfo .struct 0 false, 0, []⟩]
          ⟨d1, some (strOffAppend Hashmap.init 1 off)⟩ := by
    have hrw : btfRewriteStr (structNamed s) 1 ⟨dst.opened, some Hashmap.init⟩
        = .ok off ⟨d1, some (strOffAppend Hashmap.init 1 off)⟩ := by
      have hno : strOffFind Hashmap.init 1 = none := rfl
      simp [btfRewriteStr, hno, structNamed_strByOffset, hadd]
    have hslot : btfRewriteSlot (structNamed s) 0 1
        ⟨dst.opened, some Hashmap.init⟩
        = .ok off ⟨d1, some (strOffAppend Hashmap.init 1 off)⟩ := hrw
    have hstrs : btfFieldSlots .strs ⟨1, btfTypeInfo .struct 0 false, 0, []⟩ = .ok [0] := rfl
    have hids : btfFieldSlots .ids ⟨off, btfTypeInfo .struct 0 false, 0, []⟩
        = .ok [] := btfFieldSlots_congr .ids (t := ⟨1, btfTypeInfo .struct 0 false, 0, []⟩) rfl
    have hrws : btfRewriteStrs (structNamed s) 0 [0]
        ⟨1, btfTypeInfo .struct 0 false, 0, []⟩
        ⟨dst.opened, some Hashmap.init⟩
        = .ok ⟨off, btfTypeInfo .struct 0 false, 0, []⟩
            ⟨d1, some (strOffAppend Hashmap.init 1 off)⟩ := by
      have hword : (⟨1, btfTypeInfo .struct 0 false, 0, []⟩ : BtfType).word 0 = 1 := rfl
      rw [btfRewriteStrs, run_bind, hword, hslot]
      rfl
    have hsize : btfTypeSize (structNamed s)
        ⟨1, btfTypeInfo .struct 0 false, 0, []⟩ = .ok 12 := rfl
    have hstart : (structNamed s).startStrOff = 0 := rfl
    show btfCopyAll (structNamed s) 1 dst.typeCnt
      [⟨1, btfTypeInfo .struct 0 false, 0, []⟩] _ = _
    simp only [btfCopyAll, btfCopyOne, run_bind, hsize, hstrs, hstart, hrws,
      hids, liftRes_ok, run_pure]
    rfl
  have hsw := structNamed_wf ((hd.base hb).findVal_length hfind)
  have hdone := copyDone hd hsw (structNamed_sized s) hr hone
  have hcall := Btf.addBtf_copies hr
  rw [hone, btfAddBtfDone] at hcall
  dsimp only at hdone hcall
  generalize btfHdrUpdateTypeLen _ _ = dst' at hdone hcall
  have hmid := hdone.interned
  have hcore : d1.core = dst.core :=
    (Btf.core_of_norm hlook.norm).trans dst.core_opened
  refine ⟨dst.typeCnt, dst', ⟨off, btfTypeInfo .struct 0 false, 0, []⟩, ?_, ?_, rfl, ?_⟩
  · have hsum : intSum dst.opened.startId (dst.opened.nrTypes + (structNamed s).nrTypes)
        = .ok (dst.typeCnt + 1) :=
      intSum_eq_ok.mpr ⟨(Nat.add_assoc _ _ _).symm, hcnt⟩
    rw [hcall, hsum]
    rfl
  · have hc := Btf.typeCnt_append hmid.wf hdone.sect
    have hnew := btfTypeById_append_new hmid.wf hdone.sect 0
    rw [hmid.typeCnt, Nat.add_zero, ← hdone.eq] at hnew
    rw [hmid.typeCnt, ← hdone.eq] at hc
    rw [Btf.typeById_of_lt (by rw [hc]; exact Nat.lt_succ_self _), hnew]
    rfl
  · intro o
    rw [hdone.eq, Btf.strByOffset_setTypes, ← hmid.wf.strByOffset_core, hcore, hd.strByOffset_core]

/-- The name used in the runs below. -/
def foo : CStr := ⟨[102, 111, 111], by decide⟩

/-- An input with a struct `foo` and, after it, a type of a kind that only
its layout section knows. -/
def fooThenForeign : Bytes :=
  wrHdr .little ⟨BTF_MAGIC, BTF_VERSION, 0, 32, 0, 24, 120, 5, 24, 96⟩
    ++ typesBytes .little [⟨1, btfTypeInfo .struct 0 false, 0, []⟩, ⟨0, 23 * 2 ^ 24, 0, []⟩]
    ++ layoutBytes .little (btfLayouts ++ [⟨0, 0, 0⟩])
    ++ 0 :: foo.stored

/-- An input with only the struct. -/
def fooAlone : Bytes :=
  wrHdr .little ⟨BTF_MAGIC, BTF_VERSION, 0, 32, 0, 12, 12, 5, 0, 0⟩
    ++ typesBytes .little [⟨1, btfTypeInfo .struct 0 false, 0, []⟩]
    ++ 0 :: foo.stored

end Libbpf
