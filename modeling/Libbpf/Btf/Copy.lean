/-
What copying types between objects does to the copies.

A string slot of a copy denotes in the destination the string the
original denotes in the source (`StrMapped`), whether it was looked up,
added, or taken from the map of offsets seen before: the map only ever
holds offsets that denote alike (`PipeOk`). The other words of a record
are not touched by the string loop (`Rewritten`); the ID loop then moves
the source's own IDs and nothing else.
-/
import Libbpf.Btf.AddBtf
import Libbpf.Btf.Edit

namespace Libbpf

open Lib
open List hiding after

variable {src b dst btf dst' : Btf} {t t' : BtfType} {v keep k w : Nat} {p : BtfPipe}

-- ======== one string

/-- Offset `v` of `dst` denotes what offset `k` of `src` does, provided
the destination could trust its base to begin with. -/
def Denotes (src b dst : Btf) (k v : Nat) : Prop :=
  v < 2 ^ 31 ∧ (b.BaseFinds → ∃ s, src.strByOffset k = some s ∧ dst.strByOffset v = some s)

/-- The copying of records into `b`, under way. -/
structure PipeOk (src b : Btf) (p : BtfPipe) : Prop where
  interned : b.Interned p.dst
  map : ∀ m, p.strOffMap = some m → m.Wf id ∧ ∀ e ∈ m.entries, Denotes src b p.dst e.key e.value

theorem Denotes.mono (h : Denotes src b dst k v) (hw : dst.Wf) (hi : dst.Interned dst') :
    Denotes src b dst' k v := by
  refine ⟨h.1, fun hf => ?_⟩
  obtain ⟨s, hs, hd⟩ := h.2 hf
  exact ⟨s, hs, hi.strByOffset hw hd⟩

theorem Btf.addStr_lt {b' : Btf} (hw : b.Wf) {s : CStr} {off : Nat}
    (h : b.addStr s = .ok off b') : off < 2 ^ 31 := by
  rw [Btf.addStr_eq] at h
  cases hb : b.baseBtf with
  | none =>
    rw [hb] at h
    exact (btfAddStrOwn_ok hw h).2
  | some base =>
    rw [hb] at h
    dsimp only at h
    split at h
    · exact (btfAddStrOwn_ok ((Btf.looked_base hb s).wf hw) h).2
    · rw [outcome_eq_ok] at h
      exact Btf.findVal_lt h.1

/-- Remembering where a string went. -/
theorem PipeOk.remember (h : PipeOk src b p)
    (hi : p.dst.Interned dst) (hd : Denotes src b dst k v) :
    PipeOk src b ⟨dst, p.strOffMap.map (strOffAppend · k v)⟩ := by
  refine ⟨h.interned.trans hi, fun m hm => ?_⟩
  obtain ⟨m₀, hm₀, rfl⟩ := Option.map_eq_some_iff.mp hm
  obtain ⟨hw, hall⟩ := h.map m₀ hm₀
  obtain ⟨hw', hent⟩ := Hashmap.link_spec hw k v
  refine ⟨hw', fun e he => ?_⟩
  rcases (hent e).mp he with rfl | he
  · exact hd
  · exact (hall e he).mono h.interned.wf hi

theorem btfRewriteStr_spec (h : PipeOk src b p) (hfw : b.Wf) (off : Nat) :
    PipeOk src b (after (btfRewriteStr src off p))
      ∧ p.dst.Interned (after (btfRewriteStr src off p)).dst
      ∧ ∀ v p', btfRewriteStr src off p = .ok v p' →
        off = 0 ∧ v = 0 ∨ off ≠ 0 ∧ Denotes src b p'.dst off v := by
  have hrefl := Btf.Looked.interned (Btf.Looked.refl p.dst) h.interned.wf
  unfold btfRewriteStr
  by_cases h0 : off = 0
  · rw [if_pos h0]
    refine ⟨h, hrefl, fun v p' hv => ?_⟩
    cases hv
    exact Or.inl ⟨h0, rfl⟩
  rw [if_neg h0]
  cases hf : p.strOffMap.bind (strOffFind · off) with
  | some m =>
    refine ⟨h, hrefl, fun v p' hv => ?_⟩
    cases hv
    -- a hit: the entry denotes the string
    obtain ⟨map, hmap, hfind⟩ := Option.bind_eq_some_iff.mp hf
    obtain ⟨e, he, rfl⟩ := Option.map_eq_some_iff.mp hfind
    obtain ⟨hmem, hkey⟩ := Hashmap.findEntry_some he
    have hk : e.key = off := beq_iff_eq.mp hkey
    exact Or.inr ⟨h0, hk ▸ (h.map map hmap).2 e hmem⟩
  | none =>
    dsimp only
    cases hs : src.strByOffset off with
    | none => exact ⟨h, hrefl, fun v p' hv => nomatch hv⟩
    | some s =>
      have hi := Btf.addStr_interned h.interned.wf s
      dsimp only
      cases ha : Btf.addStr s p.dst with
      | error e dst =>
        rw [ha] at hi
        refine ⟨⟨h.interned.trans hi, fun m hm => ?_⟩, hi, fun v p' hv => nomatch hv⟩
        obtain ⟨hmw, hall⟩ := h.map m hm
        exact ⟨hmw, fun e he => (hall e he).mono h.interned.wf hi⟩
      | ok v dst =>
        rw [ha] at hi
        have hd : Denotes src b dst off v := by
          refine ⟨Btf.addStr_lt h.interned.wf ha, fun hf => ⟨s, hs, ?_⟩⟩
          have hf' := hf.mono h.interned.base
            fun _ _ hx => h.interned.strByOffset hfw hx
          exact (Btf.addStr_ok h.interned.wf hf' ha).1
        refine ⟨h.remember hi hd, hi, fun v' p' hv => ?_⟩
        cases hv
        exact Or.inr ⟨h0, hd⟩

-- ======== one record

/-- What becomes of the string offset `w`. -/
def StrMapped (src b dst : Btf) (keep w v : Nat) : Prop :=
  (w < keep ∧ v = w) ∨ (keep ≤ w ∧ (w = 0 ∧ v = 0 ∨ w ≠ 0 ∧ Denotes src b dst w v))

theorem StrMapped.mono (h : StrMapped src b dst keep w v) (hw : dst.Wf) (hi : dst.Interned dst') :
    StrMapped src b dst' keep w v := by
  rcases h with h | ⟨hk, h | ⟨h0, hd⟩⟩
  · exact Or.inl h
  · exact Or.inr ⟨hk, Or.inl h⟩
  · exact Or.inr ⟨hk, Or.inr ⟨h0, hd.mono hw hi⟩⟩

theorem StrMapped.lt (h : StrMapped src b dst keep w v) (hw : w < 2 ^ 32) : v < 2 ^ 32 := by
  rcases h with ⟨-, rfl⟩ | ⟨-, ⟨-, rfl⟩ | ⟨-, hd⟩⟩
  · exact hw
  · exact Nat.two_pow_pos 32
  · have := hd.1
    omega

/-- Copying the strings of record `t` made it `t'`. -/
structure Rewritten (src b dst : Btf) (keep : Nat) (slots : List Nat) (t t' : BtfType) : Prop where
  info : t'.info = t.info
  len : t'.rest.length = t.rest.length
  other : ∀ j, j ∉ slots → t'.word j = t.word j
  slot : ∀ i ∈ slots, StrMapped src b dst keep (t.word i) (t'.word i)

theorem btfRewriteSlot_spec (h : PipeOk src b p) (hbw : b.Wf) (keep off : Nat) :
    PipeOk src b (after (btfRewriteSlot src keep off p))
      ∧ p.dst.Interned (after (btfRewriteSlot src keep off p)).dst
      ∧ ∀ v p', btfRewriteSlot src keep off p = .ok v p' → StrMapped src b p'.dst keep off v := by
  unfold btfRewriteSlot
  by_cases hk : off < keep
  · rw [if_pos hk]
    refine ⟨h, Btf.Looked.interned (Btf.Looked.refl p.dst) h.interned.wf, fun v p' hv => ?_⟩
    cases hv
    exact Or.inl ⟨hk, rfl⟩
  · rw [if_neg hk]
    obtain ⟨h1, h2, h3⟩ := btfRewriteStr_spec h hbw off
    exact ⟨h1, h2, fun v p' hv => Or.inr ⟨Nat.le_of_not_lt hk, h3 v p' hv⟩⟩

theorem btfRewriteStrs_spec (hbw : b.Wf) (keep : Nat) (slots : List Nat) :
    ∀ (t : BtfType) (p : BtfPipe), PipeOk src b p → slots.Nodup →
      (∀ i ∈ slots, i ≠ 1 ∧ i < t.words.length) →
      PipeOk src b (after (btfRewriteStrs src keep slots t p))
        ∧ p.dst.Interned (after (btfRewriteStrs src keep slots t p)).dst
        ∧ ∀ t' p', btfRewriteStrs src keep slots t p = .ok t' p' →
          Rewritten src b p'.dst keep slots t t' := by
  induction slots with
  | nil =>
    intro t p h _ _
    refine ⟨h, Btf.Looked.interned (Btf.Looked.refl p.dst) h.interned.wf, fun t' p' ht => ?_⟩
    cases ht
    exact ⟨rfl, rfl, fun _ _ => rfl, nofun⟩
  | cons i slots ih =>
    intro t p h hnd hin
    obtain ⟨hi, hnd'⟩ := nodup_cons.mp hnd
    obtain ⟨hi1, hilt⟩ := hin i mem_cons_self
    obtain ⟨h1, h2, h3⟩ := btfRewriteSlot_spec h hbw keep (t.word i)
    unfold btfRewriteStrs
    rw [run_bind]
    cases hr : btfRewriteSlot src keep (t.word i) p with
    | error e p1 =>
      rw [hr] at h1 h2
      exact ⟨h1, h2, fun _ _ ht => nomatch ht⟩
    | ok v p1 =>
      rw [hr] at h1 h2
      have hv := h3 v p1 hr
      dsimp only
      have hlen : (t.setWord i v).words.length = t.words.length := by
        rw [BtfType.words_setWord, length_set]
      obtain ⟨g1, g2, g3⟩ := ih (t.setWord i v) p1 h1 hnd' fun j hj => by
        rw [hlen]
        exact hin j (mem_cons_of_mem _ hj)
      refine ⟨g1, h2.trans g2, fun t' p' ht => ?_⟩
      rw [ht] at g2
      have hrw := g3 t' p' ht
      refine ⟨hrw.info.trans (t.info_setWord hi1),
        hrw.len.trans (t.rest_length_setWord i v), ?_, ?_⟩
      · intro j hj
        rw [mem_cons, not_or] at hj
        rw [hrw.other j hj.2, t.word_setWord_ne (Ne.symm hj.1)]
      · intro j hj
        rcases mem_cons.mp hj with rfl | hj
        · -- done first, and no later turn comes back to it
          rw [hrw.other j hi, t.word_setWord_self hilt]
          exact hv.mono h1.interned.wf g2
        · have hne : i ≠ j := fun he => hi (he ▸ hj)
          have := hrw.slot j hj
          rwa [t.word_setWord_ne hne] at this

-- ======== type IDs

/-- What becomes of the type ID `w`. -/
def shiftId (lo hi w : Nat) : Nat :=
  if w = 0 ∨ w < lo then w else (w + hi - lo) % 2 ^ 32

/-- The ID loop moves the IDs and leaves the other words alone. -/
theorem btfShiftIds_spec (lo hi : Nat) (slots : List Nat) :
    ∀ t : BtfType, slots.Nodup → (∀ i ∈ slots, i ≠ 1 ∧ i < t.words.length) →
      (btfShiftIds lo hi slots t).info = t.info
        ∧ (btfShiftIds lo hi slots t).rest.length = t.rest.length
        ∧ (∀ j, j ∉ slots → (btfShiftIds lo hi slots t).word j = t.word j)
        ∧ ∀ i ∈ slots, (btfShiftIds lo hi slots t).word i = shiftId lo hi (t.word i) := by
  induction slots with
  | nil =>
    intro t _ _
    exact ⟨rfl, rfl, fun _ _ => rfl, nofun⟩
  | cons i slots ih =>
    intro t hnd hin
    obtain ⟨hnot, hnd'⟩ := nodup_cons.mp hnd
    obtain ⟨hi1, hilt⟩ := hin i mem_cons_self
    -- the record after the turn for slot `i`
    obtain ⟨u, hu, hinfo, hlen, hself, hne⟩ : ∃ u : BtfType,
        btfShiftIds lo hi (i :: slots) t = btfShiftIds lo hi slots u
          ∧ u.info = t.info ∧ u.rest.length = t.rest.length
          ∧ u.word i = shiftId lo hi (t.word i)
          ∧ ∀ j, j ≠ i → u.word j = t.word j := by
      refine ⟨if t.word i = 0 ∨ t.word i < lo then t
        else t.setWord i ((t.word i + hi - lo) % 2 ^ 32), rfl, ?_⟩
      unfold shiftId
      split
      · exact ⟨rfl, rfl, rfl, fun _ _ => rfl⟩
      · exact ⟨t.info_setWord hi1, t.rest_length_setWord i _,
          t.word_setWord_self hilt, fun j hj => t.word_setWord_ne hj.symm⟩
    obtain ⟨g1, g2, g3, g4⟩ := ih u hnd' fun j hj => by
      rw [BtfType.words_length, hlen, ← BtfType.words_length]
      exact hin j (mem_cons_of_mem _ hj)
    rw [hu]
    refine ⟨g1.trans hinfo, g2.trans hlen, ?_, ?_⟩
    · intro j hj
      rw [mem_cons, not_or] at hj
      rw [g3 j hj.2, hne j hj.1]
    · intro j hj
      rcases mem_cons.mp hj with rfl | hj
      · rw [g3 j hnot, hself]
      · have hji : j ≠ i := fun he => hnot (he ▸ hj)
        rw [g4 j hj, hne j hji]

-- ======== all records

/-- The slots of a record that has the size its kind asks for. -/
theorem slots_in {k : BtfFieldIterKind} {d : BtfFieldDesc} (hs : btfTypeSize btf t = .ok t.byteSz)
    (hd : btfFieldDesc k t.kind = some d) {i : Nat} (hi : i ∈ d.slots t.vlen) :
    i ≠ 1 ∧ i < t.words.length := by
  refine ⟨slots_ne_info hd hi, ?_⟩
  cases hn : btfBswapRestCnt t.kind t.vlen with
  | some n =>
    rw [btfTypeSize_known hn, Except.ok.injEq] at hs
    have := slots_lt hd hn hi
    rw [BtfType.words_length]
    unfold BtfType.byteSz at hs
    omega
  | none =>
    -- `BTF_KIND_UNKN` has no fields, a foreign kind no descriptor
    cases hk : t.kind <;> rw [hk] at hd hn <;> cases hn
    · have hdd : d = ⟨[], 0, []⟩ := by cases k <;> cases hd <;> rfl
      rw [hdd] at hi
      rcases mem_slots.mp hi with ⟨o, ho, -⟩ | ⟨m, -, o, ho, -⟩
      · cases ho
      · cases ho
    · cases k <;> cases hd

/-- Record `t'` of the destination is a copy of record `t` of the source. -/
structure Copied (src b dst : Btf) (keep lo hi : Nat) (t t' : BtfType) : Prop where
  iter : ∃ slots, btfFieldSlots .strs t = .ok slots
  info : t'.info = t.info
  len : t'.rest.length = t.rest.length
  strs : ∀ slots, btfFieldSlots .strs t = .ok slots →
    ∀ i ∈ slots, StrMapped src b dst keep (t.word i) (t'.word i)
  ids : ∀ slots, btfFieldSlots .ids t = .ok slots →
    ∀ i ∈ slots, t'.word i = shiftId lo hi (t.word i)
  other : ∀ i, (∀ k slots, btfFieldSlots k t = .ok slots → i ∉ slots) → t'.word i = t.word i

theorem Copied.mono {lo hi : Nat} (h : Copied src b dst keep lo hi t t') (hw : dst.Wf)
    (hint : dst.Interned dst') : Copied src b dst' keep lo hi t t' :=
  ⟨h.iter, h.info, h.len, fun slots hs i hm => (h.strs slots hs i hm).mono hw hint, h.ids, h.other⟩

theorem btfFieldSlots_eq_ok {k : BtfFieldIterKind}
    {slots : List Nat} (h : btfFieldSlots k t = .ok slots) :
    ∃ d, btfFieldDesc k t.kind = some d ∧ slots = d.slots t.vlen := by
  cases hd : btfFieldDesc k t.kind with
  | none =>
    rw [btfFieldSlots_none hd] at h
    cases h
  | some d =>
    rw [btfFieldSlots_eq hd] at h
    cases h
    exact ⟨d, rfl, rfl⟩

/-- The visited words depend on the info word alone. -/
theorem btfFieldSlots_congr (k : BtfFieldIterKind)
    (h : t'.info = t.info) : btfFieldSlots k t' = btfFieldSlots k t := by
  have hk : t'.kind = t.kind := by rw [BtfType.kind, h, BtfType.kind]
  have hv : t'.vlen = t.vlen := by rw [BtfType.vlen, h, BtfType.vlen]
  cases hd : btfFieldDesc k t.kind with
  | none => rw [btfFieldSlots_none hd, btfFieldSlots_none (by rw [hk]; exact hd)]
  | some d =>
    rw [btfFieldSlots_eq hd, btfFieldSlots_eq (by rw [hk]; exact hd), hv]

theorem btfCopyOne_spec (hbw : b.Wf) (lo hi : Nat) (hsz : btfTypeSize src t = .ok t.byteSz)
    (h : PipeOk src b p) :
    PipeOk src b (after (btfCopyOne src lo hi t p))
      ∧ p.dst.Interned (after (btfCopyOne src lo hi t p)).dst
      ∧ ∀ t' p', btfCopyOne src lo hi t p = .ok t' p' →
        Copied src b p'.dst src.startStrOff lo hi t t' := by
  have hrefl := Btf.Looked.interned (Btf.Looked.refl p.dst) h.interned.wf
  unfold btfCopyOne
  rw [run_bind, hsz, liftRes_ok]
  dsimp only
  rw [run_bind]
  cases hsl : btfFieldSlots .strs t with
  | error e => exact ⟨h, hrefl, fun _ _ ht => nomatch ht⟩
  | ok slots =>
    rw [liftRes_ok]
    dsimp only
    obtain ⟨d, hd, rfl⟩ := btfFieldSlots_eq_ok hsl
    obtain ⟨g1, g2, g3⟩ := btfRewriteStrs_spec hbw src.startStrOff
      (d.slots t.vlen) t p h (slots_nodup hd _) fun i hm => slots_in hsz hd hm
    rw [run_bind]
    cases hr : btfRewriteStrs src src.startStrOff (d.slots t.vlen) t p with
    | error e p1 =>
      rw [hr] at g1 g2
      exact ⟨g1, g2, fun _ _ ht => nomatch ht⟩
    | ok u p1 =>
      rw [hr] at g1 g2
      have hu := g3 u p1 hr
      dsimp only
      rw [run_bind, btfFieldSlots_congr .ids hu.info]
      cases hil : btfFieldSlots .ids t with
      | error e => exact ⟨g1, g2, fun _ _ ht => nomatch ht⟩
      | ok islots =>
        rw [liftRes_ok]
        refine ⟨g1, g2, fun t' p' ht => ?_⟩
        cases ht
        obtain ⟨di, hdi, rfl⟩ := btfFieldSlots_eq_ok hil
        obtain ⟨k1, k2, k3, k4⟩ := btfShiftIds_spec lo hi
          (di.slots t.vlen) u (slots_nodup hdi _) fun i hm => by
            rw [BtfType.words_length, hu.len, ← BtfType.words_length]
            exact slots_in hsz hdi hm
        refine ⟨⟨_, hsl⟩, k1.trans hu.info, k2.trans hu.len, ?_, ?_, ?_⟩
        · intro slots hs i hm
          rw [hsl] at hs
          cases hs
          -- no ID slot is a string slot
          rw [k3 i fun hmi => slots_disjoint hdi hd hmi hm]
          exact hu.slot i hm
        · intro slots hs i hm
          rw [hil] at hs
          cases hs
          rw [k4 i hm, hu.other i (slots_disjoint hdi hd hm)]
        · intro i hno
          rw [k3 i (hno .ids _ hil), hu.other i (hno .strs _ hsl)]

theorem btfCopyAll_spec (hbw : b.Wf) (lo hi : Nat) (ts : List BtfType) :
    (∀ t ∈ ts, btfTypeSize src t = .ok t.byteSz) → ∀ p, PipeOk src b p →
      PipeOk src b (after (btfCopyAll src lo hi ts p))
        ∧ p.dst.Interned (after (btfCopyAll src lo hi ts p)).dst
        ∧ ∀ ts' p', btfCopyAll src lo hi ts p = .ok ts' p' →
          List.Forall₂ (Copied src b p'.dst src.startStrOff lo hi) ts ts' := by
  induction ts with
  | nil =>
    intro _ p h
    refine ⟨h, Btf.Looked.interned (Btf.Looked.refl p.dst) h.interned.wf, fun ts' p' ht => ?_⟩
    cases ht
    exact .nil
  | cons t ts ih =>
    intro hsz p h
    obtain ⟨h1, h2, h3⟩ := btfCopyOne_spec hbw lo hi (hsz t mem_cons_self) h
    unfold btfCopyAll
    rw [run_bind]
    cases hr : btfCopyOne src lo hi t p with
    | error e p1 =>
      rw [hr] at h1 h2
      exact ⟨h1, h2, fun _ _ ht => nomatch ht⟩
    | ok t' p1 =>
      rw [hr] at h1 h2
      have hc := h3 t' p1 hr
      obtain ⟨g1, g2, g3⟩ := ih (fun u hu => hsz u (mem_cons_of_mem _ hu)) p1 h1
      dsimp only
      rw [run_bind]
      cases hrs : btfCopyAll src lo hi ts p1 with
      | error e p2 =>
        rw [hrs] at g1 g2
        exact ⟨g1, h2.trans g2, fun _ _ ht => nomatch ht⟩
      | ok ts' p2 =>
        rw [hrs] at g1 g2
        refine ⟨g1, h2.trans g2, fun us p' ht => ?_⟩
        cases ht
        exact .cons (hc.mono h1.interned.wf g2) (g3 ts' p2 hrs)

-- ======== the call

/-- `btf__add_btf` fails before it copies anything: the bases differ,
the destination cannot be modified, or there is no room. -/
def Btf.AddBtfRefused (src btf : Btf) : Prop :=
  (src.baseBtf.isSome ∧ src.baseBtf.map (·.addr) ≠ btf.baseBtf.map (·.addr)) ∨ btf.sealed = true
    ∨ 2 ^ 31 ≤ src.hdr.typeLen
    ∨ 2 ^ 32 ≤ btf.hdr.typeLen + src.hdr.typeLen
    ∨ BTF_MAX_NR_TYPES < btf.nrTypes + src.nrTypes
    ∨ btf.nrTypes + src.nrTypes = 0

instance (src btf : Btf) : Decidable (Btf.AddBtfRefused src btf) :=
  inferInstanceAs (Decidable (_ ∨ _))

theorem check_eq (c : Prop) [Decidable c] (code : Int) (btf : Btf) :
    check c code btf = if c then .error (.err (-code)) btf else .ok () btf := by
  unfold check failIf
  split <;> rfl

theorem btfAddTypeMem_eq (n : Nat) (btf : Btf) :
    btfAddTypeMem n btf = if btf.hdr.typeLen + n > 2 ^ 32 - 1 then
      .error (.err (-ENOMEM)) btf else .ok () btf :=
  check_eq _ _ _

theorem btfAddBtfMem_iff : btfAddBtfMem src btf = .ok () ↔ src.hdr.typeLen < 2 ^ 31
      ∧ btf.hdr.typeLen + src.hdr.typeLen < 2 ^ 32
      ∧ btf.nrTypes + src.nrTypes ≤ BTF_MAX_NR_TYPES
      ∧ btf.nrTypes + src.nrTypes ≠ 0 := by
  unfold btfAddBtfMem
  by_cases hf : src.hdr.typeLen ≥ 2 ^ 31 ∧ btf.hdr.typeLen + src.hdr.typeLen ≥ 2 ^ 32
  · simp only [if_pos hf]
    refine ⟨fun h => ?_, fun h => ?_⟩
    · cases h
    · omega
  simp only [if_neg hf, except_bind_eq_ok, failIf_eq_ok]
  refine ⟨fun h => ?_, fun h => ?_⟩
  · obtain ⟨_, h1, _, h2, _, h3, h4⟩ := h
    omega
  · exact ⟨(), by omega, (), by omega, (), by omega, by omega⟩

/-- Where the source's own IDs start. -/
def Btf.copyFrom (src : Btf) : Nat :=
  match src.baseBtf with
  | some base => base.typeCnt
  | none => 1

/-- What `btf__add_btf` leaves when its loop ends as `r`. -/
def btfAddBtfDone (src btf : Btf) :
    EStateM.Result Stop BtfPipe (List BtfType) → EStateM.Result Stop Btf Nat
  | .error e p => .error e { p.dst with
      hdr := { p.dst.hdr with strLen := btf.hdr.strLen } }
  | .ok types p =>
    outcome ((intSum btf.startId (btf.nrTypes + src.nrTypes)).map (· - src.nrTypes))
      (btfHdrUpdateTypeLen (p.dst.hdr.typeLen + src.hdr.typeLen) { p.dst with
        types := p.dst.types ++ types
        typeOffs := p.dst.typeOffs ++ offsFrom BtfType.byteSz p.dst.hdr.typeLen types })

theorem btfAddBtf_eq (src btf : Btf) : btfAddBtf src btf = match btfAddBtfMem src btf with
      | .error e => .error e btf
      | .ok _ => btfAddBtfDone src btf (btfCopyAll src src.copyFrom btf.typeCnt
          src.types ⟨btf, some Hashmap.init⟩) := by
  unfold btfAddBtf
  rw [run_bind, run_get]
  dsimp only
  rw [run_bind]
  cases btfAddBtfMem src btf with
  | error e => rfl
  | ok u =>
    show (match btfCopyAll src src.copyFrom btf.typeCnt src.types ⟨btf, some Hashmap.init⟩ with
      | .error e p => _
      | .ok types p => _ : Run Btf Nat) btf = _
    cases btfCopyAll src src.copyFrom btf.typeCnt src.types
        ⟨btf, some Hashmap.init⟩ with
    | error e p => rfl
    | ok types p =>
      dsimp only
      rw [run_bind, run_set]
      dsimp only
      rw [run_bind]
      unfold btfAddBtfDone
      cases intSum btf.startId (btf.nrTypes + src.nrTypes) with
      | error e => rfl
      | ok n => rfl

theorem Btf.addBtf_eq (src btf : Btf) : Btf.addBtf src btf = if src.baseBtf.isSome
          ∧ src.baseBtf.map (·.addr) ≠ btf.baseBtf.map (·.addr) then
        .error (.err (-EOPNOTSUPP)) btf
      else if btf.sealed then .error (.err (-EOPNOTSUPP)) btf
      else btfAddBtf src btf.opened := by
  unfold Btf.addBtf
  rw [run_bind, run_get]
  dsimp only
  rw [run_bind, check_eq]
  split
  next h =>
    split at h
    next hc =>
      cases h
    next hc =>
      rw [if_neg hc, run_bind, btfEnsureModifiable_eq]
      cases h
      cases btf.sealed <;> rfl
  next h =>
    split at h
    next hc =>
      cases h
      rw [if_pos hc]
    next hc => cases h

/-- A refused call changes nothing to notice. -/
theorem Btf.addBtf_refused (h : Btf.AddBtfRefused src btf) : ∃ e, Btf.addBtf src btf = .error e btf
      ∨ btf.sealed = false ∧ Btf.addBtf src btf = .error e btf.opened := by
  rw [Btf.addBtf_eq]
  split
  next => exact ⟨_, Or.inl rfl⟩
  next hb =>
    cases hse : btf.sealed with
    | true => exact ⟨_, Or.inl rfl⟩
    | false =>
      rw [btfAddBtf_eq]
      cases hm : btfAddBtfMem src btf.opened with
      | error e => exact ⟨e, Or.inr ⟨rfl, rfl⟩⟩
      | ok u =>
        obtain ⟨h1, h2, h3, h4⟩ := btfAddBtfMem_iff.mp hm
        rcases h with h | h | h | h | h | h
        · exact absurd h hb
        · rw [hse] at h
          cases h
        · omega
        · exact absurd h2 (Nat.not_lt_of_le h)
        · exact absurd h3 (Nat.not_le_of_lt h)
        · exact absurd h h4

/-- A call that is not refused copies, and commits what it copied. -/
theorem Btf.addBtf_copies (h : ¬ Btf.AddBtfRefused src btf) :
    Btf.addBtf src btf = btfAddBtfDone src btf.opened
      (btfCopyAll src src.copyFrom btf.typeCnt src.types ⟨btf.opened, some Hashmap.init⟩) := by
  unfold Btf.AddBtfRefused at h
  simp only [not_or] at h
  obtain ⟨h1, h2, h3, h4, h5, h6⟩ := h
  have hm : btfAddBtfMem src btf.opened = .ok () := by
    apply btfAddBtfMem_iff.mpr
    exact ⟨Nat.lt_of_not_le h3, Nat.lt_of_not_le h4, Nat.le_of_not_lt h5, h6⟩
  rw [Btf.addBtf_eq, if_neg h1, if_neg h2, btfAddBtf_eq, hm]
  rfl

end Libbpf
