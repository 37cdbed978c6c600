/-
What a relocation keeps.

The rewriting changes words of records in place (`Rewritten`): the info word
and the length of a record stay, and so does every word that the iterator
does not visit. The string map sends an offset of the distilled base to an
offset of the new base with the same string (`MapsOk`), whatever order the
names were sorted in, since two names are only put together where they
compare equal. So a type has the name it had (`relocated_name`), where the
two bases are not themselves split: the source takes the length of their own
strings for the length of all of them.
-/
import Libbpf.Btf.Relocate
import Libbpf.Btf.FindSpec

namespace Libbpf

open Lib List

variable {t t' : BtfType} {m m' : BtfRelocateMaps} {f : Nat → Res Nat}
  {slots ids nameCnt : List Nat} {w : Nat} {kind : BtfKind} {d : BtfFieldDesc}

-- ======== the maps

theorem strcmp_eq_zero {a b : CStr} (h : strcmp a b = 0) : a = b := by
  unfold strcmp at h
  by_cases h₁ : a.val < b.val
  · rw [if_pos h₁] at h
    omega
  by_cases h₂ : b.val < a.val
  · rw [if_pos h₂] at h
    omega
  exact Subtype.ext (List.le_antisymm (Std.not_lt.mp h₂) (Std.not_lt.mp h₁))

theorem cmpBtfNameSize_name {n1 n2 : BtfNameInfo} (h : cmpBtfNameSize n1 n2 = 0) :
    n1.name = n2.name := by
  unfold cmpBtfNameSize at h
  by_cases hc : strcmp n1.name n2.name = 0 ∧ n1.needsSize ∧ n2.needsSize
  · exact strcmp_eq_zero hc.1
  · rw [if_neg hc] at h
    exact strcmp_eq_zero h

/-- An entry of the sort index has the name of its type. -/
def BtfNameInfo.Of (dist : Btf) (d : BtfNameInfo) : Prop :=
  ∃ t, btfTypeById dist d.id = some t ∧ dist.strByOffset t.nameOff = some d.name

/-- The maps hold words, and a string offset is mapped to one of the same
string. -/
structure MapsOk (base dist : Btf) (m : BtfRelocateMaps) : Prop where
  ids : ∀ v ∈ m.idMap, v < 2 ^ 32
  strs : ∀ off v : Nat, m.strMap[off]? = some v → v ≠ 0 →
    v < 2 ^ 32 ∧ ∃ s, dist.strByOffset off = some s ∧ base.strByOffset v = some s

section

variable {btf base dist : Btf} {nrDist fuel : Nat} {idMap idMap' : List Nat}

theorem forall_mem_set {P : Nat → Prop} {l : List Nat} (h : ∀ v ∈ l, P v) {i : Nat}
    (hw : P w) : ∀ v ∈ l.set i w, P v := fun v hv => by
  rcases mem_or_eq_of_mem_set hv with hv | rfl
  · exact h v hv
  · exact hw

theorem btfMarkEmbeddedFrom_words {nextId : Nat}
    (h : btfMarkEmbeddedFrom btf nrDist fuel nextId idMap = .ok idMap')
    (hw : ∀ v ∈ idMap, v < 2 ^ 32) : ∀ v ∈ idMap', v < 2 ^ 32 := by
  induction fuel generalizing nextId with
  | zero => cases h
  | succ fuel ih =>
    rw [btfMarkEmbeddedFrom] at h
    by_cases h0 : nextId = 0
    · rw [if_pos h0] at h
      cases h
      exact hw
    rw [if_neg h0] at h
    obtain ⟨t, -, h⟩ := of_bind_ok h
    cases hk : t.kind with
    | const | restrict | volatile | typedef | typeTag | array =>
      rw [hk] at h
      exact ih h
    | struct | union =>
      rw [hk] at h
      cases h
      split
      · exact forall_mem_set hw (by decide)
      · exact hw
    | _ =>
      rw [hk] at h
      cases h
      exact hw

theorem btfMarkEmbeddedSlots_words
    (h : btfMarkEmbeddedSlots btf nrDist fuel t slots idMap = .ok idMap')
    (hw : ∀ v ∈ idMap, v < 2 ^ 32) : ∀ v ∈ idMap', v < 2 ^ 32 := by
  induction slots generalizing idMap with
  | nil =>
    cases h
    exact hw
  | cons i slots ih =>
    obtain ⟨idMap₁, h₁, h⟩ := of_bind_ok h
    exact ih h (btfMarkEmbeddedFrom_words h₁ hw)

theorem btfMarkEmbedded_words (h : btfMarkEmbedded btf nrDist fuel ids idMap = .ok idMap')
    (hw : ∀ v ∈ idMap, v < 2 ^ 32) : ∀ v ∈ idMap', v < 2 ^ 32 := by
  induction ids generalizing idMap with
  | nil =>
    cases h
    exact hw
  | cons i ids ih =>
    obtain ⟨t, -, h⟩ := of_bind_ok h
    by_cases hc : t.isComposite = true
    · rw [if_pos hc] at h
      obtain ⟨slots, -, h⟩ := of_bind_ok h
      obtain ⟨idMap₁, h₁, h⟩ := of_bind_ok h
      exact ih h (btfMarkEmbeddedSlots_words h₁ hw)
    · rw [if_neg hc] at h
      exact ih h hw

theorem btfNameInfos_of {infos : List BtfNameInfo}
    (h : btfNameInfos dist ids = .ok infos) : ∀ d ∈ infos, d.Of dist := by
  induction ids generalizing infos with
  | nil =>
    cases h
    intro d hd
    cases hd
  | cons id ids ih =>
    obtain ⟨t, ht, h⟩ := of_bind_ok h
    obtain ⟨name, hname, h⟩ := of_bind_ok h
    obtain ⟨rest, hrest, h⟩ := of_bind_ok h
    cases h
    rw [deref_eq_ok] at ht hname
    intro d hd
    rcases mem_cons.mp hd with rfl | hd
    · exact ⟨t, ht, hname⟩
    · exact ih hrest d hd

theorem btfBaseInfo_ok {id : Nat} {info : BtfNameInfo}
    (h : btfBaseInfo base nameCnt id t = .ok (some info)) :
    info.id = id ∧ base.strByOffset t.nameOff = some info.name := by
  obtain ⟨name, hname, h⟩ := of_bind_ok h
  rw [deref_eq_ok] at hname
  cases hk : t.kind with
  | int | float | enum | enum64 | fwd =>
    rw [hk] at h
    cases h
    exact ⟨rfl, hname⟩
  | struct | union =>
    rw [hk] at h
    obtain ⟨cnt, -, h⟩ := of_bind_ok h
    cases h
    exact ⟨rfl, hname⟩
  | _ =>
    rw [hk] at h
    cases h

theorem btfRelocateMatch_ok {baseT : BtfType} {baseInfo : BtfNameInfo} {ds : List BtfNameInfo}
    (h : btfRelocateMatch dist baseT baseInfo ds m = .ok m') (hm : MapsOk base dist m)
    (hds : ∀ d ∈ ds, d.Of dist) (hid : baseInfo.id < 2 ^ 32) (hoff : baseT.nameOff < 2 ^ 32)
    (hname : base.strByOffset baseT.nameOff = some baseInfo.name) : MapsOk base dist m' := by
  induction ds generalizing m with
  | nil =>
    cases h
    exact hm
  | cons d ds ih =>
    have ih := fun {m} h hm => ih (m := m) h hm fun e he => hds e (mem_cons_of_mem _ he)
    rw [btfRelocateMatch] at h
    by_cases hcmp : cmpBtfNameSize baseInfo d ≠ 0
    · rw [if_pos hcmp] at h
      cases h
      exact hm
    rw [if_neg hcmp] at h
    obtain ⟨_, -, h⟩ := of_bind_ok h
    obtain ⟨distT, hdist, h⟩ := of_bind_ok h
    obtain ⟨cur, -, h⟩ := of_bind_ok h
    by_cases hcompat : btfDistilledCompat distT baseT cur = true
    · rw [if_pos hcompat] at h
      obtain ⟨_, -, h⟩ := of_bind_ok h
      obtain ⟨_, -, h⟩ := of_bind_ok h
      refine ih h ⟨forall_mem_set hm.ids hid, fun off v hv hne => ?_⟩
      by_cases hsame : off = distT.nameOff
      · -- the offset that is mapped now
        obtain ⟨t, ht, hs⟩ := hds d (mem_cons_self ..)
        rw [ht] at hdist
        cases hdist
        have hv' : v = baseT.nameOff := by
          rw [hsame, getElem?_set_self'] at hv
          obtain ⟨_, -, hv⟩ := Option.map_eq_some_iff.mp hv
          exact hv.symm
        rw [hv', hsame]
        refine ⟨hoff, d.name, hs, ?_⟩
        rw [hname, cmpBtfNameSize_name (not_not.mp hcmp)]
      · rw [getElem?_set_ne (Ne.symm hsame)] at hv
        exact hm.strs off v hv hne
    · rw [if_neg hcompat] at h
      exact ih h hm

theorem btfRelocateMatchAll_ok {info : List BtfNameInfo}
    (h : btfRelocateMatchAll base dist info nameCnt ids m = .ok m') (hm : MapsOk base dist m)
    (hinfo : ∀ d ∈ info, d.Of dist) (hw : base.Wf) (hids : ∀ id ∈ ids, id < 2 ^ 32) :
    MapsOk base dist m' := by
  induction ids generalizing m with
  | nil =>
    cases h
    exact hm
  | cons id ids ih =>
    have ih := fun {m} h hm => ih (m := m) h hm fun e he => hids e (mem_cons_of_mem _ he)
    obtain ⟨baseT, hbase, h⟩ := of_bind_ok h
    rw [deref_eq_ok] at hbase
    by_cases hanon : baseT.nameOff = 0
    · rw [if_pos hanon] at h
      exact ih h hm
    rw [if_neg hanon] at h
    obtain ⟨o, ho, h⟩ := of_bind_ok h
    cases o with
    | none => exact ih h hm
    | some baseInfo =>
      obtain ⟨i, -, h⟩ := of_bind_ok h
      cases i with
      | none => exact ih h hm
      | some i =>
        obtain ⟨m₁, hmatch, h⟩ := of_bind_ok h
        obtain ⟨hid, hname⟩ := btfBaseInfo_ok ho
        refine ih h (btfRelocateMatch_ok hmatch hm
          (fun d hd => hinfo d (mem_of_mem_drop hd)) ?_ ?_ hname)
        · rw [hid]
          exact hids id (mem_cons_self ..)
        · exact hw.typeById_fits hbase _ (mem_cons_self ..)

/-- The maps that a relocation makes. -/
theorem btfRelocateMapDistilledBase_ok {qsort : List BtfNameInfo → List BtfNameInfo}
    (h : btfRelocateMapDistilledBase qsort fuel btf base dist m = .ok m')
    (hq : ∀ l, ∀ d ∈ qsort l, d ∈ l) (hw : base.Wf) (hcnt : base.typeCnt ≤ 2 ^ 32)
    (hm : MapsOk base dist m) : MapsOk base dist m' := by
  obtain ⟨info, hinfo, h⟩ := of_bind_ok h
  obtain ⟨idMap₁, hmark, h⟩ := of_bind_ok h
  obtain ⟨nameCnt, -, h⟩ := of_bind_ok h
  obtain ⟨m₁, hmatch, h⟩ := of_bind_ok h
  obtain ⟨_, -, h⟩ := of_bind_ok h
  cases h
  refine btfRelocateMatchAll_ok hmatch ⟨btfMarkEmbedded_words hmark hm.ids, hm.strs⟩
    (fun d hd => btfNameInfos_of hinfo d (hq _ d hd)) hw fun id hid => ?_
  rw [mem_range'_1] at hid
  omega

end

-- ======== the rewriting

/-- A record whose words `slots` were rewritten by `f`. -/
structure WordsRewritten (f : Nat → Res Nat) (slots : List Nat) (t t' : BtfType) : Prop where
  length : t'.rest.length = t.rest.length
  other : ∀ i, i ∉ slots → t'.word i = t.word i
  slot : ∀ i ∈ slots, i < t.words.length → f (t.word i) = .ok (t'.word i)

theorem each_onWord_ok (hnd : slots.Nodup) (h : each (onWord f) slots t = .ok () t') :
    WordsRewritten f slots t t' := by
  induction slots generalizing t with
  | nil =>
    cases h
    exact ⟨rfl, fun _ _ => rfl, fun i hi => by cases hi⟩
  | cons j slots ih =>
    obtain ⟨hj, hnd⟩ := nodup_cons.mp hnd
    obtain ⟨_, u, hu, h⟩ := bind_eq_ok.mp h
    unfold onWord at hu
    cases hf : f (t.word j) with
    | error e =>
      rw [hf] at hu
      cases hu
    | ok w =>
      rw [hf] at hu
      cases hu
      obtain ⟨hlen, hother, hslot⟩ := ih hnd h
      refine ⟨hlen.trans (t.rest_length_setWord j w), fun i hi => ?_, fun i hi hlt => ?_⟩
      · have hij : j ≠ i := fun hij => hi (hij ▸ mem_cons_self ..)
        rw [hother i fun hmem => hi (mem_cons_of_mem _ hmem), t.word_setWord_ne hij]
      · have hlt' : i < (t.setWord j w).words.length := by
          rw [BtfType.words_setWord, length_set]
          exact hlt
        rcases mem_cons.mp hi with rfl | hmem
        · rw [hother i hj, t.word_setWord_self hlt, hf]
        · have hij : j ≠ i := fun hij => hj (hij ▸ hmem)
          rw [← hslot i hmem hlt', t.word_setWord_ne hij]

/-- A record that the iterator went through. -/
theorem onFields_ok {kind : BtfFieldIterKind} (h : onFields kind f t = .ok () t') :
    ∃ d, btfFieldDesc kind t.kind = some d ∧ WordsRewritten f (d.slots t.vlen) t t' := by
  have h : (liftRes (btfFieldSlots kind t) >>= each (onWord f)) t = .ok () t' := h
  obtain ⟨slots, u, hslots, h⟩ := bind_eq_ok.mp h
  obtain ⟨hslots, hu⟩ := liftRes_eq_ok.mp hslots
  rw [hu] at h
  cases hd : btfFieldDesc kind t.kind with
  | none =>
    rw [btfFieldSlots_none hd] at hslots
    cases hslots
  | some d =>
    rw [btfFieldSlots_eq hd] at hslots
    cases hslots
    exact ⟨d, rfl, each_onWord_ok (slots_nodup hd _) h⟩

theorem WordsRewritten.info {k : BtfFieldIterKind} {vlen : Nat} (hd : btfFieldDesc k kind = some d)
    (h : WordsRewritten f (d.slots vlen) t t') : t'.info = t.info :=
  h.other 1 fun hi => slots_ne_info hd hi rfl

/-- The words fit if the new ones do. -/
theorem WordsRewritten.fits (h : WordsRewritten f slots t t') (hfits : t.Fits)
    (hf : ∀ w v, w < 2 ^ 32 → f w = .ok v → v < 2 ^ 32) : t'.Fits := by
  intro w hw
  obtain ⟨i, hi⟩ := mem_iff_getElem?.mp hw
  have hword : t'.word i = w := by rw [BtfType.word, getD_eq_getElem?_getD, hi]; rfl
  have hlt : i < t.words.length := by
    have := (List.getElem?_eq_some_iff.mp hi).1
    rw [BtfType.words_length] at this ⊢
    rw [← h.length]
    exact this
  have hold : t.word i < 2 ^ 32 := by
    rw [BtfType.word, getD_eq_getElem?_getD, getElem?_eq_getElem hlt]
    exact hfits _ (getElem_mem hlt)
  rw [← hword]
  by_cases hslot : i ∈ slots
  · exact hf _ _ hold (h.slot i hslot hlt)
  · rw [h.other i hslot]
    exact hold

/-- The object but for its type section and the raw data. -/
structure Retyped (btf btf' : Btf) : Prop where
  own : btf'.toBtfOwn = { btf.toBtfOwn with types := btf'.types, rawData := btf'.rawData }
  base : btf'.baseBtf = btf.baseBtf

theorem Retyped.again {btf btf' : Btf} (h : Retyped btf btf') (types : List BtfType)
    (rawData : Option Bytes) : { btf'.toBtfOwn with types := types, rawData := rawData }
      = { btf.toBtfOwn with types := types, rawData := rawData } := by
  have hown : ∀ o : BtfOwn, o = { btf.toBtfOwn with types := o.types, rawData := o.rawData } →
      { o with types := types, rawData := rawData }
        = { btf.toBtfOwn with types := types, rawData := rawData } := by
    intro o ho
    rw [ho]
  exact hown _ h.own

theorem Retyped.trans {btf btf' btf'' : Btf} (h' : Retyped btf' btf'') (h : Retyped btf btf') :
    Retyped btf btf'' := by
  refine ⟨?_, h'.base.trans h.base⟩
  rw [h'.own]
  exact h.again _ _

section

variable {btf btf' : Btf} (h : Retyped btf btf')

include h

theorem Retyped.hdr : btf'.hdr = btf.hdr := by rw [h.own]

theorem Retyped.typeOffs : btf'.typeOffs = btf.typeOffs := by rw [h.own]

theorem Retyped.strs : btf'.strs = btf.strs := by rw [h.own]

theorem Retyped.layout : btf'.layout = btf.layout := by rw [h.own]

theorem Retyped.note : btf'.namedStartId = btf.namedStartId := by rw [h.own]

end

theorem Retyped.startId {btf btf' : Btf} (h : Retyped btf btf') :
    btf'.startId = btf.startId := by rw [h.own]

/-- A loop over all own types: each was rewritten. -/
theorem each_onType_ok {host : ByteOrder} {m : Run BtfType Unit} {btf btf' : Btf}
    (h : each (fun i => onType host i m) (List.range' btf.startId btf.types.length) btf
      = .ok () btf') :
    Retyped btf btf' ∧ btf'.types.length = btf.types.length
      ∧ ∀ (j : Nat) t, btf.types[j]? = some t →
        ∃ t', m t = .ok () t' ∧ btf'.types[j]? = some t' := by
  have hinv := each_ok (fun pre b => Retyped btf b ∧ b.types.length = btf.types.length
    ∧ ∀ (j : Nat) t, btf.types[j]? = some t →
      (j < pre.length → ∃ t', m t = .ok () t' ∧ b.types[j]? = some t')
      ∧ (pre.length ≤ j → b.types[j]? = some t)) h
    ⟨⟨rfl, rfl⟩, rfl, fun j t ht => ⟨fun hj => absurd hj (Nat.not_lt_zero j), fun _ => ht⟩⟩
    fun pre i post b b' hsplit ⟨hre, hlen, hall⟩ hstep => ?_
  · obtain ⟨hre, hlen, hall⟩ := hinv
    refine ⟨hre, hlen, fun j t ht => (hall j t ht).1 ?_⟩
    rw [length_range']
    exact (List.getElem?_eq_some_iff.mp ht).1
  · -- the record at hand is the one after those processed
    have hi : i = btf.startId + pre.length := by
      have hget : (List.range' btf.startId btf.types.length)[pre.length]? = some i := by
        rw [hsplit]
        simp
      have hlt : pre.length < btf.types.length := by
        have := congrArg List.length hsplit
        rw [length_range', length_append, length_cons] at this
        omega
      rw [getElem?_range' hlt] at hget
      cases hget
      omega
    have hidx : i - b.startId = pre.length := by rw [hre.startId]; omega
    unfold onType at hstep
    rw [hidx] at hstep
    cases hget : b.types[pre.length]? with
    | none =>
      rw [hget] at hstep
      cases hstep
    | some t =>
      rw [hget] at hstep
      dsimp only at hstep
      cases hm : m t with
      | error e t' =>
        rw [hm] at hstep
        cases hstep
      | ok u t' =>
        rw [hm] at hstep
        cases hstep
        have hlt := (List.getElem?_eq_some_iff.mp hget).1
        refine ⟨⟨?_, hre.base⟩, by rw [← hlen]; exact length_set .., fun j u hu => ?_⟩
        · exact hre.again _ _
        · obtain ⟨hdone, hleft⟩ := hall j u hu
          rw [length_append, length_singleton]
          show _ ∧ (_ → (b.types.set pre.length t')[j]? = some u)
          by_cases hj : j = pre.length
          · rw [hj] at hu ⊢
            have htu : some t = some u := by rw [← hget, ← hleft (by omega), hj]
            cases htu
            exact ⟨fun _ => ⟨t', hm, getElem?_set_self hlt⟩, fun hle => by omega⟩
          rw [getElem?_set_ne (Ne.symm hj)]
          refine ⟨fun hlt => ?_, fun hle => hleft (by omega)⟩
          obtain ⟨u', hu', hget'⟩ := hdone (by omega)
          refine ⟨u', hu', ?_⟩
          show (b.types.set pre.length t')[j]? = some u'
          rw [getElem?_set_ne (Ne.symm hj)]
          exact hget'

/-- The parts of a relocation that succeeds. -/
theorem btfRelocate_parts {host : ByteOrder} {qsort : List BtfNameInfo → List BtfNameInfo}
    {fuel : Nat} {btf btf' base dist : Btf} (hw : btf.Wf) (hb : btf.baseBtf = some dist)
    (h : btfRelocate host qsort fuel (some base) btf = .ok () btf') :
    ∃ idMap m mid mid', btfRelocateMapDistilledBase qsort fuel btf base dist
        ⟨idMap, List.replicate dist.hdr.strLen 0⟩ = .ok m
      ∧ (∀ v ∈ idMap, v < 2 ^ 32)
      ∧ each (btfRelocateRewriteTypeId host m) (List.range' btf.startId btf.types.length) btf
        = .ok () mid
      ∧ each (btfRelocateRewriteStrs host base dist m)
        (List.range' btf.startId btf.types.length) mid = .ok () mid'
      ∧ btf' = btfSetBaseBtf base mid' := by
  have hstart := hw.own.startId
  rw [hb, Btf.startIdOn] at hstart
  have hcnt := hw.own.typeCnt
  have hn : btf.typeCnt - dist.typeCnt = btf.types.length := by omega
  unfold btfRelocate at h
  obtain ⟨_, _, hget, h⟩ := bind_eq_ok.mp h
  cases hget
  obtain ⟨_, _, hsome, h⟩ := bind_eq_ok.mp h
  cases hsome
  obtain ⟨_, s, hfail, h⟩ := bind_eq_ok.mp h
  obtain ⟨-, hs⟩ := liftRes_eq_ok.mp hfail
  rw [hs] at h
  obtain ⟨d, s₁, hd, h⟩ := bind_eq_ok.mp h
  obtain ⟨hd, hs₁⟩ := liftRes_eq_ok.mp hd
  rw [deref_eq_ok, hb] at hd
  cases hd
  rw [hs₁] at h
  obtain ⟨_, s₂, hvalid, h⟩ := bind_eq_ok.mp h
  obtain ⟨-, hs₂⟩ := liftRes_eq_ok.mp hvalid
  rw [hs₂] at h
  obtain ⟨m, s₃, hmap, h⟩ := bind_eq_ok.mp h
  obtain ⟨hmap, hs₃⟩ := liftRes_eq_ok.mp hmap
  rw [hs₃, hn, ← hstart] at h
  obtain ⟨_, mid, hids, h⟩ := bind_eq_ok.mp h
  obtain ⟨_, mid', hstrs, h⟩ := bind_eq_ok.mp h
  cases h
  refine ⟨_, m, mid, mid', hmap, fun v hv => ?_, hids, hstrs, rfl⟩
  rcases mem_append.mp hv with hv | hv
  · rw [eq_of_mem_replicate hv]
    decide
  · obtain ⟨id, -, rfl⟩ := mem_map.mp hv
    exact Nat.mod_lt _ (by decide)

/-- A record that was moved to the new base: its IDs were rewritten, then
its strings. -/
structure TypeRelocated (base dist : Btf) (m : BtfRelocateMaps) (t t' : BtfType) : Prop where
  kind : t'.kind = t.kind
  vlen : t'.vlen = t.vlen
  length : t'.rest.length = t.rest.length
  fits : t.Fits → t'.Fits
  name : t.kind ≠ .unkn →
    btfRelocateStr dist.hdr.strLen base.hdr.strLen m.strMap t.nameOff = .ok t'.nameOff

/-- Every kind but `BTF_KIND_UNKN` has its name among the strings. -/
theorem name_mem_slots (hd : btfFieldDesc .strs kind = some d) (hk : kind ≠ .unkn) (vlen : Nat) :
    0 ∈ d.slots vlen := by
  cases kind with
  | unkn => exact absurd rfl hk
  | other n => cases hd
  | _ =>
    cases hd
    exact mem_cons_self ..

theorem btfRelocateStr_lt {base dist : Btf} (hm : MapsOk base dist m)
    {v : Nat} (h : btfRelocateStr dist.hdr.strLen base.hdr.strLen m.strMap w = .ok v) :
    v < 2 ^ 32 := by
  unfold btfRelocateStr at h
  by_cases h0 : w = 0
  · rw [if_pos h0] at h
    cases h
    decide
  rw [if_neg h0] at h
  by_cases hge : w ≥ dist.hdr.strLen
  · rw [if_pos hge] at h
    cases h
    exact Nat.mod_lt _ (by decide)
  rw [if_neg hge] at h
  obtain ⟨off, hoff, h⟩ := of_bind_ok h
  obtain ⟨_, hne, h⟩ := of_bind_ok h
  cases h
  exact (hm.strs w v (deref_eq_ok.mp hoff) (failIf_eq_ok.mp hne)).1

theorem typeRelocated {base dist : Btf} (hm : MapsOk base dist m)
    {u : BtfType} (hids : onFields .ids (fun id => deref m.idMap[id]?) t = .ok () u)
    (hstrs : onFields .strs (btfRelocateStr dist.hdr.strLen base.hdr.strLen m.strMap) u
      = .ok () t') : TypeRelocated base dist m t t' := by
  obtain ⟨d, hd, hu⟩ := onFields_ok hids
  obtain ⟨e, he, ht'⟩ := onFields_ok hstrs
  have hinfo : u.info = t.info := hu.info hd
  have hinfo' : t'.info = u.info := ht'.info he
  have hkind : u.kind = t.kind := by rw [BtfType.kind, hinfo, ← BtfType.kind]
  have hvlen : u.vlen = t.vlen := by rw [BtfType.vlen, hinfo, ← BtfType.vlen]
  refine ⟨?_, ?_, ht'.length.trans hu.length, fun hfits => ?_, fun hk => ?_⟩
  · rw [BtfType.kind, hinfo', hinfo, ← BtfType.kind]
  · rw [BtfType.vlen, hinfo', hinfo, ← BtfType.vlen]
  · refine ht'.fits (hu.fits hfits fun w v _ hv => ?_) fun w v _ hv => btfRelocateStr_lt hm hv
    exact hm.ids v (mem_of_getElem? (deref_eq_ok.mp hv))
  · have hslot := name_mem_slots he (hkind ▸ hk) u.vlen
    -- the name is not a type ID
    have hsame : u.word 0 = t.word 0 :=
      hu.other 0 fun hi => slots_disjoint hd (hkind ▸ he) hi (hvlen ▸ hslot)
    have hword := ht'.slot 0 hslot (Nat.succ_pos _)
    rw [hsame] at hword
    exact hword

/-- What a relocation leaves of an object. -/
structure Relocated (base btf btf' : Btf) : Prop where
  wf : btf'.Wf
  base : btf'.baseBtf = some base
  note : btf'.namedStartId = btf.namedStartId
  length : btf'.types.length = btf.types.length
  names : ∀ (j : Nat) t s, btf.types[j]? = some t → t.kind ≠ .unkn →
    btf.strByOffset t.nameOff = some s →
    ∃ t', btf'.types[j]? = some t' ∧ btf'.strByOffset t'.nameOff = some s

section

variable {host : ByteOrder} {qsort : List BtfNameInfo → List BtfNameInfo} {fuel : Nat}
  {btf btf' base dist : Btf}

/-- A name is the same string on the new base. -/
theorem relocated_name (hw : btf.Wf) (hb : btf.baseBtf = some dist)
    (hdist : dist.baseBtf = none) (hbase : base.Wf) (hroot : base.baseBtf = none)
    (hm : MapsOk base dist m) (hw' : btf'.Wf) (hb' : btf'.baseBtf = some base)
    (hstrs : btf'.strs = btf.strs) (hlen : btf'.hdr.strLen = btf.hdr.strLen)
    {off off' : Nat} {s : CStr} (hs : btf.strByOffset off = some s)
    (h : btfRelocateStr dist.hdr.strLen base.hdr.strLen m.strMap off = .ok off') :
    btf'.strByOffset off' = some s := by
  have hstart : btf.startStrOff = dist.hdr.strLen := by
    rw [hw.own.startStrOff, hb, Btf.startStrOffOn, (hw.base hb).own.startStrOff, hdist]
    rfl
  have hstart' : btf'.startStrOff = base.hdr.strLen := by
    rw [hw'.own.startStrOff, hb', Btf.startStrOffOn, hbase.own.startStrOff, hroot]
    rfl
  unfold btfRelocateStr at h
  by_cases h0 : off = 0
  · rw [if_pos h0] at h
    cases h
    rw [h0, hw.strByOffset_zero.1] at hs
    rw [hw'.strByOffset_zero.1, hs]
  rw [if_neg h0] at h
  by_cases hge : off ≥ dist.hdr.strLen
  · rw [if_pos hge] at h
    cases h
    rw [Btf.strByOffset_eq, if_neg (by omega)] at hs
    by_cases hin : off - btf.startStrOff < btf.hdr.strLen
    · rw [if_pos hin] at hs
      -- own strings move by the difference of the bases
      have h₁ := hw.own.strs.strLen_le
      have h₂ := hw.own.strs.length_le
      have h₃ := hbase.own.strs.strLen_le
      have h₄ := hbase.own.strs.length_le
      unfold BTF_MAX_STR_OFFSET at h₂ h₄
      have hoff : (off + base.hdr.strLen + 2 ^ 32 - dist.hdr.strLen) % 2 ^ 32
          = base.hdr.strLen + (off - dist.hdr.strLen) := by omega
      rw [hoff, Btf.strByOffset_eq, if_neg (by omega), hstart', Nat.add_sub_cancel_left, hlen,
        if_pos (by omega), Btf.strsData, hstrs, ← hstart]
      exact hs
    · rw [if_neg hin] at hs
      cases hs
  · rw [if_neg hge] at h
    obtain ⟨v, hv, h⟩ := of_bind_ok h
    obtain ⟨_, hne, h⟩ := of_bind_ok h
    cases h
    obtain ⟨-, s', hs', hbs⟩ := hm.strs off off' (deref_eq_ok.mp hv) (failIf_eq_ok.mp hne)
    rw [hw.strByOffset_base hb hs'] at hs
    cases hs
    exact hw'.strByOffset_base hb' hbs

/-- A relocation between bases that are not split keeps the object in order,
the note, and the names. -/
theorem btfRelocate_relocated (hw : btf.Wf) (hb : btf.baseBtf = some dist)
    (hdist : dist.baseBtf = none) (hbase : base.Wf) (hroot : base.baseBtf = none)
    (hq : ∀ l, ∀ d ∈ qsort l, d ∈ l)
    (h : btfRelocate host qsort fuel (some base) btf = .ok () btf') :
    Relocated base btf btf' := by
  obtain ⟨idMap, m, mid, mid', hmap, hidMap, hids, hstrs, rfl⟩ := btfRelocate_parts hw hb h
  have hcnt : base.typeCnt ≤ 2 ^ 32 := by
    have h₁ := hbase.own.typeCnt
    have h₂ := hbase.own.types.cnt
    have h₃ := hbase.own.startId
    rw [hroot, Btf.startIdOn] at h₃
    unfold BTF_MAX_NR_TYPES at h₂
    omega
  have hm : MapsOk base dist m := by
    refine btfRelocateMapDistilledBase_ok hmap hq hbase hcnt ⟨hidMap, fun off v hv hne => ?_⟩
    exact absurd (eq_of_mem_replicate (mem_of_getElem? hv)) hne
  obtain ⟨hre, hlen, hall⟩ := each_onType_ok hids
  rw [← hre.startId, ← hlen] at hstrs
  obtain ⟨hre', hlen', hall'⟩ := each_onType_ok hstrs
  -- the two loops, record by record
  have hboth : ∀ (j : Nat) t, btf.types[j]? = some t →
      ∃ t', mid'.types[j]? = some t' ∧ TypeRelocated base dist m t t' := by
    intro j t ht
    obtain ⟨u, hu, hmid⟩ := hall j t ht
    obtain ⟨t', ht', hmid'⟩ := hall' j u hmid
    exact ⟨t', hmid', typeRelocated hm hu ht'⟩
  have hback : ∀ (j : Nat) t', mid'.types[j]? = some t' →
      ∃ t, btf.types[j]? = some t ∧ TypeRelocated base dist m t t' := by
    intro j t' ht'
    have hj : j < btf.types.length := by
      rw [← hlen, ← hlen']
      exact (List.getElem?_eq_some_iff.mp ht').1
    obtain ⟨u, hu, hrel⟩ := hboth j _ (getElem?_eq_getElem hj)
    rw [ht'] at hu
    cases hu
    exact ⟨_, getElem?_eq_getElem hj, hrel⟩
  have hsizes : btf.types.map BtfType.byteSz = mid'.types.map BtfType.byteSz := by
    refine ext_getElem? fun j => ?_
    rw [getElem?_map, getElem?_map]
    cases ht : btf.types[j]? with
    | none =>
      rw [List.getElem?_eq_none_iff, ← hlen, ← hlen', ← List.getElem?_eq_none_iff] at ht
      rw [ht]
    | some t =>
      obtain ⟨t', ht', hrel⟩ := hboth j t ht
      rw [ht']
      exact congrArg some (by rw [BtfType.byteSz, BtfType.byteSz, hrel.length])
  have hown := hre'.trans hre
  have hwf : (btfSetBaseBtf base mid').Wf := by
    have ho := hw.own
    refine .mk ⟨?_, ⟨?_, ?_, ?_, ?_, ?_⟩, ?_, ?_, rfl, rfl⟩ fun b hb => ?_
    · exact hown.hdr ▸ ho.hdr
    · show mid'.typeOffs = offsFrom BtfType.byteSz 0 mid'.types
      rw [hown.typeOffs, ho.types.offs]
      exact offsFrom_congr _ _ _ _ _ hsizes
    · show mid'.hdr.typeLen = total BtfType.byteSz mid'.types
      rw [hown.hdr, ho.types.typeLen, total, total, hsizes]
    · intro t' ht'
      obtain ⟨j, hj⟩ := mem_iff_getElem?.mp ht'
      obtain ⟨t, ht, hrel⟩ := hback j t' hj
      exact hrel.fits (ho.types.fits t (mem_of_getElem? ht))
    · intro t' ht' hknown
      obtain ⟨j, hj⟩ := mem_iff_getElem?.mp ht'
      obtain ⟨t, ht, hrel⟩ := hback j t' hj
      have hsized := ho.types.known t (mem_of_getElem? ht) (hrel.kind ▸ hknown)
      unfold BtfType.Sized at hsized ⊢
      rw [hrel.kind, hrel.vlen, hrel.length, hsized]
    · show mid'.types.length ≤ _
      rw [hlen', hlen]
      exact ho.types.cnt
    · have hs := ho.strs
      refine ⟨?_, ?_, ?_, fun hnone => (by cases hnone), fun data hdata => ?_, fun ss hss => ?_⟩
      · show mid'.hdr.strLen ≤ mid'.strs.data.length
        rw [hown.hdr, hown.strs]
        exact hs.strLen_le
      · show mid'.strs.data.length ≤ _
        rw [hown.strs]
        exact hs.length_le
      · show Terminated (mid'.strs.data.take mid'.hdr.strLen)
        rw [hown.hdr, hown.strs]
        exact hs.terminated
      · show data.length = mid'.hdr.strLen
        rw [hown.hdr]
        exact hs.raw data (hown.strs ▸ hdata)
      · exact hs.set ss (hown.strs ▸ hss)
    · have hl := ho.layout
      have hlayout : (btfSetBaseBtf base mid').layout = btf.layout := hown.layout
      have hhdr : (btfSetBaseBtf base mid').hdr = btf.hdr := hown.hdr
      unfold Btf.LayoutWf at hl ⊢
      rw [hlayout, hhdr]
      exact hl
    · cases hb
      exact hbase
  refine ⟨hwf, rfl, hown.note, hlen'.trans hlen, fun j t s ht hk hs => ?_⟩
  obtain ⟨t', ht', hrel⟩ := hboth j t ht
  exact ⟨t', ht', relocated_name hw hb hdist hbase hroot hm hwf rfl hown.strs
    (congrArg BtfHeader.strLen hown.hdr) hs (hrel.name hk)⟩

end

end Libbpf
