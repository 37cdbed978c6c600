/-
The type section `btf__permute` builds.

An accepted map is a bijection of the own IDs: the order array refuses a
second occurrence, and there are as many entries as types
(`btfPermuteOrder_ok`). The new type section is then the old one with
every record at its new place and its IDs renamed, or one of the records
has an ID out of range (`renumbered_cases`), and renumbering by the
inverse map brings it back (`Renumbers.back`).
-/
import Mathlib.Data.List.GetD
import Mathlib.Data.List.Nodup
import Mathlib.Data.List.Perm.Subperm
import Libbpf.Btf.Permute
import Libbpf.Btf.Copy

namespace Libbpf

open Lib List

variable {ts : List BtfType} {t t' : BtfType} {id w : Nat} {l : List Nat}

-- ======== the order

namespace BtfPermute

/-- The entries for the own types. -/
def ids (p : BtfPermute) : List Nat := p.idMap.drop p.startOffs

/-- Where the order array keeps the type that becomes `id`. -/
def slot (p : BtfPermute) (id : Nat) : Nat := id - (p.startId - p.startOffs)

/-- An ID of the object's own. -/
def Own (p : BtfPermute) (id : Nat) : Prop := p.startId ≤ id ∧ id < p.typeCnt

/-- What the checks at the start establish. -/
structure Started (p : BtfPermute) : Prop where
  pos : 0 < p.startId
  offs : p.startOffs ≤ p.startId
  cnt : p.typeCnt = p.startId + (p.idMap.length - p.startOffs)
  len : p.startOffs ≤ p.idMap.length

end BtfPermute

section

variable {p : BtfPermute} (hp : p.Started)

include hp

theorem BtfPermute.Started.slot_lt (h : p.Own id) : p.slot id < p.idMap.length := by
  have := hp.cnt
  unfold BtfPermute.Own at h
  unfold BtfPermute.slot
  omega

theorem BtfPermute.Started.slot_inj {id' : Nat} (h : p.Own id) (h' : p.Own id')
    (he : p.slot id = p.slot id') : id = id' := by
  unfold BtfPermute.Own at h h'
  unfold BtfPermute.slot at he
  omega

/-- The loop refuses a map that is not injective on own IDs, and inverts
one that is. -/
theorem btfPermuteOrderFrom_ok : ∀ {ids : List Nat} {i : Nat}
    {order order' : List Nat}, p.startOffs ≤ i →
    btfPermuteOrderFrom p ids i order = .ok order' → order'.length = order.length
      ∧ (∀ id ∈ ids, p.Own id ∧ order[p.slot id]? = some 0) ∧ ids.Nodup
      ∧ (∀ k id, ids[k]? = some id → order'[p.slot id]? = some (i + k + p.startId - p.startOffs))
      ∧ ∀ j, (∀ id ∈ ids, p.slot id ≠ j) → order'[j]? = order[j]?
  | [], i, order, order', _, h => by
    cases h
    exact ⟨rfl, nofun, .nil, nofun, fun _ _ => rfl⟩
  | id :: ids, i, order, order', hi, h => by
    obtain ⟨_, hown, h⟩ := of_bind_ok h
    obtain ⟨cur, hcur, h⟩ := of_bind_ok h
    obtain ⟨_, hzero, h⟩ := of_bind_ok h
    rw [deref_eq_ok] at hcur
    rw [failIf_eq_ok, not_or] at hown
    rw [failIf_eq_ok, not_not] at hzero
    subst hzero
    have hown : p.Own id := ⟨by omega, by omega⟩
    obtain ⟨hlen, hall, hnd, hset, hkeep⟩ :=
      btfPermuteOrderFrom_ok (by omega) h
    change order[p.slot id]? = some 0 at hcur
    change order'.length = (order.set (p.slot id) _).length at hlen
    have hlt : p.slot id < order.length := (List.getElem?_eq_some_iff.mp hcur).1
    have hpos := hp.pos
    have hoffs := hp.offs
    -- a later entry finds the slots of the earlier ones taken
    have hne : ∀ id' ∈ ids, p.slot id' ≠ p.slot id := by
      intro id' hid' he
      have hz := (hall id' hid').2
      change (order.set (p.slot id) _)[p.slot id']? = _ at hz
      rw [he, getElem?_set_self hlt, Option.some.injEq] at hz
      omega
    refine ⟨hlen.trans (length_set ..), ?_, ?_, ?_, ?_⟩
    · intro id' hid'
      rcases mem_cons.mp hid' with rfl | hid'
      · exact ⟨hown, hcur⟩
      obtain ⟨hown', hz⟩ := hall id' hid'
      change (order.set (p.slot id) _)[p.slot id']? = _ at hz
      rw [getElem?_set_ne (hne id' hid').symm] at hz
      exact ⟨hown', hz⟩
    · exact nodup_cons.mpr ⟨fun hm => hne id hm rfl, hnd⟩
    · intro k id' hk
      cases k with
      | zero =>
        cases hk
        rw [hkeep _ hne]
        exact getElem?_set_self hlt
      | succ k =>
        rw [hset k id' hk]
        congr 1
        omega
    · intro j hj
      rw [hkeep j fun id' hid' => hj id' (mem_cons_of_mem _ hid')]
      exact getElem?_set_ne (hj id (mem_cons_self ..))

theorem btfPermuteOrderFrom_of : ∀ {ids : List Nat} {i : Nat} {order : List Nat},
    p.startOffs ≤ i → order.length = p.idMap.length → ids.Nodup →
    (∀ id ∈ ids, p.Own id ∧ order[p.slot id]? = some 0) →
    ∃ order', btfPermuteOrderFrom p ids i order = .ok order'
  | [], _, order, _, _, _, _ => ⟨order, rfl⟩
  | id :: ids, i, order, hi, hlen, hnd, hall => by
    obtain ⟨hnot, hnd⟩ := nodup_cons.mp hnd
    obtain ⟨hown, hz⟩ := hall id (mem_cons_self ..)
    have hrest : ∀ id' ∈ ids, p.Own id'
        ∧ (order.set (p.slot id) (i + p.startId - p.startOffs))[p.slot id']? = some 0 := by
      intro id' hid'
      obtain ⟨hown', hz'⟩ := hall id' (mem_cons_of_mem _ hid')
      have hne : p.slot id ≠ p.slot id' := fun he =>
        hnot (hp.slot_inj hown hown' he ▸ hid')
      exact ⟨hown', (getElem?_set_ne hne).trans hz'⟩
    obtain ⟨order', h⟩ := btfPermuteOrderFrom_of (Nat.le_succ_of_le hi)
      ((length_set ..).trans hlen) hnd hrest
    refine ⟨order', ?_⟩
    unfold BtfPermute.Own at hown
    refine failIf_bind_ok (by omega) ?_
    refine bind_ok (deref_eq_ok.mpr hz) ?_
    exact failIf_bind_ok (by decide) h

/-- The loop stays inside the order array. -/
theorem btfPermuteOrderFrom_total : ∀ {ids : List Nat} {i : Nat} {order : List Nat},
    order.length = p.idMap.length →
    (∃ order', btfPermuteOrderFrom p ids i order = .ok order')
      ∨ btfPermuteOrderFrom p ids i order = fail EINVAL
  | [], _, order, _ => .inl ⟨order, rfl⟩
  | id :: ids, i, order, hlen => by
    rw [btfPermuteOrderFrom]
    by_cases hown : p.Own id
    · have hlt : p.slot id < order.length := hlen ▸ hp.slot_lt hown
      have hcur : deref order[id - (p.startId - p.startOffs)]? = .ok (order.get ⟨p.slot id, hlt⟩) :=
        deref_eq_ok.mpr (getElem?_eq_getElem hlt)
      obtain ⟨hge, hlt'⟩ := hown
      rw [failIf, if_neg (by omega)]
      dsimp only [bind, Except.bind]
      rw [hcur]
      dsimp only
      by_cases hzero : order.get ⟨p.slot id, hlt⟩ = 0
      · rw [failIf, if_neg (not_not.mpr hzero)]
        exact btfPermuteOrderFrom_total ((length_set ..).trans hlen)
      · rw [failIf, if_pos hzero]
        exact .inr rfl
    · unfold BtfPermute.Own at hown
      rw [failIf, if_pos (by omega)]
      exact .inr rfl

end

namespace BtfPermute

/-- The map is a bijection of the own IDs. -/
def Bijective (p : BtfPermute) : Prop := p.ids.Nodup ∧ ∀ id ∈ p.ids, p.Own id

/-- The entries `inv` undo the map. -/
def Undoes (p : BtfPermute) (inv : List Nat) : Prop :=
  inv.length = p.ids.length
    ∧ ∀ k id, p.ids[k]? = some id → inv[id - p.startId]? = some (p.startId + k)

section

variable {p : BtfPermute} (hp : p.Started)

theorem ids_length (p : BtfPermute) : p.ids.length = p.idMap.length - p.startOffs :=
  length_drop

include hp

/-- As many different own IDs as there are own types are all of them. -/
theorem Started.perm (hnd : l.Nodup) (hown : ∀ id ∈ l, p.Own id) (hlen : l.length = p.ids.length) :
    l.Perm (List.range' p.startId p.ids.length) := by
  have hsub : l ⊆ List.range' p.startId p.ids.length := by
    intro id hid
    obtain ⟨hge, hlt⟩ := hown id hid
    have hcnt := hp.cnt
    have hids := p.ids_length
    exact mem_range'_1.mpr ⟨hge, by omega⟩
  refine (subperm_of_subset hnd hsub).perm_of_length_le ?_
  rw [length_range', hlen]

/-- Every own ID is taken by some type. -/
theorem Started.ids_onto (hb : p.Bijective) {j : Nat} (hj : j < p.ids.length) :
    ∃ k : Nat, p.ids[k]? = some (p.startId + j) := by
  have hmem : p.startId + j ∈ List.range' p.startId p.ids.length :=
    mem_range'_1.mpr ⟨by omega, by omega⟩
  exact getElem?_of_mem ((hp.perm hb.1 hb.2 rfl).mem_iff.mpr hmem)

/-- Undoing works both ways. -/
theorem Undoes.symm {inv : List Nat} (hu : p.Undoes inv) (hb : p.Bijective)
    {j v : Nat} (h : inv[j]? = some v) :
    ∃ k, v = p.startId + k ∧ p.ids[k]? = some (p.startId + j) := by
  have hj := (List.getElem?_eq_some_iff.mp h).1
  obtain ⟨k, hk⟩ := hp.ids_onto hb (hu.1 ▸ hj)
  have hv := hu.2 k _ hk
  rw [Nat.add_sub_cancel_left, h, Option.some.injEq] at hv
  exact ⟨k, hv, hk⟩

theorem Undoes.own {inv : List Nat} (hu : p.Undoes inv) (hb : p.Bijective) :
    ∀ v ∈ inv, p.Own v := by
  intro v hv
  obtain ⟨j, hj⟩ := getElem?_of_mem hv
  obtain ⟨k, rfl, hk⟩ := hu.symm hp hb hj
  have hlt := (List.getElem?_eq_some_iff.mp hk).1
  have hcnt := hp.cnt
  rw [p.ids_length] at hlt
  exact ⟨by omega, by omega⟩

theorem Undoes.nodup {inv : List Nat} (hu : p.Undoes inv) (hb : p.Bijective) : inv.Nodup := by
  refine nodup_iff_getElem?_ne_getElem?.mpr fun i j hij hj he => ?_
  have hvj := getElem?_eq_getElem hj
  obtain ⟨k, hk, hki⟩ := hu.symm hp hb (he.trans hvj)
  obtain ⟨k', hk', hkj⟩ := hu.symm hp hb hvj
  have hkk : k = k' := by omega
  rw [hkk, hkj, Option.some.injEq] at hki
  omega

theorem btfPermuteOrder_ok {order : List Nat} (h : btfPermuteOrder p = .ok order) :
    p.Bijective ∧ p.Undoes (order.drop p.startOffs) := by
  obtain ⟨hlen, hall, hnd, hset, -⟩ :=
    btfPermuteOrderFrom_ok hp (Nat.le_refl p.startOffs) h
  have hoffs := hp.offs
  refine ⟨⟨hnd, fun id hid => (hall id hid).1⟩, ?_, fun k id hk => ?_⟩
  · rw [length_drop, hlen, length_replicate, p.ids_length]
  · have hown := (hall id (mem_of_getElem? hk)).1
    have hslot : p.slot id = p.startOffs + (id - p.startId) := by
      unfold slot Own at *
      omega
    rw [getElem?_drop, ← hslot, hset k id hk]
    congr 1
    omega

theorem btfPermuteOrder_of (hb : p.Bijective) : ∃ order, btfPermuteOrder p = .ok order := by
  refine btfPermuteOrderFrom_of hp (Nat.le_refl _) length_replicate hb.1
    fun id hid => ⟨hb.2 id hid, ?_⟩
  exact getElem?_replicate_of_lt (hp.slot_lt (hb.2 id hid))

theorem btfPermuteOrder_total : (∃ order, btfPermuteOrder p = .ok order)
    ∨ btfPermuteOrder p = fail EINVAL :=
  btfPermuteOrderFrom_total hp length_replicate

end

-- ======== one type

/-- The new number of a type. -/
def newId (p : BtfPermute) (id : Nat) : Nat :=
  if id < p.startId then id else p.ids.getD (id - p.startId) 0

/-- The callback refuses an ID out of range and replaces any other. -/
theorem remap_eq {p : BtfPermute} (hp : p.Started) (w : Nat) : btfPermuteRemapTypeId p w
      = if w < p.typeCnt then .ok (p.newId w) else fail EINVAL := by
  have hcnt := hp.cnt
  unfold btfPermuteRemapTypeId newId
  by_cases hbase : w < p.startId
  · rw [if_pos hbase, if_pos hbase, if_pos (by omega)]
  rw [if_neg hbase, if_neg hbase]
  by_cases hw : w < p.typeCnt
  · rw [if_neg (by omega), if_pos hw, deref_eq_ok, ids, getD_eq_getElem?_getD,
      getElem?_drop, Nat.add_comm]
    have hlt : p.startOffs + (w - p.startId) < p.idMap.length := by
      have := hp.len
      omega
    rw [getElem?_eq_getElem hlt]
    rfl
  · rw [if_pos (by omega), if_neg hw]

/-- Record `t'` is record `t` with its IDs replaced. -/
structure Renames (p : BtfPermute) (t t' : BtfType) : Prop where
  info : t'.info = t.info
  len : t'.rest.length = t.rest.length
  ids : ∀ slots, btfFieldSlots .ids t = .ok slots →
    ∀ i ∈ slots, t.word i < p.typeCnt ∧ t'.word i = p.newId (t.word i)
  other : ∀ i, (∀ slots, btfFieldSlots .ids t = .ok slots → i ∉ slots) → t'.word i = t.word i

end BtfPermute

/-- The ID loop on one record, from both sides. -/
theorem btfPermuteIds_spec {p : BtfPermute} (hp : p.Started) :
    ∀ {slots : List Nat} {t : BtfType}, slots.Nodup → (∀ i ∈ slots, i ≠ 1 ∧ i < t.words.length) →
      (∃ t', btfPermuteIds p slots t = .ok t' ∧ t'.info = t.info ∧ t'.rest.length = t.rest.length
          ∧ (∀ i ∈ slots, t.word i < p.typeCnt ∧ t'.word i = p.newId (t.word i))
          ∧ ∀ j, j ∉ slots → t'.word j = t.word j)
        ∨ btfPermuteIds p slots t = fail EINVAL ∧ ∃ i ∈ slots, p.typeCnt ≤ t.word i
  | [], t, _, _ => .inl ⟨t, rfl, rfl, rfl, nofun, fun _ _ => rfl⟩
  | i :: slots, t, hnd, hin => by
    obtain ⟨hnot, hnd⟩ := nodup_cons.mp hnd
    obtain ⟨hi1, hilt⟩ := hin i mem_cons_self
    have hne : ∀ j ∈ slots, j ≠ i := fun j hj he => hnot (he ▸ hj)
    rw [btfPermuteIds, BtfPermute.remap_eq hp]
    by_cases hw : t.word i < p.typeCnt
    · rw [if_pos hw]
      have hin' : ∀ j ∈ slots, j ≠ 1 ∧ j < (t.setWord i (p.newId (t.word i))).words.length := by
        intro j hj
        rw [BtfType.words_setWord, length_set]
        exact hin j (mem_cons_of_mem _ hj)
      rcases btfPermuteIds_spec hp hnd hin' with
        ⟨t', hrun, hinfo, hlen, hids, hother⟩ | ⟨hrun, j, hj, hbad⟩
      · refine .inl ⟨t', hrun, hinfo.trans (t.info_setWord hi1),
          hlen.trans (t.rest_length_setWord i _), fun j hj => ?_, fun j hj => ?_⟩
        · rcases mem_cons.mp hj with rfl | hj
          · rw [hother j hnot, t.word_setWord_self hilt]
            exact ⟨hw, rfl⟩
          · have := hids j hj
            rwa [t.word_setWord_ne (hne j hj).symm] at this
        · rw [mem_cons, not_or] at hj
          rw [hother j hj.2, t.word_setWord_ne (Ne.symm hj.1)]
      · refine .inr ⟨hrun, j, mem_cons_of_mem _ hj, ?_⟩
        rwa [t.word_setWord_ne (hne j hj).symm] at hbad
    · rw [if_neg hw]
      exact .inr ⟨rfl, i, mem_cons_self, Nat.le_of_not_lt hw⟩

-- ======== all types

/-- The types of an object, of known kinds only. -/
structure KnownTypes (ts : List BtfType) : Prop where
  known : ∀ t ∈ ts, t.kind.known = true
  sized : ∀ t ∈ ts, t.Sized

namespace BtfPermute

/-- The state of a call that renumbers the types of `btf`. -/
structure Over (p : BtfPermute) (btf : Btf) : Prop extends p.Started where
  startId : p.startId = btf.startId
  typeCnt : p.typeCnt = btf.typeCnt
  types : btf.TypesWf
  kinds : KnownTypes btf.types

/-- Every ID of the record is one of a type. -/
def InRange (p : BtfPermute) (t : BtfType) : Prop :=
  ∀ slots, btfFieldSlots .ids t = .ok slots → ∀ i ∈ slots, t.word i < p.typeCnt

/-- The types `ts'` are `ts` renumbered. -/
def Renumbers (p : BtfPermute) (ts ts' : List BtfType) : Prop :=
  ts'.length = ts.length ∧ ∀ (k : Nat) t, ts[k]? = some t → ∃ id t',
    p.ids[k]? = some id ∧ ts'[id - p.startId]? = some t' ∧ p.Renames t t'

end BtfPermute

theorem KnownTypes.size (h : KnownTypes ts) (btf : Btf) (ht : t ∈ ts) : btfTypeSize btf t = .ok t.byteSz :=
  btfTypeSize_known (h.sized t ht)

theorem KnownTypes.slots (h : KnownTypes ts) (ht : t ∈ ts) : ∃ slots, btfFieldSlots .ids t = .ok slots ∧ slots.Nodup
      ∧ ∀ i ∈ slots, i ≠ 1 ∧ i < t.words.length := by
  have hk := h.known t ht
  obtain ⟨d, hd⟩ : ∃ d, btfFieldDesc .ids t.kind = some d := by
    cases hkind : t.kind with
    | other n =>
      rw [hkind] at hk
      cases hk
    | _ => exact ⟨_, rfl⟩
  refine ⟨_, btfFieldSlots_eq hd, slots_nodup hd _, fun i hi => ?_⟩
  exact ⟨slots_ne_info hd hi, by
    have := slots_lt hd (h.sized t ht) hi
    rw [BtfType.words_length]
    omega⟩

theorem trustedTypeSize_ok {btf : Btf} {sz : Nat}
    (h : btfTypeSize btf t = .ok sz) : trustedTypeSize btf t = .ok sz := by
  rw [trustedTypeSize, h]

theorem btfCopyType_self (t : BtfType) : btfCopyType t.byteSz t = .ok t := by
  have hlen : (t.byteSz - 12) / 4 = t.rest.length := by
    unfold BtfType.byteSz
    omega
  rw [btfCopyType, if_neg (Nat.lt_irrefl _), hlen, take_length]

/-- The copy of a record of known kind. -/
theorem btfPermuteIds_renames {p : BtfPermute} (hp : p.Started)
    (hts : KnownTypes ts) (ht : t ∈ ts) :
    ∃ slots, btfFieldSlots .ids t = .ok slots
      ∧ ((∃ t', btfPermuteIds p slots t = .ok t' ∧ p.Renames t t')
        ∨ btfPermuteIds p slots t = fail EINVAL ∧ ¬ p.InRange t) := by
  obtain ⟨slots, hslots, hnd, hin⟩ := hts.slots ht
  refine ⟨slots, hslots, ?_⟩
  rcases btfPermuteIds_spec hp hnd hin with
    ⟨t', hrun, hinfo, hlen, hids, hother⟩ | ⟨hrun, i, hi, hbad⟩
  · refine .inl ⟨t', hrun, hinfo, hlen, fun l hl => ?_, fun i hi => hother i (hi slots hslots)⟩
    rw [hslots] at hl
    cases hl
    exact hids
  · exact .inr ⟨hrun, fun h => Nat.not_lt_of_le hbad (h slots hslots i hi)⟩

section

variable {btf : Btf} {p : BtfPermute}

/-- The size of the type with an own ID. -/
def sizeOfId (ts : List BtfType) (startId id : Nat) : Nat :=
  (ts[id - startId]?).elim 0 BtfType.byteSz

theorem BtfPermute.Over.type (h : p.Over btf) (hid : p.Own id) :
    ∃ t, btf.typeById id = some t ∧ btf.types[id - p.startId]? = some t := by
  obtain ⟨hge, hlt⟩ := hid
  have hpos := h.pos
  have hs := h.startId
  have hc := h.typeCnt
  have hn := h.types.nrTypes
  unfold Btf.typeCnt at hc
  have hlt' : id - p.startId < btf.types.length := by omega
  refine ⟨btf.types.get ⟨_, hlt'⟩, ?_, getElem?_eq_getElem hlt'⟩
  rw [Btf.typeById_of_lt (h.typeCnt ▸ hlt), btfTypeById_own h.types (by omega) (by omega), ← hs]
  exact getElem?_eq_getElem hlt'

theorem BtfPermute.Over.ids_length (h : p.Over btf) : p.ids.length = btf.types.length := by
  have hn := h.types.nrTypes
  have hc := h.typeCnt
  have hs := h.startId
  have hcnt := h.cnt
  rw [BtfPermute.ids_length]
  unfold Btf.typeCnt at hc
  omega

/-- The copying loop, from both sides. -/
theorem btfPermuteTypes_spec (h : p.Over btf) {size : Nat} :
    ∀ {l : List Nat} {nt : Nat}, (∀ id ∈ l, p.Own id) →
      nt + total (sizeOfId btf.types p.startId) l ≤ size →
      (∃ ts, btfPermuteTypes btf p size l nt = .ok ts ∧ List.Forall₂ (fun id t' => ∃ t,
              btf.types[id - p.startId]? = some t ∧ p.Renames t t') l ts)
        ∨ btfPermuteTypes btf p size l nt = fail EINVAL ∧ ∃ t ∈ btf.types, ¬ p.InRange t
  | [], _, _, _ => .inl ⟨[], rfl, .nil⟩
  | id :: l, nt, hown, hsize => by
    obtain ⟨t, hid, hget⟩ := h.type (hown id mem_cons_self)
    have hmem := mem_of_getElem? hget
    have hsz : sizeOfId btf.types p.startId id = t.byteSz := by
      rw [sizeOfId, hget]
      rfl
    rw [total_cons, hsz] at hsize
    obtain ⟨slots, hslots, hcopy⟩ :=
      btfPermuteIds_renames h.toStarted h.kinds hmem
    rw [btfPermuteTypes, hid]
    dsimp only [deref, bind, Except.bind]
    rw [trustedTypeSize_ok (h.kinds.size btf hmem)]
    dsimp only
    rw [btfCopyType_self]
    dsimp only
    rw [faultIf, if_neg (by omega), hslots]
    dsimp only
    rcases hcopy with ⟨t', hrun, hren⟩ | ⟨hrun, hbad⟩
    · rw [hrun]
      dsimp only
      rcases btfPermuteTypes_spec h (fun i hi => hown i (mem_cons_of_mem _ hi))
          (by omega : nt + t.byteSz + _ ≤ size) with ⟨ts, hts, hall⟩ | ⟨hts, hbad⟩
      · rw [hts]
        exact .inl ⟨t' :: ts, rfl, .cons ⟨t, hget, hren⟩ hall⟩
      · rw [hts]
        exact .inr ⟨rfl, hbad⟩
    · rw [hrun]
      exact .inr ⟨rfl, t, hmem, hbad⟩

theorem total_sizeOfId (ts : List BtfType) (startId : Nat) :
    total (sizeOfId ts startId) (List.range' startId ts.length) = total BtfType.byteSz ts := by
  unfold total
  congr 1
  refine ext_getElem (by simp) fun i hi hi' => ?_
  rw [getElem_map, getElem_map, getElem_range', Nat.one_mul, sizeOfId, Nat.add_sub_cancel_left]
  rw [length_map] at hi'
  rw [getElem?_eq_getElem hi']
  rfl

/-- The index of a type section that is complete. -/
theorem btfPermuteOffs_eq (hs : ∀ t ∈ ts, btfTypeSize btf t = .ok t.byteSz) :
    ∀ {pre post : List BtfType}, ts = pre ++ post →
      btfPermuteOffs btf ts post.length (total BtfType.byteSz pre)
        = .ok (offsFrom BtfType.byteSz (total BtfType.byteSz pre) post)
  | _, [], _ => rfl
  | pre, t :: post, hts => by
    have hitem : itemAt BtfType.byteSz ts (total BtfType.byteSz pre) = some t := by
      rw [itemAt, hts, posAt_total _ _ _ (fun u _ => u.byteSz_pos) (by simp)]
      simp
    have hsz := hs t (by simp [hts])
    have hnext := btfPermuteOffs_eq hs (show ts = (pre ++ [t]) ++ post by simp [hts])
    rw [total_append, total_cons, total_nil, Nat.add_zero] at hnext
    rw [length_cons, btfPermuteOffs, hitem]
    dsimp only [deref, bind, Except.bind]
    rw [trustedTypeSize_ok hsz]
    dsimp only
    rw [hnext]
    rfl

/-- The two loops that build the new type section. -/
def renumbered (btf : Btf) (p : BtfPermute) : Res (List BtfType) := do
  let order ← btfPermuteOrder p
  btfPermuteTypes btf p btf.hdr.typeLen (order.drop p.startOffs) 0

theorem renumbers_of_order (h : p.Over btf) {inv : List Nat} (hu : p.Undoes inv)
    (hall : List.Forall₂ (fun id t' => ∃ t,
      btf.types[id - p.startId]? = some t ∧ p.Renames t t') inv ts) :
    p.Renumbers btf.types ts := by
  obtain ⟨hlen, hget⟩ := List.forall₂_iff_get.mp hall
  have hids := h.ids_length
  have hul := hu.1
  refine ⟨by omega, fun k t hk => ?_⟩
  have hlt : k < p.ids.length := by
    have := (List.getElem?_eq_some_iff.mp hk).1
    omega
  -- the slot of the order array that holds type `k`
  obtain ⟨id, hid⟩ : ∃ id, p.ids[k]? = some id :=
    ⟨_, getElem?_eq_getElem hlt⟩
  obtain ⟨hlt', hinv⟩ := List.getElem?_eq_some_iff.mp (hu.2 k id hid)
  obtain ⟨t₀, ht₀, hren⟩ := hget (id - p.startId) hlt' (hlen ▸ hlt')
  rw [get_eq_getElem, hinv, Nat.add_sub_cancel_left, hk, Option.some.injEq] at ht₀
  rw [← ht₀] at hren
  exact ⟨id, _, hid, getElem?_eq_getElem (hlen ▸ hlt'), hren⟩

/-- Records of the same kind and length have the same size. -/
theorem total_renumbers (hall : List.Forall₂ (fun id t' => ∃ t,
      btf.types[id - p.startId]? = some t ∧ p.Renames t t') l ts) :
    total BtfType.byteSz ts = total (sizeOfId btf.types p.startId) l := by
  induction hall with
  | nil => rfl
  | cons hid _ ih =>
    obtain ⟨t, ht, hren⟩ := hid
    rw [total_cons, total_cons, ih, sizeOfId, ht, BtfType.byteSz, hren.len]
    rfl

theorem renames_of_mem (hall : List.Forall₂ (fun id t' => ∃ t,
      btf.types[id - p.startId]? = some t ∧ p.Renames t t') l ts) :
    ∀ t' ∈ ts, ∃ t ∈ btf.types, p.Renames t t' := by
  intro t' ht'
  induction hall with
  | nil => cases ht'
  | cons hid _ ih =>
    rcases mem_cons.mp ht' with rfl | ht'
    · obtain ⟨t, ht, hren⟩ := hid
      exact ⟨t, mem_of_getElem? ht, hren⟩
    · exact ih ht'

theorem KnownTypes.renamed {ts' : List BtfType} (hk : KnownTypes ts)
    (h : ∀ t' ∈ ts', ∃ t ∈ ts, p.Renames t t') : KnownTypes ts' := by
  refine ⟨fun t' ht' => ?_, fun t' ht' => ?_⟩
  · obtain ⟨t, ht, hren⟩ := h t' ht'
    have := hk.known t ht
    rwa [BtfType.kind, ← hren.info] at this
  · obtain ⟨t, ht, hren⟩ := h t' ht'
    have := hk.sized t ht
    rwa [BtfType.Sized, BtfType.kind, BtfType.vlen, ← hren.info, ← hren.len] at this

/-- Building the new type section: it succeeds for a bijective map and
IDs in range, and fails cleanly otherwise. -/
theorem renumbered_cases (h : p.Over btf) :
    (∃ ts, renumbered btf p = .ok ts ∧ p.Bijective ∧ p.Renumbers btf.types ts
        ∧ (∀ t' ∈ ts, ∃ t ∈ btf.types, p.Renames t t')
        ∧ total BtfType.byteSz ts = total BtfType.byteSz btf.types)
      ∨ renumbered btf p = fail EINVAL ∧ ¬ (p.Bijective ∧ ∀ t ∈ btf.types, p.InRange t) := by
  unfold renumbered
  rcases BtfPermute.btfPermuteOrder_total h.toStarted with ⟨order, horder⟩ | hfail
  · obtain ⟨hb, hu⟩ := BtfPermute.btfPermuteOrder_ok h.toStarted horder
    have hperm := h.toStarted.perm (hu.nodup h.toStarted hb) (hu.own h.toStarted hb) hu.1
    have htotal : total (sizeOfId btf.types p.startId) (order.drop p.startOffs)
        = total BtfType.byteSz btf.types := by
      rw [← total_sizeOfId btf.types p.startId, ← h.ids_length]
      exact (hperm.map _).sum_nat
    rw [horder]
    dsimp only [bind, Except.bind]
    rcases btfPermuteTypes_spec h (hu.own h.toStarted hb)
        (show 0 + total (sizeOfId btf.types p.startId) (order.drop p.startOffs)
          ≤ btf.hdr.typeLen by rw [h.types.typeLen, htotal]; omega)
      with ⟨ts, hts, hall⟩ | ⟨hts, t, ht, hbad⟩
    · exact .inl ⟨ts, hts, hb, renumbers_of_order h hu hall,
        renames_of_mem hall, (total_renumbers hall).trans htotal⟩
    · exact .inr ⟨hts, fun hc => hbad (hc.2 t ht)⟩
  · rw [hfail]
    refine .inr ⟨rfl, fun hc => ?_⟩
    obtain ⟨order, horder⟩ := BtfPermute.btfPermuteOrder_of h.toStarted hc.1
    rw [horder] at hfail
    cases hfail

end

-- ======== and back

namespace BtfPermute

/-- Map `q` undoes map `p`. -/
structure Back (p q : BtfPermute) : Prop where
  startId : q.startId = p.startId
  typeCnt : q.typeCnt = p.typeCnt
  undoes : p.Undoes q.ids

section

variable {p q : BtfPermute} (hp : p.Started) (hb : p.Bijective) (h : p.Back q)

include hp in
theorem Started.newId_own (hw : p.Own w) : p.ids[w - p.startId]? = some (p.newId w) := by
  obtain ⟨hge, hlt⟩ := hw
  have hcnt := hp.cnt
  have hids := p.ids_length
  have hin : w - p.startId < p.ids.length := by omega
  rw [newId, if_neg (by omega), getD_eq_getElem?_getD, getElem?_eq_getElem hin]
  rfl

include hp hb in
theorem Started.newId_lt (hw : w < p.typeCnt) : p.newId w < p.typeCnt := by
  by_cases hbase : w < p.startId
  · rwa [newId, if_pos hbase]
  · have := hp.newId_own ⟨Nat.le_of_not_lt hbase, hw⟩
    exact (hb.2 _ (mem_of_getElem? this)).2

include hp in
/-- The words of a renamed record fit their fields. -/
theorem Renames.fits (hren : p.Renames t t') (hfits : t.Fits)
    (hmap : ∀ id ∈ p.idMap, id < 2 ^ 32) : t'.Fits := by
  have hword : ∀ i, t.word i < 2 ^ 32 := by
    intro i
    rw [BtfType.word, getD_eq_getElem?_getD]
    cases hi : t.words[i]? with
    | none => exact Nat.two_pow_pos 32
    | some v => exact hfits v (mem_of_getElem? hi)
  intro w hw
  obtain ⟨i, hi⟩ := getElem?_of_mem hw
  have hwi : t'.word i = w := by
    rw [BtfType.word, getD_eq_getElem?_getD, hi]
    rfl
  rw [← hwi]
  by_cases hslot : ∃ slots, btfFieldSlots .ids t = .ok slots ∧ i ∈ slots
  · obtain ⟨slots, hslots, hmem⟩ := hslot
    obtain ⟨hin, hnew⟩ := hren.ids slots hslots i hmem
    rw [hnew]
    by_cases hbase : t.word i < p.startId
    · rw [newId, if_pos hbase]
      exact hword i
    · have hown := hp.newId_own ⟨Nat.le_of_not_lt hbase, hin⟩
      exact hmap _ (mem_of_mem_drop (mem_of_getElem? hown))
  · rw [hren.other i fun slots hslots hmem => hslot ⟨slots, hslots, hmem⟩]
    exact hword i

include hp hb h in
theorem Back.newId (hw : w < p.typeCnt) : q.newId (p.newId w) = w := by
  by_cases hbase : w < p.startId
  · have hp' : p.newId w = w := if_pos hbase
    rw [hp']
    exact if_pos (h.startId ▸ hbase)
  have hid := hp.newId_own ⟨Nat.le_of_not_lt hbase, hw⟩
  have hown := hb.2 _ (mem_of_getElem? hid)
  have hq := h.undoes.2 _ _ hid
  have hge := hown.1
  rw [BtfPermute.newId, if_neg (by rw [h.startId]; omega), h.startId, getD_eq_getElem?_getD, hq]
  exact Nat.add_sub_cancel' (Nat.le_of_not_lt hbase)

include hp hb in
/-- A renamed record names types in range. -/
theorem Renames.inRange (hren : p.Renames t t') (hcnt : q.typeCnt = p.typeCnt) : q.InRange t' := by
  intro slots hslots i hi
  rw [btfFieldSlots_congr .ids hren.info] at hslots
  obtain ⟨hw, hw'⟩ := hren.ids slots hslots i hi
  rw [hw', hcnt]
  exact hp.newId_lt hb hw

include hp hb h in
theorem Renames.back {t'' : BtfType} (hren : p.Renames t t')
    (hren' : q.Renames t' t'') : t'' = t := by
  have hword : ∀ i, t''.word i = t.word i := by
    intro i
    by_cases hi : ∃ slots, btfFieldSlots .ids t = .ok slots ∧ i ∈ slots
    · obtain ⟨slots, hslots, hi⟩ := hi
      have hslots' := (btfFieldSlots_congr .ids hren.info).trans hslots
      obtain ⟨hw, hw'⟩ := hren.ids slots hslots i hi
      rw [(hren'.ids slots hslots' i hi).2, hw', h.newId hp hb hw]
    have hnot : ∀ slots, btfFieldSlots .ids t = .ok slots → i ∉ slots :=
      fun slots hslots hmem => hi ⟨slots, hslots, hmem⟩
    rw [hren'.other i fun slots hslots => hnot slots
      ((btfFieldSlots_congr .ids hren.info).symm.trans hslots)]
    exact hren.other i hnot
  refine BtfType.ext_words (ext_getElem ?_ fun i hi hi' => ?_)
  · rw [BtfType.words_length, BtfType.words_length, hren'.len, hren.len]
  · have := hword i
    rwa [BtfType.word, BtfType.word, getD_eq_getElem _ _ hi, getD_eq_getElem _ _ hi'] at this

include hp hb h in
/-- Renumbering by the inverse map restores every record. -/
theorem Renumbers.back {ts' ts'' : List BtfType} (hren : p.Renumbers ts ts')
    (hren' : q.Renumbers ts' ts'') : ts'' = ts := by
  have hlen : ts''.length = ts.length := hren'.1.trans hren.1
  refine ext_getElem? fun k => ?_
  cases hk : ts[k]? with
  | none =>
    rw [List.getElem?_eq_none_iff] at hk ⊢
    omega
  | some t =>
    obtain ⟨id, t', hid, ht', hr⟩ := hren.2 k t hk
    obtain ⟨id', t'', hid', ht'', hr'⟩ := hren'.2 _ t' ht'
    rw [h.undoes.2 k id hid, Option.some.injEq] at hid'
    rw [← hid', h.startId, Nat.add_sub_cancel_left] at ht''
    rw [ht'', hr.back hp hb h hr']

end

end BtfPermute

end Libbpf
