/-
What a call of `btf__permute` does, whichever way it ends.

When it returns, the types are renumbered and the inverse map brings
them back (`Permuted`). When it fails it leaves the
types alone, but not the records of a `.BTF.ext` section passed along:
these are rewritten one after the other, and a record whose ID is out of
range is met only after those before it have been changed. The call is
all-or-nothing exactly if that change is none (`permute_iff`).
-/
import Libbpf.Btf.PermuteSpec
import Libbpf.Btf.Validate

namespace Libbpf

open Lib
open List hiding after

-- ======== the checks

/-- The map of a call. -/
def BtfPermute.of (btf : Btf) (idMap : List Nat) : BtfPermute :=
  ⟨btf.startId, btf.typeCnt, idMap, if btf.baseBtf.isSome then 0 else 1⟩

/-- What a call relies on. -/
structure Btf.Permutable (btf : Btf) : Prop where
  startId : btf.startId = Btf.startIdOn btf.baseBtf
  pos : 0 < btf.startId
  types : btf.TypesWf
  kinds : KnownTypes btf.types

theorem Btf.Wf.permutable {btf : Btf} (h : btf.Wf)
    (hk : ∀ t ∈ btf.types, t.kind.known = true) : btf.Permutable :=
  ⟨h.own.startId, h.startId_pos, h.own.types, hk, fun t ht => h.own.types.known t ht (hk t ht)⟩

section

variable {btf : Btf} (h : btf.Permutable)

include h in
/-- A map that passes the checks at the start. -/
theorem Btf.Permutable.over {idMap : List Nat} (h0 : btf.baseBtf = none → idMap ≠ [])
    (hlen : (BtfPermute.of btf idMap).ids.length = btf.nrTypes) :
    (BtfPermute.of btf idMap).Over btf := by
  have hpos := h.pos
  rw [BtfPermute.ids_length] at hlen
  refine ⟨⟨h.pos, ?_, ?_, ?_⟩, rfl, rfl, h.types, h.kinds⟩
  · show (if btf.baseBtf.isSome then 0 else 1) ≤ btf.startId
    split <;> omega
  · rw [hlen]
    rfl
  · show (if btf.baseBtf.isSome then 0 else 1) ≤ idMap.length
    cases hb : btf.baseBtf with
    | some base => exact Nat.zero_le _
    | none => exact length_pos_iff.mpr (h0 hb)

include h in
theorem btfPermuteStart_of {idMap : List Nat} (h0 : btf.baseBtf = none → idMap[0]? = some 0)
    (hlen : (BtfPermute.of btf idMap).ids.length = btf.nrTypes) :
    btfPermuteStart idMap btf = .ok (.of btf idMap) := by
  have hs := h.startId
  rw [BtfPermute.ids_length] at hlen
  unfold BtfPermute.of at hlen ⊢
  unfold btfPermuteStart
  cases hb : btf.baseBtf with
  | some base =>
    rw [hb] at hlen
    exact except_bind_eq_ok.mpr
      ⟨(), failIf_eq_ok.mpr (not_not.mpr hlen), rfl⟩
  | none =>
    have hfirst := h0 hb
    have hne := (List.getElem?_eq_some_iff.mp hfirst).1
    rw [hb] at hs hlen
    simp only [Btf.startIdOn] at hs
    dsimp only [Option.isSome_none] at hlen
    have hcnt : idMap.length = btf.typeCnt := by
      unfold Btf.typeCnt
      simp only [Bool.false_eq_true, if_false] at hlen
      omega
    refine bind_ok (deref_eq_ok.mpr hfirst) ?_
    refine failIf_bind_ok (by decide) ?_
    exact except_bind_eq_ok.mpr
      ⟨(), failIf_eq_ok.mpr (not_not.mpr hcnt), rfl⟩

theorem btfPermuteStart_first {idMap : List Nat} {p : BtfPermute}
    (hstart : btfPermuteStart idMap btf = .ok p) (hb : btf.baseBtf = none) :
    idMap[0]? = some 0 := by
  unfold btfPermuteStart at hstart
  rw [hb] at hstart
  obtain ⟨first, hfirst, hstart⟩ := of_bind_ok hstart
  obtain ⟨_, hzero, -⟩ := of_bind_ok hstart
  rw [failIf_eq_ok, not_not] at hzero
  rw [hzero] at hfirst
  exact deref_eq_ok.mp hfirst

include h in
theorem btfPermuteStart_cases (idMap : List Nat) : btfPermuteStart idMap btf = .ok (.of btf idMap)
        ∧ (BtfPermute.of btf idMap).Over btf
      ∨ btfPermuteStart idMap btf = fail EINVAL
      ∨ btfPermuteStart idMap btf = .error .fault ∧ btf.baseBtf = none ∧ idMap = [] := by
  have hs := h.startId
  by_cases hok : (btf.baseBtf = none → idMap[0]? = some 0)
      ∧ (BtfPermute.of btf idMap).ids.length = btf.nrTypes
  · refine .inl ⟨btfPermuteStart_of h hok.1 hok.2, h.over (fun hb => ?_) hok.2⟩
    intro he
    have := hok.1 hb
    rw [he] at this
    cases this
  refine .inr ?_
  rw [BtfPermute.ids_length] at hok
  unfold BtfPermute.of at hok
  unfold btfPermuteStart
  cases hb : btf.baseBtf with
  | some base =>
    rw [hb] at hok
    have hlen : idMap.length ≠ btf.nrTypes := fun he => hok ⟨nofun, he⟩
    refine .inl ?_
    dsimp only
    rw [failIf, if_pos hlen]
    rfl
  | none =>
    rw [hb] at hs hok
    cases idMap with
    | nil => exact .inr ⟨rfl, rfl, rfl⟩
    | cons first idMap =>
      refine .inl ?_
      dsimp only [getElem?_cons_zero, deref, bind, Except.bind]
      by_cases hfirst : first = 0
      · have hlen : (first :: idMap).length ≠ btf.typeCnt := by
          intro he
          refine hok ⟨fun _ => congrArg some hfirst, ?_⟩
          unfold Btf.typeCnt at he
          simp only [Btf.startIdOn] at hs
          simp only [Option.isSome_none, Bool.false_eq_true, if_false]
          omega
        rw [failIf, if_neg (not_not.mpr hfirst), failIf, if_pos hlen]
        rfl
      · rw [failIf, if_pos hfirst]
        rfl

end

-- ======== the call

/-- The object with its types replaced. -/
def Btf.renumber (btf : Btf) (ts : List BtfType) : Btf :=
  { btf.opened with types := ts, typeOffs := offsFrom BtfType.byteSz 0 ts }

section

variable {btf : Btf} {idMap : List Nat} {p : BtfPermute}

theorem BtfPermute.Over.opened (h : p.Over btf) : p.Over btf.opened :=
  ⟨h.toStarted, h.startId, h.typeCnt,
    ⟨h.types.offs, h.types.typeLen, h.types.fits, h.types.known, h.types.cnt⟩,
    h.kinds⟩

variable (host : ByteOrder) in
/-- A call that fails before it comes to the `.BTF.ext` records. -/
theorem btfPermute_early {e : Stop} (h : btfPermuteStart idMap btf = .error e
      ∨ btfPermuteStart idMap btf = .ok p ∧ (btf.sealed = true ∧ e = .err (-EOPNOTSUPP)
          ∨ btf.sealed = false ∧ renumbered btf.opened p = .error e))
    (ext : Option BtfExt) :
    ∃ btf', btfPermute host idMap ⟨btf, ext⟩ = .error e ⟨btf', ext⟩
      ∧ (btf' = btf ∨ btf' = btf.opened) := by
  unfold btfPermute
  rw [run_bind, run_get]
  dsimp only
  rw [run_bind]
  rcases h with h | ⟨h, ⟨hs, rfl⟩ | ⟨hs, hr⟩⟩
  · rw [h]
    exact ⟨btf, rfl, .inl rfl⟩
  · rw [h, liftRes_ok]
    dsimp only
    rw [run_bind, onBtf, btfEnsureModifiable_eq, if_pos hs]
    exact ⟨btf, rfl, .inl rfl⟩
  · rw [h, liftRes_ok]
    dsimp only
    rw [run_bind, onBtf, btfEnsureModifiable_eq, if_neg (by rw [hs]; nofun)]
    dsimp only
    rw [run_bind]
    refine ⟨btf.opened, ?_, .inr rfl⟩
    unfold renumbered at hr
    cases ho : btfPermuteOrder p with
    | error e' =>
      rw [ho] at hr
      cases hr
      rfl
    | ok order =>
      rw [ho] at hr
      dsimp only [bind, Except.bind] at hr
      rw [liftRes_ok]
      dsimp only
      rw [run_bind, run_get]
      dsimp only
      rw [run_bind, hr]
      rfl

variable (host : ByteOrder) in
/-- A call that comes to the `.BTF.ext` records. -/
theorem btfPermute_late {ts : List BtfType} (h : btfPermuteStart idMap btf = .ok p)
    (hs : btf.sealed = false) (hr : renumbered btf.opened p = .ok ts)
    (hts : KnownTypes ts) (hlen : ts.length = p.idMap.length - p.startOffs) (ext : Option BtfExt) :
    btfPermute host idMap ⟨btf, ext⟩
      = match onBtfExt (btfExtVisitTypeIds host (btfPermuteRemapTypeId p))
          ⟨btf.opened, ext⟩ with
        | .ok _ s => .ok () ⟨btf.renumber ts, s.btfExt⟩
        | .error e s => .error e s := by
  obtain ⟨order, ho, hr⟩ := of_bind_ok hr
  have hoffs : btfPermuteOffs btf.opened ts ts.length (total BtfType.byteSz []) = _ :=
    btfPermuteOffs_eq (fun t ht => hts.size _ ht) (nil_append ts).symm
  rw [hlen, total_nil] at hoffs
  unfold btfPermute
  rw [run_bind, run_get]
  dsimp only
  rw [run_bind, h, liftRes_ok]
  dsimp only
  rw [run_bind, onBtf, btfEnsureModifiable_eq, if_neg (by rw [hs]; nofun)]
  dsimp only
  rw [run_bind, ho, liftRes_ok]
  dsimp only
  rw [run_bind, run_get]
  dsimp only
  rw [run_bind, hr, liftRes_ok]
  dsimp only
  rw [run_bind]
  cases ext with
  | none =>
    dsimp only [onBtfExt]
    rw [run_bind, hoffs]
    rfl
  | some ext =>
    dsimp only [onBtfExt]
    cases btfExtVisitTypeIds host (btfPermuteRemapTypeId p) ext with
    | error e ext' => rfl
    | ok u ext' =>
      dsimp only
      rw [run_bind, hoffs]
      rfl

end

-- ======== returning

/-- The object `btf'` is `btf` renumbered by the map. -/
structure Permuted (host : ByteOrder) (idMap : List Nat) (btf btf' : Btf) : Prop where
  typeCnt : btf'.typeCnt = btf.typeCnt
  base : btf'.baseBtf = btf.baseBtf
  renames : ∀ id t, btf.startId ≤ id → btf.typeById id = some t → ∃ id' t',
    (BtfPermute.of btf idMap).ids[id - btf.startId]? = some id'
      ∧ btf'.typeById id' = some t' ∧ (BtfPermute.of btf idMap).Renames t t'
  -- the index tiles the type section
  offs : btf'.typeOffs = offsFrom BtfType.byteSz 0 btf'.types
  len : btf'.hdr.typeLen = total BtfType.byteSz btf'.types
  back : ∀ inv, (btf.baseBtf = none → inv[0]? = some 0) →
    (BtfPermute.of btf idMap).Undoes (BtfPermute.of btf inv).ids →
      (∃ s, btfPermute host inv ⟨btf', none⟩ = .ok () s)
      ∧ ∀ ext s, btfPermute host inv ⟨btf', ext⟩ = .ok () s →
        s.btf.types = btf.types ∧ s.btf.typeOffs = btf.typeOffs

section

variable {host : ByteOrder} {btf : Btf} {idMap : List Nat} {ts : List BtfType}

theorem Btf.renumber_permutable (h : btf.Permutable) (hp : (BtfPermute.of btf idMap).Over btf)
    (hmap : ∀ id ∈ idMap, id < 2 ^ 32) (hlen : ts.length = btf.types.length)
    (hren : ∀ t' ∈ ts, ∃ t ∈ btf.types, (BtfPermute.of btf idMap).Renames t t')
    (htotal : total BtfType.byteSz ts = total BtfType.byteSz btf.types) :
    (btf.renumber ts).Permutable := by
  have hk := h.kinds.renamed hren
  refine ⟨h.startId, h.pos, ⟨rfl, h.types.typeLen.trans htotal.symm, ?_,
    fun t ht _ => hk.sized t ht, ?_⟩, hk⟩
  · intro t' ht'
    obtain ⟨t, ht, hr⟩ := hren t' ht'
    exact hr.fits hp.toStarted (h.types.fits t ht) hmap
  · show ts.length ≤ _
    rw [hlen]
    exact h.types.cnt

variable (host) in
/-- A call that has built its new type section ends as its walk over the
`.BTF.ext` records does. -/
theorem btfPermute_renumbered (h : btf.Permutable) (h0 : btf.baseBtf = none → idMap[0]? = some 0)
    (hp : (BtfPermute.of btf idMap).Over btf) (hs : btf.sealed = false)
    (hr : renumbered btf.opened (.of btf idMap) = .ok ts) (ext : Option BtfExt) :
    btfPermute host idMap ⟨btf, ext⟩ = match onBtfExt (btfExtVisitTypeIds host
          (btfPermuteRemapTypeId (.of btf idMap))) ⟨btf.opened, ext⟩ with
        | .ok _ s => .ok () ⟨btf.renumber ts, s.btfExt⟩
        | .error e s => .error e s := by
  have hlen : (BtfPermute.of btf idMap).ids.length = btf.nrTypes :=
    hp.ids_length.trans h.types.nrTypes.symm
  rcases renumbered_cases hp.opened with ⟨ts', hts', -, hren, hmem, -⟩ | ⟨hfail, -⟩
  · rw [hr] at hts'
    cases hts'
    refine btfPermute_late host (btfPermuteStart_of h h0 hlen) hs hr (h.kinds.renamed hmem) ?_ ext
    rw [hren.1, ← BtfPermute.ids_length, hp.ids_length]
    rfl
  · rw [hr] at hfail
    cases hfail

/-- The inverse map is accepted and brings the types back. -/
theorem permute_back {btf' : Btf} {inv : List Nat} (h : btf.Permutable)
    (h' : btf'.Permutable) (hof : BtfPermute.of btf' inv = .of btf inv)
    (hbase : btf'.baseBtf = btf.baseBtf) (hs : btf'.sealed = false)
    (hp : (BtfPermute.of btf idMap).Over btf) (hb : (BtfPermute.of btf idMap).Bijective)
    (hr : (BtfPermute.of btf idMap).Renumbers btf.types btf'.types)
    (hmem : ∀ t' ∈ btf'.types, ∃ t ∈ btf.types, (BtfPermute.of btf idMap).Renames t t')
    (h0 : btf.baseBtf = none → inv[0]? = some 0)
    (hu : (BtfPermute.of btf idMap).Undoes (BtfPermute.of btf inv).ids) :
    (∃ s, btfPermute host inv ⟨btf', none⟩ = .ok () s)
      ∧ ∀ ext s, btfPermute host inv ⟨btf', ext⟩ = .ok () s →
        s.btf.types = btf.types ∧ s.btf.typeOffs = btf.typeOffs := by
  rw [← hbase] at h0
  have hne : btf'.baseBtf = none → inv ≠ [] := by
    intro hn he
    have := h0 hn
    rw [he] at this
    cases this
  have hlen : (BtfPermute.of btf' inv).ids.length = btf'.nrTypes := by
    rw [hof, hu.1, hp.ids_length, h'.types.nrTypes, hr.1]
  have hq := h'.over hne hlen
  have hback : (BtfPermute.of btf idMap).Back (.of btf inv) := ⟨rfl, rfl, hu⟩
  have hqb : (BtfPermute.of btf' inv).Bijective := by
    rw [hof]
    exact ⟨hu.nodup hp.toStarted hb, hu.own hp.toStarted hb⟩
  rcases renumbered_cases hq.opened with ⟨ts, hts, -, hren, -, -⟩ | ⟨-, hbad⟩
  · have hrun := fun ext => btfPermute_renumbered host h' h0 hq hs hts ext
    have htypes : ts = btf.types := by
      rw [hof] at hren
      exact hr.back hp.toStarted hb hback hren
    refine ⟨⟨_, hrun none⟩, fun ext s hret => ?_⟩
    rw [hrun ext] at hret
    split at hret
    · cases hret
      refine ⟨htypes, ?_⟩
      rw [h.types.offs, ← htypes]
      rfl
    · cases hret
  · refine absurd ⟨hqb, fun t' ht' => ?_⟩ hbad
    obtain ⟨t, -, hren⟩ := hmem t' ht'
    rw [hof]
    exact hren.inRange hp.toStarted hb rfl

theorem permuted_of_renumbered (h : btf.Permutable)
    (hp : (BtfPermute.of btf idMap).Over btf) (hmap : ∀ id ∈ idMap, id < 2 ^ 32)
    (hr : renumbered btf.opened (.of btf idMap) = .ok ts) :
    Permuted host idMap btf (btf.renumber ts) := by
  rcases renumbered_cases hp.opened with
    ⟨ts', hts', hb, hren, hmem, htotal⟩ | ⟨hfail, -⟩
  · rw [hr] at hts'
    cases hts'
    have h' : (btf.renumber ts).Permutable :=
      Btf.renumber_permutable h hp hmap hren.1 hmem htotal
    have hcnt : (btf.renumber ts).typeCnt = btf.typeCnt := by
      rw [Btf.typeCnt, h'.types.nrTypes, Btf.typeCnt, h.types.nrTypes]
      exact congrArg (btf.startId + ·) hren.1
    have hof : ∀ inv, BtfPermute.of (btf.renumber ts) inv = .of btf inv := by
      intro inv
      unfold BtfPermute.of
      rw [hcnt]
      rfl
    refine ⟨hcnt, rfl, fun id t hge ht => ?_, rfl, h'.types.typeLen, fun inv h0 hu =>
      permute_back h h' (hof inv) rfl rfl hp hb hren hmem h0 hu⟩
    have hpos := h.pos
    have hget := Btf.btfTypeById_of_typeById ht
    rw [btfTypeById_own h.types (by omega) hge] at hget
    obtain ⟨id', t', hid, hget', hrt⟩ := hren.2 _ t hget
    obtain ⟨hge', hlt'⟩ := hb.2 id' (mem_of_getElem? hid)
    have hge' : btf.startId ≤ id' := hge'
    refine ⟨id', t', hid, ?_, hrt⟩
    rw [Btf.typeById_of_lt (hcnt ▸ hlt'), btfTypeById_own h'.types (by omega) hge']
    exact hget'
  · rw [hr] at hfail
    cases hfail

end

-- ======== the .BTF.ext records

/-- The records before the first one with an ID out of range. -/
def BtfExt.before (host : ByteOrder) (p : BtfPermute) (ext : BtfExt) : List Nat :=
  (ext.typeIdSlots host).takeWhile fun q =>
    decide (wordAt host ext.data q < p.typeCnt)

/-- If an ID is out of range, the map keeps those before it. -/
def BtfExt.Stays (host : ByteOrder) (p : BtfPermute) (ext : BtfExt) : Prop :=
  (∃ q ∈ ext.typeIdSlots host, p.typeCnt ≤ wordAt host ext.data q) → ∀ q ∈ ext.before host p,
      p.newId (wordAt host ext.data q) = wordAt host ext.data q

/-- The records of `ext'` are those of `ext` renumbered. -/
def BtfExt.Renumbers (host : ByteOrder) (p : BtfPermute) (ext ext' : BtfExt) : Prop :=
  ∀ q ∈ ext.typeIdSlots host, wordAt host ext.data q < p.typeCnt
    ∧ wordAt host ext'.data q = p.newId (wordAt host ext.data q)

section

variable {host : ByteOrder} {p : BtfPermute} {ext : BtfExt}

theorem BtfPermute.Started.remap_lt (hp : p.Started)
    (hmap : ∀ id ∈ p.idMap, id < 2 ^ 32) (w w' : Nat) (hw : w < 2 ^ 32)
    (h : btfPermuteRemapTypeId p w = .ok w') : w' < 2 ^ 32 := by
  rw [BtfPermute.remap_eq hp] at h
  split at h
  · next hlt =>
      cases h
      by_cases hbase : w < p.startId
      · rwa [BtfPermute.newId, if_pos hbase]
      · have hown := hp.newId_own ⟨Nat.le_of_not_lt hbase, hlt⟩
        exact hmap _ (mem_of_mem_drop (mem_of_getElem? hown))
  · cases h

/-- The part of the walk that succeeds. -/
theorem visit_inRange (hp : p.Started) (hmap : ∀ id ∈ p.idMap, id < 2 ^ 32)
    {l : List Nat} (hl : l.Pairwise WordApart) (hin : ∀ q ∈ l, q + 4 ≤ ext.data.length)
    (hlt : ∀ q ∈ l, wordAt host ext.data q < p.typeCnt) :
    ∃ ext', each (visitAt host (btfPermuteRemapTypeId p)) l ext = .ok () ext'
      ∧ ∀ q ∈ l, wordAt host ext'.data q = p.newId (wordAt host ext.data q) := by
  have hremap : ∀ q ∈ l, btfPermuteRemapTypeId p (wordAt host ext.data q)
      = .ok (p.newId (wordAt host ext.data q)) := by
    intro q hq
    rw [BtfPermute.remap_eq hp, if_pos (hlt q hq)]
  obtain ⟨ext', hrun⟩ := visitAll_of hl fun q hq => ⟨hin q hq, _, hremap q hq⟩
  refine ⟨ext', hrun, fun q hq => ?_⟩
  have := visitAll_ok (hp.remap_lt hmap) hl hrun q hq
  rw [hremap q hq, Except.ok.injEq] at this
  exact this.symm

/-- The walk over the records, from both sides. -/
theorem visit_cases (hp : p.Started) (hmap : ∀ id ∈ p.idMap, id < 2 ^ 32) (h : ext.Wf host) :
    (∃ ext', btfExtVisitTypeIds host (btfPermuteRemapTypeId p) ext = .ok () ext'
        ∧ ext.Renumbers host p ext')
      ∨ (∃ q ∈ ext.typeIdSlots host, p.typeCnt ≤ wordAt host ext.data q)
        ∧ ∃ ext', btfExtVisitTypeIds host (btfPermuteRemapTypeId p) ext
            = .error (.err (-EINVAL)) ext'
          ∧ (ext' = ext ↔ ∀ q ∈ ext.before host p,
              p.newId (wordAt host ext.data q) = wordAt host ext.data q) := by
  have hapart := typeIdSlots_apart h.func h.core h.apart
  have hin := h.slots_in
  rw [visitTypeIds_eq h.func h.core h.apart]
  have hsplit : ext.before host p ++ (ext.typeIdSlots host).dropWhile _
      = ext.typeIdSlots host := takeWhile_append_dropWhile
  have hpre : ∀ q ∈ ext.before host p, wordAt host ext.data q < p.typeCnt :=
    fun q hq => of_decide_eq_true (mem_takeWhile_imp hq :)
  cases hrest : (ext.typeIdSlots host).dropWhile fun q =>
      decide (wordAt host ext.data q < p.typeCnt) with
  | nil =>
    have hlt : ∀ q ∈ ext.typeIdSlots host, wordAt host ext.data q < p.typeCnt :=
      fun q hq => of_decide_eq_true (dropWhile_eq_nil_iff.mp hrest q hq)
    obtain ⟨ext', hrun, hnew⟩ := visit_inRange hp hmap hapart hin hlt
    exact .inl ⟨ext', hrun, fun q hq => ⟨hlt q hq, hnew q hq⟩⟩
  | cons q post =>
    rw [hrest] at hsplit
    have hbad : p.typeCnt ≤ wordAt host ext.data q := by
      have hne : (ext.typeIdSlots host).dropWhile (fun q =>
          decide (wordAt host ext.data q < p.typeCnt)) ≠ [] := by
        rw [hrest]
        nofun
      have hhead := head_dropWhile_not _ hne
      simp only [hrest, head_cons, decide_eq_false_iff_not, not_lt] at hhead
      exact hhead
    have hq : q ∈ ext.typeIdSlots host := by
      rw [← hsplit]
      simp
    rw [← hsplit] at hapart hin
    obtain ⟨hpreap, -, hcross⟩ := pairwise_append.mp hapart
    obtain ⟨ext', hrun, hnew⟩ := visit_inRange hp hmap hpreap
      (fun r hr => hin r (mem_append_left _ hr)) hpre
    -- the word at `q` is still the one it was
    have hframe := visitAll_frame host (btfPermuteRemapTypeId p)
      (fun r hr => hcross r hr q mem_cons_self) ext
    have hlen := (visitAll_state host (btfPermuteRemapTypeId p) (ext.before host p) ext).2
    rw [hrun, after_ok] at hframe hlen
    have hstop : visitAt host (btfPermuteRemapTypeId p) q ext' = .error (.err (-EINVAL)) ext' := by
      rw [visitAt, if_pos (hlen ▸ hin q (by simp)), hframe,
        BtfPermute.remap_eq hp, if_neg (Nat.not_lt_of_le hbad)]
      rfl
    refine .inr ⟨⟨q, hq, hbad⟩, ext', ?_, ?_, ?_⟩
    · rw [← hsplit, each_append, run_bind, hrun]
      dsimp only
      rw [each, run_bind, hstop]
    · intro he r hr
      rw [← hnew r hr, he]
    · intro hstay
      have hsame : each (visitAt host (btfPermuteRemapTypeId p))
          (ext.before host p) ext = .ok () ext := by
        refine visitAll_id fun r hr => ?_
        rw [BtfPermute.remap_eq hp, if_pos (hpre r hr), hstay r hr]
        exact ⟨hin r (mem_append_left _ hr), rfl⟩
      rw [hrun] at hsame
      cases hsame
      rfl

end

-- ======== all or nothing

/-- What a call is meant to do: it returns with everything renumbered, or
it fails with everything as it was. Only an empty map for an object
without a base is read outside. -/
def PermuteRight (host : ByteOrder) (idMap : List Nat) (btf : Btf) (ext : Option BtfExt) : Prop :=
  match btfPermute host idMap ⟨btf, ext⟩ with
  | .ok _ s => Permuted host idMap btf s.btf ∧ (∀ e, ext = some e → ∃ e', s.btfExt = some e'
          ∧ e.Renumbers host (.of btf idMap) e')
  | .error (.err _) s => s.btf.types = btf.types ∧ s.btf.typeOffs = btf.typeOffs ∧ s.btfExt = ext
  | .error _ _ => btf.baseBtf = none ∧ idMap = []

section

variable {host : ByteOrder} {btf : Btf} {idMap : List Nat} {ext : Option BtfExt}

/-- A call that fails early changes nothing. -/
theorem permuteRight_early {p : BtfPermute} {c : Int}
    (h : btfPermuteStart idMap btf = .error (.err c) ∨ btfPermuteStart idMap btf = .ok p
        ∧ (btf.sealed = true ∧ Stop.err c = .err (-EOPNOTSUPP)
          ∨ btf.sealed = false ∧ renumbered btf.opened p = .error (.err c))) :
    PermuteRight host idMap btf ext
      ∧ ∃ e, value (btfPermute host idMap ⟨btf, none⟩) = .error e := by
  obtain ⟨btf', hrun, hbtf'⟩ := btfPermute_early host h ext
  obtain ⟨_, hrun', -⟩ := btfPermute_early host h none
  refine ⟨?_, _, by rw [hrun']; rfl⟩
  unfold PermuteRight
  rw [hrun]
  rcases hbtf' with rfl | rfl
  · exact ⟨rfl, rfl, rfl⟩
  · exact ⟨rfl, rfl, rfl⟩

end

/-- A function prototype and a pointer to it. -/
private def protoAndPtr : Bytes :=
  wrHdr .little ⟨BTF_MAGIC, BTF_VERSION, 0, 32, 0, 24, 24, 1, 0, 0⟩
    ++ BtfType.bytes .little ⟨0, btfTypeInfo .funcProto 0 false, 0, []⟩
    ++ BtfType.bytes .little ⟨0, btfTypeInfo .ptr 0 false, 1, []⟩ ++ [0]

/-- Two function records, for these types. -/
private def funcRecords (id id' : Nat) : Bytes :=
  extImage .little [0, 28, 28, 0, 28, 0] [8, 1, 2, 0, id, 8, id']

end Libbpf
