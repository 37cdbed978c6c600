/-
Visiting the fields of a `.BTF.ext` section.

`btf_ext_visit_type_ids` and `btf_ext_visit_str_offs` hand the address of
each field to a callback, which may overwrite it; the loops read the
record counts from the data on every turn. On data that has been
validated, and as long as what is written is not itself a count, this
comes to one pass over a fixed list of positions
(`visitTypeIds_eq`), and a callback that fails leaves the fields before
that position rewritten.
-/
import Libbpf.Ext.Swap

namespace Libbpf

open Lib
open List hiding after

-- ======== the loops

/-- `visit` on the word at `p`. -/
def visitAt (host : ByteOrder) (visit : Nat → Res Nat) (p : Nat) : Run BtfExt Unit := fun ext =>
  if p + 4 ≤ ext.data.length then
    match visit (wordAt host ext.data p) with
    | .ok w => .ok () { ext with data := setWord host ext.data p w }
    | .error e => .error e ext
  else .error .fault ext

/-- `sec->num_info`. -/
def secNumInfo (host : ByteOrder) (sec : Nat) : Run BtfExt Nat := fun ext =>
  if sec + 8 ≤ ext.data.length then .ok (wordAt host ext.data (sec + 4)) ext
  else .error .fault ext

/-- `for_each_btf_ext_rec` from record `i` at `rec` on, visiting the
fields at the offsets `fields`. -/
def visitRecs (host : ByteOrder) (visit : Nat → Res Nat) (fields : List Nat)
    (recSize sec : Nat) : Nat → Nat → Nat → Run BtfExt Unit
  | 0, _, _ => throw .fuel
  | fuel + 1, i, rec => do
    let num ← secNumInfo host sec
    if i < num then
      each (fun f => visitAt host visit (rec + f)) fields
      visitRecs host visit fields recSize sec fuel (i + 1) (rec + recSize)
    else pure ()

/-- `for_each_btf_ext_sec` from `sec` on. -/
def visitSecs (host : ByteOrder) (visit : Nat → Res Nat)
    (secFields recFields : List Nat) (seg : BtfExtInfo) :
    Nat → Nat → Run BtfExt Unit
  | 0, _ => throw .fuel
  | fuel + 1, sec =>
    if sec < seg.info + seg.len then do
      each (fun f => visitAt host visit (sec + f)) secFields
      let ext ← get
      -- a record that does not lie in the data ends the loop
      visitRecs host visit recFields seg.recSize sec (ext.data.length + 1) 0 (sec + 8)
      let num ← secNumInfo host sec
      visitSecs host visit secFields recFields seg fuel (sec + (8 + seg.recSize * num % 2 ^ 32))
    else pure ()

/-- The fields of one subsection. -/
def visitSeg (host : ByteOrder) (visit : Nat → Res Nat)
    (secFields recFields : List Nat) (seg : BtfExtInfos → BtfExtInfo) :
    Run BtfExt Unit := do
  let ext ← get
  visitSecs host visit secFields recFields (seg ext.infos)
    (ext.data.length + 1) (seg ext.infos).info

/-- `btf_ext_visit_type_ids`. -/
def btfExtVisitTypeIds (host : ByteOrder) (visit : Nat → Res Nat) : Run BtfExt Unit := do
  visitSeg host visit [] [4] BtfExtInfos.funcInfo
  visitSeg host visit [] [4] BtfExtInfos.coreReloInfo

/-- `btf_ext_visit_str_offs`. -/
def btfExtVisitStrOffs (host : ByteOrder) (visit : Nat → Res Nat) : Run BtfExt Unit := do
  visitSeg host visit [0] [] BtfExtInfos.funcInfo
  visitSeg host visit [0] [4, 8] BtfExtInfos.lineInfo
  visitSeg host visit [0] [8] BtfExtInfos.coreReloInfo

-- ======== the positions

/-- The positions the loops visit, when the words `rd` give the record
counts. -/
def segSlotsFrom (rd : Nat → Nat) (secFields recFields : List Nat)
    (recSize : Nat) : Nat → Nat → Nat → List Nat
  | 0, _, _ => []
  | fuel + 1, pos, left =>
    if left = 0 then []
    else
      secFields.map (pos + ·) ++ (List.range (rd (pos + 4))).flatMap (fun i =>
          recFields.map (pos + 8 + recSize * i + ·))
        ++ segSlotsFrom rd secFields recFields recSize fuel (pos + (8 + rd (pos + 4) * recSize))
          (left - (8 + rd (pos + 4) * recSize))

/-- The positions in a subsection. -/
def BtfExtInfo.slots (host : ByteOrder) (data : Bytes)
    (secFields recFields : List Nat) (i : BtfExtInfo) : List Nat :=
  segSlotsFrom (wordAt host data) secFields recFields i.recSize i.len i.info i.len

/-- The type IDs of the records. -/
def BtfExt.typeIdSlots (host : ByteOrder) (ext : BtfExt) : List Nat :=
  ext.infos.funcInfo.slots host ext.data [] [4] ++ ext.infos.coreReloInfo.slots host ext.data [] [4]

/-- A word at `q` shares no byte with the word at `p`. -/
def WordApart (p q : Nat) : Prop := q + 4 ≤ p ∨ p + 4 ≤ q

section

variable {host : ByteOrder} {visit : Nat → Res Nat}

variable (host visit) in
/-- Visiting fields keeps the size of the data and the places of the
subsections. -/
theorem visitAll_state (l : List Nat) (ext : BtfExt) :
    (after (each (visitAt host visit) l ext)).infos = ext.infos
      ∧ (after (each (visitAt host visit) l ext)).data.length = ext.data.length := by
  have hkeeps : Keeps (fun e : BtfExt => e.infos = ext.infos
      ∧ e.data.length = ext.data.length) (each (visitAt host visit) l) := by
    refine keeps_each fun p _ e he => ?_
    unfold visitAt
    split
    · next hin =>
        split
        · exact ⟨he.1, (setWord_length hin).trans he.2⟩
        · exact he
    · exact he
  exact hkeeps ext ⟨rfl, rfl⟩

variable (host visit) in
/-- Visiting fields does not change the words elsewhere. -/
theorem visitAll_frame {l : List Nat} {q : Nat} (h : ∀ p ∈ l, WordApart p q)
    (ext : BtfExt) : wordAt host (after (each (visitAt host visit) l ext)).data q
      = wordAt host ext.data q := by
  have hkeeps : Keeps (fun e : BtfExt =>
      wordAt host e.data q = wordAt host ext.data q)
      (each (visitAt host visit) l) := by
    refine keeps_each fun p hp e he => ?_
    unfold visitAt
    split
    · next hin =>
        split
        · exact (wordAt_setWord_of_disjoint hin (h p hp)).trans he
        · exact he
    · exact he
  exact hkeeps ext rfl

theorem WordApart.symm {p q : Nat} (h : WordApart p q) : WordApart q p :=
  Or.symm h

theorem visitAt_eq_ok {p : Nat} {ext ext' : BtfExt} {u : Unit}
    (h : visitAt host visit p ext = .ok u ext') :
    ∃ w, p + 4 ≤ ext.data.length ∧ visit (wordAt host ext.data p) = .ok w
      ∧ ext' = { ext with data := setWord host ext.data p w } := by
  unfold visitAt at h
  split at h
  · next hin =>
      split at h
      · next w hw =>
          cases h
          exact ⟨w, hin, hw, rfl⟩
      · cases h
  · cases h

theorem secNumInfo_ok {sec : Nat} {ext : BtfExt} (h : sec + 8 ≤ ext.data.length) :
    secNumInfo host sec ext = .ok (wordAt host ext.data (sec + 4)) ext :=
  if_pos h

/-- The fields of records `i`, …, `i + k - 1`. -/
private def recSlots (fields : List Nat) (recSize sec i k : Nat) : List Nat :=
  (List.range' i k).flatMap fun j => fields.map (sec + 8 + recSize * j + ·)

private theorem mem_recSlots {fields : List Nat} {recSize sec i k p : Nat}
    (hf : ∀ f ∈ fields, f + 4 ≤ recSize) (h : p ∈ recSlots fields recSize sec i k) :
    sec + 8 ≤ p ∧ p + 4 ≤ sec + 8 + recSize * (i + k) := by
  obtain ⟨j, hj, h⟩ := mem_flatMap.mp h
  obtain ⟨f, hm, rfl⟩ := mem_map.mp h
  obtain ⟨m, hm', rfl⟩ := mem_range'.mp hj
  have hle : recSize * (i + 1 * m) + recSize ≤ recSize * (i + k) := by
    rw [← Nat.mul_succ]
    exact Nat.mul_le_mul_left _ (by omega)
  have := hf f hm
  omega

theorem visitRecs_eq {fields : List Nat} {recSize sec num : Nat}
    (hf : ∀ f ∈ fields, f + 4 ≤ recSize) : ∀ {k fuel i : Nat} {ext : BtfExt},
      i + k = num → k < fuel → wordAt host ext.data (sec + 4) = num →
      sec + 8 + recSize * num ≤ ext.data.length →
      visitRecs host visit fields recSize sec fuel i (sec + 8 + recSize * i) ext
        = each (visitAt host visit) (recSlots fields recSize sec i k) ext
  | 0, fuel + 1, i, ext, hi, _, hnum, hin => by
    rw [visitRecs, run_bind, secNumInfo_ok (by omega)]
    dsimp only
    rw [if_neg (by omega)]
    rfl
  | k + 1, fuel + 1, i, ext, hi, hfuel, hnum, hin => by
    have hslots : recSlots fields recSize sec i (k + 1) = fields.map (sec + 8 + recSize * i + ·)
          ++ recSlots fields recSize sec (i + 1) k := by
      rw [recSlots, range'_succ, flatMap_cons]
      rfl
    rw [visitRecs, run_bind, secNumInfo_ok (by omega)]
    dsimp only
    rw [if_pos (by omega), hslots, each_append, run_bind, run_bind, each_map]
    -- the count is not one of the fields just visited
    have hapart : ∀ p ∈ fields.map (sec + 8 + recSize * i + ·), WordApart p (sec + 4) := by
      intro p hp
      obtain ⟨f, -, rfl⟩ := mem_map.mp hp
      exact .inl (by omega)
    have hsame := visitAll_frame host visit hapart ext
    have hstate := visitAll_state host visit (fields.map (sec + 8 + recSize * i + ·)) ext
    rw [each_map] at hsame hstate
    cases hrun : each (fun f => visitAt host visit (sec + 8 + recSize * i + f))
        fields ext with
    | error e ext' => rfl
    | ok u ext' =>
      rw [hrun, after_ok] at hsame hstate
      have hnext : sec + 8 + recSize * i + recSize = sec + 8 + recSize * (i + 1) := by
        rw [Nat.mul_succ, Nat.add_assoc]
      dsimp only
      rw [hnext]
      exact visitRecs_eq hf (by omega) (by omega) (hsame.trans hnum) (by rw [hstate.2]; omega)

/-- On a validated subsection the loops pass over its slots. -/
theorem visitSecs_eq {rd : Nat → Nat} {secFields recFields : List Nat}
    {seg : BtfExtInfo} (hpos : 0 < seg.recSize) (hrec : seg.recSize % 4 = 0)
    (hsf : ∀ f ∈ secFields, f = 0) (hrf : ∀ f ∈ recFields, f + 4 ≤ seg.recSize)
    {pos left cnt : Nat} (h : SecsAt rd seg.recSize pos left cnt) :
    ∀ {fuel fuel' : Nat} {ext : BtfExt}, cnt < fuel → cnt ≤ fuel' →
      pos + left = seg.info + seg.len → pos + left ≤ ext.data.length →
      left < 2 ^ 32 →
      (∀ k, 4 * k + 4 ≤ left → wordAt host ext.data (pos + 4 * k) = rd (pos + 4 * k)) →
      visitSecs host visit secFields recFields seg fuel pos ext = each (visitAt host visit)
          (segSlotsFrom rd secFields recFields seg.recSize fuel' pos left) ext := by
  induction h with
  | done =>
    intro fuel fuel' ext hfuel _ hend _ _ _
    obtain ⟨fuel, rfl⟩ : ∃ f, fuel = f + 1 := ⟨fuel - 1, by omega⟩
    rw [visitSecs, if_neg (by omega)]
    cases fuel' with
    | zero => rfl
    | succ fuel' =>
      rw [segSlotsFrom, if_pos rfl]
      rfl
  | @sec pos left cnt num fits rest ih =>
    intro fuel fuel' ext hfuel hfuel' hend hin hsmall hrd
    obtain ⟨fuel, rfl⟩ : ∃ f, fuel = f + 1 := ⟨fuel - 1, by omega⟩
    obtain ⟨fuel', rfl⟩ : ∃ f, fuel' = f + 1 := ⟨fuel' - 1, by omega⟩
    have hnum : wordAt host ext.data (pos + 4) = rd (pos + 4) := hrd 1 (by omega)
    rw [visitSecs, if_pos (by omega), segSlotsFrom, if_neg (by omega)]
    generalize hn : rd (pos + 4) = n at num fits rest ih hnum
    have hle : n ≤ n * seg.recSize := Nat.le_mul_of_pos_right n hpos
    have hcomm : seg.recSize * n = n * seg.recSize := Nat.mul_comm _ _
    rw [append_assoc, each_append, run_bind, run_bind, each_map]
    -- the fields of the section header
    have hfirst : ∀ q, pos + 4 ≤ q → ∀ p ∈ secFields.map (pos + ·), WordApart p q := by
      intro q hq p hp
      obtain ⟨f, hf, rfl⟩ := mem_map.mp hp
      cases hsf f hf
      exact .inr hq
    have hkeep := fun q hq => visitAll_frame host visit (hfirst q hq) ext
    have hlen₁ := (visitAll_state host visit (secFields.map (pos + ·)) ext).2
    simp only [each_map] at hkeep hlen₁
    cases hrun : each (fun f => visitAt host visit (pos + f)) secFields ext with
    | error e ext' => rfl
    | ok u ext₁ =>
    rw [hrun] at hkeep hlen₁
    simp only [after_ok] at hkeep hlen₁
    have hnum₁ := (hkeep _ (Nat.le_refl _)).trans hnum
    dsimp only
    rw [run_bind, run_get]
    dsimp only
    -- the records
    have hrecs : visitRecs host visit recFields seg.recSize pos
        (ext₁.data.length + 1) 0 (pos + 8) ext₁
          = each (visitAt host visit) ((List.range n).flatMap fun i =>
              recFields.map (pos + 8 + seg.recSize * i + ·)) ext₁ := by
      rw [range_eq_range']
      exact visitRecs_eq hrf (Nat.zero_add n) (by omega) hnum₁ (by omega)
    rw [each_append, run_bind, run_bind, hrecs]
    have hsecond : ∀ q, q = pos + 4 ∨ pos + (8 + n * seg.recSize) ≤ q →
        ∀ p ∈ (List.range n).flatMap (fun i =>
          recFields.map (pos + 8 + seg.recSize * i + ·)), WordApart p q := by
      intro q hq p hp
      rw [range_eq_range'] at hp
      have := mem_recSlots hrf hp
      rw [Nat.zero_add, hcomm] at this
      unfold WordApart
      omega
    have hkeep' := fun q hq => visitAll_frame host visit (hsecond q hq) ext₁
    have hlen₂ := (visitAll_state host visit ((List.range n).flatMap fun i =>
      recFields.map (pos + 8 + seg.recSize * i + ·)) ext₁).2
    cases hrun' : each (visitAt host visit) ((List.range n).flatMap fun i =>
        recFields.map (pos + 8 + seg.recSize * i + ·)) ext₁ with
    | error e ext' => rfl
    | ok u ext₂ =>
    rw [hrun'] at hkeep' hlen₂
    simp only [after_ok] at hkeep' hlen₂
    have hnum₂ := (hkeep' _ (.inl rfl)).trans hnum₁
    dsimp only
    rw [run_bind, secNumInfo_ok (by omega), hnum₂]
    dsimp only
    rw [hcomm, Nat.mod_eq_of_lt (by omega)]
    -- the sections after it, whose words were not visited
    refine ih (by omega) (by omega) (by omega) (by omega) (by omega) fun k hk => ?_
    rw [hkeep' _ (.inr (by omega)), hkeep _ (by omega)]
    have hmul : (n * seg.recSize) % 4 = 0 := by
      rw [Nat.mul_mod, hrec, Nat.mul_zero, Nat.zero_mod]
    have hword : pos + (8 + n * seg.recSize) + 4 * k
        = pos + 4 * (2 + n * seg.recSize / 4 + k) := by omega
    rw [hword]
    exact hrd _ (by omega)

/-- A visited field changes nothing when the callback returns what it
was given. -/
theorem visitAt_id {p : Nat} {ext : BtfExt} (hin : p + 4 ≤ ext.data.length)
    (h : visit (wordAt host ext.data p) = .ok (wordAt host ext.data p)) :
    visitAt host visit p ext = .ok () ext := by
  rw [visitAt, if_pos hin, h]
  dsimp only
  rw [setWord_wordAt hin]

theorem visitAll_id {ext : BtfExt} : ∀ {l : List Nat}, (∀ p ∈ l, p + 4 ≤ ext.data.length
      ∧ visit (wordAt host ext.data p) = .ok (wordAt host ext.data p)) →
    each (visitAt host visit) l ext = .ok () ext
  | [], _ => rfl
  | p :: l, h => by
    obtain ⟨hin, hp⟩ := h p (by simp)
    rw [each, run_bind, visitAt_id hin hp]
    exact visitAll_id fun q hq => h q (by simp [hq])

/-- A pass that came to its end has replaced every field. -/
theorem visitAll_ok (hvisit : ∀ w w', w < 2 ^ 32 → visit w = .ok w' → w' < 2 ^ 32) :
    ∀ {l : List Nat} {ext ext' : BtfExt}, l.Pairwise WordApart →
      each (visitAt host visit) l ext = .ok () ext' →
      ∀ p ∈ l, visit (wordAt host ext.data p) = .ok (wordAt host ext'.data p)
  | [], _, _, _, _ => nofun
  | q :: l, ext, ext', hl, hrun => by
    obtain ⟨hq, hl⟩ := pairwise_cons.mp hl
    obtain ⟨u, ext₁, h₁, hrun⟩ := bind_eq_ok.mp hrun
    obtain ⟨w, hin, hw, rfl⟩ := visitAt_eq_ok h₁
    have hframe := visitAll_frame host visit (q := q) (l := l)
      (fun p hp => (hq p hp).symm) { ext with data := setWord host ext.data q w }
    rw [hrun, after_ok] at hframe
    intro p hp
    rcases mem_cons.mp hp with rfl | hp
    · rw [hw, hframe]
      exact congrArg Except.ok (wordAt_setWord hin (hvisit _ _ (wordAt_lt ..) hw)).symm
    · rw [← visitAll_ok hvisit hl hrun p hp]
      exact congrArg visit (wordAt_setWord_of_disjoint hin (hq p hp)).symm

/-- A pass over fields the callback accepts comes to its end. -/
theorem visitAll_of : ∀ {l : List Nat} {ext : BtfExt}, l.Pairwise WordApart →
    (∀ p ∈ l, p + 4 ≤ ext.data.length ∧ ∃ w, visit (wordAt host ext.data p) = .ok w) →
    ∃ ext', each (visitAt host visit) l ext = .ok () ext'
  | [], ext, _, _ => ⟨ext, rfl⟩
  | q :: l, ext, hl, h => by
    obtain ⟨hq, hl⟩ := pairwise_cons.mp hl
    obtain ⟨hin, w, hw⟩ := h q mem_cons_self
    have hrest : ∀ p ∈ l, p + 4 ≤ (setWord host ext.data q w).length
        ∧ ∃ v, visit (wordAt host (setWord host ext.data q w) p) = .ok v := by
      intro p hp
      rw [setWord_length hin, wordAt_setWord_of_disjoint hin (hq p hp)]
      exact h p (mem_cons_of_mem _ hp)
    obtain ⟨ext', hrun⟩ : ∃ ext', each (visitAt host visit) l
        { ext with data := setWord host ext.data q w } = .ok () ext' :=
      visitAll_of hl hrest
    refine ⟨ext', bind_eq_ok.mpr ⟨(), _, ?_, hrun⟩⟩
    rw [visitAt, if_pos hin, hw]

end

-- ======== validated data

/-- A validated subsection, as it lies in native data. -/
structure BtfExtInfo.Placed (host : ByteOrder) (data : Bytes) (i : BtfExtInfo) : Prop where
  inside : i.info + i.len ≤ data.length
  small : i.len < 2 ^ 32
  min : 8 ≤ i.recSize
  words : i.recSize % 4 = 0
  secs : SecsAt (wordAt host data) i.recSize i.info i.len i.secCnt

/-- A subsection that is validated or not there. -/
def BtfExtInfo.Wf (host : ByteOrder) (data : Bytes) (i : BtfExtInfo) : Prop :=
  i = .absent ∨ i.Placed host data

/-- Two subsections share no byte. -/
def BtfExtInfo.Apart (i j : BtfExtInfo) : Prop :=
  i.len = 0 ∨ j.len = 0 ∨ i.info + i.len ≤ j.info ∨ j.info + j.len ≤ i.info

section

variable {host : ByteOrder} {visit : Nat → Res Nat} {data : Bytes}
  {rd : Nat → Nat} {recSize pos left cnt : Nat}

/-- The type IDs of records of this size lie in the subsection, in
order. -/
theorem typeIdSlots_sorted (hrec : 8 ≤ recSize) (h : SecsAt rd recSize pos left cnt) : ∀ fuel,
      (∀ p ∈ segSlotsFrom rd [] [4] recSize fuel pos left, pos ≤ p ∧ p + 4 ≤ pos + left)
      ∧ (segSlotsFrom rd [] [4] recSize fuel pos left).Pairwise
          fun p q => p + 4 ≤ q := by
  induction h with
  | done =>
    intro fuel
    cases fuel with
    | zero => exact ⟨nofun, .nil⟩
    | succ fuel =>
      rw [segSlotsFrom, if_pos rfl]
      exact ⟨nofun, .nil⟩
  | @sec pos left cnt num fits rest ih =>
    intro fuel
    cases fuel with
    | zero => exact ⟨nofun, .nil⟩
    | succ fuel =>
    obtain ⟨hin, hsorted⟩ := ih fuel
    rw [segSlotsFrom, if_neg (by omega), map_nil, nil_append]
    generalize rd (pos + 4) = n at *
    have hrecs : (List.range n).flatMap (fun i =>
        [4].map (pos + 8 + recSize * i + ·))
          = (List.range n).map fun i => pos + 8 + recSize * i + 4 :=
      flatMap_pure_eq_map _ _
    have hrec_le : ∀ {i j : Nat}, i < j → recSize * i + recSize ≤ recSize * j := by
      intro i j hij
      rw [← Nat.mul_succ]
      exact Nat.mul_le_mul_left _ hij
    rw [hrecs]
    rw [Nat.mul_comm n] at fits hin hsorted ⊢
    refine ⟨?_, pairwise_append.mpr ⟨?_, hsorted, ?_⟩⟩
    · intro p hp
      rcases mem_append.mp hp with hp | hp
      · obtain ⟨i, hi, rfl⟩ := mem_map.mp hp
        have := hrec_le (mem_range.mp hi)
        omega
      · have := hin p hp
        omega
    · refine pairwise_map.mpr (pairwise_lt_range.imp fun hij => ?_)
      have := hrec_le hij
      omega
    · intro p hp q hq
      obtain ⟨i, hi, rfl⟩ := mem_map.mp hp
      have := hrec_le (mem_range.mp hi)
      have := hin q hq
      omega

/-- One subsection is one pass, also when other parts of the data have
been rewritten since it was validated. -/
theorem visitSeg_eq {seg : BtfExtInfos → BtfExtInfo} {ext ext' : BtfExt}
    (h : (seg ext.infos).Wf host ext.data) (hinfos : ext'.infos = ext.infos)
    (hlen : ext'.data.length = ext.data.length)
    (hw : ∀ q, (seg ext.infos).info ≤ q → q + 4 ≤ (seg ext.infos).info + (seg ext.infos).len →
      wordAt host ext'.data q = wordAt host ext.data q) :
    visitSeg host visit [] [4] seg ext'
      = each (visitAt host visit) ((seg ext.infos).slots host ext.data [] [4])
        ext' := by
  unfold visitSeg BtfExtInfo.slots
  rw [run_bind, run_get]
  dsimp only
  rw [hinfos, hlen]
  rcases h with h | h
  · rw [h]
    rfl
  have hcnt := h.secs.cnt_le
  have hin := h.inside
  have hmin := h.min
  refine visitSecs_eq (by omega) h.words (by simp) (fun f hf => ?_) h.secs
    (by omega) (by omega) rfl (by omega) h.small
    fun k hk => hw _ (by omega) (by omega)
  cases mem_singleton.mp hf
  omega

theorem BtfExtInfo.Wf.slots_sorted {i : BtfExtInfo} (h : i.Wf host data) :
    (∀ p ∈ i.slots host data [] [4], i.info ≤ p ∧ p + 4 ≤ i.info + i.len)
      ∧ (i.slots host data [] [4]).Pairwise WordApart := by
  rcases h with rfl | h
  · exact ⟨nofun, .nil⟩
  · obtain ⟨hin, hsorted⟩ := typeIdSlots_sorted h.min h.secs i.len
    exact ⟨hin, hsorted.imp .inr⟩

end

/-- The type IDs of a `.BTF.ext` section are visited in one pass. -/
theorem visitTypeIds_eq {host : ByteOrder} {visit : Nat → Res Nat} {ext : BtfExt}
    (hf : ext.infos.funcInfo.Wf host ext.data) (hc : ext.infos.coreReloInfo.Wf host ext.data)
    (ha : ext.infos.funcInfo.Apart ext.infos.coreReloInfo) :
    btfExtVisitTypeIds host visit ext = each (visitAt host visit) (ext.typeIdSlots host) ext := by
  unfold btfExtVisitTypeIds BtfExt.typeIdSlots
  rw [run_bind, visitSeg_eq hf rfl rfl fun _ _ _ => rfl, each_append, run_bind]
  obtain ⟨hin, -⟩ := hf.slots_sorted
  have hframe : ∀ q, ext.infos.coreReloInfo.info ≤ q →
      q + 4 ≤ ext.infos.coreReloInfo.info + ext.infos.coreReloInfo.len →
      ∀ p ∈ ext.infos.funcInfo.slots host ext.data [] [4], WordApart p q := by
    intro q hq hq' p hp
    have hp := hin p hp
    unfold BtfExtInfo.Apart at ha
    unfold WordApart
    omega
  cases hrun : each (visitAt host visit) (ext.infos.funcInfo.slots host ext.data [] [4]) ext with
  | error e ext' => rfl
  | ok u ext' =>
    have hstate := visitAll_state host visit (ext.infos.funcInfo.slots host ext.data [] [4]) ext
    rw [hrun] at hstate
    refine visitSeg_eq hc hstate.1 hstate.2 fun q hq hq' => ?_
    have hsame := visitAll_frame host visit (hframe q hq hq') ext
    rw [hrun] at hsame
    exact hsame

/-- The positions share no byte. -/
theorem typeIdSlots_apart {host : ByteOrder} {ext : BtfExt}
    (hf : ext.infos.funcInfo.Wf host ext.data) (hc : ext.infos.coreReloInfo.Wf host ext.data)
    (ha : ext.infos.funcInfo.Apart ext.infos.coreReloInfo) :
    (ext.typeIdSlots host).Pairwise WordApart := by
  obtain ⟨hinf, hpf⟩ := hf.slots_sorted
  obtain ⟨hinc, hpc⟩ := hc.slots_sorted
  refine pairwise_append.mpr ⟨hpf, hpc, fun p hp q hq => ?_⟩
  have hp := hinf p hp
  have hq := hinc q hq
  unfold BtfExtInfo.Apart at ha
  unfold WordApart
  omega

-- ======== from btf_ext__new

/-- What `btf_ext_visit_type_ids` relies on. -/
structure BtfExt.Wf (host : ByteOrder) (ext : BtfExt) : Prop where
  func : ext.infos.funcInfo.Wf host ext.data
  core : ext.infos.coreReloInfo.Wf host ext.data
  apart : ext.infos.funcInfo.Apart ext.infos.coreReloInfo

theorem BtfExt.Wf.slots_in {host : ByteOrder} {ext : BtfExt} (h : ext.Wf host) :
    ∀ p ∈ ext.typeIdSlots host, p + 4 ≤ ext.data.length := by
  have hseg : ∀ i : BtfExtInfo, i.Wf host ext.data →
      ∀ p ∈ i.slots host ext.data [] [4], p + 4 ≤ ext.data.length := by
    intro i hi p hp
    have hp' := hi.slots_sorted.1 p hp
    rcases hi with rfl | hi
    · cases hp
    · have := hi.inside
      omega
  intro p hp
  rcases mem_append.mp hp with hp | hp
  · exact hseg _ h.func p hp
  · exact hseg _ h.core p hp

section

variable {host : ByteOrder} {data : Bytes} {ext : BtfExt} {hdrLen : Nat}
  {sec sec' : BtfExtSecParam} {i j : BtfExtInfo}

theorem wf_of_parse (hsmall : sec.len < 2 ^ 32) (hmin : 8 ≤ sec.minRecSize)
    (hp : btfExtParseSecInfo host true data hdrLen sec = .ok i) :
    i.Wf host data := by
  rcases parseSecInfo_eq_ok.mp hp with ⟨-, rfl⟩ | ⟨-, hok, -⟩
  · exact .inl rfl
  have hin := hok.inside
  have henough := hok.enough
  have hlen := hok.len
  have hinfo := hok.info
  exact .inr ⟨by omega, by omega, hmin.trans hok.min, hok.words, hok.secs⟩

theorem apart_of_parse {nat nat' : Bool} (ha : sec.Apart sec')
    (hp : btfExtParseSecInfo host nat data hdrLen sec = .ok i)
    (hp' : btfExtParseSecInfo host nat' data hdrLen sec' = .ok j) : i.Apart j := by
  rcases parseSecInfo_eq_ok.mp hp with ⟨-, rfl⟩ | ⟨hz, hok, -⟩
  · exact .inl rfl
  rcases parseSecInfo_eq_ok.mp hp' with ⟨-, rfl⟩ | ⟨hz', hok', -⟩
  · exact .inr (.inl rfl)
  have h₃ := hok.len
  have h₄ := hok'.len
  have h₅ := hok.info
  have h₆ := hok'.info
  unfold BtfExtSecParam.Apart at ha
  unfold BtfExtInfo.Apart
  omega

/-- Native data whose subsections do not meet. -/
theorem btfExtNew_native_wf (h : btfExtNew host data = .ok ext)
    (hnative : ext.swappedEndian = false)
    (hapart : (rdExtHdr host data).secs.Pairwise BtfExtSecParam.Apart) :
    ext.Wf host ∧ ext.data = data := by
  obtain ⟨c, hc, h⟩ := of_bind_ok h
  obtain ⟨swapped, -, hc⟩ := of_bind_ok hc
  obtain ⟨infos, hparse, hc⟩ := of_bind_ok hc
  cases hc
  unfold btfExtLoad at h
  split at h
  · split at h
    · cases h
      cases hnative
    · cases h
  next hs =>
    cases h
    rw [Bool.not_eq_true] at hs
    subst hs
    obtain ⟨hf, -, hcore⟩ := (parseInfo_eq_ok ⟨rfl, rfl, rfl, rfl⟩).mp hparse
    obtain ⟨hsf, -, hsc⟩ := forall_secs.mp (secs_len_lt host data)
    obtain ⟨⟨-, hfc⟩, -⟩ : ((rdExtHdr host data).funcInfo.Apart (rdExtHdr host data).lineInfo
      ∧ (rdExtHdr host data).funcInfo.Apart (rdExtHdr host data).coreRelo)
      ∧ _ := by
      simpa [BtfExtHeader.secs] using hapart
    have hmin : 8 ≤ (rdExtHdr host data).coreRelo.minRecSize := by
      unfold BtfExtHeader.coreRelo
      split <;> exact (by decide : 8 ≤ 16)
    exact ⟨⟨wf_of_parse hsf (Nat.le_refl 8) hf, wf_of_parse hsc hmin hcore,
      apart_of_parse hfc hf hcore⟩, rfl⟩

end

end Libbpf
