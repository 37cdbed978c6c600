/-
A search by name is a search by name, in every state of an object.

`BtfMade` are the objects a program can have: parsed or made empty, changed
by calls, moved to another base. A change is anything that leaves the object
in order, with a name for every type, and clears the note unless it leaves
the own part alone; the calls are such changes (`BtfCall.made`,
`BtfCalls.made`), and so is any that goes through `btf_ensure_modifiable`
first. While an object is the base of another it is not changed, but for
what a look at its strings does to it.

A relocation does not clear the note, an ID that was right for the old base.
If the new base has fewer types the note points behind the first named types,
and a search misses them; so the runs here move to bases with no fewer.
-/
import Mathlib.Data.List.Sort
import Libbpf.Btf.Noted
import Libbpf.Btf.RelocateSpec

namespace Libbpf

open Lib List

/-- The objects that a program can have. -/
inductive BtfMade : Btf → Prop
  | parsed {host : ByteOrder} {addr : Nat} {data : Bytes} {base : Option Btf} {btf : Btf}
      (hbase : ∀ b, base = some b → BtfMade b)
      (h : btfNew host addr data base = .ok btf) : BtfMade btf
  | empty {host : ByteOrder} {addr : Nat} {addLayout : Bool} {base : Option Btf}
      (hbase : ∀ b, base = some b → BtfMade b) :
      BtfMade (btfNewEmpty host addr addLayout base)
  | changed {btf btf' : Btf} (h : BtfMade btf) (wf : btf'.Wf) (names : btf'.NamesOk)
      (base : btf'.baseBtf.map Btf.norm = btf.baseBtf.map Btf.norm) (quiets : btf.Quiets btf') :
      BtfMade btf'
  | relocated {host : ByteOrder} {qsort : List BtfNameInfo → List BtfNameInfo} {fuel : Nat}
      {btf btf' base dist : Btf} (h : BtfMade btf) (hbase : BtfMade base)
      (hq : ∀ l, ∀ d ∈ qsort l, d ∈ l)
      (hdist : btf.baseBtf = some dist) (hdistRoot : dist.baseBtf = none)
      (hbaseRoot : base.baseBtf = none) (hknown : ∀ t ∈ btf.types, t.kind ≠ .unkn)
      (hcnt : btf.namedStartId = 0 ∨ dist.typeCnt ≤ base.typeCnt)
      (hrun : btfRelocate host qsort fuel (some base) btf = .ok () btf') : BtfMade btf'

section

variable {btf btf' : Btf}

/-- Without a note there is nothing to promise. -/
theorem Btf.noteOk_of_zero (h : btf.namedStartId = 0) : btf.NoteOk :=
  ⟨fun hne => absurd h hne, fun i a _ hi => by omega⟩

/-- Objects that look alike have the same names. -/
theorem Btf.nameOf_of_norm (hw : btf.Wf) (hw' : btf'.Wf) (h : btf'.norm = btf.norm) (id : Nat) :
    btf'.nameOf id = btf.nameOf id := by
  have hcore := Btf.core_of_norm h
  unfold Btf.nameOf
  rw [← btfTypeById_core btf', hcore, btfTypeById_core]
  refine congrArg _ (funext fun t => ?_)
  rw [← hw'.strByOffset_core, hcore, hw.strByOffset_core]

theorem Btf.typeCnt_of_norm (h : btf'.norm = btf.norm) : btf'.typeCnt = btf.typeCnt := by
  rw [← btf'.core_typeCnt, Btf.core_of_norm h, btf.core_typeCnt]

theorem Btf.startId_of_norm (h : btf'.norm = btf.norm) : btf'.startId = btf.startId := by
  rw [← btf'.core_startId, Btf.core_of_norm h, btf.core_startId]

/-- The note of an object that was looked at. -/
theorem Btf.NoteOk.quieted (hnote : btf.NoteOk) (hw : btf.Wf) (hw' : btf'.Wf)
    (hnorm : btf'.norm = btf.norm)
    (hown : btf'.toBtfOwn = btf.toBtfOwn ∨ btf'.namedStartId = 0) : btf'.NoteOk := by
  rcases hown with hown | h0
  · have hnamed : btf'.namedStartId = btf.namedStartId := by rw [hown]
    have hcnt := Btf.typeCnt_of_norm hnorm
    have hstart := Btf.startId_of_norm hnorm
    refine ⟨fun hne i j a b hi hij hj ha hb => ?_, fun i a hi hin ha hlt => ?_⟩
    · rw [Btf.nameOf_of_norm hw hw' hnorm] at ha hb
      exact hnote.sorted (hnamed ▸ hne) i j a b (hstart ▸ hi) hij (hcnt ▸ hj) ha hb
    · rw [Btf.nameOf_of_norm hw hw' hnorm] at ha
      exact hnote.anon i a (hstart ▸ hi) (hnamed ▸ hin) ha (hcnt ▸ hlt)
  · exact Btf.noteOk_of_zero h0

/-- An object that was looked at can be searched as before. -/
theorem Btf.Searchable.quieted (h : btf.Searchable) (hw' : btf'.Wf)
    (hnorm : btf'.norm = btf.norm) (hq : btf.Quiets btf') : btf'.Searchable := by
  induction h generalizing btf' with
  | @mk btf hw hn hnote hbase ih =>
    obtain ⟨hown, hbq⟩ := Btf.quiets_iff.mp hq
    refine .mk hw' (fun id hid => ?_) (hnote.quieted hw hw' hnorm hown) fun c' hc' => ?_
    · rw [Btf.nameOf_of_norm hw hw' hnorm]
      exact hn id (Btf.typeCnt_of_norm hnorm ▸ hid)
    · rw [hc'] at hbq
      cases hc : btf.baseBtf with
      | none =>
        rw [hc] at hbq
        exact hbq.elim
      | some c =>
        rw [hc] at hbq
        have hnormBase : c'.norm = c.norm := by
          have hb := (Btf.mapChain_eq_iff.mp hnorm).2
          rw [hc, hc'] at hb
          exact Option.some.inj hb
        exact ih c hc (hw'.base hc') hnormBase hbq

end

-- ======== relocations

section

variable {base btf btf' : Btf}

/-- A name of the split object on its new base. -/
theorem Relocated.nameOf (h : Relocated base btf btf') (hw : btf.Wf) (hn : btf.NamesOk)
    (hknown : ∀ t ∈ btf.types, t.kind ≠ .unkn) {j : Nat} (hj : j < btf.types.length) :
    btf'.nameOf (btf'.startId + j) = btf.nameOf (btf.startId + j) := by
  have hpos := hw.startId_pos
  have hpos' := h.wf.startId_pos
  have hget : btfTypeById btf (btf.startId + j) = some btf.types[j] := by
    rw [btfTypeById_own hw.own.types (by omega) (by omega), Nat.add_sub_cancel_left,
      getElem?_eq_getElem hj]
  obtain ⟨t, s, ht, hs, hname⟩ := hn.get (show btf.startId + j < btf.typeCnt by
    have := hw.own.typeCnt
    omega)
  rw [hget] at ht
  cases ht
  obtain ⟨t', ht', hs'⟩ := h.names j _ s (getElem?_eq_getElem hj) (hknown _ (getElem_mem hj)) hs
  rw [hname, Btf.nameOf, btfTypeById_own h.wf.own.types (by omega) (by omega),
    Nat.add_sub_cancel_left, ht']
  exact hs'

/-- A relocation to a base with no fewer types leaves an object that can be
searched. -/
theorem Relocated.searchable (h : Relocated base btf btf') (hs : btf.Searchable)
    (hbase : base.Searchable) (hknown : ∀ t ∈ btf.types, t.kind ≠ .unkn)
    (hcnt : btf.namedStartId = 0 ∨ btf.startId ≤ base.typeCnt) : btf'.Searchable := by
  cases hs with
  | mk hw hn hnote _ =>
    have hcnt₀ := hw.own.typeCnt
    have hcnt' := h.wf.own.typeCnt
    have hlen := h.length
    have hstart' : btf'.startId = base.typeCnt := by
      rw [h.wf.own.startId, h.base]
      rfl
    have hmoved : ∀ i, btf'.startId ≤ i → i < btf'.typeCnt →
        btf'.nameOf i = btf.nameOf (btf.startId + (i - btf'.startId)) := by
      intro i hi hlt
      have := h.nameOf hw hn hknown (j := i - btf'.startId) (by omega)
      rwa [Nat.add_sub_cancel' hi] at this
    refine .mk h.wf (fun id hid => ?_) ?_ fun b hb => ?_
    · by_cases hown : btf'.startId ≤ id
      · rw [hmoved id hown hid]
        exact hn _ (by omega)
      -- a type of the base, or void
      obtain ⟨t, s, ht, hstr, -⟩ := hbase.names.get (show id < base.typeCnt by omega)
      have hbt : base.typeById id = some t := by
        rw [Btf.typeById_of_lt (by omega), ht]
      have ht' := Btf.btfTypeById_of_typeById (h.wf.typeById_base h.base hbt)
      rw [Btf.nameOf, ht']
      show (btf'.strByOffset t.nameOff).isSome = true
      rw [h.wf.strByOffset_base h.base hstr]
      rfl
    · rcases hcnt with h0 | hle
      · exact Btf.noteOk_of_zero (h.note.trans h0)
      refine ⟨fun hne i j a b hi hij hj ha hb => ?_, fun i a hi hin ha hlt => ?_⟩
      · rw [hmoved i hi (by omega)] at ha
        rw [hmoved j (by omega) hj] at hb
        exact hnote.sorted (h.note ▸ hne) _ _ a b (by omega) (by omega) (by omega) ha hb
      · rw [hmoved i hi hlt] at ha
        rw [h.note] at hin
        exact hnote.anon _ a (by omega) (by omega) ha (by omega)
    · rw [h.base] at hb
      cases hb
      exact hbase

end

-- ======== all states

/-- An empty object has no types of its own. -/
theorem btfNewEmpty_searchable (host : ByteOrder) (addr : Nat) (addLayout : Bool)
    {base : Option Btf} (hbase : ∀ b, base = some b → b.Searchable) :
    (btfNewEmpty host addr addLayout base).Searchable := by
  have hw := btfNewEmpty_wf host addr addLayout fun b hb => (hbase b hb).wf
  refine .mk hw ?_ (Btf.noteOk_of_zero rfl) hbase
  exact hw.namesOk (fun t ht => by cases ht) fun b hb => (hbase b hb).names

theorem BtfMade.searchable {btf : Btf} (h : BtfMade btf) : btf.Searchable := by
  induction h with
  | parsed _ hnew ih => exact btfNew_searchable ih hnew
  | @empty host addr addLayout base _ ih => exact btfNewEmpty_searchable host addr addLayout ih
  | @changed btf btf' _ wf names base quiets ih =>
    obtain ⟨hown, hbq⟩ := Btf.quiets_iff.mp quiets
    have hnote : btf'.NoteOk := by
      rcases hown with hown | h0
      · -- nothing of the own part changed, so the object looks as before
        cases ih with
        | mk hw hn hnote _ =>
          have hnorm : btf'.norm = btf.norm :=
            Btf.mapChain_eq_iff.mpr ⟨by rw [hown], base⟩
          exact hnote.quieted hw wf hnorm (Or.inl hown)
      · exact Btf.noteOk_of_zero h0
    refine .mk wf names hnote fun c' hc' => ?_
    rw [hc'] at hbq base
    cases hc : btf.baseBtf with
    | none =>
      rw [hc] at hbq
      exact hbq.elim
    | some c =>
      rw [hc] at hbq base
      cases ih with
      | mk _ _ _ hsb =>
        exact (hsb c hc).quieted (wf.base hc') (Option.some.inj base) hbq
  | relocated _ _ hq hdist hdistRoot hbaseRoot hknown hcnt hrun ih ihBase =>
    have hw := ih.wf
    refine (btfRelocate_relocated hw hdist hdistRoot ihBase.wf hbaseRoot hq hrun).searchable
      ih ihBase hknown ?_
    rwa [hw.own.startId, hdist]

-- ======== the calls

/-- A call that leaves a name for every type. -/
theorem BtfCall.made {c : BtfCall} {b b' : Btf} (h : BtfMade b) (hg : c.Given b)
    (hc : c.Returns b b') (names : b'.NamesOk) : BtfMade b' := by
  have he := c.edited h.searchable.wf hg
  have hq := c.quieter b
  rw [hc.after] at he hq
  exact .changed h he.wf names he.base hq

/-- Records of known kinds whose names can be read. -/
theorem Btf.Clean.namesOk {b : Btf} (hc : b.Clean) (hw : b.Wf)
    (hbase : ∀ c, b.baseBtf = some c → c.NamesOk) : b.NamesOk := by
  refine hw.namesOk (fun t ht => ?_) hbase
  obtain ⟨hsized, hnamed⟩ := hc t ht
  have hknown : t.kind ≠ .unkn ∧ ∃ d, btfFieldDesc .strs t.kind = some d := by
    unfold BtfType.Sized at hsized
    cases hk : t.kind with
    | unkn => rw [hk] at hsized; cases hsized
    | other n => rw [hk] at hsized; cases hsized
    | _ => exact ⟨fun h => (by cases h), _, rfl⟩
  obtain ⟨hk, d, hd⟩ := hknown
  exact hnamed _ (btfFieldSlots_eq hd) 0 (name_mem_slots hd hk _)

/-- A sequence of calls on an object in order, none of which copies a record
of the unknown kind. -/
theorem BtfCalls.made {b b' : Btf} {cs : List BtfCall} (hcs : BtfCalls b cs b')
    (hu : ∀ c ∈ cs, c.NoUnkn) (h : BtfMade b) (hf : b.BaseFinds) (hc : b.Clean) :
    BtfMade b' := by
  induction hcs with
  | done b => exact h
  | @step b b₁ b' c cs hg hr _ ih =>
    have hw := h.searchable.wf
    have hwrites := c.writes hw hg (hu c (mem_cons_self ..))
    have hq := c.quieter b
    rw [hr.after] at hwrites hq
    have hclean := hwrites.clean hf hc
    have hnames : b₁.NamesOk := by
      refine hclean.namesOk hwrites.edited.wf fun c₁ hc₁ => ?_
      have hbase := hwrites.edited.base
      have hbq := (Btf.quiets_iff.mp hq).2
      rw [hc₁] at hbase hbq
      cases hc₀ : b.baseBtf with
      | none =>
        rw [hc₀] at hbq
        exact hbq.elim
      | some c₀ =>
        rw [hc₀] at hbase hbq
        cases h.searchable with
        | mk _ _ _ hsb =>
          exact ((hsb c₀ hc₀).quieted (hwrites.edited.wf.base hc₁)
            (Option.some.inj hbase) hbq).names
    exact ih (fun c hc => hu c (mem_cons_of_mem _ hc)) (BtfCall.made h hg hr hnames)
      (hwrites.edited.baseFinds hw hf) hclean

/-- In every state of an object a search by name and kind finds the smallest
ID from the start on whose type has them, the base first, or nothing if
there is none. -/
theorem find_by_name_exact {btf : Btf} (h : BtfMade btf) {startId : Nat} (hstart : 0 < startId)
    (name : CStr) (kind : Int) :
    btfFindByNameKind btf startId name kind = btfScanByNameKind btf startId name kind :=
  h.searchable.find_eq_scan hstart name kind

/-- A `qsort`. -/
private def insertionQsort (l : List BtfNameInfo) : List BtfNameInfo :=
  l.insertionSort fun a b => cmpBtfNameSize a b ≤ 0

private def cstrA : CStr := ⟨[97], mem_singleton.not.mpr (by decide)⟩

/-- `struct s` without members, with the name at offset 1. -/
private def structS : BtfType := ⟨1, btfTypeInfo .struct 0 false, 4, []⟩

/-- An integer without a name. -/
private def anonInt : BtfType := ⟨0, btfTypeInfo .int 0 false, 4, [32]⟩

/-- A base with the string "s". -/
private def sBase (addr : Nat) (types : List BtfType) : Res Btf :=
  btfNew .little addr (btfImage .little types [0, 115, 0]) none

/-- Integers "a" and "b" on a base with the string "s". -/
private def abOn (dist : Btf) : Res Btf :=
  btfNew .little 2 (btfImage .little
    [⟨3, btfTypeInfo .int 0 false, 4, [32]⟩, ⟨5, btfTypeInfo .int 0 false, 4, [32]⟩]
    [97, 0, 98, 0]) (some dist)

/-- The integers made on a distilled base and moved to another one. -/
private def movedAb (distTypes baseTypes : List BtfType) : Res Btf := do
  let dist ← sBase 0 distTypes
  let base ← sBase 1 baseTypes
  let split ← abOn dist
  match btfRelocate .little insertionQsort 8 (some base) split with
  | .ok _ btf => return btf
  | .error e _ => .error e

/-- Moved to a base with one type more, the integers keep a note one ID
before the first of them, and are found. -/
theorem find_by_name_exact_moved :
    ∃ btf, movedAb [structS] [anonInt, structS] = .ok btf ∧ btf.namedStartId = 2 ∧
      btf.startId = 3 ∧ btfFindByNameKind btf 1 cstrA (-1) = .ok 3 ∧
      btfFindByNameKind btf 1 cstrA (-1) = btfScanByNameKind btf 1 cstrA (-1) := by
  obtain ⟨btf, hbtf, hnote, hstart, hfind⟩ := exists_ok_of_any
    (r := movedAb [structS] [anonInt, structS]) (P := fun btf => btf.namedStartId = 2
      ∧ btf.startId = 3 ∧ btfFindByNameKind btf 1 cstrA (-1) = .ok 3) (by decide +kernel)
  obtain ⟨dist, hdist, hrest⟩ := of_bind_ok hbtf
  obtain ⟨base, hbase, hrest⟩ := of_bind_ok hrest
  obtain ⟨split, hsplit, hrest⟩ := of_bind_ok hrest
  have hdistCnt : (sBase 0 [structS]).toOption.map Btf.typeCnt = some 2 := by decide +kernel
  have hbaseCnt : (sBase 1 [anonInt, structS]).toOption.map Btf.typeCnt = some 3 := by
    decide +kernel
  have hkinds : (sBase 0 [structS] >>= abOn).toOption.map
      (fun split => split.types.map BtfType.kind) = some [.int, .int] := by decide +kernel
  rw [bind_ok hdist hsplit] at hkinds
  rw [hdist] at hdistCnt
  rw [hbase] at hbaseCnt
  have hmadeDist : BtfMade dist := .parsed (fun b hb => by cases hb) hdist
  have hmadeBase : BtfMade base := .parsed (fun b hb => by cases hb) hbase
  have hmadeSplit : BtfMade split :=
    .parsed (fun b hb => by cases hb; exact hmadeDist) hsplit
  cases hrun : btfRelocate .little insertionQsort 8 (some base) split with
  | error e btf' =>
    rw [hrun] at hrest
    cases hrest
  | ok u btf' =>
    rw [hrun] at hrest
    cases hrest
    have hmade : BtfMade btf := by
      refine .relocated hmadeSplit hmadeBase (fun l d hd => ?_) (btfNew_base hsplit)
        (btfNew_base hdist) (btfNew_base hbase)
        (fun t ht => ?_) (Or.inr ?_) hrun
      · exact (mem_insertionSort _).mp hd
      · have hk : t.kind ∈ [BtfKind.int, .int] :=
          Option.some.inj hkinds ▸ mem_map_of_mem ht
        intro hu
        rw [hu] at hk
        revert hk
        decide
      · rw [Option.some.inj hdistCnt, Option.some.inj hbaseCnt]
        decide
    exact ⟨btf, hbtf, hnote, hstart, hfind, find_by_name_exact hmade (by decide) cstrA (-1)⟩

/-- Moved to a base with one type less, the first of the integers has an ID
before the noted one, and is not found. -/
theorem relocate_hides_name :
    ∃ btf, movedAb [structS, structS] [structS] = .ok btf ∧ btf.namedStartId = 3 ∧
      btf.startId = 2 ∧ btfFindByNameKind btf 1 cstrA (-1) = fail ENOENT ∧
      btfScanByNameKind btf 1 cstrA (-1) = .ok 2 := by
  exact exists_ok_of_any (by decide +kernel)

end Libbpf
