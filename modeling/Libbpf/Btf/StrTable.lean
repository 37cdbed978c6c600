/-
The string operations by their effect.

`btf__find_str` changes nothing a later string operation could notice
(`findStr_spec`), and what it returns is a function of the views of the
levels (`findVal`). `btf__add_str` is then the same search with one more
outcome: a string found nowhere is appended to the object's own section.
Its section is grown by whatever was appended since the header last
took stock, which is more than one string only after a failed
`btf__add_btf`.

A split object trusts the offsets its base returns. `BaseFinds` says that
it may: an offset the base's lookup returns reads back as that string.
-/
import Libbpf.Btf.View

namespace Libbpf

open Lib
open List hiding after

variable {btf : Btf} {off : Nat} {s : CStr} {ss : Strset}

-- ======== making it modifiable

/-- The object `btf_ensure_modifiable` leaves. -/
def Btf.opened (btf : Btf) : Btf :=
  { btfInvalidateRawData btf with
    strs := .set btf.index
    strsDeduped := match btf.strs with
      | .set _ => btf.strsDeduped
      | .raw _ => if btf.hdr.strLen = 0 ∨ btf.baseBtf.isNone ∧ btf.hdr.strLen = 1 then true
          else btf.strsDeduped }

theorem btfEnsureModifiable_eq (btf : Btf) : btfEnsureModifiable btf =
      if btf.sealed then .error (.err (-EOPNOTSUPP)) btf
      else .ok () btf.opened := by
  obtain ⟨⟨_, _, _, _, _, _, _, _, _, _, _, strs, _, extra, _⟩, base⟩ := btf
  cases strs with
  | set ss => rfl
  | raw data => cases extra <;> rfl

theorem Btf.norm_opened (h : btf.sealed = false) : btf.opened.norm = btf.norm := by
  refine Btf.mapChain_eq_iff.mpr ⟨?_, rfl⟩
  simp only [h]
  rfl

theorem Btf.core_opened (btf : Btf) : btf.opened.core = btf.core := by
  refine Btf.mapChain_eq_iff.mpr ⟨?_, rfl⟩
  show ({ btf.toBtfOwn.bare with
    strs := .raw (btf.index.strsData.take btf.hdr.strLen) } : BtfOwn) = _
  rw [BtfOwn.index_data]

theorem Btf.StrsWf.index (h : btf.StrsWf) :
    btf.index.Wf ∧ btf.index.strsDataMaxLen = BTF_MAX_STR_OFFSET := by
  unfold BtfOwn.index
  cases hs : btf.strs with
  | set ss => exact h.set ss hs
  | raw data =>
    have hlen := h.raw data hs
    have hterm := h.terminated
    rw [Btf.strsData, hs, BtfStrs.data, ← hlen, take_length] at hterm
    exact ⟨Strset.wf_new _ hterm, rfl⟩

/-- Holding the strings in a set is as good as holding them raw. -/
theorem Btf.StrsWf.of_set {btf' : Btf} (h : btf.StrsWf)
    (hbase : btf'.baseBtf = none → btf.baseBtf = none) (hstrs : btf'.strs = .set ss) (hw : ss.Wf)
    (hmax : ss.strsDataMaxLen = BTF_MAX_STR_OFFSET)
    (hlen : ss.strsData.length ≤ BTF_MAX_STR_OFFSET + 1) (hpre : btf.strsData <+: ss.strsData)
    (hstrLen : btf.hdr.strLen ≤ btf'.hdr.strLen ∧ btf'.hdr.strLen ≤ ss.strsData.length)
    (hterm : Terminated (ss.strsData.take btf'.hdr.strLen)) :
    btf'.StrsWf := by
  have hdata : btf'.strsData = ss.strsData := by
    rw [Btf.strsData, hstrs, BtfStrs.data]
  refine ⟨?_, ?_, ?_, ?_, ?_, ?_⟩
  · rw [hdata]
    exact hstrLen.2
  · rw [hdata]
    exact hlen
  · rw [hdata]
    exact hterm
  · intro hnone
    obtain ⟨hpos, h0⟩ := h.first (hbase hnone)
    refine ⟨by omega, ?_⟩
    obtain ⟨r, hr⟩ := hpre
    have := h.strLen_le
    rw [hdata, ← hr, getD_eq_getElem?_getD,
      getElem?_append_left (by omega), ← getD_eq_getElem?_getD]
    exact h0
  · intro data hd
    rw [hstrs] at hd
    cases hd
  · intro ss' hss'
    rw [hstrs] at hss'
    cases hss'
    exact ⟨hw, hmax⟩

theorem Btf.Wf.opened (h : btf.Wf) : btf.opened.Wf := by
  obtain ⟨hc, hs⟩ := Btf.ownWf_iff_core.mp h.own
  refine .mk (Btf.ownWf_iff_core.mpr ⟨?_, ?_⟩) fun b hb => h.base hb
  · rw [Btf.core_opened]
    exact hc
  · obtain ⟨hiw, hmax⟩ := hs.index
    have hd : btf.index.strsData = btf.strsData := btf.index_data
    have hbase : btf.opened.baseBtf = none → btf.baseBtf = none := id
    apply hs.of_set hbase rfl hiw hmax
    · rw [hd]
      exact hs.length_le
    · exact ⟨[], by rw [hd, append_nil]⟩
    · exact ⟨Nat.le_refl _, by rw [hd]; exact hs.strLen_le⟩
    · rw [hd]
      exact hs.terminated

-- ======== lookups

/-- What the search of one level returns. -/
def BtfOwn.findVal (s : CStr) (o : BtfOwn) : Res Nat :=
  if o.sealed then fail EOPNOTSUPP
  else do
    let off ← o.index.findStr s
    intSum o.startStrOff off

/-- What `btf__find_str` returns. -/
def Btf.findVal (s : CStr) (btf : Btf) : Res Nat :=
  match btf with
  | ⟨own, none⟩ => own.findVal s
  | ⟨own, some base⟩ =>
    if Btf.findVal s base = fail ENOENT then own.findVal s
    else Btf.findVal s base
termination_by structural btf

theorem Btf.findVal_eq (s : CStr) (btf : Btf) : btf.findVal s = match btf.baseBtf with
      | none => btf.toBtfOwn.findVal s
      | some base => if base.findVal s = fail ENOENT then
          btf.toBtfOwn.findVal s else base.findVal s := by
  match btf with
  | ⟨_, none⟩ => rfl
  | ⟨_, some _⟩ => rfl

theorem btfFindStrOwn_eq (s : CStr) (btf : Btf) :
    btfFindStrOwn s btf = outcome (btf.toBtfOwn.findVal s)
      (if btf.sealed then btf else btf.opened) := by
  unfold btfFindStrOwn BtfOwn.findVal
  rw [run_bind, btfEnsureModifiable_eq]
  cases hse : btf.sealed with
  | true => rfl
  | false =>
    show (liftRes (btf.index.findStr s) >>= fun off =>
      liftRes (intSum btf.startStrOff off)) btf.opened = _
    rw [run_bind]
    cases hf : btf.index.findStr s with
    | error e => rfl
    | ok off =>
      show liftRes (intSum btf.startStrOff off) btf.opened = _
      cases hi : intSum btf.startStrOff off with
      | error e => simp [bind, Except.bind, hi, outcome]
      | ok x => simp [bind, Except.bind, hi, outcome]

/-- What a lookup leaves of an object. -/
structure Btf.Looked (b b' : Btf) : Prop where
  norm : b'.norm = b.norm
  wf : b.Wf → b'.Wf
  own : b'.toBtfOwn = b.toBtfOwn ∨ b'.toBtfOwn = b.opened.toBtfOwn

theorem Btf.norm_setBase {b c c' : Btf} (hb : b.baseBtf = some c) (hn : c'.norm = c.norm) :
    ({ b with baseBtf := some c' } : Btf).norm = b.norm := by
  refine Btf.mapChain_eq_iff.mpr ⟨rfl, ?_⟩
  rw [hb]
  exact congrArg some hn

theorem Btf.core_of_norm {b b' : Btf} (h : b'.norm = b.norm) : b'.core = b.core := by
  rw [← b'.core_norm, h, b.core_norm]

/-- Replacing the base by one that looks alike. -/
theorem Btf.Wf.setBase {b c c' : Btf} (h : b.Wf) (hb : b.baseBtf = some c)
    (hn : c'.norm = c.norm) (hw : c'.Wf) :
    ({ b with baseBtf := some c' } : Btf).Wf := by
  obtain ⟨hc, hs⟩ := Btf.ownWf_iff_core.mp h.own
  refine .mk (Btf.ownWf_iff_core.mpr ⟨?_, ?_⟩) ?_
  · rw [Btf.core_of_norm (Btf.norm_setBase hb hn)]
    exact hc
  · exact ⟨hs.strLen_le, hs.length_le, hs.terminated, nofun, hs.raw, hs.set⟩
  · intro d hd
    cases hd
    exact hw

theorem Btf.Looked.refl (b : Btf) : b.Looked b := ⟨rfl, id, Or.inl rfl⟩

theorem btfFindStrOwn_looked (s : CStr) (btf : Btf) : btf.Looked (after (btfFindStrOwn s btf)) := by
  rw [btfFindStrOwn_eq, after_outcome]
  cases h : btf.sealed with
  | true => exact Btf.Looked.refl btf
  | false => exact ⟨Btf.norm_opened h, Btf.Wf.opened, Or.inr rfl⟩

theorem Btf.findStr_eq (s : CStr) (btf : Btf) : btf.findStr s = match btf.baseBtf with
      | none => btfFindStrOwn s btf
      | some base =>
        if value (base.findStr s) = fail ENOENT then
          btfFindStrOwn s { btf with baseBtf := some (after (base.findStr s)) }
        else outcome (value (base.findStr s))
          { btf with baseBtf := some (after (base.findStr s)) } := by
  match btf with
  | ⟨own, none⟩ => rfl
  | ⟨own, some base⟩ =>
    rw [Btf.findStr]
    show _ = if value (base.findStr s) = fail ENOENT then _ else _
    cases hb : base.findStr s with
    | ok off b' =>
      rw [if_neg (by rw [value_ok]; exact fun h => fail_ne_ok h.symm)]
      rfl
    | error e b' =>
      simp only [value_error, after_error, fail, Except.error.injEq]
      split
      · rfl
      · rfl

/-- A lookup returns `findVal` and leaves nothing to notice. -/
theorem Btf.findStr_spec (s : CStr) (btf : Btf) : value (btf.findStr s) = btf.findVal s
      ∧ btf.Looked (after (btf.findStr s)) := by
  induction btf using Btf.induct with
  | h own base ih =>
    rw [Btf.findStr_eq, Btf.findVal_eq]
    cases base with
    | none =>
      refine ⟨?_, btfFindStrOwn_looked s _⟩
      simp only [btfFindStrOwn_eq, value_outcome]
    | some base =>
      obtain ⟨hv, hl⟩ := ih base rfl
      simp only [hv]
      have hset : Btf.Looked ⟨own, some base⟩
          ⟨own, some (after (base.findStr s))⟩ :=
        ⟨Btf.norm_setBase (b := ⟨own, some base⟩) rfl hl.norm,
          fun h => h.setBase rfl hl.norm (hl.wf (h.base rfl)), Or.inl rfl⟩
      split
      · have hown := btfFindStrOwn_looked s
          ⟨own, some (after (base.findStr s))⟩
        refine ⟨?_, hown.norm.trans hset.norm, fun h => hown.wf (hset.wf h), hown.own⟩
        simp only [btfFindStrOwn_eq, value_outcome]
      · simp only [value_outcome, after_outcome]
        exact ⟨trivial, hset⟩

theorem BtfOwn.findVal_norm (s : CStr) (o : BtfOwn) :
    ({ o.bare with strs := if o.sealed then o.strs else .set o.index }
      : BtfOwn).findVal s = o.findVal s := by
  unfold BtfOwn.findVal
  cases h : o.sealed with
  | true =>
    simp only [if_true]
    rw [if_pos]
    exact h
  | false => rfl

/-- Views that agree are searched alike. -/
theorem Btf.findVal_norm (s : CStr) (btf : Btf) : btf.norm.findVal s = btf.findVal s := by
  induction btf using Btf.induct with
  | h own base ih =>
    rw [Btf.findVal_eq, Btf.findVal_eq, Btf.norm_base, Btf.norm_own, BtfOwn.findVal_norm]
    cases base with
    | none => rfl
    | some b => simp only [Option.map_some, ih b rfl]

theorem Btf.findVal_congr {b b' : Btf} (h : b'.norm = b.norm) (s : CStr) :
    b'.findVal s = b.findVal s := by
  rw [← Btf.findVal_norm, h, Btf.findVal_norm]

-- ======== additions

/-- The object with another string set, and its length in the header. -/
def Btf.withSet (ss : Strset) (btf : Btf) : Btf :=
  { btf.opened with
    strs := .set ss
    hdr := { btf.hdr with strLen := ss.strsData.length } }

theorem btfAddStrOwn_eq (s : CStr) (btf : Btf) : btfAddStrOwn s btf =
      if btf.sealed then .error (.err (-EOPNOTSUPP)) btf
      else match Strset.addStr s btf.index with
        | .error e ss => .error e { btf.opened with strs := .set ss }
        | .ok off ss =>
          outcome (intSum btf.startStrOff off) (btf.withSet ss) := by
  unfold btfAddStrOwn
  rw [run_bind, btfEnsureModifiable_eq]
  cases hse : btf.sealed with
  | true => rfl
  | false =>
    cases ha : Strset.addStr s btf.index with
    | error e ss =>
      simp [run_bind, ha, Btf.opened]
    | ok off ss =>
      simp only [Bool.false_eq_true, if_false, run_bind, run_get, Btf.opened, ha, run_set]
      show liftRes (intSum btf.startStrOff off) _ = _
      cases hi : intSum btf.startStrOff off with
      | error e => rfl
      | ok x => rfl

/-- What a set may become: the string is in it, everything else stays. -/
structure Strset.Interned (ss : Strset) (s : CStr) (off : Nat) (ss' : Strset) : Prop where
  wf : ss'.Wf
  maxLen : ss'.strsDataMaxLen = ss.strsDataMaxLen
  holds : ss'.Holds s off
  keep : ∀ t o, ss.Holds t o → ss'.Holds t o
  data : (ss' = ss) ∨ (∀ o, ¬ ss.Holds s o) ∧ ss'.strsData = ss.strsData ++ s.stored

/-- The own half of `btf__add_str`: refused, out of room, or done. -/
theorem btfAddStrOwn_cases (hw : btf.Wf) (s : CStr) : (btf.sealed = true
        ∧ btfAddStrOwn s btf = .error (.err (-EOPNOTSUPP)) btf)
      ∨ (btf.sealed = false ∧ ¬ btf.index.Fits s
        ∧ btfAddStrOwn s btf = .error (.err (-ENOMEM)) btf.opened)
      ∨ ∃ off ss, btf.sealed = false ∧ btf.index.Fits s ∧ btf.index.Interned s off ss
        ∧ btfAddStrOwn s btf = outcome (intSum btf.startStrOff off) (btf.withSet ss) := by
  rw [btfAddStrOwn_eq]
  cases hse : btf.sealed with
  | true => exact Or.inl ⟨rfl, rfl⟩
  | false =>
    right
    obtain ⟨hiw, -⟩ := hw.own.strs.index
    rcases Strset.addStr_cases hiw s with ⟨off, hh, hfit, ha⟩
      | ⟨ss, hnew, hfit, ha, hsw, hd, hm, hholds⟩ | ⟨hfit, ha⟩
    · right
      refine ⟨off, btf.index, rfl, hfit, ⟨hiw, rfl, hh, fun _ _ h => h, Or.inl rfl⟩, ?_⟩
      rw [ha]
      rfl
    · right
      refine ⟨_, ss, rfl, hfit, ⟨hsw, hm, (hholds _ _).mpr (.inl ⟨rfl, rfl⟩),
        fun t o h => (hholds t o).mpr (.inr h), Or.inr ⟨hnew, hd⟩⟩, ?_⟩
      rw [ha]
      rfl
    · left
      refine ⟨rfl, hfit, ?_⟩
      rw [ha]
      rfl

/-- What a string operation may do to an object. -/
structure Btf.Interned (b b' : Btf) : Prop where
  wf : b'.Wf
  grown : ∃ r, b'.core = b.core.addStrs r
  base : b'.baseBtf.map Btf.norm = b.baseBtf.map Btf.norm
  cache : b'.toBtfOwn = b.toBtfOwn ∨ b'.rawData = none ∧ b'.rawDataSwapped = none
  index : ∀ t o, b.index.Holds t o → b'.index.Holds t o
  set : (∃ ss, b.strs = .set ss) → ∃ ss, b'.strs = .set ss

theorem Btf.core_addStrs_nil (b : Btf) : b.core.addStrs [] = b.core := by
  refine Btf.ext_own ?_ rfl
  show { b.core.toBtfOwn with
      strs := .raw (b.core.strsData ++ [])
      hdr := { b.core.hdr with strLen := b.core.hdr.strLen + 0 } } = _
  rw [append_nil, Btf.strsData]
  rw [Btf.core_own]
  rfl

theorem Btf.Looked.interned {b b' : Btf} (h : b.Looked b') (hw : b.Wf) : b.Interned b' := by
  have hn := Btf.mapChain_eq_iff.mp h.norm
  refine ⟨h.wf hw, ⟨[], ?_⟩, hn.2, ?_, ?_, ?_⟩
  · rw [Btf.core_addStrs_nil]
    exact Btf.core_of_norm h.norm
  · rcases h.own with ho | ho
    · exact Or.inl ho
    · right
      rw [ho]
      exact ⟨rfl, rfl⟩
  · intro t o ht
    rcases h.own with ho | ho
    · rw [ho]
      exact ht
    · rw [ho]
      exact ht
  · intro hset
    rcases h.own with ho | ho
    · rw [ho]
      exact hset
    · rw [ho]
      exact ⟨_, rfl⟩

theorem Btf.Interned.trans {b b' b'' : Btf} (h : b.Interned b')
    (h' : b'.Interned b'') : b.Interned b'' := by
  refine ⟨h'.wf, ?_, h'.base.trans h.base, ?_,
    fun t o ht => h'.index t o (h.index t o ht), fun hs => h'.set (h.set hs)⟩
  · obtain ⟨r, hr⟩ := h.grown
    obtain ⟨r', hr'⟩ := h'.grown
    exact ⟨r ++ r', by rw [hr', hr, Btf.addStrs_addStrs]⟩
  · rcases h'.cache with ho | hn
    · rw [ho]
      exact h.cache
    · exact Or.inr hn

/-- The data of an interned set, from the header's length on. -/
theorem Strset.Interned.data_eq {ss' : Strset}
    (h : ss.Interned s off ss') : ∃ x, ss'.strsData = ss.strsData ++ x := by
  rcases h.data with rfl | ⟨-, hd⟩
  · exact ⟨[], (append_nil _).symm⟩
  · exact ⟨_, hd⟩

theorem Strset.Interned.length_le {ss' : Strset} {n : Nat}
    (h : ss.Interned s off ss') (hfit : ss.Fits s)
    (hmax : ss.strsDataMaxLen ≤ n) (hlen : ss.strsData.length ≤ n) :
    ss'.strsData.length ≤ n := by
  rcases h.data with rfl | ⟨-, hd⟩
  · exact hlen
  · rw [hd, length_append]
    unfold Strset.Fits at hfit
    omega

theorem Btf.withSet_interned (hw : btf.Wf) (hfit : btf.index.Fits s)
    (h : btf.index.Interned s off ss) : btf.Interned (btf.withSet ss) := by
  obtain ⟨hc, hs⟩ := Btf.ownWf_iff_core.mp hw.own
  obtain ⟨-, hmax⟩ := hs.index
  obtain ⟨x, hx⟩ := h.data_eq
  have hd : btf.index.strsData = btf.strsData := btf.index_data
  rw [hd] at hx
  have hle := hs.strLen_le
  have hlen : ss.strsData.length ≤ BTF_MAX_STR_OFFSET + 1 := by
    apply h.length_le hfit
    · rw [hmax]
      exact Nat.le_succ _
    · rw [hd]
      exact hs.length_le
  -- what the header did not cover yet, and what was appended
  have hsplit : ss.strsData = btf.strsData.take btf.hdr.strLen
      ++ (btf.strsData.drop btf.hdr.strLen ++ x) := by
    rw [← append_assoc, take_append_drop, hx]
  have hcore : (btf.withSet ss).core
      = btf.core.addStrs (btf.strsData.drop btf.hdr.strLen ++ x) := by
    refine Btf.ext_own ?_ ?_
    · rw [Btf.core_own]
      show ({ btf.toBtfOwn.bare with
        hdr := { btf.hdr with strLen := ss.strsData.length }
        strs := .raw (ss.strsData.take ss.strsData.length) } : BtfOwn)
        = { btf.core.toBtfOwn with
            strs := .raw (btf.core.strs.data ++ (btf.strsData.drop btf.hdr.strLen ++ x))
            hdr := { btf.core.hdr with strLen := btf.core.hdr.strLen
              + (btf.strsData.drop btf.hdr.strLen ++ x).length } }
      have hlen' : ss.strsData.length = btf.hdr.strLen
          + (btf.strsData.drop btf.hdr.strLen ++ x).length := by
        rw [hx, length_append, length_append, length_drop]
        omega
      rw [take_length, Btf.core_strs, BtfStrs.data, ← hsplit, Btf.core_hdr, ← hlen', Btf.core_own]
    · rw [Btf.core_base]
      exact (btf.core_base).symm
  have hstrs : (btf.withSet ss).StrsWf := by
    have hbase : (btf.withSet ss).baseBtf = none → btf.baseBtf = none := id
    apply hs.of_set hbase rfl h.wf (h.maxLen.trans hmax) hlen
    · exact ⟨x, hx.symm⟩
    · refine ⟨?_, Nat.le_refl _⟩
      show btf.hdr.strLen ≤ ss.strsData.length
      rw [hx, length_append]
      omega
    · show Terminated (ss.strsData.take ss.strsData.length)
      rw [take_length]
      exact h.wf.terminated
  refine ⟨.mk (Btf.ownWf_iff_core.mpr ⟨?_, hstrs⟩) fun b hb => hw.base hb,
    ⟨_, hcore⟩, rfl, Or.inr ⟨rfl, rfl⟩, h.keep, fun _ => ⟨ss, rfl⟩⟩
  rw [hcore]
  apply hc.addStrs btf.core_strs
  · rw [← hsplit]
    exact h.wf.terminated
  · rw [← length_append, ← hsplit]
    exact hlen

theorem btfAddStrOwn_interned (hw : btf.Wf) (s : CStr) :
    btf.Interned (after (btfAddStrOwn s btf)) := by
  rcases btfAddStrOwn_cases hw s with ⟨-, h⟩ | ⟨hse, -, h⟩
    | ⟨off, ss, -, hfit, hi, h⟩
  · rw [h]
    exact (Btf.Looked.refl btf).interned hw
  · rw [h]
    exact Btf.Looked.interned ⟨Btf.norm_opened hse, Btf.Wf.opened, Or.inr rfl⟩ hw
  · rw [h, after_outcome]
    exact Btf.withSet_interned hw hfit hi

theorem Btf.addStr_eq (s : CStr) (btf : Btf) : btf.addStr s = match btf.baseBtf with
      | none => btfAddStrOwn s btf
      | some base =>
        if base.findVal s = fail ENOENT then
          btfAddStrOwn s { btf with baseBtf := some (after (base.findStr s)) }
        else outcome (base.findVal s)
          { btf with baseBtf := some (after (base.findStr s)) } := by
  unfold Btf.addStr
  cases hb : btf.baseBtf with
  | none => rfl
  | some base =>
    dsimp only
    rw [← (Btf.findStr_spec s base).1]
    cases hf : base.findStr s with
    | ok off b' =>
      rw [if_neg (by rw [value_ok]; exact fun h => fail_ne_ok h.symm)]
      rfl
    | error e b' =>
      simp only [value_error, after_error, fail, Except.error.injEq]
      split
      · rfl
      · rfl

/-- What the own half of `btf__add_str` returns. -/
def BtfOwn.addVal (s : CStr) (o : BtfOwn) : Res Nat :=
  if o.sealed then fail EOPNOTSUPP
  else do
    let off ← value (Strset.addStr s o.index)
    intSum o.startStrOff off

theorem btfAddStrOwn_value (s : CStr) (btf : Btf) :
    value (btfAddStrOwn s btf) = btf.toBtfOwn.addVal s := by
  rw [btfAddStrOwn_eq, BtfOwn.addVal]
  split
  · rfl
  · cases Strset.addStr s btf.index with
    | error e ss => rfl
    | ok off ss => exact value_outcome _ _

/-- What `btf__add_str` returns. -/
def Btf.addVal (s : CStr) (btf : Btf) : Res Nat :=
  match btf.baseBtf with
  | none => btf.toBtfOwn.addVal s
  | some base =>
    if base.findVal s = fail ENOENT then btf.toBtfOwn.addVal s
    else base.findVal s

theorem Btf.addStr_value (s : CStr) (btf : Btf) : value (btf.addStr s) = btf.addVal s := by
  rw [Btf.addStr_eq, Btf.addVal]
  cases btf.baseBtf with
  | none => exact btfAddStrOwn_value s btf
  | some base =>
    dsimp only
    split
    · exact btfAddStrOwn_value s _
    · exact value_outcome _ _

theorem Btf.addVal_norm (s : CStr) (btf : Btf) : btf.norm.addVal s = btf.addVal s := by
  have hown : btf.norm.toBtfOwn.addVal s = btf.toBtfOwn.addVal s := by
    rw [Btf.norm_own]
    unfold BtfOwn.addVal
    cases h : btf.sealed with
    | true =>
      simp only [if_true]
      rw [if_pos]
      exact h
    | false => rfl
  rw [Btf.addVal, Btf.addVal, Btf.norm_base, hown]
  cases btf.baseBtf with
  | none => rfl
  | some base => simp only [Option.map_some, Btf.findVal_norm]

/-- Searching the base first changes nothing to notice. -/
theorem Btf.looked_base {base : Btf} (hb : btf.baseBtf = some base) (s : CStr) :
    btf.Looked { btf with baseBtf := some (after (base.findStr s)) } := by
  have hl := (Btf.findStr_spec s base).2
  exact ⟨Btf.norm_setBase hb hl.norm, fun h => h.setBase hb hl.norm (hl.wf (h.base hb)), Or.inl rfl⟩

theorem Btf.addStr_interned (hw : btf.Wf) (s : CStr) : btf.Interned (after (btf.addStr s)) := by
  rw [Btf.addStr_eq]
  cases hb : btf.baseBtf with
  | none => exact btfAddStrOwn_interned hw s
  | some base =>
    have hl := Btf.looked_base hb s
    simp only
    split
    · exact (hl.interned hw).trans (btfAddStrOwn_interned (hl.wf hw) s)
    · rw [after_outcome]
      exact hl.interned hw

section

variable {b b' : Btf} (h : b.Interned b')

include h

theorem Btf.Interned.types : b'.types = b.types := by
  obtain ⟨r, hr⟩ := h.grown
  rw [← b'.core_types, hr]
  exact b.core_types

theorem Btf.Interned.typeCnt : b'.typeCnt = b.typeCnt := by
  obtain ⟨r, hr⟩ := h.grown
  rw [← b'.core_typeCnt, hr]
  exact b.core_typeCnt

theorem Btf.Interned.startId : b'.startId = b.startId := by
  obtain ⟨r, hr⟩ := h.grown
  rw [← b'.core_startId, hr]
  exact b.core_startId

theorem Btf.Interned.hdr : b'.hdr = { b.hdr with strLen := b'.hdr.strLen } := by
  obtain ⟨r, hr⟩ := h.grown
  rw [← b'.core_hdr, hr, ← b.core_hdr]
  rfl

theorem Btf.Interned.btfTypeById (id : Nat) : btfTypeById b' id = btfTypeById b id := by
  obtain ⟨r, hr⟩ := h.grown
  rw [← btfTypeById_core b', hr, ← btfTypeById_core b, btfTypeById_eq, btfTypeById_eq]
  rfl

end

-- ======== what it means

theorem intSum_eq_ok {a b c : Nat} : intSum a b = .ok c ↔ a + b = c ∧ c < 2 ^ 31 := by
  unfold intSum
  split
  next h =>
    rw [Except.ok.injEq]
    exact ⟨fun hc => ⟨hc, hc ▸ h⟩, And.left⟩
  next h =>
    refine ⟨(nomatch ·), fun hc => ?_⟩
    omega

/-- Strings stay where they are when more are added. -/
theorem Btf.Wf.strByOffset_addStrs {b : Btf} (hw : b.Wf) {x : CStr}
    (hx : b.strByOffset off = some x) (r : Bytes) :
    (b.core.addStrs r).strByOffset off = some x := by
  rw [← hw.strByOffset_core] at hx
  rw [Btf.strByOffset_eq] at hx ⊢
  show (if off < b.core.startStrOff then b.core.baseBtf.bind (·.strByOffset off)
    else if off - b.core.startStrOff < b.core.hdr.strLen + r.length then
      some (cstrAt (b.core.strsData ++ r) (off - b.core.startStrOff))
    else none) = some x
  split at hx
  next hlt =>
    rw [if_pos hlt]
    exact hx
  next hge =>
    rw [if_neg hge]
    split at hx
    next hlt =>
      rw [if_pos (by omega), ← hx]
      have hs := hw.own.strs.core
      have hlen := hs.raw _ b.core_strs
      have hterm := hs.terminated
      rw [Btf.strsData, b.core_strs, BtfStrs.data, ← hlen, take_length] at hterm
      rw [Btf.strsData, b.core_strs, BtfStrs.data, hterm.cstrAt_append (by rw [hlen]; exact hlt)]
    next => cases hx

theorem Btf.Interned.strByOffset {b b' : Btf} (hw : b.Wf) (h : b.Interned b')
    {x : CStr} (hx : b.strByOffset off = some x) :
    b'.strByOffset off = some x := by
  obtain ⟨r, hr⟩ := h.grown
  rw [← h.wf.strByOffset_core, hr]
  exact hw.strByOffset_addStrs hx r

/-- What the base's lookup returns, the split object reads back. -/
def Btf.BaseFinds (btf : Btf) : Prop :=
  ∀ base, btf.baseBtf = some base → ∀ s off, base.findVal s = .ok off → btf.strByOffset off = some s

theorem Btf.BaseFinds.mono {b b' : Btf} (hf : b.BaseFinds)
    (hbase : b'.baseBtf.map Btf.norm = b.baseBtf.map Btf.norm)
    (hstr : ∀ off x, b.strByOffset off = some x → b'.strByOffset off = some x) :
    b'.BaseFinds := by
  intro base' hb' s off hs
  rw [hb'] at hbase
  cases hb : b.baseBtf with
  | none =>
    rw [hb] at hbase
    cases hbase
  | some base =>
    rw [hb] at hbase
    apply hstr
    apply hf base hb
    rw [← Btf.findVal_congr (Option.some.inj hbase), hs]

theorem BtfOwn.findVal_lt {o : BtfOwn} (h : o.findVal s = .ok off) : off < 2 ^ 31 := by
  unfold BtfOwn.findVal at h
  split at h
  next => exact (fail_ne_ok h).elim
  next =>
    obtain ⟨_, -, h⟩ := of_bind_ok h
    exact (intSum_eq_ok.mp h).2

theorem Btf.findVal_lt {b : Btf} (h : b.findVal s = .ok off) : off < 2 ^ 31 := by
  induction b using Btf.induct with
  | h own base ih =>
    rw [Btf.findVal_eq] at h
    cases base with
    | none => exact BtfOwn.findVal_lt h
    | some b =>
      dsimp only at h
      split at h
      · exact BtfOwn.findVal_lt h
      · exact ih b rfl h

theorem btfAddStrOwn_ok {b b' : Btf} (hw : b.Wf) (h : btfAddStrOwn s b = .ok off b') :
    b'.strByOffset off = some s ∧ off < 2 ^ 31 := by
  rcases btfAddStrOwn_cases hw s with ⟨-, h'⟩ | ⟨-, -, h'⟩
    | ⟨o, ss, -, hfit, hi, h'⟩
  · rw [h'] at h
    cases h
  · rw [h'] at h
    cases h
  · rw [h', outcome_eq_ok] at h
    obtain ⟨hsum, rfl⟩ := h
    obtain ⟨rfl, hlt⟩ := intSum_eq_ok.mp hsum
    refine ⟨?_, hlt⟩
    rw [Btf.strByOffset_eq]
    show (if b.startStrOff + o < b.startStrOff then _
      else if b.startStrOff + o - b.startStrOff < ss.strsData.length then
        some (cstrAt ss.strsData (b.startStrOff + o - b.startStrOff))
      else none) = some s
    rw [if_neg (by omega), Nat.add_sub_cancel_left, if_pos (hi.wf.holds_lt hi.holds), hi.holds.2]

/-- The offset `btf__add_str` returns reads back as the string. -/
theorem Btf.addStr_ok {b b' : Btf} (hw : b.Wf) (hf : b.BaseFinds) (h : b.addStr s = .ok off b') :
    b'.strByOffset off = some s ∧ off < 2 ^ 31 := by
  have hint := Btf.addStr_interned hw s
  rw [h] at hint
  rw [Btf.addStr_eq] at h
  cases hb : b.baseBtf with
  | none =>
    rw [hb] at h
    exact btfAddStrOwn_ok hw h
  | some base =>
    rw [hb] at h
    dsimp only at h
    split at h
    · exact btfAddStrOwn_ok ((Btf.looked_base hb s).wf hw) h
    · rw [outcome_eq_ok] at h
      exact ⟨hint.strByOffset hw (hf base hb s off h.1), Btf.findVal_lt h.1⟩

end Libbpf
