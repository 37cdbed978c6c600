/-
What a search by name finds.

`btfScanByNameKind` is the search as it is meant: the smallest ID from the
start on whose type has the name and the kind. The note `named_start_id`
promises `NoteOk`: the names of the own types are in order, and those below
the note are empty. On an object and bases of which that is true
(`Searchable`) `btf_find_by_name_kind` finds what the scan finds
(`Btf.Searchable.find_eq_scan`), and `btf_new` returns such objects.
-/
import Mathlib.Data.List.Find
import Libbpf.Btf.Find
import Libbpf.Core.Accepted

namespace Libbpf

open Lib List

variable {id startId n addr : Nat} {host : ByteOrder} {data : Bytes} {base : Option Btf}

-- ======== the scan

/-- The type `id` has the name and, unless `kind` is negative, the kind. -/
def Btf.hasNameKind (btf : Btf) (name : CStr) (kind : Int) (id : Nat) : Bool :=
  match btf.typeById id with
  | some t => kindMatches kind t && btf.strByOffset t.nameOff == some name
  | none => false

/-- The smallest ID from `startId` on whose type has the name and the kind. -/
def btfScanByNameKind (btf : Btf) (startId : Nat) (typeName : CStr) (kind : Int) : Res Nat :=
  if kind = 0 ∨ typeName = cstrVoid then .ok 0
  else match (List.range' startId (btf.typeCnt - startId)).find?
      (btf.hasNameKind typeName kind) with
    | some id => .ok id
    | none => fail ENOENT

/-- The name of a type. -/
def Btf.nameOf (btf : Btf) (id : Nat) : Option CStr :=
  (btfTypeById btf id).bind fun t => btf.strByOffset t.nameOff

/-- Every type has a name, if only the empty one. -/
def Btf.NamesOk (btf : Btf) : Prop := ∀ id < btf.typeCnt, (btf.nameOf id).isSome

/-- What the note promises about the own types. -/
structure Btf.NoteOk (btf : Btf) : Prop where
  sorted : btf.namedStartId ≠ 0 → ∀ i j a b, btf.startId ≤ i → i ≤ j → j < btf.typeCnt →
    btf.nameOf i = some a → btf.nameOf j = some b → ¬ b.val < a.val
  anon : ∀ i a, btf.startId ≤ i → i < btf.namedStartId → btf.nameOf i = some a →
    i < btf.typeCnt → a = CStr.empty

/-- An object and its bases can be searched by name. -/
inductive Btf.Searchable : Btf → Prop
  | mk {btf : Btf} (wf : btf.Wf) (names : btf.NamesOk) (note : btf.NoteOk)
      (base : ∀ b, btf.baseBtf = some b → b.Searchable) : btf.Searchable

theorem Btf.Searchable.wf {btf : Btf} (h : btf.Searchable) : btf.Wf := by
  cases h with
  | mk wf names note base => exact wf

theorem Btf.Searchable.names {btf : Btf} (h : btf.Searchable) : btf.NamesOk := by
  cases h with
  | mk wf names note base => exact names

/-- A search through an interval may leave out what does not match. -/
theorem find?_range'_skip {p : Nat → Bool} {a b : Nat}
    (hskip : ∀ j, a ≤ j → j < b → j < n → p j = false) (hle : a ≤ b ∨ b = n) (hbn : b ≤ n) :
    (List.range' b (n - b)).find? p = (List.range' a (n - a)).find? p := by
  by_cases hab : a ≤ b
  · have hsplit : List.range' a (n - a) = List.range' a (b - a) ++ List.range' b (n - b) := by
      rw [show n - a = (b - a) + (n - b) by omega, ← range'_append_1, show a + (b - a) = b by omega]
    have hnone : (List.range' a (b - a)).find? p = none := by
      rw [find?_eq_none]
      intro j hj
      rw [mem_range'_1] at hj
      rw [hskip j hj.1 (by omega) (by omega)]
      exact Bool.false_ne_true
    rw [hsplit, find?_append, hnone, Option.none_or]
  · rw [show n - b = 0 by omega, show n - a = 0 by omega]
    rfl

section

variable {btf : Btf} {name : CStr} {kind : Int}

/-- A type in range and its name. -/
theorem Btf.NamesOk.get (h : btf.NamesOk) (hid : id < btf.typeCnt) :
    ∃ t s, btfTypeById btf id = some t ∧ btf.strByOffset t.nameOff = some s
      ∧ btf.nameOf id = some s := by
  obtain ⟨s, hs⟩ := Option.isSome_iff_exists.mp (h id hid)
  obtain ⟨t, ht, hname⟩ := Option.bind_eq_some_iff.mp hs
  exact ⟨t, s, ht, hname, hs⟩

theorem Btf.hasNameKind_eq {t : BtfType} {s : CStr} (hid : id < btf.typeCnt)
    (ht : btfTypeById btf id = some t) (hs : btf.strByOffset t.nameOff = some s) :
    btf.hasNameKind name kind id = (kindMatches kind t && decide (s = name)) := by
  unfold Btf.hasNameKind
  rw [Btf.typeById_of_lt hid, ht]
  dsimp only
  rw [hs]
  rfl

/-- What a search returns. -/
def foundOr (o : Option Nat) : Res Nat :=
  match o with
  | some id => .ok id
  | none => fail ENOENT

/-- Going through types one by one. -/
theorem btfFindLinear_eq (hkind : kind ≠ 0) (hn : btf.NamesOk) {ids : List Nat}
    (hids : ∀ id ∈ ids, id < btf.typeCnt) :
    btfFindLinear btf name kind ids = foundOr (ids.find? (btf.hasNameKind name kind)) := by
  induction ids with
  | nil => rfl
  | cons id ids ih =>
    have hlt := hids id (mem_cons_self ..)
    obtain ⟨t, s, ht, hs, -⟩ := hn.get hlt
    have ih := ih fun j hj => hids j (mem_cons_of_mem _ hj)
    rw [btfFindLinear, ht, find?_cons, Btf.hasNameKind_eq hlt ht hs]
    show (if kind > 0 ∧ (t.kind.toNat : Int) ≠ kind then _ else _) = _
    by_cases hk : kind > 0 ∧ (t.kind.toNat : Int) ≠ kind
    · have hno : kindMatches kind t = false := by
        simp only [kindMatches, Bool.or_eq_false_iff, decide_eq_false_iff_not, beq_eq_false_iff_ne]
        exact ⟨by omega, hk.2⟩
      rw [if_pos hk, hno, ih]
      rfl
    have hyes : kindMatches kind t = true := by
      simp only [kindMatches, Bool.or_eq_true, decide_eq_true_eq, beq_iff_eq]
      omega
    rw [if_neg hk, hs, hyes, Bool.true_and]
    show (if s = name then _ else _) = _
    by_cases heq : s = name
    · rw [if_pos heq, decide_eq_true heq]
      rfl
    · rw [if_neg heq, decide_eq_false heq, ih]

/-- Going through types sorted by name from the first that is not before
the name: the loop ends where the names change. -/
theorem btfFindSorted_eq (hn : btf.NamesOk) (hend : id + n = btf.typeCnt ∨ n = 0)
    (hge : ∀ j s, id ≤ j → j < btf.typeCnt → btf.nameOf j = some s → ¬ s.val < name.val)
    (hsorted : ∀ i j a b, id ≤ i → i ≤ j → j < btf.typeCnt → btf.nameOf i = some a →
      btf.nameOf j = some b → ¬ b.val < a.val) :
    btfFindSorted btf name kind (List.range' id n)
      = foundOr ((List.range' id n).find? (btf.hasNameKind name kind)) := by
  induction n generalizing id with
  | zero => rfl
  | succ n ih =>
    have hlt : id < btf.typeCnt := by omega
    obtain ⟨t, s, ht, hs, hname⟩ := hn.get hlt
    rw [range'_succ, btfFindSorted, Btf.typeById_of_lt hlt, ht, find?_cons,
      Btf.hasNameKind_eq hlt ht hs]
    show (do let tname ← deref (btf.strByOffset t.nameOff); _) = _
    rw [hs]
    show (if s ≠ name then _ else _) = _
    by_cases heq : s = name
    · rw [if_neg (not_not.mpr heq), decide_eq_true heq, Bool.and_true]
      cases hk : kindMatches kind t with
      | true => rfl
      | false =>
        exact ih (by omega) (fun j s hj => hge j s (by omega))
          (fun i j a b hi => hsorted i j a b (by omega))
    · -- the names from here on are past the one looked for
      have hpast : ∀ j ∈ List.range' id (n + 1), btf.hasNameKind name kind j = false := by
        intro j hj
        rw [mem_range'_1] at hj
        have hjlt : j < btf.typeCnt := by omega
        obtain ⟨u, r, hu, hr, hjname⟩ := hn.get hjlt
        rw [Btf.hasNameKind_eq hjlt hu hr]
        have hne : r ≠ name := by
          rintro rfl
          have h₁ := hsorted id j s r (Nat.le_refl _) hj.1 hjlt hname hjname
          have h₂ := hge id s (Nat.le_refl _) hlt hname
          exact heq (Subtype.ext (List.le_antisymm (Std.not_lt.mp h₁) (Std.not_lt.mp h₂)))
        rw [decide_eq_false hne, Bool.and_false]
      rw [if_pos heq, decide_eq_false heq, Bool.and_false]
      have htail : (List.range' (id + 1) n).find? (btf.hasNameKind name kind) = none := by
        rw [find?_eq_none]
        intro j hj
        rw [hpast j (by rw [range'_succ]; exact mem_cons_of_mem _ hj)]
        exact Bool.false_ne_true
      dsimp only
      rw [htail]
      rfl

/-- Halving finds where sorted names reach the one looked for. -/
theorem btfFindTypeByNameBsearch_ok (name : CStr) (hn : btf.NamesOk) (hpos : 0 < btf.typeCnt)
    (hsorted : ∀ i j a b, startId ≤ i → i ≤ j → j < btf.typeCnt → btf.nameOf i = some a →
      btf.nameOf j = some b → ¬ b.val < a.val) :
    ∃ id, btfFindTypeByNameBsearch btf name startId = .ok id
      ∧ (startId ≤ id ∧ id ≤ btf.typeCnt ∨ id = btf.typeCnt)
      ∧ ∀ j s, startId ≤ j → j < btf.typeCnt → btf.nameOf j = some s →
        (¬ s.val < name.val ↔ id ≤ j) := by
  have htest : ∀ i, startId ≤ i → i ≤ btf.typeCnt - 1 → btfNameGe btf name i
      = .ok (decide (¬ ((btf.nameOf i).getD CStr.empty).val < name.val)) := by
    intro i _ hi
    obtain ⟨t, s, ht, hs, hname⟩ := hn.get (show i < btf.typeCnt by omega)
    rw [btfNameGe, ht, hname]
    show (do let tname ← deref (btf.strByOffset t.nameOff); _) = _
    rw [hs]
    rfl
  have hmono : ∀ i j, startId ≤ i → i ≤ j → j ≤ btf.typeCnt - 1 →
      ¬ ((btf.nameOf i).getD CStr.empty).val < name.val →
      ¬ ((btf.nameOf j).getD CStr.empty).val < name.val := by
    intro i j hi hij hj hge hlt
    obtain ⟨-, a, -, -, ha⟩ := hn.get (show i < btf.typeCnt by omega)
    obtain ⟨-, b, -, -, hb⟩ := hn.get (show j < btf.typeCnt by omega)
    rw [ha] at hge
    rw [hb] at hlt
    exact hge (Std.lt_of_le_of_lt (Std.not_lt.mp (hsorted i j a b hi hij (by omega) ha hb)) hlt)
  obtain ⟨id, hid, hplace, hiff⟩ := leftmost_ok (show btf.typeCnt - 1 + 1 - startId
    < btf.typeCnt + 1 by omega) (show btf.typeCnt - 1 < btf.typeCnt by omega) htest hmono
  refine ⟨id, hid, by omega, fun j s hj hjlt hs => ?_⟩
  rw [← hiff j hj (by omega), hs]
  rfl

/-- The own half of the search. -/
theorem btfFindOwn_eq (hn : btf.NamesOk) (hnote : btf.NoteOk) (hpos : 0 < btf.typeCnt)
    (hstart : btf.startId ≤ startId) :
    btfFindOwn btf startId name kind = btfScanByNameKind btf startId name kind := by
  unfold btfFindOwn btfScanByNameKind
  by_cases hvoid : kind = 0 ∨ name = cstrVoid
  · rw [if_pos hvoid, if_pos hvoid]
  rw [if_neg hvoid, if_neg hvoid]
  by_cases hnamed : btf.namedStartId > 0 ∧ name ≠ CStr.empty
  · rw [if_pos hnamed]
    dsimp only
    have hsorted : ∀ i j a b, max startId btf.namedStartId ≤ i → i ≤ j → j < btf.typeCnt →
        btf.nameOf i = some a → btf.nameOf j = some b → ¬ b.val < a.val :=
      fun i j a b hi => hnote.sorted (by omega) i j a b (by omega)
    obtain ⟨id, hid, hplace, hiff⟩ := btfFindTypeByNameBsearch_ok name hn hpos hsorted
    rw [hid]
    show btfFindSorted btf name kind (List.range' id (btf.typeCnt - id)) = _
    rw [btfFindSorted_eq hn (by omega) (fun j s hj hjlt hs => (hiff j s (by omega) hjlt hs).mpr hj)
      (fun i j a b hi hij hj => hsorted i j a b (by omega) hij hj)]
    -- the IDs that were left out have other names
    have hskip : ∀ j, startId ≤ j → j < id → j < btf.typeCnt →
        btf.hasNameKind name kind j = false := by
      intro j hj hjid hjlt
      obtain ⟨t, s, ht, hs, hname⟩ := hn.get hjlt
      have hne : s ≠ name := by
        rintro rfl
        by_cases hanon : j < btf.namedStartId
        · exact hnamed.2 (hnote.anon j s (by omega) hanon hname hjlt)
        · have := (hiff j s (by omega) hjlt hname).mp (List.lt_irrefl _)
          omega
      rw [Btf.hasNameKind_eq hjlt ht hs, decide_eq_false hne, Bool.and_false]
    exact congrArg foundOr (find?_range'_skip hskip (by omega) (by omega))
  · rw [if_neg hnamed]
    exact btfFindLinear_eq (fun h => hvoid (Or.inl h)) hn fun id hid => by
      rw [mem_range'_1] at hid
      omega

end

-- ======== the search

theorem btfFindByNameKind_eq (btf : Btf) (startId : Nat) (typeName : CStr) (kind : Int) :
    btfFindByNameKind btf startId typeName kind = if startId < btf.startId then
        match btf.baseBtf with
        | none => .error .fault
        | some base =>
          match btfFindByNameKind base startId typeName kind with
          | .error (.err _) => btfFindOwn btf btf.startId typeName kind
          | res => res
      else btfFindOwn btf startId typeName kind := by
  obtain ⟨own, base⟩ := btf
  rw [btfFindByNameKind.eq_def]
  cases base <;> rfl

/-- A type of the base has the name and the kind it has there. -/
theorem Btf.hasNameKind_base {btf b : Btf} (hw : btf.Wf) (hb : btf.baseBtf = some b)
    (hn : b.NamesOk) (name : CStr) (kind : Int) (hid : id < b.typeCnt) :
    btf.hasNameKind name kind id = b.hasNameKind name kind id := by
  obtain ⟨t, s, ht, hs, -⟩ := hn.get hid
  have hbt : b.typeById id = some t := by rw [Btf.typeById_of_lt hid, ht]
  unfold Btf.hasNameKind
  rw [hw.typeById_base hb hbt, hbt]
  dsimp only
  rw [hw.strByOffset_base hb hs, hs]

/-- The search finds what the scan finds. -/
theorem Btf.Searchable.find_eq_scan {btf : Btf} (h : btf.Searchable)
    (hstart : 0 < startId) (name : CStr) (kind : Int) :
    btfFindByNameKind btf startId name kind = btfScanByNameKind btf startId name kind := by
  induction h with
  | @mk btf hw hn hnote hbase ih =>
    have hpos : 0 < btf.typeCnt := Nat.lt_of_lt_of_le hw.startId_pos (Nat.le_add_right ..)
    rw [btfFindByNameKind_eq]
    by_cases hown : startId < btf.startId
    · rw [if_pos hown]
      have hs := hw.own.startId
      cases hb : btf.baseBtf with
      | none =>
        rw [hb, Btf.startIdOn] at hs
        omega
      | some b =>
        rw [hb, Btf.startIdOn] at hs
        dsimp only
        rw [ih b hb]
        unfold btfScanByNameKind
        by_cases hvoid : kind = 0 ∨ name = cstrVoid
        · rw [if_pos hvoid, if_pos hvoid]
        rw [if_neg hvoid, if_neg hvoid]
        have hsame : (List.range' startId (b.typeCnt - startId)).find? (btf.hasNameKind name kind)
            = (List.range' startId (b.typeCnt - startId)).find? (b.hasNameKind name kind) := by
          refine find?_congr fun id hid => ?_
          rw [mem_range'_1] at hid
          exact Btf.hasNameKind_base hw hb (hbase b hb).names name kind (by omega)
        have hsplit : List.range' startId (btf.typeCnt - startId)
            = List.range' startId (b.typeCnt - startId)
              ++ List.range' btf.startId (btf.typeCnt - btf.startId) := by
          have hcnt : btf.typeCnt = btf.startId + btf.nrTypes := rfl
          rw [hs, show btf.typeCnt - startId = (b.typeCnt - startId)
              + (btf.typeCnt - b.typeCnt) by omega, ← range'_append_1,
            show startId + (b.typeCnt - startId) = b.typeCnt by omega]
        rw [hsplit, find?_append, hsame]
        cases (List.range' startId (b.typeCnt - startId)).find? (b.hasNameKind name kind) with
        | some id => rfl
        | none =>
          rw [btfFindOwn_eq hn hnote hpos (Nat.le_refl _), btfScanByNameKind, if_neg hvoid]
          rfl
    · rw [if_neg hown]
      exact btfFindOwn_eq hn hnote hpos (Nat.le_of_not_lt hown)

-- ======== parsed objects

section

variable {btf : Btf}

theorem Btf.nameOf_note (btf : Btf) (k id : Nat) :
    Btf.nameOf { btf with namedStartId := k } id = btf.nameOf id := by
  unfold Btf.nameOf
  rw [btfTypeById_eq, btfTypeById_eq btf]
  refine congrArg _ (funext fun t => ?_)
  rw [Btf.strByOffset_eq, Btf.strByOffset_eq btf]

/-- What the loop of `btf_check_sorted` has seen when it comes to its end:
each name is not before the one before it, and the IDs below the result have
no name. -/
theorem btfCheckSortedFrom_ok {m i v k : Nat} (hi : 2 ≤ i)
    (h : btfCheckSortedFrom btf (List.range' i m) v = .ok (some k)) :
    (∀ j a b, i ≤ j → j < i + m → btf.nameOf (j - 1) = some a → btf.nameOf j = some b →
      ¬ b.val < a.val)
      ∧ (v ≠ 0 → k = v)
      ∧ (v = 0 → ∀ j a, i ≤ j + 1 → j < k → j < i + m → btf.nameOf j = some a →
        a = CStr.empty) := by
  induction m generalizing i v with
  | zero =>
    cases h
    exact ⟨fun j a b hj hjm => by omega, fun _ => rfl, fun hv j a _ hj => by omega⟩
  | succ m ih =>
    rw [range'_succ, btfCheckSortedFrom] at h
    obtain ⟨ta, hta, h⟩ := of_bind_ok h
    obtain ⟨tb, htb, h⟩ := of_bind_ok h
    obtain ⟨na, hna, h⟩ := of_bind_ok h
    obtain ⟨nb, hnb, h⟩ := of_bind_ok h
    rw [deref_eq_ok] at hta htb hna hnb
    have hname : btf.nameOf (i - 1) = some na := by rw [Btf.nameOf, hta]; exact hna
    have hname' : btf.nameOf i = some nb := by rw [Btf.nameOf, htb]; exact hnb
    by_cases hlt : nb.val < na.val
    · rw [if_pos hlt] at h
      cases h
    rw [if_neg hlt] at h
    obtain ⟨hsorted, hsame, hanon⟩ := ih (by omega) h
    refine ⟨fun j a b hj hjm ha hb => ?_, fun hv => ?_, fun hv j a hij hjk hjm ha => ?_⟩
    · by_cases hji : j = i
      · rw [hji, hname] at ha
        rw [hji, hname'] at hb
        cases ha
        cases hb
        exact hlt
      · exact hsorted j a b (by omega) (by omega) ha hb
    · rw [if_neg (show ¬ (v = 0 ∧ na.val ≠ []) from fun hc => hv hc.1),
        if_neg (fun hc => hv hc.1)] at hsame
      exact hsame hv
    · -- the first ID that has a name is the result
      by_cases hfirst : na.val = []
      · rw [if_neg (show ¬ (v = 0 ∧ na.val ≠ []) from fun hc => hc.2 hfirst)] at hsame hanon
        by_cases hji : j + 1 = i
        · rw [show j = i - 1 by omega, hname] at ha
          cases ha
          exact Subtype.ext hfirst
        by_cases hsecond : nb.val = []
        · rw [if_neg (fun hc => hc.2 hsecond)] at hanon
          exact hanon hv j a (by omega) hjk (by omega) ha
        · rw [if_pos ⟨hv, hsecond⟩] at hsame
          have := hsame (by omega)
          omega
      · rw [if_pos (show v = 0 ∧ na.val ≠ [] from ⟨hv, hfirst⟩),
          if_neg (fun hc => by omega)] at hsame
        have := hsame (by omega)
        omega

/-- Names that are in order pairwise are in order. -/
theorem sorted_of_steps (hn : btf.NamesOk) (lo : Nat)
    (hstep : ∀ j a b, lo < j → j < btf.typeCnt → btf.nameOf (j - 1) = some a →
      btf.nameOf j = some b → ¬ b.val < a.val)
    (i j : Nat) (a b : CStr) (hi : lo ≤ i) (hij : i ≤ j) (hj : j < btf.typeCnt)
    (ha : btf.nameOf i = some a) (hb : btf.nameOf j = some b) : ¬ b.val < a.val := by
  induction j, hij using Nat.le_induction generalizing b with
  | base =>
    rw [ha] at hb
    cases hb
    exact List.lt_irrefl _
  | succ j hij ih =>
    obtain ⟨-, c, -, -, hc⟩ := hn.get (show j < btf.typeCnt by omega)
    have h₁ := ih c (by omega) hc
    have h₂ := hstep (j + 1) c b (by omega) hj hc hb
    exact List.le_trans h₁ h₂

/-- The note that `btf_check_sorted` makes holds. -/
theorem btfCheckSorted_noteOk {btf' : Btf} (hpos : 0 < btf.startId) (hn : btf.NamesOk)
    (hnote : btf.namedStartId = 0) (h : btfCheckSorted btf = .ok btf') : btf'.NoteOk := by
  have hunset : btf.NoteOk :=
    ⟨fun hne => absurd hnote hne, fun i a _ hi => by omega⟩
  obtain ⟨r, hr, h⟩ := of_bind_ok h
  match r, hr, h with
  | none, _, h => cases h; exact hunset
  | some 0, _, h => cases h; exact hunset
  | some (k + 1), hr, h =>
    cases h
    obtain ⟨hsteps, -, hanon⟩ := btfCheckSortedFrom_ok (by omega) hr
    have hcnt : btf.typeCnt = btf.startId + btf.nrTypes := rfl
    have hsorted := sorted_of_steps hn btf.startId
      fun j a b hj hjlt => hsteps j a b hj (by omega)
    refine ⟨fun _ i j a b hi hij hj ha hb => ?_, fun i a hi hik ha hlt => ?_⟩
    · rw [Btf.nameOf_note] at ha hb
      exact hsorted i j a b hi hij hj ha hb
    · rw [Btf.nameOf_note] at ha
      have hlt' : i < btf.startId + btf.nrTypes := hlt
      exact hanon rfl i a (Nat.succ_le_succ hi) hik (by omega) ha

end

/-- Every type has a name if the own ones do. -/
theorem Btf.Wf.namesOk {btf : Btf} (hw : btf.Wf)
    (hown : ∀ t ∈ btf.types, ∃ s, btf.strByOffset t.nameOff = some s)
    (hbase : ∀ b, btf.baseBtf = some b → b.NamesOk) : btf.NamesOk := by
  intro id hid
  unfold Btf.nameOf
  by_cases h0 : id = 0
  · rw [h0, btfTypeById_zero]
    show (btf.strByOffset 0).isSome = true
    rw [hw.strByOffset_zero.1]
    rfl
  by_cases hge : btf.startId ≤ id
  · rw [btfTypeById_own hw.own.types h0 hge]
    have hlt : id - btf.startId < btf.types.length := by
      have := hw.own.typeCnt
      omega
    rw [getElem?_eq_getElem hlt]
    obtain ⟨s, hs⟩ := hown _ (getElem_mem hlt)
    show (btf.strByOffset _).isSome = true
    rw [hs]
    rfl
  · rw [btfTypeById_base h0 (Nat.lt_of_not_le hge)]
    have hs := hw.own.startId
    cases hb : btf.baseBtf with
    | none =>
      rw [hb, Btf.startIdOn] at hs
      omega
    | some b =>
      rw [hb, Btf.startIdOn] at hs
      obtain ⟨t, s, ht, hstr, -⟩ := (hbase b hb).get (show id < b.typeCnt by omega)
      show ((btfTypeById b id).bind _).isSome = true
      rw [ht]
      show (btf.strByOffset t.nameOff).isSome = true
      rw [hw.strByOffset_base hb hstr]
      rfl

theorem btfNew_base
    {btf : Btf} (h : btfNew host addr data base = .ok btf) : btf.baseBtf = base := by
  obtain ⟨pre, hd, -, hbtf⟩ := btfNew_eq_ok h
  obtain ⟨i, -, hpre⟩ := btfDecode_iff.mp hd
  rw [hbtf, hpre]
  rfl

/-- `btf_new` returns objects that can be searched by name. -/
theorem btfNew_searchable {btf : Btf} (hbase : ∀ b, base = some b → b.Searchable)
    (h : btfNew host addr data base = .ok btf) : btf.Searchable := by
  have hbwf : ∀ b, base = some b → b.Wf := fun b hb => (hbase b hb).wf
  have hw := btfNew_wf hbwf h
  obtain ⟨pre, hd, h'⟩ := of_bind_ok h
  obtain ⟨_, hs, hsorted⟩ := of_bind_ok h'
  have hwpre := btfDecode_wf hbwf hd
  obtain ⟨i, -, hpre⟩ := btfDecode_iff.mp hd
  have hpb : pre.baseBtf = base := by rw [hpre]; rfl
  have hnpre : pre.NamesOk := by
    refine hwpre.namesOk (fun t ht => ?_) fun b hb => (hbase b (hpb ▸ hb)).names
    obtain ⟨_, hstr, -⟩ := of_bind_ok (btfSanityCheck_ok hwpre hs ht)
    exact btfValidateStr_eq_ok.mp hstr
  have hbtf := btfCheckSorted_eq_ok hsorted
  refine .mk hw (fun id hid => ?_)
    (btfCheckSorted_noteOk hwpre.startId_pos hnpre (by rw [hpre]; rfl) hsorted)
    fun b hb => hbase b (btfNew_base h ▸ hb)
  rw [hbtf] at hid ⊢
  rw [Btf.nameOf_note]
  exact hnpre id hid

end Libbpf
