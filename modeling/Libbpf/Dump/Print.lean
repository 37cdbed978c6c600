/-
Printing comes to an end.

The functions that put text together follow three kinds of references without
a bound of their own: a declaration follows everything but typedefs and named
structs (`Btf.declRefs`), and alignments follow what is part of a layout
(`Btf.layoutRefs`). If neither has a cycle and no member has an alignment of 0,
every declaration and definition is printed (`writes_typeDecl`,
`writes_structDef`): the rank of the type bounds the recursion.
-/
import Libbpf.Lib.Rank
import Libbpf.Dump.Readable
import Libbpf.Dump.Frame

namespace Libbpf

open Lib List

variable {r i nextAlign : Nat} {stack : List Nat} {x cur next : Int}

-- ======== the references

/-- What the types with `p` are made of. -/
def Btf.refsIf (btf : Btf) (p : BtfType → Bool) (id : Nat) : List Nat :=
  match btf.typeById id with
  | some t => if p t then t.refs else []
  | none => []

/-- The references that the ordering follows without leaving a note. -/
def Btf.orderRefs (btf : Btf) : Nat → List Nat := btf.refsIf fun t => !t.isComposite

/-- The references that a declaration follows. -/
def Btf.declRefs (btf : Btf) : Nat → List Nat :=
  btf.refsIf fun t => !t.isTypedef && (t.nameOff == 0 || !t.isComposite)

/-- The references that an alignment follows. -/
def Btf.layoutRefs (btf : Btf) : Nat → List Nat :=
  btf.refsIf fun t => t.kind != .ptr && t.kind != .funcProto

section

variable {btf : Btf} {p : BtfType → Bool} {id : Nat} {t : BtfType}

theorem Btf.mem_refsIf (ht : btf.typeById id = some t) (hp : p t = true)
    (hr : r ∈ t.refs) : r ∈ btf.refsIf p id := by
  unfold Btf.refsIf
  rw [ht]
  dsimp only
  rwa [if_pos hp]

theorem Btf.lt_of_mem_refsIf (hr : r ∈ btf.refsIf p id) : id < btf.typeCnt := by
  unfold Btf.refsIf at hr
  cases ht : btf.typeById id with
  | none =>
    rw [ht] at hr
    cases hr
  | some t => exact Btf.typeById_lt ht

/-- A number that goes down at each reference of each type. -/
theorem Btf.acyclic_refsIf (f : Nat → Nat)
    (h : (List.range btf.typeCnt).all (fun a => (btf.refsIf p a).all (f · < f a)) = true) :
    Graph.Acyclic (btf.refsIf p) := by
  refine Graph.acyclic_of_lt f fun a b hb => ?_
  have hrow := all_eq_true.mp h a (mem_range.mpr (Btf.lt_of_mem_refsIf hb))
  exact of_decide_eq_true (all_eq_true.mp hrow b hb)

/-- A step goes down in rank. -/
theorem rank_ref (hac : Graph.Acyclic (btf.refsIf p)) (ht : btf.typeById id = some t)
    (hp : p t = true) (hr : r ∈ t.refs) :
    rank (btf.refsIf p) btf.typeCnt r < rank (btf.refsIf p) btf.typeCnt id :=
  hac.rank_lt (Btf.typeById_lt ht) (Btf.mem_refsIf ht hp hr)

end

section

variable {t : BtfType}

theorem BtfType.isComposite_iff : t.isComposite = true ↔ t.kind = .struct ∨ t.kind = .union := by
  unfold BtfType.isComposite
  rw [Bool.or_eq_true, beq_iff_eq, beq_iff_eq]

theorem BtfType.mem_refs_member (hc : t.isComposite = true) (hi : i < t.vlen)
    {m : BtfMember} (hm : t.member? i = some m) : m.type ∈ t.refs := by
  have hmem : m.type ∈ t.memberTypes :=
    mem_filterMap.mpr ⟨i, mem_range.mpr hi, by rw [hm]; rfl⟩
  unfold BtfType.isComposite at hc
  unfold BtfType.refs
  cases hk : t.kind with
  | struct | union => exact hmem
  | _ =>
    rw [hk] at hc
    cases hc

theorem BtfType.of_mem_refs_member (hc : t.isComposite = true) (hr : r ∈ t.refs) :
    ∃ i, i < t.vlen ∧ ∃ m, t.member? i = some m ∧ m.type = r := by
  have hmem : r ∈ t.memberTypes := by
    unfold BtfType.refs at hr
    rcases t.isComposite_iff.mp hc with hk | hk
    · rwa [hk] at hr
    · rwa [hk] at hr
  obtain ⟨i, hi, hm⟩ := mem_filterMap.mp hmem
  obtain ⟨m, hm', hr'⟩ := Option.map_eq_some_iff.mp hm
  exact ⟨i, mem_range.mp hi, m, hm', hr'⟩

theorem BtfType.mem_refs_param (hk : t.kind = .funcProto) (hi : i < t.vlen)
    {type : Nat} (hp : t.paramType? i = some type) : type ∈ t.refs := by
  unfold BtfType.refs
  rw [hk]
  exact mem_cons_of_mem _ (mem_filterMap.mpr ⟨i, mem_range.mpr hi, hp⟩)

theorem BtfType.mem_refs_array (hk : t.kind = .array) {a : BtfArray} (ha : t.array? = some a) :
    a.type ∈ t.refs := by
  unfold BtfType.refs
  rw [hk, ha]
  exact mem_singleton.mpr rfl

end

-- ======== alignment

/-- No member has an alignment of 0. -/
def Btf.Aligned (btf : Btf) : Prop :=
  ∀ id t i m n a, btf.typeById id = some t → t.isComposite = true → i < t.vlen →
    t.member? i = some m → btfAlignOf btf n m.type = .ok a → a ≠ 0

section

variable {align : Nat → Res Nat} {t : BtfType}

theorem alignMembers_ok : ∀ {is : List Nat} {mx : Nat},
    (∀ i ∈ is, ∃ m a, t.member? i = some m ∧ align m.type = .ok a) →
    ∃ a, alignMembers align t is mx = .ok a
  | [], _, _ => ⟨_, rfl⟩
  | i :: is, mx, h => by
    obtain ⟨m, a, hm, ha⟩ := h i mem_cons_self
    unfold alignMembers
    rw [hm]
    dsimp only [deref, bind, Except.bind]
    rw [ha]
    dsimp only
    split
    · exact ⟨_, rfl⟩
    · split
      · exact ⟨_, rfl⟩
      · exact alignMembers_ok fun j hj => h j (mem_cons_of_mem _ hj)

theorem alignMembers_ne_zero : ∀ {is : List Nat} {mx r : Nat}, 0 < mx →
    (∀ i ∈ is, ∀ m a, t.member? i = some m → align m.type = .ok a → a ≠ 0) →
    alignMembers align t is mx = .ok r → r ≠ 0
  | [], mx, r, hmx, _, hr => by
    have : (if t.size % mx ≠ 0 then 1 else mx) = r := Except.ok.inj hr
    split at this <;> omega
  | i :: is, mx, r, hmx, h, hr => by
    unfold alignMembers at hr
    obtain ⟨m, hm, hr⟩ := of_bind_ok hr
    obtain ⟨a, ha, hr⟩ := of_bind_ok hr
    have hne := h i mem_cons_self m a (deref_eq_ok.mp hm) ha
    rw [if_neg hne] at hr
    split at hr
    · cases hr
      exact Nat.one_ne_zero
    · exact alignMembers_ne_zero (by omega) (fun j hj => h j (mem_cons_of_mem _ hj)) hr

theorem packedMembers_ok : ∀ {is : List Nat} {mx : Nat},
    (∀ i ∈ is, ∃ m a, t.member? i = some m ∧ align m.type = .ok a) →
    ∃ b, packedMembers align t is mx = .ok b
  | [], _, _ => ⟨_, rfl⟩
  | i :: is, mx, h => by
    obtain ⟨m, a, hm, ha⟩ := h i mem_cons_self
    unfold packedMembers
    rw [hm]
    dsimp only [deref, bind, Except.bind]
    rw [ha]
    dsimp only
    split
    · exact ⟨_, rfl⟩
    · exact packedMembers_ok fun j hj => h j (mem_cons_of_mem _ hj)

end

section

variable {btf : Btf} (hread : btf.Readable) (hac : Graph.Acyclic btf.layoutRefs)

include hread hac

/-- Alignments are found. -/
theorem alignOf_ok : ∀ {n id : Nat} {t : BtfType}, btf.typeById id = some t →
    rank btf.layoutRefs btf.typeCnt id < n → ∃ a, btfAlignOf btf n id = .ok a
  | n + 1, id, t, ht, hn => by
    have hdown : ∀ r ∈ t.refs, t.kind ≠ .ptr → t.kind ≠ .funcProto →
        ∃ a, btfAlignOf btf n r = .ok a := by
      intro r hr hptr hproto
      obtain ⟨u, hu⟩ := hread.refs id t ht r hr
      have hp : (t.kind != .ptr && t.kind != .funcProto) = true := by simp [hptr, hproto]
      have := rank_ref hac ht hp hr
      exact alignOf_ok hu (by unfold Btf.layoutRefs at hn ⊢; omega)
    unfold btfAlignOf
    rw [ht]
    dsimp only [deref, bind, Except.bind]
    cases hk : t.kind with
    | typedef | volatile | const | restrict | typeTag =>
      refine hdown _ ?_ (by rw [hk]; decide) (by rw [hk]; decide)
      unfold BtfType.refs
      rw [hk]
      exact mem_singleton.mpr rfl
    | array =>
      obtain ⟨a, ha⟩ := hread.array id t ht hk
      rw [ha]
      exact hdown _ (t.mem_refs_array hk ha) (by rw [hk]; decide) (by rw [hk]; decide)
    | struct | union =>
      refine alignMembers_ok fun i hi => ?_
      have hc : t.isComposite = true := t.isComposite_iff.mpr (by rw [hk]; simp)
      obtain ⟨m, -, hm, -⟩ := hread.member id t ht hc i (mem_range.mp hi)
      obtain ⟨a, ha⟩ := hdown _ (t.mem_refs_member hc (mem_range.mp hi) hm)
        (by rw [hk]; decide) (by rw [hk]; decide)
      exact ⟨m, a, hm, ha⟩
    | _ => exact ⟨_, rfl⟩

/-- The members of a composite have alignments. -/
theorem member_align_ok {n id : Nat} {t : BtfType} (ht : btf.typeById id = some t)
    (hc : t.isComposite = true) (hn : btf.typeCnt < n) (hi : i < t.vlen) :
    ∃ m a, t.member? i = some m ∧ btfAlignOf btf n m.type = .ok a := by
  obtain ⟨m, -, hm, -⟩ := hread.member id t ht hc i hi
  obtain ⟨u, hu⟩ := hread.refs id t ht _ (t.mem_refs_member hc hi hm)
  have := rank_le btf.layoutRefs btf.typeCnt m.type
  obtain ⟨a, ha⟩ := alignOf_ok hread hac (n := n) hu (by omega)
  exact ⟨m, a, hm, ha⟩

end

-- ======== padding

/-- An `int`. -/
def IsI32 (x : Int) : Prop := -2 ^ 31 ≤ x ∧ x < 2 ^ 31

theorem isI32_i32 (x : Int) : IsI32 (i32 x) := by
  unfold IsI32 i32
  have h₁ := Int.le_bmod (x := x) (m := 2 ^ 32) (by decide)
  have h₂ := Int.bmod_lt (x := x) (m := 2 ^ 32) (by decide)
  omega

theorem i32_eq_self (h : IsI32 x) : i32 x = x := by
  unfold IsI32 at h
  exact Int.bmod_eq_of_le (by omega) (by omega)

/-- Wrapping around inside a sum does not matter. -/
theorem i32_add_i32 (x y : Int) : i32 (x + i32 y) = i32 (x + y) := by
  exact Int.add_bmod_bmod

theorem i32_sub_i32 (x y : Int) : i32 (x - i32 y) = i32 (x - y) := by
  exact Int.sub_bmod_bmod

theorem i32_sub_eq_zero {y : Int} (hx : IsI32 x) (hy : IsI32 y) (h : i32 (x - y) = 0) : x = y := by
  have hdvd := Int.dvd_of_bmod_eq_zero h
  unfold IsI32 at hx hy
  omega

theorem btfPtrSz_cases (btf : Btf) : btfPtrSz btf = 4 ∨ btfPtrSz btf = 8 := by
  unfold btfPtrSz
  cases h : (List.range' 1 (btf.typeCnt - 1)).findSome? (btfLongSize btf) with
  | none => exact .inr rfl
  | some sz =>
    obtain ⟨id, -, hid⟩ := exists_of_findSome?_eq_some h
    unfold btfLongSize at hid
    repeat' split at hid
    all_goals try cases hid
    next hsz _ _ _ _ =>
      rw [Bool.and_eq_true, Bool.or_eq_true, beq_iff_eq, beq_iff_eq, beq_iff_eq] at hsz
      exact hsz.2

section

variable {ptrSz : Nat} (hptr : ptrSz = 4 ∨ ptrSz = 8)

include hptr

theorem padTypes_pos {p : String × Int} (hp : p ∈ padTypes ptrSz) : 8 ≤ p.2 ∧ p.2 ≤ 64 := by
  unfold padTypes at hp
  simp only [mem_cons, not_mem_nil, or_false] at hp
  rcases hp with rfl | rfl | rfl | rfl <;> dsimp only <;> omega

/-- The gap is filled in at most as many turns as it has bits. -/
theorem fillPads_ok {n : Nat} {pad : String × Int} (hcur : IsI32 cur)
    (hnext : IsI32 next) (hpad : pad ∈ padTypes ptrSz) (hn : (i32 (next - cur)).toNat + 2 ≤ n) :
    ∃ pads, fillPads ptrSz n cur next pad = .ok pads := by
  induction n generalizing cur pad with
  | zero => omega
  | succ n ih =>
    unfold fillPads
    split
    · exact ⟨_, rfl⟩
    next hne =>
      have hgap : i32 (next - cur) ≠ 0 := fun h0 =>
        hne (i32_sub_eq_zero hnext hcur h0).symm
      have hpos := padTypes_pos hptr hpad
      -- what is left of the gap after `bits` more
      have hleft : ∀ bits : Int, i32 (next - i32 (cur + bits)) = i32 (i32 (next - cur) - bits) := by
        intro bits
        rw [i32_sub_i32, show next - (cur + bits) = -bits + (next - cur) by omega,
          show i32 (next - cur) - bits = -bits + i32 (next - cur) by omega, i32_add_i32]
      have hturn : ∀ bits : Int, bits = min (i32 (next - cur)) pad.2 →
          (i32 (next - i32 (cur + bits))).toNat + 2 ≤ n ∨ next = i32 (cur + bits) := by
        intro bits hbits
        have hrange := isI32_i32 (next - cur)
        by_cases hneg : i32 (next - cur) < 0
        · right
          have : bits = i32 (next - cur) := by omega
          rw [this, i32_add_i32, show cur + (next - cur) = next by omega, i32_eq_self hnext]
        · unfold IsI32 at hrange
          rw [hleft, i32_eq_self (by unfold IsI32; omega)]
          omega
      have hrec : ∀ {p : String × Int} (bits : Int), p ∈ padTypes ptrSz →
          bits = min (i32 (next - cur)) pad.2 →
          ∃ pads, fillPads ptrSz n (i32 (cur + bits)) next p = .ok pads := by
        intro p bits hp hbits
        rcases hturn bits hbits with hle | heq
        · exact ih (isI32_i32 _) hp hle
        obtain ⟨k, rfl⟩ : ∃ k, n = k + 1 := ⟨n - 1, by omega⟩
        unfold fillPads
        rw [if_pos heq.symm]
        exact ⟨_, rfl⟩
      dsimp only
      split
      · obtain ⟨pads, hpads⟩ := hrec _ hpad rfl
        rw [hpads]
        exact ⟨_, rfl⟩
      have hmin : min (i32 (next - cur)) pad.2 ≤ pad.2 := Int.min_le_right _ _
      cases hfind : (padTypes ptrSz).reverse.find? fun p =>
          decide (min (i32 (next - cur)) pad.2 ≤ p.2) with
      | none =>
        have := find?_eq_none.mp hfind pad (mem_reverse.mpr hpad)
        exact absurd (decide_eq_true hmin) this
      | some p =>
        have hp := mem_reverse.mp (mem_of_find?_eq_some hfind)
        obtain ⟨pads, hpads⟩ := hrec _ hp rfl
        dsimp only
        rw [hpads]
        exact ⟨_, rfl⟩

omit hptr in
theorem pickPad_mem (cur next : Int) : pickPad cur next ptrSz ∈ padTypes ptrSz := by
  unfold pickPad
  cases h : (padTypes ptrSz).find? fun p => decide (roundupInt cur p.2 ≤ next) with
  | none =>
    unfold padTypes
    simp
  | some p => exact mem_of_find?_eq_some h

omit hptr in
theorem needsAlign_ok (cur new next : Int) (h : nextAlign ≠ 0)
    (inBitfield : Bool) : ∃ b, needsAlign cur new next nextAlign inBitfield = .ok b := by
  unfold needsAlign
  rw [if_neg h]
  split
  · exact ⟨_, rfl⟩
  · split
    · exact ⟨_, rfl⟩
    · exact ⟨_, rfl⟩

/-- Padding is found unless it is to an alignment of 0. -/
theorem bitPadding_ok (hcur : IsI32 cur) (hnext : IsI32 next)
    (h : nextAlign ≠ 0) (inBitfield : Bool) (lvl : Int) :
    ∃ text, btfDumpEmitBitPadding ptrSz cur next nextAlign inBitfield lvl = .ok text := by
  have hpads : ∃ pads, bitPads ptrSz cur next nextAlign inBitfield = .ok pads := by
    unfold bitPads
    have hmem : pickPad cur next ptrSz ∈ padTypes ptrSz := pickPad_mem cur next
    split
    · exact ⟨_, rfl⟩
    dsimp only
    split
    · have hnew : IsI32 (roundupInt cur (pickPad cur next ptrSz).2) := isI32_i32 _
      obtain ⟨b, hb⟩ := needsAlign_ok cur
        (roundupInt cur (pickPad cur next ptrSz).2) next h inBitfield
      obtain ⟨pads, hpads⟩ := fillPads_ok hptr hnew hnext hmem (Nat.le_refl _)
      rw [hb]
      rw [hpads]
      exact ⟨_, rfl⟩
    · exact fillPads_ok hptr hcur hnext hmem (Nat.le_refl _)
  obtain ⟨pads, hpads⟩ := hpads
  unfold btfDumpEmitBitPadding
  rw [hpads]
  exact ⟨_, rfl⟩

end

-- ======== writing

/-- The tags the dumper has noted are DECL_TAGs. -/
def TagsOk (btf : Btf) (d : BtfDump) : Prop :=
  ∀ x ∈ d.declTags, ∃ t, btf.typeById x.2 = some t ∧ t.kind = .declTag

/-- From every dumper, `m` returns something with `Q`. -/
def Writes (btf : Btf) {α : Type} (m : Run BtfDump α) (Q : α → Prop) : Prop :=
  ∀ d, TagsOk btf d → ∃ a d', m d = .ok a d' ∧ Q a

section

variable {btf : Btf} {α β : Type}

theorem writes_pure {a : α} {Q : α → Prop} (h : Q a) : Writes btf (pure a) Q :=
  fun d _ => ⟨a, d, rfl, h⟩

theorem writes_liftRes {r : Res α} {Q : α → Prop} (h : ∃ a, r = .ok a ∧ Q a) :
    Writes btf (liftRes r) Q := by
  obtain ⟨a, rfl, hq⟩ := h
  exact fun d _ => ⟨a, d, rfl, hq⟩

theorem Writes.bind {m : Run BtfDump α} {k : α → Run BtfDump β} {P : α → Prop} {Q : β → Prop}
    (hm : Writes btf m P) (htextual : Textual m) (hk : ∀ a, P a → Writes btf (k a) Q) :
    Writes btf (m >>= k) Q := by
  intro d hd
  obtain ⟨a, d', hma, hp⟩ := hm d hd
  have htags : TagsOk btf d' := by
    unfold TagsOk
    rw [(htextual d a d' hma).tags]
    exact hd
  obtain ⟨b, d'', hkb, hq⟩ := hk a hp d' htags
  exact ⟨b, d'', by rw [run_bind, hma]; exact hkb, hq⟩

/-- Read, then go on with what was read. -/
theorem writes_read {r : Res α} {a : α} {k : α → Run BtfDump β} {Q : β → Prop} (h : r = .ok a)
    (hk : Writes btf (k a) Q) : Writes btf (liftRes r >>= k) Q := by
  subst h
  exact hk

theorem writes_get {k : BtfDump → Run BtfDump β} {Q : β → Prop}
    (hk : ∀ d, TagsOk btf d → ∃ b d', k d d = .ok b d' ∧ Q b) :
    Writes btf (get >>= k) Q := hk

theorem Writes.ite {c : Prop} [Decidable c] {m m' : Run BtfDump α} {Q : α → Prop}
    (hm : c → Writes btf m Q) (hm' : ¬ c → Writes btf m' Q) :
    Writes btf (if c then m else m') Q := by
  split
  next hc => exact hm hc
  next hc => exact hm' hc

theorem writes_catEach {f : α → Run BtfDump Bytes} (htextual : ∀ a, Textual (f a)) :
    ∀ {l : List α}, (∀ a ∈ l, Writes btf (f a) fun _ => True) →
    Writes btf (catEach f l) fun _ => True
  | [], _ => writes_pure trivial
  | a :: l, h => by
    refine (h a mem_cons_self).bind (htextual a) fun x _ => ?_
    refine (writes_catEach htextual fun b hb => h b (mem_cons_of_mem _ hb)).bind
      (textual_catEach htextual l) fun y _ => ?_
    exact writes_pure trivial

end

section

variable {btf : Btf} (hread : btf.Readable)

theorem deref_ok {α : Type} {o : Option α} {a : α} (h : o = some a) : deref o = .ok a := by
  rw [h]
  rfl

theorem writes_nameDups (ident : Bool) (name : Bytes) :
    Writes btf (btfDumpNameDups ident name) fun _ => True := by
  intro d _
  cases ident with
  | true => exact ⟨_, _, rfl, trivial⟩
  | false => exact ⟨_, _, rfl, trivial⟩

include hread

theorem writes_resolveName (ident : Bool) {id : Nat} {t : BtfType} (ht : btf.typeById id = some t) :
    Writes btf (btfDumpResolveName btf ident id) fun _ => True := by
  obtain ⟨s, hs⟩ := hread.name id t ht
  refine writes_read (deref_ok ht) (.ite (fun _ => writes_pure trivial) fun _ => ?_)
  refine writes_read (deref_ok hs) (writes_get fun d _ => ?_)
  split
  · exact ⟨_, _, rfl, trivial⟩
  split
  · exact ⟨_, _, rfl, trivial⟩
  · cases ident with
    | true => exact ⟨_, _, rfl, trivial⟩
    | false => exact ⟨_, _, rfl, trivial⟩

theorem writes_structFwd {id : Nat} {t : BtfType} (ht : btf.typeById id = some t)
    (u : BtfType) : Writes btf (btfDumpEmitStructFwd btf id u) fun _ => True :=
  (writes_resolveName hread false ht).bind (textual_resolveName _ _ _) fun _ _ =>
    writes_pure trivial

theorem writes_enumFwd {id : Nat} {t : BtfType} (ht : btf.typeById id = some t) :
    Writes btf (btfDumpEmitEnumFwd btf id) fun _ => True :=
  (writes_resolveName hread false ht).bind (textual_resolveName _ _ _) fun _ _ =>
    writes_pure trivial

theorem writes_fwdDef {id : Nat} {t : BtfType} (ht : btf.typeById id = some t) (u : BtfType) :
    Writes btf (btfDumpEmitFwdDef btf id u) fun _ => True :=
  (writes_resolveName hread false ht).bind (textual_resolveName _ _ _) fun _ _ =>
    writes_pure trivial

theorem declTagText_ok {tag : Nat} {t : BtfType} (ht : btf.typeById tag = some t) :
    ∃ text, btfDumpEmitDeclTag btf t = .ok text := by
  obtain ⟨s, hs⟩ := hread.name tag t ht
  exact ⟨_, bind_ok (deref_ok hs) rfl⟩

theorem declTagTexts_ok (compIdx : Int) {tags : List Nat}
    (h : ∀ x ∈ tags, ∃ t, btf.typeById x = some t ∧ t.kind = .declTag) :
    ∃ text, declTagTexts btf compIdx tags = .ok text := by
  induction tags with
  | nil => exact ⟨_, rfl⟩
  | cons tag tags ih =>
    obtain ⟨t, ht, hk⟩ := h tag mem_cons_self
    obtain ⟨w, hw⟩ := hread.declTag tag t ht hk
    obtain ⟨rest, hrest⟩ := ih fun x hx => h x (mem_cons_of_mem _ hx)
    obtain ⟨text, htext⟩ := declTagText_ok hread ht
    have hlast : ∃ r, (if i32 w = compIdx then do
        let text ← btfDumpEmitDeclTag btf t
        .ok (text ++ rest)
      else .ok rest : Res Bytes) = .ok r := by
      split
      · exact ⟨_, bind_ok htext rfl⟩
      · exact ⟨_, rfl⟩
    obtain ⟨r, hr⟩ := hlast
    refine ⟨r, bind_ok (deref_ok ht) ?_⟩
    refine bind_ok (deref_ok hw) ?_
    exact bind_ok hrest hr

theorem writes_declTags (id : Nat) (compIdx : Int) :
    Writes btf (btfDumpEmitDeclTags btf id compIdx) fun _ => True := by
  refine writes_get fun d hd => ?_
  have hof : ∀ x ∈ ((d.declTags.dropWhile fun x => decide (x.1 < id)).takeWhile
      fun x => x.1 == id).map (·.2), ∃ t, btf.typeById x = some t ∧ t.kind = .declTag := by
    intro x hx
    obtain ⟨y, hy, rfl⟩ := mem_map.mp hx
    have hy := takeWhile_subset _ hy
    exact hd y (dropWhile_subset _ hy)
  obtain ⟨text, htext⟩ := declTagTexts_ok hread compIdx hof
  rw [htext]
  exact ⟨_, _, rfl, trivial⟩

theorem writes_enumDef {id : Nat} {t : BtfType} (ht : btf.typeById id = some t)
    (hk : t.isAnyEnum = true) (lvl : Int) :
    Writes btf (btfDumpEmitEnumDef btf id t lvl) fun _ => True := by
  refine (writes_resolveName hread false ht).bind (textual_resolveName _ _ _) fun name _ => ?_
  refine .ite (fun _ => writes_pure trivial) fun _ => ?_
  refine (writes_catEach (textual_enumVal btf t lvl) fun i hi => ?_).bind
    (textual_catEach (textual_enumVal btf t lvl) _) fun _ _ => writes_pure trivial
  obtain ⟨off, v, s, hoff, hv, hs⟩ := hread.enum id t ht hk i (mem_range.mp hi)
  refine writes_read (deref_ok hoff) (writes_read (deref_ok hv) ?_)
  refine writes_read (deref_ok hs) ?_
  exact (writes_nameDups _ _).bind (textual_nameDups _ _) fun _ _ => writes_pure trivial

end

-- ======== structs

section

variable {btf : Btf} (hread : btf.Readable)

include hread

/-- `btf__resolve_size` fails with a code only. -/
theorem resolveSizeFrom_code : ∀ {left id nelems : Nat} {e : Stop},
    btfResolveSizeFrom btf left id nelems = .error e → ∃ c, e = .err c
  | 0, _, _, _, h => ⟨_, (Except.error.inj h).symm⟩
  | left + 1, id, nelems, e, h => by
    have htimes : ∀ {a b : Nat}, btfSizeTimes a b = .error e → ∃ c, e = .err c := by
      intro a b h
      unfold btfSizeTimes at h
      split at h
      · exact ⟨_, (Except.error.inj h).symm⟩
      · cases h
    unfold btfResolveSizeFrom at h
    cases ht : btf.typeById id with
    | none =>
      rw [ht] at h
      exact ⟨_, (Except.error.inj h).symm⟩
    | some t =>
      rw [ht] at h
      dsimp only at h
      split at h
      · exact ⟨_, (Except.error.inj h).symm⟩
      cases hk : t.kind with
      | int | struct | union | enum | enum64 | datasec | float | ptr =>
        rw [hk] at h
        exact htimes h
      | typedef | volatile | const | restrict | var | declTag | typeTag =>
        rw [hk] at h
        exact resolveSizeFrom_code h
      | array =>
        rw [hk] at h
        obtain ⟨a, ha⟩ := hread.array id t ht hk
        rw [ha] at h
        dsimp only at h
        split at h
        · exact ⟨_, (Except.error.inj h).symm⟩
        · exact resolveSizeFrom_code h
      | _ =>
        rw [hk] at h
        exact ⟨_, (Except.error.inj h).symm⟩

theorem memberEnd_ok (t : BtfType) (m : BtfMember) :
    ∃ r, memberEnd btf t m = .ok r ∧ IsI32 r.2.1 := by
  have hi32 : ∀ x, IsI32 (i32 x) := isI32_i32
  unfold memberEnd
  generalize i32 = f at *
  dsimp only
  split
  · exact ⟨_, rfl, hi32 _⟩
  cases hsz : btfResolveSize btf m.type with
  | ok sz => exact ⟨_, rfl, hi32 _⟩
  | error e =>
    obtain ⟨c, rfl⟩ := resolveSizeFrom_code hread hsz
    exact ⟨_, rfl, hi32 _⟩

variable (hlayout : Graph.Acyclic btf.layoutRefs) (haligned : btf.Aligned)
  {n : Nat} (hn : btf.typeCnt < n) {decl : Nat → Bytes → Int → Run BtfDump Bytes}
  (htextual : ∀ id fname lvl, Textual (decl id fname lvl))
  {id : Nat} {t : BtfType} (ht : btf.typeById id = some t) (hc : t.isComposite = true)
  (hdecl : ∀ r ∈ t.refs, ∀ fname lvl, Writes btf (decl r fname lvl) fun _ => True)

include hlayout haligned hn htextual ht hc hdecl

theorem writes_members (packed : Bool) (lvl : Int) : ∀ {is : List Nat} {off : Int} {prev : Bool},
    (∀ i ∈ is, i < t.vlen) → IsI32 off →
    Writes btf (emitMembers btf n decl id t packed lvl is off prev) fun r => IsI32 r.2
  | [], _, _, _, hoff => writes_pure hoff
  | i :: is, off, prev, his, hoff => by
    have hi := his i mem_cons_self
    obtain ⟨m, s, hm, hs⟩ := hread.member id t ht hc i hi
    obtain ⟨m', a, hm', ha⟩ := member_align_ok hread hlayout ht hc hn hi
    cases hm.symm.trans hm'
    have halign : ∃ b, (if packed then .ok 1 else btfAlignOf btf n m.type : Res Nat) = .ok b
        ∧ b ≠ 0 := by
      split
      · exact ⟨1, rfl, Nat.one_ne_zero⟩
      · exact ⟨a, ha, haligned id t i m n a ht hc hi hm ha⟩
    obtain ⟨b, hb, hb0⟩ := halign
    obtain ⟨pads, hpads⟩ := bitPadding_ok (btfPtrSz_cases btf) hoff
      (isI32_i32 (btfMemberBitOffset t m)) hb0 (prev && btfMemberBitfieldSize t m != 0)
      (i32 (lvl + 1))
    obtain ⟨r, hr, hr32⟩ := memberEnd_ok hread t m
    refine writes_read (deref_ok hm) (writes_read (deref_ok hs) (writes_read hb ?_))
    refine writes_read hpads ?_
    refine (hdecl _ (t.mem_refs_member hc hi hm) _ _).bind (htextual _ _ _) fun text _ => ?_
    refine writes_read hr ?_
    refine (writes_declTags hread _ _).bind (textual_declTags _ _ _) fun tags _ => ?_
    refine (writes_members packed lvl (fun j hj => his j (mem_cons_of_mem _ hj)) hr32).bind
      (textual_members htextual _ _ _ _ _ _ _) fun last hlast => ?_
    exact writes_pure hlast

/-- The definition of a struct is printed. -/
theorem writes_structDef (lvl : Int) :
    Writes btf (btfDumpEmitStructDef btf n decl id t lvl) fun _ => True := by
  have hrank := rank_le btf.layoutRefs btf.typeCnt id
  obtain ⟨align, halign⟩ := alignOf_ok hread hlayout (n := n) ht (by omega)
  have hmembers : ∀ i ∈ List.range t.vlen, ∃ m a, t.member? i = some m
      ∧ btfAlignOf btf n m.type = .ok a :=
    fun i hi => member_align_ok hread hlayout ht hc hn (mem_range.mp hi)
  have hpacked : ∃ b, (if t.kind == .struct then btfIsStructPacked btf n t
      else .ok false : Res Bool) = .ok b := by
    split
    · exact packedMembers_ok hmembers
    · exact ⟨_, rfl⟩
  obtain ⟨packed, hpacked⟩ := hpacked
  -- with members of alignment other than 0 the composite has one too
  have halign0 : align ≠ 0 := by
    obtain ⟨k, rfl⟩ : ∃ k, n = k + 1 := ⟨n - 1, by omega⟩
    unfold btfAlignOf at halign
    rw [ht] at halign
    have hall : ∀ i ∈ List.range t.vlen, ∀ m a, t.member? i = some m →
        btfAlignOf btf k m.type = .ok a → a ≠ 0 := fun i hi m a hm ha =>
      haligned id t i m k a ht hc (mem_range.mp hi) hm ha
    rcases t.isComposite_iff.mp hc with hk | hk
    · rw [deref_ok rfl] at halign
      dsimp only [bind, Except.bind] at halign
      rw [hk] at halign
      exact alignMembers_ne_zero Nat.one_pos hall halign
    rw [deref_ok rfl] at halign
    dsimp only [bind, Except.bind] at halign
    rw [hk] at halign
    exact alignMembers_ne_zero Nat.one_pos hall halign
  refine writes_read halign (writes_read hpacked ?_)
  refine (writes_structFwd hread ht t).bind (textual_structFwd _ _ _) fun head _ => ?_
  refine (writes_members hread hlayout haligned hn htextual ht hc hdecl packed lvl
    (fun i hi => mem_range.mp hi) (by unfold IsI32; omega)).bind
    (textual_members htextual _ _ _ _ _ _ _) fun body hbody => ?_
  have hpads : ∃ text, (if t.kind == .struct then
      btfDumpEmitBitPadding (btfPtrSz btf) body.2 (i32 (t.size * 8)) align false (i32 (lvl + 1))
      else .ok [] : Res Bytes) = .ok text := by
    split
    · exact bitPadding_ok (btfPtrSz_cases btf) hbody (isI32_i32 _) halign0 _ _
    · exact ⟨_, rfl⟩
  obtain ⟨pads, hpads⟩ := hpads
  refine writes_read hpads ?_
  exact (writes_declTags hread _ _).bind (textual_declTags _ _ _) fun _ _ => writes_pure trivial

end

-- ======== chains

section

variable {btf : Btf}

theorem emitMods_ok (h : ∀ x ∈ stack, ∃ t, btf.typeById x = some t) :
    ∃ r, btfDumpEmitMods btf stack = .ok r ∧ ∀ x ∈ r.2, x ∈ stack := by
  induction stack with
  | nil => exact ⟨_, rfl, fun _ hx => hx⟩
  | cons id stack ih =>
    obtain ⟨t, ht⟩ := h id mem_cons_self
    obtain ⟨r, hr, hsub⟩ := ih fun x hx => h x (mem_cons_of_mem _ hx)
    unfold btfDumpEmitMods
    rw [deref_ok ht]
    dsimp only [bind, Except.bind]
    split
    · rw [hr]
      exact ⟨_, rfl, fun x hx => mem_cons_of_mem _ (hsub x hx)⟩
    · exact ⟨_, rfl, fun _ hx => hx⟩

theorem dropMods_ok (h : ∀ x ∈ stack, ∃ t, btf.typeById x = some t) :
    ∃ r, btfDumpDropMods btf stack = .ok r ∧ ∀ x ∈ r, x ∈ stack := by
  induction stack with
  | nil => exact ⟨_, rfl, fun _ hx => hx⟩
  | cons id stack ih =>
    obtain ⟨t, ht⟩ := h id mem_cons_self
    obtain ⟨r, hr, hsub⟩ := ih fun x hx => h x (mem_cons_of_mem _ hx)
    unfold btfDumpDropMods
    rw [deref_ok ht]
    dsimp only [bind, Except.bind]
    split
    · exact ⟨r, hr, fun x hx => mem_cons_of_mem _ (hsub x hx)⟩
    · exact ⟨_, rfl, fun _ hx => hx⟩

/-- A type on the stack of a declaration: what follows from it is printed. -/
structure OnStack (btf : Btf) (decl : Nat → Bytes → Int → Run BtfDump Bytes) (id : Nat) : Prop where
  type : ∃ t, btf.typeById id = some t
  decl : ∀ r ∈ btf.declRefs id, ∀ fname lvl, Writes btf (decl r fname lvl) fun _ => True

variable (hread : btf.Readable) (hlayout : Graph.Acyclic btf.layoutRefs) (haligned : btf.Aligned)
  {n : Nat} (hn : btf.typeCnt < n) {decl : Nat → Bytes → Int → Run BtfDump Bytes}
  (htextual : ∀ id fname lvl, Textual (decl id fname lvl))

include hread in
theorem typeTagText_ok {id : Nat} {t : BtfType} (ht : btf.typeById id = some t) :
    ∃ text, typeTagText btf t = .ok text := by
  obtain ⟨s, hs⟩ := hread.name id t ht
  exact ⟨_, bind_ok (deref_ok hs) rfl⟩

include hread hlayout haligned hn htextual

theorem writes_base {id : Nat} {t : BtfType} (ht : btf.typeById id = some t)
    (hid : OnStack btf decl id) (lvl : Int) :
    Writes btf (emitBase btf n decl id t lvl) fun _ => True := by
  obtain ⟨s, hs⟩ := hread.name id t ht
  unfold emitBase
  cases hk : t.kind with
  | int | float => exact writes_read (deref_ok hs) (writes_pure trivial)
  | struct | union =>
    have hc : t.isComposite = true := t.isComposite_iff.mpr (by rw [hk]; simp)
    refine .ite (fun h0 => ?_) fun _ => writes_structFwd hread ht t
    refine writes_structDef hread hlayout haligned hn htextual ht hc (fun r hr => ?_) lvl
    refine hid.decl r (Btf.mem_refsIf ht ?_ hr)
    unfold BtfType.isTypedef
    rw [h0, hk]
    rfl
  | enum | enum64 =>
    have hc : t.isAnyEnum = true := by
      unfold BtfType.isAnyEnum
      rw [hk]
      rfl
    exact .ite (fun _ => writes_enumDef hread ht hc lvl) fun _ => writes_enumFwd hread ht
  | fwd => exact writes_fwdDef hread ht t
  | typeTag =>
    obtain ⟨text, htext⟩ := typeTagText_ok hread ht
    exact writes_liftRes ⟨text, htext, trivial⟩
  | _ => exact writes_resolveName hread true ht

omit hlayout haligned hn in
theorem writes_params {id : Nat} {t : BtfType} (ht : btf.typeById id = some t)
    (hk : t.kind = .funcProto) (hid : OnStack btf decl id) (lvl : Int) :
    Writes btf (emitParamList btf decl t lvl) fun _ => True := by
  have htextual' : ∀ i, Textual (emitParams btf decl t lvl i) := by
    intro i
    refine (textual_liftRes _).bind fun type => .ite (textual_pure _) ?_
    refine (textual_liftRes _).bind fun off => (textual_liftRes _).bind fun name => ?_
    exact (htextual _ _ _).bind fun _ => textual_pure _
  refine .ite (fun _ => writes_pure trivial) fun _ => ?_
  refine (writes_catEach htextual' fun i hi => ?_).bind (textual_catEach htextual' _)
    fun _ _ => writes_pure trivial
  have hi := mem_range.mp hi
  obtain ⟨type, off, s, hp, hoff, hs⟩ := hread.param id t ht hk i hi
  refine writes_read (deref_ok hp) (.ite (fun _ => writes_pure trivial) fun _ => ?_)
  refine writes_read (deref_ok hoff) (writes_read (deref_ok hs) ?_)
  refine (hid.decl type (Btf.mem_refsIf ht ?_ (t.mem_refs_param hk hi hp)) _ _).bind
    (htextual _ _ _) fun _ _ => writes_pure trivial
  unfold BtfType.isTypedef BtfType.isComposite
  rw [hk]
  simp

theorem writes_chain (fname : Bytes) (lvl : Int) : ∀ {k : Nat} {stack : List Nat}
    {lastWasPtr : Bool}, (∀ x ∈ stack, OnStack btf decl x) →
    Writes btf (btfDumpEmitTypeChain btf n decl fname lvl k stack lastWasPtr) fun _ => True
  | 0, [], _, _ => writes_pure trivial
  | 0, _ :: _, _, _ => writes_pure trivial
  | _ + 1, [], _, _ => writes_pure trivial
  | k + 1, id :: stack, lastWasPtr, h => by
    have htypes : ∀ x ∈ stack, ∃ t, btf.typeById x = some t :=
      fun x hx => (h x (mem_cons_of_mem _ hx)).type
    have hrest : ∀ x ∈ stack, OnStack btf decl x := fun x hx => h x (mem_cons_of_mem _ hx)
    have hid := h id mem_cons_self
    obtain ⟨t, ht⟩ := hid.type
    obtain ⟨mods, hmods, hmsub⟩ := emitMods_ok htypes
    obtain ⟨left, hleft, hlsub⟩ := dropMods_ok htypes
    have htextual' : ∀ st p, Textual (btfDumpEmitTypeChain btf n decl fname lvl k st p) :=
      textual_chain htextual fname lvl k
    have ih : ∀ {st : List Nat} {p : Bool}, (∀ x ∈ st, x ∈ stack) →
        Writes btf (btfDumpEmitTypeChain btf n decl fname lvl k st p) fun _ => True :=
      fun hsub => writes_chain fname lvl fun x hx => hrest x (hsub x hx)
    unfold btfDumpEmitTypeChain
    refine .ite (fun _ => ?_) fun _ => writes_read (deref_ok ht) ?_
    · refine writes_read hmods ?_
      exact (ih hmsub).bind (htextual' _ _) fun _ _ => writes_pure trivial
    cases hk : t.kind with
    | int | float | struct | union | enum | enum64 | fwd | typedef | typeTag =>
      refine writes_read hmods ?_
      refine (writes_base hread hlayout haligned hn htextual ht hid lvl).bind
        (textual_base htextual _ _ _) fun _ _ => ?_
      exact (ih hmsub).bind (htextual' _ _) fun _ _ => writes_pure trivial
    | ptr | volatile | const | restrict =>
      exact (ih fun _ hx => hx).bind (htextual' _ _) fun _ _ => writes_pure trivial
    | array =>
      obtain ⟨a, ha⟩ := hread.array id t ht hk
      refine writes_read (deref_ok ha) (writes_read hleft ?_)
      cases left with
      | nil => exact writes_pure trivial
      | cons next left =>
        obtain ⟨u, hu⟩ := htypes next (hlsub next mem_cons_self)
        refine writes_read (deref_ok hu) ?_
        exact (ih hlsub).bind (htextual' _ _) fun _ _ => writes_pure trivial
    | funcProto =>
      refine writes_read hleft ?_
      have hparams := writes_params hread htextual ht hk hid lvl
      cases left with
      | nil =>
        exact hparams.bind (textual_params htextual _ _) fun _ _ => writes_pure trivial
      | cons next left =>
        refine (ih hlsub).bind (htextual' _ _) fun _ _ => ?_
        exact hparams.bind (textual_params htextual _ _) fun _ _ => writes_pure trivial
    | _ => exact writes_pure trivial

end

-- ======== declarations

section

variable {btf : Btf} (hread : btf.Readable) (hac : Graph.Acyclic btf.declRefs)

include hread hac

/-- The chain of a declaration ends, and its types have no higher rank. -/
theorem declStack_ok (strip : Bool) {n id : Nat} {P : Nat → Prop}
    {t : BtfType} (ht : btf.typeById id = some t) (hn : rank btf.declRefs btf.typeCnt id < n)
    (hP : ∀ x u, btf.typeById x = some u →
      rank btf.declRefs btf.typeCnt x ≤ rank btf.declRefs btf.typeCnt id → P x)
    (hstack : ∀ x ∈ stack, P x) :
    ∃ st, declStack btf strip n id stack = .ok st ∧ ∀ x ∈ st, P x := by
  induction n generalizing id t stack with
  | zero => omega
  | succ n ih =>
    -- the stack with this type on it
    have hpush : ∀ x ∈ (if strip && t.isMod then stack else id :: stack), P x := by
      split
      · exact hstack
      intro x hx
      rcases mem_cons.mp hx with rfl | hx
      · exact hP x t ht (Nat.le_refl _)
      · exact hstack x hx
    have hnext : ∀ r ∈ t.refs, t.isTypedef = false → t.isComposite = false →
        ∃ st, declStack btf strip n r (if strip && t.isMod then stack else id :: stack)
          = .ok st ∧ ∀ x ∈ st, P x := by
      intro r hr htd hcomp
      obtain ⟨u, hu⟩ := hread.refs id t ht r hr
      have hlt := rank_ref (p := fun t => !t.isTypedef && (t.nameOff == 0 || !t.isComposite))
        hac ht (by simp [htd, hcomp]) hr
      unfold Btf.declRefs at hn hP ih
      exact ih hu (by omega) (fun x v hx hle => hP x v hx (by omega)) hpush
    unfold declStack
    rw [deref_ok ht]
    dsimp only [bind, Except.bind]
    split
    · exact ⟨_, rfl, hpush⟩
    cases hk : t.kind with
    | ptr | volatile | const | restrict | typeTag =>
      refine hnext _ ?_ (by unfold BtfType.isTypedef; rw [hk])
        (by unfold BtfType.isComposite; rw [hk]; rfl)
      unfold BtfType.refs
      rw [hk]
      exact mem_singleton.mpr rfl
    | funcProto =>
      refine hnext _ ?_ (by unfold BtfType.isTypedef; rw [hk])
        (by unfold BtfType.isComposite; rw [hk]; rfl)
      unfold BtfType.refs
      rw [hk]
      exact mem_cons_self
    | array =>
      obtain ⟨a, ha⟩ := hread.array id t ht hk
      rw [deref_ok ha]
      exact hnext _ (t.mem_refs_array hk ha) (by unfold BtfType.isTypedef; rw [hk])
        (by unfold BtfType.isComposite; rw [hk]; rfl)
    | _ => exact ⟨_, rfl, hpush⟩

variable (hlayout : Graph.Acyclic btf.layoutRefs) (haligned : btf.Aligned)

include hlayout haligned

/-- Declarations are printed. -/
theorem writes_typeDecl {n id : Nat} {t : BtfType} (ht : btf.typeById id = some t)
    (hn : rank btf.declRefs btf.typeCnt id + btf.typeCnt + 1 < n) (fname : Bytes) (lvl : Int) :
    Writes btf (btfDumpEmitTypeDecl btf n id fname lvl) fun _ => True := by
  induction n generalizing id t fname lvl with
  | zero => omega
  | succ n ih =>
    refine writes_get fun d hd => ?_
    have hon : ∀ x u, btf.typeById x = some u →
        rank btf.declRefs btf.typeCnt x ≤ rank btf.declRefs btf.typeCnt id →
        OnStack btf (btfDumpEmitTypeDecl btf n) x := by
      intro x u hx hle
      refine ⟨⟨u, hx⟩, fun r hr fname lvl => ?_⟩
      have hlt := hac.rank_lt (Btf.typeById_lt hx) hr
      have hsome : ∃ v, btf.typeById r = some v := by
        unfold Btf.declRefs Btf.refsIf at hr
        rw [hx] at hr
        dsimp only at hr
        split at hr
        · exact hread.refs x u hx r hr
        · cases hr
      obtain ⟨v, hv⟩ := hsome
      exact ih hv (by omega) fname lvl
    obtain ⟨st, hst, hall⟩ := declStack_ok hread hac d.stripMods (n := n + 1) ht (by omega)
      hon fun x hx => absurd hx not_mem_nil
    rw [hst]
    exact writes_chain hread hlayout haligned (by omega) (textual_typeDecl btf n) fname lvl
      hall d hd

theorem writes_typedefDef {n id : Nat} {t : BtfType} (ht : btf.typeById id = some t)
    (hk : t.kind = .typedef) (hn : 2 * btf.typeCnt + 1 < n) (lvl : Int) :
    Writes btf (btfDumpEmitTypedefDef btf n id t lvl) fun _ => True := by
  refine (writes_resolveName hread true ht).bind (textual_resolveName _ _ _) fun name _ => ?_
  refine .ite (fun _ => writes_pure trivial) fun _ => ?_
  obtain ⟨u, hu⟩ := hread.refs id t ht t.type (by
    unfold BtfType.refs
    rw [hk]
    exact mem_singleton.mpr rfl)
  have := rank_le btf.declRefs btf.typeCnt t.type
  refine (writes_typeDecl hread hac hlayout haligned hu (by omega) _ _).bind
    (textual_typeDecl _ _ _ _ _) fun _ _ => ?_
  exact (writes_declTags hread _ _).bind (textual_declTags _ _ _) fun _ _ => writes_pure trivial

end

end Libbpf
