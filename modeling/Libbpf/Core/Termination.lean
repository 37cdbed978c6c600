/-
The walks of CO-RE end.

Three loops follow references without a bound of their own: over typedefs
and modifiers, and from arrays to their elements. `Btf.follow` is the
reference they take. When it has no cycle, each of them ends within the
number of types (`enough_of_acyclic`). The search for a member is bounded
by the room on the raw spec, since every level of it enters an index
there (`matchMemberFrom_ends`), and the other recursions by the bounds the
source gives them.
-/
import Libbpf.Lib.Ends
import Libbpf.Core.Path

namespace Libbpf

open Lib List

variable {s : CoreSpec} {k id id' targId idx localType : Nat} {t : BtfType}
  {next : Bool → Nat → Nat → Res Bool}

-- ======== the references

/-- The reference that is followed without a bound. -/
def Btf.follow (btf : Btf) (id : Nat) : Option Nat :=
  match btf.typeById id with
  | none => none
  | some t =>
    if t.isMod || t.isTypedef then some t.type
    else if t.isArray then t.array?.map (·.type)
    else none

theorem Btf.follow_lt {btf : Btf} (h : btf.follow id = some id') : id < btf.typeCnt := by
  unfold Btf.follow at h
  split at h
  · cases h
  · next t ht => exact Btf.typeById_lt ht

theorem Btf.acyclic_follow {btf : Btf}
    (h : (List.range btf.typeCnt).all (fun id => (btf.follow id).isNone) = true) :
    Acyclic btf.follow := by
  intro id k hk
  cases hf : btf.follow id with
  | none =>
    rw [climb, hf] at hk
    cases hk
  | some id' =>
    have := all_eq_true.mp h id (mem_range.mpr (Btf.follow_lt hf))
    rw [hf] at this
    cases this

/-- The type of every bitfield has a size other than 0. -/
def Btf.BitfieldsSized (btf : Btf) : Prop :=
  ∀ id t i m mt id', btf.typeById id = some t → t.isComposite = true →
    t.member? i = some m → 0 < btfMemberBitfieldSize t m →
    Resolves btf m.type mt id' → mt.size ≠ 0

/-- `n` steps are enough to follow the references of `btf` to their end. -/
def Enough (btf : Btf) (n : Nat) : Prop := ∀ id, climb btf.follow n id = none

theorem enough_of_acyclic {btf : Btf} {n : Nat} (h : Acyclic btf.follow)
    (hn : btf.typeCnt < n) : Enough btf n :=
  climb_eq_none h (fun _ _ => Btf.follow_lt) hn

/-- Type `t` with ID `id'` is where the references from `id` lead. -/
structure Behind (btf : Btf) (id : Nat) (t : BtfType) (id' : Nat) : Prop where
  type : btf.typeById id' = some t
  plain : (t.isMod || t.isTypedef) = false
  chain : ∃ k, climb btf.follow k id = some id'
  resolves : Resolves btf id t id'

section

variable {btf : Btf}

theorem skip_chain : ∀ {n id : Nat}, skipModsAndTypedefs btf n id = .ok (t, id') →
      ∃ k, climb btf.follow k id = some id'
  | n + 1, id, h => by
    rw [skipModsAndTypedefs] at h
    cases ht : btf.typeById id with
    | none =>
      rw [ht] at h
      cases h
    | some u =>
      rw [ht] at h
      dsimp only at h
      by_cases hu : (u.isMod || u.isTypedef) = true
      · rw [if_pos hu] at h
        obtain ⟨k, hk⟩ := skip_chain h
        refine ⟨k + 1, ?_⟩
        rw [climb, Btf.follow, ht]
        dsimp only
        rw [if_pos hu]
        exact hk
      · rw [if_neg hu] at h
        cases h
        exact ⟨0, rfl⟩

theorem skip_fuel : ∀ {n id : Nat}, climb btf.follow n id = none →
    Ends (skipModsAndTypedefs btf n id) fun _ => True
  | n + 1, id, h => by
    rw [skipModsAndTypedefs]
    cases ht : btf.typeById id with
    | none => exact ends_fault
    | some u =>
      dsimp only
      by_cases hu : (u.isMod || u.isTypedef) = true
      · rw [climb, Btf.follow, ht] at h
        dsimp only at h
        rw [if_pos hu] at h
        rw [if_pos hu]
        exact skip_fuel h
      · rw [if_neg hu]
        trivial

theorem skip_ends {n : Nat} (h : Enough btf n) (id : Nat) :
    Ends (skipModsAndTypedefs btf n id) fun r => Behind btf id r.1 r.2 := by
  refine (skip_fuel (h id)).eq.mono fun r hr => ?_
  obtain ⟨htype, hplain⟩ := skipMods_end hr.2
  exact ⟨htype, hplain, skip_chain hr.2, n, hr.2⟩

/-- From an array to its elements is one more step. -/
theorem Behind.elem {left : Nat} {a : BtfArray}
    (h : Behind btf id t id') (harr : t.isArray = true) (ha : t.array? = some a)
    (hend : climb btf.follow (left + 1) id = none) :
    climb btf.follow left a.type = none := by
  obtain ⟨k, hk⟩ := h.chain
  have hnext : btf.follow id' = some a.type := by
    rw [Btf.follow, h.type]
    dsimp only
    rw [if_neg (by simp [h.plain]), if_pos harr, ha]
    rfl
  have hstep : climb btf.follow (k + 1) id = some a.type := by
    rw [climb_add, hk]
    change (btf.follow id').bind _ = _
    rw [hnext]
    rfl
  by_cases hle : k + 1 ≤ left + 1
  · obtain ⟨j, hj⟩ := Nat.exists_eq_add_of_le hle
    rw [hj] at hend
    exact climb_none_of_le (by omega) (climb_rest hstep hend)
  · rw [climb_none_of_le (by omega) hend] at hstep
    cases hstep

end

-- ======== compatible types

section

variable {lb tb : Btf} {n : Nat} (hl : Enough lb n) (ht : Enough tb n)

theorem fieldNamesCompat_ends (a b : Option CStr) : Ends (fieldNamesCompat a b) fun _ => True := by
  unfold fieldNamesCompat
  split
  · trivial
  · exact ends_fault

theorem intsCompat_ends (t u : BtfType) : Ends (intsCompat t u) fun _ => True := by
  unfold intsCompat
  split
  · trivial
  · exact ends_fault

include hl ht in
theorem fieldsCompat_ends : ∀ {left localId targId : Nat}, climb lb.follow left localId = none →
    Ends (fieldsCompatFrom lb tb n left localId targId) fun _ => True
  | left + 1, localId, targId, hend => by
    rw [fieldsCompatFrom]
    refine (skip_ends hl localId).bind fun r hr => ?_
    obtain ⟨localType, localId'⟩ := r
    refine (skip_ends ht targId).bind fun r hr' => ?_
    obtain ⟨targType, targId'⟩ := r
    dsimp only
    split
    · trivial
    split
    · trivial
    split
    · trivial
    · trivial
    · exact fieldNamesCompat_ends _ _
    · exact fieldNamesCompat_ends _ _
    · exact fieldNamesCompat_ends _ _
    · exact intsCompat_ends _ _
    · next hkind =>
        refine (ends_deref localType.array?).bind fun la hla => ?_
        refine (ends_deref targType.array?).bind fun ta _ => ?_
        refine fieldsCompat_ends (Behind.elem hr ?_ hla hend)
        rw [BtfType.isArray, hkind]
        rfl
    · trivial

include hl ht in
theorem typesCompatFrom_ends {param : Option (Nat → Nat → Res Bool)}
    (hparam : ∀ f, param = some f → ∀ a b, Ends (f a b) fun _ => True) :
    ∀ {depth localId targId : Nat},
      Ends (typesCompatFrom lb tb n param depth localId targId) fun _ => True
  | 0, _, _ => ends_fail
  | depth + 1, localId, targId => by
    rw [typesCompatFrom]
    refine (skip_ends hl localId).bind fun r _ => ?_
    obtain ⟨localType, localId'⟩ := r
    refine (skip_ends ht targId).bind fun r _ => ?_
    obtain ⟨targType, targId'⟩ := r
    dsimp only
    split
    · trivial
    split
    · trivial
    · trivial
    · trivial
    · trivial
    · trivial
    · trivial
    · exact intsCompat_ends _ _
    · exact typesCompatFrom_ends hparam
    · refine (ends_deref localType.array?).bind fun la _ => ?_
      refine (ends_deref targType.array?).bind fun ta _ => ?_
      exact typesCompatFrom_ends hparam
    · split
      · trivial
      refine Ends.bind (ends_allM fun i _ => ?_) fun same _ => ?_
      · cases param with
        | none => exact ends_fail
        | some rec =>
          refine (ends_deref _).bind fun _ _ => ?_
          refine (skip_ends hl _).bind fun p _ => ?_
          obtain ⟨_, localP⟩ := p
          refine (ends_deref _).bind fun _ _ => ?_
          refine (skip_ends ht _).bind fun p _ => ?_
          obtain ⟨_, targP⟩ := p
          exact hparam rec rfl localP targP
      split
      · trivial
      refine (skip_ends hl _).bind fun r _ => ?_
      obtain ⟨_, localR⟩ := r
      refine (skip_ends ht _).bind fun r _ => ?_
      obtain ⟨_, targR⟩ := r
      exact typesCompatFrom_ends hparam
    · trivial

/-- The checks before `recur`. -/
theorem typesAreCompatAt_eq (lb tb : Btf) (n level localId targId : Nat) :
    typesAreCompatAt lb tb n level localId targId = (do
      let localType ← deref (btfTypeById lb localId)
      let targType ← deref (btfTypeById tb targId)
      if !btfKindCoreCompat localType targType then return false
      typesCompatFrom lb tb n (match level with
        | 0 => none
        | level + 1 => some (typesAreCompatAt lb tb n level)) 32 localId targId) := by
  cases level <;> rfl

include hl ht in
theorem typesAreCompatAt_ends : ∀ {level localId targId : Nat},
    Ends (typesAreCompatAt lb tb n level localId targId) fun _ => True
  | level, localId, targId => by
    rw [typesAreCompatAt_eq]
    refine (ends_deref _).bind fun localType _ => ?_
    refine (ends_deref _).bind fun targType _ => ?_
    split
    · trivial
    refine typesCompatFrom_ends hl ht fun f hf a b => ?_
    cases level with
    | zero => cases hf
    | succ level =>
      cases hf
      exact typesAreCompatAt_ends

theorem namesMatch_ends (lb : Btf) (off : Nat) (tb : Btf) (off' : Nat) :
    Ends (bpfCoreNamesMatch lb off tb off') fun _ => True := by
  unfold bpfCoreNamesMatch
  dsimp only
  split
  · trivial
  split
  · trivial
  · exact ends_fault

theorem enumsMatch_ends (lb : Btf) (t : BtfType) (tb : Btf) (t' : BtfType) :
    Ends (bpfCoreEnumsMatch lb t tb t') fun _ => True := by
  unfold bpfCoreEnumsMatch
  split
  · trivial
  split
  · trivial
  refine ends_allM fun i _ => ?_
  refine (ends_deref _).bind fun off _ => ?_
  refine ends_anyM fun j _ => ?_
  exact (ends_deref _).bind fun off' _ => namesMatch_ends lb off tb off'

theorem compositesMatch_ends (lb : Btf) (t : BtfType) (tb : Btf) (t' : BtfType)
    {member : Nat → Nat → Res Bool} (hmember : ∀ a b, Ends (member a b) fun _ => True) :
    Ends (bpfCoreCompositesMatch lb t tb t' member) fun _ => True := by
  unfold bpfCoreCompositesMatch
  split
  · trivial
  refine ends_allM fun i _ => ?_
  refine (ends_deref _).bind fun m _ => ?_
  refine ends_anyM fun j _ => ?_
  refine (ends_deref _).bind fun m' _ => ?_
  refine (namesMatch_ends lb _ tb _).bind fun same _ => ?_
  split
  · trivial
  · exact hmember _ _

/-- The composite case of `__bpf_core_types_match`. -/
theorem typesMatch_composite_ends
    (hnext : ∀ p a b, Ends (next p a b) fun _ => True) {behindPtr : Bool} {localT targT : BtfType} :
    Ends (do
      if behindPtr then
        if localT.kind == targT.kind then return true
        if targT.kind != .fwd then return false
        return (localT.kind == .union) == targT.kflag
      else
        if localT.kind != targT.kind then return false
        bpfCoreCompositesMatch lb localT tb targT (next behindPtr)) fun _ => True := by
  split
  · split
    · trivial
    split
    · trivial
    · trivial
  · split
    · trivial
    · exact compositesMatch_ends _ _ _ _ (hnext _)

include hl ht in
theorem typesMatchFrom_ends (hnext : ∀ p a b, Ends (next p a b) fun _ => True) :
    ∀ {depth : Nat} {behindPtr : Bool} {localId targId : Nat},
      Ends (typesMatchFrom lb tb n next depth behindPtr localId targId)
        fun _ => True
  | 0, _, _, _ => ends_fail
  | depth + 1, behindPtr, localId, targId => by
    rw [typesMatchFrom]
    refine (skip_ends hl localId).bind fun r _ => ?_
    obtain ⟨localT, _⟩ := r
    refine (skip_ends ht targId).bind fun r _ => ?_
    obtain ⟨targT, _⟩ := r
    refine (namesMatch_ends lb _ tb _).bind fun same _ => ?_
    split
    · trivial
    split
    · trivial
    · -- a FWD
      split
      · trivial
      split
      · trivial
      · trivial
    · split
      · trivial
      · exact enumsMatch_ends _ _ _ _
    · split
      · trivial
      · exact enumsMatch_ends _ _ _ _
    · exact typesMatch_composite_ends hnext
    · exact typesMatch_composite_ends hnext
    · split
      · trivial
      refine (ends_deref _).bind fun _ _ => ?_
      exact (ends_deref _).bind fun _ _ => ends_pure trivial
    · split
      · trivial
      · exact typesMatchFrom_ends hnext
    · split
      · trivial
      refine (ends_deref _).bind fun la _ => ?_
      refine (ends_deref _).bind fun ta _ => ?_
      split
      · trivial
      · exact typesMatchFrom_ends hnext
    · split
      · trivial
      split
      · trivial
      have hargs : Ends ((List.range localT.vlen).allM fun i => do
          next behindPtr (← deref (localT.paramType? i))
            (← deref (targT.paramType? i))) fun _ => True := by
        refine ends_allM fun i _ => ?_
        refine (ends_deref _).bind fun _ _ => ?_
        exact (ends_deref _).bind fun _ _ => hnext _ _ _
      refine hargs.bind fun same _ => ?_
      split
      · trivial
      · exact typesMatchFrom_ends hnext
    · trivial

include hl ht in
theorem typesMatchAt_ends : ∀ {level : Nat} {behindPtr : Bool} {localId targId : Nat},
    Ends (typesMatchAt lb tb n level behindPtr localId targId) fun _ => True
  | 0, _, _, _ => ends_fail
  | _ + 1, _, _, _ => typesMatchFrom_ends hl ht fun _ _ _ => typesMatchAt_ends

end

-- ======== specs

theorem sizeTimes_ends (a b : Nat) : Ends (btfSizeTimes a b) fun _ => True := by
  unfold btfSizeTimes
  split
  · exact ends_fail
  · trivial

theorem resolveSizeFrom_ends (btf : Btf) : ∀ {left id nelems : Nat},
    Ends (btfResolveSizeFrom btf left id nelems) fun _ => True
  | 0, _, _ => ends_fail
  | left + 1, id, nelems => by
    rw [btfResolveSizeFrom]
    cases btf.typeById id with
    | none => exact ends_fail
    | some t =>
      dsimp only
      split
      · exact ends_fail
      cases t.kind with
      | int | struct | union | enum | enum64 | datasec | float | ptr =>
        exact sizeTimes_ends _ _
      | typedef | volatile | const | restrict | var | declTag | typeTag =>
        exact resolveSizeFrom_ends btf
      | array =>
        dsimp only
        split
        · exact ends_fault
        split
        · exact ends_fail
        · exact resolveSizeFrom_ends btf
      | fwd | unkn | func | funcProto | locParam | locProto | locsec | other =>
        exact ends_fail

theorem resolveSize_ends (btf : Btf) (id : Nat) :
    Ends (btfResolveSize btf id) fun _ => True := resolveSizeFrom_ends btf

theorem isFlexArr_ends (btf : Btf) (acc : CoreAccessor) (arr : BtfArray) :
    Ends (isFlexArr btf acc arr) fun _ => True := by
  unfold isFlexArr
  split
  · trivial
  · exact (ends_deref _).bind fun _ _ => ends_pure trivial

/-- The named accessors of a spec are members of composites. -/
def CoreSpec.NamesMembers (btf : Btf) (s : CoreSpec) : Prop :=
  ∀ acc ∈ s.spec, acc.name.isSome = true →
    ∃ t, btf.typeById acc.typeId = some t ∧ t.isComposite = true

theorem CoreSpec.NamesMembers.add {btf : Btf} {acc : CoreAccessor}
    (h : s.NamesMembers btf) (hacc : acc.name.isSome = true →
      ∃ t, btf.typeById acc.typeId = some t ∧ t.isComposite = true) :
    (s.addAcc acc).NamesMembers btf := by
  intro a ha hname
  rcases mem_append.mp ha with ha | ha
  · exact h a ha hname
  · cases mem_singleton.mp ha
    exact hacc hname

section

variable {btf : Btf} {n : Nat} (hb : Enough btf n)

include hb in
theorem parseSpecStep_ends (hs : s.NamesMembers btf) :
    Ends (parseSpecStep btf n idx id s) fun r => r.2.NamesMembers btf := by
  unfold parseSpecStep
  refine (skip_ends hb id).bind fun r hr => ?_
  obtain ⟨t, id'⟩ := r
  dsimp only
  split
  · next hc =>
      refine (ends_failIf _ _).bind fun _ _ => ?_
      refine (ends_deref _).bind fun m _ => ?_
      split
      · refine (ends_failIf _ _).bind fun _ _ => ends_pure ?_
        exact CoreSpec.NamesMembers.add hs fun _ => ⟨t, hr.type, hc⟩
      · exact ends_pure hs
  · split
    · refine (ends_deref _).bind fun a _ => ?_
      refine (skip_ends hb a.type).bind fun r _ => ?_
      obtain ⟨_, id''⟩ := r
      refine (ends_deref _).bind fun last _ => ?_
      refine (isFlexArr_ends btf last a).bind fun flex _ => ?_
      refine (ends_failIf _ _).bind fun _ _ => ?_
      refine (resolveSize_ends btf id'').bind fun sz _ => ends_pure ?_
      refine CoreSpec.NamesMembers.add hs fun h => ?_
      cases h
    · exact ends_fail

include hb in
theorem parseSpecFrom_ends : ∀ {raw : List Nat} {id : Nat} {s : CoreSpec}, s.NamesMembers btf →
    Ends (parseSpecFrom btf n raw id s) fun s => s.NamesMembers btf
  | [], _, _, hs => hs
  | idx :: raw, id, s, hs => by
    refine (parseSpecStep_ends hb hs).bind fun r hr => ?_
    obtain ⟨id', s'⟩ := r
    exact parseSpecFrom_ends hr

theorem parseRaw_ends : ∀ {left : Nat} {s : Bytes}, Ends (parseRawFrom left s) fun _ => True
  | left, s => by
    rw [parseRawFrom.eq_def]
    dsimp only
    split
    · trivial
    split
    · exact ends_fail
    split
    · exact ends_fail
    cases left with
    | zero => exact ends_fail
    | succ left => exact parseRaw_ends.bind fun _ _ => ends_pure trivial

theorem orEinval_ends {α : Type} (o : Option α) : Ends (orEinval o) fun _ => True := by
  cases o with
  | none => exact ends_fail
  | some a => trivial

include hb in
theorem parseSpec_ends (relo : CoreRelo) : Ends (bpfCoreParseSpec btf relo n) fun s =>
      coreReloIsFieldBased relo.kind = true → s.NamesMembers btf := by
  unfold bpfCoreParseSpec
  refine (orEinval_ends _).bind fun specStr _ => ?_
  refine (ends_failIf _ _).bind fun _ _ => ?_
  dsimp only
  split
  · refine (ends_failIf _ _).bind fun _ _ => ends_pure fun _ => ?_
    exact fun acc hacc => absurd hacc not_mem_nil
  refine parseRaw_ends.bind fun raw _ => ?_
  refine (orEinval_ends _).bind fun first _ => ?_
  refine (skip_ends hb relo.typeId).bind fun r hr => ?_
  obtain ⟨t, id⟩ := r
  dsimp only
  split
  · next henum =>
      refine (ends_failIf _ _).bind fun _ _ => ?_
      refine (ends_deref _).bind fun nameOff _ => ends_pure fun hfield => ?_
      exact absurd henum (not_enumvalBased hfield)
  refine (ends_failIf _ _).bind fun _ _ => ?_
  refine (resolveSize_ends btf id).bind fun sz _ => ?_
  refine (parseSpecFrom_ends hb ?_).mono fun s hs _ => hs
  refine CoreSpec.NamesMembers.add (fun acc hacc => absurd hacc not_mem_nil) fun h => ?_
  cases h

end

-- ======== matching

/-- A target spec under way, with at least `k` indices on it. -/
structure CoreSpec.Room (tb : Btf) (k : Nat) (s : CoreSpec) : Prop where
  names : s.NamesMembers tb
  least : k ≤ s.rawSpec.length
  most : s.rawSpec.length ≤ BPF_CORE_SPEC_MAX_LEN

theorem CoreSpec.Room.push {tb : Btf} (h : s.Room tb k)
    (hne : s.rawSpec.length ≠ BPF_CORE_SPEC_MAX_LEN) (off i : Nat) :
    ((s.addBits off).pushRaw i).Room tb (k + 1) := by
  have hmost := h.most
  have hlen : ((s.addBits off).pushRaw i).rawSpec.length = s.rawSpec.length + 1 :=
    length_append
  exact ⟨h.names, by rw [hlen]; exact Nat.succ_le_succ h.least, by omega⟩

theorem CoreSpec.Room.unpush {tb : Btf} {off : Nat}
    (h : s.Room tb (k + 1)) : (s.unpush off).Room tb k := by
  have hleast := h.least
  have hmost := h.most
  have hlen : (s.unpush off).rawSpec.length = s.rawSpec.length - 1 :=
    length_dropLast
  exact ⟨h.names, by omega, by omega⟩

theorem CoreSpec.Room.mono {tb : Btf} {j : Nat} (h : s.Room tb k) (hj : j ≤ k) : s.Room tb j :=
  ⟨h.names, hj.trans h.least, h.most⟩

section

variable {lb tb : Btf} {n : Nat} (hl : Enough lb n) (ht : Enough tb n)

theorem strEq_ends (a b : Option CStr) : Ends (strEq a b) fun _ => True := by
  unfold strEq
  split
  · trivial
  · exact ends_fault

include hl ht in
theorem matchNamed_ends {i : Nat} {m : BtfMember} {name : Option CStr}
    (htype : tb.typeById targId = some t) (hc : t.isComposite = true) (hs : s.Room tb k) :
    Ends (matchNamed lb localType tb n targId i m name s) fun r => r.2.Room tb k := by
  unfold matchNamed
  refine Ends.bind (fieldsCompat_ends hl ht (hl localType)) fun found _ => ?_
  split
  · exact ends_pure ⟨hs.names.add fun _ => ⟨t, htype, hc⟩, hs.least, hs.most⟩
  · exact ends_pure hs

include hl ht in
/-- The loop over the members keeps what it found on the raw spec. -/
theorem matchMembers_ends {localName : Option CStr}
    {targType : BtfType} {deeper : Nat → CoreSpec → Res (Option Nat × CoreSpec)}
    (htype : tb.typeById targId = some targType) (hc : targType.isComposite = true)
    (hdeeper : ∀ id s, CoreSpec.Room tb (k + 1) s →
      Ends (deeper id s) fun r => r.2.Room tb (k + 1)) :
    ∀ {is : List Nat} {s : CoreSpec}, s.Room tb k →
      Ends (matchMembers lb localName localType tb n targType targId deeper is s)
        fun r => r.2.Room tb k
  | [], _, hs => hs
  | i :: is, s, hs => by
    rw [matchMembers]
    refine (ends_deref _).bind fun m _ => ?_
    refine (ends_failIf _ _).bind fun _ hne => ?_
    have hpush := hs.push hne (btfMemberBitOffset targType m) i
    dsimp only
    split
    · refine (hdeeper _ _ hpush).bind fun r hr => ?_
      obtain ⟨next, s'⟩ := r
      dsimp only
      split
      · exact ends_pure (hr.mono (Nat.le_succ k))
      · exact matchMembers_ends htype hc hdeeper hr.unpush
    · refine (strEq_ends _ _).bind fun same _ => ?_
      split
      · exact (matchNamed_ends hl ht htype hc hpush).mono fun r hr =>
          hr.mono (Nat.le_succ k)
      · exact matchMembers_ends htype hc hdeeper hpush.unpush

include hl ht in
/-- Every level of the search takes a place on the raw spec. -/
theorem matchMemberFrom_ends {localAcc : CoreAccessor} :
    ∀ {depth k targId : Nat} {s : CoreSpec}, BPF_CORE_SPEC_MAX_LEN < k + depth → s.Room tb k →
      Ends (matchMemberFrom lb localAcc tb n depth targId s) fun r => r.2.Room tb k
  | 0, k, _, s, hk, hs => by
    have := hs.least
    have := hs.most
    omega
  | depth + 1, k, targId, s, hk, hs => by
    rw [matchMemberFrom]
    refine (skip_ends ht targId).bind fun r hr => ?_
    obtain ⟨targType, targId'⟩ := r
    dsimp only
    split
    · exact ends_pure hs
    next hc =>
    refine (ends_deref _).bind fun localType _ => ?_
    refine (ends_deref _).bind fun localMember _ => ?_
    refine matchMembers_ends hl ht hr.type (by simpa using hc) (fun id s' hs' => ?_) hs
    exact matchMemberFrom_ends (by omega) hs'

theorem matchEnumval_ends (localName : CStr) (targType : BtfType) (targId : Nat)
    (s : CoreSpec) : ∀ {is : List Nat},
      Ends (matchEnumval tb localName targType targId s is) fun _ => True
  | [] => trivial
  | i :: is => by
    rw [matchEnumval]
    refine (ends_deref _).bind fun nameOff _ => ?_
    refine (ends_deref _).bind fun targName _ => ?_
    split
    · trivial
    · exact matchEnumval_ends localName targType targId s

include ht in
theorem specElemType_ends (acc : CoreAccessor) (first : Bool) (t : BtfType) (id : Nat)
    (s : CoreSpec) : Ends (specElemType acc tb n first t id s) fun _ => True := by
  unfold specElemType
  split
  · trivial
  split
  · trivial
  refine (ends_deref _).bind fun a _ => ?_
  refine (ends_deref _).bind fun last _ => ?_
  refine (isFlexArr_ends tb last a).bind fun flex _ => ?_
  split
  · trivial
  · exact (skip_ends ht a.type).bind fun r _ => ends_pure trivial

theorem specAddElem_ends (hs : s.Room tb 0) :
    Ends (specAddElem tb idx targId s) fun r => r.2.Room tb 0 := by
  refine (ends_failIf _ _).bind fun _ hne => ?_
  refine (resolveSize_ends tb targId).bind fun sz _ => ?_
  split
  · exact id
  · have hpush := hs.push hne 0 idx
    exact ends_pure ⟨hs.names.add nofun, Nat.zero_le _, hpush.most⟩

include hl ht in
theorem specMatchFrom_ends (hn : BPF_CORE_SPEC_MAX_LEN < n) :
    ∀ {accs : List CoreAccessor} {first : Bool} {targId : Nat} {s : CoreSpec}, s.Room tb 0 →
      Ends (specMatchFrom lb tb n accs first targId s) fun r => r.2.Room tb 0
  | [], _, _, _, hs => hs
  | acc :: accs, first, targId, s, hs => by
    rw [specMatchFrom]
    have hstep : Ends (specMatchStep lb acc tb n first targId s)
        fun r => r.2.Room tb 0 := by
      unfold specMatchStep
      refine (skip_ends ht targId).bind fun r _ => ?_
      obtain ⟨targType, targId'⟩ := r
      dsimp only
      split
      · exact matchMemberFrom_ends hl ht (by omega) hs
      refine (specElemType_ends ht acc first targType targId' s).bind fun o _ => ?_
      cases o with
      | none => exact ends_pure hs
      | some id => exact specAddElem_ends hs
    refine hstep.bind fun r hr => ?_
    obtain ⟨next, s'⟩ := r
    cases next with
    | none => exact ends_pure hr
    | some id => exact specMatchFrom_ends hn hr

include hl ht in
theorem specMatch_ends (hn : BPF_CORE_SPEC_MAX_LEN < n) (localSpec : CoreSpec)
    (targId : Nat) : Ends (bpfCoreSpecMatch lb localSpec tb targId n) fun r =>
      coreReloIsFieldBased localSpec.reloKind = true → r.2.NamesMembers tb := by
  unfold bpfCoreSpecMatch
  dsimp only
  split
  · next htype =>
      split
      · refine (typesMatchAt_ends hl ht).bind fun same _ => ?_
        exact ends_pure fun hfield => absurd htype (not_typeBased hfield)
      · refine (typesAreCompatAt_ends hl ht).bind fun same _ => ?_
        exact ends_pure fun hfield => absurd htype (not_typeBased hfield)
  split
  · next henum =>
      refine (skip_ends ht targId).bind fun r _ => ?_
      obtain ⟨targType, targId'⟩ := r
      dsimp only
      split
      · exact ends_pure fun hfield => absurd henum (not_enumvalBased hfield)
      refine (ends_deref _).bind fun acc _ => ?_
      refine (ends_deref _).bind fun localName _ => ?_
      exact (matchEnumval_ends localName targType targId' _).mono fun r _ hfield =>
        absurd henum (not_enumvalBased hfield)
  · refine (ends_failIf _ _).bind fun _ _ => ?_
    refine (specMatchFrom_ends hl ht hn ?_).mono fun r hr _ => hr.names
    exact ⟨fun acc hacc => absurd hacc not_mem_nil, Nat.zero_le _, Nat.zero_le _⟩

end

end Libbpf
