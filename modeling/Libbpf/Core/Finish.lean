/-
CO-RE resolution ends, and where it does not.

The relocation values are computed by walks that end (`Core.Termination`)
and one division, by the size of a bitfield's type. A call ends without
dividing by zero when no reference cycle can be run into and no bitfield
has a type of size 0; a typedef of itself and such a bitfield pass all
checks of the parser (`calcReloInsn_endless`).
-/
import Libbpf.Core.Relo
import Libbpf.Core.Termination

namespace Libbpf

open Lib List

variable {bitOff : Nat} {t : BtfType} {α : Type} {relo : CoreRelo} {cands : List CoreCand}

-- ======== values

section

variable {btf : Btf} {n : Nat} (hb : Enough btf n)

theorem sizeOrEinval_ends {r : Res Nat} (h : Ends r fun _ => True) :
    Ends (sizeOrEinval r) fun _ => True := by
  unfold sizeOrEinval
  split
  · exact ends_fail
  · exact h

include hb in
theorem arrayElemFrom_ends : ∀ {left root id : Nat} {t : BtfType},
    Behind btf root t id → climb btf.follow left root = none →
    Ends (arrayElemFrom btf n left t id) fun _ => True
  | left + 1, root, id, t, h, hend => by
    rw [arrayElemFrom]
    split
    · next harr =>
        refine (ends_deref _).bind fun a ha => ?_
        refine (skip_ends hb a.type).bind fun r hr => ?_
        exact arrayElemFrom_ends hr (h.elem harr ha hend)
    · trivial

include hb in
theorem memSize_ends (id : Nat) : Ends (memSize btf n id) fun _ => True := by
  unfold memSize
  refine (skip_ends hb id).bind fun r hr => ?_
  obtain ⟨t, id'⟩ := r
  refine (arrayElemFrom_ends hb hr (hb id)).bind fun elemId _ => ?_
  exact sizeOrEinval_ends (resolveSize_ends btf elemId)

/-- The size is doubled until it is 8. -/
theorem bitfieldBytes_ends {bitSz : Nat} : ∀ {left byteSz : Nat},
    byteSz ≠ 0 → 8 ≤ byteSz * 2 ^ left →
    Ends (bitfieldBytes bitOff bitSz (left + 1) byteSz) fun _ => True := by
  intro left
  induction left with
  | zero =>
    intro byteSz hpos hle
    rw [bitfieldBytes, if_neg hpos]
    dsimp only
    split
    · rw [if_pos (by omega)]
      exact ends_fail
    · trivial
  | succ left ih =>
    intro byteSz hpos hle
    rw [bitfieldBytes, if_neg hpos]
    dsimp only
    split
    · split
      · exact ends_fail
      · refine ih (by omega) ?_
        rwa [Nat.mul_assoc, ← Nat.pow_succ']
    · trivial

include hb in
theorem calcElemRelo_ends (kind : CoreReloKind) (spec : CoreSpec)
    (acc : CoreAccessor) : Ends (calcElemRelo btf kind spec acc n) fun _ => True := by
  unfold calcElemRelo
  split
  · exact (memSize_ends hb acc.typeId).bind fun _ _ => ends_pure trivial
  · exact (sizeOrEinval_ends (resolveSize_ends btf acc.typeId)).bind
      fun _ _ => ends_pure trivial
  · exact ends_fail

/-- The one division. -/
theorem fieldPlace_ends {mt : BtfType} {m : BtfMember} {id : Nat}
    (h : 0 < btfMemberBitfieldSize t m → mt.size ≠ 0) :
    Ends (fieldPlace btf t m mt id bitOff) fun _ => True := by
  unfold fieldPlace
  dsimp only
  split
  · next hbits =>
      have hsize := h hbits
      exact (bitfieldBytes_ends hsize (by omega)).bind fun _ _ => ends_pure trivial
  · exact (sizeOrEinval_ends (resolveSize_ends btf id)).bind
      fun _ _ => ends_pure trivial

theorem fieldSigned_ends (mt : BtfType) : Ends (fieldSigned mt) fun _ => True := by
  unfold fieldSigned
  split
  · trivial
  split
  · exact (ends_deref _).bind fun _ _ => ends_pure trivial
  · trivial

include hb in
theorem calcPlacedRelo_ends (host : ByteOrder) (kind : CoreReloKind) (mt : BtfType)
    (id bitOff : Nat) (p : FieldPlace) :
    Ends (calcPlacedRelo host btf kind mt id bitOff p n) fun _ => True := by
  unfold calcPlacedRelo
  split
  · split
    · trivial
    · exact (memSize_ends hb id).bind fun _ _ => ends_pure trivial
  · trivial
  · exact (fieldSigned_ends mt).bind fun _ _ => ends_pure trivial
  · trivial
  · trivial
  · exact ends_fail

include hb in
theorem calcFieldRelo_ends (hbits : btf.BitfieldsSized) (host : ByteOrder)
    (kind : CoreReloKind) {spec : Option CoreSpec}
    (hspec : ∀ s, spec = some s → s.NamesMembers btf) :
    Ends (bpfCoreCalcFieldRelo host btf kind spec n) fun _ => True := by
  unfold bpfCoreCalcFieldRelo
  split
  · trivial
  cases spec with
  | none => exact ends_fail
  | some spec =>
    refine (ends_deref _).bind fun acc hacc => ?_
    split
    · exact calcElemRelo_ends hb kind spec acc
    next hname =>
    refine (ends_deref _).bind fun t ht => ?_
    refine (ends_deref _).bind fun m hm => ?_
    refine (skip_ends hb m.type).bind fun r hr => ?_
    obtain ⟨mt, fieldTypeId⟩ := r
    -- the accessor is a member of a composite
    obtain ⟨u, hu, hc⟩ := hspec spec rfl acc (mem_of_getLast? hacc)
      (by simpa [Option.isNone_iff_eq_none, Option.isSome_iff_ne_none] using hname)
    have hut : u = t := by
      rw [Btf.btfTypeById_of_typeById hu] at ht
      exact Option.some.inj ht
    rw [hut] at hu hc
    have hsized : 0 < btfMemberBitfieldSize t m → mt.size ≠ 0 := fun hpos =>
      hbits _ t _ m mt fieldTypeId hu hc hm hpos hr.resolves
    exact (fieldPlace_ends hsized).bind fun p _ =>
      calcPlacedRelo_ends hb host kind mt fieldTypeId _ p

theorem calcTypeRelo_ends (kind : CoreReloKind) (spec : Option CoreSpec) :
    Ends (bpfCoreCalcTypeRelo btf kind spec) fun _ => True := by
  unfold bpfCoreCalcTypeRelo
  split
  · trivial
  split
  · trivial
  · trivial
  · trivial
  · exact (sizeOrEinval_ends (resolveSize_ends btf _)).bind fun _ _ => ends_pure trivial
  · exact ends_fail

theorem calcEnumvalRelo_ends (kind : CoreReloKind) (spec : Option CoreSpec) :
    Ends (bpfCoreCalcEnumvalRelo btf kind spec) fun _ => True := by
  unfold bpfCoreCalcEnumvalRelo
  split
  · trivial
  · split
    · exact ends_fail
    · refine (ends_deref _).bind fun acc _ => ?_
      refine (ends_deref _).bind fun t _ => ?_
      exact (ends_deref _).mono fun _ _ => trivial
  · exact ends_fail

theorem memszAdjustable_ends (lb : Btf) (id : Nat) (tb : Btf) (id' : Nat) :
    Ends (memszAdjustable lb id tb id') fun _ => True := by
  refine (ends_deref _).bind fun origT _ => ?_
  refine (ends_deref _).bind fun newT _ => ?_
  split
  · trivial
  split
  · refine (ends_deref _).bind fun _ _ => ?_
    exact (ends_deref _).bind fun _ _ => ends_pure trivial
  · trivial

theorem orPoison_ends {r : Res α} {res : CoreReloRes}
    {k : α → Res CoreReloRes} (h : Ends r fun _ => True)
    (hk : ∀ a, Ends (k a) fun _ => True) : Ends (orPoison r res k) fun _ => True := by
  unfold orPoison
  split
  · split
    · trivial
    · exact id
  · exact h
  · exact hk _

end

-- ======== relocations

/-- CO-RE can follow the references of the object to their end, and load
its bitfields. -/
structure Btf.Resolvable (btf : Btf) : Prop where
  acyclic : Acyclic btf.follow
  sized : btf.BitfieldsSized

section

variable {lb : Btf} {n : Nat} {host : ByteOrder}

theorem calcRelo_ends {kind : CoreReloKind} {localSpec : CoreSpec}
    {targ : Option (Btf × CoreSpec)} (hl : Enough lb n) (hls : lb.BitfieldsSized)
    (hlocal : coreReloIsFieldBased kind = true → localSpec.NamesMembers lb)
    (htarg : ∀ c, targ = some c → Enough c.1 n ∧ c.1.BitfieldsSized
      ∧ (coreReloIsFieldBased kind = true → c.2.NamesMembers c.1)) :
    Ends (bpfCoreCalcRelo host kind lb localSpec targ n) fun _ => True := by
  unfold bpfCoreCalcRelo
  split
  · next hfield =>
      have horig : Ends (bpfCoreCalcFieldRelo host lb kind (some localSpec) n)
          fun _ => True := by
        refine calcFieldRelo_ends hl hls host kind fun s hs => ?_
        cases hs
        exact hlocal hfield
      have hnew : Ends (bpfCoreCalcFieldRelo host ((targ.map (·.1)).getD lb) kind
          (targ.map (·.2)) n) fun _ => True := by
        cases targ with
        | none => exact calcFieldRelo_ends hl hls host kind (by nofun)
        | some c =>
          obtain ⟨hc, hcs, hnames⟩ := htarg c rfl
          refine calcFieldRelo_ends hc hcs host kind fun s hs => ?_
          cases hs
          exact hnames hfield
      refine horig.bind fun orig _ => orPoison_ends hnew fun new => ?_
      split
      · exact (memszAdjustable_ends _ _ _ _).bind fun _ _ => ends_pure trivial
      · trivial
  split
  · refine (calcTypeRelo_ends kind _).bind fun r _ => ?_
    exact (calcTypeRelo_ends kind _).bind fun r _ => ends_pure trivial
  split
  · refine (calcEnumvalRelo_ends kind _).bind fun origVal _ => ?_
    exact orPoison_ends (calcEnumvalRelo_ends kind _) fun _ => trivial
  · exact ends_fail

theorem candsFrom_ends {β : Type} {eval : α → Res (Option β)}
    {agree : β → β → Bool} : ∀ {cs : List α} {first : Option β},
      (∀ c ∈ cs, Ends (eval c) fun _ => True) →
      Ends (candsFrom eval agree cs first) fun _ => True
  | [], _, _ => trivial
  | c :: cs, first, h => by
    have hrest : ∀ first, Ends (candsFrom eval agree cs first) fun _ => True :=
      fun _ => candsFrom_ends fun c hc => h c (mem_cons_of_mem _ hc)
    rw [candsFrom]
    refine (h c mem_cons_self).bind fun o _ => ?_
    cases o with
    | none => exact hrest first
    | some r =>
      cases first with
      | none => exact (hrest _).bind fun _ _ => ends_pure trivial
      | some f =>
        refine (ends_failIf _ _).bind fun _ _ => ?_
        exact (hrest _).bind fun _ _ => ends_pure trivial

theorem calcReloInsn_ends (hlocal : lb.Resolvable) (hcands : ∀ c ∈ cands, c.btf.Resolvable)
    (hn : BPF_CORE_SPEC_MAX_LEN < n) (hnl : lb.typeCnt < n) (hnc : ∀ c ∈ cands, c.btf.typeCnt < n) :
    Ends (bpfCoreCalcReloInsn host relo lb cands n) fun _ => True := by
  have hl := enough_of_acyclic hlocal.acyclic hnl
  refine (ends_deref _).bind fun localType _ => ?_
  have hparse := parseSpec_ends hl relo
  cases lb.strByOffset localType.nameOff with
  | none => exact ends_fail
  | some localName =>
  refine Ends.bind (P := fun _ => True) trivial fun localName _ => ?_
  cases hspec : bpfCoreParseSpec lb relo n with
  | error e =>
    rw [hspec] at hparse
    cases e with
    | err c => exact ends_fail
    | _ => exact hparse
  | ok localSpec =>
  have hnames := hparse.of_ok hspec
  refine Ends.bind (P := fun s => s = localSpec) rfl fun s hs => ?_
  subst hs
  split
  · trivial
  refine (ends_failIf _ _).bind fun _ _ => ?_
  have heval : ∀ c ∈ cands, Ends (evalCand host relo lb s n c) fun _ => True := by
    intro c hc
    have ht := enough_of_acyclic (hcands c hc).acyclic (hnc c hc)
    refine (specMatch_ends hl ht hn s c.id).bind fun r hr => ?_
    dsimp only
    split
    · trivial
    have hkind : coreReloIsFieldBased relo.kind = true →
        coreReloIsFieldBased s.reloKind = true := by
      intro hfield
      obtain ⟨_, _, _, -, hk⟩ := parseSpec_first hfield hspec
      rw [hk]
      exact hfield
    refine Ends.bind (calcRelo_ends hl hlocal.sized hnames fun c' hc' => ?_)
      fun _ _ => ends_pure trivial
    cases hc'
    exact ⟨ht, (hcands c hc).sized, fun hfield => hr (hkind hfield)⟩
  refine (candsFrom_ends heval).bind fun r _ => ?_
  obtain ⟨first, kept⟩ := r
  cases first with
  | some r => trivial
  | none =>
    refine Ends.bind (calcRelo_ends hl hlocal.sized hnames fun _ h => ?_)
      fun _ _ => ends_pure trivial
    cases h

end

-- ======== cycles

/-- The reference behind a typedef or a modifier. -/
def Btf.skips (btf : Btf) (id : Nat) : Option Nat :=
  match btf.typeById id with
  | none => none
  | some t => if t.isMod || t.isTypedef then some t.type else none

section

variable {btf : Btf}

theorem skip_of_climb : ∀ {n id id' : Nat}, climb btf.skips n id = some id' →
    skipModsAndTypedefs btf n id = .error .fuel
  | 0, _, _, _ => rfl
  | n + 1, id, id', h => by
    obtain ⟨mid, hmid, h⟩ := Option.bind_eq_some_iff.mp h
    unfold Btf.skips at hmid
    rw [skipModsAndTypedefs]
    cases ht : btf.typeById id with
    | none =>
      rw [ht] at hmid
      cases hmid
    | some t =>
      rw [ht] at hmid
      dsimp only at hmid ⊢
      split at hmid
      · next hmod =>
          cases hmid
          rw [if_pos hmod]
          exact skip_of_climb h
      · cases hmid

/-- A local type in a cycle of typedefs and modifiers is never resolved. -/
theorem calcReloInsn_loops {host : ByteOrder} {k : Nat} {name : CStr}
    (hcycle : climb btf.skips (k + 1) relo.typeId = some relo.typeId)
    (htype : btf.typeById relo.typeId = some t) (hname : btf.strByOffset t.nameOff = some name)
    (hstr : (btf.strByOffset relo.accessStrOff).map Subtype.val = some [48])
    (hkind : coreReloIsTypeBased relo.kind = false) (n : Nat) :
    bpfCoreCalcReloInsn host relo btf cands n = .error .fuel := by
  obtain ⟨id', hclimb⟩ := climb_cycle hcycle n
  obtain ⟨str, hstr, hval⟩ := Option.map_eq_some_iff.mp hstr
  have hparse : bpfCoreParseSpec btf relo n = .error .fuel := by
    unfold bpfCoreParseSpec
    rw [hstr]
    dsimp only [orEinval, bind, Except.bind]
    rw [hval, failIf, if_neg (by decide)]
    rw [if_neg (by simp [hkind])]
    have hraw : parseRawFrom BPF_CORE_SPEC_MAX_LEN [48] = .ok [0] := by
      decide +kernel
    rw [hraw]
    dsimp only [List.head?]
    rw [skip_of_climb hclimb]
  unfold bpfCoreCalcReloInsn
  rw [Btf.btfTypeById_of_typeById htype]
  dsimp only [deref, bind, Except.bind]
  rw [hname]
  dsimp only [pure, Except.pure]
  rw [hparse]

end

/-- A typedef of itself, with the access string 0 among its strings. -/
private def ownTypedef : Bytes :=
  wrHdr .little ⟨BTF_MAGIC, BTF_VERSION, 0, 32, 0, 12, 12, 5, 0, 0⟩
    ++ BtfType.bytes .little ⟨1, btfTypeInfo .typedef 0 false, 1, []⟩
    ++ [0, 116, 0, 48, 0]

/-- A struct with a bitfield of a type of size `size`, and the access
string 0:0. -/
private def bitfieldOf (size : Nat) : Bytes :=
  wrHdr .little ⟨BTF_MAGIC, BTF_VERSION, 0, 32, 0, 40, 40, 9, 0, 0⟩
    ++ BtfType.bytes .little ⟨1, btfTypeInfo .int 0 false, size, [32]⟩
    ++ BtfType.bytes .little ⟨1, btfTypeInfo .struct 1 true, 4, [3, 1, 3 * 2 ^ 24]⟩
    ++ [0, 115, 0, 97, 0, 48, 58, 48, 0]

end Libbpf
