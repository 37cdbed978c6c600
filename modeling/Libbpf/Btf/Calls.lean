/-
The calls that build an object, as one alphabet.

`BtfCall` has a letter for each string call and each `btf__add_*`
function, and `BtfCall.run` plays it on an object. Whatever the call
returns, the object is edited (`BtfCall.edited`); and it stays clean
unless a record of kind `BTF_KIND_UNKN` is copied into it
(`BtfCall.writes`). A run is a sequence of calls that return,
successfully or with a code.
-/
import Libbpf.Btf.Rollback

namespace Libbpf

open Lib
open List hiding after

variable {b src d b' dst : Btf} {n v : Nat} {t : BtfType} {kinds : List BtfKind} {α : Type}
  {p : BtfPipe} {cs : List BtfCall}

/-- A call on an object with its arguments. -/
inductive BtfCall where
  | findStr (s : CStr)
  | addStr (s : CStr)
  | addInt (name : CStr) (byteSz : Nat) (encoding : Int32)
  | addFloat (name : CStr) (byteSz : Nat)
  | addPtr (refTypeId : Int32)
  | addArray (indexTypeId elemTypeId : Int32) (nrElems : UInt32)
  | addStruct (name : CStr) (byteSz : UInt32)
  | addUnion (name : CStr) (byteSz : UInt32)
  | addField (name : CStr) (typeId : Int32) (bitOffset bitSize : UInt32)
  | addEnum (name : CStr) (byteSz : UInt32)
  | addEnumValue (name : CStr) (value : Int64)
  | addEnum64 (name : CStr) (byteSz : UInt32) (isSigned : Bool)
  | addEnum64Value (name : CStr) (value : UInt64)
  | addFwd (name : CStr) (fwdKind : BtfFwdKind)
  | addTypedef (name : CStr) (refTypeId : Int32)
  | addVolatile (refTypeId : Int32)
  | addConst (refTypeId : Int32)
  | addRestrict (refTypeId : Int32)
  | addTypeTag (value : CStr) (refTypeId : Int32)
  | addTypeAttr (value : CStr) (refTypeId : Int32)
  | addFunc (name : CStr) (linkage : UInt32) (protoTypeId : Int32)
  | addFuncProto (retTypeId : Int32)
  | addFuncParam (name : CStr) (typeId : Int32)
  | addVar (name : CStr) (linkage : UInt32) (typeId : Int32)
  | addDatasec (name : CStr) (byteSz : UInt32)
  | addDatasecVarInfo (varTypeId : Int32) (offset byteSz : UInt32)
  | addDeclTag (value : CStr) (refTypeId componentIdx : Int32)
  | addDeclAttr (value : CStr) (refTypeId componentIdx : Int32)
  | addLocParam (byteSz flags : UInt32)
  | addLocParamValue (value : UInt32)
  | addLocProto
  | addLocProtoParam (id : UInt32)
  | addLocsec (name : CStr)
  | addLocsecLoc (func locProto offset : UInt32)
  | addType (src : Btf) (srcType : BtfType)
  | addBtf (src : Btf)

/-- Make the call. -/
def BtfCall.run : BtfCall → Run Btf Nat
  | findStr s => Btf.findStr s
  | addStr s => Btf.addStr s
  | addInt name byteSz encoding => Btf.addInt name byteSz encoding
  | addFloat name byteSz => Btf.addFloat name byteSz
  | addPtr refTypeId => Btf.addPtr refTypeId
  | addArray indexTypeId elemTypeId nrElems =>
    Btf.addArray indexTypeId elemTypeId nrElems
  | addStruct name byteSz => Btf.addStruct name byteSz
  | addUnion name byteSz => Btf.addUnion name byteSz
  | addField name typeId bitOffset bitSize =>
    Btf.addField name typeId bitOffset bitSize
  | addEnum name byteSz => Btf.addEnum name byteSz
  | addEnumValue name value => Btf.addEnumValue name value
  | addEnum64 name byteSz isSigned => Btf.addEnum64 name byteSz isSigned
  | addEnum64Value name value => Btf.addEnum64Value name value
  | addFwd name fwdKind => Btf.addFwd name fwdKind
  | addTypedef name refTypeId => Btf.addTypedef name refTypeId
  | addVolatile refTypeId => Btf.addVolatile refTypeId
  | addConst refTypeId => Btf.addConst refTypeId
  | addRestrict refTypeId => Btf.addRestrict refTypeId
  | addTypeTag value refTypeId => Btf.addTypeTag value refTypeId
  | addTypeAttr value refTypeId => Btf.addTypeAttr value refTypeId
  | addFunc name linkage protoTypeId => Btf.addFunc name linkage protoTypeId
  | addFuncProto retTypeId => Btf.addFuncProto retTypeId
  | addFuncParam name typeId => Btf.addFuncParam name typeId
  | addVar name linkage typeId => Btf.addVar name linkage typeId
  | addDatasec name byteSz => Btf.addDatasec name byteSz
  | addDatasecVarInfo varTypeId offset byteSz =>
    Btf.addDatasecVarInfo varTypeId offset byteSz
  | addDeclTag value refTypeId componentIdx =>
    Btf.addDeclTag value refTypeId componentIdx
  | addDeclAttr value refTypeId componentIdx =>
    Btf.addDeclAttr value refTypeId componentIdx
  | addLocParam byteSz flags => Btf.addLocParam byteSz flags
  | addLocParamValue value => Btf.addLocParamValue value
  | addLocProto => Btf.addLocProto
  | addLocProtoParam id => Btf.addLocProtoParam id
  | addLocsec name => Btf.addLocsec name
  | addLocsecLoc func locProto offset => Btf.addLocsecLoc func locProto offset
  | addType src srcType => Btf.addType src srcType
  | addBtf src => Btf.addBtf src

/-- The call copies nothing from another object. -/
def BtfCall.Plain : BtfCall → Prop
  | addType _ _ => False
  | addBtf _ => False
  | _ => True

-- ======== the plain calls

theorem writer_findStr {P : Btf → Prop} (s : CStr) : Writer P (Btf.findStr s) := by
  intro b hw _
  exact ((Btf.findStr_spec s b).2.interned hw).writes hw

theorem writer_addStr {P : Btf → Prop} (s : CStr) : Writer P (Btf.addStr s) := by
  intro b hw _
  exact (Btf.addStr_interned hw s).writes hw

theorem badByteSz_lt {max : Nat} (h : ¬ badByteSz n max) : n ≤ max := by
  unfold badByteSz at h
  omega

section

variable {P : Btf → Prop} (name : CStr) (id : Int32) (kflag : Bool)
  {kind : BtfKind} (hk : btfBswapRestCnt kind 0 = some 0)

include hk

theorem writer_addRefKind : Writer P (btfAddRefKind kind name id kflag) := by
  apply writer_validateTypeId
  intro hid
  exact writer_addTypeRec name kflag (by omega) nofun hk

theorem writer_addNamedRefKind : Writer P (btfAddNamedRefKind kind name id kflag) := by
  apply writer_check
  intro _
  exact writer_addRefKind name id kflag hk

end

/-- The reference calls that settle the info word afterwards. -/
theorem writer_addRefKindInfo {P : Btf → Prop} (name : CStr) (id : Int32)
    {kind : BtfKind} {info : Nat} (hi : InfoOf kind v 0 info)
    (hone : v = 0 ∨ kind = .func) (hk : btfBswapRestCnt kind 0 = some 0) :
    Writer P (do
      let id ← btfAddRefKind kind name id false
      btfSetLastInfo info
      return id) := by
  unfold btfAddRefKind
  rw [bind_assoc]
  apply writer_validateTypeId
  intro hid
  exact writer_setLastInfo name (by omega) hi hone hk

theorem writer_addComposite {P : Btf → Prop} (name : CStr) (byteSz : UInt32)
    {kind : BtfKind} (hk : btfBswapRestCnt kind 0 = some 0) :
    Writer P (btfAddComposite kind name byteSz) :=
  writer_addTypeRec name false byteSz.toNat_lt nofun hk

theorem writer_addEnumCommon {P : Btf → Prop} (name : CStr) (byteSz : UInt32)
    (isSigned : Bool) {kind : BtfKind} (hk : btfBswapRestCnt kind 0 = some 0) :
    Writer P (btfAddEnumCommon name byteSz isSigned kind) := by
  apply writer_check
  intro _
  exact writer_addTypeRec name isSigned byteSz.toNat_lt nofun hk

theorem writer_addDeclTag {P : Btf → Prop} (value : CStr)
    (refTypeId componentIdx : Int32) (kflag : Bool) :
    Writer P (btfAddDeclTag value refTypeId componentIdx kflag) := by
  apply writer_check
  intro _
  apply writer_validateTypeId
  intro hid
  apply writer_addTypeRec value kflag (by omega) _ rfl
  intro w hw
  rw [mem_singleton.mp hw]
  exact UInt32.toNat_lt _

/-- An element call that counts with `btf_type_inc_vlen`. -/
theorem writer_incElem {named : Bool} (hkinds : ∀ k ∈ kinds, ElemKind k n named) (name : CStr)
    {elem : Nat → List Nat} (ht : t.kind ∈ kinds) (hlen : ∀ off, (elem off).length = n)
    (hfit : ∀ off, off < 2 ^ 31 → ∀ w ∈ elem off, w < 2 ^ 32)
    (hname : named = true → ∀ off, ∃ l, elem off = off :: l) :
    Writer (Btf.Last t) (btfAppendElem name n elem btfTypeIncVlen) :=
  writer_appendElem hkinds name ht hlen hfit hname fun _ => btfTypeIncVlen_ok

theorem elemKinds_named (h : ∀ k ∈ kinds, (k, n) ∈ [(BtfKind.struct, 3), (.union, 3), (.enum, 2),
      (.enum64, 3), (.funcProto, 2)]) : ∀ k ∈ kinds, ElemKind k n true :=
  fun k hk => elemKind_named k n (h k hk)

theorem elemKinds_plain (h : ∀ k ∈ kinds, (k, n) ∈ [(BtfKind.datasec, 3), (.locParam, 1),
      (.locProto, 1), (.locsec, 3)]) : ∀ k ∈ kinds, ElemKind k n false :=
  fun k hk => elemKind_plain k n (h k hk)

theorem writer_addField {P : Btf → Prop} (name : CStr) (typeId : Int32)
    (bitOffset bitSize : UInt32) :
    Writer P (Btf.addField name typeId bitOffset bitSize) := by
  apply writer_checkLast
  intro t ht
  apply writer_check
  intro hv
  apply writer_validateTypeId
  intro hid
  apply writer_check
  intro _
  apply writer_check
  intro _
  apply writer_appendElem (elemKinds_named (by decide)) name ht
  · exact fun _ => rfl
  · intro off hoff w hw
    simp only [mem_cons, not_mem_nil, or_false] at hw
    rcases hw with rfl | rfl | rfl
    · omega
    · omega
    · apply Nat.or_lt_two_pow bitOffset.toNat_lt
      exact Nat.mod_lt _ (Nat.two_pow_pos 32)
  · exact fun _ off => ⟨_, rfl⟩
  · intro info hi
    cases hi
    have hlt : t.vlen < 2 ^ 24 := Nat.mod_lt _ (Nat.two_pow_pos 24)
    unfold BTF_MAX_VLEN at hv
    exact ⟨by omega, _, rfl⟩

theorem writer_addEnumValue {P : Btf → Prop} (name : CStr) (value : Int64) :
    Writer P (Btf.addEnumValue name value) := by
  apply writer_checkLast
  intro t ht
  apply writer_check
  intro _
  apply writer_check
  intro _
  apply writer_appendElem (elemKinds_named (by decide)) name ht
  · exact fun _ => rfl
  · intro off hoff w hw
    simp only [mem_cons, not_mem_nil, or_false] at hw
    rcases hw with rfl | rfl
    · omega
    · exact UInt32.toNat_lt _
  · exact fun _ off => ⟨_, rfl⟩
  · intro info hi
    obtain ⟨i, hinc, hi⟩ := of_bind_ok hi
    obtain ⟨hv, kf, rfl⟩ := btfTypeIncVlen_ok hinc
    refine ⟨hv, ?_⟩
    cases hi
    split
    · -- the flag is set on top of the new count
      have hk : t.kind.known = true := by
        rw [mem_singleton.mp ht]
        rfl
      obtain ⟨h₁, h₂, -⟩ := btfTypeInfo_spec hk hv
        (t := { t with info := btfTypeInfo t.kind (t.vlen + 1) kf }) rfl
      refine ⟨true, ?_⟩
      dsimp only
      rw [h₁, h₂]
    · exact ⟨kf, rfl⟩

/-- The plain calls write. -/
theorem BtfCall.writes_of_plain {P : Btf → Prop} (c : BtfCall) (hc : c.Plain) : Writer P c.run := by
  cases c with
  | findStr s => exact writer_findStr s
  | addStr s => exact writer_addStr s
  | addInt name byteSz encoding =>
    apply writer_check
    intro _
    apply writer_check
    intro hsz
    apply writer_check
    intro henc
    have hle := badByteSz_lt hsz
    apply writer_addTypeRec name false (by omega) _ rfl
    intro w hw
    rw [mem_singleton.mp hw]
    omega
  | addFloat name byteSz =>
    apply writer_check
    intro _
    apply writer_check
    intro hsz
    simp only [mem_cons, not_mem_nil, or_false] at hsz
    exact writer_addTypeRec name false (by omega) nofun rfl
  | addPtr id => exact writer_addRefKind _ _ _ rfl
  | addArray indexId elemId nr =>
    apply writer_validateTypeId
    intro hi
    apply writer_validateTypeId
    intro he
    apply writer_addTypeRec _ false (Nat.two_pow_pos 32) _ rfl
    intro w hw
    simp only [mem_cons, not_mem_nil, or_false] at hw
    rcases hw with rfl | rfl | rfl
    · omega
    · omega
    · exact nr.toNat_lt
  | addStruct name byteSz => exact writer_addComposite _ _ rfl
  | addUnion name byteSz => exact writer_addComposite _ _ rfl
  | addField name id off sz => exact writer_addField name id off sz
  | addEnum name byteSz => exact writer_addEnumCommon _ _ _ rfl
  | addEnumValue name value => exact writer_addEnumValue name value
  | addEnum64 name byteSz sgn => exact writer_addEnumCommon _ _ _ rfl
  | addEnum64Value name value =>
    apply writer_checkLast
    intro t ht
    apply writer_check
    intro _
    apply writer_incElem (elemKinds_named (by decide)) name ht
    · exact fun _ => rfl
    · intro off hoff w hw
      simp only [mem_cons, not_mem_nil, or_false] at hw
      have hlt := value.toNat_lt
      rcases hw with rfl | rfl | rfl
      · omega
      · exact UInt32.toNat_lt _
      · omega
    · exact fun _ off => ⟨_, rfl⟩
  | addFwd name fwdKind =>
    apply writer_check
    intro _
    cases fwdKind with
    | struct =>
      exact writer_addRefKindInfo name 0 (InfoOf.mk_zero _ rfl) (Or.inl rfl) rfl
    | union =>
      exact writer_addRefKindInfo name 0 (InfoOf.mk_zero _ rfl) (Or.inl rfl) rfl
    | enum => exact writer_addEnumCommon _ _ _ rfl
  | addTypedef name id => exact writer_addNamedRefKind _ _ _ rfl
  | addVolatile id => exact writer_addRefKind _ _ _ rfl
  | addConst id => exact writer_addRefKind _ _ _ rfl
  | addRestrict id => exact writer_addRefKind _ _ _ rfl
  | addTypeTag value id => exact writer_addNamedRefKind _ _ _ rfl
  | addTypeAttr value id => exact writer_addNamedRefKind _ _ _ rfl
  | addFunc name linkage id =>
    apply writer_check
    intro _
    apply writer_check
    intro hl
    exact writer_addRefKindInfo name id ⟨⟨_, rfl⟩, by omega, rfl⟩ (Or.inr rfl) rfl
  | addFuncProto id =>
    apply writer_validateTypeId
    intro hid
    exact writer_addTypeRec _ _ (by omega) nofun rfl
  | addFuncParam name id =>
    apply writer_validateTypeId
    intro hid
    apply writer_checkLast
    intro t ht
    apply writer_incElem (elemKinds_named (by decide)) name ht
    · exact fun _ => rfl
    · intro off hoff w hw
      simp only [mem_cons, not_mem_nil, or_false] at hw
      omega
    · exact fun _ off => ⟨_, rfl⟩
  | addVar name linkage id =>
    apply writer_check
    intro _
    apply writer_check
    intro _
    apply writer_validateTypeId
    intro hid
    apply writer_addTypeRec _ _ (by omega) _ rfl
    intro w hw
    rw [mem_singleton.mp hw]
    exact linkage.toNat_lt
  | addDatasec name byteSz =>
    apply writer_check
    intro _
    exact writer_addTypeRec _ _ byteSz.toNat_lt nofun rfl
  | addDatasecVarInfo id off sz =>
    apply writer_checkLast
    intro t ht
    apply writer_validateTypeId
    intro hid
    apply writer_incElem (elemKinds_plain (by decide)) _ ht
    · exact fun _ => rfl
    · intro o ho w hw
      simp only [mem_cons, not_mem_nil, or_false] at hw
      rcases hw with rfl | rfl | rfl
      · omega
      · exact off.toNat_lt
      · exact sz.toNat_lt
    · nofun
  | addDeclTag value id idx => exact writer_addDeclTag _ _ _ _
  | addDeclAttr value id idx => exact writer_addDeclTag _ _ _ _
  | addLocParam byteSz flags =>
    apply writer_check
    intro _
    apply writer_addTypeRec _ _ byteSz.toNat_lt _ rfl
    intro w hw
    rw [mem_singleton.mp hw]
    exact flags.toNat_lt
  | addLocParamValue value =>
    apply writer_checkLast
    intro t ht
    apply writer_incElem (elemKinds_plain (by decide)) _ ht
    · exact fun _ => rfl
    · intro o ho w hw
      rw [mem_singleton.mp hw]
      exact value.toNat_lt
    · nofun
  | addLocProto => exact writer_addTypeRec _ _ (by decide) nofun rfl
  | addLocProtoParam id =>
    apply writer_validateTypeId
    intro _
    apply writer_checkLast
    intro t ht
    apply writer_incElem (elemKinds_plain (by decide)) _ ht
    · exact fun _ => rfl
    · intro o ho w hw
      rw [mem_singleton.mp hw]
      exact id.toNat_lt
    · nofun
  | addLocsec name =>
    apply writer_check
    intro _
    exact writer_addTypeRec _ _ (by decide) nofun rfl
  | addLocsecLoc func locProto offset =>
    apply writer_validateTypeId
    intro _
    apply writer_validateTypeId
    intro _
    apply writer_checkLast
    intro t ht
    apply writer_incElem (elemKinds_plain (by decide)) _ ht
    · exact fun _ => rfl
    · intro o ho w hw
      simp only [mem_cons, not_mem_nil, or_false] at hw
      rcases hw with rfl | rfl | rfl
      · exact func.toNat_lt
      · exact locProto.toNat_lt
      · exact offset.toNat_lt
    · nofun
  | addType src t => exact hc.elim
  | addBtf src => exact hc.elim

-- ======== the copying calls

/-- A kind the iterator knows, but for `BTF_KIND_UNKN`, is a known one. -/
theorem known_of_iter (hu : t.kind ≠ .unkn) (hi : ∃ slots, btfFieldSlots .strs t = .ok slots) :
    t.kind.known = true := by
  obtain ⟨slots, hs⟩ := hi
  obtain ⟨d, hd, -⟩ := btfFieldSlots_eq_ok hs
  cases hk : t.kind <;> first
    | rfl
    | exact absurd hk hu
    | (rw [hk] at hd; cases hd)

theorem StrMapped.reads {w : Nat} (hw : dst.Wf) (hf : b.BaseFinds) (h : StrMapped src b dst 0 w v) :
    ∃ s, dst.strByOffset v = some s := by
  rcases h with ⟨h, -⟩ | ⟨-, ⟨-, rfl⟩ | ⟨-, hd⟩⟩
  · exact absurd h (Nat.not_lt_zero w)
  · exact ⟨_, hw.strByOffset_zero.1⟩
  · obtain ⟨s, -, hs⟩ := hd.2 hf
    exact ⟨s, hs⟩

/-- What a copied record keeps. -/
structure AddedType (src b : Btf) (t : BtfType) (b' : Btf) (t' : BtfType) : Prop where
  room : Roomy b t'.byteSz b'
  iter : ∃ slots, btfFieldSlots .strs t' = .ok slots
  info : t'.info = t.info
  fits : t.Fits → t'.Fits
  sized : btfTypeSize src t' = .ok t'.byteSz
  names : b.BaseFinds → b'.Named t'

theorem onDst_after (m : Run Btf α) (p : BtfPipe) : (after (onDst m p)).dst = after (m p.dst) := by
  unfold onDst
  cases m p.dst <;> rfl

theorem Btf.after_addType (src : Btf) (t : BtfType) (b : Btf) :
    after (Btf.addType src t b) = (after (btfAddType src t ⟨b, none⟩)).dst := by
  unfold Btf.addType
  cases btfAddType src t ⟨b, none⟩ <;> rfl

theorem btfCopyType_ok {u : BtfType} (h : btfCopyType (12 + 4 * n) t = .ok u) :
    u.info = t.info ∧ u.byteSz = 12 + 4 * n ∧ (t.Fits → u.Fits) := by
  unfold btfCopyType at h
  split at h
  next => cases h
  next hlt =>
    cases h
    unfold BtfType.byteSz at hlt
    refine ⟨rfl, ?_, fun hf w hw => ?_⟩
    · show 12 + 4 * (t.rest.take ((12 + 4 * n - 12) / 4)).length = _
      rw [length_take]
      omega
    · apply hf w
      simp only [BtfType.words, mem_cons] at hw ⊢
      rcases hw with h | h | h | h
      · exact Or.inl h
      · exact Or.inr (Or.inl h)
      · exact Or.inr (Or.inr (Or.inl h))
      · exact Or.inr (Or.inr (Or.inr (mem_of_mem_take h)))

theorem Rewritten.fits {keep : Nat} {slots : List Nat}
    {t' : BtfType} (h : Rewritten src b dst keep slots t t') (hf : t.Fits) :
    t'.Fits := by
  rw [BtfType.fits_iff] at hf ⊢
  intro i
  by_cases hi : i ∈ slots
  · exact (h.slot i hi).lt (hf i)
  · rw [h.other i hi]
    exact hf i

/-- `btf__add_type` either interns strings and fails, or commits a record
that says what the original says. -/
theorem Btf.addType_cases (src : Btf) (hw : b.Wf) (t : BtfType) :
    b.Interned (after (Btf.addType src t b)) ∨ ∃ b' t', AddedType src b t b' t'
        ∧ (after (Btf.addType src t b)) = after (btfCommitType t' b') := by
  have hrefl := Btf.Looked.interned (Btf.Looked.refl b) hw
  rw [Btf.after_addType, btfAddType, run_bind]
  cases hsz : btfTypeSize src t with
  | error e => exact Or.inl hrefl
  | ok sz =>
  obtain ⟨n, rfl⟩ := btfTypeSize_words hsz
  rw [liftRes_ok]
  dsimp only
  rw [run_bind, onDst, btfEnsureModifiable_eq]
  cases hse : b.sealed with
  | true => exact Or.inl hrefl
  | false =>
  have hopen : b.Interned b.opened :=
    Btf.Looked.interned ⟨Btf.norm_opened hse, Btf.Wf.opened, Or.inr rfl⟩ hw
  dsimp only
  rw [if_neg Bool.false_ne_true]
  dsimp only
  rw [run_bind, onDst, btfAddTypeMem_eq]
  by_cases hroom : b.opened.hdr.typeLen + (12 + 4 * n) > 2 ^ 32 - 1
  · rw [if_pos hroom]
    exact Or.inl hopen
  rw [if_neg hroom]
  dsimp only
  rw [run_bind]
  cases hcp : btfCopyType (12 + 4 * n) t with
  | error e => exact Or.inl hopen
  | ok u =>
  obtain ⟨hinfo, husz, hufit⟩ := btfCopyType_ok hcp
  rw [liftRes_ok]
  dsimp only
  rw [run_bind]
  cases hsl : btfFieldSlots .strs u with
  | error e => exact Or.inl hopen
  | ok slots =>
  rw [liftRes_ok]
  dsimp only
  rw [run_bind]
  have hus : btfTypeSize src u = .ok u.byteSz := by
    rw [btfTypeSize_congr hinfo, hsz, husz]
  obtain ⟨d, hd, rfl⟩ := btfFieldSlots_eq_ok hsl
  have hp : PipeOk src b.opened ⟨b.opened, none⟩ :=
    ⟨Btf.Looked.interned (Btf.Looked.refl _) hopen.wf, nofun⟩
  obtain ⟨-, g2, g3⟩ := btfRewriteStrs_spec hopen.wf 0 (d.slots u.vlen) u _ hp
    (slots_nodup hd _) fun i hi => slots_in hus hd hi
  cases hrw : btfRewriteStrs src 0 (d.slots u.vlen) u ⟨b.opened, none⟩ with
  | error e p =>
    rw [hrw] at g2
    exact Or.inl (hopen.trans g2)
  | ok t' p =>
    rw [hrw, after_ok] at g2
    have hr := g3 t' p hrw
    have hlen : t'.byteSz = u.byteSz := by
      rw [BtfType.byteSz, hr.len, BtfType.byteSz]
    right
    refine ⟨p.dst, t', ⟨⟨hopen.trans g2, ?_, ?_⟩, ?_, ?_, ?_, ?_, ?_⟩, onDst_after _ p⟩
    · rcases g2.cache with ho | hn
      · rw [ho]
        exact ⟨rfl, rfl⟩
      · exact hn
    · rw [g2.hdr, hlen, husz]
      show b.opened.hdr.typeLen + (12 + 4 * n) < 2 ^ 32
      omega
    · exact ⟨_, (btfFieldSlots_congr .strs hr.info).trans hsl⟩
    · exact hr.info.trans hinfo
    · exact fun hf => hr.fits (hufit hf)
    · rw [btfTypeSize_congr hr.info, hus, hlen]
    · intro hf slots' hs' i hi
      rw [btfFieldSlots_congr .strs hr.info, hsl] at hs'
      cases hs'
      exact (hr.slot i hi).reads g2.wf (hopen.edited.baseFinds hw hf)

/-- `btf__add_type` of any record edits. Unless its kind is
`BTF_KIND_UNKN` the object also stays clean. -/
theorem Btf.addType_writes (hw : b.Wf) (ht : t.Fits) : b.Edited (after (Btf.addType src t b))
      ∧ (t.kind ≠ .unkn → b.Writes (after (Btf.addType src t b))) := by
  rcases Btf.addType_cases src hw t with h | ⟨b', t', ha, he⟩
  · exact ⟨h.edited, fun _ => h.writes hw⟩
  rw [he]
  rcases btfCommitType_cases ha.room (ha.fits ht)
      (fun hk => BtfType.sized_of_known hk ha.sized) rfl with
    ⟨e, hc⟩ | ⟨res, hsec, hc⟩
  · rw [hc]
    exact ⟨ha.room.interned.edited, fun _ => ha.room.interned.writes hw⟩
  rw [hc, after_outcome]
  refine ⟨ha.room.interned.edited.trans
    (Btf.edited_setTypes ha.room.interned.wf hsec ha.room.uncached), ?_⟩
  intro hu
  apply ha.room.writes hsec
  intro hf hclean u hmem
  rcases mem_append.mp hmem with hmem | hmem
  · exact (ha.room.interned.writes hw).clean hf hclean u hmem
  rw [mem_singleton.mp hmem]
  have hkind : t'.kind = t.kind := by
    rw [BtfType.kind, ha.info, BtfType.kind]
  refine ⟨BtfType.sized_of_known (known_of_iter ?_ ha.iter) ha.sized, ha.names hf⟩
  rw [hkind]
  exact hu

/-- The strings a failed call interned are out of sight. -/
theorem Btf.Interned.withStrLen (hw : b.Wf) (h : b.opened.Interned d)
    (hse : b.sealed = false) : b.Interned (d.withStrLen b.hdr.strLen) := by
  have hopen : b.Interned b.opened :=
    Btf.Looked.interned ⟨Btf.norm_opened hse, Btf.Wf.opened, Or.inr rfl⟩ hw
  have hwf : (d.withStrLen b.opened.hdr.strLen).Wf :=
    h.wf_withStrLen hopen.wf ⟨_, rfl⟩
  have hcore : (d.withStrLen b.opened.hdr.strLen).core = b.opened.core :=
    h.core_withStrLen hopen.wf
  refine ⟨hwf, ⟨[], ?_⟩, ?_, ?_, ?_, ?_⟩
  · rw [Btf.core_addStrs_nil]
    exact hcore.trans b.core_opened
  · exact (hopen.trans h).base
  · rcases h.cache with ho | hn
    · right
      have h₁ : d.rawData = b.opened.rawData := by rw [ho]
      have h₂ : d.rawDataSwapped = b.opened.rawDataSwapped := by rw [ho]
      exact ⟨h₁, h₂⟩
    · exact Or.inr hn
  · exact fun t o ho => (hopen.trans h).index t o ho
  · exact fun _ => h.set ⟨_, rfl⟩

/-- `btf__add_btf` either interns strings and fails, or appends copies. -/
theorem Btf.addBtf_cases (hw : b.Wf) (hs : src.Wf) (hsz : src.Sized) : b.Interned (after (Btf.addBtf src b))
      ∨ ∃ ts mid, CopyDone src b ts mid (after (Btf.addBtf src b)) := by
  have hrefl := Btf.Looked.interned (Btf.Looked.refl b) hw
  by_cases hr : Btf.AddBtfRefused src b
  · left
    obtain ⟨e, he | ⟨hse, he⟩⟩ := Btf.addBtf_refused hr
    · rw [he]
      exact hrefl
    · rw [he]
      exact Btf.Looked.interned ⟨Btf.norm_opened hse, Btf.Wf.opened, Or.inr rfl⟩ hw
  have hse : b.sealed = false := by
    unfold Btf.AddBtfRefused at hr
    simp only [not_or] at hr
    simpa using hr.2.1
  rw [Btf.addBtf_copies hr]
  cases hc : btfCopyAll src src.copyFrom b.typeCnt src.types
      ⟨b.opened, some Hashmap.init⟩ with
  | error e p =>
    left
    have hsp := btfCopyAll_spec hw.opened src.copyFrom b.typeCnt src.types hsz
      _ (PipeOk.start src hw.opened)
    rw [hc] at hsp
    exact hsp.1.interned.withStrLen hw hse
  | ok ts p =>
    right
    rw [btfAddBtfDone, after_outcome]
    exact ⟨ts, p.dst, copyDone hw hs hsz hr hc⟩

theorem Btf.addBtf_writes (hw : b.Wf) (hs : src.Wf) (hsz : src.Sized) : b.Edited (after (Btf.addBtf src b))
      ∧ (src.OnBaseOf b → (∀ t ∈ src.types, t.kind ≠ .unkn) →
        b.Writes (after (Btf.addBtf src b))) := by
  rcases Btf.addBtf_cases hw hs hsz with h | ⟨ts, mid, hd⟩
  · exact ⟨h.edited, fun _ _ => h.writes hw⟩
  have hroom : Roomy b 0 mid := by
    refine ⟨hd.interned, hd.uncached, ?_⟩
    exact hd.interned.wf.own.hdr.typeLen
  rw [hd.eq]
  refine ⟨hd.interned.edited.trans (Btf.edited_setTypes hd.interned.wf hd.sect hd.uncached), ?_⟩
  intro hbase hu
  apply hroom.writes hd.sect
  intro hf hclean t' ht'
  rcases mem_append.mp ht' with ht' | ht'
  · exact (hd.interned.writes hw).clean hf hclean t' ht'
  obtain ⟨t, ht, hcop⟩ := Forall₂_mem_right hd.copied ht'
  have hts := BtfType.sized_of_known (known_of_iter (hu t ht) hcop.iter) (hsz t ht)
  have hsame := hcop.sameRecord hs hw hd.interned hf (fun _ => rfl) hbase
  refine ⟨?_, fun slots hsl i hi => ?_⟩
  · rw [BtfType.Sized, BtfType.kind, BtfType.vlen, hcop.info, hcop.len]
    exact hts
  · rw [btfFieldSlots_congr .strs hcop.info] at hsl
    obtain ⟨s, -, hs'⟩ := hsame.strs slots hsl i hi
    exact ⟨s, hs'⟩

-- ======== runs

/-- The arguments are what the call can be given: a record of 32-bit
words, or an object that is in order, whose base is the destination's
if it is the destination's by address. -/
def BtfCall.Given (b : Btf) : BtfCall → Prop
  | addType _ t => t.Fits
  | addBtf src => src.Wf ∧ src.Sized
      ∧ (src.baseBtf.map (·.addr) = b.baseBtf.map (·.addr) → src.OnBaseOf b)
  | _ => True

/-- The call copies no record of kind `BTF_KIND_UNKN`. -/
def BtfCall.NoUnkn : BtfCall → Prop
  | addType _ t => t.kind ≠ .unkn
  | addBtf src => ∀ t ∈ src.types, t.kind ≠ .unkn
  | _ => True

theorem BtfCall.plain_or_copies (c : BtfCall) : c.Plain
    ∨ (∃ src t, c = addType src t) ∨ ∃ src, c = addBtf src := by
  cases c with
  | addType src t => exact Or.inr (Or.inl ⟨src, t, rfl⟩)
  | addBtf src => exact Or.inr (Or.inr ⟨src, rfl⟩)
  | _ => exact Or.inl trivial

/-- Every call edits. -/
theorem BtfCall.edited (c : BtfCall) (hw : b.Wf) (hg : c.Given b) : b.Edited (after (c.run b)) := by
  rcases c.plain_or_copies with hp | ⟨src, t, rfl⟩ | ⟨src, rfl⟩
  · exact (c.writes_of_plain (P := fun _ => True) hp b hw trivial).edited
  · exact (Btf.addType_writes hw hg).1
  · exact (Btf.addBtf_writes hw hg.1 hg.2.1).1

/-- Every call that copies no record of the unknown kind writes. -/
theorem BtfCall.writes (c : BtfCall) (hw : b.Wf) (hg : c.Given b)
    (hu : c.NoUnkn) : b.Writes (after (c.run b)) := by
  rcases c.plain_or_copies with hp | ⟨src, t, rfl⟩ | ⟨src, rfl⟩
  · exact c.writes_of_plain (P := fun _ => True) hp b hw trivial
  · exact (Btf.addType_writes hw hg).2 hu
  · by_cases hbase : src.OnBaseOf b
    · exact (Btf.addBtf_writes hw hg.1 hg.2.1).2 hbase hu
    -- another base: refused
    have hne : src.baseBtf.isSome ∧ src.baseBtf.map (·.addr) ≠ b.baseBtf.map (·.addr) := by
      refine ⟨?_, fun he => hbase (hg.2.2 he)⟩
      cases hsb : src.baseBtf with
      | none => exact absurd (Or.inl hsb) hbase
      | some c => rfl
    have hr : Btf.addBtf src b = .error (.err (-EOPNOTSUPP)) b := by
      rw [Btf.addBtf_eq, if_pos hne]
    show b.Writes (after (Btf.addBtf src b))
    rw [hr]
    exact Btf.Writes.refl hw

/-- The call comes back, with a value or a code. -/
def BtfCall.Returns (c : BtfCall) (b b' : Btf) : Prop :=
  (∃ v, c.run b = .ok v b') ∨ ∃ code, c.run b = .error (.err code) b'

/-- The object `b'` that a sequence of calls makes of `b`. -/
inductive BtfCalls : Btf → List BtfCall → Btf → Prop
  | done (b : Btf) : BtfCalls b [] b
  | step {b b' b'' : Btf} {c : BtfCall} {cs : List BtfCall}
      (hg : c.Given b) (hc : c.Returns b b') (hcs : BtfCalls b' cs b'') :
      BtfCalls b (c :: cs) b''

theorem BtfCall.Returns.after {c : BtfCall} (h : c.Returns b b') : Lib.after (c.run b) = b' := by
  rcases h with ⟨v, h⟩ | ⟨code, h⟩
  · rw [h]
    rfl
  · rw [h]
    rfl

/-- A whole run without records of the unknown kind writes. -/
theorem BtfCalls.writes (h : BtfCalls b cs b')
    (hu : ∀ c ∈ cs, c.NoUnkn) (hw : b.Wf) : b.Writes b' := by
  induction h with
  | done b => exact Btf.Writes.refl hw
  | step hg hc _ ih =>
    have he := BtfCall.writes _ hw hg (hu _ mem_cons_self)
    rw [hc.after] at he
    exact he.trans hw (ih (fun c hc => hu c (mem_cons_of_mem _ hc)) he.edited.wf)

end Libbpf
