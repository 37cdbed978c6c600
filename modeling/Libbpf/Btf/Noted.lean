/-
The calls that change an object clear its note.

`btf_ensure_modifiable` clears `named_start_id`, and each call that changes
types or strings goes through it first. `Quiets` says what that comes to. It
composes, so a call quiets when its steps do; the steps behind
`btf_ensure_modifiable` need only keep the note cleared (`Cleared`).
-/
import Libbpf.Btf.Calls

namespace Libbpf

open Lib

/-- At each level the own part is as it was, or the note is cleared. -/
inductive Btf.Quiets : Btf → Btf → Prop
  | root {o o' : BtfOwn} (own : o' = o ∨ o'.namedStartId = 0) : Btf.Quiets ⟨o, none⟩ ⟨o', none⟩
  | split {o o' : BtfOwn} {c c' : Btf} (own : o' = o ∨ o'.namedStartId = 0)
      (base : Btf.Quiets c c') : Btf.Quiets ⟨o, some c⟩ ⟨o', some c'⟩

/-- The same of the bases. -/
def BaseQuiets : Option Btf → Option Btf → Prop
  | none, none => True
  | some c, some c' => c.Quiets c'
  | _, _ => False

theorem Btf.quiets_iff {b b' : Btf} : b.Quiets b' ↔
    (b'.toBtfOwn = b.toBtfOwn ∨ b'.namedStartId = 0) ∧ BaseQuiets b.baseBtf b'.baseBtf := by
  constructor
  · intro h
    cases h with
    | root own => exact ⟨own, trivial⟩
    | split own base => exact ⟨own, base⟩
  · intro h
    obtain ⟨o, base⟩ := b
    obtain ⟨o', base'⟩ := b'
    obtain ⟨hown, hbase⟩ := h
    match base, base', hbase with
    | none, none, _ => exact .root hown
    | some c, some c', hbase => exact .split hown hbase

theorem Btf.Quiets.refl (b : Btf) : b.Quiets b := by
  induction b using Btf.induct with
  | h own base ih =>
    cases base with
    | none => exact .root (Or.inl rfl)
    | some c => exact .split (Or.inl rfl) (ih c rfl)

theorem Btf.Quiets.trans {b b' b'' : Btf} (h : b.Quiets b') (h' : b'.Quiets b'') :
    b.Quiets b'' := by
  have hown : ∀ {o o' o'' : BtfOwn}, (o' = o ∨ o'.namedStartId = 0) →
      (o'' = o' ∨ o''.namedStartId = 0) → o'' = o ∨ o''.namedStartId = 0 := by
    rintro o o' o'' h (rfl | h')
    · exact h
    · exact Or.inr h'
  induction h generalizing b'' with
  | root own =>
    cases h' with
    | root own' => exact .root (hown own own')
  | split own base ih =>
    cases h' with
    | split own' base' => exact .split (hown own own') (ih base')

theorem BaseQuiets.refl (base : Option Btf) : BaseQuiets base base := by
  cases base with
  | none => trivial
  | some c => exact Btf.Quiets.refl c

theorem BaseQuiets.trans {x y z : Option Btf} (h : BaseQuiets x y) (h' : BaseQuiets y z) :
    BaseQuiets x z := by
  match x, y, z, h, h' with
  | none, none, none, _, _ => trivial
  | some _, some _, some _, h, h' => exact Btf.Quiets.trans h h'

/-- The note is cleared, and the bases are quieted. -/
structure Btf.Cleared (b b' : Btf) : Prop where
  note : b'.namedStartId = 0
  base : BaseQuiets b.baseBtf b'.baseBtf

theorem Btf.Cleared.quiets {b b' : Btf} (h : b.Cleared b') : b.Quiets b' :=
  Btf.quiets_iff.mpr ⟨Or.inr h.note, h.base⟩

theorem Btf.Cleared.next {b b' b'' : Btf} (h : b.Cleared b') (hq : b'.Quiets b'') :
    b.Cleared b'' := by
  obtain ⟨hown, hbase⟩ := Btf.quiets_iff.mp hq
  refine ⟨?_, h.base.trans hbase⟩
  rcases hown with hown | hnote
  · rw [hown]
    exact h.note
  · exact hnote

-- ======== rules

/-- However the run ends, it quiets. -/
def Quieter {α : Type} (m : Run Btf α) : Prop := ∀ b : Btf, b.Quiets (after (m b))

section

variable {α β : Type} {m : Run Btf α}

theorem quieter_bind {k : α → Run Btf β} (hm : Quieter m) (hk : ∀ a, Quieter (k a)) :
    Quieter (m >>= k) := by
  intro b
  apply keeps_bind (P := b.Quiets) _ _ b (.refl b)
  · exact fun s hs => hs.trans (hm s)
  · exact fun a s hs => hs.trans (hk a s)

/-- A check of the arguments comes first. -/
theorem quieter_check {c : Prop} [Decidable c] {code : Int} {k : Unit → Run Btf β}
    (hk : Quieter (k ())) : Quieter (check c code >>= k) :=
  quieter_bind (fun b => keeps_liftRes (P := b.Quiets) _ b (.refl b)) fun _ => hk

theorem keeps_lastType {P : Btf → Prop} : Keeps P btfLastType :=
  keeps_bind keeps_get fun _ => keeps_liftRes _

theorem quieter_checkLast {kinds : List BtfKind} {k : BtfType → Run Btf β}
    (hk : ∀ t, Quieter (k t)) : Quieter (btfCheckLast kinds >>= k) := by
  refine quieter_bind (fun b => ?_) hk
  have hkeep : Keeps b.Quiets (btfCheckLast kinds) :=
    keeps_bind keeps_get fun _ => keeps_bind (keeps_liftRes _) fun _ =>
      keeps_bind keeps_lastType fun _ => keeps_bind (keeps_liftRes _) fun _ => keeps_pure _
  exact hkeep b (.refl b)

/-- Behind `btf_ensure_modifiable` the note is cleared. -/
theorem quieter_modifiable {k : Unit → Run Btf β} (hk : ∀ b : Btf, Keeps b.Cleared (k ())) :
    Quieter (btfEnsureModifiable >>= k) := by
  intro b
  rw [run_bind, btfEnsureModifiable_eq]
  cases b.sealed with
  | true => exact .refl b
  | false => exact (hk b b.opened ⟨rfl, .refl _⟩).quiets

end

-- ======== the steps

theorem quieter_findStrOwn (s : CStr) : Quieter (btfFindStrOwn s) := by
  refine quieter_modifiable fun b => keeps_bind keeps_get fun btf => ?_
  cases btf.strs with
  | set ss => exact keeps_bind (keeps_liftRes _) fun off => keeps_liftRes _
  | raw data => exact fun _ h => h

/-- The base first, then the object itself. -/
theorem quiets_base_first {m : Run Btf Nat} (hm : Quieter m) (own : BtfOwn) {c : Btf}
    {r : EStateM.Result Stop Btf Nat} (hc : c.Quiets (after r)) :
    Btf.Quiets ⟨own, some c⟩ (after (match r with
      | .error e c' => if e = .err (-ENOENT) then m ⟨own, some c'⟩ else .error e ⟨own, some c'⟩
      | .ok off c' => .ok off ⟨own, some c'⟩)) := by
  have hsplit : Btf.Quiets ⟨own, some c⟩ ⟨own, some (after r)⟩ := .split (Or.inl rfl) hc
  cases r with
  | ok off c' => exact hsplit
  | error e c' =>
    dsimp only
    split
    · exact hsplit.trans (hm _)
    · exact hsplit

/-- A lookup quiets every level it comes to. -/
theorem quieter_findStr (s : CStr) : Quieter (Btf.findStr s) := by
  intro b
  induction b using Btf.induct with
  | h own base ih =>
    rw [Btf.findStr.eq_def]
    cases base with
    | none => exact quieter_findStrOwn s ⟨own, none⟩
    | some c => exact quiets_base_first (quieter_findStrOwn s) own (ih c rfl)

theorem quieter_addStrOwn (s : CStr) : Quieter (btfAddStrOwn s) := by
  refine quieter_modifiable fun b btf h => ?_
  rw [run_bind, run_get]
  dsimp only
  cases btf.strs with
  | set ss =>
    dsimp only
    cases Strset.addStr s ss with
    | error e ss' => exact ⟨h.note, h.base⟩
    | ok off ss' => exact keeps_liftRes _ _ ⟨h.note, h.base⟩
  | raw data => exact h

theorem quieter_addStr (s : CStr) : Quieter (Btf.addStr s) := by
  intro b
  obtain ⟨own, base⟩ := b
  cases base with
  | none => exact quieter_addStrOwn s ⟨own, none⟩
  | some c => exact quiets_base_first (quieter_addStrOwn s) own (quieter_findStr s c)

section

variable {b : Btf} (name : CStr)

theorem keeps_addName : Keeps b.Cleared (btfAddName name) := by
  unfold btfAddName
  by_cases h : name = CStr.empty
  · rw [if_pos h]
    exact keeps_pure 0
  · rw [if_neg h]
    exact fun s hs => hs.next (quieter_addStr name s)

theorem keeps_addTypeMem {P : Btf → Prop} (n : Nat) : Keeps P (btfAddTypeMem n) :=
  keeps_bind keeps_get fun _ => keeps_liftRes _

theorem keeps_commitType (t : BtfType) : Keeps b.Cleared (btfCommitType t) := by
  intro btf h
  refine keeps_bind (keeps_liftRes _) (fun _ _ _ => ?_) btf h
  exact keeps_bind (keeps_liftRes _) (fun _ => keeps_pure _) _ ⟨h.note, h.base⟩

theorem quieter_addTypeRec_bind {β : Type} {k : Nat → Run Btf β} (info size : Nat)
    (rest : List Nat) (hk : ∀ id (b : Btf), Keeps b.Cleared (k id)) :
    Quieter (btfAddTypeRec name info size rest >>= k) := by
  unfold btfAddTypeRec
  simp only [bind_assoc]
  refine quieter_modifiable fun b => keeps_bind (keeps_addTypeMem _) fun _ => ?_
  exact keeps_bind (keeps_addName name) fun _ => keeps_bind (keeps_commitType _) fun id => hk id b

theorem quieter_addTypeRec (info size : Nat) (rest : List Nat) :
    Quieter (btfAddTypeRec name info size rest) := by
  rw [← bind_pure (btfAddTypeRec name info size rest)]
  exact quieter_addTypeRec_bind name info size rest fun id _ => keeps_pure id

theorem quieter_appendElem (n : Nat) (elem : Nat → List Nat) (newInfo : BtfType → Res Nat) :
    Quieter (btfAppendElem name n elem newInfo) := by
  refine quieter_modifiable fun b => keeps_bind (keeps_addTypeMem _) fun _ => ?_
  refine keeps_bind (keeps_addName name) fun nameOff => keeps_bind keeps_lastType fun t => ?_
  exact keeps_bind (keeps_liftRes _) fun info btf h => ⟨h.note, h.base⟩

theorem quieter_addRefKind (kind : BtfKind) (id : Int32) (kflag : Bool) :
    Quieter (btfAddRefKind kind name id kflag) :=
  quieter_check (quieter_addTypeRec _ _ _ _)

/-- A record whose info word is overwritten once it is added. -/
theorem quieter_addRefKindInfo (kind : BtfKind) (id : Int32) (kflag : Bool) (info : Nat) :
    Quieter (btfAddRefKind kind name id kflag >>= fun id =>
      btfSetLastInfo info >>= fun _ => pure id) := by
  unfold btfAddRefKind
  rw [bind_assoc]
  exact quieter_check (quieter_addTypeRec_bind _ _ _ _ fun id b btf h => ⟨h.note, h.base⟩)

end

-- ======== copying records

section

variable {b : Btf}

theorem keeps_onDst {α : Type} {m : Run Btf α} (hm : Keeps b.Cleared m) :
    Keeps (fun p => b.Cleared p.dst) (onDst m) := by
  intro p hp
  rw [onDst_after]
  exact hm p.dst hp

theorem keeps_rewriteSlot (src : Btf) (keep strOff : Nat) :
    Keeps (fun p => b.Cleared p.dst) (btfRewriteSlot src keep strOff) := by
  intro p hp
  unfold btfRewriteSlot btfRewriteStr
  by_cases hlow : strOff < keep
  · rw [if_pos hlow]
    exact hp
  rw [if_neg hlow]
  by_cases h0 : strOff = 0
  · rw [if_pos h0]
    exact hp
  rw [if_neg h0]
  cases p.strOffMap.bind (strOffFind · strOff) with
  | some off => exact hp
  | none =>
    cases src.strByOffset strOff with
    | none => exact hp
    | some s =>
      have hadd := hp.next (quieter_addStr s p.dst)
      dsimp only
      cases h : Btf.addStr s p.dst <;> rw [h] at hadd <;> exact hadd

theorem keeps_rewriteStrs (src : Btf) (keep : Nat) (slots : List Nat) (t : BtfType) :
    Keeps (fun p => b.Cleared p.dst) (btfRewriteStrs src keep slots t) := by
  induction slots generalizing t with
  | nil => exact keeps_pure t
  | cons i slots ih => exact keeps_bind (keeps_rewriteSlot src keep _) fun off => ih _

theorem keeps_copyAll (src : Btf) (lo hi : Nat) (ts : List BtfType) :
    Keeps (fun p => b.Cleared p.dst) (btfCopyAll src lo hi ts) := by
  induction ts with
  | nil => exact keeps_pure []
  | cons t ts ih =>
    refine keeps_bind ?_ fun t => keeps_bind ih fun ts => keeps_pure _
    exact keeps_bind (keeps_liftRes _) fun _ => keeps_bind (keeps_liftRes _) fun slots =>
      keeps_bind (keeps_rewriteStrs src _ slots t) fun t =>
        keeps_bind (keeps_liftRes _) fun slots => keeps_pure _

theorem quieter_addType (src : Btf) (t : BtfType) : Quieter (Btf.addType src t) := by
  intro b
  rw [Btf.after_addType, btfAddType, run_bind]
  cases btfTypeSize src t with
  | error e => exact .refl b
  | ok sz =>
    rw [liftRes_ok]
    dsimp only
    rw [run_bind, onDst, btfEnsureModifiable_eq]
    cases b.sealed with
    | true => exact .refl b
    | false =>
      refine Btf.Cleared.quiets (keeps_bind (P := fun p : BtfPipe => b.Cleared p.dst)
        (keeps_onDst (keeps_addTypeMem sz)) (fun _ => ?_) ⟨b.opened, none⟩ ⟨rfl, .refl _⟩)
      exact keeps_bind (keeps_liftRes _) fun t => keeps_bind (keeps_liftRes _) fun slots =>
        keeps_bind (keeps_rewriteStrs src 0 slots t) fun t => keeps_onDst (keeps_commitType t)

theorem keeps_addBtf (src : Btf) : Keeps b.Cleared (btfAddBtf src) := by
  intro btf h
  refine keeps_bind (keeps_liftRes _) (fun _ _ _ => ?_) btf h
  have hcopy := keeps_copyAll src src.copyFrom (btf.startId + btf.nrTypes) src.types
    ⟨btf, some Hashmap.init⟩ h
  unfold Btf.copyFrom at hcopy
  generalize btfCopyAll src _ _ _ _ = r at hcopy ⊢
  cases r with
  | error e p => exact ⟨hcopy.note, hcopy.base⟩
  | ok types p =>
    exact keeps_bind (keeps_liftRes _) (fun _ => keeps_pure _) _ ⟨hcopy.note, hcopy.base⟩

end

-- ======== the calls

/-- Every call quiets. -/
theorem BtfCall.quieter (c : BtfCall) : Quieter c.run := by
  cases c with
  | findStr s => exact quieter_findStr s
  | addStr s => exact quieter_addStr s
  | addInt name byteSz encoding =>
    exact quieter_check (quieter_check (quieter_check (quieter_addTypeRec _ _ _ _)))
  | addPtr id | addVolatile id | addConst id | addRestrict id =>
    exact quieter_addRefKind _ _ _ _
  | addTypedef name id | addTypeTag name id | addTypeAttr name id =>
    exact quieter_check (quieter_addRefKind _ _ _ _)
  | addFloat | addArray | addDeclTag | addDeclAttr =>
    exact quieter_check (quieter_check (quieter_addTypeRec _ _ _ _))
  | addStruct | addUnion | addLocProto => exact quieter_addTypeRec _ _ _ _
  | addEnum | addEnum64 | addFuncProto | addDatasec | addLocParam | addLocsec =>
    exact quieter_check (quieter_addTypeRec _ _ _ _)
  | addFwd name fwdKind =>
    apply quieter_check
    cases fwdKind with
    | struct | union => exact quieter_addRefKindInfo _ _ _ _ _
    | enum => exact quieter_check (quieter_addTypeRec _ _ _ _)
  | addFunc name linkage id =>
    exact quieter_check (quieter_check (quieter_addRefKindInfo _ _ _ _ _))
  | addVar name linkage id =>
    exact quieter_check (quieter_check (quieter_check (quieter_addTypeRec _ _ _ _)))
  | addField name id off sz =>
    refine quieter_checkLast fun _ => quieter_check (quieter_check ?_)
    exact quieter_check (quieter_check (quieter_appendElem _ _ _ _))
  | addEnumValue name value =>
    exact quieter_checkLast fun _ => quieter_check (quieter_check (quieter_appendElem _ _ _ _))
  | addEnum64Value | addDatasecVarInfo =>
    exact quieter_checkLast fun _ => quieter_check (quieter_appendElem _ _ _ _)
  | addFuncParam | addLocProtoParam =>
    exact quieter_check (quieter_checkLast fun _ => quieter_appendElem _ _ _ _)
  | addLocParamValue value => exact quieter_checkLast fun _ => quieter_appendElem _ _ _ _
  | addLocsecLoc func locProto offset =>
    exact quieter_check (quieter_check (quieter_checkLast fun _ => quieter_appendElem _ _ _ _))
  | addType src t => exact quieter_addType src t
  | addBtf src =>
    refine quieter_bind (fun b => .refl b) fun _ => quieter_check ?_
    exact quieter_modifiable fun _ => keeps_addBtf src

end Libbpf
