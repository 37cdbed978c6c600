/-
Struct members as they were added.

`btf__add_field` writes the offset and the size of a member into one word,
and how that word is read depends on a flag of the whole struct, which the
first bitfield sets. `membersAsked` is what a sequence of calls asked for,
struct by struct; `HoldsMembers` says what words a struct then has, and
that is kept by each call (`calls_membersInv`). What the words read back
as is a matter of arithmetic (`reads_iff`): a member that is no bitfield
may have an offset that reaches into the bits of the size.
-/
import Mathlib.Data.Nat.Bitwise
import Libbpf.Btf.Calls
import Libbpf.Core.Type

namespace Libbpf

open Lib List

variable {f : Nat × Nat} {j : Nat} {name : CStr}

-- ======== what is asked for

/-- Add a member to the last struct, if there is one. -/
def addToLast (gs : List (List (Nat × Nat))) (f : Nat × Nat) : List (List (Nat × Nat)) :=
  match gs.getLast? with
  | none => []
  | some g => gs.dropLast ++ [g ++ [f]]

/-- The members of a struct stay what they are, and may get more. -/
theorem addToLast_grows {gs : List (List (Nat × Nat))} {g : List (Nat × Nat)}
    (f : Nat × Nat) (h : gs[j]? = some g) : ∃ more, (addToLast gs f)[j]? = some (g ++ more) := by
  unfold addToLast
  rcases eq_nil_or_concat gs with rfl | ⟨gs, g', rfl⟩
  · cases h
  rw [concat_eq_append] at h ⊢
  rw [getLast?_concat, dropLast_concat]
  by_cases hold : j < gs.length
  · rw [getElem?_append_left hold] at h
    refine ⟨[], ?_⟩
    rw [getElem?_append_left hold, append_nil]
    exact h
  rw [getElem?_append_right (Nat.le_of_not_lt hold), getElem?_singleton] at h
  rw [getElem?_append_right (Nat.le_of_not_lt hold), getElem?_singleton]
  split at h
  · next h0 =>
      cases h
      rw [if_pos h0]
      exact ⟨[f], rfl⟩
  · cases h

/-- One call, on the bit offsets and sizes asked for so far. -/
def askOne (gs : List (List (Nat × Nat))) : BtfCall → List (List (Nat × Nat))
  | .addStruct _ _ => gs ++ [[]]
  | .addUnion _ _ => gs ++ [[]]
  | .addField _ _ bitOffset bitSize => addToLast gs (bitOffset.toNat, bitSize.toNat)
  | _ => gs

/-- The bit offsets and sizes of the members asked for, for each struct and
union that is added. -/
def membersAsked (cs : List BtfCall) : List (List (Nat × Nat)) := cs.foldl askOne []

theorem asked_grows : ∀ (cs : List BtfCall) {gs : List (List (Nat × Nat))}
    {g : List (Nat × Nat)}, gs[j]? = some g →
    ∃ more, (cs.foldl askOne gs)[j]? = some (g ++ more)
  | [], gs, g, h => ⟨[], by rw [append_nil]; exact h⟩
  | c :: cs, gs, g, h => by
    have hone : ∃ more, (askOne gs c)[j]? = some (g ++ more) := by
      have hlt := (List.getElem?_eq_some_iff.mp h).1
      have hsame : ∃ more, gs[j]? = some (g ++ more) := ⟨[], by rw [append_nil, h]⟩
      have hnew : ∃ more, (gs ++ [[]])[j]? = some (g ++ more) :=
        ⟨[], by rw [getElem?_append_left hlt, append_nil, h]⟩
      cases c with
      | addStruct _ _ => exact hnew
      | addUnion _ _ => exact hnew
      | addField _ _ off sz => exact addToLast_grows _ h
      | _ => exact hsame
    obtain ⟨more, hone⟩ := hone
    obtain ⟨more', hrest⟩ := asked_grows cs hone
    exact ⟨more ++ more', by rw [← append_assoc]; exact hrest⟩

/-- A struct, a union or a member is added. -/
def BtfCall.addsMembers : BtfCall → Bool
  | .addStruct _ _ | .addUnion _ _ | .addField _ _ _ _ => true
  | _ => false

/-- A sequence of calls that all succeed. -/
inductive AllSucceed : Btf → List BtfCall → Btf → Prop
  | done (b : Btf) : AllSucceed b [] b
  | step {b b' b'' : Btf} {c : BtfCall} {cs : List BtfCall} {v : Nat}
      (hc : c.run b = .ok v b') (hcs : AllSucceed b' cs b'') : AllSucceed b (c :: cs) b''

/-- The object a sequence of calls makes, if they all succeed. -/
def succeedAll : List BtfCall → Btf → Option Btf
  | [], b => some b
  | c :: cs, b =>
    match c.run b with
    | .ok _ b' => succeedAll cs b'
    | .error _ _ => none

theorem allSucceed_of_eq_some : ∀ {cs : List BtfCall} {b b' : Btf},
    succeedAll cs b = some b' → AllSucceed b cs b'
  | [], b, b', h => by
    cases h
    exact .done b
  | c :: cs, b, b', h => by
    unfold succeedAll at h
    split at h
    · next hc => exact .step hc (allSucceed_of_eq_some h)
    · cases h

/-- Member `i` reads back as it was asked for. -/
def ReadsAs (t : BtfType) (i : Nat) (f : Nat × Nat) : Prop :=
  ∃ m, t.member? i = some m ∧ btfMemberBitOffset t m = f.1 ∧ btfMemberBitfieldSize t m = f.2

-- ======== what is held

/-- The third word of a member. -/
def memberWord (f : Nat × Nat) : Nat := f.1 ||| f.2 * 2 ^ 24 % 2 ^ 32

/-- What `btf__add_field` lets through. -/
def GoodField (f : Nat × Nat) : Prop :=
  f.1 < 2 ^ 32 ∧ (f.2 ≠ 0 → f.2 ≤ 255 ∧ f.1 < 2 ^ 24)

/-- The record of a struct with the members `g`. -/
structure HoldsMembers (t : BtfType) (g : List (Nat × Nat)) : Prop where
  kind : t.kind = .struct ∨ t.kind = .union
  vlen : t.vlen = g.length
  rest : t.rest.length = 3 * g.length
  word : ∀ i f, g[i]? = some f → t.rest[3 * i + 2]? = some (memberWord f)
  kflag : t.kflag = g.any fun f => f.2 != 0
  good : ∀ f ∈ g, GoodField f

theorem memberWord_plain (h : f.2 = 0) : memberWord f = f.1 := by
  unfold memberWord
  rw [h]
  simp

theorem memberWord_small (h : f.1 < 2 ^ 24) (hsz : f.2 ≤ 255) :
    memberWord f = f.1 + 2 ^ 24 * f.2 := by
  unfold memberWord
  rw [Nat.mod_eq_of_lt (by omega), Nat.mul_comm, Nat.lor_comm,
    ← Nat.two_pow_add_eq_or_of_lt h, Nat.add_comm]

section

variable {t : BtfType} {g : List (Nat × Nat)}

/-- A member and its third word. -/
theorem HoldsMembers.member (h : HoldsMembers t g) {i : Nat}
    (hi : g[i]? = some f) : ∃ m, t.member? i = some m ∧ m.offset = memberWord f := by
  have hlt : i < g.length := (List.getElem?_eq_some_iff.mp hi).1
  have hrest := h.rest
  have h0 : 3 * i < t.rest.length := by omega
  have h1 : 3 * i + 1 < t.rest.length := by omega
  unfold BtfType.member?
  rw [getElem?_eq_getElem h0, getElem?_eq_getElem h1, h.word i f hi]
  exact ⟨_, rfl, rfl⟩

/-- All members read back exactly if there is no bitfield, or every offset
leaves the bits of the size alone. -/
theorem HoldsMembers.reads_iff (h : HoldsMembers t g) : (∀ i f, g[i]? = some f → ReadsAs t i f)
      ↔ (∀ f ∈ g, f.2 = 0) ∨ ∀ f ∈ g, f.1 < 2 ^ 24 := by
  by_cases hplain : ∀ f ∈ g, f.2 = 0
  · refine iff_of_true (fun i f hi => ?_) (.inl hplain)
    have hmem := mem_of_getElem? hi
    have hflag : t.kflag = false := by
      rw [h.kflag, any_eq_false]
      intro f hf
      simp [hplain f hf]
    obtain ⟨m, hm, hoff⟩ := h.member hi
    refine ⟨m, hm, ?_, ?_⟩
    · unfold btfMemberBitOffset
      rw [if_neg (by simp [hflag]), hoff, memberWord_plain (hplain f hmem)]
    · unfold btfMemberBitfieldSize
      rw [if_neg (by simp [hflag]), hplain f hmem]
  · rw [or_iff_right hplain]
    have hflag : t.kflag = true := by
      rw [h.kflag, any_eq_true]
      push Not at hplain
      obtain ⟨f, hf, hne⟩ := hplain
      exact ⟨f, hf, by simpa using hne⟩
    have hreads : ∀ i f, g[i]? = some f → (ReadsAs t i f ↔ f.1 < 2 ^ 24) := by
      intro i f hi
      obtain ⟨m, hm, hoff⟩ := h.member hi
      have hgood := h.good f (mem_of_getElem? hi)
      have hsize : f.1 < 2 ^ 24 → f.2 ≤ 255 := by
        intro _
        by_cases h0 : f.2 = 0
        · omega
        · exact (hgood.2 h0).1
      constructor
      · rintro ⟨m', hm', hbit, -⟩
        cases hm.symm.trans hm'
        unfold btfMemberBitOffset at hbit
        rw [if_pos hflag] at hbit
        omega
      · intro hlt
        have hword := hoff.trans (memberWord_small hlt (hsize hlt))
        refine ⟨m, hm, ?_, ?_⟩
        · unfold btfMemberBitOffset
          rw [if_pos hflag, hword]
          omega
        · unfold btfMemberBitfieldSize
          rw [if_pos hflag, hword]
          omega
    constructor
    · intro hall f hf
      obtain ⟨i, hi⟩ := getElem?_of_mem hf
      exact (hreads i f hi).mp (hall i f hi)
    · intro hall i f hi
      exact (hreads i f hi).mpr (hall f (mem_of_getElem? hi))

end

/-- A struct with one member more. -/
theorem HoldsMembers.add {t : BtfType} {g : List (Nat × Nat)} (h : HoldsMembers t g)
    (hlt : t.vlen + 1 < 2 ^ 24) (hf : GoodField f) (x y : Nat) :
    HoldsMembers (t.addElem (btfTypeInfo t.kind (t.vlen + 1) (f.2 != 0 || t.kflag))
      [x, y, memberWord f]) (g ++ [f]) := by
  have hknown : t.kind.known = true := by rcases h.kind with hk | hk <;> rw [hk] <;> rfl
  have hi : (t.addElem (btfTypeInfo t.kind (t.vlen + 1) (f.2 != 0 || t.kflag))
      [x, y, memberWord f]).info = btfTypeInfo t.kind (t.vlen + 1) (f.2 != 0 || t.kflag) := rfl
  obtain ⟨hkind, hvlen, -⟩ := btfTypeInfo_spec hknown hlt hi
  have hlen : t.rest.length = 3 * g.length := h.rest
  refine ⟨by rw [hkind]; exact h.kind, ?_, ?_, fun i f' hi' => ?_, ?_, fun f' hf' => ?_⟩
  · rw [hvlen, h.vlen, length_append]
    rfl
  · unfold BtfType.addElem
    rw [length_append, length_append, hlen]
    simp only [length_cons, length_nil]
    omega
  · unfold BtfType.addElem
    dsimp only
    by_cases hold : i < g.length
    · rw [getElem?_append_left hold] at hi'
      rw [getElem?_append_left (by omega)]
      exact h.word i f' hi'
    have hlast : i = g.length := by
      have := (List.getElem?_eq_some_iff.mp hi').1
      rw [length_append] at this
      simp only [length_cons, length_nil] at this
      omega
    subst hlast
    rw [getElem?_append_right (Nat.le_refl _), Nat.sub_self] at hi'
    cases hi'
    rw [getElem?_append_right (by omega), hlen, Nat.add_sub_cancel_left]
    rfl
  · rw [btfTypeInfo_kflag hknown hlt hi, h.kflag, any_append, Bool.or_comm]
    simp
  · rcases mem_append.mp hf' with hf' | hf'
    · exact h.good f' hf'
    · rw [mem_singleton.mp hf']
      exact hf

-- ======== the calls

section

variable {b b' : Btf} {v : Nat}

theorem run_check_bind {α : Type} {c : Prop} [Decidable c] {code : Int} {k : Unit → Run Btf α}
    {a : α} (h : (check c code >>= k) b = .ok a b') : ¬ c ∧ k () b = .ok a b' := by
  rw [run_bind, check_eq] at h
  by_cases hc : c
  · rw [if_pos hc] at h
    cases h
  · rw [if_neg hc] at h
    exact ⟨hc, h⟩

/-- A struct or union is appended, with no members. -/
theorem addComposite_ok (hw : b.Wf) {kind : BtfKind} (hk : kind = .struct ∨ kind = .union)
    {sz : UInt32} (h : btfAddComposite kind name sz b = .ok v b') :
    b'.startId = b.startId ∧ ∃ t, b'.types = b.types ++ [t] ∧ HoldsMembers t [] := by
  have hinfo : InfoOf kind 0 ([] : List Nat).length (btfTypeInfo kind 0 false) :=
    ⟨⟨false, rfl⟩, by decide, by rcases hk with rfl | rfl <;> rfl⟩
  have hknown : kind.known = true := by rcases hk with rfl | rfl <;> rfl
  rcases btfAddTypeRec_cases hw name hinfo sz.toNat_lt (fun w hw => by cases hw) with
    ⟨e, b₁, he, -⟩ | ⟨off, b₁, res, hp, -, he⟩
  · cases he.symm.trans h
  obtain ⟨-, rfl⟩ := outcome_eq_ok.mp (he.symm.trans h)
  refine ⟨hp.interned.startId, _, by rw [← hp.interned.types]; rfl, ?_⟩
  have hi : (⟨off, btfTypeInfo kind 0 false, sz.toNat, []⟩ : BtfType).info
      = btfTypeInfo kind 0 false := rfl
  obtain ⟨hkind, hvlen, -⟩ := btfTypeInfo_spec hknown (by decide) hi
  exact ⟨by rw [hkind]; exact hk, hvlen, rfl, fun i f hi => (by cases hi),
    btfTypeInfo_kflag hknown (by decide) hi, fun f hf => (by cases hf)⟩

/-- The last record gets an element. -/
theorem appendElem_ok (hw : b.Wf) {t : BtfType} (hlast : b.Last t) {n : Nat}
    {elem : Nat → List Nat} {newInfo : BtfType → Res Nat}
    (h : btfAppendElem name n elem newInfo b = .ok v b') :
    b'.startId = b.startId ∧ ∃ off info, newInfo t = .ok info
      ∧ b'.types = b.types.dropLast ++ [t.addElem info (elem off)] := by
  rcases prologue_cases hw (4 * n) name (fun off => do
      let t ← btfLastType
      let info ← liftRes (newInfo t)
      let btf ← get
      let t' := { t with info, rest := t.rest ++ elem off }
      set (btfHdrUpdateTypeLen (btf.hdr.typeLen + 4 * n)
        { btf with types := btf.types.dropLast ++ [t'] })
      return 0) with ⟨e, b₁, hrun, -⟩ | ⟨off, b₁, hrun, hp⟩
  · cases Eq.trans (Eq.symm hrun) h
  have hlast' : b₁.Last t := by
    rw [Btf.Last, hp.interned.types]
    exact hlast
  have h := Eq.trans (Eq.symm hrun) h
  rw [run_bind, btfLastType_of_last hp.interned.wf hlast'] at h
  dsimp only at h
  rw [run_bind] at h
  cases hinfo : newInfo t with
  | error e =>
    rw [hinfo, liftRes_error] at h
    cases h
  | ok info =>
    rw [hinfo, liftRes_ok] at h
    cases h
    exact ⟨hp.interned.startId, off, info, rfl, by rw [← hp.interned.types]; rfl⟩

/-- A call that needs a last record of some kind has one. -/
theorem checkLast_ok (hw : b.Wf) {α : Type} {kinds : List BtfKind} {k : BtfType → Run Btf α}
    {a : α} (h : (btfCheckLast kinds >>= k) b = .ok a b') :
    ∃ t, b.Last t ∧ t.kind ∈ kinds ∧ k t b = .ok a b' := by
  rw [btfCheckLast, bind_assoc, run_bind, run_get] at h
  dsimp only at h
  rw [bind_assoc] at h
  obtain ⟨h0, h⟩ := run_check_bind h
  have hne : b.types ≠ [] := by
    intro hnil
    rw [hw.own.types.nrTypes, hnil] at h0
    exact h0 rfl
  have hlast : b.Last (b.types.getLast hne) := getLast?_eq_getLast_of_ne_nil hne
  rw [bind_assoc, run_bind, btfLastType_of_last hw hlast] at h
  dsimp only at h
  rw [bind_assoc] at h
  obtain ⟨hk, h⟩ := run_check_bind h
  exact ⟨_, hlast, not_not.mp hk, h⟩

/-- A member is appended to the last record, which is a struct or union. -/
theorem addField_ok (hw : b.Wf) {typeId : Int32} {off sz : UInt32}
    (h : Btf.addField name typeId off sz b = .ok v b') :
    b'.startId = b.startId ∧ ∃ t t', b.Last t ∧ b'.types = b.types.dropLast ++ [t']
      ∧ ∀ g, HoldsMembers t g → HoldsMembers t' (g ++ [(off.toNat, sz.toNat)]) := by
  obtain ⟨t, hlast, hk, h⟩ := checkLast_ok hw h
  obtain ⟨hvlen, h⟩ := run_check_bind h
  obtain ⟨-, h⟩ := run_check_bind h
  obtain ⟨hbits, h⟩ := run_check_bind h
  obtain ⟨-, h⟩ := run_check_bind h
  obtain ⟨hstart, nameOff, info, hinfo, htypes⟩ := appendElem_ok hw hlast h
  refine ⟨hstart, t, _, hlast, htypes, fun g hg => ?_⟩
  have hlt : t.vlen + 1 < 2 ^ 24 := by
    have : t.vlen < 2 ^ 24 := Nat.mod_lt _ (Nat.two_pow_pos 24)
    unfold BTF_MAX_VLEN at hvlen
    omega
  have hoff : off.toNat < 2 ^ 32 := off.toNat_lt
  -- only a member with a size passes for a bitfield
  have hflag : decide (sz.toNat ≠ 0 ∨ off.toNat % 8 ≠ 0) = (sz.toNat != 0) := by
    by_cases hsz : sz.toNat = 0
    · simp only [hsz, decide_eq_true_eq] at hbits ⊢
      simp at hbits ⊢
      exact hbits
    · simp [hsz]
  have hgood : GoodField (off.toNat, sz.toNat) := by
    refine ⟨hoff, fun hsz => ?_⟩
    simp only [decide_eq_true_eq] at hbits
    dsimp only at hsz ⊢
    omega
  have hadd := hg.add hlt hgood nameOff typeId.toInt.toNat
  dsimp only at hadd
  rw [← hflag] at hadd
  cases hinfo
  exact hadd

end

-- ======== the run

/-- After the calls there are as many own records as before, and one more
for each struct and union that was added, which holds its members. -/
structure MembersInv (b₀ b : Btf) (gs : List (List (Nat × Nat))) : Prop where
  wf : b.Wf
  startId : b.startId = b₀.startId
  length : b.types.length = b₀.types.length + gs.length
  held : ∀ j g, gs[j]? = some g → ∃ t, b.types[b₀.types.length + j]? = some t ∧ HoldsMembers t g

section

variable {b₀ b b' : Btf} {gs : List (List (Nat × Nat))}

theorem MembersInv.addComposite (h : MembersInv b₀ b gs) (hwf : b'.Wf)
    (hstart : b'.startId = b.startId) {t : BtfType}
    (htypes : b'.types = b.types ++ [t]) (ht : HoldsMembers t []) :
    MembersInv b₀ b' (gs ++ [[]]) := by
  refine ⟨hwf, hstart.trans h.startId, ?_, fun j g hj => ?_⟩
  · rw [htypes, length_append, length_append, h.length]
    rfl
  · rw [htypes]
    by_cases hold : j < gs.length
    · rw [getElem?_append_left hold] at hj
      rw [getElem?_append_left (by rw [h.length]; omega)]
      exact h.held j g hj
    rw [getElem?_append_right (Nat.le_of_not_lt hold), getElem?_singleton] at hj
    split at hj
    · next h0 =>
        cases hj
        have hpos : b₀.types.length + j = b.types.length := by
          rw [h.length]
          omega
        rw [hpos, getElem?_concat_length]
        exact ⟨t, rfl, ht⟩
    · cases hj

theorem MembersInv.addField (h : MembersInv b₀ b gs) (hwf : b'.Wf)
    (hstart : b'.startId = b.startId) {t t' : BtfType} (hlast : b.Last t)
    (htypes : b'.types = b.types.dropLast ++ [t'])
    (ht : ∀ g, HoldsMembers t g → HoldsMembers t' (g ++ [f])) :
    MembersInv b₀ b' (addToLast gs f) := by
  have hlen : b'.types.length = b.types.length := by
    conv => rhs; rw [hlast.split]
    rw [htypes, length_append, length_append]
    rfl
  unfold addToLast
  rcases eq_nil_or_concat gs with rfl | ⟨gs, g, rfl⟩
  · -- the member goes to a record that was there before
    exact ⟨hwf, hstart.trans h.startId, hlen.trans h.length, fun j g hj => (by cases hj)⟩
  rw [concat_eq_append] at h ⊢
  rw [getLast?_concat, dropLast_concat]
  have hcount : b.types.length = b₀.types.length + gs.length + 1 := by
    rw [h.length, length_append]
    rfl
  refine ⟨hwf, hstart.trans h.startId, ?_, fun j g' hj => ?_⟩
  · rw [hlen, h.length, length_append, length_append]
    rfl
  · rw [htypes]
    by_cases hold : j < gs.length
    · rw [getElem?_append_left hold] at hj
      obtain ⟨u, hu, hg⟩ := h.held j g' (by rw [getElem?_append_left hold]; exact hj)
      refine ⟨u, ?_, hg⟩
      rw [getElem?_append_left (by rw [length_dropLast]; omega),
        getElem?_dropLast, if_pos (by omega)]
      exact hu
    · rw [getElem?_append_right (Nat.le_of_not_lt hold), getElem?_singleton] at hj
      split at hj
      · next h0 =>
          cases hj
          have hj : j = gs.length := by omega
          subst hj
          have hpos : b₀.types.length + gs.length = b.types.dropLast.length := by
            rw [length_dropLast]
            omega
          obtain ⟨u, hu, hg⟩ := h.held gs.length g getElem?_concat_length
          have hsame : t = u := by
            rw [Btf.Last, getLast?_eq_getElem?, hcount] at hlast
            exact Option.some.inj (hlast.symm.trans hu)
          rw [hpos, getElem?_concat_length]
          refine ⟨t', rfl, ht g ?_⟩
          rw [hsame]
          exact hg
      · cases hj

/-- One call. -/
theorem call_membersInv {c : BtfCall} {v : Nat} (hc : c.addsMembers = true)
    (h : MembersInv b₀ b gs) (hrun : c.run b = .ok v b') : MembersInv b₀ b' (askOne gs c) := by
  have hplain : c.Plain := by
    cases c <;> trivial
  have hwf : b'.Wf := by
    have hwrites := c.writes_of_plain (P := fun _ => True) hplain b h.wf trivial
    rw [hrun] at hwrites
    exact hwrites.edited.wf
  cases c with
  | addStruct name sz =>
    obtain ⟨hstart, t, htypes, ht⟩ := addComposite_ok h.wf (.inl rfl) hrun
    exact h.addComposite hwf hstart htypes ht
  | addUnion name sz =>
    obtain ⟨hstart, t, htypes, ht⟩ := addComposite_ok h.wf (.inr rfl) hrun
    exact h.addComposite hwf hstart htypes ht
  | addField name typeId off sz =>
    obtain ⟨hstart, t, t', hlast, htypes, ht⟩ := addField_ok h.wf hrun
    exact h.addField hwf hstart hlast htypes ht
  | _ => cases hc

/-- A run of calls. -/
theorem calls_membersInv {cs : List BtfCall} (hcs : ∀ c ∈ cs, c.addsMembers = true)
    (hrun : AllSucceed b cs b') (h : MembersInv b₀ b gs) :
    MembersInv b₀ b' (cs.foldl askOne gs) := by
  induction hrun generalizing gs with
  | done b => exact h
  | step hc _ ih =>
    exact ih (fun c hmem => hcs c (mem_cons_of_mem _ hmem))
      (call_membersInv (hcs _ mem_cons_self) h hc)

/-- The record of struct `j`. -/
theorem MembersInv.typeById (h : MembersInv b₀ b gs) (hw : b₀.Wf)
    {g : List (Nat × Nat)} (hj : gs[j]? = some g) :
    ∃ t, btfTypeById b (b₀.typeCnt + j) = some t ∧ HoldsMembers t g := by
  obtain ⟨t, ht, hg⟩ := h.held j g hj
  refine ⟨t, ?_, hg⟩
  have hpos := hw.startId_pos
  have hcnt := hw.own.typeCnt
  have hstart := h.startId
  rw [btfTypeById_own h.wf.own.types (by omega) (by omega)]
  have hidx : b₀.typeCnt + j - b.startId = b₀.types.length + j := by omega
  rw [hidx]
  exact ht

end

/-- Structs, unions and members added by calls that all succeed, in two
stretches. The members of a struct all read back as they were asked for
exactly if it has no bitfield, or every one of its offsets fits the 24 bits
that a struct with bitfields has for it; and then the members it had after
the first stretch read back as they did there. -/
theorem members_read_back {b₀ b₁ b : Btf} {cs₁ cs₂ : List BtfCall} (hw : b₀.Wf)
    (hcs : ∀ c ∈ cs₁ ++ cs₂, c.addsMembers = true) (h₁ : AllSucceed b₀ cs₁ b₁)
    (h₂ : AllSucceed b₁ cs₂ b) {j : Nat} {fields : List (Nat × Nat)}
    (hj : (membersAsked (cs₁ ++ cs₂))[j]? = some fields) :
    ∃ t, btfTypeById b (b₀.typeCnt + j) = some t ∧ t.isComposite = true ∧ t.vlen = fields.length
      ∧ ((∀ i f, fields[i]? = some f → ReadsAs t i f)
        ↔ (∀ f ∈ fields, f.2 = 0) ∨ ∀ f ∈ fields, f.1 < 2 ^ 24)
      ∧ ((∀ f ∈ fields, f.2 = 0) ∨ (∀ f ∈ fields, f.1 < 2 ^ 24) →
        ∀ t₁, j < (membersAsked cs₁).length → btfTypeById b₁ (b₀.typeCnt + j) = some t₁ →
          ∀ i f, i < t₁.vlen → fields[i]? = some f → ReadsAs t₁ i f ∧ ReadsAs t i f) := by
  have hstart : MembersInv b₀ b₀ [] := ⟨hw, rfl, rfl, fun j g hj => (by cases hj)⟩
  have hmid := calls_membersInv (fun c hc => hcs c (mem_append_left _ hc)) h₁ hstart
  have hend := calls_membersInv (fun c hc => hcs c (mem_append_right _ hc)) h₂ hmid
  rw [← foldl_append] at hend
  obtain ⟨t, ht, hheld⟩ := hend.typeById hw hj
  have hcomp : t.isComposite = true := by
    unfold BtfType.isComposite
    rcases hheld.kind with hk | hk <;> rw [hk] <;> rfl
  refine ⟨t, ht, hcomp, hheld.vlen, hheld.reads_iff, fun hcond t₁ hlt ht₁ i f hi hf => ?_⟩
  obtain ⟨u, hu, hheld₁⟩ := hmid.typeById hw (getElem?_eq_getElem hlt)
  cases ht₁.symm.trans hu
  -- the members so far are the first ones of those in the end
  obtain ⟨more, hmore⟩ := asked_grows cs₂ (getElem?_eq_getElem hlt)
  have hsplit : membersAsked (cs₁ ++ cs₂) = cs₂.foldl askOne (membersAsked cs₁) :=
    foldl_append
  rw [← hsplit] at hmore
  cases hj.symm.trans hmore
  have hcond₁ := Or.imp (fun h f hf => h f (mem_append_left more hf))
    (fun h f hf => h f (mem_append_left more hf)) hcond
  rw [hheld₁.vlen] at hi
  have hf₁ := hf
  rw [getElem?_append_left hi] at hf₁
  exact ⟨hheld₁.reads_iff.mpr hcond₁ i f hf₁, hheld.reads_iff.mpr hcond i f hf⟩

/-- A struct with a plain member at bit 64 and a bitfield of 3 bits behind
it. -/
theorem members_read_back_small : ∃ b₁ b t, AllSucceed (btfNewEmpty .little 0 false none)
      [.addStruct CStr.empty 16, .addField CStr.empty 0 64 0] b₁
    ∧ AllSucceed b₁ [.addField CStr.empty 0 96 3] b
    ∧ btfTypeById b 1 = some t ∧ ReadsAs t 0 (64, 0) ∧ ReadsAs t 1 (96, 3) := by
  obtain ⟨b₁, h₁⟩ := Option.isSome_iff_exists.mp (show (succeedAll
    [.addStruct CStr.empty 16, .addField CStr.empty 0 64 0]
    (btfNewEmpty .little 0 false none)).isSome = true by decide +kernel)
  have hsome : ((succeedAll [.addStruct CStr.empty 16, .addField CStr.empty 0 64 0]
      (btfNewEmpty .little 0 false none)).map fun b =>
        (succeedAll [.addField CStr.empty 0 96 3] b).isSome) = some true := by decide +kernel
  rw [h₁] at hsome
  obtain ⟨b, h⟩ := Option.isSome_iff_exists.mp (Option.some.inj hsome)
  have hw : (btfNewEmpty .little 0 false none).Wf :=
    btfNewEmpty_wf .little 0 false fun b hb => by cases hb
  have hj : (membersAsked ([.addStruct CStr.empty 16, .addField CStr.empty 0 64 0]
      ++ [.addField CStr.empty 0 96 3]))[0]? = some [(64, 0), (96, 3)] := by decide
  obtain ⟨t, ht, -, -, hiff, -⟩ := members_read_back hw (by decide)
    (allSucceed_of_eq_some h₁) (allSucceed_of_eq_some h) hj
  have hreads := hiff.mpr (.inr (by decide))
  exact ⟨b₁, b, t, allSucceed_of_eq_some h₁, allSucceed_of_eq_some h, ht,
    hreads 0 _ rfl, hreads 1 _ rfl⟩

/-- A plain member at bit 2 ^ 24 reads back as a bitfield of one bit at
offset 0 once a bitfield is added. -/
theorem members_shifted : ∃ b₁ b t₁ t, AllSucceed (btfNewEmpty .little 0 false none)
      [.addStruct CStr.empty 16, .addField CStr.empty 0 0x1000000 0] b₁
    ∧ AllSucceed b₁ [.addField CStr.empty 0 0 1] b
    ∧ btfTypeById b₁ 1 = some t₁ ∧ ReadsAs t₁ 0 (2 ^ 24, 0)
    ∧ btfTypeById b 1 = some t ∧ ReadsAs t 0 (0, 1) := by
  obtain ⟨b₁, h₁⟩ := Option.isSome_iff_exists.mp (show (succeedAll
    [.addStruct CStr.empty 16, .addField CStr.empty 0 0x1000000 0]
    (btfNewEmpty .little 0 false none)).isSome = true by decide +kernel)
  have hrun : ((succeedAll [.addStruct CStr.empty 16, .addField CStr.empty 0 0x1000000 0]
      (btfNewEmpty .little 0 false none)).map fun b =>
        (btfTypeById b 1, (succeedAll [.addField CStr.empty 0 0 1] b).map fun b => btfTypeById b 1))
      = some (some ⟨0, btfTypeInfo .struct 1 false, 16, [0, 0, 2 ^ 24]⟩,
        some (some ⟨0, btfTypeInfo .struct 2 true, 16, [0, 0, 2 ^ 24, 0, 0, 2 ^ 24]⟩)) := by
    decide +kernel
  rw [h₁] at hrun
  obtain ⟨ht₁, hrun⟩ := Prod.mk.inj (Option.some.inj hrun)
  obtain ⟨b, h, ht⟩ := Option.map_eq_some_iff.mp hrun
  exact ⟨b₁, b, _, _, allSucceed_of_eq_some h₁, allSucceed_of_eq_some h, ht₁,
    ⟨_, rfl, by decide, by decide⟩, ht, ⟨_, rfl, by decide, by decide⟩⟩

end Libbpf
