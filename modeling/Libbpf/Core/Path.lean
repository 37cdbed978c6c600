/-
What a matched target spec describes.

`CorePath` is a path through a BTF: member and element indices from a
type on, with the accessors a spec records along it (its named members
and its elements) and the bits it adds up to. `SpecPath` is a whole raw
spec: the element index at the root, and a path from there.

A search for a member either leaves the target spec as it was or extends
it by a path to that member (`matchMemberFrom_spec`), provided that the
first member of the name, in search order, is one it accepts. If it is
not, and lies inside an unnamed member, the search goes on with that
member still entered on the raw spec (`specMatch_stale_index`).
-/
import Libbpf.Btf.Validate
import Libbpf.Core.Spec
import Libbpf.Lib.Settle

namespace Libbpf

open Lib List

variable {s s' spec : CoreSpec} {root last bits next mid bits' i idx : Nat}
  {prev acc localAcc : CoreAccessor} {accs accs' : List CoreAccessor} {p q : List Nat}
  {kind : CoreReloKind} {m : BtfMember} {relo : CoreRelo}

-- ======== paths

/-- `t`, with ID `id'`, is the type behind the typedefs and modifiers at
`id`. -/
def Resolves (btf : Btf) (id : Nat) (t : BtfType) (id' : Nat) : Prop :=
  ∃ n, skipModsAndTypedefs btf n id = .ok (t, id')

/-- Where skipping ends. -/
theorem skipMods_end {btf : Btf} {t : BtfType} {id' : Nat} :
    ∀ {n id : Nat}, skipModsAndTypedefs btf n id = .ok (t, id') →
      btf.typeById id' = some t ∧ (t.isMod || t.isTypedef) = false := by
  intro n
  induction n with
  | zero => intro id h; cases h
  | succ n ih =>
    intro id h
    rw [skipModsAndTypedefs] at h
    cases hid : btf.typeById id with
    | none => rw [hid] at h; cases h
    | some u =>
      rw [hid] at h
      dsimp only at h
      by_cases hu : (u.isMod || u.isTypedef) = true
      · rw [if_pos hu] at h
        exact ih h
      · rw [if_neg hu] at h
        cases h
        exact ⟨hid, by simpa using hu⟩

/-- There is nothing left to skip. -/
theorem Resolves.again {btf : Btf} {id id' id'' : Nat} {t t' : BtfType}
    (h : Resolves btf id t id') (h' : Resolves btf id' t' id'') :
    t' = t ∧ id'' = id' := by
  obtain ⟨n, hn⟩ := h
  obtain ⟨n', hn'⟩ := h'
  obtain ⟨hid, hmod⟩ := skipMods_end hn
  cases n' with
  | zero => cases hn'
  | succ n' =>
    rw [skipModsAndTypedefs, hid] at hn'
    dsimp only at hn'
    rw [if_neg (by simp [hmod])] at hn'
    cases hn'
    exact ⟨rfl, rfl⟩

section

variable {btf : Btf} {id id' id'' : Nat} {t t' : BtfType}

theorem skip_mono {n m : Nat} (hnm : n ≤ m) (h : skipModsAndTypedefs btf n id = .ok (t, id')) :
    skipModsAndTypedefs btf m id = .ok (t, id') := by
  induction n generalizing m id with
  | zero => cases h
  | succ n ih =>
    obtain ⟨m, rfl⟩ : ∃ k, m = k + 1 := ⟨m - 1, by omega⟩
    rw [skipModsAndTypedefs] at h ⊢
    cases hid : btf.typeById id with
    | none =>
      rw [hid] at h
      cases h
    | some u =>
      rw [hid] at h
      dsimp only at h ⊢
      by_cases hu : (u.isMod || u.isTypedef) = true
      · rw [if_pos hu] at h ⊢
        exact ih (by omega) h
      · rw [if_neg hu] at h ⊢
        exact h

theorem Resolves.settles (h : Resolves btf id t id') :
    Settles (fun n => skipModsAndTypedefs btf n id) (t, id') := by
  obtain ⟨n, hn⟩ := h
  exact ⟨n, fun m hm => skip_mono hm hn⟩

/-- Two ways of skipping find the same. -/
theorem Resolves.unique (h : Resolves btf id t id') (h' : Resolves btf id t' id'') :
    t' = t ∧ id'' = id' := by
  have heq := h'.settles.unique h.settles
  exact ⟨congrArg Prod.fst heq, congrArg Prod.snd heq⟩

theorem Resolves.found (h : Resolves btf id t id') : btf.typeById id' = some t := by
  obtain ⟨n, hn⟩ := h
  exact (skipMods_end hn).1

end

/-- A path from type `id` to type `last`, after the accessor `prev`: its
indices, the accessors recorded on it, and its bits. -/
inductive CorePath (btf : Btf) : CoreAccessor → Nat → List Nat →
    List CoreAccessor → Nat → Nat → Prop
  | nil {prev : CoreAccessor} {id : Nat} : CorePath btf prev id [] [] 0 id
  | named {prev : CoreAccessor} {id id' i : Nat} {t : BtfType}
      {m : BtfMember} {p : List Nat} {accs : List CoreAccessor}
      {bits last : Nat} (ht : Resolves btf id t id')
      (hc : t.isComposite = true) (hi : i < t.vlen)
      (hm : t.member? i = some m)
      (hn : strIsEmpty (btf.strByOffset m.nameOff) = false)
      (hp : CorePath btf ⟨id', i, btf.strByOffset m.nameOff⟩ m.type p accs bits last) :
      CorePath btf prev id (i :: p) (⟨id', i, btf.strByOffset m.nameOff⟩ :: accs)
        (btfMemberBitOffset t m + bits) last
  | unnamed {prev : CoreAccessor} {id id' i : Nat} {t : BtfType}
      {m : BtfMember} {p : List Nat} {accs : List CoreAccessor}
      {bits last : Nat} (ht : Resolves btf id t id')
      (hc : t.isComposite = true) (hi : i < t.vlen)
      (hm : t.member? i = some m)
      (hn : strIsEmpty (btf.strByOffset m.nameOff) = true)
      (hp : CorePath btf prev m.type p accs bits last) :
      CorePath btf prev id (i :: p) accs (btfMemberBitOffset t m + bits) last
  | elem {prev : CoreAccessor} {id id' elemId i sz : Nat} {t et : BtfType}
      {a : BtfArray} {p : List Nat} {accs : List CoreAccessor}
      {bits last : Nat} (ht : Resolves btf id t id') (ha : t.isArray = true)
      (harr : t.array? = some a)
      (hi : isFlexArr btf prev a = .ok true ∨ i < a.nelems)
      (he : Resolves btf a.type et elemId)
      (hsz : btfResolveSize btf elemId = .ok sz)
      (hp : CorePath btf ⟨elemId, i, none⟩ elemId p accs bits last) :
      CorePath btf prev id (i :: p) (⟨elemId, i, none⟩ :: accs) (i * sz * 8 + bits) last

/-- Paths compose; the accessor before the second is the last one of the
first. -/
theorem CorePath.append {btf : Btf} {id : Nat} (h : CorePath btf prev id p accs bits mid)
    (h' : CorePath btf (accs.getLast?.getD prev) mid q accs' bits' last) :
    CorePath btf prev id (p ++ q) (accs ++ accs') (bits + bits') last := by
  induction h with
  | nil =>
    rw [Nat.zero_add]
    exact h'
  | named ht hc hi hm hn _ ih =>
    rw [Nat.add_assoc]
    exact .named ht hc hi hm hn (ih (by
      rwa [getLast?_cons] at h'))
  | unnamed ht hc hi hm hn _ ih =>
    rw [Nat.add_assoc]
    exact .unnamed ht hc hi hm hn (ih h')
  | elem ht ha harr hi he hsz _ ih =>
    rw [Nat.add_assoc]
    exact .elem ht ha harr hi he hsz (ih (by
      rwa [getLast?_cons] at h'))

/-- A raw spec, its accessors and its bits, from root type `root` on. -/
structure SpecPath (btf : Btf) (root : Nat) (raw : List Nat)
    (accs : List CoreAccessor) (bits last : Nat) : Prop where
  path : ∃ (i id sz bits' : Nat) (t : BtfType) (p : List Nat) (accs' : List CoreAccessor),
    Resolves btf root t id ∧ btfResolveSize btf id = .ok sz
      ∧ raw = i :: p ∧ accs = ⟨id, i, none⟩ :: accs'
      ∧ CorePath btf ⟨id, i, none⟩ id p accs' bits' last
      ∧ bits = i * sz * 8 + bits'

/-- A raw spec goes on where it ends. -/
theorem SpecPath.append {btf : Btf} {raw : List Nat} (h : SpecPath btf root raw accs bits mid)
    (hprev : accs.getLast? = some prev) (h' : CorePath btf prev mid q accs' bits' last) :
    SpecPath btf root (raw ++ q) (accs ++ accs') (bits + bits') last := by
  obtain ⟨i, id, sz, b, t, p, as, ht, hsz, rfl, rfl, hp, rfl⟩ := h.path
  refine ⟨i, id, sz, b + bits', t, p ++ q, as ++ accs', ht, hsz, rfl, rfl, hp.append ?_, by omega⟩
  rw [getLast?_cons] at hprev
  rw [Option.some.inj hprev]
  exact h'

-- ======== the search

/-- The type of the first member of the name, in the order of the search:
member by member, and through unnamed members. -/
def firstNamed (tb : Btf) (name : Option CStr) (n : Nat) : Nat → Nat → Option Nat
  | 0, _ => none
  | depth + 1, id =>
    match skipModsAndTypedefs tb n id with
    | .error _ => none
    | .ok (t, _) =>
      if t.isComposite then
        (List.range t.vlen).findSome? fun i =>
          (t.member? i).bind fun m =>
            if strIsEmpty (tb.strByOffset m.nameOff) then
              firstNamed tb name n depth m.type
            else if name = tb.strByOffset m.nameOff then some m.type
            else none
      else none

theorem CoreSpec.unpush_push (s : CoreSpec) (off i : Nat) :
    ((s.addBits off).pushRaw i).unpush off = s := by
  simp [addBits, pushRaw, unpush, BitVec.add_sub_cancel]

/-- A spec extended by a path to one member. -/
structure Extends (tb : Btf) (s s' : CoreSpec) (id ty : Nat) : Prop where
  path : ∃ (p : List Nat) (acc : CoreAccessor) (bits : Nat),
    (∀ prev, CorePath tb prev id p [acc] bits ty) ∧ s' = { s with
          rawSpec := s.rawSpec ++ p
          spec := s.spec ++ [acc]
          bitOffset := s.bitOffset + BitVec.ofNat 32 bits }

/-- What a search does with the spec, given that the first member of the
name is compatible. -/
def SearchSpec (tb : Btf) (s : CoreSpec) (id : Nat) (hit : Option Nat)
    (out : Option Nat × CoreSpec) : Prop :=
  out.1 = hit ∧ match hit with
    | none => out.2 = s
    | some ty => Extends tb s out.2 id ty

theorem strEq_eq_ok {a b : Option CStr} {same : Bool}
    (h : strEq a b = .ok same) : same = true ↔ a = b := by
  cases a with
  | none => cases h
  | some a =>
    cases b with
    | none => cases h
    | some b =>
      cases h
      simp

/-- A path inside an unnamed member is one from the type that has it. -/
theorem Extends.unnamed {tb : Btf} {id id' ty : Nat} {t : BtfType} (ht : Resolves tb id t id')
    (hc : t.isComposite = true) (hi : i < t.vlen) (hm : t.member? i = some m)
    (hn : strIsEmpty (tb.strByOffset m.nameOff) = true)
    (h : Extends tb ((s.addBits (btfMemberBitOffset t m)).pushRaw i) s'
      m.type ty) : Extends tb s s' id ty := by
  obtain ⟨p, acc, bits, hp, rfl⟩ := h.path
  refine ⟨i :: p, acc, btfMemberBitOffset t m + bits,
    fun prev => .unnamed ht hc hi hm hn (hp prev), ?_⟩
  simp [CoreSpec.addBits, CoreSpec.pushRaw, BitVec.ofNat_add, BitVec.add_assoc]

/-- The named member itself. -/
theorem Extends.named {tb : Btf} {id id' : Nat} {t : BtfType} (ht : Resolves tb id t id')
    (hc : t.isComposite = true) (hi : i < t.vlen) (hm : t.member? i = some m)
    (hn : strIsEmpty (tb.strByOffset m.nameOff) = false) :
    Extends tb s (((s.addBits (btfMemberBitOffset t m)).pushRaw i).addAcc
      ⟨id', i, tb.strByOffset m.nameOff⟩) id m.type := by
  refine ⟨[i], ⟨id', i, tb.strByOffset m.nameOff⟩, btfMemberBitOffset t m, fun prev => ?_, rfl⟩
  exact .named ht hc hi hm hn .nil

section

variable {lb tb : Btf} {localName : Option CStr} {localType n depth : Nat}

/-- The search over the members `is` of a type, when the searches of the
unnamed ones are as they should. -/
private theorem matchMembers_spec {deeper : Nat → CoreSpec → Res (Option Nat × CoreSpec)}
    (hdeeper : ∀ id s out, deeper id s = .ok out →
      (∀ ty, firstNamed tb localName n depth id = some ty →
        bpfCoreFieldsAreCompat lb localType tb ty n = .ok true) →
      SearchSpec tb s id (firstNamed tb localName n depth id) out)
    {id targId : Nat} {t : BtfType} (ht : Resolves tb id t targId)
    (hc : t.isComposite = true) (s : CoreSpec) :
    ∀ (is : List Nat) (out : Option Nat × CoreSpec), (∀ i ∈ is, i < t.vlen) →
      matchMembers lb localName localType tb n t targId deeper is s = .ok out →
      let hit := is.findSome? fun i => (t.member? i).bind fun m =>
        if strIsEmpty (tb.strByOffset m.nameOff) then
          firstNamed tb localName n depth m.type
        else if localName = tb.strByOffset m.nameOff then some m.type
        else none
      (∀ ty, hit = some ty → bpfCoreFieldsAreCompat lb localType tb ty n = .ok true) →
      SearchSpec tb s id hit out := by
  intro is
  induction is with
  | nil =>
    intro out _ h
    cases h
    exact fun _ => ⟨rfl, rfl⟩
  | cons i is ih =>
    intro out hlt h
    have hi : i < t.vlen := hlt i mem_cons_self
    have ih := ih out fun j hj => hlt j (mem_cons_of_mem i hj)
    rw [matchMembers] at h
    obtain ⟨m, hm, h⟩ := of_bind_ok h
    obtain ⟨_, -, h⟩ := of_bind_ok h
    have hm := deref_eq_ok.mp hm
    simp only [findSome?_cons, hm, Option.bind_some]
    by_cases hn : strIsEmpty (tb.strByOffset m.nameOff) = true
    · -- an unnamed member: the search inside it
      rw [if_pos hn] at h ⊢
      obtain ⟨⟨next, s'⟩, ho, h⟩ := of_bind_ok h
      intro hcompat
      have hin := hdeeper m.type _ _ ho (fun ty hty => hcompat ty (by rw [hty]))
      obtain ⟨hnext, hs'⟩ := hin
      cases hf : firstNamed tb localName n depth m.type with
      | none =>
        rw [hf] at hnext hs' hcompat
        dsimp only at hnext hs' h
        subst hnext hs'
        rw [CoreSpec.unpush_push] at h
        exact ih h hcompat
      | some ty =>
        rw [hf] at hnext hs'
        dsimp only at hnext hs' h
        subst hnext
        cases h
        exact ⟨rfl, hs'.unnamed ht hc hi hm hn⟩
    · rw [if_neg hn] at h ⊢
      obtain ⟨same, hsame, h⟩ := of_bind_ok h
      have hiff := strEq_eq_ok hsame
      by_cases heq : localName = tb.strByOffset m.nameOff
      · -- the member of the name
        rw [if_pos (hiff.mpr heq)] at h
        rw [if_pos heq]
        intro hcompat
        obtain ⟨found, hfound, h⟩ := of_bind_ok h
        rw [hcompat m.type rfl] at hfound
        cases hfound
        cases h
        exact ⟨rfl, Extends.named ht hc hi hm (by simpa using hn)⟩
      · rw [if_neg (fun hs => heq (hiff.mp hs)), CoreSpec.unpush_push] at h
        rw [if_neg heq]
        exact ih h

/-- A search that ends leaves the spec as it was, or extends it by a path
to the first member of the name, provided that one is compatible. -/
theorem matchMemberFrom_spec {lt : BtfType}
    {lm : BtfMember} (hlt : btfTypeById lb localAcc.typeId = some lt)
    (hlm : lt.member? localAcc.idx = some lm) :
    ∀ (depth id : Nat) (s : CoreSpec) (out : Option Nat × CoreSpec),
      matchMemberFrom lb localAcc tb n depth id s = .ok out →
      (∀ ty, firstNamed tb (lb.strByOffset lm.nameOff) n depth id = some ty →
        bpfCoreFieldsAreCompat lb lm.type tb ty n = .ok true) →
      SearchSpec tb s id (firstNamed tb (lb.strByOffset lm.nameOff) n depth id) out := by
  intro depth
  induction depth with
  | zero => intro id s out h; cases h
  | succ depth ih =>
    intro id s out h
    rw [matchMemberFrom] at h
    obtain ⟨⟨t, targId⟩, ht, h⟩ := of_bind_ok h
    rw [firstNamed, ht]
    dsimp only at h ⊢
    by_cases hc : t.isComposite = true
    · rw [if_neg (by simp [hc])] at h
      rw [if_pos hc]
      obtain ⟨_, hlt', h⟩ := of_bind_ok h
      rw [hlt] at hlt'
      cases hlt'
      obtain ⟨_, hlm', h⟩ := of_bind_ok h
      rw [hlm] at hlm'
      cases hlm'
      exact matchMembers_spec ih ⟨n, ht⟩ hc s _ out (fun i hi => mem_range.mp hi) h
    · rw [if_pos (by simpa using hc)] at h
      cases h
      rw [if_neg hc]
      exact fun _ => ⟨rfl, rfl⟩

/-- A search that finds something has read the local member. -/
theorem matchMemberFrom_local {id : Nat}
    (h : matchMemberFrom lb localAcc tb n depth id s = .ok (some next, s')) :
    ∃ lt lm, btfTypeById lb localAcc.typeId = some lt ∧ lt.member? localAcc.idx = some lm := by
  cases depth with
  | zero => cases h
  | succ depth =>
    obtain ⟨⟨t, targId⟩, -, h⟩ := of_bind_ok h
    dsimp only at h
    split at h
    · cases h
    · obtain ⟨lt, hlt, h⟩ := of_bind_ok h
      obtain ⟨lm, hlm, -⟩ := of_bind_ok h
      exact ⟨lt, lm, deref_eq_ok.mp hlt, deref_eq_ok.mp hlm⟩

end

/-- A path with an accessor may start before the typedefs and modifiers. -/
theorem CorePath.skip {btf : Btf} {id id' : Nat} {t : BtfType} (ht : Resolves btf id t id')
    (h : CorePath btf prev id' p (acc :: accs) bits last) :
    CorePath btf prev id p (acc :: accs) bits last := by
  cases h with
  | named ht' hc hi hm hn hp =>
    obtain ⟨rfl, rfl⟩ := ht.again ht'
    exact .named ht hc hi hm hn hp
  | unnamed ht' hc hi hm hn hp =>
    obtain ⟨rfl, rfl⟩ := ht.again ht'
    exact .unnamed ht hc hi hm hn hp
  | elem ht' ha harr hi he hsz hp =>
    obtain ⟨rfl, rfl⟩ := ht.again ht'
    exact .elem ht ha harr hi he hsz hp

-- ======== the match

/-- The first member of the accessor's name, from target type `targId` on
and in search order, has a compatible type. -/
def SearchClean (lb : Btf) (acc : CoreAccessor) (tb : Btf) (n targId : Nat) : Prop :=
  ∀ lt lm, btfTypeById lb acc.typeId = some lt → lt.member? acc.idx = some lm →
    ∀ ty, firstNamed tb (lb.strByOffset lm.nameOff) n n targId = some ty →
      bpfCoreFieldsAreCompat lb lm.type tb ty n = .ok true

/-- Every search of a match is clean: of each named accessor, at the target
type the match has come to. -/
def MatchClean (lb tb : Btf) (n : Nat) : List CoreAccessor → Bool → Nat → CoreSpec → Prop
  | [], _, _, _ => True
  | acc :: accs, first, targId, s =>
    (acc.name.isSome = true → ∀ t id, skipModsAndTypedefs tb n targId = .ok (t, id) →
          SearchClean lb acc tb n id)
      ∧ ∀ next s', specMatchStep lb acc tb n first targId s
          = .ok (some next, s') → MatchClean lb tb n accs false next s'

/-- The spec under construction describes a path from `root` to `id`. -/
structure Describes (tb : Btf) (root : Nat) (s : CoreSpec) (id : Nat) : Prop where
  path : ∃ bits, SpecPath tb root s.rawSpec s.spec bits id ∧ s.bitOffset = BitVec.ofNat 32 bits

theorem Describes.exists_last {tb : Btf} {id : Nat}
    (h : Describes tb root s id) : ∃ prev, s.spec.getLast? = some prev := by
  obtain ⟨bits, hpath, -⟩ := h.path
  obtain ⟨i, id', sz, bits', t, p, accs, -, -, -, hspec, -, -⟩ := hpath.path
  rw [hspec]
  exact ⟨_, rfl⟩

/-- A spec extended by a path goes on describing one. -/
theorem Describes.extend {tb : Btf} {id : Nat}
    (h : Describes tb root s id) (hprev : s.spec.getLast? = some prev)
    (hp : CorePath tb prev id p accs bits last) :
    Describes tb root { s with
      rawSpec := s.rawSpec ++ p
      spec := s.spec ++ accs
      bitOffset := s.bitOffset + BitVec.ofNat 32 bits } last := by
  obtain ⟨bits', hpath, hbits⟩ := h.path
  refine ⟨bits' + bits, hpath.append hprev hp, ?_⟩
  rw [hbits, BitVec.ofNat_add]

/-- Entering an element access. -/
theorem specAddElem_eq_ok {tb : Btf} {id : Nat}
    {out : Option Nat × CoreSpec} (h : specAddElem tb idx id s = .ok out) :
    ∃ sz, btfResolveSize tb id = .ok sz ∧ out = (some id, { s with
        rawSpec := s.rawSpec ++ [idx]
        spec := s.spec ++ [⟨id, idx, none⟩]
        bitOffset := s.bitOffset + BitVec.ofNat 32 (idx * sz * 8) }) := by
  obtain ⟨_, -, h⟩ := of_bind_ok h
  obtain ⟨sz, hsz, h⟩ := of_bind_ok h
  split at h
  · cases h
  · cases h
    exact ⟨sz, hsz, rfl⟩

/-- The element of an array that an accessor is for. -/
theorem specElemType_eq_some {tb : Btf} {n id elem : Nat} {t : BtfType}
    (h : specElemType acc tb n false t id s = .ok (some elem)) :
    ∃ a prev et, t.isArray = true ∧ t.array? = some a ∧ s.spec.getLast? = some prev
      ∧ (isFlexArr tb prev a = .ok true ∨ acc.idx < a.nelems)
      ∧ Resolves tb a.type et elem := by
  rw [specElemType, if_neg (by simp)] at h
  by_cases ha : t.isArray = true
  · rw [if_neg (by simp [ha])] at h
    obtain ⟨a, harr, h⟩ := of_bind_ok h
    obtain ⟨prev, hprev, h⟩ := of_bind_ok h
    obtain ⟨flex, hflex, h⟩ := of_bind_ok h
    split at h
    · cases h
    next hin =>
      obtain ⟨⟨et, elemId⟩, het, h⟩ := of_bind_ok h
      cases h
      refine ⟨a, prev, et, ha, deref_eq_ok.mp harr, deref_eq_ok.mp hprev, ?_, n, het⟩
      cases flex with
      | true => exact Or.inl hflex
      | false => exact Or.inr (by simpa using hin)
  · rw [if_pos (by simpa using ha)] at h
    cases h

/-- The first accessor: an element of the root type. -/
theorem specMatchStep_first {lb tb : Btf} {n : Nat} (hname : acc.name = none)
    (h : specMatchStep lb acc tb n true root (CoreSpec.start root kind) = .ok (some next, s)) :
    Describes tb root s next ∧ s.spec.length = 1 := by
  obtain ⟨⟨t, id⟩, ht, h⟩ := of_bind_ok h
  dsimp only at h
  rw [hname] at h
  obtain ⟨elem, ⟨⟩, h⟩ := of_bind_ok h
  obtain ⟨sz, hsz, h⟩ := specAddElem_eq_ok h
  cases h
  refine ⟨⟨acc.idx * sz * 8, ⟨acc.idx, next, sz, 0, t, [], [], ⟨n, ht⟩, hsz,
    rfl, rfl, .nil, rfl⟩, ?_⟩, rfl⟩
  exact BitVec.zero_add _

/-- A later accessor: the path to the element or to the member found. -/
theorem specMatchStep_next {lb tb : Btf} {n id : Nat} (hs : Describes tb root s id)
    (hclean : acc.name.isSome = true → ∀ t id',
      skipModsAndTypedefs tb n id = .ok (t, id') → SearchClean lb acc tb n id')
    (h : specMatchStep lb acc tb n false id s = .ok (some next, s')) :
    Describes tb root s' next ∧ s'.spec.length = s.spec.length + 1 := by
  obtain ⟨⟨t, id'⟩, ht, h⟩ := of_bind_ok h
  dsimp only at h
  by_cases hname : acc.name.isSome = true
  · rw [if_pos hname] at h
    obtain ⟨lt, lm, hlt, hlm⟩ := matchMemberFrom_local h
    obtain ⟨hhit, hext⟩ := matchMemberFrom_spec hlt hlm n id' s _ h
      (hclean hname t id' ht lt lm hlt hlm)
    rw [← hhit] at hext
    obtain ⟨p, acc', bits, hp, hs'⟩ := hext.path
    subst hs'
    obtain ⟨prev, hprev⟩ := hs.exists_last
    exact ⟨hs.extend hprev (CorePath.skip ⟨n, ht⟩ (hp prev)), by simp⟩
  · rw [if_neg hname] at h
    obtain ⟨elem, helem, h⟩ := of_bind_ok h
    cases elem with
    | none => cases h
    | some elemId =>
      obtain ⟨a, prev, et, ha, harr, hprev, hi, het⟩ :=
        specElemType_eq_some helem
      obtain ⟨sz, hsz, h⟩ := specAddElem_eq_ok h
      cases h
      have hstep := hs.extend hprev (.elem ⟨n, ht⟩ ha harr hi het hsz .nil)
      exact ⟨hstep, by simp⟩

/-- The whole match. -/
theorem specMatchFrom_describes {lb tb : Btf} {n : Nat} :
    ∀ (accs : List CoreAccessor) (id : Nat) (s s' : CoreSpec),
      Describes tb root s id → MatchClean lb tb n accs false id s →
      specMatchFrom lb tb n accs false id s = .ok (true, s') →
      (∃ last, Describes tb root s' last) ∧ s'.spec.length = s.spec.length + accs.length := by
  intro accs
  induction accs with
  | nil =>
    intro id s s' hs _ h
    cases h
    exact ⟨⟨id, hs⟩, rfl⟩
  | cons acc accs ih =>
    intro id s s' hs hclean h
    obtain ⟨⟨next, s₁⟩, hstep, h⟩ := of_bind_ok h
    cases next with
    | none => cases h
    | some next =>
      obtain ⟨hs₁, hlen⟩ := specMatchStep_next hs hclean.1 hstep
      obtain ⟨hlast, hlen'⟩ := ih next s₁ s' hs₁ (hclean.2 _ _ hstep) h
      refine ⟨hlast, ?_⟩
      rw [hlen', hlen, length_cons]
      omega

theorem not_typeBased (hk : coreReloIsFieldBased kind = true) :
    ¬ coreReloIsTypeBased kind = true := by
  cases kind <;> first | decide | cases hk

theorem not_enumvalBased (hk : coreReloIsFieldBased kind = true) :
    ¬ coreReloIsEnumvalBased kind = true := by
  cases kind <;> first | decide | cases hk

theorem parseRaw_length : ∀ {left : Nat} {s : Bytes} {raw : List Nat},
    parseRawFrom left s = .ok raw → raw.length ≤ left
  | left, s, raw, h => by
    rw [parseRawFrom.eq_def] at h
    dsimp only at h
    split at h
    · cases h
      exact Nat.zero_le _
    split at h
    · cases h
    split at h
    · cases h
    cases left with
    | zero => cases h
    | succ left =>
      obtain ⟨rest, hrest, h⟩ := of_bind_ok h
      cases h
      exact Nat.succ_le_succ (parseRaw_length hrest)

theorem orEinval_eq_ok {α : Type} {o : Option α} {a : α} : orEinval o = .ok a ↔ o = some a := by
  cases o <;> simp [orEinval, fail]

/-- A parsed spec of a field-based relocation: the indices of the access
string, the root's accessor, and the rest of the raw spec. -/
theorem parseSpec_field {btf : Btf} {n : Nat} (hk : coreReloIsFieldBased relo.kind = true)
    (h : bpfCoreParseSpec btf relo n = .ok spec) :
    ∃ (first id sz : Nat) (rest : List Nat) (t : BtfType),
      skipModsAndTypedefs btf n relo.typeId = .ok (t, id) ∧ btfResolveSize btf id = .ok sz
        ∧ (∃ str, btf.strByOffset relo.accessStrOff = some str
          ∧ parseRawFrom BPF_CORE_SPEC_MAX_LEN str.val = .ok (first :: rest))
        ∧ parseSpecFrom btf n rest id
            { CoreSpec.start relo.typeId relo.kind with
              rawSpec := first :: rest
              spec := [⟨id, first, none⟩]
              bitOffset := 0 + BitVec.ofNat 32 (first * sz * 8) }
            = .ok spec := by
  unfold bpfCoreParseSpec at h
  obtain ⟨str, hstr, h⟩ := of_bind_ok h
  obtain ⟨_, -, h⟩ := of_bind_ok h
  dsimp only at h
  rw [if_neg (not_typeBased hk)] at h
  obtain ⟨raw, hraw, h⟩ := of_bind_ok h
  obtain ⟨first, hfirst, h⟩ := of_bind_ok h
  obtain ⟨⟨t, id⟩, ht, h⟩ := of_bind_ok h
  dsimp only at h
  rw [if_neg (not_enumvalBased hk)] at h
  obtain ⟨_, -, h⟩ := of_bind_ok h
  obtain ⟨sz, hsz, h⟩ := of_bind_ok h
  cases raw with
  | nil => cases hfirst
  | cons i rest =>
    cases hfirst
    exact ⟨first, id, sz, rest, t, ht, hsz, ⟨str, orEinval_eq_ok.mp hstr, hraw⟩, h⟩

/-- What one index of the raw spec leaves as it was. -/
theorem parseSpecStep_frame {btf : Btf} {n id : Nat}
    {out : Nat × CoreSpec} (h : parseSpecStep btf n idx id s = .ok out) :
    ∃ accs, out.2.spec = s.spec ++ accs ∧ out.2.rawSpec = s.rawSpec
      ∧ out.2.reloKind = s.reloKind := by
  obtain ⟨⟨t, id'⟩, -, h⟩ := of_bind_ok h
  dsimp only at h
  split at h
  · obtain ⟨_, -, h⟩ := of_bind_ok h
    obtain ⟨m, -, h⟩ := of_bind_ok h
    split at h
    · obtain ⟨_, -, h⟩ := of_bind_ok h
      cases h
      exact ⟨_, rfl, rfl, rfl⟩
    · cases h
      exact ⟨[], (append_nil _).symm, rfl, rfl⟩
  · split at h
    · obtain ⟨a, -, h⟩ := of_bind_ok h
      obtain ⟨e, -, h⟩ := of_bind_ok h
      obtain ⟨last, -, h⟩ := of_bind_ok h
      obtain ⟨flex, -, h⟩ := of_bind_ok h
      obtain ⟨_, -, h⟩ := of_bind_ok h
      obtain ⟨sz, -, h⟩ := of_bind_ok h
      cases h
      exact ⟨_, rfl, rfl, rfl⟩
    · cases h

theorem parseSpecFrom_frame {btf : Btf} {n : Nat} :
    ∀ (raw : List Nat) (id : Nat) (s spec : CoreSpec), parseSpecFrom btf n raw id s = .ok spec →
      ∃ accs, spec.spec = s.spec ++ accs ∧ spec.rawSpec = s.rawSpec
        ∧ spec.reloKind = s.reloKind := by
  intro raw
  induction raw with
  | nil =>
    intro id s spec h
    cases h
    exact ⟨[], (append_nil _).symm, rfl, rfl⟩
  | cons idx raw ih =>
    intro id s spec h
    obtain ⟨⟨id', s'⟩, hstep, h⟩ := of_bind_ok h
    obtain ⟨accs, hspec, hraw, hkind⟩ := parseSpecStep_frame hstep
    obtain ⟨accs', hspec', hraw', hkind'⟩ := ih id' s' spec h
    refine ⟨accs ++ accs', ?_, hraw'.trans hraw, hkind'.trans hkind⟩
    rw [hspec', hspec, append_assoc]

/-- What a spec of a field-based relocation starts with. -/
theorem parseSpec_first {btf : Btf} {n : Nat} (hk : coreReloIsFieldBased relo.kind = true)
    (h : bpfCoreParseSpec btf relo n = .ok spec) :
    ∃ id i accs, spec.spec = ⟨id, i, none⟩ :: accs ∧ spec.reloKind = relo.kind := by
  obtain ⟨first, id, sz, rest, t, -, -, -, h⟩ := parseSpec_field hk h
  obtain ⟨accs, hspec, -, hkind⟩ := parseSpecFrom_frame _ _ _ _ h
  exact ⟨id, first, accs, hspec, hkind⟩

/-- A target spec that matched: as long as the local one, with a raw spec
that is a path from the target's root type, its accessors those of the
path, and its bit offset the path's. That is, if the first member of the
name that each of the searches comes to is of a compatible type. -/
theorem specMatch_selfConsistent {lb tb : Btf} {relo : CoreRelo}
    {localSpec spec : CoreSpec} {n k targId : Nat} (hk : coreReloIsFieldBased relo.kind = true)
    (hparse : bpfCoreParseSpec lb relo k = .ok localSpec)
    (hclean : MatchClean lb tb n localSpec.spec true targId
      (CoreSpec.start targId localSpec.reloKind))
    (h : bpfCoreSpecMatch lb localSpec tb targId n = .ok (true, spec)) :
    spec.spec.length = localSpec.spec.length
      ∧ ∃ bits last, SpecPath tb targId spec.rawSpec spec.spec bits last
          ∧ spec.bitOffset = BitVec.ofNat 32 bits := by
  obtain ⟨id, i, accs, hspec, hkind⟩ := parseSpec_first hk hparse
  have hk' : coreReloIsFieldBased localSpec.reloKind = true := by
    rw [hkind]; exact hk
  have hnt : ¬ coreReloIsTypeBased localSpec.reloKind = true :=
    not_typeBased hk'
  have hne : ¬ coreReloIsEnumvalBased localSpec.reloKind = true :=
    not_enumvalBased hk'
  unfold bpfCoreSpecMatch at h
  dsimp only at h
  rw [if_neg hnt, if_neg hne] at h
  obtain ⟨_, -, h⟩ := of_bind_ok h
  rw [hspec] at h hclean ⊢
  obtain ⟨⟨next, s₁⟩, hstep, h⟩ := of_bind_ok h
  cases next with
  | none => cases h
  | some next =>
    obtain ⟨hs₁, hlen⟩ := specMatchStep_first rfl hstep
    obtain ⟨⟨last, hlast⟩, hlen'⟩ := specMatchFrom_describes accs next s₁
      spec hs₁ (hclean.2 _ _ hstep) h
    obtain ⟨bits, hpath, hbits⟩ := hlast.path
    refine ⟨?_, bits, last, hpath, hbits⟩
    rw [hlen', hlen, length_cons]
    omega

-- -------- a stale index

/-- `struct s { int a; }`, and a flavor of it with an `a` of another type
inside an unnamed member, before its own. -/
def shadowed : Bytes :=
  btfImage .little
    [⟨1, btfTypeInfo .int 0 false, 4, [32]⟩, ⟨5, btfTypeInfo .struct 1 false, 4, [7, 1, 0]⟩,
      ⟨0, btfTypeInfo .struct 1 false, 16, [7, 2, 64]⟩,
      ⟨9, btfTypeInfo .struct 2 false, 20, [0, 3, 0, 7, 1, 128]⟩]
    -- "", "int", "s", "a", "s___t" and the access string "0:0"
    [0, 105, 110, 116, 0, 115, 0, 97, 0, 115, 95, 95, 95, 116, 0, 48, 58, 48, 0]

/-- The spec of `s.a`. -/
private def shadowedSpec : CoreSpec :=
  ⟨[⟨2, 0, none⟩, ⟨2, 0, some (cstrAt [97] 0)⟩], 2, .fieldByteOffset, [0, 0], 0⟩

/-- A type that is no typedef and no modifier is found as it is. -/
theorem Resolves.eq_of_type {btf : Btf} {id id' : Nat} {t t' : BtfType}
    (ht : btf.typeById id = some t) (hmod : (t.isMod || t.isTypedef) = false)
    (h : Resolves btf id t' id') : t' = t ∧ id' = id := by
  have hself : Resolves btf id t id := by
    refine ⟨1, ?_⟩
    rw [skipModsAndTypedefs, ht]
    dsimp only
    rw [if_neg (by simp [hmod])]
  exact hself.again h

/-- Against the type itself the match is as it should be. -/
theorem specMatch_selfConsistent_plain :
    ∃ btf localSpec spec, btfNew .little 0 shadowed none = .ok btf
      ∧ bpfCoreParseSpec btf ⟨2, 15, .fieldByteOffset⟩ 10 = .ok localSpec
      ∧ MatchClean btf btf 10 localSpec.spec true 2 (CoreSpec.start 2 localSpec.reloKind)
      ∧ bpfCoreSpecMatch btf localSpec btf 2 10 = .ok (true, spec)
      ∧ spec.spec.length = localSpec.spec.length := by
  obtain ⟨btf, hbtf, hparse, hmatch, htype, hhit, hcompat⟩ := exists_ok_of_any
    (r := btfNew .little 0 shadowed none) (P := fun btf =>
      bpfCoreParseSpec btf ⟨2, 15, .fieldByteOffset⟩ 10 = .ok shadowedSpec
      ∧ (bpfCoreSpecMatch btf shadowedSpec btf 2 10).toOption.map (·.1) = some true
      ∧ btf.typeById 2 = some ⟨5, btfTypeInfo .struct 1 false, 4, [7, 1, 0]⟩
      ∧ firstNamed btf (btf.strByOffset 7) 10 10 2 = some 1
      ∧ bpfCoreFieldsAreCompat btf 1 btf 1 10 = .ok true) (by decide +kernel)
  have hskip : ∀ {n t id}, skipModsAndTypedefs btf n 2 = .ok (t, id) →
      t = ⟨5, btfTypeInfo .struct 1 false, 4, [7, 1, 0]⟩ ∧ id = 2 :=
    fun h => Resolves.eq_of_type htype rfl ⟨_, h⟩
  have hclean : MatchClean btf btf 10 shadowedSpec.spec true 2
      (CoreSpec.start 2 .fieldByteOffset) := by
    refine ⟨nofun, fun next s' hstep => ⟨fun _ t id ht => ?_, fun _ _ _ => trivial⟩⟩
    -- the first step stays at the struct, where the search then finds `a`
    obtain ⟨⟨u, uid⟩, hu, hstep⟩ := of_bind_ok hstep
    obtain ⟨rfl, rfl⟩ := hskip hu
    obtain ⟨elem, ⟨⟩, hstep⟩ := of_bind_ok hstep
    obtain ⟨sz, -, hstep⟩ := specAddElem_eq_ok hstep
    cases hstep
    obtain ⟨rfl, rfl⟩ := hskip ht
    intro lt lm hlt hlm ty hty
    rw [Btf.btfTypeById_of_typeById htype] at hlt
    cases hlt
    cases hlm
    cases hty.symm.trans hhit
    exact hcompat
  obtain ⟨⟨matched, spec⟩, hm, rfl⟩ := Option.map_eq_some_iff.mp hmatch
  have hm := eq_ok_of_toOption hm
  exact ⟨btf, _, spec, hbtf, hparse, hclean, hm, (specMatch_selfConsistent rfl hparse hclean hm).1⟩

/-- Against the flavor, the index of the unnamed member stays on the raw
spec although its `a` was not accepted, and the path it then describes
does not exist. -/
theorem specMatch_stale_index : ∃ btf localSpec spec, btfNew .little 0 shadowed none = .ok btf
      ∧ bpfCoreParseSpec btf ⟨2, 15, .fieldByteOffset⟩ 10 = .ok localSpec
      ∧ bpfCoreSpecMatch btf localSpec btf 4 10 = .ok (true, spec)
      ∧ ¬ ∃ bits last, SpecPath btf 4 spec.rawSpec spec.spec bits last := by
  obtain ⟨btf, hbtf, hparse, hmatch, h₃, h₄, hname⟩ := exists_ok_of_any
    (r := btfNew .little 0 shadowed none) (P := fun btf =>
      bpfCoreParseSpec btf ⟨2, 15, .fieldByteOffset⟩ 10 = .ok shadowedSpec
      ∧ (bpfCoreSpecMatch btf shadowedSpec btf 4 10).toOption.map (fun o => (o.1, o.2.rawSpec))
        = some (true, [0, 0, 1])
      ∧ btf.typeById 3 = some ⟨0, btfTypeInfo .struct 1 false, 16, [7, 2, 64]⟩
      ∧ btf.typeById 4 = some ⟨9, btfTypeInfo .struct 2 false, 20, [0, 3, 0, 7, 1, 128]⟩
      ∧ strIsEmpty (btf.strByOffset 0) = true) (by decide +kernel)
  obtain ⟨⟨matched, spec⟩, hm, hout⟩ := Option.map_eq_some_iff.mp hmatch
  obtain ⟨rfl, hindices⟩ := Prod.mk.inj hout
  refine ⟨btf, _, spec, hbtf, hparse, eq_ok_of_toOption hm, ?_⟩
  intro ⟨bits, last, hpath⟩
  obtain ⟨i, id, sz, bits', t, p, accs, ht, -, hraw, -, hp, -⟩ := hpath.path
  obtain ⟨rfl, rfl⟩ := Resolves.eq_of_type h₄ rfl ht
  cases hindices.symm.trans hraw
  -- index 0 of the flavor is its unnamed member, which has no member 1
  have hinner : ∀ {prev accs bits last}, ¬ CorePath btf prev 3 [1] accs bits last := by
    intro prev accs bits last hp
    cases hp with
    | named ht _ hi =>
      obtain ⟨rfl, -⟩ := Resolves.eq_of_type h₃ rfl ht
      exact absurd hi (by decide)
    | unnamed ht _ hi =>
      obtain ⟨rfl, -⟩ := Resolves.eq_of_type h₃ rfl ht
      exact absurd hi (by decide)
    | elem ht ha =>
      obtain ⟨rfl, -⟩ := Resolves.eq_of_type h₃ rfl ht
      exact absurd ha (by decide)
  cases hp with
  | named ht _ _ hm hn =>
    obtain ⟨rfl, -⟩ := Resolves.eq_of_type h₄ rfl ht
    cases hm
    exact absurd (hname.symm.trans hn) (by decide)
  | unnamed ht _ _ hm _ hp =>
    obtain ⟨rfl, -⟩ := Resolves.eq_of_type h₄ rfl ht
    cases hm
    exact hinner hp
  | elem ht ha =>
    obtain ⟨rfl, -⟩ := Resolves.eq_of_type h₄ rfl ht
    exact absurd ha (by decide)

end Libbpf
