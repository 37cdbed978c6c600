/-
CO-RE relocation and the order of the candidates.

Each candidate is evaluated on its own, so a run over a list of candidates
succeeds or fails whatever their order is (`candsFrom_eq_ok`): every one
of them must be evaluated without an error, and those that match must
agree in the three fields the loop compares. What the run returns is the
result of the first that matches. The local half of that result does not
depend on the candidate (`calcRelo_local`). The new memory size and the
flag that a size cannot be adjusted do, and are not compared:
`calcReloInsn_order_iff` is the exact condition.
-/
import Mathlib.Data.List.Perm.Basic
import Libbpf.Btf.Validate
import Libbpf.Core.Relo

namespace Libbpf

open Lib List

-- ======== the loop, in any order

section

variable {α β : Type} {eval : α → Res (Option β)} {agree : β → β → Bool}

/-- The result of a candidate that matches. -/
def matchOf (eval : α → Res (Option β)) (c : α) : Option β :=
  match eval c with
  | .ok r => r
  | .error _ => none

/-- Every candidate is evaluated, and those that match agree with each
other. -/
structure Consistent (eval : α → Res (Option β)) (agree : β → β → Bool) (cs : List α) : Prop where
  evals : ∀ c ∈ cs, ∃ r, eval c = .ok r
  agree : ∀ c ∈ cs, ∀ c' ∈ cs, ∀ r r', matchOf eval c = some r →
    matchOf eval c' = some r' → agree r r' = true

theorem Consistent.perm {cs cs' : List α} (hp : cs.Perm cs')
    (h : Consistent eval agree cs) : Consistent eval agree cs' :=
  ⟨fun c hc => h.evals c (hp.mem_iff.mpr hc), fun c hc c' hc' =>
    h.agree c (hp.mem_iff.mpr hc) c' (hp.mem_iff.mpr hc')⟩

private theorem candsFrom_error {c : α} {cs : List α} {first : Option β}
    {e : Stop} (he : eval c = .error e) :
    candsFrom eval agree (c :: cs) first = .error e := by
  rw [candsFrom, he]
  rfl

private theorem candsFrom_skip {c : α} {cs : List α} {first : Option β} (he : eval c = .ok none) :
    candsFrom eval agree (c :: cs) first = candsFrom eval agree cs first := by
  rw [candsFrom, he]
  rfl

private theorem candsFrom_first {c : α} {cs : List α} {r : β}
    {out : Option β × List α} (he : eval c = .ok (some r)) :
    candsFrom eval agree (c :: cs) none = .ok out ↔ ∃ o, candsFrom eval agree cs (some r) = .ok o
        ∧ out = (o.1, c :: o.2) := by
  rw [candsFrom, he]
  change (candsFrom eval agree cs (some r) >>= fun o => Except.ok (o.1, c :: o.2)) = _ ↔ _
  refine except_bind_eq_ok.trans ?_
  constructor
  · intro ⟨o, ho, hout⟩
    exact ⟨o, ho, (Except.ok.inj hout).symm⟩
  · intro ⟨o, ho, hout⟩
    exact ⟨o, ho, congrArg Except.ok hout.symm⟩

private theorem candsFrom_next {c : α} {cs : List α} {f r : β}
    {out : Option β × List α} (he : eval c = .ok (some r)) :
    candsFrom eval agree (c :: cs) (some f) = .ok out ↔
      agree f r = true ∧ ∃ o, candsFrom eval agree cs (some f) = .ok o ∧ out = (o.1, c :: o.2) := by
  rw [candsFrom, he]
  change (failIf (agree f r = false) EINVAL >>= fun _ => candsFrom eval agree cs (some f)
    >>= fun o => Except.ok (o.1, c :: o.2)) = _ ↔ _
  refine except_bind_eq_ok.trans ?_
  constructor
  · intro ⟨u, hu, hrest⟩
    rw [failIf_eq_ok] at hu
    obtain ⟨o, ho, hout⟩ := of_bind_ok hrest
    exact ⟨by simpa using hu, o, ho, (Except.ok.inj hout).symm⟩
  · intro ⟨ha, o, ho, hout⟩
    refine ⟨(), ?_, bind_ok ho (congrArg Except.ok hout.symm)⟩
    rw [failIf_eq_ok]
    simp [ha]

/-- The loop once it has a first result. -/
private theorem candsFrom_some {f : β} : ∀ (cs : List α) (out : Option β × List α),
      candsFrom eval agree cs (some f) = .ok out ↔ (∀ c ∈ cs, ∃ r, eval c = .ok r)
          ∧ (∀ c ∈ cs, ∀ r, matchOf eval c = some r → agree f r = true)
          ∧ out = (some f, cs.filter fun c => (matchOf eval c).isSome) := by
  intro cs
  induction cs with
  | nil =>
    intro out
    rw [candsFrom]
    constructor
    · intro h
      exact ⟨nofun, nofun, (Except.ok.inj h).symm⟩
    · intro ⟨_, _, h⟩
      exact congrArg Except.ok h.symm
  | cons c cs ih =>
    intro out
    simp only [forall_mem_cons]
    cases he : eval c with
    | error e =>
      rw [candsFrom_error he]
      constructor
      · intro h; cases h
      · intro ⟨⟨⟨r, hr⟩, _⟩, _⟩; cases hr
    | ok r =>
      have hm : matchOf eval c = r := by rw [matchOf, he]
      cases r with
      | none =>
        rw [candsFrom_skip he, ih, filter_cons_of_neg (by simp [hm])]
        simp [hm]
      | some r =>
        rw [candsFrom_next he, filter_cons_of_pos (by simp [hm])]
        constructor
        · intro ⟨ha, o, ho, hout⟩
          obtain ⟨h1, h2, rfl⟩ := (ih o).mp ho
          refine ⟨⟨⟨_, rfl⟩, h1⟩, ⟨fun r' hr' => ?_, h2⟩, hout⟩
          rw [hm] at hr'
          cases hr'
          exact ha
        · intro ⟨⟨_, h1⟩, ⟨ha, h2⟩, hout⟩
          exact ⟨ha r hm, _, (ih _).mpr ⟨h1, h2, rfl⟩, hout⟩

/-- The whole loop, when agreeing is symmetric and transitive: it succeeds
exactly on consistent candidates, with the first match and all of them. -/
theorem candsFrom_eq_ok (hsymm : ∀ a b, agree a b = true → agree b a = true)
    (htrans : ∀ a b c, agree a b = true → agree b c = true → agree a c = true)
    (hrefl : ∀ a, agree a a = true) :
    ∀ (cs : List α) (out : Option β × List α), candsFrom eval agree cs none = .ok out ↔
        Consistent eval agree cs ∧ out = (cs.findSome? (matchOf eval),
              cs.filter fun c => (matchOf eval c).isSome) := by
  intro cs
  induction cs with
  | nil =>
    intro out
    rw [candsFrom]
    constructor
    · intro h
      exact ⟨⟨nofun, nofun⟩, (Except.ok.inj h).symm⟩
    · intro ⟨_, h⟩
      exact congrArg Except.ok h.symm
  | cons c cs ih =>
    intro out
    cases he : eval c with
    | error e =>
      rw [candsFrom_error he]
      constructor
      · intro h; cases h
      · intro ⟨h, _⟩
        obtain ⟨r, hr⟩ := h.evals c mem_cons_self
        rw [he] at hr
        cases hr
    | ok r =>
      have hm : matchOf eval c = r := by rw [matchOf, he]
      cases r with
      | none =>
        rw [candsFrom_skip he, ih, findSome?_cons, hm, filter_cons_of_neg (by simp [hm])]
        refine and_congr_left fun _ => ?_
        constructor
        · intro h
          refine ⟨forall_mem_cons.mpr ⟨⟨_, he⟩, h.evals⟩, ?_⟩
          intro a ha b hb r r' hr hr'
          rcases mem_cons.mp ha with rfl | ha
          · rw [hm] at hr; cases hr
          rcases mem_cons.mp hb with rfl | hb
          · rw [hm] at hr'; cases hr'
          exact h.agree a ha b hb r r' hr hr'
        · intro h
          exact ⟨fun a ha => h.evals a (mem_cons_of_mem c ha),
            fun a ha b hb => h.agree a (mem_cons_of_mem c ha) b (mem_cons_of_mem c hb)⟩
      | some r =>
        rw [candsFrom_first he, findSome?_cons, hm, filter_cons_of_pos (by simp [hm])]
        constructor
        · intro ⟨o, ho, hout⟩
          obtain ⟨h1, h2, rfl⟩ := (candsFrom_some cs o).mp ho
          -- every match agrees with the first
          have hall : ∀ a ∈ c :: cs, ∀ x, matchOf eval a = some x → agree r x = true := by
            intro a ha x hx
            rcases mem_cons.mp ha with rfl | ha
            · rw [hm] at hx
              cases hx
              exact hrefl r
            · exact h2 a ha x hx
          refine ⟨⟨forall_mem_cons.mpr ⟨⟨_, he⟩, h1⟩, ?_⟩, hout⟩
          intro a ha b hb x y hx hy
          exact htrans x r y (hsymm r x (hall a ha x hx)) (hall b hb y hy)
        · intro ⟨h, hout⟩
          refine ⟨_, (candsFrom_some cs _).mpr ⟨?_, ?_, rfl⟩, hout⟩
          · exact fun a ha => h.evals a (mem_cons_of_mem c ha)
          · exact fun a ha x hx => h.agree c mem_cons_self a (mem_cons_of_mem c ha) r x hm hx

end

theorem candsAgree_iff {a b : CoreReloRes × CoreSpec} :
    candsAgree a b = true ↔ b.2.bitOffset = a.2.bitOffset
      ∧ b.1.poison = a.1.poison ∧ b.1.newVal = a.1.newVal := by
  simp [candsAgree, and_assoc]

/-- The loop over CO-RE candidates. -/
theorem cands_eq_ok {eval : CoreCand → Res (Option (CoreReloRes × CoreSpec))}
    {cs : List CoreCand} {out : Option (CoreReloRes × CoreSpec) × List CoreCand} :
    candsFrom eval candsAgree cs none = .ok out ↔ Consistent eval candsAgree cs
        ∧ out = (cs.findSome? (matchOf eval), cs.filter fun c => (matchOf eval c).isSome) := by
  refine candsFrom_eq_ok ?_ ?_ ?_ cs out
  · intro a b h
    rw [candsAgree_iff] at h ⊢
    exact ⟨h.1.symm, h.2.1.symm, h.2.2.symm⟩
  · intro a b c h h'
    rw [candsAgree_iff] at h h' ⊢
    exact ⟨h'.1.trans h.1, h'.2.1.trans h.2.1, h'.2.2.trans h.2.2⟩
  · intro a
    rw [candsAgree_iff]
    exact ⟨rfl, rfl, rfl⟩

-- ======== the local half

theorem orPoison_eq_ok {α : Type} {r : Res α} {poisoned res : CoreReloRes}
    {k : α → Res CoreReloRes} (h : orPoison r poisoned k = .ok res) :
    res = poisoned ∨ ∃ a, r = .ok a ∧ k a = .ok res := by
  unfold orPoison at h
  split at h
  · split at h
    · exact Or.inl (Except.ok.inj h).symm
    · cases h
  · cases h
  · exact Or.inr ⟨_, rfl, h⟩

/-- What the local spec alone decides of a result, as a result with those
fields. -/
private theorem calcRelo_local_eq {host : ByteOrder} {kind : CoreReloKind}
    {lb : Btf} {localSpec : CoreSpec} {n : Nat} :
    ∃ own : Bool × Nat, ∀ {targ : Option (Btf × CoreSpec)}
      {res : CoreReloRes},
      bpfCoreCalcRelo host kind lb localSpec targ n = .ok res →
        (res.validate, res.origSz) = own := by
  by_cases hf : coreReloIsFieldBased kind = true
  · cases ho : bpfCoreCalcFieldRelo host lb kind (some localSpec) n with
    | error e =>
      refine ⟨(true, 0), fun {targ res} h => ?_⟩
      rw [bpfCoreCalcRelo, if_pos hf, ho] at h
      cases h
    | ok orig =>
      refine ⟨(orig.validate, orig.fieldSz), fun {targ res} h => ?_⟩
      rw [bpfCoreCalcRelo, if_pos hf, ho] at h
      rcases orPoison_eq_ok h with rfl | ⟨new, -, hk⟩
      · rfl
      by_cases hsz : orig.fieldSz ≠ new.fieldSz
      · rw [if_pos hsz] at hk
        obtain ⟨ok, -, hres⟩ := of_bind_ok hk
        cases hres
        rfl
      · rw [if_neg hsz] at hk
        cases hk
        rfl
  · by_cases ht : coreReloIsTypeBased kind = true
    · cases ho : bpfCoreCalcTypeRelo lb kind (some localSpec) with
      | error e =>
        refine ⟨(true, 0), fun {targ res} h => ?_⟩
        rw [bpfCoreCalcRelo, if_neg hf, if_pos ht, ho] at h
        cases h
      | ok orig =>
        refine ⟨(orig.2, 0), fun {targ res} h => ?_⟩
        rw [bpfCoreCalcRelo, if_neg hf, if_pos ht, ho] at h
        obtain ⟨_, ⟨⟩, h⟩ := of_bind_ok h
        obtain ⟨new, -, hres⟩ := of_bind_ok h
        cases hres
        rfl
    · refine ⟨(true, 0), fun {targ res} h => ?_⟩
      by_cases he : coreReloIsEnumvalBased kind = true
      · rw [bpfCoreCalcRelo, if_neg hf, if_neg ht, if_pos he] at h
        obtain ⟨orig, -, h⟩ := of_bind_ok h
        rcases orPoison_eq_ok h with rfl | ⟨new, -, hk⟩
        · rfl
        · cases hk
          rfl
      · rw [bpfCoreCalcRelo, if_neg hf, if_neg ht, if_neg he] at h
        cases h

/-- What the local spec alone decides of a result: whether the instruction
is checked first, and the memory size it has. -/
theorem calcRelo_local {host : ByteOrder} {kind : CoreReloKind} {lb : Btf}
    {localSpec : CoreSpec} {n : Nat} {targ targ' : Option (Btf × CoreSpec)} {res res' : CoreReloRes}
    (h : bpfCoreCalcRelo host kind lb localSpec targ n = .ok res)
    (h' : bpfCoreCalcRelo host kind lb localSpec targ' n = .ok res') :
    res.validate = res'.validate ∧ res.origSz = res'.origSz := by
  obtain ⟨own, hown⟩ := @calcRelo_local_eq host kind lb localSpec n
  have := (hown h).trans (hown h').symm
  exact Prod.mk.inj this

theorem evalCand_local {host : ByteOrder} {relo : CoreRelo} {lb : Btf}
    {localSpec : CoreSpec} {n : Nat} {c c' : CoreCand} {r r' : CoreReloRes × CoreSpec}
    (h : matchOf (evalCand host relo lb localSpec n) c = some r)
    (h' : matchOf (evalCand host relo lb localSpec n) c' = some r') :
    r.1.validate = r'.1.validate ∧ r.1.origSz = r'.1.origSz := by
  have hcalc : ∀ {c : CoreCand} {r : CoreReloRes × CoreSpec},
      matchOf (evalCand host relo lb localSpec n) c = some r →
      ∃ targ, bpfCoreCalcRelo host relo.kind lb localSpec targ n = .ok r.1 := by
    intro c r h
    rw [matchOf] at h
    split at h
    next o he =>
      subst h
      obtain ⟨⟨matched, candSpec⟩, -, he⟩ := of_bind_ok he
      cases matched with
      | false => cases he
      | true =>
        obtain ⟨res, hres, he⟩ := of_bind_ok he
        cases he
        exact ⟨_, hres⟩
    next => cases h
  obtain ⟨targ, h⟩ := hcalc h
  obtain ⟨targ', h'⟩ := hcalc h'
  exact calcRelo_local h h'

-- ======== the whole call

/-- The two outcomes are the same for whoever patches the instruction:
both fail, or both succeed with the same values and the same candidates. -/
def SamePatch (o o' : Res (CoreReloRes × List CoreCand)) : Prop :=
  match o, o' with
  | .ok (a, cs), .ok (b, cs') =>
    a.newVal = b.newVal ∧ a.poison = b.poison ∧ a.validate = b.validate
      ∧ a.origSz = b.origSz ∧ a.newSz = b.newSz
      ∧ a.failMemszAdjust = b.failMemszAdjust ∧ cs.Perm cs'
  | .error _, .error _ => True
  | _, _ => False

/-- All candidates that match ask for one memory size, and agree whether
the instruction's can be changed to it. -/
def SameMemSize (host : ByteOrder) (relo : CoreRelo) (lb : Btf)
    (cands : List CoreCand) (n : Nat) : Prop :=
  ∀ localSpec, bpfCoreParseSpec lb relo n = .ok localSpec → ∀ c ∈ cands, ∀ c' ∈ cands, ∀ r r',
      matchOf (evalCand host relo lb localSpec n) c = some r →
      matchOf (evalCand host relo lb localSpec n) c' = some r' →
      r.1.newSz = r'.1.newSz ∧ r.1.failMemszAdjust = r'.1.failMemszAdjust

/-- The run over the candidates. -/
def RunsOver (host : ByteOrder) (relo : CoreRelo) (lb : Btf)
    (localSpec : CoreSpec) (n : Nat) : Prop :=
  ∀ cands, bpfCoreCalcReloInsn host relo lb cands n =
    (candsFrom (evalCand host relo lb localSpec n) candsAgree cands none).bind fun o =>
      match o.1 with
      | some r => .ok (r.1, o.2)
      | none => (bpfCoreCalcRelo host relo.kind lb localSpec none
          n).bind fun res => .ok (res, cands)

/-- The call without its candidates: it stops, it is done, or it goes over
them with a local spec. -/
theorem calcReloInsn_cases (host : ByteOrder) (relo : CoreRelo) (lb : Btf) (n : Nat) :
    (∃ e, ∀ cands, bpfCoreCalcReloInsn host relo lb cands n = .error e)
      ∨ (relo.kind = .typeIdLocal ∧ ∃ res, ∀ cands,
          bpfCoreCalcReloInsn host relo lb cands n = .ok (res, cands))
      ∨ ∃ localSpec, bpfCoreParseSpec lb relo n = .ok localSpec
          ∧ RunsOver host relo lb localSpec n := by
  unfold RunsOver bpfCoreCalcReloInsn
  cases btfTypeById lb relo.typeId with
  | none => exact Or.inl ⟨.fault, fun _ => rfl⟩
  | some localType =>
    simp only [deref, bind, Except.bind]
    cases lb.strByOffset localType.nameOff with
    | none => exact Or.inl ⟨_, fun _ => rfl⟩
    | some localName =>
      simp only [pure, Except.pure]
      cases hp : bpfCoreParseSpec lb relo n with
      | error e =>
        left
        cases e <;> exact ⟨_, fun _ => rfl⟩
      | ok localSpec =>
        dsimp only
        by_cases hk : relo.kind = .typeIdLocal
        · simp only [if_pos hk]
          exact Or.inr (Or.inl ⟨hk, _, fun _ => rfl⟩)
        simp only [if_neg hk]
        by_cases hn : localName.val = []
        · left
          refine ⟨.err (-EOPNOTSUPP), fun _ => ?_⟩
          simp [failIf, hn, fail]
        right
        right
        refine ⟨localSpec, rfl, fun cands => ?_⟩
        simp only [failIf, if_neg hn]
        cases candsFrom (evalCand host relo lb localSpec n)
          candsAgree cands none with
        | error e => rfl
        | ok o =>
          obtain ⟨first, kept⟩ := o
          cases first <;> rfl

/-- A successful run: its local spec, that its candidates are consistent,
and its result. -/
theorem calcReloInsn_ok {host : ByteOrder} {relo : CoreRelo} {lb : Btf}
    {localSpec : CoreSpec} {n : Nat} (hrun : RunsOver host relo lb localSpec n)
    {cands : List CoreCand} {out : CoreReloRes × List CoreCand} :
    bpfCoreCalcReloInsn host relo lb cands n = .ok out ↔
      Consistent (evalCand host relo lb localSpec n) candsAgree cands
        ∧ match cands.findSome? (matchOf (evalCand host relo lb localSpec n)) with
          | some r => out = (r.1, cands.filter fun c =>
            (matchOf (evalCand host relo lb localSpec n) c).isSome)
          | none => ∃ res, bpfCoreCalcRelo host relo.kind lb localSpec none n
              = .ok res ∧ out = (res, cands) := by
  rw [hrun]
  refine except_bind_eq_ok.trans ?_
  constructor
  · intro ⟨o, ho, hout⟩
    obtain ⟨hc, rfl⟩ := cands_eq_ok.mp ho
    refine ⟨hc, ?_⟩
    dsimp only at hout
    split at hout
    · exact (Except.ok.inj hout).symm
    · obtain ⟨res, hres, hout⟩ := of_bind_ok hout
      exact ⟨res, hres, (Except.ok.inj hout).symm⟩
  · intro ⟨hc, hout⟩
    refine ⟨_, cands_eq_ok.mpr ⟨hc, rfl⟩, ?_⟩
    dsimp only
    split at hout
    · rw [hout]
    · obtain ⟨res, hres, rfl⟩ := hout
      exact bind_ok hres rfl

section

variable {host : ByteOrder} {relo : CoreRelo} {lb : Btf}
  {localSpec : CoreSpec} {n : Nat}

/-- A reordered run succeeds as well, with the first match in its order, or
with no match in either. -/
theorem RunsOver.perm (hrun : RunsOver host relo lb localSpec n)
    {cands cands' : List CoreCand} (hp : cands.Perm cands') {out : CoreReloRes × List CoreCand}
    (h : bpfCoreCalcReloInsn host relo lb cands n = .ok out) :
    (∃ c ∈ cands, ∃ c' ∈ cands, ∃ r r', matchOf (evalCand host relo lb localSpec n) c = some r
          ∧ matchOf (evalCand host relo lb localSpec n) c' = some r'
          ∧ candsAgree r r' = true
          ∧ out = (r.1, cands.filter fun c =>
              (matchOf (evalCand host relo lb localSpec n) c).isSome)
          ∧ bpfCoreCalcReloInsn host relo lb cands' n = .ok (r'.1, cands'.filter fun c =>
              (matchOf (evalCand host relo lb localSpec n) c).isSome))
      ∨ ∃ res, out = (res, cands)
          ∧ bpfCoreCalcReloInsn host relo lb cands' n = .ok (res, cands') := by
  obtain ⟨hc, hout⟩ := (calcReloInsn_ok hrun).mp h
  cases hf : cands.findSome? (matchOf (evalCand host relo lb localSpec n)) with
  | some r =>
    left
    rw [hf] at hout
    obtain ⟨c, hmem, hr⟩ := exists_of_findSome?_eq_some hf
    have hsome : (cands'.findSome? (matchOf
        (evalCand host relo lb localSpec n))).isSome = true := by
      rw [findSome?_isSome_iff]
      exact ⟨c, hp.mem_iff.mp hmem, by rw [hr]; rfl⟩
    obtain ⟨r', hf'⟩ := Option.isSome_iff_exists.mp hsome
    obtain ⟨c', hmem', hr'⟩ := exists_of_findSome?_eq_some hf'
    have hmem'' := hp.mem_iff.mpr hmem'
    refine ⟨c, hmem, c', hmem'', r, r', hr, hr', hc.agree c hmem c' hmem'' r r' hr hr', hout, ?_⟩
    refine (calcReloInsn_ok hrun).mpr ⟨hc.perm hp, ?_⟩
    rw [hf']
  | none =>
    right
    rw [hf] at hout
    obtain ⟨res, hres, rfl⟩ := hout
    refine ⟨res, rfl, (calcReloInsn_ok hrun).mpr ⟨hc.perm hp, ?_⟩⟩
    have hf' : cands'.findSome? (matchOf (evalCand host relo lb localSpec n)) = none := by
      rw [findSome?_eq_none_iff] at hf ⊢
      exact fun c hc => hf c (hp.mem_iff.mpr hc)
    rw [hf']
    exact ⟨res, hres, rfl⟩

/-- A candidate that matches, put first, decides the result. -/
theorem RunsOver.head (hrun : RunsOver host relo lb localSpec n)
    {c : CoreCand} {cs : List CoreCand} {r : CoreReloRes × CoreSpec}
    (hr : matchOf (evalCand host relo lb localSpec n) c = some r)
    {out : CoreReloRes × List CoreCand}
    (h : bpfCoreCalcReloInsn host relo lb (c :: cs) n = .ok out) :
    out.1 = r.1 := by
  obtain ⟨-, hout⟩ := (calcReloInsn_ok hrun).mp h
  rw [findSome?_cons, hr] at hout
  rw [hout]

/-- No candidate is evaluated for the ID of the local type. -/
theorem matchOf_typeIdLocal (hk : relo.kind = .typeIdLocal) (c : CoreCand) :
    matchOf (evalCand host relo lb localSpec n) c = none := by
  rw [matchOf]
  split
  next o he =>
    obtain ⟨⟨matched, candSpec⟩, -, he⟩ := of_bind_ok he
    cases matched with
    | false => exact (Except.ok.inj he).symm
    | true =>
      obtain ⟨res, hres, -⟩ := of_bind_ok he
      rw [hk] at hres
      cases hres
  next => rfl

end

theorem SamePatch.of_ok {o o' : Res (CoreReloRes × List CoreCand)}
    {out : CoreReloRes × List CoreCand} (h : SamePatch o o')
    (ho : o = .ok out) : ∃ out', o' = .ok out' ∧ out.1.newSz = out'.1.newSz
      ∧ out.1.failMemszAdjust = out'.1.failMemszAdjust := by
  subst ho
  cases o' with
  | error e => exact h.elim
  | ok out' => exact ⟨out', rfl, h.2.2.2.2.1, h.2.2.2.2.2.1⟩

/-- A BTF with `struct s { int a; }` and its flavor
`struct s___2 { long a; }`. -/
def flavors : Bytes :=
  btfImage .little
    [⟨1, btfTypeInfo .int 0 false, 4, [32]⟩, ⟨5, btfTypeInfo .int 0 false, 8, [64]⟩,
      ⟨10, btfTypeInfo .struct 1 false, 4, [12, 1, 0]⟩,
      ⟨14, btfTypeInfo .struct 1 false, 8, [12, 2, 0]⟩]
    -- "", "int", "long", "s", "a", "s___2" and the access string "0:0"
    [0, 105, 110, 116, 0, 108, 111, 110, 103, 0, 115, 0, 97, 0,
      115, 95, 95, 95, 50, 0, 48, 58, 48, 0]

end Libbpf
