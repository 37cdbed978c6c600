/-
CO-RE against the BTF a program was compiled with.

A local spec is parsed by following indices; a target spec is found by
searching names, member by member and through unnamed members. Against
the same BTF and type the search comes to the member the indices lead to
if no other member has its name (`matchMemberFrom_hit`), and to nothing
before that (`matchMemberFrom_miss`). The match then repeats the local
spec accessor by accessor (`specMatch_self`).

What has to be asked for this is more than that the names of the root are
unique: the structs an access passes through need unique names as well, a
member's type has to be one that is compatible with itself, and the search
must find room on the raw spec for the unnamed members it looks into.
-/
import Libbpf.Core.Accepted

namespace Libbpf

open Lib List

variable {id id' i idx bits st depth cur tid : Nat} {t u : BtfType} {q rest : List Nat}
  {sp sm s sp' : CoreSpec} {m : BtfMember} {accs : List CoreAccessor}

-- ======== the routes

/-- Unnamed members lead from type `id` over the indices `q` to the
composite `t` with ID `id'`; they lie at `bits`. -/
inductive Route (btf : Btf) : Nat → List Nat → BtfType → Nat → Nat → Prop
  | here {id id' : Nat} {t : BtfType} (ht : Resolves btf id t id')
      (hc : t.isComposite = true) : Route btf id [] t id' 0
  | under {id id' uid i bits : Nat} {t u : BtfType} {m : BtfMember} {q : List Nat}
      (ht : Resolves btf id t id') (hc : t.isComposite = true) (hi : i < t.vlen)
      (hm : t.member? i = some m)
      (hn : strIsEmpty (btf.strByOffset m.nameOff) = true)
      (h : Route btf m.type q u uid bits) :
      Route btf id (i :: q) u uid (btfMemberBitOffset t m + bits)

/-- Member `i` at the end of the route `q` has this name. -/
def NamedAt (btf : Btf) (id : Nat) (q : List Nat) (i : Nat) (name : CStr) : Prop :=
  ∃ t id' bits m, Route btf id q t id' bits ∧ i < t.vlen ∧ t.member? i = some m
    ∧ btf.strByOffset m.nameOff = some name ∧ name.val ≠ []

/-- No two members, of the type or of its unnamed ones, have one name. -/
def UniqueNames (btf : Btf) (id : Nat) : Prop :=
  ∀ q q' i i' name, NamedAt btf id q i name → NamedAt btf id q' i' name → q = q' ∧ i = i'

/-- The raw spec has room for the unnamed members, with `len` indices on
it already. -/
def NestFits (btf : Btf) (id len : Nat) : Prop :=
  ∀ q t id' bits, Route btf id q t id' bits → len + q.length < BPF_CORE_SPEC_MAX_LEN

section

variable {btf : Btf}

theorem NamedAt.under {j : Nat} {name : CStr} (ht : Resolves btf id t id')
    (hc : t.isComposite = true) (hi : i < t.vlen) (hm : t.member? i = some m)
    (hn : strIsEmpty (btf.strByOffset m.nameOff) = true)
    (h : NamedAt btf m.type q j name) : NamedAt btf id (i :: q) j name := by
  obtain ⟨u, uid, bits, um, hr, hj, hum, hname⟩ := h
  exact ⟨u, uid, _, um, .under ht hc hi hm hn hr, hj, hum, hname⟩

theorem NestFits.under {len : Nat}
    (ht : Resolves btf id t id') (hc : t.isComposite = true) (hi : i < t.vlen)
    (hm : t.member? i = some m) (hn : strIsEmpty (btf.strByOffset m.nameOff) = true)
    (h : NestFits btf id len) : NestFits btf m.type (len + 1) := by
  intro q u uid bits hr
  have := h _ _ _ _ (.under ht hc hi hm hn hr)
  rw [length_cons] at this
  omega

/-- A type found by skipping is found from itself. -/
theorem Resolves.self (h : Resolves btf id t id') : Resolves btf id' t id' := by
  obtain ⟨n, hn⟩ := h
  obtain ⟨htype, hplain⟩ := skipMods_end hn
  refine ⟨1, ?_⟩
  rw [skipModsAndTypedefs, htype]
  dsimp only
  rw [if_neg (by simp [hplain])]

/-- A route starts at the resolved type as well. -/
theorem Route.skip {uid : Nat} (ht : Resolves btf id t id') :
    Route btf id q u uid bits ↔ Route btf id' q u uid bits := by
  constructor
  · intro h
    cases h with
    | here ht' hc =>
      obtain ⟨rfl, rfl⟩ := ht.unique ht'
      exact .here ht'.self hc
    | under ht' hc hi hm hn h =>
      obtain ⟨rfl, rfl⟩ := ht.unique ht'
      exact .under ht'.self hc hi hm hn h
  · intro h
    cases h with
    | here ht' hc =>
      obtain ⟨rfl, rfl⟩ := ht.self.unique ht'
      exact .here ht hc
    | under ht' hc hi hm hn h =>
      obtain ⟨rfl, rfl⟩ := ht.self.unique ht'
      exact .under ht hc hi hm hn h

theorem NamedAt.skip {name : CStr} (ht : Resolves btf id t id') :
    NamedAt btf id q i name ↔ NamedAt btf id' q i name := by
  unfold NamedAt
  simp only [Route.skip ht]

end

-- ======== the search

section

variable {btf : Btf} {n : Nat} {name : CStr}

/-- Members the loop goes past: unnamed ones in which nothing is found, and
ones of another name. -/
def Passes (btf : Btf) (name : CStr) (t : BtfType)
    (deeper : Nat → CoreSpec → Res (Option Nat × CoreSpec)) (s : CoreSpec) (i : Nat) : Prop :=
  ∃ m, t.member? i = some m ∧ (strIsEmpty (btf.strByOffset m.nameOff) = true
        ∧ deeper m.type ((s.addBits (btfMemberBitOffset t m)).pushRaw i)
            = .ok (none, (s.addBits (btfMemberBitOffset t m)).pushRaw i)
      ∨ ∃ name', btf.strByOffset m.nameOff = some name' ∧ name'.val ≠ [] ∧ name ≠ name')

theorem strIsEmpty_some {s : CStr} : strIsEmpty (some s) = true ↔ s.val = [] :=
  List.isEmpty_iff

theorem matchMembers_passes {localType targId : Nat}
    {deeper : Nat → CoreSpec → Res (Option Nat × CoreSpec)}
    (hroom : s.rawSpec.length ≠ BPF_CORE_SPEC_MAX_LEN) :
    ∀ {is : List Nat}, (∀ i ∈ is, Passes btf name t deeper s i) →
      matchMembers btf (some name) localType btf n t targId deeper (is ++ rest) s
        = matchMembers btf (some name) localType btf n t targId deeper rest s
  | [], _ => rfl
  | i :: is, h => by
    obtain ⟨m, hm, hpass⟩ := h i mem_cons_self
    have hrest : ∀ j ∈ is, Passes btf name t deeper s j :=
      fun j hj => h j (mem_cons_of_mem _ hj)
    rw [cons_append, matchMembers, hm]
    dsimp only [deref, bind, Except.bind]
    rw [failIf, if_neg hroom]
    dsimp only
    rcases hpass with ⟨hempty, hdeep⟩ | ⟨name', hname', hne, hother⟩
    · rw [if_pos hempty, hdeep]
      dsimp only
      rw [CoreSpec.unpush_push]
      exact matchMembers_passes hroom hrest
    rw [hname', if_neg (by rw [strIsEmpty_some]; exact hne), strEq]
    dsimp only
    rw [if_neg (by simpa using hother), CoreSpec.unpush_push]
    exact matchMembers_passes hroom hrest

variable (hacc : btf.Accepted) (hn : Enough btf n) {acc : CoreAccessor}
  {lt : BtfType} {lm : BtfMember} (hlt : btfTypeById btf acc.typeId = some lt)
  (hlm : lt.member? acc.idx = some lm)
  (hname : btf.strByOffset lm.nameOff = some name)

include hn hacc in
theorem skip_resolves (hu : btf.typeById id = some u) :
    ∃ t id', skipModsAndTypedefs btf n id = .ok (t, id') ∧ Resolves btf id t id' := by
  obtain ⟨t, id', h⟩ := hacc.skip (hn id) hu
  exact ⟨t, id', h, n, h⟩

include hlt hlm hname in
/-- One level of the search, over a composite. -/
theorem matchMemberFrom_composite (hskip : skipModsAndTypedefs btf n id = .ok (t, id'))
    (hc : t.isComposite = true) (s : CoreSpec) :
    matchMemberFrom btf acc btf n (depth + 1) id s
      = matchMembers btf (some name) lm.type btf n t id'
          (matchMemberFrom btf acc btf n depth) (List.range t.vlen) s := by
  rw [matchMemberFrom, hskip]
  dsimp only [bind, Except.bind]
  rw [if_neg (by simp [hc]), hlt]
  dsimp only [deref]
  rw [hlm]
  dsimp only
  rw [hname]

/-- Searches of this depth for a name that is not there leave the spec as it
was. -/
def Misses (btf : Btf) (n : Nat) (name : CStr) (acc : CoreAccessor) (depth : Nat) : Prop :=
  ∀ id u s, btf.typeById id = some u → s.rawSpec.length ≤ BPF_CORE_SPEC_MAX_LEN →
    BPF_CORE_SPEC_MAX_LEN < s.rawSpec.length + depth →
    NestFits btf id s.rawSpec.length → (∀ q i, ¬ NamedAt btf id q i name) →
    matchMemberFrom btf acc btf n depth id s = .ok (none, s)

include hacc in
/-- The members before one that the search looks into or stops at. -/
theorem passes_before (hmiss : Misses btf n name acc depth)
    (hskip : skipModsAndTypedefs btf n id = .ok (t, id'))
    (hc : t.isComposite = true) (hi : i ≤ t.vlen) (hlen : s.rawSpec.length < BPF_CORE_SPEC_MAX_LEN)
    (hdepth : BPF_CORE_SPEC_MAX_LEN < s.rawSpec.length + (depth + 1))
    (hfits : NestFits btf id s.rawSpec.length)
    (hfirst : ∀ j, j < i → (∀ q k, ¬ NamedAt btf id (j :: q) k name) ∧ ¬ NamedAt btf id [] j name) :
    ∀ j ∈ List.range i, Passes btf name t (matchMemberFrom btf acc btf n depth) s j := by
  have hres : Resolves btf id t id' := ⟨n, hskip⟩
  intro j hj
  have hji := mem_range.mp hj
  have hj : j < t.vlen := by omega
  obtain ⟨m, v, str, hm, hv, hstr⟩ := hacc.member (skipMods_end hskip).1 hc hj
  obtain ⟨hunder, hnot⟩ := hfirst j hji
  refine ⟨m, hm, ?_⟩
  by_cases hempty : strIsEmpty (btf.strByOffset m.nameOff) = true
  · have hpush : ((s.addBits (btfMemberBitOffset t m)).pushRaw j).rawSpec.length
        = s.rawSpec.length + 1 := length_append
    refine .inl ⟨hempty, hmiss _ _ _ hv (by omega) (by omega) ?_ ?_⟩
    · rw [hpush]
      exact hfits.under hres hc hj hm hempty
    · exact fun q k h => hunder q k (h.under hres hc hj hm hempty)
  · rw [hstr, strIsEmpty_some] at hempty
    refine .inr ⟨str, hstr, hempty, fun he => ?_⟩
    subst he
    exact hnot ⟨t, id', 0, m, .here hres hc, hj, hm, hstr, hempty⟩

include hacc hn hlt hlm hname in
theorem matchMemberFrom_miss (depth : Nat) : Misses btf n name acc depth := by
  induction depth with
  | zero =>
    intro id u s _ hlen hdepth
    omega
  | succ depth ih =>
    intro id u s hu hlen hdepth hfits hnone
    obtain ⟨t, id', hskip, hres⟩ := skip_resolves hacc hn hu
    by_cases hc : t.isComposite = true
    · have hroom := hfits _ _ _ _ (.here hres hc)
      rw [length_nil] at hroom
      rw [matchMemberFrom_composite hlt hlm hname hskip hc, ← append_nil (List.range t.vlen)]
      exact matchMembers_passes (by omega) (passes_before hacc ih hskip hc
        (Nat.le_refl _) hroom hdepth hfits fun j _ =>
          ⟨fun q k => hnone _ _, hnone _ _⟩)
    · rw [matchMemberFrom, hskip]
      dsimp only [bind, Except.bind]
      rw [if_pos (by simpa using hc)]
      rfl

theorem range_split {k : Nat} (h : i < k) : ∃ rest, List.range k = List.range i ++ i :: rest := by
  obtain ⟨d, rfl⟩ : ∃ d, k = i + (d + 1) := ⟨k - i - 1, by omega⟩
  refine ⟨(List.range d).map (i + 1 + ·), ?_⟩
  rw [range_add, range_succ_eq_map, map_cons, map_map]
  congr 2
  refine map_congr_left fun x _ => ?_
  dsimp only [Function.comp]
  omega

/-- A spec with a route and a member entered on it. -/
def CoreSpec.enter (s : CoreSpec) (q : List Nat) (i bits : Nat) (acc : CoreAccessor) : CoreSpec :=
  { s with
    rawSpec := s.rawSpec ++ (q ++ [i])
    spec := s.spec ++ [acc]
    bitOffset := s.bitOffset + BitVec.ofNat 32 bits }

include hacc hn hlt hlm hname in
/-- The search finds the one member of the name. -/
theorem matchMemberFrom_hit (hcompat : bpfCoreFieldsAreCompat btf lm.type btf m.type n = .ok true)
    (hne : name.val ≠ []) : ∀ {q : List Nat} {depth id uid bits : Nat} {u v : BtfType}
      {s : CoreSpec}, btf.typeById id = some v → Route btf id q u uid bits →
      i < u.vlen → u.member? i = some m → btf.strByOffset m.nameOff = some name →
      BPF_CORE_SPEC_MAX_LEN < s.rawSpec.length + depth →
      NestFits btf id s.rawSpec.length →
      (∀ q' i', NamedAt btf id q' i' name → q' = q ∧ i' = i) →
      matchMemberFrom btf acc btf n depth id s
        = .ok (some m.type, s.enter q i (bits + btfMemberBitOffset u m) ⟨uid, i, some name⟩) := by
  intro q
  induction q with
  | nil =>
    intro depth id uid bits u v s hv hroute hi hm hmname hdepth hfits honly
    cases hroute with
    | here hres hc =>
    obtain ⟨t, id', hskip, hres'⟩ := skip_resolves hacc hn hv
    obtain ⟨rfl, rfl⟩ := hres.unique hres'
    have hroom := hfits _ _ _ _ (.here hres hc)
    rw [length_nil] at hroom
    obtain ⟨depth, rfl⟩ : ∃ d, depth = d + 1 := ⟨depth - 1, by omega⟩
    obtain ⟨rest, hrange⟩ := range_split hi
    rw [matchMemberFrom_composite hlt hlm hname hskip hc, hrange]
    have hmiss := matchMemberFrom_miss hacc hn hlt hlm hname depth
    rw [matchMembers_passes (by omega) (passes_before hacc hmiss hskip hc
      (Nat.le_of_lt hi) hroom hdepth hfits
      fun j hji => ⟨fun q' k h => ?_, fun h => ?_⟩)]
    · rw [matchMembers, hm]
      dsimp only [deref, bind, Except.bind]
      rw [failIf, if_neg (by omega)]
      dsimp only
      rw [hmname, if_neg (by rw [strIsEmpty_some]; exact hne), strEq]
      dsimp only
      rw [if_pos (by simp), matchNamed, hcompat]
      dsimp only [bind, Except.bind]
      rw [if_pos rfl, Nat.zero_add]
      rfl
    · cases (honly _ _ h).1
    · have := (honly _ _ h).2
      omega
  | cons k q ih =>
    intro depth id uid bits u v s hv hroute hi hm hmname hdepth hfits honly
    cases hroute with
    | @under _ id₀ _ _ bits t _ mk _ hres hc hk hmk hempty hroute =>
    obtain ⟨t', id', hskip, hres'⟩ := skip_resolves hacc hn hv
    obtain ⟨rfl, rfl⟩ := hres.unique hres'
    have hroom := hfits _ _ _ _ (.here hres hc)
    rw [length_nil] at hroom
    obtain ⟨depth, rfl⟩ : ∃ d, depth = d + 1 := ⟨depth - 1, by omega⟩
    obtain ⟨rest, hrange⟩ := range_split hk
    obtain ⟨mk', w, str, hmk', hw, -⟩ := hacc.member (skipMods_end hskip).1 hc hk
    rw [hmk, Option.some.injEq] at hmk'
    subst hmk'
    have hpush : ((s.addBits (btfMemberBitOffset t' mk)).pushRaw k).rawSpec.length
        = s.rawSpec.length + 1 := length_append
    rw [matchMemberFrom_composite hlt hlm hname hskip hc, hrange]
    have hmiss := matchMemberFrom_miss hacc hn hlt hlm hname depth
    rw [matchMembers_passes (by omega) (passes_before hacc hmiss hskip hc
      (Nat.le_of_lt hk) hroom hdepth hfits
      fun j hji => ⟨fun q' k' h => ?_, fun h => ?_⟩)]
    · have hdeep := ih hw hroute hi hm hmname (by rw [hpush]; omega :
          _ < ((s.addBits (btfMemberBitOffset t' mk)).pushRaw k).rawSpec.length + depth)
        (by rw [hpush]; exact hfits.under hres hc hk hmk hempty)
        fun q' i' h => by
          obtain ⟨hq, hi'⟩ := honly _ _ (h.under hres hc hk hmk hempty)
          exact ⟨(List.cons.inj hq).2, hi'⟩
      rw [matchMembers, hmk]
      dsimp only [deref, bind, Except.bind]
      rw [failIf, if_neg (by omega)]
      dsimp only
      rw [if_pos hempty, hdeep]
      dsimp only
      rw [if_pos Option.isSome_some]
      simp [CoreSpec.enter, CoreSpec.addBits, CoreSpec.pushRaw, BitVec.ofNat_add,
        BitVec.add_assoc, Nat.add_assoc, pure, Except.pure]
    · have := (List.cons.inj (honly _ _ h).1).1
      omega
    · cases (honly _ _ h).1

end

-- ======== compatible with itself

/-- A kind that `bpf_core_fields_are_compat` takes to be compatible with
itself; an INT only if it is not one of the old bitfields. -/
def BtfType.SelfCompat (t : BtfType) : Prop :=
  match t.kind with
  | .struct | .union | .ptr | .float | .fwd | .enum | .enum64 => True
  | .int => ∃ w, t.intWord? = some w ∧ btfIntOffset w = 0
  | _ => False

/-- A type compatible with itself, or an array of such. -/
inductive Comparable (btf : Btf) : Nat → Prop
  | leaf {id id' : Nat} {t : BtfType} (ht : Resolves btf id t id')
      (hk : t.SelfCompat) : Comparable btf id
  | array {id id' : Nat} {t : BtfType} {a : BtfArray} (ht : Resolves btf id t id')
      (harr : t.isArray = true) (ha : t.array? = some a)
      (h : Comparable btf a.type) : Comparable btf id

section

variable {btf : Btf} {n : Nat} (hacc : btf.Accepted) (hn : Enough btf n)

theorem Resolves.type (h : Resolves btf id t id') : ∃ u, btf.typeById id = some u := by
  obtain ⟨k, hk⟩ := h
  cases k with
  | zero => cases hk
  | succ k =>
    rw [skipModsAndTypedefs] at hk
    cases hid : btf.typeById id with
    | none =>
      rw [hid] at hk
      cases hk
    | some u => exact ⟨u, rfl⟩

include hacc hn in
theorem Resolves.skip (h : Resolves btf id t id') :
    skipModsAndTypedefs btf n id = .ok (t, id') := by
  obtain ⟨u, hu⟩ := h.type
  obtain ⟨t', id'', hskip, hres⟩ := skip_resolves hacc hn hu
  obtain ⟨rfl, rfl⟩ := h.unique hres
  exact hskip

theorem fieldNamesCompat_self (a : CStr) : fieldNamesCompat (some a) (some a) = .ok true := by
  simp [fieldNamesCompat, essentialNameEq, strnEq]

include hacc hn in
theorem fieldsCompat_self (h : Comparable btf id) : ∀ {left : Nat},
    climb btf.follow left id = none →
    fieldsCompatFrom btf btf n left id id = .ok true := by
  induction h with
  | @leaf id id' t ht hk =>
    intro left hend
    cases left with
    | zero => cases hend
    | succ left =>
    rw [fieldsCompatFrom, ht.skip hacc hn]
    dsimp only [bind, Except.bind]
    split
    · rfl
    rw [if_neg (by simp [btfKindCoreCompat])]
    obtain ⟨name, hname⟩ := hacc.name (skipMods_end (ht.skip hacc hn)).1
    unfold BtfType.SelfCompat at hk
    cases hkind : t.kind with
    | struct | union =>
      next hnc =>
      rw [BtfType.isComposite, hkind] at hnc
      exact absurd rfl hnc
    | ptr | float => rfl
    | fwd | enum | enum64 =>
      dsimp only
      rw [hname]
      exact fieldNamesCompat_self name
    | int =>
      rw [hkind] at hk
      obtain ⟨w, hw, hoff⟩ := hk
      dsimp only
      rw [intsCompat, hw]
      dsimp only
      rw [hoff]
      rfl
    | _ =>
      rw [hkind] at hk
      exact hk.elim
  | @array id id' t a ht harr ha h ih =>
    intro left hend
    cases left with
    | zero => cases hend
    | succ left =>
    have hskip := ht.skip hacc hn
    have hkind : t.kind = .array := beq_iff_eq.mp harr
    obtain ⟨htype, hplain⟩ := skipMods_end hskip
    have hbehind : Behind btf id t id' := ⟨htype, hplain, skip_chain hskip, ht⟩
    rw [fieldsCompatFrom, hskip]
    dsimp only [bind, Except.bind]
    rw [if_neg (by simp [BtfType.isComposite, hkind]), if_neg (by simp [btfKindCoreCompat]), hkind]
    dsimp only
    rw [ha]
    exact ih (hbehind.elem harr ha hend)

end

-- ======== one step

section

variable {btf : Btf} {n : Nat}

/-- What one turn of the parser's loop does. -/
theorem parseSpecStep_cases {s' : CoreSpec} (h : parseSpecStep btf n idx id s = .ok (id', s')) :
    ∃ t tid, skipModsAndTypedefs btf n id = .ok (t, tid)
      ∧ ((t.isComposite = true ∧ idx < t.vlen ∧ ∃ m, t.member? idx = some m ∧ id' = m.type
          ∧ (m.nameOff = 0 ∧ s' = s.addBits (btfMemberBitOffset t m)
            ∨ m.nameOff ≠ 0 ∧ ∃ name, btf.strByOffset m.nameOff = some name ∧ name.val ≠ []
              ∧ s' = (s.addBits (btfMemberBitOffset t m)).addAcc ⟨tid, idx, some name⟩))
        ∨ (t.isComposite = false ∧ t.isArray = true ∧ ∃ a et last flex sz,
            t.array? = some a ∧ skipModsAndTypedefs btf n a.type = .ok (et, id')
            ∧ s.spec.getLast? = some last ∧ isFlexArr btf last a = .ok flex
            ∧ (flex = true ∨ idx < a.nelems) ∧ btfResolveSize btf id' = .ok sz
            ∧ s' = (s.addAcc ⟨id', idx, none⟩).addBits (idx * sz * 8))) := by
  obtain ⟨⟨t, tid⟩, hskip, h⟩ := of_bind_ok h
  refine ⟨t, tid, hskip, ?_⟩
  dsimp only at h
  split at h
  · next hc =>
      obtain ⟨_, hlt, h⟩ := of_bind_ok h
      obtain ⟨m, hm, h⟩ := of_bind_ok h
      have hlt := failIf_eq_ok.mp hlt
      refine .inl ⟨hc, by omega, m, deref_eq_ok.mp hm, ?_⟩
      split at h
      · next hoff =>
          obtain ⟨_, hne, h⟩ := of_bind_ok h
          have hne := failIf_eq_ok.mp hne
          cases h
          refine ⟨rfl, .inr ⟨hoff, ?_⟩⟩
          cases hname : btf.strByOffset m.nameOff with
          | none =>
            rw [hname] at hne
            exact absurd rfl hne
          | some name =>
            rw [hname, strIsEmpty_some] at hne
            exact ⟨name, rfl, hne, rfl⟩
      · next hoff =>
          cases h
          exact ⟨rfl, .inl ⟨Decidable.not_not.mp hoff, rfl⟩⟩
  · next hc =>
      split at h
      · next harr =>
          obtain ⟨a, ha, h⟩ := of_bind_ok h
          obtain ⟨⟨et, eid⟩, he, h⟩ := of_bind_ok h
          obtain ⟨last, hlast, h⟩ := of_bind_ok h
          obtain ⟨flex, hflex, h⟩ := of_bind_ok h
          obtain ⟨_, hin, h⟩ := of_bind_ok h
          obtain ⟨sz, hsz, h⟩ := of_bind_ok h
          have hin := failIf_eq_ok.mp hin
          cases h
          refine .inr ⟨by simpa using hc, harr, a, et, last, flex, sz, deref_eq_ok.mp ha,
            he, deref_eq_ok.mp hlast, hflex, ?_, hsz, rfl⟩
          cases flex with
          | true => exact .inl rfl
          | false => exact .inr (by simpa using hin)
      · cases h

theorem parseSpecFrom_root : ∀ {raw : List Nat} {id : Nat} {s spec : CoreSpec},
    parseSpecFrom btf n raw id s = .ok spec → spec.rootTypeId = s.rootTypeId
  | [], _, _, _, h => by
    cases h
    rfl
  | _ :: _, _, _, _, h => by
    obtain ⟨⟨id', s'⟩, hstep, h⟩ := of_bind_ok h
    rw [parseSpecFrom_root h]
    obtain ⟨t, tid, -, hcase⟩ := parseSpecStep_cases hstep
    rcases hcase with ⟨-, -, m, -, -, ⟨-, rfl⟩ | ⟨-, name, -, -, rfl⟩⟩
      | ⟨-, -, a, et, last, flex, sz, -, -, -, -, -, -, rfl⟩
    all_goals rfl

end

-- ======== the match

/-- An access may go on inside type `id`: it has further indices, and the
type is a composite. -/
def entersComposite (btf : Btf) (n : Nat) (raw : List Nat) (id : Nat) : Bool :=
  !raw.isEmpty && match skipModsAndTypedefs btf n id with
    | .ok (t, _) => t.isComposite
    | .error _ => false

/-- Along the indices `raw` from type `id`, an unnamed member is never the
last one, and it is a struct or a union. -/
def unnamedInside (btf : Btf) (n : Nat) : List Nat → Nat → Bool
  | [], _ => true
  | idx :: raw, id =>
    match skipModsAndTypedefs btf n id with
    | .error _ => false
    | .ok (t, _) =>
      if t.isComposite then
        match t.member? idx with
        | none => false
        | some m =>
          (m.nameOff != 0 || entersComposite btf n raw m.type)
            && unnamedInside btf n raw m.type
      else
        match t.array? with
        | none => false
        | some a => unnamedInside btf n raw a.type

/-- The type an accessor leads to. -/
def CoreAccessor.LeadsTo (btf : Btf) (acc : CoreAccessor) (id : Nat) : Prop :=
  match acc.name with
  | none => id = acc.typeId
  | some _ => ∃ t m, btf.typeById acc.typeId = some t ∧ t.member? acc.idx = some m ∧ id = m.type

/-- A named accessor of the spec is looked for from type `id` on. -/
def CoreSpec.Searches (btf : Btf) (spec : CoreSpec) (id : Nat) : Prop :=
  ∃ pre prev acc post, spec.spec = pre ++ prev :: acc :: post
    ∧ acc.name.isSome = true ∧ prev.LeadsTo btf id

/-- What a local spec has to meet for its own BTF to give it back. -/
structure CoreSpec.Findable (btf : Btf) (n : Nat) (spec : CoreSpec) : Prop where
  inside : unnamedInside btf n spec.rawSpec.tail spec.rootTypeId = true
  unique : ∀ id, spec.Searches btf id → UniqueNames btf id
  fits : ∀ id, spec.Searches btf id → ∀ q t id' bits, Route btf id q t id' bits →
    spec.rawSpec.length + q.length ≤ BPF_CORE_SPEC_MAX_LEN
  compat : ∀ acc ∈ spec.spec, acc.name.isSome = true → ∀ t m,
    btf.typeById acc.typeId = some t → t.member? acc.idx = some m →
    Comparable btf m.type
  sized : ∀ acc ∈ spec.spec, acc.name = none → ∀ sz,
    btfResolveSize btf acc.typeId = .ok sz → sz < 2 ^ 31

section

variable {btf : Btf} {n : Nat}

/-- Walking on from a typedef is walking on from what it stands for. -/
theorem unnamedInside_skip (raw : List Nat) (h : skipModsAndTypedefs btf n id = .ok (t, id'))
    (h' : skipModsAndTypedefs btf n id' = .ok (t, id')) :
    unnamedInside btf n raw id' = unnamedInside btf n raw id := by
  cases raw with
  | nil => rfl
  | cons idx raw => rw [unnamedInside, unnamedInside, h, h']

/-- The two walks at one point: the parser is at type `cur` with the spec
`sp`, the matcher still at `st` with `sm`; the unnamed members at `q` lie
between them. -/
structure InStep (btf : Btf) (rest : List Nat) (total cur st : Nat) (q : List Nat)
    (bits : Nat) (sp sm : CoreSpec) : Prop where
  known : ∃ v, btf.typeById st = some v
  route : ∀ q' t id' b, Route btf cur q' t id' b → Route btf st (q ++ q') t id' (bits + b)
  -- behind an unnamed member there is an index left, into a composite
  pending : (q = [] ∧ bits = 0 ∧ cur = st)
    ∨ rest ≠ [] ∧ ∃ t id', Resolves btf cur t id' ∧ t.isComposite = true
  last : ∃ prev, sp.spec.getLast? = some prev ∧ prev.LeadsTo btf st
  accs : sm.spec = sp.spec
  offset : sp.bitOffset = sm.bitOffset + BitVec.ofNat 32 bits
  room : sm.rawSpec.length + q.length + rest.length ≤ total

variable (hacc : btf.Accepted) (hn : Enough btf n) (hlong : BPF_CORE_SPEC_MAX_LEN < n)
  {spec : CoreSpec} (hspec : spec.Findable btf n)
  (hraw : spec.rawSpec.length ≤ BPF_CORE_SPEC_MAX_LEN)

/-- Where the match goes from a point. -/
def CoreSpec.resumed (spec sm : CoreSpec) (q rest : List Nat) : CoreSpec :=
  { sm with
    spec := spec.spec
    rawSpec := sm.rawSpec ++ (q ++ rest)
    bitOffset := spec.bitOffset }

theorem searches_of_split {acc : CoreAccessor} (hsplit : spec.spec = sp.spec ++ acc :: accs)
    (hlast : ∃ prev, sp.spec.getLast? = some prev ∧ prev.LeadsTo btf id)
    (hname : acc.name.isSome = true) : spec.Searches btf id := by
  obtain ⟨prev, hprev, hleads⟩ := hlast
  obtain ⟨pre, hpre⟩ := getLast?_eq_some_iff.mp hprev
  refine ⟨pre, prev, acc, accs, ?_, hname, hleads⟩
  rw [hsplit, hpre, append_assoc]
  rfl

include hacc hn hlong hspec in
/-- The matcher's step for a named member. -/
theorem specMatchStep_named {name : CStr}
    (hin : InStep btf (idx :: rest) spec.rawSpec.length cur st q bits sp sm)
    (ht : Resolves btf cur t tid) (hc : t.isComposite = true) (hi : idx < t.vlen)
    (hm : t.member? idx = some m) (hname : btf.strByOffset m.nameOff = some name)
    (hne : name.val ≠ []) (hsplit : spec.spec = sp.spec ++ ⟨tid, idx, some name⟩ :: accs) :
    specMatchStep btf ⟨tid, idx, some name⟩ btf n false st sm
      = .ok (some m.type, sm.enter q idx (bits + btfMemberBitOffset t m)
          ⟨tid, idx, some name⟩) := by
  obtain ⟨v, hv⟩ := hin.known
  obtain ⟨u, uid, hskip, hres⟩ := skip_resolves hacc hn hv
  obtain ⟨k, hk⟩ := ht
  have htype := (skipMods_end hk).1
  have hsearch : spec.Searches btf st := searches_of_split hsplit hin.last rfl
  have hroute : Route btf st q t tid bits := by
    have := hin.route _ _ _ _ (.here ⟨k, hk⟩ hc)
    rwa [append_nil, Nat.add_zero] at this
  have hnamed : NamedAt btf st q idx name :=
    ⟨t, tid, bits, m, hroute, hi, hm, hname, hne⟩
  have hmem : (⟨tid, idx, some name⟩ : CoreAccessor) ∈ spec.spec := by
    rw [hsplit]
    exact mem_append_right _ mem_cons_self
  have hcompat : bpfCoreFieldsAreCompat btf m.type btf m.type n = .ok true :=
    fieldsCompat_self hacc hn (hspec.compat _ hmem rfl t m htype hm) (hn _)
  have hroom := hin.room
  rw [length_cons] at hroom
  rw [specMatchStep, hskip]
  dsimp only [bind, Except.bind]
  rw [if_pos Option.isSome_some, bpfCoreMatchMember]
  refine matchMemberFrom_hit hacc hn (Btf.btfTypeById_of_typeById htype) hm hname hcompat
    hne (skipMods_end hskip).1 ((Route.skip hres).mp hroute) hi hm hname (by omega) ?_ ?_
  · intro q' t' id' b hr
    have := hspec.fits st hsearch q' t' id' b ((Route.skip hres).mpr hr)
    omega
  · intro q' i' h
    exact hspec.unique st hsearch _ _ _ _ name ((NamedAt.skip hres).mpr h) hnamed

include hspec hraw in
/-- The matcher's step for an array element. -/
theorem specMatchStep_elem {eid sz : Nat} {et : BtfType}
    {a : BtfArray} {last : CoreAccessor} {flex : Bool}
    (hin : InStep btf (idx :: rest) spec.rawSpec.length st st [] 0 sp sm)
    (hskip : skipModsAndTypedefs btf n st = .ok (t, tid)) (harr : t.isArray = true)
    (ha : t.array? = some a) (he : skipModsAndTypedefs btf n a.type = .ok (et, eid))
    (hlast : sp.spec.getLast? = some last) (hflex : isFlexArr btf last a = .ok flex)
    (hidx : flex = true ∨ idx < a.nelems) (hsz : btfResolveSize btf eid = .ok sz)
    (hsplit : spec.spec = sp.spec ++ ⟨eid, idx, none⟩ :: accs) :
    specMatchStep btf ⟨eid, idx, none⟩ btf n false st sm
      = .ok (some eid, sm.enter [] idx (0 + idx * sz * 8) ⟨eid, idx, none⟩) := by
  have hmem : (⟨eid, idx, none⟩ : CoreAccessor) ∈ spec.spec := by
    rw [hsplit]
    exact mem_append_right _ mem_cons_self
  have hsmall := hspec.sized _ hmem rfl sz hsz
  have hroom := hin.room
  rw [length_cons, length_nil] at hroom
  have helem : specElemType ⟨eid, idx, none⟩ btf n false t tid sm = .ok (some eid) := by
    rw [specElemType, if_neg Bool.noConfusion, if_neg (by simp [harr]), ha]
    dsimp only [deref, bind, Except.bind]
    rw [hin.accs, hlast]
    dsimp only
    rw [hflex]
    dsimp only
    rw [if_neg (by rcases hidx with rfl | hidx <;> simp [*]), he]
    rfl
  rw [specMatchStep, hskip]
  dsimp only [bind, Except.bind]
  rw [if_neg (by simp), helem]
  dsimp only
  rw [specAddElem, failIf, if_neg (by omega)]
  dsimp only [bind, Except.bind]
  rw [hsz]
  dsimp only
  rw [if_neg (by omega), Nat.zero_add]
  rfl

/-- Entering an accessor brings both walks to the type it leads to. -/
theorem InStep.enter {total off : Nat} {acc : CoreAccessor} {w : BtfType}
    (hin : InStep btf (idx :: rest) total cur st q bits sp sm)
    (hw : btf.typeById id = some w) (hleads : acc.LeadsTo btf id)
    (haccs : sp'.spec = sp.spec ++ [acc])
    (hoff : sp'.bitOffset = sp.bitOffset + BitVec.ofNat 32 off) :
    InStep btf rest total id id [] 0 sp' (sm.enter q idx (bits + off) acc) := by
  have hroom := hin.room
  rw [length_cons] at hroom
  refine ⟨⟨w, hw⟩, fun q' u uid b hr => ?_, .inl ⟨rfl, rfl, rfl⟩, ⟨acc, ?_, hleads⟩, ?_, ?_, ?_⟩
  · rwa [Nat.zero_add]
  · rw [haccs, getLast?_concat]
  · rw [haccs, CoreSpec.enter, hin.accs]
  · rw [hoff, hin.offset, CoreSpec.enter, BitVec.ofNat_add, BitVec.add_assoc, BitVec.add_zero]
  · simp only [CoreSpec.enter, length_append, length_singleton, length_nil]
    omega

/-- One accessor of the matcher's loop, and the rest of it. -/
theorem specMatchFrom_enter {acc : CoreAccessor}
    (hsplit : spec.spec = sp.spec ++ acc :: accs) (haccs : sp'.spec = sp.spec ++ [acc])
    (hstep : specMatchStep btf acc btf n false st sm = .ok (some id, sm.enter q idx bits acc))
    (hrun : specMatchFrom btf btf n (spec.spec.drop sp'.spec.length) false id
        (sm.enter q idx bits acc)
      = .ok (true, spec.resumed (sm.enter q idx bits acc) [] rest)) :
    specMatchFrom btf btf n (spec.spec.drop sp.spec.length) false st sm
      = .ok (true, spec.resumed sm q (idx :: rest)) := by
  have hdrop : spec.spec.drop sp.spec.length = acc :: spec.spec.drop sp'.spec.length := by
    rw [haccs, length_append, ← drop_drop, hsplit, drop_left]
    rfl
  rw [hdrop, specMatchFrom, hstep]
  dsimp only [bind, Except.bind]
  rw [hrun]
  simp [CoreSpec.resumed, CoreSpec.enter]

include hacc hn hlong hspec hraw in
/-- From a point where the two walks are in step the matcher comes to the
end of the spec. By induction on the indices the parser has left. -/
theorem specMatchFrom_inStep : ∀ {rest : List Nat} {cur st bits : Nat} {q : List Nat}
    {sp sm : CoreSpec}, parseSpecFrom btf n rest cur sp = .ok spec →
    unnamedInside btf n rest cur = true →
    InStep btf rest spec.rawSpec.length cur st q bits sp sm →
    specMatchFrom btf btf n (spec.spec.drop sp.spec.length) false st sm
      = .ok (true, spec.resumed sm q rest) := by
  intro rest
  induction rest with
  | nil =>
    intro cur st bits q sp sm hparse hinside hin
    cases hparse
    rcases hin.pending with ⟨rfl, rfl, -⟩ | ⟨hne, -⟩
    · have hoff := hin.offset
      rw [BitVec.add_zero] at hoff
      rw [drop_length, specMatchFrom, CoreSpec.resumed, hoff, ← hin.accs]
      simp
    · exact absurd rfl hne
  | cons idx rest ih =>
    intro cur st bits q sp sm hparse hinside hin
    obtain ⟨⟨id', sp'⟩, hstep, hparse⟩ := of_bind_ok hparse
    obtain ⟨accs, hframe, -, -⟩ := parseSpecFrom_frame _ _ _ _ hparse
    obtain ⟨t, tid, hskip, hcase⟩ := parseSpecStep_cases hstep
    have hres : Resolves btf cur t tid := ⟨n, hskip⟩
    have htype := (skipMods_end hskip).1
    rw [unnamedInside, hskip] at hinside
    dsimp only at hinside hparse
    rcases hcase with ⟨hc, hi, m, hm, rfl, hnamed⟩
      | ⟨hc, harr, a, et, last, flex, sz, ha, he, hlast, hflex, hidx, hsz, rfl⟩
    · rw [if_pos hc, hm] at hinside
      dsimp only at hinside
      obtain ⟨hgo, hinside⟩ := Bool.and_eq_true_iff.mp hinside
      obtain ⟨m', w, str, hm', hw, -⟩ := hacc.member htype hc hi
      cases hm.symm.trans hm'
      rcases hnamed with ⟨hzero, rfl⟩ | ⟨-, name, hname, hne, rfl⟩
      · -- an unnamed member: only the parser moves
        have hempty : strIsEmpty (btf.strByOffset m.nameOff) = true := by
          rw [hzero, hacc.wf.strByOffset_zero.1]
          rfl
        have hgo : entersComposite btf n rest m.type = true := by
          simpa [hzero] using hgo
        have hnext : InStep btf rest spec.rawSpec.length m.type st (q ++ [idx])
            (bits + btfMemberBitOffset t m) (sp.addBits (btfMemberBitOffset t m)) sm := by
          have hroom := hin.room
          rw [length_cons] at hroom
          refine ⟨hin.known, fun q' u uid b hr => ?_, .inr ?_, hin.last, hin.accs, ?_, ?_⟩
          · rw [append_assoc, Nat.add_assoc]
            exact hin.route _ _ _ _ (.under hres hc hi hm hempty hr)
          · obtain ⟨u, uid, hu, hures⟩ := skip_resolves hacc hn hw
            rw [entersComposite, hu] at hgo
            obtain ⟨hrest, hcu⟩ := Bool.and_eq_true_iff.mp hgo
            exact ⟨by simpa using hrest, u, uid, hures, hcu⟩
          · rw [CoreSpec.addBits, hin.offset, BitVec.ofNat_add, BitVec.add_assoc]
          · rw [length_append, length_singleton]
            omega
        have hrun := ih hparse hinside hnext
        rw [CoreSpec.resumed, append_assoc] at hrun
        exact hrun
      · -- a named member: the search catches up
        have hsplit : spec.spec = sp.spec ++ ⟨tid, idx, some name⟩ :: accs := by
          rw [hframe, CoreSpec.addAcc, CoreSpec.addBits, append_assoc]
          rfl
        refine specMatchFrom_enter hsplit rfl
          (specMatchStep_named hacc hn hlong hspec hin hres hc hi hm hname hne hsplit)
          (ih hparse hinside (hin.enter hw ⟨t, m, htype, hm, rfl⟩ rfl rfl))
    · -- an array element: nothing unnamed can be pending before it
      obtain ⟨rfl, rfl, rfl⟩ : q = [] ∧ bits = 0 ∧ cur = st := by
        rcases hin.pending with h | ⟨-, u, uid, hu, hcu⟩
        · exact h
        · obtain ⟨rfl, -⟩ := hres.unique hu
          rw [hc] at hcu
          cases hcu
      have hsplit : spec.spec = sp.spec ++ ⟨id', idx, none⟩ :: accs := by
        rw [hframe, CoreSpec.addAcc, CoreSpec.addBits, append_assoc]
        rfl
      have heres : Resolves btf a.type et id' := ⟨n, he⟩
      rw [if_neg (by simp [hc]), ha] at hinside
      dsimp only at hinside
      rw [← unnamedInside_skip rest he (heres.self.skip hacc hn)] at hinside
      exact specMatchFrom_enter hsplit rfl
        (specMatchStep_elem hspec hraw hin hskip harr ha he hlast hflex hidx hsz hsplit)
        (ih hparse hinside (hin.enter (skipMods_end he).1 rfl rfl rfl))

end

/-- `struct r { struct { int a; }; }`, with the member at bit 32. -/
private def unnamedInner : Bytes :=
  btfImage .little
    [⟨1, btfTypeInfo .int 0 false, 4, [32]⟩, ⟨0, btfTypeInfo .struct 1 false, 4, [7, 1, 0]⟩,
      ⟨5, btfTypeInfo .struct 1 false, 8, [0, 2, 32]⟩]
    -- "", "int", "r", "a" and the access string "0:0:0"
    [0, 105, 110, 116, 0, 114, 0, 97, 0, 48, 58, 48, 58, 48, 0]

/-- `struct r { struct i { int a; int a; } b; }`. -/
private def doubledInner : Bytes :=
  btfImage .little
    [⟨1, btfTypeInfo .int 0 false, 4, [32]⟩,
      ⟨17, btfTypeInfo .struct 2 false, 8, [7, 1, 0, 7, 1, 32]⟩,
      ⟨5, btfTypeInfo .struct 1 false, 8, [9, 2, 0]⟩]
    -- "", "int", "r", "a", "b", the access string "0:0:1", and "i"
    [0, 105, 110, 116, 0, 114, 0, 97, 0, 98, 0, 48, 58, 48, 58, 49, 0, 105, 0]

/-- The spec of an `a` of it. -/
private def doubledSpec (i : Nat) (bits : BitVec 32) : CoreSpec :=
  ⟨[⟨3, 0, none⟩, ⟨3, 0, some (cstrAt [98] 0)⟩, ⟨2, i, some (cstrAt [97] 0)⟩], 3,
    .fieldByteOffset, [0, 0, i], bits⟩

end Libbpf
