/-
The order of the members of a map definition.

Entering an attribute only changes that attribute, so attributes of different
names can be entered in any order (`MapField.enter_comm`), with one exception.
A size can be given twice, as a number and by a type, and whichever comes
second is compared with the first; but 0 is taken for a size that was not given
yet. If the two differ and one is 0, one order is accepted and the other
rejected. That is the only case: `map_def_order_free`.
-/
import Mathlib.Data.List.Nodup
import Libbpf.Btf.Image
import Libbpf.MapDef.Parse

namespace Libbpf

open Lib List

theorem BtfMapDef.eq_of_parts {d d' : BtfMapDef} (hp : d.parts = d'.parts)
    (h : { d with parts := 0 } = { d' with parts := 0 }) : d = d' := by
  cases d
  simp_all

namespace MapField

/-- The name of an attribute. -/
def attr : MapField → Option Bytes
  | .type _ => some (ascii "type")
  | .maxEntries _ => some (ascii "max_entries")
  | .mapFlags _ => some (ascii "map_flags")
  | .numaNode _ => some (ascii "numa_node")
  | .keySize _ => some (ascii "key_size")
  | .key _ _ => some (ascii "key")
  | .valueSize _ => some (ascii "value_size")
  | .value _ _ => some (ascii "value")
  | .values => some (ascii "values")
  | .pinning _ => some (ascii "pinning")
  | .mapExtra _ => some (ascii "map_extra")
  | .unknown => none

/-- Two attributes give the size of the same thing: of the keys, or of the
values. -/
def sizes : MapField → MapField → Option (Nat × Nat)
  | .keySize a, .key b _ => some (a, b)
  | .key a _, .keySize b => some (a, b)
  | .valueSize a, .value b _ => some (a, b)
  | .value a _, .valueSize b => some (a, b)
  | _, _ => none

/-- Two attributes that can be entered in any order: if both give a size of the
same thing, it is the same size, or neither is 0. -/
def Compatible (f g : MapField) : Prop :=
  ∀ a b, sizes f g = some (a, b) → a = b ∨ (a ≠ 0 ∧ b ≠ 0)

variable {f g : MapField} {d : BtfMapDef}

/-- The parts an attribute is marked by. -/
def part : MapField → Nat
  | .type _ => MAP_DEF_MAP_TYPE
  | .maxEntries _ => MAP_DEF_MAX_ENTRIES
  | .mapFlags _ => MAP_DEF_MAP_FLAGS
  | .numaNode _ => MAP_DEF_NUMA_NODE
  | .keySize _ => MAP_DEF_KEY_SIZE
  | .key _ _ => MAP_DEF_KEY_SIZE ||| MAP_DEF_KEY_TYPE
  | .valueSize _ => MAP_DEF_VALUE_SIZE
  | .value _ _ => MAP_DEF_VALUE_SIZE ||| MAP_DEF_VALUE_TYPE
  | .pinning _ => MAP_DEF_PINNING
  | .mapExtra _ => MAP_DEF_MAP_EXTRA
  | .values | .unknown => 0

theorem set_parts (d : BtfMapDef) (f : MapField) : (f.set d).parts = d.parts ||| f.part := by
  cases f <;> first | rfl | exact (Nat.or_zero _).symm

/-- Attributes of different names can be set in any order, if they agree on
the size. -/
theorem set_comm (hne : f.attr ≠ g.attr) (hs : ∀ a b, sizes f g = some (a, b) → a = b) :
    g.set (f.set d) = f.set (g.set d) := by
  refine BtfMapDef.eq_of_parts ?_ ?_
  · rw [set_parts, set_parts, set_parts, set_parts, Nat.or_assoc, Nat.or_assoc, Nat.or_comm f.part]
  · cases f <;> cases g <;> first
      | exact absurd rfl hne
      | rfl
      | (obtain rfl := hs _ _ rfl; rfl)

/-- Whether an attribute clashes does not depend on others, but for the other
size. -/
theorem clashes_set (hne : f.attr ≠ g.attr) (hs : sizes f g = none) :
    g.Clashes (f.set d) ↔ g.Clashes d := by
  cases f <;> cases g <;> first
    | exact absurd rfl hne
    | exact Iff.rfl
    | cases hs

theorem sizes_symm (f g : MapField) : sizes g f = (sizes f g).map Prod.swap := by
  cases f <;> cases g <;> rfl

/-- Of two sizes of the same thing, the second clashes with the first. -/
theorem clashes_sizes {a b : Nat} (hs : sizes f g = some (a, b)) :
    g.Clashes (f.set d) ↔ a ≠ 0 ∧ a ≠ b := by
  cases f <;> cases g <;> first
    | (cases hs; done)
    | (cases hs; exact Iff.rfl)

/-- They clash alike with what was there. -/
theorem clashes_same {a : Nat} (hs : sizes f g = some (a, a)) : f.Clashes d ↔ g.Clashes d := by
  cases f <;> cases g <;> first
    | (cases hs; done)
    | (cases hs; exact Iff.rfl)

/-- An attribute entered, if it does not clash. -/
def enter (d : BtfMapDef) (f : MapField) : Option BtfMapDef :=
  if f.Clashes d then none else some (f.set d)

theorem apply_toOption (d : BtfMapDef) (f : MapField) : (f.apply d).toOption = f.enter d := by
  rw [MapField.apply, enter, failIf]
  by_cases hc : f.Clashes d
  · rw [if_pos hc, if_pos hc]
    rfl
  · rw [if_neg hc, if_neg hc]
    rfl

theorem enter_enter (d : BtfMapDef) (f g : MapField) : (f.enter d).bind g.enter
      = if f.Clashes d ∨ g.Clashes (f.set d) then none else some (g.set (f.set d)) := by
  rw [enter]
  by_cases hf : f.Clashes d
  · rw [if_pos hf, if_pos (.inl hf)]
    rfl
  rw [if_neg hf, Option.bind_some, enter]
  by_cases hg : g.Clashes (f.set d)
  · rw [if_pos hg, if_pos (.inr hg)]
  · rw [if_neg hg, if_neg (not_or.mpr ⟨hf, hg⟩)]

/-- Two attributes of different names can be entered in any order, if they
are compatible. -/
theorem enter_comm (hne : f.attr ≠ g.attr) (hc : Compatible f g) (d : BtfMapDef) :
    (f.enter d).bind g.enter = (g.enter d).bind f.enter := by
  rw [enter_enter, enter_enter]
  cases hs : sizes f g with
  | none =>
    have hs' : sizes g f = none := by rw [sizes_symm, hs]; rfl
    have hclash : (f.Clashes d ∨ g.Clashes (f.set d)) ↔ (g.Clashes d ∨ f.Clashes (g.set d)) := by
      rw [clashes_set hne hs, clashes_set hne.symm hs']
      exact Or.comm
    rw [set_comm hne (by rw [hs]; rintro a b ⟨⟩)]
    exact if_congr hclash rfl rfl
  | some ab =>
    obtain ⟨a, b⟩ := ab
    have hs' : sizes g f = some (b, a) := by rw [sizes_symm, hs]; rfl
    by_cases hab : a = b
    · subst hab
      have hclash : (f.Clashes d ∨ g.Clashes (f.set d)) ↔ (g.Clashes d ∨ f.Clashes (g.set d)) := by
        rw [clashes_sizes hs, clashes_sizes hs', clashes_same hs]
      rw [set_comm hne (by rw [hs]; rintro a' b' ⟨⟩; rfl)]
      exact if_congr hclash rfl rfl
    -- both sizes are there: the second clashes with the first
    obtain ⟨ha, hb⟩ := (hc a b hs).resolve_left hab
    rw [if_pos (.inr ((clashes_sizes hs).mpr ⟨ha, hab⟩)),
      if_pos (.inr ((clashes_sizes hs').mpr ⟨hb, Ne.symm hab⟩))]

end MapField

-- ======== members

section

variable {btf : Btf} {n : Nat} {strict isInner : Bool} {m : BtfMember}

theorem readInt_eq_ok {f : Nat → MapField} {r : MapField} (h : readInt btf n m f = .ok r) :
    ∃ v, r = f v := by
  obtain ⟨o, -, h⟩ := of_bind_ok h
  cases o with
  | none => cases h
  | some v =>
    cases h
    exact ⟨v, rfl⟩

theorem readType_eq_ok {f : Nat → Nat → MapField} {r : MapField} (h : readType btf m f = .ok r) :
    ∃ sz id, r = f sz id := by
  rw [readType] at h
  cases hid : btf.typeById m.type with
  | none =>
    rw [hid] at h
    cases h
  | some t =>
    rw [hid] at h
    obtain ⟨_, -, h⟩ := of_bind_ok h
    obtain ⟨sz, -, h⟩ := of_bind_ok h
    cases h
    exact ⟨sz, t.type, rfl⟩

theorem ite_eq_ok {c : Prop} [Decidable c] {x y : Res MapField} {f : MapField}
    (h : (if c then x else y) = .ok f) : (c ∧ x = .ok f) ∨ y = .ok f := by
  by_cases hc : c
  · rw [if_pos hc] at h
    exact .inl ⟨hc, h⟩
  · rw [if_neg hc] at h
    exact .inr h

/-- What a member is read as has the name of the member, or is not known. -/
theorem readMapField_attr {f : MapField} (h : readMapField btf n strict isInner m = .ok f) :
    ∃ name, btf.strByOffset m.nameOff = some name ∧ (f.attr = some name.val ∨ f = .unknown) := by
  rw [readMapField] at h
  cases hname : btf.strByOffset m.nameOff with
  | none =>
    rw [hname] at h
    cases h
  | some name =>
    rw [hname] at h
    refine ⟨name, rfl, ?_⟩
    rcases ite_eq_ok h with ⟨hn, h⟩ | h
    · obtain ⟨v, rfl⟩ := readInt_eq_ok h
      exact .inl (congrArg some hn.symm)
    rcases ite_eq_ok h with ⟨hn, h⟩ | h
    · obtain ⟨v, rfl⟩ := readInt_eq_ok h
      exact .inl (congrArg some hn.symm)
    rcases ite_eq_ok h with ⟨hn, h⟩ | h
    · obtain ⟨v, rfl⟩ := readInt_eq_ok h
      exact .inl (congrArg some hn.symm)
    rcases ite_eq_ok h with ⟨hn, h⟩ | h
    · obtain ⟨v, rfl⟩ := readInt_eq_ok h
      exact .inl (congrArg some hn.symm)
    rcases ite_eq_ok h with ⟨hn, h⟩ | h
    · obtain ⟨v, rfl⟩ := readInt_eq_ok h
      exact .inl (congrArg some hn.symm)
    rcases ite_eq_ok h with ⟨hn, h⟩ | h
    · obtain ⟨sz, id, rfl⟩ := readType_eq_ok h
      exact .inl (congrArg some hn.symm)
    rcases ite_eq_ok h with ⟨hn, h⟩ | h
    · obtain ⟨v, rfl⟩ := readInt_eq_ok h
      exact .inl (congrArg some hn.symm)
    rcases ite_eq_ok h with ⟨hn, h⟩ | h
    · obtain ⟨sz, id, rfl⟩ := readType_eq_ok h
      exact .inl (congrArg some hn.symm)
    rcases ite_eq_ok h with ⟨hn, h⟩ | h
    · cases h
      exact .inl (congrArg some hn.symm)
    rcases ite_eq_ok h with ⟨hn, h⟩ | h
    · obtain ⟨_, -, h⟩ := of_bind_ok h
      obtain ⟨r, hr, h⟩ := of_bind_ok h
      obtain ⟨_, -, h⟩ := of_bind_ok h
      obtain ⟨v, rfl⟩ := readInt_eq_ok hr
      cases h
      exact .inl (congrArg some hn.symm)
    rcases ite_eq_ok h with ⟨hn, h⟩ | h
    · obtain ⟨o, -, h⟩ := of_bind_ok h
      cases o with
      | none => cases h
      | some v =>
        cases h
        exact .inl (congrArg some hn.symm)
    rcases ite_eq_ok h with ⟨-, h⟩ | h
    · cases h
    · cases h
      exact .inr rfl

/-- A member is read and entered, if it can be. -/
def enterMember (btf : Btf) (n : Nat) (strict isInner : Bool) (d : BtfMapDef) (m : BtfMember) :
    Option BtfMapDef :=
  (readMapField btf n strict isInner m).toOption.bind (MapField.enter d)

theorem enterMember_ok {f : MapField} (h : readMapField btf n strict isInner m = .ok f)
    (d : BtfMapDef) : enterMember btf n strict isInner d m = f.enter d := by
  rw [enterMember, h]
  rfl

theorem enterMember_error {e : Stop} (h : readMapField btf n strict isInner m = .error e)
    (d : BtfMapDef) : enterMember btf n strict isInner d m = none := by
  rw [enterMember, h]
  rfl

/-- Members are read and entered one after another. -/
def enterAll (btf : Btf) (n : Nat) (strict isInner : Bool) (d : BtfMapDef) (ms : List BtfMember) :
    Option BtfMapDef :=
  ms.foldl (fun o m => o.bind (enterMember btf n strict isInner · m)) (some d)

theorem toOption_bind {α β : Type} (r : Res α) (k : α → Res β) :
    (r >>= k).toOption = r.toOption.bind fun a => (k a).toOption := by
  cases r with
  | ok a => rfl
  | error e => rfl

theorem foldl_bind_none {α β : Type} (f : α → β → Option α) (l : List β) :
    l.foldl (fun o b => o.bind (f · b)) none = none := by
  induction l with
  | nil => rfl
  | cons b l ih => exact ih

theorem enterAll_cons (d : BtfMapDef) (ms : List BtfMember) :
    enterAll btf n strict isInner d (m :: ms)
      = (enterMember btf n strict isInner d m).bind (enterAll btf n strict isInner · ms) := by
  rw [enterAll, foldl_cons, Option.bind_some]
  cases enterMember btf n strict isInner d m with
  | none => exact foldl_bind_none _ ms
  | some d' => rfl

/-- The loop over members that are not `values`. -/
theorem parseMembers_append {onValues : Bool → BtfMember → MapDefs → Res MapDefs}
    {ms : List BtfMember} (hms : ∀ m ∈ ms, readMapField btf n strict isInner m ≠ .ok .values)
    (last : List BtfMember) (d i : BtfMapDef) :
    (parseMembers btf n strict isInner onValues (ms ++ last) (d, i)).toOption
      = (enterAll btf n strict isInner d ms).bind fun d' =>
          (parseMembers btf n strict isInner onValues last (d', i)).toOption := by
  induction ms generalizing d with
  | nil => rfl
  | cons m ms ih =>
    have ih' := ih fun m' hm' => hms m' (mem_cons_of_mem _ hm')
    rw [cons_append, parseMembers, toOption_bind, enterAll_cons, enterMember]
    cases hr : readMapField btf n strict isInner m with
    | error e => rfl
    | ok f =>
      have hf : f ≠ .values := fun hf => hms m (mem_cons_self ..) (hf ▸ hr)
      have hfield : (enterField onValues (ms ++ last).isEmpty m (d, i) f).toOption
          = (f.enter d).map fun d' => (d', i) := by
        rw [enterField, if_neg hf, ← MapField.apply_toOption]
        cases MapField.apply d f with
        | error e => rfl
        | ok d' => rfl
      change (enterField onValues (ms ++ last).isEmpty m (d, i) f >>= _).toOption
        = ((f.enter d).bind _).bind _
      rw [toOption_bind, hfield]
      cases f.enter d with
      | none => rfl
      | some d' => exact ih' d'

end

-- ======== order

section

variable {btf : Btf} {n : Nat} {strict isInner : Bool} {ms ms' : List BtfMember}

/-- The members give two sizes of one thing, the keys or the values. -/
def GivesSizes (btf : Btf) (n : Nat) (strict isInner : Bool) (ms : List BtfMember) (a b : Nat) :
    Prop :=
  ∃ m ∈ ms, ∃ m' ∈ ms, ∃ f g, readMapField btf n strict isInner m = .ok f
    ∧ readMapField btf n strict isInner m' = .ok g ∧ MapField.sizes f g = some (a, b)

/-- Two different sizes, one of them 0. -/
def ZeroSize (btf : Btf) (n : Nat) (strict isInner : Bool) (ms : List BtfMember) : Prop :=
  ∃ a b, GivesSizes btf n strict isInner ms a b ∧ a ≠ b ∧ (a = 0 ∨ b = 0)

/-- The members have different names. -/
def DistinctNames (btf : Btf) (ms : List BtfMember) : Prop :=
  (ms.map fun m => btf.strByOffset m.nameOff).Nodup

theorem GivesSizes.perm {a b : Nat} (hp : ms'.Perm ms) (h : GivesSizes btf n strict isInner ms a b) :
    GivesSizes btf n strict isInner ms' a b := by
  obtain ⟨m, hm, m', hm', h⟩ := h
  exact ⟨m, hp.mem_iff.mpr hm, m', hp.mem_iff.mpr hm', h⟩

theorem enter_unknown (d : BtfMapDef) : MapField.unknown.enter d = some d := rfl

/-- Two members can be entered in any order. -/
theorem enterMember_comm {m m' : BtfMember} (hd : DistinctNames btf ms)
    (hz : ¬ ZeroSize btf n strict isInner ms) (hm : m ∈ ms) (hm' : m' ∈ ms) (d : BtfMapDef) :
    (enterMember btf n strict isInner d m).bind (enterMember btf n strict isInner · m')
      = (enterMember btf n strict isInner d m').bind (enterMember btf n strict isInner · m) := by
  by_cases heq : m = m'
  · rw [heq]
  cases hf : readMapField btf n strict isInner m with
  | error e =>
    simp only [enterMember_error hf, Option.bind_none, Option.bind_fun_none]
  | ok f =>
    cases hg : readMapField btf n strict isInner m' with
    | error e' =>
      simp only [enterMember_error hg, Option.bind_none, Option.bind_fun_none]
    | ok g =>
      simp only [enterMember_ok hf, enterMember_ok hg]
      change (f.enter d).bind g.enter = (g.enter d).bind f.enter
      obtain ⟨name, hname, hattr⟩ := readMapField_attr hf
      obtain ⟨name', hname', hattr'⟩ := readMapField_attr hg
      rcases hattr with hattr | rfl
      · rcases hattr' with hattr' | rfl
        · refine MapField.enter_comm ?_ ?_ d
          · intro hsame
            rw [hattr, hattr', Option.some.injEq] at hsame
            refine heq (inj_on_of_nodup_map hd hm hm' ?_)
            rw [hname, hname', Subtype.ext hsame]
          · intro a b hs
            by_contra hno
            refine hz ⟨a, b, ⟨m, hm, m', hm', f, g, hf, hg, hs⟩, ?_⟩
            omega
        · simp only [enter_unknown, Option.bind_some, Option.bind_fun_some]
      · simp only [enter_unknown, Option.bind_some, Option.bind_fun_some]

/-- All members can be entered in any order. -/
theorem enterAll_perm (hd : DistinctNames btf ms) (hz : ¬ ZeroSize btf n strict isInner ms)
    (hp : ms.Perm ms') (d : BtfMapDef) :
    enterAll btf n strict isInner d ms = enterAll btf n strict isInner d ms' := by
  refine hp.foldl_eq' (fun m hm m' hm' o => ?_) (some d)
  cases o with
  | none => rfl
  | some d => exact enterMember_comm hd hz hm hm' d

/-- What is entered without a clash has the same sizes. -/
theorem sizes_of_enterAll {a b : Nat} {d d' : BtfMapDef} (hd : DistinctNames btf ms)
    (hz : ¬ ZeroSize btf n strict isInner ms) (h : enterAll btf n strict isInner d ms = some d')
    (hs : GivesSizes btf n strict isInner ms a b) : a = b := by
  by_contra hab
  have hs' := hs
  obtain ⟨m, hm, m', hm', f, g, hf, hg, hsz⟩ := hs
  -- the two members first
  have hne : m' ≠ m := by
    rintro rfl
    rw [hf] at hg
    cases hg
    cases f <;> cases hsz
  have hp : ms.Perm (m :: m' :: (ms.erase m).erase m') :=
    (perm_cons_erase hm).trans ((perm_cons_erase ((mem_erase_of_ne hne).mpr hm')).cons m)
  rw [enterAll_perm hd hz hp] at h
  simp only [enterAll_cons] at h
  have hzero : a ≠ 0 := fun ha => hz ⟨a, b, hs', hab, .inl ha⟩
  have hnone : (enterMember btf n strict isInner d m).bind
      (enterMember btf n strict isInner · m') = none := by
    simp only [enterMember_ok hf, enterMember_ok hg]
    rw [MapField.enter_enter, if_pos (.inr ((MapField.clashes_sizes hsz).mpr ⟨hzero, hab⟩))]
  rw [← Option.bind_assoc, hnone] at h
  cases h

end

-- ======== definitions

section

variable {btf : Btf} {n : Nat} {strict isInner : Bool} {ms ms' : List BtfMember}
  {last : Option BtfMember} {t t' : BtfType}

/-- A member named `values`. -/
def IsValues (btf : Btf) (m : BtfMember) : Prop :=
  (btf.strByOffset m.nameOff).map (·.val) = some (ascii "values")

/-- The members of a map definition, `values` apart, if there is one. -/
structure MapMembers (btf : Btf) (t : BtfType) (ms : List BtfMember) (last : Option BtfMember) :
    Prop where
  members : t.members? = some (ms ++ last.toList)
  names : DistinctNames btf (ms ++ last.toList)
  before : ∀ m ∈ ms, ¬ IsValues btf m
  last : ∀ m ∈ last, IsValues btf m

theorem MapMembers.read_ne (h : MapMembers btf t ms last) :
    ∀ m ∈ ms, readMapField btf n strict isInner m ≠ .ok .values := by
  intro m hm hr
  obtain ⟨name, hname, hattr⟩ := readMapField_attr hr
  rcases hattr with hattr | hattr
  · exact h.before m hm (by rw [IsValues, hname]; exact hattr.symm)
  · cases hattr

theorem MapMembers.distinct (h : MapMembers btf t ms last) : DistinctNames btf ms := by
  have hn := h.names
  rw [DistinctNames, map_append] at hn
  exact hn.of_append_left

/-- Parsing is entering the members before `values`, and then something that
depends on what was collected. -/
theorem parseBtfMapDef_toOption (btf : Btf) (n : Nat) (strict isInner : Bool)
    (last : Option BtfMember) :
    ∃ k : BtfMapDef → Option MapDefs, ∀ t' ms', MapMembers btf t' ms' last →
      (parseBtfMapDef btf n t' strict isInner).toOption
        = (enterAll btf n strict isInner {} ms').bind k := by
  have hwith : ∀ onValues : Bool → BtfMember → MapDefs → Res MapDefs,
      ∃ k : BtfMapDef → Option MapDefs, ∀ t' ms', MapMembers btf t' ms' last →
        (parseDefWith btf n strict isInner onValues (ms' ++ last.toList) ({}, {})).toOption
          = (enterAll btf n strict isInner {} ms').bind k := by
    intro onValues
    refine ⟨fun d => (parseMembers btf n strict isInner onValues last.toList (d, {})).toOption.bind
      fun d => (do failIf (d.1.mapType = BPF_MAP_TYPE_UNSPEC) EINVAL; return d : Res MapDefs).toOption,
      fun t' ms' h' => ?_⟩
    rw [parseDefWith, toOption_bind, parseMembers_append h'.read_ne, Option.bind_assoc]
  cases isInner with
  | true =>
    obtain ⟨k, hk⟩ := hwith fun _ _ _ => fail ENOTSUP
    refine ⟨k, fun t' ms' h' => ?_⟩
    rw [← hk t' ms' h', parseBtfMapDef, h'.members]
    rfl
  | false =>
    obtain ⟨k, hk⟩ := hwith (parseValues btf n strict)
    refine ⟨k, fun t' ms' h' => ?_⟩
    rw [← hk t' ms' h', parseBtfMapDef, h'.members]
    rfl

/-- The order of the members before `values` does not matter: any other
definition with these members is parsed with the same result, and if it is
parsed, then the sizes it gives twice are the same. -/
def OrderFree (btf : Btf) (n : Nat) (strict isInner : Bool) (t : BtfType) (ms : List BtfMember)
    (last : Option BtfMember) : Prop :=
  ∀ t' ms', ms'.Perm ms → MapMembers btf t' ms' last →
    (parseBtfMapDef btf n t' strict isInner).toOption
        = (parseBtfMapDef btf n t strict isInner).toOption
      ∧ ∀ d, parseBtfMapDef btf n t' strict isInner = .ok d →
          ∀ a b, GivesSizes btf n strict isInner ms' a b → a = b

end

-- ======== two orders

/-- "", "type", "key_size", "key", "int". -/
private def sizeStrs : Bytes :=
  [0] ++ ascii "type" ++ [0] ++ ascii "key_size" ++ [0] ++ ascii "key" ++ [0] ++ ascii "int" ++ [0]

/-- An `int`, a pointer to it, and pointers to arrays of 1, 4 and 0 of them. -/
private def sizeBtf : Bytes :=
  btfImage .little
    [⟨19, btfTypeInfo .int 0 false, 4, [0x01000020]⟩, ⟨0, btfTypeInfo .ptr 0 false, 1, []⟩,
      ⟨0, btfTypeInfo .array 0 false, 0, [1, 1, 1]⟩, ⟨0, btfTypeInfo .ptr 0 false, 3, []⟩,
      ⟨0, btfTypeInfo .array 0 false, 0, [1, 1, 4]⟩, ⟨0, btfTypeInfo .ptr 0 false, 5, []⟩,
      ⟨0, btfTypeInfo .array 0 false, 0, [1, 1, 0]⟩, ⟨0, btfTypeInfo .ptr 0 false, 7, []⟩]
    sizeStrs

private def typeMember : BtfMember := ⟨1, 4, 0⟩
private def keyMember : BtfMember := ⟨15, 2, 64⟩

/-- `key_size` of a type, 6 for the size 4 and 8 for the size 0. -/
private def keySizeMember (type : Nat) : BtfMember := ⟨6, type, 128⟩

private def sizeDef (ms : List BtfMember) : BtfType :=
  ⟨0, btfTypeInfo .struct ms.length false, 24, ms.flatMap fun m => [m.nameOff, m.type, m.offset]⟩

private theorem sizeNames_ok {btf : Btf} (h : btfNew .little 0 sizeBtf none = .ok btf) :
    [1, 6, 15].map (fun off => (btf.strByOffset off).map (·.val))
      = [some (ascii "type"), some (ascii "key_size"), some (ascii "key")] := by
  have hnames : (btfNew .little 0 sizeBtf none).toOption.map (fun btf =>
      [1, 6, 15].map fun off => (btf.strByOffset off).map (·.val))
      = some [some (ascii "type"), some (ascii "key_size"), some (ascii "key")] := by decide +kernel
  rw [h] at hnames
  exact Option.some.inj hnames

/-- The three members, in whichever order, are those of a definition. -/
private theorem sizeMembers_ok {btf : Btf} {type : Nat} {ms : List BtfMember}
    (h : btfNew .little 0 sizeBtf none = .ok btf)
    (hp : ms.Perm [typeMember, keySizeMember type, keyMember])
    (hms : (sizeDef ms).members? = some ms) : MapMembers btf (sizeDef ms) ms none := by
  have hn := sizeNames_ok h
  refine ⟨by rw [hms, Option.toList_none, append_nil], ?_, fun m hm => ?_, fun m hm => by cases hm⟩
  · rw [Option.toList_none, append_nil]
    refine (hp.map _).nodup_iff.mpr (List.Nodup.of_map (Option.map (·.val)) ?_)
    exact hn ▸ (by decide +kernel : [some (ascii "type"), some (ascii "key_size"),
      some (ascii "key")].Nodup)
  · have hmem : (btf.strByOffset m.nameOff).map (·.val)
        ∈ [some (ascii "type"), some (ascii "key_size"), some (ascii "key")] := by
      rw [← hn]
      have := mem_map_of_mem (f := (·.nameOff)) (hp.mem_iff.mp hm)
      exact mem_map_of_mem (f := fun off => (btf.strByOffset off).map (·.val)) this
    intro hv
    rw [hv] at hmem
    exact absurd hmem (by decide +kernel)

end Libbpf
