/-
What `glob_sym_btf_matches` decides.

At each pair of types the comparison looks at a few things (`Shape`), and goes
on to the types that these refer to (`followed`). Two types are alike if their
shapes are equal and so on for what they refer to, or if one of them is a
forward declaration of the other (`Alike`). For types of BTFs that were
accepted, with an unfolding that ends (`Unfolds`), the comparison returns and
decides this (`globMatch_decides`).
-/
import Libbpf.Core.Accepted
import Libbpf.Linker.Match

namespace Libbpf

open Lib
open List hiding beq_eq_decide

-- ======== shapes

/-- What is compared at one type. -/
structure Shape where
  kind : BtfKind
  name : Option CStr
  size : Option Nat
  isStatic : Option Bool
  fields : Option (List (Option CStr × Nat))
  params : Option Nat
deriving DecidableEq

/-- The kinds of types that can be compared at all. -/
def BtfKind.comparable : BtfKind → Bool
  | .unkn | .int | .ptr | .array | .struct | .union | .enum | .fwd | .func | .funcProto | .var
  | .float | .enum64 => true
  | _ => false

/-- The names and offsets of the fields. -/
def fieldsOf (btf : Btf) (t : BtfType) : List (Option CStr × Nat) :=
  (List.range t.vlen).map fun i =>
    (btf.strByOffset (t.word (3 + 3 * i)), t.word (3 + (3 * i + 2)))

/-- What is compared at `t`; the fields of a struct or union only if it is to be
exactly the same. -/
def shapeOf (btf : Btf) (exact : Bool) (t : BtfType) : Shape where
  kind := t.kind
  name := if t.kind.namesCompared then btf.strByOffset t.nameOff else none
  size :=
    match t.kind with
    | .int | .float | .enum | .enum64 => some t.size
    | _ => none
  isStatic :=
    match t.kind with
    | .func => some (t.funcLinkage == BTF_FUNC_STATIC)
    | .var => some (t.word 3 == BTF_VAR_STATIC)
    | _ => none
  fields :=
    match t.kind with
    | .struct | .union => if exact then some (fieldsOf btf t) else none
    | _ => none
  params :=
    match t.kind with
    | .funcProto => some t.vlen
    | _ => none

/-- The references that the comparison follows, and whether exactly the same is
asked of what they refer to. -/
def followed (exact : Bool) (t : BtfType) : List (Bool × Nat) :=
  match t.kind with
  | .ptr => [(false, t.type)]
  | .array => [(exact, t.word 3)]
  | .func | .var => [(exact, t.type)]
  | .struct | .union =>
    if exact then (List.range t.vlen).map fun i => (exact, t.word (3 + (3 * i + 1))) else []
  | .funcProto =>
    (List.range t.vlen).map (fun i => (exact, t.word (3 + (2 * i + 1)))) ++ [(exact, t.type)]
  | _ => []

/-- The unfolding of a VAR, a FUNC or a C type along these references ends. -/
inductive Unfolds (btf : Btf) : Bool → Nat → Prop
  | mk {exact : Bool} {id id' : Nat} {t : BtfType} (ht : Resolves btf id t id')
      (hk : t.kind.comparable = true) (hrefs : ∀ r ∈ followed exact t, Unfolds btf r.1 r.2) :
      Unfolds btf exact id

/-- The kind of struct or union that a forward declaration stands for. -/
def BtfType.fwdKind (t : BtfType) : BtfKind := if t.kflag then .union else .struct

/-- A forward declaration and what it declares. -/
structure Declares (btf₁ btf₂ : Btf) (t₁ t₂ : BtfType) : Prop where
  fwd : t₁.kind = .fwd
  kind : t₂.kind = t₁.fwdKind
  name : btf₁.strByOffset t₁.nameOff = btf₂.strByOffset t₂.nameOff

/-- Two types are alike. -/
inductive Alike (btf₁ btf₂ : Btf) : Bool → Nat → Nat → Prop
  | declares {id₁ id₂ id₁' id₂' : Nat} {t₁ t₂ : BtfType} (h₁ : Resolves btf₁ id₁ t₁ id₁')
      (h₂ : Resolves btf₂ id₂ t₂ id₂')
      (h : Declares btf₁ btf₂ t₁ t₂ ∨ Declares btf₂ btf₁ t₂ t₁) : Alike btf₁ btf₂ false id₁ id₂
  | same {exact : Bool} {id₁ id₂ id₁' id₂' : Nat} {t₁ t₂ : BtfType}
      (h₁ : Resolves btf₁ id₁ t₁ id₁') (h₂ : Resolves btf₂ id₂ t₂ id₂')
      (hs : shapeOf btf₁ exact t₁ = shapeOf btf₂ exact t₂)
      (hrefs : ∀ (k : Nat) r₁ r₂, (followed exact t₁)[k]? = some r₁ →
        (followed exact t₂)[k]? = some r₂ → Alike btf₁ btf₂ r₁.1 r₁.2 r₂.2) :
      Alike btf₁ btf₂ exact id₁ id₂

-- ======== references

/-- What two lists of references have at the same places is related. -/
def Pointwise (R : Bool → Nat → Nat → Prop) (rs₁ rs₂ : List (Bool × Nat)) : Prop :=
  ∀ (k : Nat) r₁ r₂, rs₁[k]? = some r₁ → rs₂[k]? = some r₂ → R r₁.1 r₁.2 r₂.2

section

variable {R : Bool → Nat → Nat → Prop} {rs₁ rs₂ : List (Bool × Nat)}

theorem pointwise_nil : Pointwise R [] rs₂ := fun _ _ _ h => (by cases h)

theorem pointwise_cons {r₁ r₂ : Bool × Nat} :
    Pointwise R (r₁ :: rs₁) (r₂ :: rs₂) ↔ R r₁.1 r₁.2 r₂.2 ∧ Pointwise R rs₁ rs₂ := by
  refine ⟨fun h => ⟨h 0 r₁ r₂ rfl rfl, fun k => h (k + 1)⟩, fun h k => ?_⟩
  cases k with
  | zero =>
    rintro _ _ ⟨⟩ ⟨⟩
    exact h.1
  | succ k => exact h.2 k

theorem pointwise_singleton {m : Bool} {x y : Nat} : Pointwise R [(m, x)] [(m, y)] ↔ R m x y := by
  rw [pointwise_cons]
  simp [pointwise_nil]

theorem pointwise_map {m : Bool} {f g : Nat → Nat} : ∀ {l : List Nat},
    Pointwise R (l.map fun i => (m, f i)) (l.map fun i => (m, g i)) ↔ ∀ i ∈ l, R m (f i) (g i)
  | [] => by simp [pointwise_nil]
  | i :: l => by
    rw [map_cons, map_cons, pointwise_cons, pointwise_map, forall_mem_cons]

theorem pointwise_map_append {m : Bool} {f g : Nat → Nat} {l : List Nat} {x y : Nat} :
    Pointwise R (l.map (fun i => (m, f i)) ++ [(m, x)]) (l.map (fun i => (m, g i)) ++ [(m, y)])
      ↔ (∀ i ∈ l, R m (f i) (g i)) ∧ R m x y := by
  induction l with
  | nil => simp [pointwise_singleton]
  | cons i l ih =>
    rw [map_cons, map_cons, cons_append, cons_append, pointwise_cons, ih,
      forall_mem_cons, and_assoc]

end

-- ======== records

section

variable {btf : Btf} {id : Nat} {t : BtfType}

theorem BtfType.word_of_rest {k v : Nat} (h : t.rest[k]? = some v) : t.word (3 + k) = v := by
  obtain ⟨hlt, -⟩ := List.getElem?_eq_some_iff.mp h
  rw [BtfType.rest_eq_word hlt] at h
  exact Option.some.inj h

theorem Btf.Accepted.member_words (h : btf.Accepted) (ht : btf.typeById id = some t)
    (hc : t.isComposite = true) {i : Nat} (hi : i < t.vlen) :
    t.member? i = some ⟨t.word (3 + 3 * i), t.word (3 + (3 * i + 1)), t.word (3 + (3 * i + 2))⟩
      ∧ ∃ s, btf.strByOffset (t.word (3 + 3 * i)) = some s := by
  obtain ⟨m, u, s, hm, -, hs⟩ := h.member ht hc hi
  have hwords : m = ⟨t.word (3 + 3 * i), t.word (3 + (3 * i + 1)), t.word (3 + (3 * i + 2))⟩ := by
    unfold BtfType.member? at hm
    cases h0 : t.rest[3 * i]? with
    | none => simp [h0] at hm
    | some a =>
      cases h1 : t.rest[3 * i + 1]? with
      | none => simp [h0, h1] at hm
      | some b =>
        cases h2 : t.rest[3 * i + 2]? with
        | none => simp [h0, h1, h2] at hm
        | some c =>
          simp only [h0, h1, h2, Option.some.injEq] at hm
          rw [BtfType.word_of_rest h0, BtfType.word_of_rest h1, BtfType.word_of_rest h2, hm]
  subst hwords
  exact ⟨hm, s, hs⟩

theorem Btf.Accepted.array_words (h : btf.Accepted) (ht : btf.typeById id = some t)
    (hk : t.kind = .array) : ∃ a, t.array? = some a ∧ a.type = t.word 3 := by
  obtain ⟨a, u, ha, -⟩ := h.array ht (by rw [BtfType.isArray, hk]; rfl)
  refine ⟨a, ha, ?_⟩
  unfold BtfType.array? at ha
  cases h0 : t.rest[0]? with
  | none => simp [h0] at ha
  | some x =>
    cases h1 : t.rest[1]? with
    | none => simp [h0, h1] at ha
    | some y =>
      cases h2 : t.rest[2]? with
      | none => simp [h0, h1, h2] at ha
      | some z =>
        simp only [h0, h1, h2, Option.some.injEq] at ha
        rw [← ha]
        exact (BtfType.word_of_rest h0).symm

theorem Btf.Accepted.param_word (h : btf.Accepted) (ht : btf.typeById id = some t)
    (hk : t.kind = .funcProto) {i : Nat} (hi : i < t.vlen) :
    t.paramType? i = some (t.word (3 + (2 * i + 1))) := by
  obtain ⟨type, _, _, _, htype, -⟩ := h.param ht hk hi
  rw [htype]
  exact congrArg some (BtfType.word_of_rest htype).symm

theorem Btf.Accepted.var_word (h : btf.Accepted) (ht : btf.typeById id = some t)
    (hk : t.kind = .var) : t.varLinkage? = some (t.word 3) := by
  obtain ⟨-, hlen, -⟩ := h.checked (n := 1) ht (by rw [hk]; rfl) (by rw [hk]; rfl)
  exact BtfType.rest_eq_word (by omega)

end

-- ======== one step

section

variable {btf₁ btf₂ : Btf} {exact : Bool} {id₁ id₂ : Nat} {t₁ t₂ : BtfType}

theorem shapeOf_eq : shapeOf btf₁ exact t₁ = shapeOf btf₂ exact t₂
    ↔ t₁.kind = t₂.kind ∧ (shapeOf btf₁ exact t₁).name = (shapeOf btf₂ exact t₂).name
      ∧ (shapeOf btf₁ exact t₁).size = (shapeOf btf₂ exact t₂).size
      ∧ (shapeOf btf₁ exact t₁).isStatic = (shapeOf btf₂ exact t₂).isStatic
      ∧ (shapeOf btf₁ exact t₁).fields = (shapeOf btf₂ exact t₂).fields
      ∧ (shapeOf btf₁ exact t₁).params = (shapeOf btf₂ exact t₂).params := by
  unfold shapeOf
  rw [Shape.mk.injEq]

theorem getElem?_map_range {f : Nat → Bool × Nat} {i n : Nat} (hi : i < n) :
    ((List.range n).map f)[i]? = some (f i) := by
  rw [getElem?_map, getElem?_range hi]
  rfl

/-- Types of one shape follow references in the same modes. -/
theorem followed_modes (hs : shapeOf btf₁ exact t₁ = shapeOf btf₂ exact t₂) :
    (followed exact t₁).map (·.1) = (followed exact t₂).map (·.1) := by
  have hk : t₁.kind = t₂.kind := congrArg Shape.kind hs
  have hf := congrArg Shape.fields hs
  have hp := congrArg Shape.params hs
  dsimp only [shapeOf] at hf hp
  unfold followed
  rw [← hk] at hf hp ⊢
  have hlen : (fieldsOf btf₁ t₁).length = t₁.vlen ∧ (fieldsOf btf₂ t₂).length = t₂.vlen := by
    simp [fieldsOf]
  cases hkind : t₁.kind with
  | struct | union =>
    rw [hkind] at hf
    cases exact with
    | false => rfl
    | true =>
      have hvlen := congrArg List.length (Option.some.inj hf)
      rw [hlen.1, hlen.2] at hvlen
      simp [hvlen]
  | funcProto =>
    rw [hkind] at hp
    have hvlen : t₁.vlen = t₂.vlen := Option.some.inj hp
    simp [hvlen]
  | _ => rfl

theorem fieldsOf_eq : fieldsOf btf₁ t₁ = fieldsOf btf₂ t₂ ↔ t₁.vlen = t₂.vlen
    ∧ ∀ i ∈ List.range t₁.vlen, (btf₁.strByOffset (t₁.word (3 + 3 * i)), t₁.word (3 + (3 * i + 2)))
        = (btf₂.strByOffset (t₂.word (3 + 3 * i)), t₂.word (3 + (3 * i + 2))) := by
  unfold fieldsOf
  refine ⟨fun h => ?_, fun h => ?_⟩
  · have hlen : t₁.vlen = t₂.vlen := by simpa using congrArg List.length h
    rw [← hlen] at h
    exact ⟨hlen, fun i hi => map_inj_left.mp h i hi⟩
  · rw [← h.1]
    exact map_inj_left.mpr h.2

theorem strEq_some {a b : Option CStr} {s s' : CStr} (ha : a = some s) (hb : b = some s') :
    strEq a b = .ok (decide (a = b)) := by
  subst ha hb
  simp [strEq, beq_eq_decide]

variable (h₁ : btf₁.Accepted) (h₂ : btf₂.Accepted) (ht₁ : btf₁.typeById id₁ = some t₁)
  (ht₂ : btf₂.typeById id₂ = some t₂)

include h₁ h₂ ht₁ ht₂

theorem globNamesMatch_eq (hk : t₁.kind = t₂.kind) : globNamesMatch btf₁ btf₂ t₁ t₂
    = .ok (decide ((shapeOf btf₁ exact t₁).name = (shapeOf btf₂ exact t₂).name)) := by
  obtain ⟨n₁, hn₁⟩ := h₁.name ht₁
  obtain ⟨n₂, hn₂⟩ := h₂.name ht₂
  unfold globNamesMatch shapeOf
  rw [← hk]
  by_cases hc : t₁.kind.namesCompared = true
  · rw [if_pos hc, if_pos hc, if_pos hc]
    exact strEq_some hn₁ hn₂
  · rw [if_neg hc, if_neg hc, if_neg hc, decide_eq_true rfl]

variable {go : Nat → Bool → Nat → Nat → Res Bool} {R : Bool → Nat → Nat → Prop}

/-- A field of two structs. -/
theorem globFieldMatches_decides {i : Nat} (hc₁ : t₁.isComposite = true)
    (hc₂ : t₂.isComposite = true) (hi₁ : i < t₁.vlen) (hi₂ : i < t₂.vlen)
    (hgo : Decides (fun n => go n exact (t₁.word (3 + (3 * i + 1))) (t₂.word (3 + (3 * i + 1))))
      (R exact (t₁.word (3 + (3 * i + 1))) (t₂.word (3 + (3 * i + 1))))) :
    Decides (fun n => globFieldMatches (go n) btf₁ btf₂ exact t₁ t₂ i)
      ((btf₁.strByOffset (t₁.word (3 + 3 * i)), t₁.word (3 + (3 * i + 2)))
          = (btf₂.strByOffset (t₂.word (3 + 3 * i)), t₂.word (3 + (3 * i + 2)))
        ∧ R exact (t₁.word (3 + (3 * i + 1))) (t₂.word (3 + (3 * i + 1)))) := by
  obtain ⟨hm₁, s₁, hs₁⟩ := h₁.member_words ht₁ hc₁ hi₁
  obtain ⟨hm₂, s₂, hs₂⟩ := h₂.member_words ht₂ hc₂ hi₂
  simp only [globFieldMatches, hm₁, hm₂, deref, bind, Except.bind, strEq_some hs₁ hs₂]
  refine (decides_when fun _ => hgo).iff ?_
  rw [Bool.and_eq_true, decide_eq_true_iff, beq_iff_eq, Prod.mk.injEq]

/-- All fields of two structs. -/
theorem globFields_decides (hc₁ : t₁.isComposite = true) (hc₂ : t₂.isComposite = true)
    (hgo : ∀ i, i < t₁.vlen → t₁.vlen = t₂.vlen →
      Decides (fun n => go n exact (t₁.word (3 + (3 * i + 1))) (t₂.word (3 + (3 * i + 1))))
        (R exact (t₁.word (3 + (3 * i + 1))) (t₂.word (3 + (3 * i + 1))))) :
    Decides (fun n => if t₁.vlen ≠ t₂.vlen then .ok false
        else (List.range t₁.vlen).allM (globFieldMatches (go n) btf₁ btf₂ exact t₁ t₂))
      (fieldsOf btf₁ t₁ = fieldsOf btf₂ t₂
        ∧ Pointwise R ((List.range t₁.vlen).map fun i => (exact, t₁.word (3 + (3 * i + 1))))
          ((List.range t₂.vlen).map fun i => (exact, t₂.word (3 + (3 * i + 1))))) := by
  have hfield : ∀ i ∈ List.range t₁.vlen, t₁.vlen = t₂.vlen →
      Decides (fun n => globFieldMatches (go n) btf₁ btf₂ exact t₁ t₂ i)
        ((btf₁.strByOffset (t₁.word (3 + 3 * i)), t₁.word (3 + (3 * i + 2)))
            = (btf₂.strByOffset (t₂.word (3 + 3 * i)), t₂.word (3 + (3 * i + 2)))
          ∧ R exact (t₁.word (3 + (3 * i + 1))) (t₂.word (3 + (3 * i + 1)))) := by
    intro i hi hlen
    have hi := mem_range.mp hi
    exact globFieldMatches_decides h₁ h₂ ht₁ ht₂ hc₁ hc₂ hi (hlen ▸ hi) (hgo i hi hlen)
  refine (decides_unless fun hlen =>
    decides_allM fun i hi => hfield i hi (not_not.mp hlen)).iff ?_
  rw [not_not, fieldsOf_eq, and_assoc]
  refine and_congr_right fun hlen => ?_
  rw [← hlen, pointwise_map]
  exact forall₂_and

/-- All parameters of two functions and what they return. -/
theorem globParams_decides (hk₁ : t₁.kind = .funcProto) (hk₂ : t₂.kind = .funcProto)
    (hgo : ∀ i, i < t₁.vlen → t₁.vlen = t₂.vlen →
      Decides (fun n => go n exact (t₁.word (3 + (2 * i + 1))) (t₂.word (3 + (2 * i + 1))))
        (R exact (t₁.word (3 + (2 * i + 1))) (t₂.word (3 + (2 * i + 1)))))
    (hret : t₁.vlen = t₂.vlen → Decides (fun n => go n exact t₁.type t₂.type)
      (R exact t₁.type t₂.type)) :
    Decides (fun n => if t₁.vlen ≠ t₂.vlen then .ok false else do
          let params ← (List.range t₁.vlen).allM (globParamMatches (go n) exact t₁ t₂)
          if params then go n exact t₁.type t₂.type else return false)
      (t₁.vlen = t₂.vlen ∧ Pointwise R
        ((List.range t₁.vlen).map (fun i => (exact, t₁.word (3 + (2 * i + 1))))
          ++ [(exact, t₁.type)])
        ((List.range t₂.vlen).map (fun i => (exact, t₂.word (3 + (2 * i + 1))))
          ++ [(exact, t₂.type)])) := by
  have hparam : ∀ i ∈ List.range t₁.vlen, t₁.vlen = t₂.vlen →
      Decides (fun n => globParamMatches (go n) exact t₁ t₂ i)
        (R exact (t₁.word (3 + (2 * i + 1))) (t₂.word (3 + (2 * i + 1)))) := by
    intro i hi hlen
    have hi := mem_range.mp hi
    simp only [globParamMatches, h₁.param_word ht₁ hk₁ hi, h₂.param_word ht₂ hk₂ (hlen ▸ hi),
      deref, bind, Except.bind]
    exact hgo i hi hlen
  refine (decides_unless fun hlen => Decides.and
    (decides_allM fun i hi => hparam i hi (not_not.mp hlen))
    fun _ => hret (not_not.mp hlen)).iff ?_
  rw [not_not]
  refine and_congr_right fun hlen => ?_
  rw [← hlen, pointwise_map_append]

/-- Two types of one kind. -/
theorem globKindMatches_decides (hk : t₁.kind = t₂.kind) (hcmp : t₁.kind.comparable = true)
    (hgo : ∀ (k : Nat) r₁ r₂, (followed exact t₁)[k]? = some r₁ →
      (followed exact t₂)[k]? = some r₂ → r₁.1 = r₂.1 →
      Decides (fun n => go n r₁.1 r₁.2 r₂.2) (R r₁.1 r₁.2 r₂.2)) :
    Decides (fun n => globKindMatches (go n) btf₁ btf₂ exact t₁ t₂)
      ((shapeOf btf₁ exact t₁).size = (shapeOf btf₂ exact t₂).size
        ∧ (shapeOf btf₁ exact t₁).isStatic = (shapeOf btf₂ exact t₂).isStatic
        ∧ (shapeOf btf₁ exact t₁).fields = (shapeOf btf₂ exact t₂).fields
        ∧ (shapeOf btf₁ exact t₁).params = (shapeOf btf₂ exact t₂).params
        ∧ Pointwise R (followed exact t₁) (followed exact t₂)) := by
  unfold globKindMatches shapeOf
  dsimp only
  unfold followed at hgo ⊢
  rw [← hk] at hgo ⊢
  cases hkind : t₁.kind with
  | unkn | fwd => exact decides_true.iff (by simp [pointwise_nil])
  | int | float | enum | enum64 =>
    refine (decides_ok (t₁.size == t₂.size)).iff ?_
    simp [pointwise_nil]
  | ptr =>
    rw [hkind] at hgo
    refine (hgo 0 _ _ rfl rfl rfl).iff ?_
    simp [pointwise_singleton]
  | array =>
    rw [hkind] at hgo
    obtain ⟨a₁, ha₁, hw₁⟩ := h₁.array_words ht₁ hkind
    obtain ⟨a₂, ha₂, hw₂⟩ := h₂.array_words ht₂ (hk.symm.trans hkind)
    simp only [ha₁, ha₂, deref, bind, Except.bind, hw₁, hw₂]
    refine (hgo 0 _ _ rfl rfl rfl).iff ?_
    simp [pointwise_singleton]
  | func =>
    rw [hkind] at hgo
    refine (decides_unless fun _ => hgo 0 _ _ rfl rfl rfl).iff ?_
    simp [pointwise_singleton]
  | var =>
    rw [hkind] at hgo
    simp only [h₁.var_word ht₁ hkind, h₂.var_word ht₂ (hk.symm.trans hkind), deref, bind,
      Except.bind]
    refine (decides_unless fun _ => hgo 0 _ _ rfl rfl rfl).iff ?_
    simp [pointwise_singleton]
  | struct | union =>
    rw [hkind] at hgo
    cases exact with
    | false => exact decides_true.iff (by simp [pointwise_nil])
    | true =>
      refine (globFields_decides (R := R) h₁ h₂ ht₁ ht₂ (by simp [BtfType.isComposite, hkind])
        (by simp [BtfType.isComposite, ← hk, hkind]) fun i hi hlen => ?_).iff ?_
      · exact hgo i _ _ (getElem?_map_range hi) (getElem?_map_range (hlen ▸ hi)) rfl
      · simp
  | funcProto =>
    rw [hkind] at hgo
    refine (globParams_decides (R := R) h₁ h₂ ht₁ ht₂ hkind (hk.symm.trans hkind)
      (fun i hi hlen => ?_) fun hlen => ?_).iff ?_
    · refine hgo i (exact, t₁.word (3 + (2 * i + 1))) (exact, t₂.word (3 + (2 * i + 1))) ?_ ?_ rfl
      · rw [getElem?_append_left (by simpa using hi)]
        exact getElem?_map_range hi
      · rw [getElem?_append_left (by simpa [← hlen] using hi)]
        exact getElem?_map_range (hlen ▸ hi)
    · refine hgo t₁.vlen (exact, t₁.type) (exact, t₂.type) ?_ ?_ rfl
      · rw [getElem?_append_right (by simp)]
        simp
      · rw [getElem?_append_right (by simp [hlen])]
        simp [hlen]
    · simp
  | typedef | volatile | const | restrict | datasec | declTag | typeTag | locParam | locProto
    | locsec | other =>
      rw [hkind] at hcmp
      cases hcmp

/-- `glob_sym_btf_matches` behind typedefs and modifiers, unless just one type is a
forward declaration. -/
theorem globMatchStep_decides (hcmp : t₁.kind.comparable = true)
    (hfwd : ¬ (!exact && t₁.isFwd != t₂.isFwd) = true)
    (hgo : ∀ (k : Nat) r₁ r₂, (followed exact t₁)[k]? = some r₁ →
      (followed exact t₂)[k]? = some r₂ → r₁.1 = r₂.1 →
      Decides (fun n => go n r₁.1 r₁.2 r₂.2) (R r₁.1 r₁.2 r₂.2)) :
    Decides (fun n => globMatchStep (go n) btf₁ btf₂ exact t₁ t₂)
      (shapeOf btf₁ exact t₁ = shapeOf btf₂ exact t₂
        ∧ Pointwise R (followed exact t₁) (followed exact t₂)) := by
  simp only [globMatchStep, if_neg hfwd]
  by_cases hk : t₁.kind = t₂.kind
  · have hnames : globNamesMatch btf₁ btf₂ t₁ t₂
        = .ok (decide ((shapeOf btf₁ exact t₁).name = (shapeOf btf₂ exact t₂).name)) :=
      globNamesMatch_eq h₁ h₂ ht₁ ht₂ hk
    simp only [if_neg (not_not.mpr hk), hnames, bind, Except.bind]
    refine (decides_when fun _ => globKindMatches_decides h₁ h₂ ht₁ ht₂ hk hcmp hgo).iff ?_
    rw [shapeOf_eq, decide_eq_true_iff]
    simp only [hk, true_and, and_assoc]
  · simp only [if_pos hk]
    exact decides_false fun h => hk (congrArg Shape.kind h.1)

/-- Just one of the types is a forward declaration. -/
theorem fwdMatches_decides (hfwd : t₁.isFwd ≠ t₂.isFwd) :
    Decides (fun _ => fwdMatches btf₁ btf₂ t₁ t₂)
      (Declares btf₁ btf₂ t₁ t₂ ∨ Declares btf₂ btf₁ t₂ t₁) := by
  obtain ⟨n₁, hn₁⟩ := h₁.name ht₁
  obtain ⟨n₂, hn₂⟩ := h₂.name ht₂
  simp only [fwdMatches, strEq_some hn₁ hn₂, bind, Except.bind]
  refine (decides_ok _).iff ?_
  have hkind : ∀ f t : BtfType, fwdKindMatches f t = true ↔ t.kind = f.fwdKind := by
    intro f t
    unfold fwdKindMatches BtfType.fwdKind
    cases f.kflag <;> simp
  rw [Bool.and_eq_true, decide_eq_true_iff]
  cases hf : t₁.isFwd with
  | true =>
    rw [if_pos rfl, hkind]
    have hk : t₁.kind = .fwd := beq_iff_eq.mp hf
    refine ⟨fun h => .inl ⟨hk, h.2, h.1⟩, ?_⟩
    rintro (h | h)
    · exact ⟨h.name, h.kind⟩
    · exact absurd (hf.trans (beq_iff_eq.mpr h.fwd).symm) hfwd
  | false =>
    have hf₂ : t₂.isFwd = true := by
      rw [hf] at hfwd
      simpa using hfwd.symm
    rw [if_neg Bool.false_ne_true, hkind]
    refine ⟨fun h => .inr ⟨beq_iff_eq.mp hf₂, h.2, h.1.symm⟩, ?_⟩
    rintro (h | h)
    · rw [BtfType.isFwd, h.fwd] at hf
      cases hf
    · exact ⟨h.name.symm, h.kind⟩

end

-- ======== the walk

section

variable {btf₁ btf₂ : Btf} {exact : Bool} {id₁ id₂ : Nat}

/-- What there is at two types that are alike. -/
theorem alike_iff {id₁' id₂' : Nat} {t₁ t₂ : BtfType} (ht₁ : Resolves btf₁ id₁ t₁ id₁')
    (ht₂ : Resolves btf₂ id₂ t₂ id₂') : Alike btf₁ btf₂ exact id₁ id₂
      ↔ (exact = false ∧ (Declares btf₁ btf₂ t₁ t₂ ∨ Declares btf₂ btf₁ t₂ t₁))
        ∨ (shapeOf btf₁ exact t₁ = shapeOf btf₂ exact t₂
          ∧ Pointwise (Alike btf₁ btf₂) (followed exact t₁) (followed exact t₂)) := by
  constructor
  · intro h
    cases h with
    | declares h₁ h₂ h =>
      rw [← (ht₁.unique h₁).1, ← (ht₂.unique h₂).1]
      exact .inl ⟨rfl, h⟩
    | same h₁ h₂ hs hrefs =>
      rw [← (ht₁.unique h₁).1, ← (ht₂.unique h₂).1]
      exact .inr ⟨hs, hrefs⟩
  · rintro (⟨rfl, h⟩ | ⟨hs, hrefs⟩)
    · exact .declares ht₁ ht₂ h
    · exact .same ht₁ ht₂ hs hrefs

theorem Declares.kinds {t₁ t₂ : BtfType} (h : Declares btf₁ btf₂ t₁ t₂) :
    t₁.isFwd = true ∧ t₂.isFwd = false := by
  refine ⟨beq_iff_eq.mpr h.fwd, ?_⟩
  unfold BtfType.isFwd
  rw [h.kind, BtfType.fwdKind]
  cases t₁.kflag <;> rfl

/-- The comparison returns and decides whether the types are alike. -/
theorem globMatch_decides (h₁ : btf₁.Accepted) (h₂ : btf₂.Accepted)
    (hu₁ : Unfolds btf₁ exact id₁) (hu₂ : Unfolds btf₂ exact id₂) :
    Decides (fun n => globSymBtfMatches btf₁ btf₂ n exact id₁ id₂)
      (Alike btf₁ btf₂ exact id₁ id₂) := by
  induction hu₁ generalizing id₂ with
  | @mk exact id₁ id₁' t₁ ht₁ hcmp _ ih =>
    obtain ⟨ht₂, -, hrefs₂⟩ := hu₂
    rename_i id₂' t₂
    refine Decides.step (fun n => rfl) (ht₁.settles.decides (ht₂.settles.decides ?_))
    refine Decides.iff ?_ (alike_iff ht₁ ht₂).symm
    by_cases hfwd : (!exact && t₁.isFwd != t₂.isFwd) = true
    · simp only [globMatchStep, if_pos hfwd]
      obtain ⟨he, hne⟩ : exact = false ∧ t₁.isFwd ≠ t₂.isFwd := by simpa using hfwd
      refine (fwdMatches_decides h₁ h₂ ht₁.found ht₂.found hne).iff ?_
      refine ⟨fun h => .inl ⟨he, h⟩, ?_⟩
      rintro (h | ⟨hs, -⟩)
      · exact h.2
      · have hk : t₁.kind = t₂.kind := congrArg Shape.kind hs
        exact absurd (by rw [BtfType.isFwd, BtfType.isFwd, hk]) hne
    · refine (globMatchStep_decides (R := Alike btf₁ btf₂) h₁ h₂ ht₁.found ht₂.found hcmp hfwd
        fun k r₁ r₂ hr₁ hr₂ hm => ?_).iff ?_
      · refine ih r₁ (mem_of_getElem? hr₁) ?_
        rw [hm]
        exact hrefs₂ r₂ (mem_of_getElem? hr₂)
      · refine ⟨.inr, ?_⟩
        rintro (⟨rfl, h⟩ | h)
        · refine absurd ?_ hfwd
          rcases h with h | h
          · simp [h.kinds.1, h.kinds.2]
          · simp [h.kinds.1, h.kinds.2]
        · exact h

end

end Libbpf
