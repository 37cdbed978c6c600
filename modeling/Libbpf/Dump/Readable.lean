/-
What the dumper reads of a BTF.

`BtfType.refs` are the types a type is made of, whatever the walk that follows
them. In a BTF that was accepted they can all be looked up, and so can the
names and values the printing needs, with one exception: the validator does
not look at the return type of a FUNC_PROTO (`Btf.Returns`).
-/
import Libbpf.Core.Accepted
import Libbpf.Dump.Type

namespace Libbpf

open Lib List

/-- The types of the members, of those there are. -/
def BtfType.memberTypes (t : BtfType) : List Nat :=
  (List.range t.vlen).filterMap fun i => (t.member? i).map (·.type)

/-- The types of the parameters, of those there are. -/
def BtfType.paramTypes (t : BtfType) : List Nat :=
  (List.range t.vlen).filterMap t.paramType?

/-- The types that a type is made of. -/
def BtfType.refs (t : BtfType) : List Nat :=
  match t.kind with
  | .ptr | .typedef | .volatile | .const | .restrict | .typeTag => [t.type]
  | .array => (t.array?.map (·.type)).toList
  | .struct | .union => t.memberTypes
  | .funcProto => t.type :: t.paramTypes
  | _ => []

/-- The return types are there. -/
def Btf.Returns (btf : Btf) : Prop :=
  ∀ id t, btf.typeById id = some t → t.kind = .funcProto → ∃ u, btf.typeById t.type = some u

/-- Everything the dumper reads is there. -/
structure Btf.Readable (btf : Btf) : Prop where
  name : ∀ id t, btf.typeById id = some t → ∃ s, btf.strByOffset t.nameOff = some s
  refs : ∀ id t, btf.typeById id = some t → ∀ r ∈ t.refs, ∃ u, btf.typeById r = some u
  array : ∀ id t, btf.typeById id = some t → t.kind = .array → ∃ a, t.array? = some a
  member : ∀ id t, btf.typeById id = some t → t.isComposite = true → ∀ i < t.vlen,
    ∃ m s, t.member? i = some m ∧ btf.strByOffset m.nameOff = some s
  param : ∀ id t, btf.typeById id = some t → t.kind = .funcProto → ∀ i < t.vlen,
    ∃ type off s, t.paramType? i = some type ∧ t.rest[2 * i]? = some off
      ∧ btf.strByOffset off = some s
  enum : ∀ id t, btf.typeById id = some t → t.isAnyEnum = true → ∀ i < t.vlen,
    ∃ off v s, btfEnumNameOff? t i = some off ∧ btfEnumValue? t i = some v
      ∧ btf.strByOffset off = some s
  declTag : ∀ id t, btf.typeById id = some t → t.kind = .declTag → ∃ w, t.rest[0]? = some w

/-- `void` has no kind. -/
theorem Btf.ne_zero_of_kind {btf : Btf} {id : Nat} {t : BtfType} (ht : btf.typeById id = some t)
    (hk : t.kind ≠ .unkn) : id ≠ 0 := by
  rintro rfl
  have hvoid := (btfTypeById_zero btf).symm.trans (Btf.btfTypeById_of_typeById ht)
  cases hvoid
  exact hk rfl

namespace Btf.Accepted

variable {btf : Btf} {id : Nat} {t : BtfType}

/-- What a type is made of is there. -/
theorem ref (h : btf.Accepted) (hret : btf.Returns) (ht : btf.typeById id = some t) {r : Nat}
    (hr : r ∈ t.refs) : ∃ u, btf.typeById r = some u := by
  unfold BtfType.refs at hr
  cases hk : t.kind with
  | ptr =>
    rw [hk] at hr
    cases mem_singleton.mp hr
    exact h.ptr ht hk
  | typedef | volatile | const | restrict | typeTag =>
    rw [hk] at hr
    cases mem_singleton.mp hr
    exact h.behind ht (by unfold BtfType.isMod BtfType.isTypedef; rw [hk]; rfl)
  | array =>
    rw [hk] at hr
    obtain ⟨a, u, ha, hu⟩ := h.array ht (by unfold BtfType.isArray; rw [hk]; rfl)
    rw [ha] at hr
    cases mem_singleton.mp hr
    exact ⟨u, hu⟩
  | struct | union =>
    rw [hk] at hr
    obtain ⟨i, hi, hm⟩ := mem_filterMap.mp hr
    obtain ⟨m, u, -, hm', hu, -⟩ := h.member ht
      (by unfold BtfType.isComposite; rw [hk]; rfl) (mem_range.mp hi)
    rw [hm'] at hm
    cases hm
    exact ⟨u, hu⟩
  | funcProto =>
    rw [hk] at hr
    rcases mem_cons.mp hr with rfl | hr
    · exact hret id t ht hk
    obtain ⟨i, hi, hp⟩ := mem_filterMap.mp hr
    obtain ⟨type, -, -, u, hp', -, -, hu⟩ := h.param ht hk (mem_range.mp hi)
    rw [hp'] at hp
    cases hp
    exact ⟨u, hu⟩
  | _ =>
    rw [hk] at hr
    cases hr

theorem readable (h : btf.Accepted) (hret : btf.Returns) : btf.Readable where
  name _ _ ht := h.name ht
  refs _ _ ht _ hr := h.ref hret ht hr
  array _ _ ht hk := by
    obtain ⟨a, -, ha, -⟩ := h.array ht (by unfold BtfType.isArray; rw [hk]; rfl)
    exact ⟨a, ha⟩
  member _ _ ht hc i hi := by
    obtain ⟨m, -, s, hm, -, hs⟩ := h.member ht hc hi
    exact ⟨m, s, hm, hs⟩
  param _ _ ht hk i hi := by
    obtain ⟨type, off, s, -, hp, ho, hs, -⟩ := h.param ht hk hi
    exact ⟨type, off, s, hp, ho, hs⟩
  enum _ _ ht hk i hi := h.enum ht hk hi
  declTag _ _ ht hk := by
    obtain ⟨b, hlen, -, -, -⟩ := h.checked (n := 1) ht (by rw [hk]; rfl) (by rw [hk]; rfl)
    exact ⟨_, BtfType.rest_eq_word (by omega)⟩

end Btf.Accepted

end Libbpf
