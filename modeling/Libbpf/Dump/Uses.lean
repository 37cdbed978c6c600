/-
What a declaration needs to have been declared before it.

Writing out a type ends at names: those of typedefs, enums, forward
declarations and of structs and unions that have one. `Uses` finds them, and
says of each whether there is a pointer on the way to it. Of a struct behind a
pointer a forward declaration is enough (`Hard` leaves it out); the members of
an unnamed struct are written out wherever it stands.
-/
import Libbpf.Lib.Along
import Libbpf.Dump.Readable

namespace Libbpf

open Lib

/-- A struct or union with a name. -/
def BtfType.isNamedComposite (t : BtfType) : Bool := t.isComposite && t.nameOff != 0

/-- An enum or a forward declaration: it is declared in full or not at all. -/
def BtfType.isFirm (t : BtfType) : Bool := t.isAnyEnum || t.kind == .fwd

/-- The type has a declaration of its own. -/
def BtfType.declares (t : BtfType) : Bool :=
  t.isTypedef || (t.isComposite || t.isFirm) && t.nameOff != 0

/-- The kinds that declare something. -/
def BtfKind.declares : BtfKind → Bool
  | .typedef | .struct | .union | .enum | .enum64 | .fwd => true
  | _ => false

/-- Whether what a type is made of stands behind a pointer, where `thr` says
so of the type. -/
def BtfType.through (t : BtfType) (thr : Bool) : Bool :=
  match t.kind with
  | .ptr | .funcProto => true
  | .array | .struct | .union => false
  | _ => thr

/-- `Uses btf thr id m x`: writing out `id` needs the name of `x`. `thr` and
`m` say whether `id` and `x` stand behind a pointer. -/
inductive Uses (btf : Btf) : Bool → Nat → Bool → Nat → Prop
  | here {thr : Bool} {id : Nat} {t : BtfType} (ht : btf.typeById id = some t)
      (hd : t.declares = true) : Uses btf thr id thr id
  | step {thr m : Bool} {id r x : Nat} {t : BtfType} (ht : btf.typeById id = some t)
      (hopen : t.isNamedComposite = false) (hr : r ∈ t.refs)
      (h : Uses btf (t.through thr) r m x) : Uses btf thr id m x

/-- `x` has to be defined in full where `id` is written out. -/
def Hard (btf : Btf) (thr : Bool) (id x : Nat) : Prop :=
  ∃ m t, Uses btf thr id m x ∧ btf.typeById x = some t ∧ (m = false ∨ t.isFirm = true)

/-- The definition of `id` needs the name of `x`. A typedef of a struct counts
as a pointer to it. -/
def Needs (btf : Btf) (id : Nat) (m : Bool) (x : Nat) : Prop :=
  ∃ t r, btf.typeById id = some t ∧ r ∈ t.refs ∧ Uses btf (t.through true) r m x

/-- Writing out `a` goes on to `b`. -/
def Opens (btf : Btf) (a b : Nat) : Prop :=
  ∃ t, btf.typeById a = some t ∧ t.isNamedComposite = false ∧ b ∈ t.refs

/-- Writing out `id` comes to an end. -/
def Ground (btf : Btf) (id : Nat) : Prop := Acc (fun b a => Opens btf a b) id

section

variable {btf : Btf} {thr m : Bool} {id r x : Nat} {t : BtfType}

theorem BtfType.kind_of_isTypedef (h : t.isTypedef = true) : t.kind = .typedef := by
  unfold BtfType.isTypedef at h
  split at h
  · next hk => exact hk
  · cases h

theorem BtfType.kind_declares
    (h : t.isNamedComposite = true ∨ t.isFirm = true ∨ t.isTypedef = true) :
    t.kind.declares = true := by
  unfold BtfType.isNamedComposite BtfType.isComposite BtfType.isFirm BtfType.isAnyEnum
    BtfType.isTypedef at h
  cases hk : t.kind with
  | typedef | struct | union | enum | enum64 | fwd => rfl
  | _ => simp [hk] at h

theorem BtfType.declares_eq_false (h : t.kind.declares = false) : t.declares = false := by
  unfold BtfType.declares BtfType.isTypedef BtfType.isComposite BtfType.isFirm BtfType.isAnyEnum
  cases hk : t.kind with
  | typedef | struct | union | enum | enum64 | fwd =>
    rw [hk] at h
    cases h
  | _ => rfl

theorem BtfType.declares_eq_false_of_composite (hc : t.isComposite = true) (hn : t.nameOff = 0) :
    t.declares = false := by
  unfold BtfType.declares BtfType.isTypedef
  rw [hn, bne_self_eq_false, Bool.and_false]
  unfold BtfType.isComposite at hc
  cases hk : t.kind with
  | typedef =>
    rw [hk] at hc
    cases hc
  | _ => rfl

/-- Only structs and unions have names that end the writing. -/
theorem BtfType.isNamedComposite_eq_false (h : t.isComposite = false) :
    t.isNamedComposite = false := by
  unfold BtfType.isNamedComposite
  rw [h]
  rfl

/-- A kind hands on where it stands, or decides it. -/
theorem BtfType.through_cases (t : BtfType) :
    (∀ thr, t.through thr = thr) ∨ ∃ c, ∀ thr, t.through thr = c := by
  unfold BtfType.through
  cases t.kind with
  | ptr | funcProto => exact .inr ⟨true, fun _ => rfl⟩
  | array | struct | union => exact .inr ⟨false, fun _ => rfl⟩
  | _ => exact .inl fun _ => rfl

/-- Without the pointer in front, each name is used in the same way or
without a pointer. -/
theorem Uses.closer (h : Uses btf thr id m x) :
    ∃ m', Uses btf false id m' x ∧ (m' = false ∨ m' = m) := by
  induction h with
  | here ht hd => exact ⟨false, .here ht hd, .inl rfl⟩
  | @step thr m id r x t ht hopen hr h ih =>
    rcases t.through_cases with hid | ⟨c, hc⟩
    · obtain ⟨m', h', hm'⟩ := ih
      exact ⟨m', .step ht hopen hr (by rw [hid]; exact h'), hm'⟩
    · exact ⟨m, .step ht hopen hr (by rw [hc]; rwa [hc] at h), .inr rfl⟩

/-- What stands behind a pointer does so with one more in front. -/
theorem Uses.farther (h : Uses btf thr id m x) (hm : m = true) : Uses btf true id true x := by
  induction h with
  | here ht hd => exact .here ht hd
  | @step thr m id r x t ht hopen hr h ih =>
    rcases t.through_cases with hid | ⟨c, hc⟩
    · exact .step ht hopen hr (by rw [hid]; exact ih hm)
    · rw [hc] at h
      exact .step ht hopen hr (by rw [hc]; rwa [hm] at h)

theorem Hard.closer (h : Hard btf thr id x) : Hard btf false id x := by
  obtain ⟨m, t, huses, ht, hm⟩ := h
  obtain ⟨m', h', hm'⟩ := huses.closer
  refine ⟨m', t, h', ht, ?_⟩
  rcases hm' with rfl | rfl
  · exact .inl rfl
  · exact hm

theorem Hard.step (ht : btf.typeById id = some t) (hopen : t.isNamedComposite = false)
    (hr : r ∈ t.refs) (h : Hard btf (t.through thr) r x) : Hard btf thr id x := by
  obtain ⟨m, u, huses, hu, hm⟩ := h
  exact ⟨m, u, .step ht hopen hr huses, hu, hm⟩

/-- Where an open type needs something in full, a reference of it does, or it
is the type itself. -/
theorem Hard.cases (h : Hard btf thr id x) (ht : btf.typeById id = some t) :
    (x = id ∧ t.declares = true ∧ (thr = false ∨ t.isFirm = true))
      ∨ t.isNamedComposite = false ∧ ∃ r ∈ t.refs, Hard btf (t.through thr) r x := by
  obtain ⟨m, u, huses, hu, hm⟩ := h
  cases huses with
  | here ht' hd =>
    cases ht.symm.trans ht'
    cases ht.symm.trans hu
    exact .inl ⟨rfl, hd, hm⟩
  | step ht' hopen hr h =>
    cases ht.symm.trans ht'
    exact .inr ⟨hopen, _, hr, m, u, h, hu, hm⟩

theorem ground_of_refs (ht : btf.typeById id = some t) (h : ∀ r ∈ t.refs, Ground btf r) :
    Ground btf id := by
  refine ⟨id, fun r hr => ?_⟩
  obtain ⟨u, hu, -, hr⟩ := hr
  cases ht.symm.trans hu
  exact h r hr

theorem ground_of_named (ht : btf.typeById id = some t) (hn : t.isNamedComposite = true) :
    Ground btf id := by
  refine ⟨id, fun r hr => ?_⟩
  obtain ⟨u, hu, hopen, -⟩ := hr
  cases ht.symm.trans hu
  rw [hn] at hopen
  cases hopen

/-- Writing out does not come back to where it was. -/
theorem Ground.irrefl (h : Ground btf id) : ¬ Relation.TransGen (Opens btf) id id := by
  intro hloop
  have hacc : Acc (Relation.TransGen fun b a => Opens btf a b) id := h.transGen
  induction hacc with
  | intro a _ ih =>
    have hswap : Relation.TransGen (fun b a => Opens btf a b) a a :=
      Relation.transGen_swap.mp hloop
    exact ih a hswap h hloop

end

end Libbpf
