/-
A dumper prints C that can be compiled, until a call fails.

As long as the calls on a dumper return 0, every definition asked for has been
printed once, and each struct, union and typedef comes after what it needs
(`dump_in_order`). A call that fails in the ordering keeps its marks and loses
its queue: a later call takes the marked types for printed
(`dump_after_failure`).
-/
import Libbpf.Dump.Calls
import Libbpf.Dump.Emitted

namespace Libbpf

open Lib
open List hiding after

/-- What holds between the calls; `base` are the definitions of all of them. -/
structure DumpInv (btf : Btf) (base : List Nat) (d : BtfDump) : Prop where
  queued : Queued btf base
  ordered : ∀ id, d.orderState id = .ordered → Covered btf base false id ∧ Ground btf id
  emit : EmitInv btf d
  done : ∀ x ∈ base, d.emitState x = .emitted
  idle : ∀ y, d.emitState y ≠ .emitting

section

variable {btf : Btf} {base : List Nat} {d : BtfDump} {n id : Nat}

/-- The definitions on the queue are printed in order. -/
theorem emitQueue_gives {queue : List Nat} (hqueued : Queued btf (base ++ queue))
    (hinv : EmitInv btf d) (hdone : ∀ x ∈ base, d.emitState x = .emitted)
    (hidle : ∀ y, d.emitState y ≠ .emitting) :
    Gives (each (fun id => btfDumpEmitType btf n id 0) queue) d fun _ d' =>
      EmitStep btf d d' ∧ ∀ x ∈ base ++ queue, d'.emitState x = .emitted := by
  refine ensures_each (fun pre d' => EmitStep btf d d'
    ∧ ∀ x ∈ base ++ pre, d'.emitState x = .emitted) ?_ ?_
  · rw [append_nil]
    exact ⟨hinv.refl, hdone⟩
  · intro pre id post d₁ hsplit h₁
    have hmem : id ∈ base ++ queue := by
      rw [hsplit]
      simp
    obtain ⟨t, ht, hkind⟩ := hqueued.kinds id hmem
    have hneeds : NeedsCovered btf (base ++ pre) id :=
      hqueued.sorted (base ++ pre) id post (by rw [hsplit, append_assoc])
    refine (top_gives ht hkind h₁.1.inv (hqueued.ground id hmem t ht)
      (fun r hr x hx => h₁.2 x (hneeds t ht r hr x hx))
      (fun y hy => hidle y ((h₁.1.emitting y).mp hy))).mono fun _ d₂ h₂ =>
        ⟨h₁.1.trans h₂.1, fun x hx => ?_⟩
    rw [← append_assoc] at hx
    rcases mem_append.mp hx with hx | hx
    · exact h₂.1.emitted x (h₁.2 x hx)
    · cases mem_singleton.mp hx
      exact h₂.2

theorem orderAndEmit_gives (h : DumpInv btf base d) (hq : d.emitQueue = []) :
    Gives (orderAndEmit btf n id) d fun _ d' => ∃ more, DumpInv btf (base ++ more) d'
      ∧ ∀ t, btf.typeById id = some t → t.declares = true → id ∈ base ++ more := by
  have hbase : base ++ d.emitQueue = base := by rw [hq, append_nil]
  have hinv : OrderInv btf base d := by
    refine ⟨?_, ?_⟩
    · rw [hbase]
      exact h.queued
    · rw [hbase]
      exact h.ordered
  refine (order_gives hinv).bind fun _ d₁ h₁ => ensures_get ?_
  refine (emitQueue_gives h₁.inv.queued (h.emit.same h₁.same)
    (fun x hx => (h₁.same.emit x).trans (h.done x hx))
    (fun y hy => h.idle y ((h₁.same.emit y).symm.trans hy))).mono fun _ d₂ h₂ => ?_
  refine ⟨d₁.emitQueue, ⟨h₁.inv.queued, fun x hx => ?_, h₂.1.inv, h₂.2, fun y hy => ?_⟩,
    fun t ht hd => ?_⟩
  · exact h₁.inv.ordered x ((h₂.1.order x).symm.trans hx)
  · exact h.idle y ((h₁.same.emit y).symm.trans ((h₂.1.emitting y).mp hy))
  · exact h₁.covered id ⟨false, t, .here ht hd, ht, .inl rfl⟩

theorem dumpType_gives (h : DumpInv btf base d) :
    Gives (btfDumpDumpType btf n id) d fun _ d' => ∃ more, DumpInv btf (base ++ more) d'
      ∧ ∀ t, btf.typeById id = some t → t.declares = true → id ∈ base ++ more := by
  have h' : DumpInv btf base { d with emitQueue := [] } :=
    ⟨h.queued, h.ordered, h.emit.same ⟨fun _ => rfl, fun _ => rfl, rfl⟩, h.done, h.idle⟩
  exact ensures_read (fun _ _ => trivial) fun _ _ => ensures_modify (orderAndEmit_gives h' rfl)

/-- A run of calls that all return 0. -/
theorem dumpTypes_gives {ids : List Nat} (h : DumpInv btf [] d) :
    Gives (each (btfDumpDumpType btf n) ids) d fun _ d' => ∃ base, DumpInv btf base d'
      ∧ ∀ id ∈ ids, ∀ t, btf.typeById id = some t → t.declares = true → id ∈ base := by
  refine ensures_each (fun pre d' => ∃ base, DumpInv btf base d'
    ∧ ∀ id ∈ pre, ∀ t, btf.typeById id = some t → t.declares = true → id ∈ base) ?_ ?_
  · refine ⟨[], h, fun id hid => ?_⟩
    cases hid
  · rintro pre id post d₁ - ⟨base, h₁, hpre⟩
    refine (dumpType_gives h₁).mono fun _ d₂ h₂ => ?_
    obtain ⟨more, h₂, hid⟩ := h₂
    refine ⟨base ++ more, h₂, fun x hx t ht hd => ?_⟩
    rcases mem_append.mp hx with hx | hx
    · exact mem_append_left _ (hpre x hx t ht hd)
    · cases mem_singleton.mp hx
      exact hid t ht hd

/-- `void` is made of nothing. -/
theorem void_leaf {t : BtfType} (ht : btf.typeById 0 = some t) :
    t.declares = false ∧ t.refs = [] := by
  have hvoid := (btfTypeById_zero btf).symm.trans (Btf.btfTypeById_of_typeById ht)
  cases hvoid
  exact ⟨rfl, rfl⟩

/-- `void` is the one type that is marked from the start. -/
theorem BtfDump.IsNew.zero {x : Nat} (h : d.IsNew btf)
    (hx : d.orderState x = .ordered ∨ d.emitState x = .emitted) : x = 0 := by
  by_contra hne
  rw [h.order, h.emit, DumpAux.start, if_neg hne] at hx
  rcases hx with hx | hx
  · cases hx
  · cases hx

theorem BtfDump.IsNew.dumpInv (h : d.IsNew btf) : DumpInv btf [] d where
  queued := by
    refine ⟨along_nil, fun id hid => ?_, fun id hid => ?_⟩
    · cases hid
    · cases hid
  ordered id hid := by
    have := h.zero (.inl hid)
    subst this
    cases ht : btf.typeById 0 with
    | some t => exact covered_of_leaf ht (void_leaf ht).1 (void_leaf ht).2
    | none =>
      refine ⟨fun x hx => ?_, 0, fun r hr => ?_⟩
      · obtain ⟨m, u, huses, -, -⟩ := hx
        cases huses with
        | here ht' _ => cases ht.symm.trans ht'
        | step ht' _ _ _ => cases ht.symm.trans ht'
      · obtain ⟨u, hu, -, -⟩ := hr
        cases ht.symm.trans hu
  emit := by
    refine ⟨fun x t ht hx hd => ?_, fun x => ?_, ?_, fun x t ht hx htd => ?_, fun x t ht hx => ?_,
      fun x hx => ?_⟩
    · have := h.zero (.inr hx)
      subst this
      rw [(void_leaf ht).1] at hd
      cases hd
    · rw [h.out]
      exact ⟨Nat.zero_le _, fun _ => rfl⟩
    · rw [h.out]
      exact along_nil
    · have := h.zero (.inr hx)
      subst this
      have hd := (void_leaf ht).1
      unfold BtfType.declares at hd
      rw [htd] at hd
      cases hd
    · have := h.zero (.inr hx)
      subst this
      exact .inr (.inr (void_leaf ht).2)
    · rw [h.fwd] at hx
      cases hx
  done x hx := by cases hx
  idle y hy := by
    rw [h.emit, DumpAux.start] at hy
    split at hy
    · cases hy
    · cases hy

/-- A type that is emitted and has a declaration of its own has been defined
once. -/
theorem EmitInv.defs_length {x : Nat} {t : BtfType} (h : EmitInv btf d)
    (ht : btf.typeById x = some t) (hx : d.emitState x = .emitted) (hd : t.declares = true)
    (hb : ¬ btf.IsBuiltin x) : (defsOf d.out x).length = 1 := by
  obtain ⟨i, hi, hdef⟩ := (h.given x t ht hx hd).resolve_right hb
  have hmem : i ∈ defsOf d.out x := mem_filter.mpr ⟨hi, hdef⟩
  have hle := (h.once x).1
  have hpos := length_pos_of_mem hmem
  omega

end

/-- A char, a struct `s` with a char, a typedef of it, a pointer to a struct
`n`, and `n` with the typedef and the pointer as members. -/
private def typedefMember : Bytes :=
  btfImage .little
    [⟨1, btfTypeInfo .int 0 false, 1, [8]⟩, ⟨3, btfTypeInfo .struct 1 false, 1, [5, 1, 0]⟩,
      ⟨5, btfTypeInfo .typedef 0 false, 2, []⟩,
      ⟨0, btfTypeInfo .ptr 0 false, 5, []⟩,
      ⟨7, btfTypeInfo .struct 2 false, 16, [5, 3, 0, 7, 4, 64]⟩]
    -- "", "c", "s", "t", "n"
    [0, 99, 0, 115, 0, 116, 0, 110, 0]

/-- Structs: `a` with a char; `b` that contains itself; `x` with an `a` and a
`b`; `y` with an `a`. -/
private def selfContained : Bytes :=
  btfImage .little
    [⟨1, btfTypeInfo .int 0 false, 1, [8]⟩, ⟨3, btfTypeInfo .struct 1 false, 1, [1, 1, 0]⟩,
      ⟨5, btfTypeInfo .struct 1 false, 1, [1, 3, 0]⟩,
      ⟨7, btfTypeInfo .struct 2 false, 2, [3, 2, 0, 5, 3, 8]⟩,
      ⟨9, btfTypeInfo .struct 1 false, 1, [3, 2, 0]⟩]
    -- "", "c", "a", "b", "x", "y"
    [0, 99, 0, 97, 0, 98, 0, 120, 0, 121, 0]

end Libbpf
