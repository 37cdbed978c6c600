/-
The queue of definitions is in order.

As long as no call has failed, a type that is marked as ordered has
everything it needs in full on the queue, of this call or of an earlier one,
and each definition on it comes after all it needs in full (`OrderInv`). The
ordering keeps this, and what it says of a link is enough for its callers: a
strong one needs no pointer in front (`order_gives`). It has come to an end at
every type it went to, so writing those out does as well (`Ground`).

A call that fails loses the queue and leaves the marks, and the next call
finds types marked as ordered that were never queued.
-/
import Libbpf.Dump.Uses
import Libbpf.Dump.Finish

namespace Libbpf

open Lib
open List hiding modify

/-- What has to be defined in full for writing out `id` is in `l`. -/
def Covered (btf : Btf) (l : List Nat) (thr : Bool) (id : Nat) : Prop :=
  ∀ x, Hard btf thr id x → x ∈ l

/-- What has to be defined in full before the definition of `id` is in `l`. -/
def NeedsCovered (btf : Btf) (l : List Nat) (id : Nat) : Prop :=
  ∀ t, btf.typeById id = some t → ∀ r ∈ t.refs, Covered btf l (t.through true) r

/-- Definitions in order. -/
structure Queued (btf : Btf) (l : List Nat) : Prop where
  sorted : Along (NeedsCovered btf) l
  ground : ∀ id ∈ l, ∀ t, btf.typeById id = some t → ∀ r ∈ t.refs, Ground btf r
  kinds : ∀ id ∈ l, ∃ t, btf.typeById id = some t
    ∧ (t.isNamedComposite = true ∨ t.isFirm = true ∨ t.isTypedef = true)

/-- The marks and the queue, after the definitions `base` of earlier calls. -/
structure OrderInv (btf : Btf) (base : List Nat) (d : BtfDump) : Prop where
  queued : Queued btf (base ++ d.emitQueue)
  ordered : ∀ id, d.orderState id = .ordered →
    Covered btf (base ++ d.emitQueue) false id ∧ Ground btf id

section

variable {btf : Btf} {l l' : List Nat} {thr : Bool} {id : Nat} {t : BtfType}

theorem Covered.mono (h : Covered btf l thr id) (hl : l <+: l') : Covered btf l' thr id :=
  fun x hx => hl.subset (h x hx)

/-- Behind a pointer no more is needed. -/
theorem Covered.through (h : Covered btf l false id) : Covered btf l thr id :=
  fun x hx => h x hx.closer

theorem Covered.to_true (h : Covered btf l thr id) : Covered btf l true id := by
  cases thr with
  | true => exact h
  | false => exact h.through

theorem covered_of_refs (ht : btf.typeById id = some t)
    (hself : t.declares = true → thr = false ∨ t.isFirm = true → id ∈ l)
    (h : ∀ r ∈ t.refs, Covered btf l (t.through thr) r) : Covered btf l thr id := by
  intro x hx
  rcases hx.cases ht with ⟨rfl, hd, hm⟩ | ⟨-, r, hr, hx⟩
  · exact hself hd hm
  · exact h r hr x hx

theorem covered_of_named (ht : btf.typeById id = some t) (hn : t.isNamedComposite = true)
    (hself : thr = false → id ∈ l) : Covered btf l thr id := by
  intro x hx
  rcases hx.cases ht with ⟨rfl, -, hm⟩ | ⟨hopen, -⟩
  · refine hself (hm.resolve_right fun hfirm => ?_)
    unfold BtfType.isNamedComposite BtfType.isComposite at hn
    unfold BtfType.isFirm BtfType.isAnyEnum at hfirm
    cases hk : t.kind with
    | _ => simp [hk] at hn hfirm
  · rw [hn] at hopen
    cases hopen

/-- A kind that is made of nothing and declares nothing. -/
theorem covered_of_leaf (ht : btf.typeById id = some t) (hd : t.declares = false)
    (hr : t.refs = []) : Covered btf l thr id ∧ Ground btf id := by
  refine ⟨covered_of_refs ht (fun h => ?_) fun r h => ?_, ground_of_refs ht fun r h => ?_⟩
  · rw [hd] at h
    cases h
  · rw [hr] at h
    cases h
  · rw [hr] at h
    cases h

theorem Queued.snoc (h : Queued btf l) (ht : btf.typeById id = some t)
    (hk : t.isNamedComposite = true ∨ t.isFirm = true ∨ t.isTypedef = true)
    (hneeds : ∀ r ∈ t.refs, Covered btf l (t.through true) r)
    (hground : ∀ r ∈ t.refs, Ground btf r) : Queued btf (l ++ [id]) where
  sorted := h.sorted.snoc fun u hu => by
    cases ht.symm.trans hu
    exact hneeds
  ground x hx u hu := by
    rcases mem_append.mp hx with hx | hx
    · exact h.ground x hx u hu
    · cases mem_singleton.mp hx
      cases ht.symm.trans hu
      exact hground
  kinds x hx := by
    rcases mem_append.mp hx with hx | hx
    · exact h.kinds x hx
    · cases mem_singleton.mp hx
      exact ⟨t, ht, hk⟩

end

-- ======== steps

/-- The emitting side of a dumper is as it was. -/
structure SameEmits (d d' : BtfDump) : Prop where
  emit : ∀ x, d'.emitState x = d.emitState x
  fwd : ∀ x, (d'.typeStates x).fwdEmitted = (d.typeStates x).fwdEmitted
  out : d'.out = d.out

theorem SameEmits.refl (d : BtfDump) : SameEmits d d := ⟨fun _ => rfl, fun _ => rfl, rfl⟩

theorem SameEmits.trans {a b c : BtfDump} (h : SameEmits a b) (h' : SameEmits b c) :
    SameEmits a c :=
  ⟨fun x => (h'.emit x).trans (h.emit x), fun x => (h'.fwd x).trans (h.fwd x), h'.out.trans h.out⟩

theorem sameEmits_setOrder (d : BtfDump) (id : Nat) (o : DumpOrder) :
    SameEmits d (d.setOrder id o) where
  emit x := by
    unfold BtfDump.setOrder BtfDump.setAux BtfDump.emitState
    dsimp only
    split
    · rfl
    · rfl
  fwd x := by
    unfold BtfDump.setOrder BtfDump.setAux
    dsimp only
    split
    · rfl
    · rfl
  out := rfl

/-- A part of the ordering went well. -/
structure OrderStep (btf : Btf) (base : List Nat) (d d' : BtfDump) : Prop where
  inv : OrderInv btf base d'
  grows : base ++ d.emitQueue <+: base ++ d'.emitQueue
  same : SameEmits d d'

/-- What ordering `id` gives; `strong` is its result. -/
structure OrderGives (btf : Btf) (base : List Nat) (id : Nat) (thr : Bool) (d : BtfDump)
    (strong : Bool) (d' : BtfDump) : Prop extends OrderStep btf base d d' where
  covered : Covered btf (base ++ d'.emitQueue) thr id
  strong : strong = true → Covered btf (base ++ d'.emitQueue) false id
  ground : Ground btf id

/-- `m` establishes `Q` if it returns. -/
abbrev Gives {α : Type} (m : Run BtfDump α) (d : BtfDump) (Q : α → BtfDump → Prop) : Prop :=
  Ensures m d Q fun _ _ => True

section

variable {btf : Btf} {base : List Nat} {a b c d : BtfDump}

theorem OrderInv.refl (h : OrderInv btf base d) : OrderStep btf base d d :=
  ⟨h, prefix_refl _, .refl d⟩

theorem OrderStep.trans (h : OrderStep btf base a b) (h' : OrderStep btf base b c) :
    OrderStep btf base a c :=
  ⟨h'.inv, h.grows.trans h'.grows, h.same.trans h'.same⟩

theorem OrderStep.setOrder (h : OrderStep btf base a b) {id : Nat} {o : DumpOrder}
    (ho : o = .ordered → Covered btf (base ++ b.emitQueue) false id ∧ Ground btf id) :
    OrderStep btf base a (b.setOrder id o) where
  inv := ⟨h.inv.queued, fun x hx => by
    rw [orderState_setOrder] at hx
    split at hx
    · next heq =>
        subst heq
        exact ho hx
    · exact h.inv.ordered x hx⟩
  grows := h.grows
  same := h.same.trans (sameEmits_setOrder b id o)

theorem OrderStep.queue (h : OrderStep btf base a b) {id : Nat} {t : BtfType}
    (ht : btf.typeById id = some t)
    (hk : t.isNamedComposite = true ∨ t.isFirm = true ∨ t.isTypedef = true)
    (hneeds : ∀ r ∈ t.refs, Covered btf (base ++ b.emitQueue) (t.through true) r)
    (hground : ∀ r ∈ t.refs, Ground btf r) : OrderStep btf base a (b.addEmitQueueId id) := by
  have hl : base ++ (b.addEmitQueueId id).emitQueue = base ++ b.emitQueue ++ [id] :=
    (append_assoc ..).symm
  have hpre : base ++ b.emitQueue <+: base ++ (b.addEmitQueueId id).emitQueue := by
    rw [hl]
    exact prefix_append _ _
  refine ⟨⟨?_, fun x hx => ?_⟩, h.grows.trans hpre, h.same.trans ⟨fun _ => rfl, fun _ => rfl, rfl⟩⟩
  · rw [hl]
    exact h.inv.queued.snoc ht hk hneeds hground
  · obtain ⟨hcov, hg⟩ := h.inv.ordered x hx
    exact ⟨hcov.mono hpre, hg⟩

theorem mem_queue_self (base : List Nat) (d : BtfDump) (id : Nat) :
    id ∈ base ++ (d.addEmitQueueId id).emitQueue :=
  mem_append_right _ (mem_append_right _ (mem_singleton.mpr rfl))

end

section

variable {btf : Btf} {base : List Nat}

/-- The types of a list of parameters have been ordered. -/
theorem orderParams_gives {order : Nat → Run BtfDump Bool} {thr : Bool} {t : BtfType}
    {is : List Nat} {isStrong : Bool} {d : BtfDump} (hinv : OrderInv btf base d)
    (h : ∀ type d, OrderInv btf base d → Gives (order type) d (OrderGives btf base type thr d)) :
    Gives (orderParams order t is isStrong) d fun _ d' => OrderStep btf base d d'
      ∧ ∀ i ∈ is, ∀ type, t.paramType? i = some type →
        Covered btf (base ++ d'.emitQueue) thr type ∧ Ground btf type := by
  induction is generalizing isStrong d with
  | nil =>
    refine ensures_pure ⟨hinv.refl, fun i hi => ?_⟩
    cases hi
  | cons i is ih =>
    unfold orderParams
    refine ensures_read (fun _ _ => trivial) fun type htype => ?_
    refine (h type d hinv).bind fun strong d₁ h₁ => ?_
    refine (ih h₁.inv).mono fun _ d' h' => ⟨h₁.toOrderStep.trans h'.1, fun j hj u hu => ?_⟩
    rcases mem_cons.mp hj with rfl | hj
    · have heq : type = u := Option.some.inj ((deref_eq_ok.mp htype).symm.trans hu)
      subst heq
      exact ⟨h₁.covered.mono h'.1.grows, h₁.ground⟩
    · exact h'.2 j hj u hu

/-- A type without a name that is made of one other. -/
theorem OrderGives.one {id type : Nat} {thr p strong : Bool} {d d' : BtfDump} {t : BtfType}
    (h : OrderGives btf base type p d strong d') (ht : btf.typeById id = some t)
    (hrefs : t.refs = [type]) (hdecl : t.declares = false) (hthr : t.through thr = p)
    (hfalse : strong = true → Covered btf (base ++ d'.emitQueue) (t.through false) type) :
    OrderGives btf base id thr d strong d' := by
  have hself : ∀ {P : Prop}, t.declares = true → P := by
    intro P hd
    rw [hdecl] at hd
    cases hd
  refine ⟨h.toOrderStep, covered_of_refs ht (fun hd => hself hd) fun r hr => ?_, fun hs =>
    covered_of_refs ht (fun hd => hself hd) fun r hr => ?_, ground_of_refs ht fun r hr => ?_⟩
  · rw [hrefs] at hr
    cases mem_singleton.mp hr
    rw [hthr]
    exact h.covered
  · rw [hrefs] at hr
    cases mem_singleton.mp hr
    exact hfalse hs
  · rw [hrefs] at hr
    cases mem_singleton.mp hr
    exact h.ground

theorem gives_finishing {α : Type} {m : Run BtfDump α} {f : BtfDump → BtfDump} {d : BtfDump}
    {P Q : α → BtfDump → Prop} (h : Gives m d P) (hf : ∀ a d', P a d' → Q a (f d')) :
    Gives (finishing m f) d Q := by
  unfold Gives Ensures finishing
  cases hm : m d with
  | ok a d' => exact hf a d' (h.ok hm)
  | error e d' => trivial

section

variable {order : Nat → Bool → Run BtfDump Bool} {id : Nat} {thr : Bool} {d : BtfDump}
  {t : BtfType} (hinv : OrderInv btf base d) (ht : btf.typeById id = some t)
  (horder : ∀ id thr d, OrderInv btf base d → Gives (order id thr) d (OrderGives btf base id thr d))

include hinv ht

/-- A named struct or union behind a pointer is left for later. -/
theorem gives_weak (hn : t.isNamedComposite = true) (hthr : thr = true) :
    Gives (pure false) d (OrderGives btf base id thr d) := by
  refine ensures_pure ⟨hinv.refl, covered_of_named ht hn fun h => ?_, fun h => ?_,
    ground_of_named ht hn⟩
  · rw [hthr] at h
    cases h
  · cases h

/-- A kind that is only marked. -/
theorem gives_leaf (hd : t.declares = false) (hr : t.refs = []) :
    Gives (do modify (·.setOrder id .ordered); pure false) d (OrderGives btf base id thr d) := by
  obtain ⟨hcov, hground⟩ : Covered btf (base ++ d.emitQueue) false id ∧ Ground btf id :=
    covered_of_leaf ht hd hr
  refine ensures_modify (ensures_pure ⟨hinv.refl.setOrder fun _ => ⟨hcov, hground⟩, hcov.through,
    fun h => ?_, hground⟩)
  cases h

theorem gives_firm (hfirm : t.isFirm = true) (hrefs : t.refs = [])
    (hdecl : t.declares = true → t.nameOff ≠ 0) :
    Gives (do
      modify fun d =>
        if t.nameOff ≠ 0 ∨ (d.typeStates id).referenced = false then d.addEmitQueueId id else d
      modify (·.setOrder id .ordered)
      pure true) d (OrderGives btf base id thr d) := by
  have hnone : ∀ {P : Nat → Prop}, ∀ r ∈ t.refs, P r := by
    intro P r hr
    rw [hrefs] at hr
    cases hr
  have hg : Ground btf id := ground_of_refs ht hnone
  refine ensures_modify (ensures_modify (ensures_pure ?_))
  split
  · have hcov : ∀ thr, Covered btf (base ++ (d.addEmitQueueId id).emitQueue) thr id :=
      fun thr => covered_of_refs ht (fun _ _ => mem_queue_self base d id) hnone
    exact ⟨(hinv.refl.queue ht (.inr (.inl hfirm)) hnone hnone).setOrder fun _ =>
      ⟨hcov false, hg⟩, hcov thr, fun _ => hcov false, hg⟩
  next hq =>
    -- it has no name, and is written out where it is used
    have hcov : ∀ thr, Covered btf (base ++ d.emitQueue) thr id := fun thr =>
      covered_of_refs ht (fun hd => absurd (.inl (hdecl hd)) hq) hnone
    exact ⟨hinv.refl.setOrder fun _ => ⟨hcov false, hg⟩, hcov thr, fun _ => hcov false, hg⟩

include horder

theorem gives_funcProto (hk : t.kind = .funcProto) : Gives (do
      let isStrong ← order t.type thr
      orderParams (fun type => order type thr) t (List.range t.vlen) isStrong) d
      (OrderGives btf base id thr d) := by
  have hthr : ∀ p, t.through p = true := by
    intro p
    unfold BtfType.through
    rw [hk]
  refine (horder t.type thr d hinv).bind fun isStrong d₁ h₁ => ?_
  refine (orderParams_gives h₁.inv fun type d hd => horder type thr d hd).mono
    fun strong d' h => ?_
  have hall : ∀ r ∈ t.refs, Covered btf (base ++ d'.emitQueue) true r ∧ Ground btf r := by
    unfold BtfType.refs
    rw [hk]
    intro r hr
    rcases mem_cons.mp hr with rfl | hr
    · exact ⟨(h₁.covered.mono h.1.grows).to_true, h₁.ground⟩
    · obtain ⟨i, hi, hp⟩ := mem_filterMap.mp hr
      obtain ⟨hcov, hg⟩ := h.2 i hi r hp
      exact ⟨hcov.to_true, hg⟩
  have hcov : ∀ thr, Covered btf (base ++ d'.emitQueue) thr id := by
    intro thr
    refine covered_of_refs ht (fun hd => ?_) fun r hr => ?_
    · rw [t.declares_eq_false (by rw [hk]; rfl)] at hd
      cases hd
    · rw [hthr]
      exact (hall r hr).1
  exact ⟨h₁.toOrderStep.trans h.1, hcov thr, fun _ => hcov false,
    ground_of_refs ht fun r hr => (hall r hr).2⟩

theorem gives_typedef (hk : t.kind = .typedef) : Gives (do
      let isStrong ← order t.type thr
      if thr && !isStrong then pure false
      else do
        modify (·.addEmitQueueId id)
        modify (·.setOrder id .ordered)
        pure true) d (OrderGives btf base id thr d) := by
  have hone : ∀ {P : Nat → Prop}, P t.type → ∀ r ∈ t.refs, P r := by
    intro P hP r hr
    unfold BtfType.refs at hr
    rw [hk] at hr
    cases mem_singleton.mp hr
    exact hP
  have hthr : ∀ p, t.through p = p := by
    intro p
    unfold BtfType.through
    rw [hk]
  refine (horder t.type thr d hinv).bind fun isStrong d₁ h₁ => ?_
  have hg : Ground btf id := ground_of_refs ht (hone h₁.ground)
  split
  · next hw =>
      rw [Bool.and_eq_true] at hw
      refine ensures_pure ⟨h₁.toOrderStep, covered_of_refs ht (fun _ hm => ?_)
        (hone (by rw [hthr]; exact h₁.covered)), fun h => ?_, hg⟩
      · unfold BtfType.isFirm BtfType.isAnyEnum at hm
        rw [hk, hw.1] at hm
        rcases hm with hm | hm
        · cases hm
        · cases hm
      · cases h
  next hs =>
  refine ensures_modify (ensures_modify (ensures_pure ?_))
  have hinner : Covered btf (base ++ d₁.emitQueue) false t.type := by
    cases thr with
    | false => exact h₁.covered
    | true =>
      refine h₁.strong ?_
      simpa using hs
  have htypedef : t.isTypedef = true := by
    unfold BtfType.isTypedef
    rw [hk]
  have hstep : OrderStep btf base d₁ (d₁.addEmitQueueId id) :=
    h₁.inv.refl.queue ht (.inr (.inr htypedef)) (hone hinner.through) (hone h₁.ground)
  have hcov : Covered btf (base ++ (d₁.addEmitQueueId id).emitQueue) false id :=
    covered_of_refs ht (fun _ _ => mem_queue_self base d₁ id)
      (hone (by rw [hthr]; exact hinner.mono hstep.grows))
  exact ⟨(h₁.toOrderStep.trans hstep).setOrder fun _ => ⟨hcov, hg⟩, hcov.through, fun _ => hcov, hg⟩

theorem gives_composite (hc : t.isComposite = true) : Gives (do
      modify (·.setOrder id .ordering)
      each (fun i => do
        let type ← liftRes (memberType t i)
        let _ ← order type false) (List.range t.vlen)
      modify fun d => if t.nameOff ≠ 0 then d.addEmitQueueId id else d
      modify (·.setOrder id .ordered)
      pure true) d (OrderGives btf base id thr d) := by
  have hthr : ∀ p, t.through p = false := by
    intro p
    unfold BtfType.through
    rcases t.isComposite_iff.mp hc with hk | hk
    · rw [hk]
    · rw [hk]
  refine ensures_modify ((ensures_each (fun pre d' => OrderStep btf base d d'
    ∧ ∀ i ∈ pre, ∀ m, t.member? i = some m →
      Covered btf (base ++ d'.emitQueue) false m.type ∧ Ground btf m.type) ?_ ?_).bind
    fun _ d₁ h₁ => ensures_modify (ensures_modify (ensures_pure ?_)))
  · refine ⟨hinv.refl.setOrder fun h => ?_, fun i hi => ?_⟩
    · cases h
    · cases hi
  · intro pre i post d₁ hsplit h₁
    refine ensures_read (fun _ _ => trivial) fun type htype => ?_
    refine (horder type false d₁ h₁.1.inv).bind fun strong d₂ h₂ => ensures_pure ?_
    refine ⟨h₁.1.trans h₂.toOrderStep, fun j hj m hm => ?_⟩
    rcases mem_append.mp hj with hj | hj
    · obtain ⟨hcov, hg⟩ := h₁.2 j hj m hm
      exact ⟨hcov.mono h₂.grows, hg⟩
    cases mem_singleton.mp hj
    have htype' := deref_eq_ok.mp htype
    rw [hm] at htype'
    cases htype'
    exact ⟨h₂.covered, h₂.ground⟩
  have hall : ∀ r ∈ t.refs, Covered btf (base ++ d₁.emitQueue) false r ∧ Ground btf r := by
    intro r hr
    obtain ⟨i, hi, m, hm, rfl⟩ := t.of_mem_refs_member hc hr
    exact h₁.2 i (mem_range.mpr hi) m hm
  have hneeds : ∀ p, ∀ r ∈ t.refs, Covered btf (base ++ d₁.emitQueue) (t.through p) r := by
    intro p r hr
    rw [hthr]
    exact (hall r hr).1
  by_cases hn : t.nameOff = 0
  · -- it is written out where it is used
    rw [if_neg (not_not_intro hn)]
    have hcov : ∀ thr, Covered btf (base ++ d₁.emitQueue) thr id := by
      intro thr
      refine covered_of_refs ht (fun hd => ?_) (hneeds thr)
      rw [t.declares_eq_false_of_composite hc hn] at hd
      cases hd
    have hg : Ground btf id := ground_of_refs ht fun r hr => (hall r hr).2
    exact ⟨h₁.1.setOrder fun _ => ⟨hcov false, hg⟩, hcov thr, fun _ => hcov false, hg⟩
  · rw [if_pos hn]
    have hnamed : t.isNamedComposite = true :=
      Bool.and_eq_true_iff.mpr ⟨hc, bne_iff_ne.mpr hn⟩
    have hcov : ∀ thr, Covered btf (base ++ (d₁.addEmitQueueId id).emitQueue) thr id :=
      fun thr => covered_of_named ht hnamed fun _ => mem_queue_self base d₁ id
    have hg : Ground btf id := ground_of_named ht hnamed
    exact ⟨(h₁.1.queue ht (.inl hnamed) (hneeds true) fun r hr => (hall r hr).2).setOrder
      fun _ => ⟨hcov false, hg⟩, hcov thr, fun _ => hcov false, hg⟩

end

/-- Ordering a type covers it, and keeps the queue in order. -/
theorem order_gives {n id : Nat} {thr : Bool} {d : BtfDump} (hinv : OrderInv btf base d) :
    Gives (btfDumpOrderType btf n id thr) d (OrderGives btf base id thr d) := by
  induction n generalizing id thr d with
  | zero => exact trivial
  | succ n ih =>
    refine ensures_read (fun _ _ => trivial) fun t ht => ensures_get ?_
    replace ht : btf.typeById id = some t := deref_eq_ok.mp ht
    cases hd : d.orderState id with
    | ordered =>
      obtain ⟨hcov, hg⟩ := hinv.ordered id hd
      exact ensures_pure ⟨hinv.refl, hcov.through, fun _ => hcov, hg⟩
    | ordering =>
      dsimp only
      split
      · next hc =>
          rw [Bool.and_eq_true, Bool.and_eq_true] at hc
          exact gives_weak hinv ht (Bool.and_eq_true_iff.mpr ⟨hc.1.1, hc.2⟩) hc.1.2
      · exact trivial
    | notOrdered =>
      cases hk : t.kind with
      | int | float =>
        refine gives_leaf hinv ht (t.declares_eq_false (by rw [hk]; rfl)) ?_
        unfold BtfType.refs
        rw [hk]
      | func | var | datasec | declTag | locParam | locProto | locsec =>
        refine gives_leaf hinv ht (t.declares_eq_false (by rw [hk]; rfl)) ?_
        unfold BtfType.refs
        rw [hk]
      | unkn | other => exact trivial
      | ptr =>
        have hrefs : t.refs = [t.type] := by
          unfold BtfType.refs
          rw [hk]
        have hthr : ∀ p, t.through p = true := by
          intro p
          unfold BtfType.through
          rw [hk]
        refine gives_finishing (ih hinv) fun strong d' h => ?_
        have h' : ∀ thr, OrderGives btf base id thr d strong d' := fun thr =>
          h.one ht hrefs (t.declares_eq_false (by rw [hk]; rfl)) (hthr thr) fun _ => by
            rw [hthr]
            exact h.covered
        exact ⟨(h' thr).toOrderStep.setOrder fun _ => ⟨(h' false).covered, (h' false).ground⟩,
          (h' thr).covered, (h' thr).strong, (h' thr).ground⟩
      | array =>
        refine ensures_read (fun _ _ => trivial) fun a ha => ?_
        have hrefs : t.refs = [a.type] := by
          unfold BtfType.refs
          rw [hk, deref_eq_ok.mp ha]
          rfl
        have hthr : ∀ p, t.through p = false := by
          intro p
          unfold BtfType.through
          rw [hk]
        exact (ih hinv).mono fun strong d' h => h.one ht hrefs
          (t.declares_eq_false (by rw [hk]; rfl)) (hthr thr) fun _ => by
            rw [hthr]
            exact h.covered
      | volatile | const | restrict | typeTag =>
        have hrefs : t.refs = [t.type] := by
          unfold BtfType.refs
          rw [hk]
        have hthr : ∀ p, t.through p = p := by
          intro p
          unfold BtfType.through
          rw [hk]
        exact (ih hinv).mono fun strong d' h => h.one ht hrefs
          (t.declares_eq_false (by rw [hk]; rfl)) (hthr thr) fun hs => by
            rw [hthr]
            exact h.strong hs
      | funcProto => exact gives_funcProto hinv ht (fun _ _ _ h => ih h) hk
      | struct | union =>
        have hc : t.isComposite = true := t.isComposite_iff.mpr (by rw [hk]; simp)
        dsimp only
        split
        · next hw =>
            rw [Bool.and_eq_true] at hw
            exact gives_weak hinv ht (Bool.and_eq_true_iff.mpr ⟨hc, hw.2⟩) hw.1
        · exact gives_composite hinv ht (fun _ _ _ h => ih h) hc
      | enum | enum64 | fwd =>
        refine gives_firm hinv ht ?_ ?_ fun hd => ?_
        · unfold BtfType.isFirm BtfType.isAnyEnum
          rw [hk]
          rfl
        · unfold BtfType.refs
          rw [hk]
        · unfold BtfType.declares BtfType.isTypedef at hd
          rw [hk] at hd
          exact bne_iff_ne.mp (Bool.and_eq_true_iff.mp hd).2
      | typedef => exact gives_typedef hinv ht (fun _ _ _ h => ih h) hk

end

end Libbpf
