/-
The two passes of a dump come to an end.

The ordering notes that it is inside a struct or union and leaves no note at
any other type. So a cycle that passes a struct is found, and the number of
types not yet reached bounds how often that happens; between two structs it is
the rank among the other references that goes down (`order_returns`). The same
holds of the emitting, with the types that are being emitted (`emit_returns`).
-/
import Libbpf.Lib.Ensures
import Libbpf.Dump.Print

namespace Libbpf

open Lib
open List hiding modify

variable {id n contId : Nat} {t : BtfType} {α β : Type} {f : BtfDump → BtfDump} {d₁ : BtfDump}
  {o : DumpOrder}

-- ======== ordering

section

/-- The types the ordering has not come to. -/
def unordered (btf : Btf) (d : BtfDump) : Finset Nat :=
  (Finset.range btf.typeCnt).filter fun id => d.orderState id = .notOrdered

/-- What ordering does to a dumper. -/
structure OrderedOn (btf : Btf) (d d' : BtfDump) : Prop where
  order : ∀ x, d.orderState x ≠ .notOrdered → d'.orderState x ≠ .notOrdered
  tags : d'.declTags = d.declTags
  queue : ∀ x ∈ d'.emitQueue, x ∈ d.emitQueue ∨ ∃ t, btf.typeById x = some t

namespace OrderedOn

variable {btf : Btf} {a b c : BtfDump}

theorem refl (d : BtfDump) : OrderedOn btf d d := ⟨fun _ h => h, rfl, fun _ => .inl⟩

theorem trans (h : OrderedOn btf a b) (h' : OrderedOn btf b c) : OrderedOn btf a c where
  order x hx := h'.order x (h.order x hx)
  tags := h'.tags.trans h.tags
  queue x hx := by
    rcases h'.queue x hx with hx | hx
    · exact h.queue x hx
    · exact .inr hx

theorem unordered_subset (h : OrderedOn btf a b) : unordered btf b ⊆ unordered btf a := by
  intro x hx
  unfold unordered at hx ⊢
  rw [Finset.mem_filter] at hx ⊢
  refine ⟨hx.1, ?_⟩
  by_contra hne
  exact h.order x hne hx.2

end OrderedOn

variable {btf : Btf}

theorem orderState_setOrder (d : BtfDump) (id : Nat) (o : DumpOrder) (x : Nat) :
    (d.setOrder id o).orderState x = if x = id then o else d.orderState x := by
  unfold BtfDump.setOrder BtfDump.setAux BtfDump.orderState
  dsimp only
  split
  · rfl
  · rfl

theorem orderedOn_setOrder (d : BtfDump) (id : Nat) (ho : o ≠ .notOrdered) :
    OrderedOn btf d (d.setOrder id o) where
  order x hx := by
    rw [orderState_setOrder]
    split
    · exact ho
    · exact hx
  tags := rfl
  queue _ := .inl

theorem orderedOn_queue (d : BtfDump) (ht : btf.typeById id = some t) : OrderedOn btf d (d.addEmitQueueId id) where
  order _ hx := hx
  tags := rfl
  queue x hx := by
    rcases mem_append.mp hx with hx | hx
    · exact .inl hx
    · cases mem_singleton.mp hx
      exact .inr ⟨t, ht⟩

/-- Coming to a type leaves fewer to come to. -/
theorem card_unordered_lt {d : BtfDump}
    (ht : btf.typeById id = some t) (hd : d.orderState id = .notOrdered) (ho : o ≠ .notOrdered) :
    (unordered btf (d.setOrder id o)).card < (unordered btf d).card := by
  refine Finset.card_lt_card ⟨(orderedOn_setOrder d id ho).unordered_subset, fun hsub => ?_⟩
  have hmem : id ∈ unordered btf d :=
    Finset.mem_filter.mpr ⟨Finset.mem_range.mpr (Btf.typeById_lt ht), hd⟩
  have := (Finset.mem_filter.mp (hsub hmem)).2
  rw [orderState_setOrder, if_pos rfl] at this
  exact ho this

theorem composes_orderedOn (btf : Btf) : Composes (OrderedOn btf) := ⟨.refl, .trans⟩

/-- What a call of the ordering is to do. -/
abbrev Orders (btf : Btf) {α : Type} (m : Run BtfDump α) (d : BtfDump) : Prop :=
  Moves (OrderedOn btf) Stop.IsCode m d

theorem orders_finishing {m : Run BtfDump α} {d : BtfDump}
    (hm : Orders btf m d) (hf : ∀ d, OrderedOn btf d (f d)) : Orders btf (finishing m f) d := by
  unfold Orders Moves finishing
  cases hr : m d with
  | ok a d' => exact (hm.of_ok hr).trans (hf d')
  | error e d' => exact ⟨(hm.of_error hr).1, (hm.of_error hr).2.trans (hf d')⟩

theorem orders_params {order : Nat → Run BtfDump Bool} {d : BtfDump}
    {is : List Nat} {isStrong : Bool} (h : ∀ i ∈ is, ∃ type, paramType t i = .ok type
      ∧ ∀ d', OrderedOn btf d d' → Orders btf (order type) d') :
    Orders btf (orderParams order t is isStrong) d := by
  induction is generalizing isStrong d with
  | nil => exact moves_pure (composes_orderedOn btf) _ d
  | cons i is ih =>
    obtain ⟨type, htype, horder⟩ := h i mem_cons_self
    refine moves_read htype ((horder d (.refl d)).bind (composes_orderedOn btf)
      fun strong d' hd' => ih fun j hj => ?_)
    obtain ⟨type', htype', horder'⟩ := h j (mem_cons_of_mem _ hj)
    exact ⟨type', htype', fun d'' hd'' => horder' d'' (hd'.trans hd'')⟩

variable (hread : btf.Readable) (hac : Graph.Acyclic btf.orderRefs)

include hread hac

/-- The ordering returns. -/
theorem order_returns {throughPtr : Bool} {d : BtfDump} (ht : btf.typeById id = some t)
    (hn : (unordered btf d).card * (btf.typeCnt + 1) + rank btf.orderRefs btf.typeCnt id < n) :
    Orders btf (btfDumpOrderType btf n id throughPtr) d := by
  have hR := composes_orderedOn btf
  induction n generalizing id throughPtr d t with
  | zero => omega
  | succ n ih =>
    -- a reference of a type that is no composite
    have hdown : ∀ r ∈ t.refs, t.isComposite = false → ∀ p d', OrderedOn btf d d' →
        Orders btf (btfDumpOrderType btf n r p) d' := by
      intro r hr hcomp p d' hd'
      obtain ⟨u, hu⟩ := hread.refs id t ht r hr
      have hlt := rank_ref (p := fun t => !t.isComposite) hac ht (by simp [hcomp]) hr
      have hcard := Nat.mul_le_mul_right (btf.typeCnt + 1)
        (Finset.card_le_card hd'.unordered_subset)
      refine ih hu ?_
      unfold Btf.orderRefs at hn ⊢
      omega
    refine moves_read (deref_ok ht) (moves_get ?_)
    cases hd : d.orderState id with
    | ordered => exact moves_pure hR _ d
    | ordering =>
      dsimp only
      split
      · exact moves_pure hR _ d
      · exact moves_throw hR trivial
    | notOrdered =>
      cases hk : t.kind with
      | int | float =>
        exact moves_modify_bind hR (orderedOn_setOrder d id (by decide)) (moves_pure hR _ _)
      | ptr =>
        refine orders_finishing (hdown _ ?_ ?_ true d (.refl d)) fun d' =>
          orderedOn_setOrder d' id (by decide)
        · unfold BtfType.refs
          rw [hk]
          exact mem_singleton.mpr rfl
        · unfold BtfType.isComposite
          rw [hk]
          rfl
      | array =>
        obtain ⟨a, ha⟩ := hread.array id t ht hk
        refine moves_read (deref_ok ha) ?_
        refine hdown _ (t.mem_refs_array hk ha) ?_ false d (.refl d)
        unfold BtfType.isComposite
        rw [hk]
        rfl
      | struct | union =>
        have hc : t.isComposite = true := t.isComposite_iff.mpr (by rw [hk]; simp)
        dsimp only
        split
        · exact moves_pure hR _ d
        have hcard := card_unordered_lt (o := .ordering) ht hd (by decide)
        refine moves_modify_bind hR (orderedOn_setOrder d id (by decide)) ?_
        refine (moves_each hR fun i hi d' hd' => ?_).bind hR fun _ d₁ _ => ?_
        · -- one type fewer pays for any rank among the members
          have hi := mem_range.mp hi
          obtain ⟨m, -, hm, -⟩ := hread.member id t ht hc i hi
          obtain ⟨u, hu⟩ := hread.refs id t ht _ (t.mem_refs_member hc hi hm)
          have hsub := Finset.card_le_card hd'.unordered_subset
          have hrank := rank_le btf.orderRefs btf.typeCnt m.type
          have hmul : ((unordered btf d').card + 1) * (btf.typeCnt + 1)
              ≤ (unordered btf d).card * (btf.typeCnt + 1) :=
            Nat.mul_le_mul_right _ (by omega)
          rw [Nat.add_mul] at hmul
          have htype : memberType t i = .ok m.type := deref_ok (by rw [hm]; rfl)
          exact moves_read htype ((ih hu (by omega)).bind hR fun _ d'' _ =>
            moves_pure hR _ d'')
        · refine moves_modify_bind hR ?_ (moves_modify_bind hR
            (orderedOn_setOrder _ id (by decide)) (moves_pure hR _ _))
          split
          · exact orderedOn_queue d₁ ht
          · exact .refl d₁
      | enum | enum64 | fwd =>
        refine moves_modify_bind hR ?_ (moves_modify_bind hR
          (orderedOn_setOrder _ id (by decide)) (moves_pure hR _ _))
        split
        · exact orderedOn_queue d ht
        · exact .refl d
      | typedef =>
        refine (hdown t.type ?_ ?_ throughPtr d (.refl d)).bind hR fun isStrong d₁ _ => ?_
        · unfold BtfType.refs
          rw [hk]
          exact mem_singleton.mpr rfl
        · unfold BtfType.isComposite
          rw [hk]
          rfl
        split
        · exact moves_pure hR _ d₁
        · exact moves_modify_bind hR (orderedOn_queue d₁ ht) (moves_modify_bind hR
            (orderedOn_setOrder _ id (by decide)) (moves_pure hR _ _))
      | volatile | const | restrict | typeTag =>
        refine hdown t.type ?_ ?_ throughPtr d (.refl d)
        · unfold BtfType.refs
          rw [hk]
          exact mem_singleton.mpr rfl
        · unfold BtfType.isComposite
          rw [hk]
          rfl
      | funcProto =>
        have hcomp : t.isComposite = false := by
          unfold BtfType.isComposite
          rw [hk]
          rfl
        refine (hdown t.type ?_ hcomp throughPtr d (.refl d)).bind hR fun isStrong d₁ hd₁ =>
          orders_params fun i hi => ?_
        · unfold BtfType.refs
          rw [hk]
          exact mem_cons_self
        · have hi := mem_range.mp hi
          obtain ⟨type, -, -, hp, -, -⟩ := hread.param id t ht hk i hi
          exact ⟨type, deref_ok hp, fun d' hd' =>
            hdown type (t.mem_refs_param hk hi hp) hcomp throughPtr d' (hd₁.trans hd')⟩
      | func | var | datasec | declTag | locParam | locProto | locsec =>
        exact moves_modify_bind hR (orderedOn_setOrder d id (by decide)) (moves_pure hR _ _)
      | unkn | other => exact moves_throw hR trivial

end

-- ======== emitting

section

/-- The types that are not being emitted. -/
def idle (btf : Btf) (d : BtfDump) : Finset Nat :=
  (Finset.range btf.typeCnt).filter fun id => d.emitState id ≠ .emitting

/-- What emitting does to a dumper: what was being emitted still is. -/
structure EmittedOn (d d' : BtfDump) : Prop where
  emit : ∀ x, d.emitState x = .emitting → d'.emitState x = .emitting
  tags : d'.declTags = d.declTags

theorem composes_emittedOn : Composes EmittedOn where
  refl _ := ⟨fun _ h => h, rfl⟩
  trans h h' := ⟨fun x hx => h'.emit x (h.emit x hx), h'.tags.trans h.tags⟩

/-- What a call of the emitting is to do. -/
abbrev Emits {α : Type} (m : Run BtfDump α) (d : BtfDump) : Prop :=
  Moves EmittedOn (fun _ => False) m d

variable {btf : Btf} {d d' : BtfDump}

theorem EmittedOn.idle_subset (btf : Btf) (h : EmittedOn d d') : idle btf d' ⊆ idle btf d := by
  intro x hx
  unfold idle at hx ⊢
  rw [Finset.mem_filter] at hx ⊢
  exact ⟨hx.1, fun he => hx.2 (h.emit x he)⟩

theorem EmittedOn.tagsOk (h : EmittedOn d d') (hd : TagsOk btf d) : TagsOk btf d' := by
  unfold TagsOk
  rw [h.tags]
  exact hd

theorem OnlyNames.emittedOn (h : OnlyNames d d') : EmittedOn d d' :=
  ⟨fun x hx => (h.emit x).trans hx, h.tags⟩

theorem emitState_setEmit (d : BtfDump) (id : Nat) (e : DumpEmit) (x : Nat) :
    (d.setEmit id e).emitState x = if x = id then e else d.emitState x := by
  unfold BtfDump.setEmit BtfDump.setAux BtfDump.emitState
  dsimp only
  split
  · rfl
  · rfl

theorem emittedOn_fwd (d : BtfDump) (id : Nat) : EmittedOn d (d.setFwdEmitted id) where
  emit x hx := by
    unfold BtfDump.setFwdEmitted BtfDump.setAux BtfDump.emitState
    unfold BtfDump.emitState at hx
    dsimp only
    split
    · exact hx
    · exact hx
  tags := rfl

/-- The state of a type that was not being emitted may be set to anything. -/
theorem EmittedOn.setEmit (h : EmittedOn d d') (hid : d.emitState id ≠ .emitting)
    (e : DumpEmit) : EmittedOn d (d'.setEmit id e) where
  emit x hx := by
    rw [emitState_setEmit]
    split
    · next heq =>
        subst heq
        exact absurd hx hid
    · exact h.emit x hx
  tags := h.tags

theorem card_idle_lt (ht : btf.typeById id = some t) (hid : d.emitState id ≠ .emitting) :
    (idle btf (d.setEmit id .emitting)).card < (idle btf d).card := by
  have hset : EmittedOn d (d.setEmit id .emitting) :=
    (composes_emittedOn.refl d).setEmit hid .emitting
  refine Finset.card_lt_card ⟨hset.idle_subset btf, fun hsub => ?_⟩
  have hmem : id ∈ idle btf d :=
    Finset.mem_filter.mpr ⟨Finset.mem_range.mpr (Btf.typeById_lt ht), hid⟩
  have := (Finset.mem_filter.mp (hsub hmem)).2
  rw [emitState_setEmit, if_pos rfl] at this
  exact this rfl

theorem Writes.emits {m : Run BtfDump α} {Q : α → Prop} (h : Writes btf m Q)
    (hq : Textual m) (hd : TagsOk btf d) : Emits m d := by
  obtain ⟨a, d', hm, -⟩ := h d hd
  unfold Emits Moves
  rw [hm]
  exact (hq d a d' hm).emittedOn

theorem emits_piece {piece : DumpPiece} {text : Run BtfDump Bytes} {Q : Bytes → Prop}
    (h : Writes btf text Q) (hq : Textual text) (hd : TagsOk btf d) :
    Emits (emitPiece piece id text) d :=
  (h.emits hq hd).bind composes_emittedOn fun _ _ _ =>
    moves_modify ⟨fun _ hx => hx, rfl⟩

/-- From `d₁`, `m` returns in a state that emitting leads to from `d`. A type
that `d` is not emitting may be in progress at `d₁`. -/
def Closes (d : BtfDump) {α : Type} (m : Run BtfDump α) (d₁ : BtfDump) : Prop :=
  match m d₁ with
  | .ok _ d' => EmittedOn d d'
  | .error _ _ => False

theorem Closes.emits {m : Run BtfDump α} (h : Closes d m d) : Emits m d := by
  unfold Closes at h
  unfold Emits Moves
  cases hm : m d with
  | ok a d' =>
    rw [hm] at h
    exact h
  | error e d' =>
    rw [hm] at h
    exact h.elim

theorem Emits.closes {m : Run BtfDump α} {k : α → Run BtfDump β}
    (hm : Emits m d₁) (hk : ∀ a d₂, EmittedOn d₁ d₂ → Closes d (k a) d₂) :
    Closes d (m >>= k) d₁ := by
  unfold Closes
  rw [run_bind]
  cases hr : m d₁ with
  | ok a d₂ => exact hk a d₂ (hm.of_ok hr)
  | error e d₂ => exact (hm.of_error hr).1

theorem closes_modify (h : EmittedOn d (f d₁)) : Closes d (modify f) d₁ := h

theorem closes_modify_bind {k : PUnit → Run BtfDump β}
    (h : Closes d (k ⟨⟩) (f d₁)) : Closes d (modify f >>= k) d₁ := h

variable (hread : btf.Readable) (hdecl : Graph.Acyclic btf.declRefs)
  (hlayout : Graph.Acyclic btf.layoutRefs) (haligned : btf.Aligned)

include hread hdecl hlayout haligned

theorem emits_typedef (ht : btf.typeById id = some t)
    (hk : t.kind = .typedef) (hn : 2 * btf.typeCnt + 1 < n) (hd : TagsOk btf d) :
    Emits (emitTypedef btf n id t) d := by
  have hblack : ∃ b, btfDumpIsBlacklisted btf t = .ok b := by
    obtain ⟨s, hs⟩ := hread.name id t ht
    unfold btfDumpIsBlacklisted
    split
    · exact ⟨_, rfl⟩
    · exact ⟨_, bind_ok (deref_ok hs) rfl⟩
  obtain ⟨b, hb⟩ := hblack
  refine moves_read hb ?_
  split
  · exact moves_pure composes_emittedOn _ d
  · exact emits_piece (writes_typedefDef hread hdecl hlayout haligned ht hk hn 0)
      (textual_typedefDef _ _ _ _ _) hd

theorem emits_again (ht : btf.typeById id = some t)
    (hn : 2 * btf.typeCnt + 1 < n) (hd : TagsOk btf d) :
    Emits (emitAgain btf n id t contId) d := by
  have hR := composes_emittedOn
  refine moves_get ?_
  split
  · exact moves_pure hR _ d
  cases hk : t.kind with
  | struct | union =>
    dsimp only
    split
    · exact moves_pure hR _ d
    · exact (emits_piece (writes_structFwd hread ht t) (textual_structFwd _ _ _) hd).bind hR
        fun _ d' _ => moves_modify (emittedOn_fwd d' id)
  | typedef =>
    exact (emits_typedef hread hdecl hlayout haligned ht hk hn hd).bind hR
      fun _ d' _ => moves_modify (emittedOn_fwd d' id)
  | _ => exact moves_pure hR _ d

variable (hac : Graph.Acyclic btf.orderRefs)

include hac

/-- The emitting returns. -/
theorem emit_returns (ht : btf.typeById id = some t) (hd : TagsOk btf d)
    (hn : (idle btf d).card * (btf.typeCnt + 1) + rank btf.orderRefs btf.typeCnt id
      + 2 * btf.typeCnt + 2 < n) :
    Emits (btfDumpEmitType btf n id contId) d := by
  have hR := composes_emittedOn
  induction n generalizing id contId d t with
  | zero => omega
  | succ n ih =>
    -- a reference of a type that is no composite
    have hdown : ∀ r ∈ t.refs, t.isComposite = false → ∀ cont d', EmittedOn d d' →
        Emits (btfDumpEmitType btf n r cont) d' := by
      intro r hr hcomp cont d' hd'
      obtain ⟨u, hu⟩ := hread.refs id t ht r hr
      have hlt := rank_ref (p := fun t => !t.isComposite) hac ht (by simp [hcomp]) hr
      have hcard := Nat.mul_le_mul_right (btf.typeCnt + 1)
        (Finset.card_le_card (hd'.idle_subset btf))
      refine ih hu (hd'.tagsOk hd) ?_
      unfold Btf.orderRefs at hn ⊢
      omega
    have htext : 2 * btf.typeCnt + 1 < n := by omega
    refine moves_read (deref_ok ht) (moves_get ?_)
    cases he : d.emitState id with
    | emitted => exact moves_pure hR _ d
    | emitting => exact emits_again hread hdecl hlayout haligned ht htext hd
    | notEmitted =>
      have hidle : d.emitState id ≠ .emitting := by
        rw [he]
        decide
      cases hk : t.kind with
      | int =>
        have halias : Emits (btfDumpEmitMissingAliases btf id) d := by
          refine ((writes_resolveName hread false ht).emits
            (textual_resolveName _ _ _) hd).bind hR fun name d' _ => ?_
          split
          · exact moves_modify ⟨fun _ hx => hx, rfl⟩
          · exact moves_pure hR _ d'
        exact (halias.closes fun _ d₁ hd₁ => closes_modify (hd₁.setEmit hidle _)).emits
      | enum | enum64 =>
        have hany : t.isAnyEnum = true := by
          unfold BtfType.isAnyEnum
          rw [hk]
          rfl
        have hdef : Emits (emitEnum btf id t contId) d := by
          unfold emitEnum
          split
          · exact emits_piece (writes_enumDef hread ht hany 0) (textual_enumDef _ _ _ _) hd
          · exact moves_pure hR _ d
        exact (hdef.closes fun _ d₁ hd₁ => closes_modify (hd₁.setEmit hidle _)).emits
      | ptr | volatile | const | restrict | typeTag =>
        refine hdown t.type ?_ ?_ contId d (hR.refl d)
        · unfold BtfType.refs
          rw [hk]
          exact mem_singleton.mpr rfl
        · unfold BtfType.isComposite
          rw [hk]
          rfl
      | array =>
        obtain ⟨a, ha⟩ := hread.array id t ht hk
        refine moves_read (deref_ok ha) (hdown _ (t.mem_refs_array hk ha) ?_ contId d (hR.refl d))
        unfold BtfType.isComposite
        rw [hk]
        rfl
      | fwd =>
        have hdef : Emits (emitPiece .fwdDef id (btfDumpEmitFwdDef btf id t)) d :=
          emits_piece (writes_fwdDef hread ht t) (textual_fwdDef _ _ _) hd
        exact (hdef.closes fun _ d₁ hd₁ => closes_modify (hd₁.setEmit hidle _)).emits
      | typedef =>
        have hset := (hR.refl d).setEmit hidle .emitting
        refine (closes_modify_bind ((hdown t.type ?_ ?_ id _ hset).closes fun _ d₁ hd₁ => ?_)).emits
        · unfold BtfType.refs
          rw [hk]
          exact mem_singleton.mpr rfl
        · unfold BtfType.isComposite
          rw [hk]
          rfl
        have hd₁' := hR.trans hset hd₁
        have hdef : Emits (emitTypedefOnce btf n id t) d₁ := by
          refine moves_get ?_
          split
          · exact moves_pure hR _ d₁
          · exact emits_typedef hread hdecl hlayout haligned ht hk htext (hd₁'.tagsOk hd)
        exact hdef.closes fun _ d₂ hd₂ =>
          closes_modify ((hR.trans hd₁' hd₂).setEmit hidle _)
      | struct | union =>
        have hc : t.isComposite = true := t.isComposite_iff.mpr (by rw [hk]; simp)
        have hset := (hR.refl d).setEmit hidle .emitting
        have hcard := card_idle_lt ht hidle
        have hbody : Emits (emitNeeds btf (btfDumpEmitType btf n) id t contId)
            (d.setEmit id .emitting) := by
          unfold emitNeeds
          split
          · refine moves_each hR fun i hi d' hd' => ?_
            -- one more type being emitted pays for any rank among the members
            have hi := mem_range.mp hi
            obtain ⟨m, -, hm, -⟩ := hread.member id t ht hc i hi
            obtain ⟨u, hu⟩ := hread.refs id t ht _ (t.mem_refs_member hc hi hm)
            have hsub := Finset.card_le_card (hd'.idle_subset btf)
            have hrank := rank_le btf.orderRefs btf.typeCnt m.type
            have hmul : ((idle btf d').card + 1) * (btf.typeCnt + 1)
                ≤ (idle btf d).card * (btf.typeCnt + 1) :=
              Nat.mul_le_mul_right _ (by omega)
            rw [Nat.add_mul] at hmul
            have htype : memberType t i = .ok m.type := deref_ok (by rw [hm]; rfl)
            exact moves_read htype (ih hu ((hR.trans hset hd').tagsOk hd) (by omega))
          · refine moves_get ?_
            split
            · exact moves_pure hR _ _
            · exact (emits_piece (writes_structFwd hread ht t) (textual_structFwd _ _ _)
                (hset.tagsOk hd)).bind hR fun _ d' _ => moves_modify (emittedOn_fwd d' id)
        refine (closes_modify_bind (hbody.closes fun _ d₁ hd₁ => ?_)).emits
        have hd₁' := hR.trans hset hd₁
        unfold emitStruct
        split
        · refine (emits_piece (writes_structDef hread hlayout haligned (by omega)
            (textual_typeDecl btf n) ht hc (fun r hr fname lvl => ?_) 0)
            (textual_structDef (textual_typeDecl btf n) _ _ _) (hd₁'.tagsOk hd)).closes
            fun _ d₂ hd₂ => closes_modify ((hR.trans hd₁' hd₂).setEmit hidle _)
          obtain ⟨u, hu⟩ := hread.refs id t ht r hr
          have := rank_le btf.declRefs btf.typeCnt r
          exact writes_typeDecl hread hdecl hlayout haligned hu (by omega) fname lvl
        · exact closes_modify (hd₁'.setEmit hidle _)
      | funcProto =>
        have hcomp : t.isComposite = false := by
          unfold BtfType.isComposite
          rw [hk]
          rfl
        refine (hdown t.type ?_ hcomp contId d (hR.refl d)).bind hR fun _ d₁ hd₁ =>
          moves_each hR fun i hi d' hd' => ?_
        · unfold BtfType.refs
          rw [hk]
          exact mem_cons_self
        · have hi := mem_range.mp hi
          obtain ⟨type, -, -, hp, -, -⟩ := hread.param id t ht hk i hi
          exact moves_read (deref_ok hp) (hdown type (t.mem_refs_param hk hi hp) hcomp
            contId d' (hR.trans hd₁ hd'))
      | _ => exact moves_pure hR _ d

end

end Libbpf
