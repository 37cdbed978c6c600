/-
Dumping comes to an end, and where it does not.

On a BTF without cycles among the references that a walk follows without
leaving a note, and without members of alignment 0, every call returns, in any
state that earlier calls have left (`call_moves`). If the references that a
walk follows first lead back to where they started, such as those of a pointer
to itself, the call never returns. A FUNC_PROTO whose return type is not there
makes both calls read outside of the BTF.
-/
import Libbpf.Dump.Finish

namespace Libbpf

open Lib List

variable {id r k : Nat} {t : BtfType} {e : Stop}

-- ======== a new dumper

/-- A dumper as `btf_dump__new` leaves it. -/
structure BtfDump.IsNew (btf : Btf) (d : BtfDump) : Prop where
  tags : TagsOk btf d
  order : ∀ x, d.orderState x = (DumpAux.start x).orderState
  emit : ∀ x, d.emitState x = (DumpAux.start x).emitState
  fwd : ∀ x, (d.typeStates x).fwdEmitted = false
  queue : d.emitQueue = []
  out : d.out = []

section

variable {btf : Btf} {d d' : BtfDump}

theorem BtfDump.IsNew.refer (h : d.IsNew btf) (id : Nat) :
    (d.setAux id fun a => { a with referenced := true }).IsNew btf where
  tags := h.tags
  order x := by
    rw [← h.order x]
    unfold setAux orderState
    dsimp only
    split
    · rfl
    · rfl
  emit x := by
    rw [← h.emit x]
    unfold setAux emitState
    dsimp only
    split
    · rfl
    · rfl
  fwd x := by
    rw [← h.fwd x]
    unfold setAux
    dsimp only
    split
    · rfl
    · rfl
  queue := h.queue
  out := h.out

theorem BtfDump.IsNew.mark (h : d.IsNew btf)
    (hm : btfDumpMarkReferenced btf t d = .ok d') : d'.IsNew btf := by
  obtain ⟨ids, -, hm⟩ := of_bind_ok hm
  split at hm
  · cases hm
  cases hm
  have hall : ∀ (ids : List Nat) {d : BtfDump}, d.IsNew btf →
      (ids.foldl (fun d id => d.setAux id fun a => { a with referenced := true }) d).IsNew btf := by
    intro ids
    induction ids with
    | nil => exact fun h => h
    | cons id ids ih => exact fun h => ih (h.refer id)
  exact hall ids h

theorem resizeFrom_isNew {ids : List Nat} (h : d.IsNew btf)
    (hd : btfDumpResizeFrom btf ids d = .ok d') : d'.IsNew btf := by
  induction ids generalizing d with
  | nil =>
    cases hd
    exact ⟨fun x hx => h.tags x (mem_mergeSort.mp hx), h.order, h.emit, h.fwd, h.queue, h.out⟩
  | cons i ids ih =>
    obtain ⟨t, ht, hd⟩ := of_bind_ok hd
    obtain ⟨d₁, hmark, hd⟩ := of_bind_ok hd
    have h₁ := h.mark hmark
    refine ih ?_ hd
    split
    · next hk =>
        refine ⟨fun x hx => ?_, h₁.order, h₁.emit, h₁.fwd, h₁.queue, h₁.out⟩
        rcases mem_append.mp hx with hx | hx
        · exact h₁.tags x hx
        · cases mem_singleton.mp hx
          exact ⟨t, deref_eq_ok.mp ht, beq_iff_eq.mp hk⟩
    · exact h₁

theorem btfDumpNew_isNew (h : btfDumpNew btf = .ok d) : d.IsNew btf := by
  refine resizeFrom_isNew ⟨?_, fun _ => rfl, fun _ => rfl, fun x => ?_, rfl, rfl⟩ h
  · intro x hx
    cases hx
  · dsimp only
    unfold DumpAux.start
    split
    · rfl
    · rfl

end

-- ======== calls

/-- A BTF on which every walk of the dumper ends. -/
structure Btf.Dumpable (btf : Btf) : Prop where
  returns : btf.Returns
  order : Graph.Acyclic btf.orderRefs
  decl : Graph.Acyclic btf.declRefs
  layout : Graph.Acyclic btf.layoutRefs
  aligned : btf.Aligned

/-- Enough steps for every call. -/
def dumpBound (btf : Btf) : Nat := btf.typeCnt * (btf.typeCnt + 1) + 3 * btf.typeCnt + 3

/-- A call that may be made: `btf_dump__dump_type` checks its type ID itself. -/
def DumpCall.Known (btf : Btf) : DumpCall → Prop
  | .dumpType _ => True
  | .emitTypeDecl id _ => id < btf.typeCnt

/-- The call has returned, with 0 or an error. -/
def Returned {σ α : Type} (r : EStateM.Result Stop σ α) : Prop :=
  match r with
  | .ok _ _ => True
  | .error e _ => e.IsCode

theorem returned_of_moves {σ α : Type} {R : σ → σ → Prop} {m : Run σ α} {s : σ}
    (h : Moves R Stop.IsCode m s) : Returned (m s) := by
  cases hm : m s with
  | ok a s' => trivial
  | error e s' => exact (h.of_error hm).1

section

variable {btf : Btf} (hacc : btf.Accepted) (hdump : btf.Dumpable) {n : Nat} (hn : dumpBound btf < n)

/-- Only the tags matter from one call to the next. -/
def SameTags (d d' : BtfDump) : Prop := d'.declTags = d.declTags

theorem composes_sameTags : Composes SameTags where
  refl _ := rfl
  trans h h' := h'.trans h

include hacc hdump hn

theorem orderAndEmit_moves {d : BtfDump} (hd : TagsOk btf d) (hqueue : d.emitQueue = [])
    (ht : btf.typeById id = some t) :
    Moves SameTags Stop.IsCode (orderAndEmit btf n id) d := by
  have hread := hacc.readable hdump.returns
  have hcard : ∀ s : Finset Nat, s ⊆ Finset.range btf.typeCnt →
      s.card * (btf.typeCnt + 1) ≤ btf.typeCnt * (btf.typeCnt + 1) := by
    intro s hs
    have := Finset.card_le_card hs
    rw [Finset.card_range] at this
    exact Nat.mul_le_mul_right _ this
  unfold dumpBound at hn
  have horder : Orders btf (btfDumpOrderType btf n id false) d := by
    refine order_returns hread hdump.order ht ?_
    have h₁ := hcard (unordered btf d) (Finset.filter_subset _ _)
    have h₂ := rank_le btf.orderRefs btf.typeCnt id
    omega
  unfold Moves orderAndEmit
  rw [run_bind]
  cases hr : btfDumpOrderType btf n id false d with
  | error e d₁ => exact ⟨(horder.of_error hr).1, (horder.of_error hr).2.tags⟩
  | ok strong d₁ =>
    have hd₁ := horder.of_ok hr
    have htags₁ : TagsOk btf d₁ := by
      unfold TagsOk
      rw [hd₁.tags]
      exact hd
    have hemit : Moves EmittedOn (fun _ => False)
        (each (fun id => btfDumpEmitType btf n id 0) d₁.emitQueue) d₁ := by
      refine moves_each composes_emittedOn fun x hx d₂ hd₂ => ?_
      obtain ⟨u, hu⟩ := (hd₁.queue x hx).resolve_left (by rw [hqueue]; exact not_mem_nil)
      refine emit_returns hread hdump.decl hdump.layout hdump.aligned hdump.order hu
        (hd₂.tagsOk htags₁) ?_
      have h₁ := hcard (idle btf d₂) (Finset.filter_subset _ _)
      have h₂ := rank_le btf.orderRefs btf.typeCnt x
      omega
    exact (hemit.mono (fun _ h => h.tags) fun _ h => h.elim).from
      composes_sameTags hd₁.tags

theorem dumpType_moves {d : BtfDump} (hd : TagsOk btf d) (id : Nat) :
    Moves SameTags Stop.IsCode (btfDumpDumpType btf n id) d := by
  unfold btfDumpDumpType failIf
  split
  · exact ⟨trivial, rfl⟩
  next hlt =>
    obtain ⟨t, ht⟩ := hacc.type (Nat.lt_of_not_le hlt)
    have hd' : TagsOk btf { d with emitQueue := [] } := hd
    exact moves_read rfl (moves_modify_bind composes_sameTags rfl
      (orderAndEmit_moves hacc hdump hn hd' rfl ht))

theorem emitDecl_moves {d : BtfDump} (hd : TagsOk btf d) (hid : id < btf.typeCnt)
    (opts : DumpDeclOpts) : Moves SameTags Stop.IsCode (btfDumpEmitDecl btf n id opts) d := by
  have hR := composes_sameTags
  have hread := hacc.readable hdump.returns
  obtain ⟨t, ht⟩ := hacc.type hid
  unfold dumpBound at hn
  have h₂ := rank_le btf.declRefs btf.typeCnt id
  have hwrites := writes_typeDecl hread hdump.decl hdump.layout hdump.aligned (n := n) ht
    (by omega) opts.fieldName opts.indentLevel
  have hd' : TagsOk btf { d with stripMods := opts.stripMods } := hd
  have htext := hwrites.emits (textual_typeDecl _ _ _ _ _) hd'
  refine (htext.mono (fun _ h => h.tags) fun _ h => h.elim).bind hR fun _ d' _ => ?_
  exact moves_modify rfl

/-- Every call returns. -/
theorem call_moves {d : BtfDump} (hd : TagsOk btf d) {c : DumpCall}
    (hc : c.Known btf) : Moves SameTags Stop.IsCode (c.run btf n) d := by
  cases c with
  | dumpType id => exact dumpType_moves hacc hdump hn hd id
  | emitTypeDecl id opts => exact emitDecl_moves hacc hdump hn hd hc opts

/-- Also after any calls. -/
theorem calls_returned {d : BtfDump} (hd : TagsOk btf d) {calls : List DumpCall}
    (hcalls : ∀ c ∈ calls, c.Known btf) {c : DumpCall} (hc : c.Known btf) :
    Returned (c.run btf n (dumpCalls btf n calls d)) := by
  induction calls generalizing d with
  | nil => exact returned_of_moves (call_moves hacc hdump hn hd hc)
  | cons c₁ calls ih =>
    have hafter := (call_moves hacc hdump hn hd (hcalls c₁ mem_cons_self)).after
    refine ih ?_ fun c₂ h₂ => hcalls c₂ (mem_cons_of_mem _ h₂)
    unfold TagsOk
    rw [hafter]
    exact hd

end

-- ======== endless

/-- However many steps are allowed, they do not suffice. -/
def NeverReturns {σ α : Type} (m : Nat → Run σ α) (s : σ) : Prop :=
  ∀ n, ∃ s', m n s = .error .fuel s'

/-- Where the ordering goes first. -/
def Btf.orderNext (btf : Btf) (id : Nat) : Option Nat := (btf.orderRefs id).head?

/-- Where the loop of a declaration goes. -/
def Btf.declNext (btf : Btf) (id : Nat) : Option Nat :=
  (btf.refsIf (fun t => !t.isComposite && !t.isTypedef) id).head?

/-- Where an alignment goes first. -/
def Btf.layoutNext (btf : Btf) (id : Nat) : Option Nat := (btf.layoutRefs id).head?

section

variable {btf : Btf} {p : BtfType → Bool}

/-- A step of such a chain starts at a type with `p`. -/
theorem refsIf_head (h : (btf.refsIf p id).head? = some r) :
    ∃ t, btf.typeById id = some t ∧ p t = true ∧ t.refs.head? = some r := by
  unfold Btf.refsIf at h
  cases ht : btf.typeById id with
  | none =>
    rw [ht] at h
    cases h
  | some t =>
    rw [ht] at h
    dsimp only at h
    split at h
    · next hp => exact ⟨t, rfl, hp, h⟩
    · cases h

/-- `void` is made of nothing. -/
theorem ne_zero_of_refs (ht : btf.typeById id = some t) (hr : t.refs.head? = some r) : id ≠ 0 := by
  refine Btf.ne_zero_of_kind ht fun hk => ?_
  unfold BtfType.refs at hr
  rw [hk] at hr
  cases hr

theorem array_of_refs (hk : t.kind = .array)
    (hr : t.refs.head? = some r) : ∃ a, t.array? = some a ∧ a.type = r := by
  unfold BtfType.refs at hr
  rw [hk] at hr
  cases ha : t.array? with
  | none =>
    rw [ha] at hr
    cases hr
  | some a =>
    rw [ha] at hr
    cases hr
    exact ⟨a, rfl, rfl⟩

/-- On a chain of types without a state the ordering has nothing to stop it. -/
theorem order_endless {d : BtfDump} (hd : ∀ x, x ≠ 0 → d.orderState x = .notOrdered) :
    ∀ {n id id' : Nat} {throughPtr : Bool}, climb btf.orderNext n id = some id' →
      ∃ d', btfDumpOrderType btf n id throughPtr d = .error .fuel d'
  | 0, _, _, _, _ => ⟨d, rfl⟩
  | n + 1, id, id', throughPtr, h => by
    obtain ⟨r, hr, h⟩ := Option.bind_eq_some_iff.mp h
    obtain ⟨t, ht, hp, hr⟩ := refsIf_head hr
    have ih : ∀ p, ∃ d', btfDumpOrderType btf n r p d = .error .fuel d' :=
      fun p => order_endless hd h
    have hread : (liftRes (deref (btf.typeById id)) : Run BtfDump BtfType) d = .ok t d := by
      rw [ht]
      rfl
    unfold btfDumpOrderType
    rw [run_bind, hread]
    dsimp only
    rw [run_bind, run_get]
    dsimp only
    rw [hd id (ne_zero_of_refs ht hr)]
    dsimp only
    have hr₀ := hr
    unfold BtfType.refs at hr
    cases hk : t.kind with
    | ptr =>
      rw [hk] at hr
      cases hr
      obtain ⟨d', hd'⟩ := ih true
      dsimp only
      unfold finishing
      rw [hd']
      exact ⟨_, rfl⟩
    | array =>
      obtain ⟨a, ha, rfl⟩ := array_of_refs hk hr₀
      dsimp only
      rw [ha]
      exact ih false
    | typedef | funcProto =>
      rw [hk] at hr
      cases hr
      obtain ⟨d', hd'⟩ := ih throughPtr
      dsimp only
      rw [run_bind, hd']
      exact ⟨d', rfl⟩
    | volatile | const | restrict | typeTag =>
      rw [hk] at hr
      cases hr
      exact ih throughPtr
    | struct | union =>
      unfold BtfType.isComposite at hp
      rw [hk] at hp
      cases hp
    | _ =>
      rw [hk] at hr
      cases hr

/-- The loop of a declaration has no notes at all. -/
theorem declStack_endless (stripMods : Bool) : ∀ {n id id' : Nat} {stack : List Nat},
    climb btf.declNext n id = some id' → declStack btf stripMods n id stack = .error .fuel
  | 0, _, _, _, _ => rfl
  | n + 1, id, id', stack, h => by
    obtain ⟨r, hr, h⟩ := Option.bind_eq_some_iff.mp h
    obtain ⟨t, ht, hp, hr⟩ := refsIf_head hr
    have ih : ∀ st, declStack btf stripMods n r st = .error .fuel :=
      fun st => declStack_endless stripMods h
    unfold declStack
    rw [ht]
    dsimp only [deref, bind, Except.bind]
    rw [if_neg (ne_zero_of_refs ht hr)]
    have hr₀ := hr
    unfold BtfType.refs at hr
    cases hk : t.kind with
    | ptr | volatile | const | restrict | typeTag | funcProto =>
      rw [hk] at hr
      cases hr
      exact ih _
    | array =>
      obtain ⟨a, ha, rfl⟩ := array_of_refs hk hr₀
      dsimp only
      rw [ha]
      exact ih _
    | struct | union =>
      unfold BtfType.isComposite at hp
      rw [hk] at hp
      cases hp
    | typedef =>
      unfold BtfType.isTypedef at hp
      rw [hk, Bool.and_eq_true] at hp
      cases hp.2
    | _ =>
      rw [hk] at hr
      cases hr

theorem emitDecl_error {n : Nat} {opts : DumpDeclOpts} {d d' : BtfDump}
    (h : btfDumpEmitTypeDecl btf n id opts.fieldName opts.indentLevel
      { d with stripMods := opts.stripMods } = .error e d') :
    btfDumpEmitDecl btf n id opts d = .error e d' := by
  unfold btfDumpEmitDecl
  rw [run_bind, run_modify]
  dsimp only
  rw [run_bind, h]

theorem dumpType_error {n : Nat} (ht : btf.typeById id = some t) {d d' : BtfDump}
    (h : btfDumpOrderType btf n id false { d with emitQueue := [] } = .error e d') :
    btfDumpDumpType btf n id d = .error e d' := by
  unfold btfDumpDumpType failIf
  rw [if_neg (Nat.not_le_of_lt (Btf.typeById_lt ht)), run_bind, liftRes_ok]
  dsimp only
  rw [run_bind, run_modify]
  dsimp only
  unfold orderAndEmit
  rw [run_bind, h]

theorem typeDecl_error {n : Nat} {fname : Bytes} {lvl : Int} {d : BtfDump}
    (h : declStack btf d.stripMods (n + 1) id [] = .error e) :
    btfDumpEmitTypeDecl btf (n + 1) id fname lvl d = .error e d := by
  unfold btfDumpEmitTypeDecl
  rw [run_bind, run_get]
  dsimp only
  rw [h]
  rfl

theorem BtfDump.IsNew.notOrdered {d : BtfDump} (hd : d.IsNew btf) {x : Nat} (hx : x ≠ 0) :
    BtfDump.orderState { d with emitQueue := [] } x = .notOrdered := by
  refine (hd.order x).trans ?_
  unfold DumpAux.start
  rw [if_neg hx]

theorem emitDecl_endless (h : climb btf.declNext (k + 1) id = some id)
    (opts : DumpDeclOpts) (d : BtfDump) :
    NeverReturns (fun n => btfDumpEmitDecl btf n id opts) d := by
  intro n
  have htext : btfDumpEmitTypeDecl btf n id opts.fieldName opts.indentLevel
      { d with stripMods := opts.stripMods }
      = .error .fuel { d with stripMods := opts.stripMods } := by
    cases n with
    | zero => rfl
    | succ n =>
      obtain ⟨id', hclimb⟩ := climb_cycle h (n + 1)
      exact typeDecl_error (declStack_endless _ hclimb)
  exact ⟨_, emitDecl_error htext⟩

theorem dumpType_endless (h : climb btf.orderNext (k + 1) id = some id)
    {d : BtfDump} (hd : d.IsNew btf) : NeverReturns (fun n => btfDumpDumpType btf n id) d := by
  intro n
  obtain ⟨r, hr, -⟩ := Option.bind_eq_some_iff.mp h
  obtain ⟨t, ht, -, -⟩ := refsIf_head hr
  obtain ⟨id', hclimb⟩ := climb_cycle h n
  have horder : ∃ d', btfDumpOrderType btf n id false { d with emitQueue := [] }
      = .error .fuel d' := order_endless (fun _ => hd.notOrdered) hclimb
  obtain ⟨d', hd'⟩ := horder
  exact ⟨d', dumpType_error ht hd'⟩

theorem funcProto_ne_zero (ht : btf.typeById id = some t) (hk : t.kind = .funcProto) : id ≠ 0 :=
  Btf.ne_zero_of_kind ht (by rw [hk]; decide)

theorem dumpType_faults (ht : btf.typeById id = some t)
    (hk : t.kind = .funcProto) (hret : btf.typeById t.type = none) {d : BtfDump}
    (hd : d.IsNew btf) (n : Nat) : ∃ d', btfDumpDumpType btf (n + 2) id d = .error .fault d' := by
  have horder : btfDumpOrderType btf (n + 2) id false { d with emitQueue := [] }
      = .error .fault { d with emitQueue := [] } := by
    unfold btfDumpOrderType
    rw [run_bind, ht]
    dsimp only [liftRes, deref]
    rw [run_bind, run_get]
    dsimp only
    rw [hd.notOrdered (funcProto_ne_zero ht hk), hk]
    dsimp only
    unfold btfDumpOrderType
    rw [hret]
    rfl
  exact ⟨_, dumpType_error ht horder⟩

theorem emitDecl_faults (ht : btf.typeById id = some t)
    (hk : t.kind = .funcProto) (hret : btf.typeById t.type = none) (opts : DumpDeclOpts)
    (d : BtfDump) (n : Nat) : ∃ d', btfDumpEmitDecl btf (n + 2) id opts d = .error .fault d' := by
  refine ⟨_, emitDecl_error (typeDecl_error ?_)⟩
  unfold declStack
  rw [ht]
  dsimp only [deref, bind, Except.bind]
  rw [if_neg (funcProto_ne_zero ht hk), hk]
  unfold declStack
  rw [hret]
  rfl

/-- A composite that is there: its first member is where an alignment goes first. -/
theorem member_of_refs (hc : t.isComposite = true)
    (hr : t.refs.head? = some r) (hmember : ∀ i < t.vlen, ∃ m, t.member? i = some m) :
    ∃ m is, List.range t.vlen = 0 :: is ∧ t.member? 0 = some m ∧ m.type = r := by
  have hrefs : t.refs = t.memberTypes := by
    unfold BtfType.refs
    rcases t.isComposite_iff.mp hc with hk | hk
    · rw [hk]
    · rw [hk]
  rw [hrefs, BtfType.memberTypes] at hr
  cases hv : t.vlen with
  | zero =>
    rw [hv] at hr
    cases hr
  | succ v =>
    obtain ⟨m, hm⟩ := hmember 0 (by omega)
    refine ⟨m, _, range_succ_eq_map, hm, ?_⟩
    rw [hv, range_succ_eq_map, filterMap_cons, hm] at hr
    exact Option.some.inj hr

variable (hmember : ∀ id t, btf.typeById id = some t → t.isComposite = true → ∀ i < t.vlen,
  ∃ m, t.member? i = some m)

include hmember

theorem align_endless : ∀ {n id id' : Nat}, climb btf.layoutNext n id = some id' →
    btfAlignOf btf n id = .error .fuel
  | 0, _, _, _ => rfl
  | n + 1, id, id', h => by
    obtain ⟨r, hr, h⟩ := Option.bind_eq_some_iff.mp h
    obtain ⟨t, ht, hp, hr⟩ := refsIf_head hr
    have ih : btfAlignOf btf n r = .error .fuel := align_endless h
    unfold btfAlignOf
    rw [ht]
    dsimp only [deref, bind, Except.bind]
    have hr₀ := hr
    unfold BtfType.refs at hr
    cases hk : t.kind with
    | typedef | volatile | const | restrict | typeTag =>
      rw [hk] at hr
      cases hr
      exact ih
    | array =>
      obtain ⟨a, ha, rfl⟩ := array_of_refs hk hr₀
      dsimp only
      rw [ha]
      exact ih
    | struct | union =>
      have hc : t.isComposite = true := t.isComposite_iff.mpr (by rw [hk]; simp)
      obtain ⟨m, is, hrange, hm, rfl⟩ := member_of_refs hc hr₀ (hmember id t ht hc)
      dsimp only
      rw [hrange, alignMembers, hm]
      dsimp only [deref, bind, Except.bind]
      rw [ih]
    | ptr | funcProto =>
      rw [hk] at hp
      cases hp
    | _ =>
      rw [hk] at hr
      cases hr

/-- The alignment of an unnamed struct or union is asked for before anything
of it is printed. -/
theorem emitDecl_layout (ht : btf.typeById id = some t)
    (hc : t.isComposite = true) (hname : t.nameOff = 0)
    (h : climb btf.layoutNext (k + 1) id = some id) (opts : DumpDeclOpts) (d : BtfDump) :
    NeverReturns (fun n => btfDumpEmitDecl btf n id opts) d := by
  intro n
  have htext : btfDumpEmitTypeDecl btf n id opts.fieldName opts.indentLevel
      { d with stripMods := opts.stripMods }
      = .error .fuel { d with stripMods := opts.stripMods } := by
    cases n with
    | zero => rfl
    | succ n =>
      obtain ⟨id', hclimb⟩ := climb_cycle h n
      obtain ⟨r, hr, -⟩ := Option.bind_eq_some_iff.mp h
      obtain ⟨t', ht', -, hr⟩ := refsIf_head hr
      have hne := ne_zero_of_refs ht' hr
      have halign := align_endless hmember hclimb
      have hmod : t.isMod = false := by
        unfold BtfType.isMod
        rcases t.isComposite_iff.mp hc with hk | hk
        · rw [hk]
        · rw [hk]
      have hstack : ∀ strip, declStack btf strip (n + 1) id [] = .ok [id] := by
        intro strip
        unfold declStack
        rw [ht]
        dsimp only [deref, bind, Except.bind]
        rw [if_neg hne, hmod, Bool.and_false]
        rcases t.isComposite_iff.mp hc with hk | hk
        · rw [hk]
          rfl
        · rw [hk]
          rfl
      have hdef : ∀ d, btfDumpEmitStructDef btf n (btfDumpEmitTypeDecl btf n) id t
          opts.indentLevel d = .error .fuel d := by
        intro d
        unfold btfDumpEmitStructDef
        rw [halign]
        rfl
      unfold btfDumpEmitTypeDecl
      rw [run_bind, run_get]
      dsimp only
      rw [run_bind, hstack]
      dsimp only [liftRes, List.length]
      unfold btfDumpEmitTypeChain
      rw [if_neg hne, ht, run_bind]
      dsimp only [liftRes, deref]
      unfold emitBase
      rcases t.isComposite_iff.mp hc with hk | hk
      · rw [hk]
        dsimp only
        rw [run_bind]
        dsimp only [liftRes, btfDumpEmitMods]
        rw [run_bind, if_pos hname, hdef]
      rw [hk]
      dsimp only
      rw [run_bind]
      dsimp only [liftRes, btfDumpEmitMods]
      rw [run_bind, if_pos hname, hdef]
  exact ⟨_, emitDecl_error htext⟩

end

/-- A char, a pointer to a struct, and the struct with both as members. -/
private def listNode : Bytes :=
  btfImage .little
    [⟨1, btfTypeInfo .int 0 false, 1, [8]⟩, ⟨0, btfTypeInfo .ptr 0 false, 3, []⟩,
      ⟨3, btfTypeInfo .struct 2 false, 16, [5, 1, 0, 7, 2, 64]⟩]
    -- "", "c", "s", "a", "n"
    [0, 99, 0, 115, 0, 97, 0, 110, 0]

/-- A pointer to itself. -/
private def ownPointer : Bytes :=
  btfImage .little [⟨0, btfTypeInfo .ptr 0 false, 1, []⟩] [0]

/-- A struct whose last member is `void`. -/
private def voidMember : Bytes :=
  btfImage .little
    [⟨1, btfTypeInfo .int 0 false, 1, [8]⟩,
      ⟨3, btfTypeInfo .struct 2 false, 16, [5, 1, 0, 7, 0, 64]⟩]
    -- "", "c", "s", "a", "b"
    [0, 99, 0, 115, 0, 97, 0, 98, 0]

/-- The code of a call that does not return. -/
private def dumpStop {σ α : Type} : EStateM.Result Stop σ α → Option Stop
  | .ok _ _ => none
  | .error e _ => some e

end Libbpf
