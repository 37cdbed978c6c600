/-
Every definition comes after what it needs, and once.

A struct, union, enum, forward declaration or typedef is printed when its
state turns to emitted, so it is printed once (`EmitInv.once`). What a
definition needs in full has been printed before because the queue is in order
(`Ready`); of everything else that it names, the walk before the definition
prints typedefs and forward declarations (`emit_gives`). The walk does not come
back to a typedef or an unnamed struct that it is inside of (`Clear`), since
the ordering has been through them before.

One name is not printed: a struct that points to itself is declared by its own
definition.
-/
import Libbpf.Dump.Sorted

namespace Libbpf

open Lib
open List hiding modify

variable {piece : DumpPiece} {r : Nat} {e : DumpEmit} {thr : Bool} {text : Run BtfDump Bytes}

-- ======== the output

/-- The pieces that define something. -/
def DumpPiece.defines : DumpPiece → Bool
  | .enumDef | .fwdDef | .typedefDef | .structDef => true
  | .alias | .structFwd | .decl => false

/-- The definition of `id`. -/
def DumpItem.defines (i : DumpItem) (id : Nat) : Bool := i.piece.defines && i.id == id

/-- The definitions of `id`. -/
def defsOf (out : List DumpItem) (id : Nat) : List DumpItem := out.filter (·.defines id)

/-- The typedef that compilers bring with them. -/
def Btf.IsBuiltin (btf : Btf) (x : Nat) : Prop :=
  ∃ t, btf.typeById x = some t ∧ t.isTypedef = true ∧ btfDumpIsBlacklisted btf t = .ok true

/-- A struct or union with a forward declaration. -/
def Forwarded (btf : Btf) (out : List DumpItem) (x : Nat) : Prop :=
  ∃ t, btf.typeById x = some t ∧ t.isComposite = true ∧ ∃ i ∈ out, i.piece = .structFwd ∧ i.id = x

/-- What a name needs has been printed: its definition, or at least a forward
declaration if it stands behind a pointer. -/
def Given (btf : Btf) (out : List DumpItem) (m : Bool) (x : Nat) : Prop :=
  (∃ i ∈ out, i.defines x = true) ∨ btf.IsBuiltin x ∨ m = true ∧ Forwarded btf out x

/-- A definition may stand after `pre`. -/
def Declared (btf : Btf) (pre : List DumpItem) (i : DumpItem) : Prop :=
  (i.piece = .structDef ∨ i.piece = .typedefDef) → ∀ m x, Needs btf i.id m x →
    Given btf pre m x ∨ m = true ∧ x = i.id ∧ i.piece = .structDef

/-- What holds of the states and the output as long as no call has failed. -/
structure EmitInv (btf : Btf) (d : BtfDump) : Prop where
  given : ∀ x t, btf.typeById x = some t → d.emitState x = .emitted → t.declares = true →
    (∃ i ∈ d.out, i.defines x = true) ∨ btf.IsBuiltin x
  once : ∀ x, (defsOf d.out x).length ≤ 1 ∧ (d.emitState x ≠ .emitted → defsOf d.out x = [])
  sorted : Along (Declared btf) d.out
  inner : ∀ x t, btf.typeById x = some t → d.emitState x = .emitted → t.isTypedef = true →
    ∀ m y, Needs btf x m y → Given btf d.out m y
  leaf : ∀ x t, btf.typeById x = some t → d.emitState x = .emitted →
    t.isNamedComposite = true ∨ t.isTypedef = true ∨ t.refs = []
  fwd : ∀ x, (d.typeStates x).fwdEmitted = true → Forwarded btf d.out x

section

variable {btf : Btf} {out out' : List DumpItem} {m : Bool} {x : Nat}

theorem Forwarded.mono (h : Forwarded btf out x) (hpre : out <+: out') : Forwarded btf out' x := by
  obtain ⟨t, ht, hc, i, hi, hfwd⟩ := h
  exact ⟨t, ht, hc, i, hpre.subset hi, hfwd⟩

theorem Given.mono (h : Given btf out m x) (hpre : out <+: out') : Given btf out' m x := by
  rcases h with ⟨i, hi, hdef⟩ | hb | ⟨hm, hf⟩
  · exact .inl ⟨i, hpre.subset hi, hdef⟩
  · exact .inr (.inl hb)
  · exact .inr (.inr ⟨hm, hf.mono hpre⟩)

theorem defsOf_snoc (out : List DumpItem) (i : DumpItem) (x : Nat) :
    defsOf (out ++ [i]) x = defsOf out x ++ if i.defines x then [i] else [] := by
  unfold defsOf
  rw [filter_append, filter_singleton, Bool.cond_eq_ite]

end

-- ======== the invariant

section

variable {btf : Btf} {d d' : BtfDump}

/-- The invariant is about the states and the output only. -/
theorem EmitInv.same (h : EmitInv btf d) (hs : SameEmits d d') : EmitInv btf d' where
  given x t ht he hd := by
    rw [hs.out]
    exact h.given x t ht ((hs.emit x).symm.trans he) hd
  once x := by
    rw [hs.out, hs.emit]
    exact h.once x
  sorted := by
    rw [hs.out]
    exact h.sorted
  inner x t ht he htd := by
    rw [hs.out]
    exact h.inner x t ht ((hs.emit x).symm.trans he) htd
  leaf x t ht he := h.leaf x t ht ((hs.emit x).symm.trans he)
  fwd x hx := by
    rw [hs.out]
    exact h.fwd x ((hs.fwd x).symm.trans hx)

theorem OnlyNames.sameEmits (h : OnlyNames d d') : SameEmits d d' := ⟨h.emit, h.fwd, h.out⟩

theorem fwdEmitted_setEmit (d : BtfDump) (id : Nat) (e : DumpEmit) (x : Nat) :
    ((d.setEmit id e).typeStates x).fwdEmitted = (d.typeStates x).fwdEmitted := by
  unfold BtfDump.setEmit BtfDump.setAux
  dsimp only
  split
  · rfl
  · rfl

theorem emitState_setFwd (d : BtfDump) (id x : Nat) :
    (d.setFwdEmitted id).emitState x = d.emitState x := by
  unfold BtfDump.setFwdEmitted BtfDump.setAux BtfDump.emitState
  dsimp only
  split
  · rfl
  · rfl

/-- What is emitted stays so when another type is taken up. -/
theorem emitted_setEmit {id x : Nat} (hid : d.emitState id ≠ .emitted)
    (hx : d.emitState x = .emitted) : (d.setEmit id e).emitState x = .emitted := by
  rw [emitState_setEmit, if_neg]
  · exact hx
  · rintro rfl
    exact hid hx

theorem emitted_of_setEmit {id x : Nat} (hx : (d.setEmit id .emitted).emitState x = .emitted) :
    x = id ∨ d.emitState x = .emitted := by
  rw [emitState_setEmit] at hx
  split at hx
  · next heq => exact .inl heq
  · exact .inr hx

/-- A type that is not emitted may start or stop being emitted. -/
theorem EmitInv.mark (h : EmitInv btf d) {id : Nat}
    (hid : d.emitState id ≠ .emitted) (he : e ≠ .emitted) : EmitInv btf (d.setEmit id e) := by
  have hiff : ∀ x, (d.setEmit id e).emitState x = .emitted ↔ d.emitState x = .emitted := by
    intro x
    rw [emitState_setEmit]
    split
    · next heq =>
        subst heq
        exact ⟨fun h => absurd h he, fun h => absurd h hid⟩
    · exact Iff.rfl
  exact ⟨fun x t ht hx => h.given x t ht ((hiff x).mp hx),
    fun x => ⟨(h.once x).1, fun hx => (h.once x).2 fun hx' => hx ((hiff x).mpr hx')⟩,
    h.sorted, fun x t ht hx => h.inner x t ht ((hiff x).mp hx),
    fun x t ht hx => h.leaf x t ht ((hiff x).mp hx),
    fun x hx => h.fwd x ((fwdEmitted_setEmit d id e x).symm.trans hx)⟩

/-- A piece that defines nothing. -/
theorem EmitInv.print (h : EmitInv btf d) (hp : piece.defines = false)
    (id : Nat) (text : Bytes) : EmitInv btf (d.print piece id text) := by
  have hpre : d.out <+: (d.print piece id text).out := prefix_append _ _
  refine ⟨fun x t ht hx hd => ?_, fun x => ?_, h.sorted.snoc fun hdef => ?_,
    fun x t ht hx htd m y hy => (h.inner x t ht hx htd m y hy).mono hpre, h.leaf,
    fun x hx => (h.fwd x hx).mono hpre⟩
  · rcases h.given x t ht hx hd with ⟨i, hi, hdef⟩ | hb
    · exact .inl ⟨i, hpre.subset hi, hdef⟩
    · exact .inr hb
  · have hdefs : defsOf (d.print piece id text).out x = defsOf d.out x := by
      refine (defsOf_snoc d.out _ x).trans ?_
      unfold DumpItem.defines
      rw [hp]
      exact append_nil _
    rw [hdefs]
    exact h.once x
  · rcases hdef with rfl | rfl
    · cases hp
    · cases hp

theorem EmitInv.forward (h : EmitInv btf d) {id : Nat} {t : BtfType}
    (ht : btf.typeById id = some t) (hc : t.isComposite = true) (text : Bytes) :
    EmitInv btf ((d.print .structFwd id text).setFwdEmitted id) := by
  have h' : EmitInv btf (d.print .structFwd id text) := h.print rfl id text
  have hemit := emitState_setFwd (d.print .structFwd id text) id
  refine ⟨fun x u hu hx => h'.given x u hu ((hemit x).symm.trans hx), fun x => ?_, h'.sorted,
    fun x u hu hx => h'.inner x u hu ((hemit x).symm.trans hx),
    fun x u hu hx => h'.leaf x u hu ((hemit x).symm.trans hx), fun x hx => ?_⟩
  · rw [hemit]
    exact h'.once x
  · by_cases hxid : x = id
    · subst hxid
      exact ⟨t, ht, hc, _, mem_append_right _ (mem_singleton.mpr rfl), rfl, rfl⟩
    unfold BtfDump.setFwdEmitted BtfDump.setAux at hx
    dsimp only at hx
    rw [if_neg hxid] at hx
    exact h'.fwd x hx

/-- A type is done without a definition. -/
theorem EmitInv.settle (h : EmitInv btf d) {id : Nat} {t : BtfType} (ht : btf.typeById id = some t)
    (hgiven : t.declares = true → btf.IsBuiltin id)
    (hinner : t.isTypedef = true → ∀ m y, Needs btf id m y → Given btf d.out m y)
    (hleaf : t.isNamedComposite = true ∨ t.isTypedef = true ∨ t.refs = []) :
    EmitInv btf (d.setEmit id .emitted) := by
  refine ⟨fun x u hu hx hd => ?_, fun x => ⟨(h.once x).1, fun hx => (h.once x).2 fun hx' => ?_⟩,
    h.sorted, fun x u hu hx htd => ?_, fun x u hu hx => ?_,
    fun x hx => h.fwd x ((fwdEmitted_setEmit d id _ x).symm.trans hx)⟩
  · rcases emitted_of_setEmit hx with rfl | hx
    · cases ht.symm.trans hu
      exact .inr (hgiven hd)
    · exact h.given x u hu hx hd
  · rw [emitState_setEmit] at hx
    split at hx
    · exact hx rfl
    · exact hx hx'
  · rcases emitted_of_setEmit hx with rfl | hx
    · cases ht.symm.trans hu
      exact hinner htd
    · exact h.inner x u hu hx htd
  · rcases emitted_of_setEmit hx with rfl | hx
    · cases ht.symm.trans hu
      exact hleaf
    · exact h.leaf x u hu hx

/-- A type is done with its definition. -/
theorem EmitInv.define (h : EmitInv btf d) {id : Nat} {t : BtfType}
    {text : Bytes} (ht : btf.typeById id = some t) (hid : d.emitState id ≠ .emitted)
    (hp : piece.defines = true) (hneeds : Declared btf d.out ⟨piece, id, text⟩)
    (hinner : t.isTypedef = true → ∀ m y, Needs btf id m y → Given btf d.out m y)
    (hleaf : t.isNamedComposite = true ∨ t.isTypedef = true ∨ t.refs = []) :
    EmitInv btf ((d.print piece id text).setEmit id .emitted) := by
  have hpre : d.out <+: (d.print piece id text).out := prefix_append _ _
  have hmem : ⟨piece, id, text⟩ ∈ (d.print piece id text).out :=
    mem_append_right _ (mem_singleton.mpr rfl)
  have hdef : ∀ x, DumpItem.defines ⟨piece, id, text⟩ x = (id == x) := by
    intro x
    unfold DumpItem.defines
    rw [hp]
    rfl
  refine ⟨fun x u hu hx hd => ?_, fun x => ?_, h.sorted.snoc hneeds, fun x u hu hx htd m y hy => ?_,
    fun x u hu hx => ?_, fun x hx => ?_⟩
  · rcases emitted_of_setEmit hx with rfl | hx
    · exact .inl ⟨_, hmem, by rw [hdef]; exact beq_self_eq_true x⟩
    · rcases h.given x u hu hx hd with ⟨i, hi, hi'⟩ | hb
      · exact .inl ⟨i, hpre.subset hi, hi'⟩
      · exact .inr hb
  · have hdefs : defsOf ((d.print piece id text).setEmit id .emitted).out x
        = defsOf d.out x ++ if id == x then [⟨piece, id, text⟩] else [] := by
      rw [← hdef x]
      exact defsOf_snoc d.out _ x
    rw [hdefs, emitState_setEmit]
    by_cases hx : x = id
    · subst hx
      rw [(h.once x).2 hid, if_pos rfl]
      exact ⟨by simp, fun h => absurd rfl h⟩
    · have hne : (id == x) = false := beq_eq_false_iff_ne.mpr (Ne.symm hx)
      rw [hne, if_neg hx, if_neg (by decide), append_nil]
      exact h.once x
  · rcases emitted_of_setEmit hx with rfl | hx
    · cases ht.symm.trans hu
      exact (hinner htd m y hy).mono hpre
    · exact (h.inner x u hu hx htd m y hy).mono hpre
  · rcases emitted_of_setEmit hx with rfl | hx
    · cases ht.symm.trans hu
      exact hleaf
    · exact h.leaf x u hu hx
  · exact (h.fwd x ((fwdEmitted_setEmit _ id _ x).symm.trans hx)).mono hpre

end

-- ======== steps

/-- A part of the emitting went well. -/
structure EmitStep (btf : Btf) (d d' : BtfDump) : Prop where
  inv : EmitInv btf d'
  grows : d.out <+: d'.out
  emitted : ∀ x, d.emitState x = .emitted → d'.emitState x = .emitted
  emitting : ∀ x, d'.emitState x = .emitting ↔ d.emitState x = .emitting
  order : ∀ x, d'.orderState x = d.orderState x
  queue : d'.emitQueue = d.emitQueue

/-- Besides the output, only the emit state of `id` may have changed. -/
structure Touches (id : Nat) (d d' : BtfDump) : Prop where
  grows : d.out <+: d'.out
  other : ∀ x, x ≠ id → d'.emitState x = d.emitState x
  order : ∀ x, d'.orderState x = d.orderState x
  queue : d'.emitQueue = d.emitQueue

/-- What writing out `id` needs in full is there. -/
def Ready (btf : Btf) (d : BtfDump) (id : Nat) (thr : Bool) : Prop :=
  ∀ x, Hard btf thr id x → d.emitState x = .emitted

/-- Writing out `id` does not come to a type that is being written out. -/
def Clear (btf : Btf) (d : BtfDump) (id : Nat) : Prop :=
  ∀ y t, d.emitState y = .emitting → btf.typeById y = some t → t.isNamedComposite = false →
    ¬ Relation.ReflTransGen (Opens btf) id y

/-- Going from `d` to `d'` has given what writing out `id` needs. The struct
`cont` that is going to be defined is not declared for itself. -/
def Gave (btf : Btf) (cont : Nat) (d d' : BtfDump) (id : Nat) : Prop :=
  ∀ thr, Ready btf d id thr → ∀ m x, Uses btf thr id m x → Given btf d'.out m x
      ∨ m = true ∧ x = cont ∧ ∃ t, btf.typeById x = some t ∧ t.isComposite = true

section

variable {btf : Btf} {a b c d d' : BtfDump} {id cont : Nat} {t : BtfType}

theorem EmitInv.refl (h : EmitInv btf d) : EmitStep btf d d :=
  ⟨h, prefix_refl _, fun _ h => h, fun _ => Iff.rfl, fun _ => rfl, rfl⟩

theorem EmitStep.trans (h : EmitStep btf a b) (h' : EmitStep btf b c) : EmitStep btf a c where
  inv := h'.inv
  grows := h.grows.trans h'.grows
  emitted x hx := h'.emitted x (h.emitted x hx)
  emitting x := (h'.emitting x).trans (h.emitting x)
  order x := (h'.order x).trans (h.order x)
  queue := h'.queue.trans h.queue

theorem Touches.trans (h : Touches id a b) (h' : Touches id b c) : Touches id a c where
  grows := h.grows.trans h'.grows
  other x hx := (h'.other x hx).trans (h.other x hx)
  order x := (h'.order x).trans (h.order x)
  queue := h'.queue.trans h.queue

theorem OnlyNames.touches (h : OnlyNames d d') (id : Nat) : Touches id d d' :=
  ⟨by rw [h.out], fun x _ => h.emit x, h.order, h.queue⟩

theorem touches_print (d : BtfDump) (piece : DumpPiece) (id : Nat) (text : Bytes) :
    Touches id d (d.print piece id text) :=
  ⟨prefix_append _ _, fun _ _ => rfl, fun _ => rfl, rfl⟩

theorem touches_setEmit (d : BtfDump) (id : Nat) (e : DumpEmit) :
    Touches id d (d.setEmit id e) where
  grows := prefix_refl _
  other x hx := by
    rw [emitState_setEmit, if_neg hx]
  order x := by
    unfold BtfDump.setEmit BtfDump.setAux BtfDump.orderState
    dsimp only
    split
    · rfl
    · rfl
  queue := rfl

theorem touches_setFwd (d : BtfDump) (id : Nat) : Touches id d (d.setFwdEmitted id) where
  grows := prefix_refl _
  other x _ := emitState_setFwd d id x
  order x := by
    unfold BtfDump.setFwdEmitted BtfDump.setAux BtfDump.orderState
    dsimp only
    split
    · rfl
    · rfl
  queue := rfl

/-- A type is taken up, something is done in between, and it is put down. -/
theorem EmitStep.around (h₁ : Touches id d a) (h₂ : EmitStep btf a b) (h₃ : Touches id b c)
    (hinv : EmitInv btf c) (hbefore : d.emitState id = .notEmitted)
    (hafter : c.emitState id ≠ .emitting) : EmitStep btf d c where
  inv := hinv
  grows := (h₁.grows.trans h₂.grows).trans h₃.grows
  emitted x hx := by
    have hne : x ≠ id := by
      rintro rfl
      rw [hbefore] at hx
      cases hx
    rw [h₃.other x hne]
    exact h₂.emitted x ((h₁.other x hne).trans hx)
  emitting x := by
    by_cases hx : x = id
    · subst hx
      rw [hbefore]
      exact ⟨fun h => absurd h hafter, fun h => by cases h⟩
    · rw [h₃.other x hx, h₂.emitting x, h₁.other x hx]
  order x := ((h₃.order x).trans (h₂.order x)).trans (h₁.order x)
  queue := (h₃.queue.trans h₂.queue).trans h₁.queue

theorem Touches.refl (id : Nat) (d : BtfDump) : Touches id d d :=
  ⟨prefix_refl _, fun _ _ => rfl, fun _ => rfl, rfl⟩

/-- A type is done. -/
theorem EmitStep.done (hinv : EmitInv btf d) (hd : d.emitState id = .notEmitted)
    (htouch : Touches id d d') (hdone : EmitInv btf (d'.setEmit id .emitted)) :
    EmitStep btf d (d'.setEmit id .emitted) := by
  refine .around (.refl id d) hinv.refl (htouch.trans (touches_setEmit d' id .emitted)) hdone hd ?_
  rw [emitState_setEmit, if_pos rfl]
  decide

theorem Ready.mono (h : Ready btf a id thr)
    (he : ∀ x, a.emitState x = .emitted → b.emitState x = .emitted) : Ready btf b id thr :=
  fun x hx => he x (h x hx)

theorem Clear.mono (h : Clear btf a id)
    (he : ∀ x, b.emitState x = .emitting → a.emitState x = .emitting) : Clear btf b id :=
  fun y t hy => h y t (he y hy)

theorem Gave.mono (h : Gave btf cont b c id)
    (he : ∀ x, a.emitState x = .emitted → b.emitState x = .emitted) (hpre : c.out <+: d.out) :
    Gave btf cont a d id := by
  intro thr hready m x hx
  rcases h thr (hready.mono he) m x hx with hg | hc
  · exact .inl (hg.mono hpre)
  · exact .inr hc

/-- A reference of a type that is being written out: what holds of the type. -/
theorem ready_ref (ht : btf.typeById id = some t) (hopen : t.isNamedComposite = false)
    (hr : r ∈ t.refs) (h : Ready btf d id true) : Ready btf d r true := by
  intro x hx
  cases hthr : t.through true with
  | true => exact h x (Hard.step ht hopen hr (by rwa [hthr]))
  | false => exact h x (Hard.step ht hopen hr (by rw [hthr]; exact hx.closer))

theorem clear_ref (ht : btf.typeById id = some t) (hopen : t.isNamedComposite = false)
    (hr : r ∈ t.refs) (h : Clear btf d id) : Clear btf d r :=
  fun y u hy hu hn hpath => h y u hy hu hn (.head ⟨t, ht, hopen, hr⟩ hpath)

/-- Also while the type itself is being emitted. -/
theorem clear_ref_self (ht : btf.typeById id = some t) (hopen : t.isNamedComposite = false)
    (hground : Ground btf id) (hr : r ∈ t.refs) (h : Clear btf d id) :
    Clear btf (d.setEmit id .emitting) r := by
  intro y u hy hu hn hpath
  rw [emitState_setEmit] at hy
  split at hy
  · next heq =>
      subst heq
      exact hground.irrefl (.head' ⟨t, ht, hopen, hr⟩ hpath)
  · exact clear_ref ht hopen hr h y u hy hu hn hpath

theorem Ground.ref (h : Ground btf id) (ht : btf.typeById id = some t)
    (hopen : t.isNamedComposite = false) (hr : r ∈ t.refs) : Ground btf r :=
  h.inv ⟨t, ht, hopen, hr⟩

theorem gave_of_refs (ht : btf.typeById id = some t) (hopen : t.isNamedComposite = false)
    (hself : t.declares = true → ∀ m, Given btf d'.out m id)
    (h : ∀ r ∈ t.refs, Gave btf cont d d' r) : Gave btf cont d d' id := by
  intro thr hready m x hx
  cases hx with
  | here ht' hd =>
    cases ht.symm.trans ht'
    exact .inl (hself hd thr)
  | step ht' _ hr hx =>
    cases ht.symm.trans ht'
    exact h _ hr _ (fun y hy => hready y (Hard.step ht hopen hr hy)) m x hx

theorem gave_of_leaf (ht : btf.typeById id = some t) (hd : t.declares = false)
    (hr : t.refs = []) : Gave btf cont d d' id := by
  intro thr _ m x hx
  cases hx with
  | here ht' hd' =>
    cases ht.symm.trans ht'
    rw [hd] at hd'
    cases hd'
  | step ht' _ hr' _ =>
    cases ht.symm.trans ht'
    rw [hr] at hr'
    cases hr'

/-- A struct or union that is not defined yet is only used behind pointers. -/
theorem gave_of_named (ht : btf.typeById id = some t) (hn : t.isNamedComposite = true)
    (hd : d.emitState id ≠ .emitted) (h : Forwarded btf d'.out id ∨ id = cont) :
    Gave btf cont d d' id := by
  intro thr hready m x hx
  cases hx with
  | step ht' hopen _ _ =>
    cases ht.symm.trans ht'
    rw [hn] at hopen
    cases hopen
  | here ht' hdecl =>
    cases ht.symm.trans ht'
    cases thr with
    | false => exact absurd (hready id ⟨false, t, .here ht hdecl, ht, .inl rfl⟩) hd
    | true =>
      rcases h with h | rfl
      · exact .inl (.inr (.inr ⟨rfl, h⟩))
      · exact .inr ⟨rfl, rfl, t, ht, (Bool.and_eq_true_iff.mp hn).1⟩

theorem Uses.declares {m : Bool} {x : Nat} (h : Uses btf thr id m x) :
    ∃ t, btf.typeById x = some t ∧ t.declares = true := by
  induction h with
  | here ht hd => exact ⟨_, ht, hd⟩
  | step _ _ _ _ ih => exact ih

/-- What is emitted needs nothing more. -/
theorem gave_of_emitted (hinv : EmitInv btf d) (ht : btf.typeById id = some t)
    (hd : d.emitState id = .emitted) : Gave btf cont d d id := by
  intro thr hready m x hx
  have hhard : Hard btf thr id x → ∀ m, Given btf d.out m x := by
    intro hh m
    obtain ⟨u, hu, hdecl⟩ := hx.declares
    rcases hinv.given x u hu (hready x hh) hdecl with hdef | hb
    · exact .inl hdef
    · exact .inr (.inl hb)
  cases hx with
  | here ht' hdecl =>
    cases ht.symm.trans ht'
    rcases hinv.given id t ht hd hdecl with hdef | hb
    · exact .inl (.inl hdef)
    · exact .inl (.inr (.inl hb))
  | step ht' hopen hr hx =>
    cases ht.symm.trans ht'
    rcases hinv.leaf id t ht hd with hn | htd | hrefs
    · rw [hn] at hopen
      cases hopen
    · cases m with
      | false =>
        obtain ⟨u, hu, -⟩ := hx.declares
        exact .inl (hhard ⟨false, u, .step ht hopen hr hx, hu, .inl rfl⟩ false)
      | true =>
        -- behind a pointer, as when the typedef was printed
        refine .inl (hinv.inner id t ht hd htd true x ⟨t, _, ht, hr, ?_⟩)
        have hthr : t.through true = true := by
          unfold BtfType.through
          rw [t.kind_of_isTypedef htd]
        rw [hthr]
        exact hx.farther rfl
    · rw [hrefs] at hr
      cases hr

end

-- ======== the walk

/-- What `btf_dump_emit_type` does below the top level. -/
def EmitsWell (btf : Btf) (emit : Nat → Nat → Run BtfDump Unit) : Prop :=
  ∀ r cont d, EmitInv btf d → Ground btf r → Ready btf d r true → Clear btf d r → cont ≠ 0 →
    Gives (emit r cont) d fun _ d' => EmitStep btf d d' ∧ Gave btf cont d d' r

section

variable {btf : Btf} {emit : Nat → Nat → Run BtfDump Unit} {n id cont : Nat} {d : BtfDump}
  {t : BtfType}

theorem Textual.gives {α : Type} {m : Run BtfDump α} (h : Textual m) (d : BtfDump) :
    Gives m d fun _ d' => OnlyNames d d' := by
  unfold Gives Ensures
  cases hm : m d with
  | ok a d' => exact h d a d' hm
  | error e d' => trivial

theorem emitPiece_gives (h : Textual text) : Gives (emitPiece piece id text) d fun _ d' =>
      ∃ d₁ s, OnlyNames d d₁ ∧ d' = d₁.print piece id s :=
  (h.gives d).bind fun _ d₁ h₁ => ensures_modify_last ⟨d₁, _, h₁, rfl⟩

/-- The members of an unnamed struct, or the parameters of a function. -/
theorem refs_gives (hemit : EmitsWell btf emit) {typ : Nat → Res Nat} {is : List Nat}
    (hinv : EmitInv btf d) (hcont : cont ≠ 0)
    (h : ∀ i ∈ is, ∀ r, typ i = .ok r → Ground btf r ∧ Ready btf d r true ∧ Clear btf d r) :
    Gives (each (fun i => do let type ← liftRes (typ i); emit type cont) is) d fun _ d' =>
      EmitStep btf d d' ∧ ∀ i ∈ is, ∀ r, typ i = .ok r → Gave btf cont d d' r := by
  refine ensures_each (fun pre d' => EmitStep btf d d'
    ∧ ∀ i ∈ pre, ∀ r, typ i = .ok r → Gave btf cont d d' r) ?_ ?_
  · refine ⟨hinv.refl, fun i hi => ?_⟩
    cases hi
  · intro pre i post d₁ hsplit h₁
    refine ensures_read (fun _ _ => trivial) fun r hr => ?_
    obtain ⟨hg, hready, hclear⟩ := h i (by rw [hsplit]; simp) r hr
    refine (hemit r cont d₁ h₁.1.inv hg (hready.mono h₁.1.emitted)
      (hclear.mono fun x => (h₁.1.emitting x).mp) hcont).mono fun _ d₂ h₂ => ?_
    refine ⟨h₁.1.trans h₂.1, fun j hj u hu => ?_⟩
    rcases mem_append.mp hj with hj | hj
    · exact (h₁.2 j hj u hu).mono (fun _ h => h) h₂.1.grows
    · cases mem_singleton.mp hj
      cases hr.symm.trans hu
      exact h₂.2.mono h₁.1.emitted (prefix_refl _)

/-- What `btf_dump_emit_type` prints at a typedef. -/
theorem emitTypedefOnce_gives (ht : btf.typeById id = some t) (htd : t.isTypedef = true)
    (hfwd : (d.typeStates id).fwdEmitted = false) :
    Gives (emitTypedefOnce btf n id t) d fun _ d' =>
      (btf.IsBuiltin id ∧ d' = d) ∨ ∃ d₁ s, OnlyNames d d₁ ∧ d' = d₁.print .typedefDef id s := by
  unfold emitTypedefOnce
  refine ensures_get ?_
  rw [hfwd]
  refine ensures_read (fun _ _ => trivial) fun black hblack => ?_
  cases black with
  | true => exact ensures_pure (.inl ⟨⟨t, ht, htd, hblack⟩, rfl⟩)
  | false => exact (emitPiece_gives (textual_typedefDef _ _ _ _ _)).mono fun _ _ h => .inr h

/-- A typedef: what it names is given before it, and it is the name of nothing
that a pointer could stand in front of. -/
theorem typedef_gives (hemit : EmitsWell btf emit) (ht : btf.typeById id = some t)
    (hk : t.kind = .typedef) (hinv : EmitInv btf d) (hground : Ground btf id)
    (hready : Ready btf d id true) (hclear : Clear btf d id) (hd : d.emitState id = .notEmitted) :
    Gives (do
      modify (·.setEmit id .emitting)
      emit t.type id
      emitTypedefOnce btf n id t
      modify (·.setEmit id .emitted)) d fun _ d' =>
      EmitStep btf d d' ∧ d'.emitState id = .emitted ∧ ∀ cont, Gave btf cont d d' id := by
  have hcomp : t.isComposite = false := by
    unfold BtfType.isComposite
    rw [hk]
    rfl
  have hopen := t.isNamedComposite_eq_false hcomp
  have htd : t.isTypedef = true := by
    unfold BtfType.isTypedef
    rw [hk]
  have hrefs : t.refs = [t.type] := by
    unfold BtfType.refs
    rw [hk]
  have hr : t.type ∈ t.refs := by
    rw [hrefs]
    exact mem_singleton.mpr rfl
  have hthr : t.through true = true := by
    unfold BtfType.through
    rw [hk]
  have hnot : d.emitState id ≠ .emitted := by
    rw [hd]
    decide
  have hkeep : ∀ x, d.emitState x = .emitted → (d.setEmit id .emitting).emitState x = .emitted :=
    fun x => emitted_setEmit hnot
  refine ensures_modify ((hemit t.type id _ (hinv.mark hnot (by decide))
    (hground.ref ht hopen hr) ((ready_ref ht hopen hr hready).mono hkeep)
    (clear_ref_self ht hopen hground hr hclear)
    (Btf.ne_zero_of_kind ht (by rw [hk]; decide))).bind fun _ d₁ h₁ => ?_)
  obtain ⟨hstep, hgave⟩ := h₁
  -- a typedef is no struct that could be left out
  have hgave' : ∀ thr, Ready btf d t.type thr → ∀ m x, Uses btf thr t.type m x →
      Given btf d₁.out m x := by
    intro thr hthr m x hx
    rcases hgave thr (hthr.mono hkeep) m x hx with hg | ⟨-, rfl, u, hu, hc⟩
    · exact hg
    · cases ht.symm.trans hu
      rw [hcomp] at hc
      cases hc
  have hneeds : ∀ m x, Needs btf id m x → Given btf d₁.out m x := by
    rintro m x ⟨u, r, hu, hr', huses⟩
    cases ht.symm.trans hu
    rw [hrefs] at hr'
    cases mem_singleton.mp hr'
    rw [hthr] at huses
    exact hgave' true (ready_ref ht hopen hr hready) m x huses
  have hid₁ : d₁.emitState id = .emitting :=
    (hstep.emitting id).mpr (by rw [emitState_setEmit, if_pos rfl])
  have hfwd : (d₁.typeStates id).fwdEmitted = false := by
    cases hf : (d₁.typeStates id).fwdEmitted with
    | false => rfl
    | true =>
      obtain ⟨u, hu, hc, -⟩ := hstep.inv.fwd id hf
      cases ht.symm.trans hu
      rw [hcomp] at hc
      cases hc
  have hdone : ∀ {d₃ : BtfDump}, EmitInv btf (d₃.setEmit id .emitted) → Touches id d₁ d₃ →
      (∀ m, Given btf d₃.out m id) →
      EmitStep btf d (d₃.setEmit id .emitted) ∧ (d₃.setEmit id .emitted).emitState id = .emitted
        ∧ ∀ cont, Gave btf cont d (d₃.setEmit id .emitted) id := by
    intro d₃ hinv₃ htouch hself
    have hlast : (d₃.setEmit id .emitted).emitState id = .emitted := by
      rw [emitState_setEmit, if_pos rfl]
    refine ⟨.around (touches_setEmit d id .emitting) hstep
      (htouch.trans (touches_setEmit d₃ id .emitted)) hinv₃ hd (by rw [hlast]; decide), hlast,
      fun cont => gave_of_refs ht hopen (fun _ => hself) fun r hr' => ?_⟩
    rw [hrefs] at hr'
    cases mem_singleton.mp hr'
    exact fun thr hthr m x hx => .inl ((hgave' thr hthr m x hx).mono htouch.grows)
  refine (emitTypedefOnce_gives ht htd hfwd).bind fun _ d₂ h₂ => ensures_modify_last ?_
  rcases h₂ with ⟨hb, rfl⟩ | ⟨d₁', s, hnames, rfl⟩
  · exact hdone (hstep.inv.settle ht (fun _ => hb) (fun _ => hneeds) (.inr (.inl htd)))
      (.refl id d₂) fun _ => .inr (.inl hb)
  have hneeds' : ∀ m x, Needs btf id m x → Given btf d₁'.out m x := by
    rw [hnames.out]
    exact hneeds
  refine hdone ?_ ((hnames.touches id).trans (touches_print d₁' _ id s)) fun _ => .inl ?_
  · refine (hstep.inv.same hnames.sameEmits).define ht ?_ rfl
      (fun _ m x hx => .inl (hneeds' m x hx)) (fun _ => hneeds') (.inr (.inl htd))
    rw [hnames.emit, hid₁]
    decide
  · refine ⟨_, mem_append_right _ (mem_singleton.mpr rfl), ?_⟩
    unfold DumpItem.defines
    exact beq_self_eq_true id

/-- A forward declaration of `id` is printed, in a state where it may be
being emitted. -/
theorem forward_gives (ht : btf.typeById id = some t) (hc : t.isComposite = true)
    (hinv : EmitInv btf d) :
    Gives (do
      emitPiece .structFwd id (btfDumpEmitStructFwd btf id t)
      modify (·.setFwdEmitted id)) d fun _ d' =>
      EmitStep btf d d' ∧ Forwarded btf d'.out id := by
  refine (emitPiece_gives (textual_structFwd _ _ _)).bind fun _ d₁ h₁ => ensures_modify_last ?_
  obtain ⟨d₀, s, hnames, rfl⟩ := h₁
  have hemit : ∀ x, ((d₀.print .structFwd id s).setFwdEmitted id).emitState x = d.emitState x :=
    fun x => (emitState_setFwd _ id x).trans (hnames.emit x)
  have htouch := ((hnames.touches id).trans (touches_print d₀ .structFwd id s)).trans
    (touches_setFwd (d₀.print .structFwd id s) id)
  refine ⟨⟨(hinv.same hnames.sameEmits).forward ht hc s, htouch.grows, fun x hx => ?_, fun x => ?_,
    htouch.order, htouch.queue⟩, t, ht, hc, _, mem_append_right _ (mem_singleton.mpr rfl), rfl, rfl⟩
  · rw [hemit]
    exact hx
  · rw [hemit]

/-- A struct or union below the top level: its forward declaration, or what
its members need if it has no name. -/
theorem nested_gives (hemit : EmitsWell btf emit) (ht : btf.typeById id = some t)
    (hc : t.isComposite = true) (hinv : EmitInv btf d) (hground : Ground btf id)
    (hready : Ready btf d id true) (hclear : Clear btf d id) (hcont : cont ≠ 0)
    (hd : d.emitState id = .notEmitted) :
    Gives (do
      modify (·.setEmit id .emitting)
      emitNeeds btf emit id t cont
      emitStruct btf n id t cont) d fun _ d' => EmitStep btf d d' ∧ Gave btf cont d d' id := by
  have hnot : d.emitState id ≠ .emitted := by
    rw [hd]
    decide
  have hinv₀ : EmitInv btf (d.setEmit id .emitting) := hinv.mark hnot (by decide)
  have hput : ∀ {d₁}, EmitStep btf (d.setEmit id .emitting) d₁ →
      EmitStep btf d (d₁.setEmit id .notEmitted) := by
    intro d₁ hstep
    have hid₁ : d₁.emitState id = .emitting :=
      (hstep.emitting id).mpr (by rw [emitState_setEmit, if_pos rfl])
    refine .around (touches_setEmit d id .emitting) hstep (touches_setEmit d₁ id .notEmitted)
      (hstep.inv.mark (by rw [hid₁]; decide) (by decide)) hd ?_
    rw [emitState_setEmit, if_pos rfl]
    decide
  refine ensures_modify ?_
  unfold emitNeeds emitStruct
  rw [if_neg hcont]
  by_cases hn : t.nameOff = 0
  · rw [if_pos (.inr hn), if_pos hn]
    have hopen : t.isNamedComposite = false := by
      unfold BtfType.isNamedComposite
      rw [hn, bne_self_eq_false, Bool.and_false]
    have hkeep : ∀ x, d.emitState x = .emitted →
        (d.setEmit id .emitting).emitState x = .emitted := fun x => emitted_setEmit hnot
    refine (refs_gives hemit hinv₀ hcont fun i hi r hr => ?_).bind fun _ d₁ h₁ =>
      ensures_modify_last ⟨hput h₁.1, gave_of_refs ht hopen (fun hdecl => ?_) fun r hr => ?_⟩
    · obtain ⟨m, hm, rfl⟩ := Option.map_eq_some_iff.mp (deref_eq_ok.mp hr)
      have hmem := t.mem_refs_member hc (mem_range.mp hi) hm
      exact ⟨hground.ref ht hopen hmem, (ready_ref ht hopen hmem hready).mono hkeep,
        clear_ref_self ht hopen hground hmem hclear⟩
    · rw [t.declares_eq_false_of_composite hc hn] at hdecl
      cases hdecl
    · obtain ⟨i, hi, m, hm, rfl⟩ := t.of_mem_refs_member hc hr
      exact (h₁.2 i (mem_range.mpr hi) m.type (deref_ok (by rw [hm]; rfl))).mono hkeep
        (prefix_refl _)
  · rw [if_neg (not_or.mpr ⟨hcont, hn⟩)]
    have hnamed : t.isNamedComposite = true := Bool.and_eq_true_iff.mpr ⟨hc, bne_iff_ne.mpr hn⟩
    have hbody : Gives (do
        let d ← get
        if (d.typeStates id).fwdEmitted ∨ id = cont then pure ()
        else do
          emitPiece .structFwd id (btfDumpEmitStructFwd btf id t)
          modify (·.setFwdEmitted id)) (d.setEmit id .emitting) fun _ d₁ =>
        EmitStep btf (d.setEmit id .emitting) d₁ ∧ (Forwarded btf d₁.out id ∨ id = cont) := by
      refine ensures_get ?_
      split
      · next hf => exact ensures_pure ⟨hinv₀.refl, hf.imp_left (hinv₀.fwd id)⟩
      · exact (forward_gives ht hc hinv₀).mono fun _ d₁ h₁ => ⟨h₁.1, .inl h₁.2⟩
    exact hbody.bind fun _ d₁ h₁ =>
      ensures_modify_last ⟨hput h₁.1, gave_of_named ht hnamed hnot h₁.2⟩

/-- At a type that is being emitted: it is a struct or union with a name. -/
theorem again_gives (ht : btf.typeById id = some t) (hinv : EmitInv btf d)
    (hclear : Clear btf d id) (hd : d.emitState id = .emitting) :
    Gives (emitAgain btf n id t cont) d fun _ d' =>
      EmitStep btf d d' ∧ Gave btf cont d d' id := by
  have hnamed : t.isNamedComposite = true := by
    cases hn : t.isNamedComposite with
    | true => rfl
    | false => exact absurd .refl (hclear id t hd ht hn)
  obtain ⟨hc, hname⟩ := Bool.and_eq_true_iff.mp hnamed
  have hnot : d.emitState id ≠ .emitted := by
    rw [hd]
    decide
  unfold emitAgain
  refine ensures_get ?_
  split
  · next hf => exact ensures_pure ⟨hinv.refl, gave_of_named ht hnamed hnot (.inl (hinv.fwd id hf))⟩
  have hfwd : Gives (if id = cont ∨ t.nameOff = 0 then pure () else do
        emitPiece .structFwd id (btfDumpEmitStructFwd btf id t)
        modify (·.setFwdEmitted id)) d fun _ d' =>
      EmitStep btf d d' ∧ Gave btf cont d d' id := by
    split
    · next hcont =>
        have hcont := hcont.resolve_right (bne_iff_ne.mp hname)
        exact ensures_pure ⟨hinv.refl, gave_of_named ht hnamed hnot (.inr hcont)⟩
    · exact (forward_gives ht hc hinv).mono fun _ d₁ h₁ =>
        ⟨h₁.1, gave_of_named ht hnamed hnot (.inl h₁.2)⟩
  rcases t.isComposite_iff.mp hc with hk | hk
  · rw [hk]
    exact hfwd
  · rw [hk]
    exact hfwd

theorem funcProto_gives (hemit : EmitsWell btf emit) (ht : btf.typeById id = some t)
    (hk : t.kind = .funcProto) (hinv : EmitInv btf d) (hground : Ground btf id)
    (hready : Ready btf d id true) (hclear : Clear btf d id) (hcont : cont ≠ 0) :
    Gives (do
      emit t.type cont
      each (fun i => do let type ← liftRes (paramType t i); emit type cont)
        (List.range t.vlen)) d fun _ d' => EmitStep btf d d' ∧ Gave btf cont d d' id := by
  have hopen : t.isNamedComposite = false := by
    refine t.isNamedComposite_eq_false ?_
    unfold BtfType.isComposite
    rw [hk]
    rfl
  have hrefs : t.refs = t.type :: t.paramTypes := by
    unfold BtfType.refs
    rw [hk]
  have hret : t.type ∈ t.refs := by
    rw [hrefs]
    exact mem_cons_self
  refine (hemit t.type cont d hinv (hground.ref ht hopen hret) (ready_ref ht hopen hret hready)
    (clear_ref ht hopen hret hclear) hcont).bind fun _ d₁ h₁ => ?_
  refine (refs_gives hemit h₁.1.inv hcont fun i hi r hr => ?_).mono fun _ d' h =>
    ⟨h₁.1.trans h.1, gave_of_refs ht hopen (fun hd => ?_) fun r hr => ?_⟩
  · have hmem := t.mem_refs_param hk (mem_range.mp hi) (deref_eq_ok.mp hr)
    exact ⟨hground.ref ht hopen hmem, (ready_ref ht hopen hmem hready).mono h₁.1.emitted,
      (clear_ref ht hopen hmem hclear).mono fun x => (h₁.1.emitting x).mp⟩
  · rw [t.declares_eq_false (by rw [hk]; rfl)] at hd
    cases hd
  · rw [hrefs] at hr
    rcases mem_cons.mp hr with rfl | hr
    · exact h₁.2.mono (fun _ h => h) h.1.grows
    · obtain ⟨i, hi, hp⟩ := mem_filterMap.mp hr
      exact (h.2 i hi r (deref_ok hp)).mono h₁.1.emitted (prefix_refl _)

theorem aliases_gives : Gives (btfDumpEmitMissingAliases btf id) d fun _ d' =>
      ∃ d₁, OnlyNames d d₁ ∧ (d' = d₁ ∨ ∃ s, d' = d₁.print .alias id s) := by
  refine ((textual_resolveName _ _ _).gives d).bind fun name d₁ h₁ => ?_
  split
  · exact ensures_modify_last ⟨d₁, h₁, .inr ⟨_, rfl⟩⟩
  · exact ensures_pure ⟨d₁, h₁, .inl rfl⟩

theorem int_gives (ht : btf.typeById id = some t) (hdecl : t.declares = false)
    (hrefs : t.refs = []) (hinv : EmitInv btf d) (hd : d.emitState id = .notEmitted) :
    Gives (do
      btfDumpEmitMissingAliases btf id
      modify (·.setEmit id .emitted)) d fun _ d' =>
      EmitStep btf d d' ∧ Gave btf cont d d' id := by
  refine aliases_gives.bind fun _ d₁ h₁ =>
    ensures_modify_last ⟨?_, gave_of_leaf ht hdecl hrefs⟩
  have hsettle : ∀ {d₁}, EmitInv btf d₁ → EmitInv btf (d₁.setEmit id .emitted) := by
    intro d₁ h
    refine h.settle ht (fun hd => ?_) (fun htd => ?_) (.inr (.inr hrefs))
    · rw [hdecl] at hd
      cases hd
    · unfold BtfType.declares at hdecl
      rw [htd] at hdecl
      cases hdecl
  obtain ⟨d₀, hnames, rfl | ⟨s, rfl⟩⟩ := h₁
  · exact .done hinv hd (hnames.touches id) (hsettle (hinv.same hnames.sameEmits))
  · exact .done hinv hd ((hnames.touches id).trans (touches_print d₀ _ id s))
      (hsettle ((hinv.same hnames.sameEmits).print rfl id s))

/-- An enum or forward declaration is printed. -/
theorem firm_gives (htext : Textual text)
    (ht : btf.typeById id = some t) (hfirm : t.isFirm = true) (hrefs : t.refs = [])
    (hp : piece = .enumDef ∨ piece = .fwdDef) (hinv : EmitInv btf d)
    (hd : d.emitState id = .notEmitted) :
    Gives (do
      emitPiece piece id text
      modify (·.setEmit id .emitted)) d fun _ d' =>
      EmitStep btf d d' ∧ d'.emitState id = .emitted := by
  refine (emitPiece_gives htext).bind fun _ d₁ h₁ => ensures_modify_last ?_
  obtain ⟨d₀, s, hnames, rfl⟩ := h₁
  refine ⟨.done hinv hd ((hnames.touches id).trans (touches_print d₀ _ id s)) ?_, ?_⟩
  · refine (hinv.same hnames.sameEmits).define ht ?_ ?_ (fun hdef => ?_) (fun htd => ?_)
      (.inr (.inr hrefs))
    · rw [hnames.emit, hd]
      decide
    · rcases hp with rfl | rfl
      · rfl
      · rfl
    · rcases hp with rfl | rfl
      · rcases hdef with hdef | hdef
        · cases hdef
        · cases hdef
      · rcases hdef with hdef | hdef
        · cases hdef
        · cases hdef
    · unfold BtfType.isFirm BtfType.isAnyEnum at hfirm
      rw [t.kind_of_isTypedef htd] at hfirm
      cases hfirm
  · rw [emitState_setEmit, if_pos rfl]

/-- Below the top level, everything a type needs is given. -/
theorem emit_gives : EmitsWell btf (btfDumpEmitType btf n) := by
  induction n with
  | zero => exact fun _ _ _ _ _ _ _ _ => trivial
  | succ n ih =>
    intro id cont d hinv hground hready hclear hcont
    refine ensures_read (fun _ _ => trivial) fun t ht => ensures_get ?_
    replace ht : btf.typeById id = some t := deref_eq_ok.mp ht
    -- a type without a name of its own that is made of one other
    have hone : ∀ {type : Nat}, t.refs = [type] → t.kind.declares = false →
        Gives (btfDumpEmitType btf n type cont) d fun _ d' =>
          EmitStep btf d d' ∧ Gave btf cont d d' id := by
      intro type hrefs hdecl
      have hopen : t.isNamedComposite = false := by
        refine t.isNamedComposite_eq_false ?_
        unfold BtfType.isComposite
        cases hk : t.kind with
        | struct | union =>
          rw [hk] at hdecl
          cases hdecl
        | _ => rfl
      have hr : type ∈ t.refs := by
        rw [hrefs]
        exact mem_singleton.mpr rfl
      refine (ih type cont d hinv (hground.ref ht hopen hr) (ready_ref ht hopen hr hready)
        (clear_ref ht hopen hr hclear) hcont).mono fun _ d' h => ⟨h.1, ?_⟩
      refine gave_of_refs ht hopen (fun hd => ?_) fun r hr' => ?_
      · rw [t.declares_eq_false hdecl] at hd
        cases hd
      · rw [hrefs] at hr'
        cases mem_singleton.mp hr'
        exact h.2
    -- a kind that is made of nothing and is done when it is reached
    have hfirm : t.isFirm = true → d.emitState id = .notEmitted → t.nameOff = 0 := by
      intro hfirm hd
      by_contra hn
      have hdecl : t.declares = true := by
        unfold BtfType.declares
        rw [hfirm, Bool.or_true, Bool.true_and, bne_iff_ne.mpr hn, Bool.or_true]
      have := hready id ⟨true, t, .here ht hdecl, ht, .inr hfirm⟩
      rw [hd] at this
      cases this
    cases hd : d.emitState id with
    | emitted => exact ensures_pure ⟨hinv.refl, gave_of_emitted hinv ht hd⟩
    | emitting => exact again_gives ht hinv hclear hd
    | notEmitted =>
      cases hk : t.kind with
      | int =>
        refine int_gives ht (t.declares_eq_false (by rw [hk]; rfl)) ?_ hinv hd
        unfold BtfType.refs
        rw [hk]
      | enum | enum64 =>
        have hname := hfirm (by unfold BtfType.isFirm BtfType.isAnyEnum; rw [hk]; rfl) hd
        have hdecl : t.declares = false := by
          unfold BtfType.declares BtfType.isTypedef
          rw [hk, hname, bne_self_eq_false, Bool.and_false, Bool.or_false]
        have hrefs : t.refs = [] := by
          unfold BtfType.refs
          rw [hk]
        unfold emitEnum
        rw [if_neg hcont]
        refine ensures_modify_last ⟨.done hinv hd (.refl id d) (hinv.settle ht (fun h => ?_)
          (fun h => ?_) (.inr (.inr hrefs))), gave_of_leaf ht hdecl hrefs⟩
        · rw [hdecl] at h
          cases h
        · rw [t.kind_of_isTypedef h] at hk
          cases hk
      | ptr | volatile | const | restrict | typeTag =>
        refine hone ?_ (by rw [hk]; rfl)
        unfold BtfType.refs
        rw [hk]
      | array =>
        refine ensures_read (fun _ _ => trivial) fun a ha => ?_
        refine hone ?_ (by rw [hk]; rfl)
        unfold BtfType.refs
        rw [hk, deref_eq_ok.mp ha]
        rfl
      | fwd =>
        have hf : t.isFirm = true := by
          unfold BtfType.isFirm BtfType.isAnyEnum
          rw [hk]
          rfl
        have hdecl : t.declares = false := by
          unfold BtfType.declares BtfType.isTypedef
          rw [hk, hfirm hf hd, bne_self_eq_false, Bool.and_false, Bool.or_false]
        have hrefs : t.refs = [] := by
          unfold BtfType.refs
          rw [hk]
        exact (firm_gives (textual_fwdDef _ _ _) ht hf hrefs (.inr rfl) hinv hd).mono
          fun _ d' h => ⟨h.1, gave_of_leaf ht hdecl hrefs⟩
      | typedef =>
        exact (typedef_gives ih ht hk hinv hground hready hclear hd).mono
          fun _ d' h => ⟨h.1, h.2.2 cont⟩
      | struct | union =>
        exact nested_gives ih ht (t.isComposite_iff.mpr (by rw [hk]; simp)) hinv hground
          hready hclear hcont hd
      | funcProto => exact funcProto_gives ih ht hk hinv hground hready hclear hcont
      | _ =>
        refine ensures_pure ⟨hinv.refl, gave_of_leaf ht (t.declares_eq_false (by rw [hk]; rfl)) ?_⟩
        unfold BtfType.refs
        rw [hk]

-- ======== the top level

/-- The definition of a named struct or union. -/
theorem struct_gives (hemit : EmitsWell btf emit) (ht : btf.typeById id = some t)
    (hn : t.isNamedComposite = true) (hinv : EmitInv btf d)
    (hground : ∀ r ∈ t.refs, Ground btf r) (hready : ∀ r ∈ t.refs, Ready btf d r false)
    (hidle : ∀ y, d.emitState y ≠ .emitting) (hd : d.emitState id = .notEmitted) :
    Gives (do
      modify (·.setEmit id .emitting)
      emitNeeds btf emit id t 0
      emitStruct btf n id t 0) d fun _ d' =>
      EmitStep btf d d' ∧ d'.emitState id = .emitted := by
  obtain ⟨hc, hname⟩ := Bool.and_eq_true_iff.mp hn
  have hkind := t.isComposite_iff.mp hc
  have hne : id ≠ 0 := Btf.ne_zero_of_kind ht (by rcases hkind with hk | hk <;> rw [hk] <;> decide)
  have hthr : t.through true = false := by
    unfold BtfType.through
    rcases hkind with hk | hk
    · rw [hk]
    · rw [hk]
  have hnot : d.emitState id ≠ .emitted := by
    rw [hd]
    decide
  have hkeep : ∀ x, d.emitState x = .emitted → (d.setEmit id .emitting).emitState x = .emitted :=
    fun x => emitted_setEmit hnot
  have hclear : ∀ r, Clear btf (d.setEmit id .emitting) r := by
    intro r y u hy hu hopen
    rw [emitState_setEmit] at hy
    split at hy
    · next heq =>
        subst heq
        cases ht.symm.trans hu
        rw [hn] at hopen
        cases hopen
    · exact absurd hy (hidle y)
  refine ensures_modify ?_
  unfold emitNeeds emitStruct
  rw [if_pos (.inl rfl), if_neg (bne_iff_ne.mp hname), if_pos rfl]
  refine (refs_gives hemit (hinv.mark hnot (by decide)) hne fun i hi r hr => ?_).bind
    fun _ d₁ h₁ => (emitPiece_gives (textual_structDef (textual_typeDecl btf n) _ _ _)).bind
    fun _ d₂ h₂ => ensures_modify_last ?_
  · obtain ⟨m, hm, rfl⟩ := Option.map_eq_some_iff.mp (deref_eq_ok.mp hr)
    have hmem := t.mem_refs_member hc (mem_range.mp hi) hm
    refine ⟨hground _ hmem, Ready.mono (fun x hx => ?_) hkeep, hclear _⟩
    exact hready _ hmem x hx.closer
  obtain ⟨d₀, s, hnames, rfl⟩ := h₂
  have hid₁ : d₁.emitState id = .emitting :=
    (h₁.1.emitting id).mpr (by rw [emitState_setEmit, if_pos rfl])
  have hlast : ((d₀.print .structDef id s).setEmit id .emitted).emitState id = .emitted := by
    rw [emitState_setEmit, if_pos rfl]
  refine ⟨.around (touches_setEmit d id .emitting) h₁.1
    (((hnames.touches id).trans (touches_print d₀ _ id s)).trans (touches_setEmit _ id .emitted))
    ?_ hd (by rw [hlast]; decide), hlast⟩
  refine (h₁.1.inv.same hnames.sameEmits).define ht ?_ rfl (fun _ m x hx => ?_) (fun htd => ?_)
    (.inl hn)
  · rw [hnames.emit, hid₁]
    decide
  · obtain ⟨u, r, hu, hr, huses⟩ := hx
    cases ht.symm.trans hu
    obtain ⟨i, hi, m', hm', rfl⟩ := t.of_mem_refs_member hc hr
    have hgave := h₁.2 i (mem_range.mpr hi) m'.type (deref_ok (by rw [hm']; rfl))
    rw [hthr] at huses
    rcases hgave false ((hready _ hr).mono hkeep) m x huses with hg | ⟨hm, hx, -⟩
    · rw [hnames.out]
      exact .inl hg
    · exact .inr ⟨hm, hx, rfl⟩
  · rw [t.kind_of_isTypedef htd] at hkind
    rcases hkind with hk | hk
    · cases hk
    · cases hk

/-- At the top level the definition is printed. -/
theorem top_gives (ht : btf.typeById id = some t)
    (hkind : t.isNamedComposite = true ∨ t.isFirm = true ∨ t.isTypedef = true)
    (hinv : EmitInv btf d) (hground : ∀ r ∈ t.refs, Ground btf r)
    (hready : ∀ r ∈ t.refs, Ready btf d r (t.through true))
    (hidle : ∀ y, d.emitState y ≠ .emitting) :
    Gives (btfDumpEmitType btf n id 0) d fun _ d' =>
      EmitStep btf d d' ∧ d'.emitState id = .emitted := by
  cases n with
  | zero => trivial
  | succ n =>
    unfold btfDumpEmitType
    refine ensures_read (fun _ _ => trivial) fun u hu => ensures_get ?_
    cases ht.symm.trans (deref_eq_ok.mp hu)
    cases hd : d.emitState id with
    | emitted => exact ensures_pure ⟨hinv.refl, hd⟩
    | emitting => exact absurd hd (hidle id)
    | notEmitted =>
      cases hk : t.kind with
      | enum | enum64 =>
        unfold emitEnum
        rw [if_pos rfl]
        refine firm_gives (textual_enumDef _ _ _ _) ht ?_ ?_ (.inl rfl) hinv hd
        · unfold BtfType.isFirm BtfType.isAnyEnum
          rw [hk]
          rfl
        · unfold BtfType.refs
          rw [hk]
      | fwd =>
        refine firm_gives (textual_fwdDef _ _ _) ht ?_ ?_ (.inr rfl) hinv hd
        · unfold BtfType.isFirm BtfType.isAnyEnum
          rw [hk]
          rfl
        · unfold BtfType.refs
          rw [hk]
      | typedef =>
        refine (typedef_gives emit_gives ht hk hinv (ground_of_refs ht hground)
          (fun x hx => ?_) (fun y u hy => absurd hy (hidle y)) hd).mono
          fun _ d' h => ⟨h.1, h.2.1⟩
        rcases hx.cases ht with ⟨-, -, hm⟩ | ⟨-, r, hr, hx⟩
        · unfold BtfType.isFirm BtfType.isAnyEnum at hm
          rw [hk] at hm
          rcases hm with hm | hm
          · cases hm
          · cases hm
        · exact hready r hr x hx
      | struct | union =>
        have hn : t.isNamedComposite = true := by
          rcases hkind with hn | hf | htd
          · exact hn
          · unfold BtfType.isFirm BtfType.isAnyEnum at hf
            rw [hk] at hf
            cases hf
          · rw [t.kind_of_isTypedef htd] at hk
            cases hk
        refine struct_gives emit_gives ht hn hinv hground (fun r hr => ?_) hidle hd
        have h := hready r hr
        unfold BtfType.through at h
        rwa [hk] at h
      | _ =>
        have hdecl := t.kind_declares hkind
        rw [hk] at hdecl
        cases hdecl

end

end Libbpf
