/-
What printing text leaves alone.

Putting the text of a declaration or a definition together gives out names
and changes nothing else (`Textual`): how far types have been ordered and
emitted, the queue and the output stay as they are. This holds of every
function between `btf_dump_resolve_name` and `btf_dump_emit_typedef_def`, for
every BTF and every step bound.
-/
import Libbpf.Dump.Type

namespace Libbpf

open Lib

/-- Only names were given out. -/
structure OnlyNames (d d' : BtfDump) : Prop where
  order : ∀ x, d'.orderState x = d.orderState x
  emit : ∀ x, d'.emitState x = d.emitState x
  fwd : ∀ x, (d'.typeStates x).fwdEmitted = (d.typeStates x).fwdEmitted
  referenced : ∀ x, (d'.typeStates x).referenced = (d.typeStates x).referenced
  tags : d'.declTags = d.declTags
  queue : d'.emitQueue = d.emitQueue
  strip : d'.stripMods = d.stripMods
  out : d'.out = d.out

theorem OnlyNames.refl (d : BtfDump) : OnlyNames d d :=
  ⟨fun _ => rfl, fun _ => rfl, fun _ => rfl, fun _ => rfl, rfl, rfl, rfl, rfl⟩

theorem OnlyNames.trans {a b c : BtfDump} (h : OnlyNames a b) (h' : OnlyNames b c) :
    OnlyNames a c where
  order x := (h'.order x).trans (h.order x)
  emit x := (h'.emit x).trans (h.emit x)
  fwd x := (h'.fwd x).trans (h.fwd x)
  referenced x := (h'.referenced x).trans (h.referenced x)
  tags := h'.tags.trans h.tags
  queue := h'.queue.trans h.queue
  strip := h'.strip.trans h.strip
  out := h'.out.trans h.out

/-- A computation that, if it returns, has only given out names. -/
def Textual {α : Type} (m : Run BtfDump α) : Prop :=
  ∀ d a d', m d = .ok a d' → OnlyNames d d'

section

variable {α β : Type}

theorem textual_pure (a : α) : Textual (pure a) := by
  intro d b d' h
  cases h
  exact .refl d

theorem textual_throw (e : Stop) : Textual (throw e : Run BtfDump α) := by
  intro d b d' h
  cases h

theorem textual_get : Textual (get : Run BtfDump BtfDump) := by
  intro d b d' h
  cases h
  exact .refl d

theorem textual_liftRes (r : Res α) : Textual (liftRes r) := by
  intro d b d' h
  obtain ⟨-, rfl⟩ := liftRes_eq_ok.mp h
  exact .refl _

theorem Textual.bind {m : Run BtfDump α} {k : α → Run BtfDump β} (hm : Textual m)
    (hk : ∀ a, Textual (k a)) : Textual (m >>= k) := by
  intro d b d' h
  obtain ⟨a, e, hma, hka⟩ := bind_eq_ok.mp h
  exact (hm d a e hma).trans (hk a e b d' hka)

theorem Textual.ite {c : Prop} [Decidable c] {m m' : Run BtfDump α} (hm : Textual m)
    (hm' : Textual m') : Textual (if c then m else m') := by
  split
  · exact hm
  · exact hm'

theorem textual_catEach {f : α → Run BtfDump Bytes} (hf : ∀ a, Textual (f a)) :
    ∀ l, Textual (catEach f l)
  | [] => textual_pure _
  | a :: l => (hf a).bind fun _ => (textual_catEach hf l).bind fun _ => textual_pure _

end

-- ======== names

theorem textual_nameDups (ident : Bool) (name : Bytes) : Textual (btfDumpNameDups ident name) := by
  intro d a d' h
  cases ident with
  | true =>
    cases h
    exact ⟨fun _ => rfl, fun _ => rfl, fun _ => rfl, fun _ => rfl, rfl, rfl, rfl, rfl⟩
  | false =>
    cases h
    exact ⟨fun _ => rfl, fun _ => rfl, fun _ => rfl, fun _ => rfl, rfl, rfl, rfl, rfl⟩

theorem textual_keepName (id : Nat) (name : Option Bytes) : Textual (keepName id name) := by
  intro d a d' h
  cases h
  -- the one state that changes keeps its other fields
  have haux : ∀ {α : Type} (f : DumpAux → α), (∀ a b, f { a with nameResolved := b } = f a) →
      ∀ x, f ((d.setAux id fun a => { a with nameResolved := true }).typeStates x)
        = f (d.typeStates x) := by
    intro α f hf x
    unfold BtfDump.setAux
    dsimp only
    split
    · exact hf _ _
    · rfl
  exact ⟨haux (·.orderState) fun _ _ => rfl, haux (·.emitState) fun _ _ => rfl,
    haux (·.fwdEmitted) fun _ _ => rfl, haux (·.referenced) fun _ _ => rfl,
    rfl, rfl, rfl, rfl⟩

theorem textual_resolveName (btf : Btf) (ident : Bool) (id : Nat) :
    Textual (btfDumpResolveName btf ident id) := by
  refine (textual_liftRes _).bind fun t => .ite (textual_pure _) ?_
  refine (textual_liftRes _).bind fun orig => textual_get.bind fun d => .ite (textual_pure _) ?_
  refine .ite ((textual_keepName _ _).bind fun _ => textual_pure _) ?_
  refine (textual_nameDups _ _).bind fun dup => (textual_keepName _ _).bind fun _ => ?_
  exact textual_get.bind fun _ => textual_pure _

-- ======== declarations

section

variable (btf : Btf)

theorem textual_structFwd (id : Nat) (t : BtfType) : Textual (btfDumpEmitStructFwd btf id t) :=
  (textual_resolveName _ _ _).bind fun _ => textual_pure _

theorem textual_enumFwd (id : Nat) : Textual (btfDumpEmitEnumFwd btf id) :=
  (textual_resolveName _ _ _).bind fun _ => textual_pure _

theorem textual_fwdDef (id : Nat) (t : BtfType) : Textual (btfDumpEmitFwdDef btf id t) :=
  (textual_resolveName _ _ _).bind fun _ => textual_pure _

theorem textual_declTags (id : Nat) (compIdx : Int) : Textual (btfDumpEmitDeclTags btf id compIdx) :=
  textual_get.bind fun _ => textual_liftRes _

theorem textual_enumVal (t : BtfType) (lvl : Int) (i : Nat) :
    Textual (btfDumpEmitEnumVal btf t lvl i) := by
  refine (textual_liftRes _).bind fun _ => (textual_liftRes _).bind fun _ => ?_
  exact (textual_liftRes _).bind fun _ => (textual_nameDups _ _).bind fun _ => textual_pure _

theorem textual_enumDef (id : Nat) (t : BtfType) (lvl : Int) :
    Textual (btfDumpEmitEnumDef btf id t lvl) := by
  refine (textual_resolveName _ _ _).bind fun name => .ite (textual_pure _) ?_
  exact (textual_catEach (textual_enumVal btf t lvl) _).bind fun _ => textual_pure _

variable {btf} {n : Nat} {decl : Nat → Bytes → Int → Run BtfDump Bytes}
  (hdecl : ∀ id fname lvl, Textual (decl id fname lvl))

include hdecl

theorem textual_members (id : Nat) (t : BtfType) (packed : Bool) (lvl : Int) :
    ∀ is off prev, Textual (emitMembers btf n decl id t packed lvl is off prev)
  | [], _, _ => textual_pure _
  | i :: is, off, prev => by
    refine (textual_liftRes _).bind fun m => (textual_liftRes _).bind fun fname => ?_
    refine (textual_liftRes _).bind fun mAlign => (textual_liftRes _).bind fun pads => ?_
    refine (hdecl _ _ _).bind fun text => (textual_liftRes _).bind fun width => ?_
    refine (textual_declTags _ _ _).bind fun tags => ?_
    exact (textual_members id t packed lvl is _ _).bind fun _ => textual_pure _

theorem textual_structDef (id : Nat) (t : BtfType) (lvl : Int) :
    Textual (btfDumpEmitStructDef btf n decl id t lvl) := by
  refine (textual_liftRes _).bind fun align => (textual_liftRes _).bind fun packed => ?_
  refine (textual_structFwd _ _ _).bind fun head => ?_
  refine (textual_members hdecl _ _ _ _ _ _ _).bind fun body => (textual_liftRes _).bind fun pads => ?_
  exact (textual_declTags _ _ _).bind fun tags => textual_pure _

theorem textual_params (t : BtfType) (lvl : Int) : Textual (emitParamList btf decl t lvl) := by
  refine .ite (textual_pure _) ((textual_catEach (fun i => ?_) _).bind fun _ => textual_pure _)
  refine (textual_liftRes _).bind fun type => .ite (textual_pure _) ?_
  refine (textual_liftRes _).bind fun off => (textual_liftRes _).bind fun name => ?_
  exact (hdecl _ _ _).bind fun _ => textual_pure _

theorem textual_base (id : Nat) (t : BtfType) (lvl : Int) :
    Textual (emitBase btf n decl id t lvl) := by
  unfold emitBase
  split
  · exact (textual_liftRes _).bind fun _ => textual_pure _
  · exact (textual_liftRes _).bind fun _ => textual_pure _
  · exact .ite (textual_structDef hdecl _ _ _) (textual_structFwd _ _ _)
  · exact .ite (textual_structDef hdecl _ _ _) (textual_structFwd _ _ _)
  · exact .ite (textual_enumDef _ _ _ _) (textual_enumFwd _ _)
  · exact .ite (textual_enumDef _ _ _ _) (textual_enumFwd _ _)
  · exact textual_fwdDef _ _ _
  · exact textual_liftRes _
  · exact textual_resolveName _ _ _

theorem textual_chain (fname : Bytes) (lvl : Int) : ∀ k stack lastWasPtr,
    Textual (btfDumpEmitTypeChain btf n decl fname lvl k stack lastWasPtr)
  | 0, [], _ => textual_pure _
  | 0, _ :: _, _ => textual_pure _
  | _ + 1, [], _ => textual_pure _
  | k + 1, id :: stack, lastWasPtr => by
    have ih := textual_chain fname lvl k
    unfold btfDumpEmitTypeChain
    refine .ite ?_ ((textual_liftRes _).bind fun t => ?_)
    · refine (textual_liftRes _).bind fun mods => ?_
      exact (ih _ _).bind fun _ => textual_pure _
    · split
      case h_10 | h_11 | h_12 | h_13 => exact (ih _ _).bind fun _ => textual_pure _
      case h_14 =>
        refine (textual_liftRes _).bind fun a => (textual_liftRes _).bind fun stack => ?_
        split
        · exact textual_pure _
        · refine (textual_liftRes _).bind fun nextT => ?_
          exact (ih _ _).bind fun _ => textual_pure _
      case h_15 =>
        refine (textual_liftRes _).bind fun stack => ?_
        split
        · exact (textual_params hdecl _ _).bind fun _ => textual_pure _
        · refine (ih _ _).bind fun inner => ?_
          exact (textual_params hdecl _ _).bind fun _ => textual_pure _
      case h_16 => exact textual_pure _
      all_goals
        refine (textual_liftRes _).bind fun mods => (textual_base hdecl _ _ _).bind fun text => ?_
        exact (ih _ _).bind fun _ => textual_pure _

end

theorem textual_typeDecl (btf : Btf) : ∀ n id fname lvl,
    Textual (btfDumpEmitTypeDecl btf n id fname lvl)
  | 0, _, _, _ => textual_throw _
  | n + 1, _, _, _ => by
    refine textual_get.bind fun d => (textual_liftRes _).bind fun stack => ?_
    exact textual_chain (textual_typeDecl btf n) _ _ _ _ _

theorem textual_typedefDef (btf : Btf) (n id : Nat) (t : BtfType) (lvl : Int) :
    Textual (btfDumpEmitTypedefDef btf n id t lvl) := by
  refine (textual_resolveName _ _ _).bind fun name => .ite (textual_pure _) ?_
  refine (textual_typeDecl _ _ _ _ _).bind fun text => ?_
  exact (textual_declTags _ _ _).bind fun _ => textual_pure _

end Libbpf
