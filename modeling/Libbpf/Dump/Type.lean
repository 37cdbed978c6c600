/-
Printing BTF as C: ordering and emitting definitions.

`btf_dump__dump_type` makes two passes. `btf_dump_order_type` walks from a
type to everything its definition needs and queues the definitions, those
needed first; its result says whether the link it followed is strong.
`btf_dump_emit_type` then prints each of them, with forward declarations for
what is only pointed at. Both walks are recursions without a bound of their
own, so they take a step bound here.

The source keeps the state of a pointer's ordering also when ordering what it
points to has failed (`finishing`), and a failed call leaves the states it
has set and loses the queue.
-/
import Libbpf.Dump.Decl

namespace Libbpf

open Lib

/-- `m`, and `f` on the state it leaves, however it ends. -/
def finishing {σ α : Type} (m : Run σ α) (f : σ → σ) : Run σ α := fun s =>
  match m s with
  | .ok a s' => .ok a (f s')
  | .error e s' => .error e (f s')

-- ======== ordering

/-- The types of the members. -/
def memberType (t : BtfType) (i : Nat) : Res Nat := deref ((t.member? i).map (·.type))

/-- The types of the parameters. -/
def paramType (t : BtfType) (i : Nat) : Res Nat := deref (t.paramType? i)

/-- The parameters of a FUNC_PROTO in `btf_dump_order_type`, with what is
known of the links so far. -/
def orderParams (order : Nat → Run BtfDump Bool) (t : BtfType) : List Nat → Bool → Run BtfDump Bool
  | [], isStrong => pure isStrong
  | i :: is, isStrong => do
    let type ← liftRes (paramType t i)
    let strong ← order type
    orderParams order t is (isStrong || strong)

/-- `btf_dump_order_type`: whether the link is strong. -/
def btfDumpOrderType (btf : Btf) : Nat → Nat → Bool → Run BtfDump Bool
  | 0, _, _ => throw .fuel
  | n + 1, id, throughPtr => do
    let t ← liftRes (deref (btf.typeById id))
    let d ← get
    match d.orderState id with
    | .ordered => pure true
    | .ordering =>
      if t.isComposite && throughPtr && t.nameOff != 0 then pure false
      else throw (.err (-ELOOP))
    | .notOrdered =>
      match t.kind with
      | .int | .float => do
        modify (·.setOrder id .ordered)
        pure false
      | .ptr =>
        finishing (btfDumpOrderType btf n t.type true) (·.setOrder id .ordered)
      | .array => do
        let a ← liftRes (deref t.array?)
        btfDumpOrderType btf n a.type false
      | .struct | .union =>
        if throughPtr && t.nameOff != 0 then pure false
        else do
          modify (·.setOrder id .ordering)
          each (fun i => do
            let type ← liftRes (memberType t i)
            let _ ← btfDumpOrderType btf n type false) (List.range t.vlen)
          modify fun d => if t.nameOff ≠ 0 then d.addEmitQueueId id else d
          modify (·.setOrder id .ordered)
          pure true
      | .enum | .enum64 | .fwd => do
        modify fun d =>
          if t.nameOff ≠ 0 ∨ (d.typeStates id).referenced = false then d.addEmitQueueId id
          else d
        modify (·.setOrder id .ordered)
        pure true
      | .typedef => do
        let isStrong ← btfDumpOrderType btf n t.type throughPtr
        if throughPtr && !isStrong then pure false
        else do
          modify (·.addEmitQueueId id)
          modify (·.setOrder id .ordered)
          pure true
      | .volatile | .const | .restrict | .typeTag =>
        btfDumpOrderType btf n t.type throughPtr
      | .funcProto => do
        let isStrong ← btfDumpOrderType btf n t.type throughPtr
        orderParams (fun type => btfDumpOrderType btf n type throughPtr) t
          (List.range t.vlen) isStrong
      | .func | .var | .datasec | .declTag | .locParam | .locProto | .locsec => do
        modify (·.setOrder id .ordered)
        pure false
      | .unkn | .other _ => throw (.err (-EINVAL))

-- ======== emitting

/-- `btf_dump_is_blacklisted`. -/
def btfDumpIsBlacklisted (btf : Btf) (t : BtfType) : Res Bool :=
  if t.nameOff = 0 then .ok false
  else do
    let name ← deref (btf.strByOffset t.nameOff)
    .ok (name.val == lit "__builtin_va_list")

/-- Print what `text` gives, and the end of the statement. -/
def emitPiece (piece : DumpPiece) (id : Nat) (text : Run BtfDump Bytes) : Run BtfDump Unit := do
  let s ← text
  modify (·.print piece id (s ++ lit ";\n\n"))

/-- Print a typedef, unless it is the compiler's own. -/
def emitTypedef (btf : Btf) (n id : Nat) (t : BtfType) : Run BtfDump Unit := do
  let blacklisted ← liftRes (btfDumpIsBlacklisted btf t)
  if blacklisted then pure ()
  else emitPiece .typedefDef id (btfDumpEmitTypedefDef btf n id t 0)

/-- The typedef of a type that is to be emitted, unless that has happened. -/
def emitTypedefOnce (btf : Btf) (n id : Nat) (t : BtfType) : Run BtfDump Unit := do
  let d ← get
  if (d.typeStates id).fwdEmitted then pure () else emitTypedef btf n id t

/-- A top-level enum. -/
def emitEnum (btf : Btf) (id : Nat) (t : BtfType) (contId : Nat) : Run BtfDump Unit :=
  if contId = 0 then emitPiece .enumDef id (btfDumpEmitEnumDef btf id t 0) else pure ()

/-- What the members of a struct or union need, or, where only its name is
going to be printed, its forward declaration; `emit` is `btf_dump_emit_type`. -/
def emitNeeds (btf : Btf) (emit : Nat → Nat → Run BtfDump Unit) (id : Nat) (t : BtfType)
    (contId : Nat) : Run BtfDump Unit :=
  if contId = 0 ∨ t.nameOff = 0 then
    each (fun i => do
      let type ← liftRes (memberType t i)
      emit type (if t.nameOff = 0 then contId else id)) (List.range t.vlen)
  else do
    let d ← get
    if (d.typeStates id).fwdEmitted ∨ id = contId then pure ()
    else do
      emitPiece .structFwd id (btfDumpEmitStructFwd btf id t)
      modify (·.setFwdEmitted id)

/-- The definition of a top-level struct or union. -/
def emitStruct (btf : Btf) (n id : Nat) (t : BtfType) (contId : Nat) : Run BtfDump Unit :=
  if contId = 0 then do
    emitPiece .structDef id (btfDumpEmitStructDef btf n (btfDumpEmitTypeDecl btf n) id t 0)
    modify (·.setEmit id .emitted)
  else modify (·.setEmit id .notEmitted)

/-- `btf_dump_emit_type` at a type that is being emitted. -/
def emitAgain (btf : Btf) (n id : Nat) (t : BtfType) (contId : Nat) : Run BtfDump Unit := do
  let d ← get
  if (d.typeStates id).fwdEmitted then pure ()
  else match t.kind with
    | .struct | .union =>
      if id = contId ∨ t.nameOff = 0 then pure ()
      else do
        emitPiece .structFwd id (btfDumpEmitStructFwd btf id t)
        modify (·.setFwdEmitted id)
    | .typedef => do
      emitTypedef btf n id t
      modify (·.setFwdEmitted id)
    | _ => pure ()

/-- `btf_dump_emit_type`. -/
def btfDumpEmitType (btf : Btf) : Nat → Nat → Nat → Run BtfDump Unit
  | 0, _, _ => throw .fuel
  | n + 1, id, contId => do
    let t ← liftRes (deref (btf.typeById id))
    let d ← get
    match d.emitState id with
    | .emitted => pure ()
    | .emitting => emitAgain btf n id t contId
    | .notEmitted =>
      match t.kind with
      | .int => do
        btfDumpEmitMissingAliases btf id
        modify (·.setEmit id .emitted)
      | .enum | .enum64 => do
        emitEnum btf id t contId
        modify (·.setEmit id .emitted)
      | .ptr | .volatile | .const | .restrict | .typeTag =>
        btfDumpEmitType btf n t.type contId
      | .array => do
        let a ← liftRes (deref t.array?)
        btfDumpEmitType btf n a.type contId
      | .fwd => do
        emitPiece .fwdDef id (btfDumpEmitFwdDef btf id t)
        modify (·.setEmit id .emitted)
      | .typedef => do
        modify (·.setEmit id .emitting)
        btfDumpEmitType btf n t.type id
        emitTypedefOnce btf n id t
        modify (·.setEmit id .emitted)
      | .struct | .union => do
        modify (·.setEmit id .emitting)
        emitNeeds btf (btfDumpEmitType btf n) id t contId
        emitStruct btf n id t contId
      | .funcProto => do
        btfDumpEmitType btf n t.type contId
        each (fun i => do
          let type ← liftRes (paramType t i)
          btfDumpEmitType btf n type contId) (List.range t.vlen)
      | _ => pure ()

-- ======== calls

/-- The two passes of `btf_dump__dump_type`. -/
def orderAndEmit (btf : Btf) (n id : Nat) : Run BtfDump Unit := do
  let _ ← btfDumpOrderType btf n id false
  let d ← get
  each (fun id => btfDumpEmitType btf n id 0) d.emitQueue

/-- `btf_dump__dump_type`. -/
def btfDumpDumpType (btf : Btf) (n id : Nat) : Run BtfDump Unit := do
  liftRes (failIf (btf.typeCnt ≤ id) EINVAL)
  modify fun d => { d with emitQueue := [] }
  orderAndEmit btf n id

/-- The options of `btf_dump__emit_type_decl`. -/
structure DumpDeclOpts where
  fieldName : Bytes
  indentLevel : Int
  stripMods : Bool

/-- `btf_dump__emit_type_decl`. -/
def btfDumpEmitDecl (btf : Btf) (n id : Nat) (opts : DumpDeclOpts) : Run BtfDump Unit := do
  modify fun d => { d with stripMods := opts.stripMods }
  let text ← btfDumpEmitTypeDecl btf n id opts.fieldName opts.indentLevel
  modify fun d => { d.print .decl id text with stripMods := false }

/-- A call on a dumper. -/
inductive DumpCall where
  | dumpType (id : Nat)
  | emitTypeDecl (id : Nat) (opts : DumpDeclOpts)

/-- The type a call is about. -/
def DumpCall.id : DumpCall → Nat
  | .dumpType id => id
  | .emitTypeDecl id _ => id

def DumpCall.run (btf : Btf) (n : Nat) : DumpCall → Run BtfDump Unit
  | .dumpType id => btfDumpDumpType btf n id
  | .emitTypeDecl id opts => btfDumpEmitDecl btf n id opts

/-- The dumper after some calls, whatever they returned. -/
def dumpCalls (btf : Btf) (n : Nat) (calls : List DumpCall) (d : BtfDump) : BtfDump :=
  calls.foldl (fun d c => after (c.run btf n d)) d

end Libbpf
