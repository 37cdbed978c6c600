/-
Printing BTF as C: the dumper.

A `struct btf_dump` remembers for every type how far it has been ordered and
emitted, which names it gave out, and which types are waiting to be emitted.
It outlives a call: what one call of `btf_dump__dump_type` leaves behind is
what the next one starts from.

Text is bytes. What the source prints piece by piece comes back here as one
item per definition or declaration, in the order of printing (`out`). The BTF
does not change while a dumper looks at it. The two hashmaps of names count
occurrences, so they are functions from names; allocation succeeds.
`skip_anon_defs`, which only the printing of data sets, is off.
-/
import Libbpf.Core.Type

namespace Libbpf

open Lib

def ELOOP : Int := 40

/-- `enum btf_dump_type_order_state`. -/
inductive DumpOrder where
  | notOrdered
  | ordering
  | ordered
deriving DecidableEq, Repr

/-- `enum btf_dump_type_emit_state`. -/
inductive DumpEmit where
  | notEmitted
  | emitting
  | emitted
deriving DecidableEq, Repr

/-- `struct btf_dump_type_aux_state`. -/
structure DumpAux where
  orderState : DumpOrder
  emitState : DumpEmit
  fwdEmitted : Bool
  nameResolved : Bool
  referenced : Bool
deriving DecidableEq, Repr

/-- What a piece of output is. -/
inductive DumpPiece where
  /-- The typedef of a compiler's internal integer type. -/
  | alias
  | enumDef
  /-- The declaration of a FWD. -/
  | fwdDef
  | typedefDef
  /-- The forward declaration of a struct or union. -/
  | structFwd
  | structDef
  /-- What `btf_dump__emit_type_decl` prints. -/
  | decl
deriving DecidableEq, Repr

/-- A piece of output. -/
structure DumpItem where
  piece : DumpPiece
  id : Nat
  text : Bytes
deriving DecidableEq, Repr

/-- `struct btf_dump`, without the BTF. -/
structure BtfDump where
  typeStates : Nat → DumpAux
  cachedNames : Nat → Option Bytes
  typeNames : Bytes → Nat
  identNames : Bytes → Nat
  /-- Target and tag, in this order. -/
  declTags : List (Nat × Nat)
  emitQueue : List Nat
  stripMods : Bool
  out : List DumpItem

/-- A C string literal. -/
def lit (s : String) : Bytes := s.toUTF8.toList

/-- `%d`. -/
def decText (i : Int) : Bytes := lit (toString i)

/-- An `int` after arithmetic, which wraps around. -/
def i32 (x : Int) : Int := x.bmod (2 ^ 32)

/-- `pfx`: the indentation of a level. -/
def pfx (lvl : Int) : Bytes :=
  List.replicate (if lvl < 0 ∨ 13 ≤ lvl then 13 else lvl.toNat) 9

namespace BtfDump

/-- The dumper with the state of a type changed. -/
def setAux (d : BtfDump) (id : Nat) (f : DumpAux → DumpAux) : BtfDump :=
  { d with typeStates := fun x => if x = id then f (d.typeStates x) else d.typeStates x }

/-- `tstate->order_state`. -/
def orderState (d : BtfDump) (id : Nat) : DumpOrder := (d.typeStates id).orderState

/-- `tstate->emit_state`. -/
def emitState (d : BtfDump) (id : Nat) : DumpEmit := (d.typeStates id).emitState

def setOrder (d : BtfDump) (id : Nat) (o : DumpOrder) : BtfDump :=
  d.setAux id fun a => { a with orderState := o }

def setEmit (d : BtfDump) (id : Nat) (e : DumpEmit) : BtfDump :=
  d.setAux id fun a => { a with emitState := e }

def setFwdEmitted (d : BtfDump) (id : Nat) : BtfDump :=
  d.setAux id fun a => { a with fwdEmitted := true }

/-- `btf_dump_add_emit_queue_id`. -/
def addEmitQueueId (d : BtfDump) (id : Nat) : BtfDump :=
  { d with emitQueue := d.emitQueue ++ [id] }

/-- Print a piece. -/
def print (d : BtfDump) (piece : DumpPiece) (id : Nat) (text : Bytes) : BtfDump :=
  { d with out := d.out ++ [⟨piece, id, text⟩] }

end BtfDump

-- ======== making

/-- The types whose state `btf_dump_mark_referenced` sets. -/
def markedTypes (t : BtfType) : Res (List Nat) :=
  match t.kind with
  | .int | .enum | .enum64 | .fwd | .float | .locParam | .locProto | .locsec => .ok []
  | .volatile | .const | .restrict | .ptr | .typedef | .func | .var | .declTag
  | .typeTag => .ok [t.type]
  | .array => do
    let a ← deref t.array?
    .ok [a.indexType, a.type]
  | .struct | .union => (List.range t.vlen).mapM fun i => deref ((t.member? i).map (·.type))
  | .funcProto => (List.range t.vlen).mapM fun i => deref (t.paramType? i)
  | .datasec => (List.range t.vlen).mapM fun i => deref t.rest[3 * i]?
  | .unkn | .other _ => fail EINVAL

/-- `btf_dump_mark_referenced`: the states lie in memory for the types there
are. -/
def btfDumpMarkReferenced (btf : Btf) (t : BtfType) (d : BtfDump) : Res BtfDump := do
  let ids ← markedTypes t
  if ids.any fun id => decide (btf.typeCnt ≤ id) then .error .fault
  else .ok (ids.foldl (fun d id => d.setAux id fun a => { a with referenced := true }) d)

/-- `btf_dump_cmp_decl_tags`, not above. -/
def declTagLe (x y : Nat × Nat) : Bool := x.1 < y.1 || (x.1 == y.1 && x.2 ≤ y.2)

/-- The loop of `btf_dump_resize` over the types from `i` on. -/
def btfDumpResizeFrom (btf : Btf) : List Nat → BtfDump → Res BtfDump
  | [], d => .ok { d with declTags := d.declTags.mergeSort declTagLe }
  | i :: ids, d => do
    let t ← deref (btf.typeById i)
    let d ← btfDumpMarkReferenced btf t d
    btfDumpResizeFrom btf ids
      (if t.kind == .declTag then { d with declTags := d.declTags ++ [(t.type, i)] } else d)

/-- The states before any type was looked at: `void` needs no definition. -/
def DumpAux.start (id : Nat) : DumpAux :=
  if id = 0 then ⟨.ordered, .emitted, false, false, false⟩
  else ⟨.notOrdered, .notEmitted, false, false, false⟩

/-- `btf_dump__new`. -/
def btfDumpNew (btf : Btf) : Res BtfDump :=
  btfDumpResizeFrom btf (List.range' 1 (btf.typeCnt - 1))
    ⟨DumpAux.start, fun _ => none, fun _ => 0, fun _ => 0, [], [], false, []⟩

-- ======== names

/-- One more occurrence of a name. -/
def countName (names : Bytes → Nat) (name : Bytes) : Bytes → Nat :=
  fun x => if x = name then names x + 1 else names x

/-- `btf_dump_name_dups`, in the names of types or of identifiers. -/
def btfDumpNameDups (ident : Bool) (name : Bytes) : Run BtfDump Nat := fun d =>
  if ident then
    .ok (d.identNames name + 1) { d with identNames := countName d.identNames name }
  else
    .ok (d.typeNames name + 1) { d with typeNames := countName d.typeNames name }

/-- Keep the name a type got. -/
def keepName (id : Nat) (name : Option Bytes) : Run BtfDump Unit :=
  modify fun d =>
    { d.setAux id fun a => { a with nameResolved := true } with
      cachedNames := fun x => if x = id then name.or (d.cachedNames x) else d.cachedNames x }

/-- The name of the `dup`-th type of name `orig`, if it is not the first. -/
def dupName (orig : Bytes) (dup : Nat) : Option Bytes :=
  if dup > 1 then some ((orig ++ lit "___" ++ decText dup).take 255) else none

/-- `btf_dump_resolve_name` of a named type. -/
def resolveNamed (t : BtfType) (ident : Bool) (id : Nat) (orig : Bytes) : Run BtfDump Bytes := do
  let d ← get
  if (d.typeStates id).nameResolved then pure ((d.cachedNames id).getD orig)
  else if t.kind == .fwd || (t.kind == .enum && t.vlen == 0) then do
    keepName id none
    pure orig
  else do
    let dup ← btfDumpNameDups ident orig
    keepName id (dupName orig dup)
    let d ← get
    pure ((d.cachedNames id).getD orig)

/-- `btf_dump_resolve_name`. -/
def btfDumpResolveName (btf : Btf) (ident : Bool) (id : Nat) : Run BtfDump Bytes := do
  let t ← liftRes (deref (btf.typeById id))
  if t.nameOff = 0 then pure []
  else do
    let orig ← liftRes (deref (btf.strByOffset t.nameOff))
    resolveNamed t ident id orig.val

/-- `btf_dump_type_name`. -/
def btfDumpTypeName (btf : Btf) (id : Nat) : Run BtfDump Bytes :=
  btfDumpResolveName btf false id

/-- `btf_dump_ident_name`. -/
def btfDumpIdentName (btf : Btf) (id : Nat) : Run BtfDump Bytes :=
  btfDumpResolveName btf true id

end Libbpf
