/-
Printing BTF as C: declarations and the definitions inside them.

A declaration is printed from a chain of types, from the outermost one down
to the first that has a name or a body. The chain is a stack; the last type
found is printed first. An unnamed struct or union is printed in place, with
the declarations of its members, and so is the parameter list of a function.
`btf_dump_emit_type_decl` is the one recursive function here: it takes a step
bound, and the other functions of the cycle take it as an argument.

`int` arithmetic wraps around. The padding of `btf_dump_emit_bit_padding` is
computed first and printed then, and a division by an alignment of 0 is kept
apart.
-/
import Libbpf.Dump.State

namespace Libbpf

open Lib

/-- The texts of a loop, one after the other. -/
def catEach {σ α : Type} (f : α → Run σ Bytes) : List α → Run σ Bytes
  | [] => pure []
  | a :: l => do
    let x ← f a
    let y ← catEach f l
    pure (x ++ y)

-- ======== alignment

/-- The members of a composite in `btf__align_of`, with the largest alignment
so far. -/
def alignMembers (align : Nat → Res Nat) (t : BtfType) : List Nat → Nat → Res Nat
  | [], maxAlign => .ok (if t.size % maxAlign ≠ 0 then 1 else maxAlign)
  | i :: is, maxAlign => do
    let m ← deref (t.member? i)
    let a ← align m.type
    if a = 0 then .ok 0
    else if btfMemberBitfieldSize t m = 0 ∧ m.offset % (8 * a) ≠ 0 then .ok 1
    else alignMembers align t is (max maxAlign a)

/-- `btf__align_of`. -/
def btfAlignOf (btf : Btf) : Nat → Nat → Res Nat
  | 0, _ => .error .fuel
  | n + 1, id => do
    let t ← deref (btf.typeById id)
    match t.kind with
    | .int | .enum | .enum64 | .float => .ok (min (btfPtrSz btf) t.size)
    | .ptr => .ok (btfPtrSz btf)
    | .typedef | .volatile | .const | .restrict | .typeTag => btfAlignOf btf n t.type
    | .array => do
      let a ← deref t.array?
      btfAlignOf btf n a.type
    | .struct | .union => alignMembers (btfAlignOf btf n) t (List.range t.vlen) 1
    | _ => .ok 0

/-- The loop of `btf_is_struct_packed`. -/
def packedMembers (align : Nat → Res Nat) (t : BtfType) : List Nat → Nat → Res Bool
  | [], maxAlign => .ok (t.size % maxAlign != 0)
  | i :: is, maxAlign => do
    let m ← deref (t.member? i)
    let a ← align m.type
    if a ≠ 0 ∧ btfMemberBitfieldSize t m = 0 ∧ m.offset % (8 * a) ≠ 0 then .ok true
    else packedMembers align t is (max a maxAlign)

/-- `btf_is_struct_packed`. -/
def btfIsStructPacked (btf : Btf) (n : Nat) (t : BtfType) : Res Bool :=
  packedMembers (btfAlignOf btf n) t (List.range t.vlen) 1

-- ======== padding

/-- The types padding is made of, largest first. -/
def padTypes (ptrSz : Nat) : List (String × Int) :=
  [("long", ptrSz * 8), ("int", 32), ("short", 16), ("char", 8)]

/-- `roundup`. -/
def roundupInt (x y : Int) : Int := i32 (i32 ((i32 (x + i32 (y - 1))).tdiv y) * y)

/-- The first loop of `btf_dump_emit_bit_padding`. -/
def pickPad (curOff nextOff : Int) (ptrSz : Nat) : String × Int :=
  ((padTypes ptrSz).find? fun p => decide (roundupInt curOff p.2 ≤ nextOff)).getD ("char", 8)

/-- The second loop of `btf_dump_emit_bit_padding`, with the turns it may take. -/
def fillPads (ptrSz : Nat) : Nat → Int → Int → String × Int → Res (List (String × Int))
  | 0, _, _, _ => .error .fuel
  | n + 1, curOff, nextOff, pad =>
    if curOff = nextOff then .ok []
    else
      let bits := min (i32 (nextOff - curOff)) pad.2
      if bits = pad.2 then do
        let pads ← fillPads ptrSz n (i32 (curOff + bits)) nextOff pad
        .ok (pad :: pads)
      else
        match (padTypes ptrSz).reverse.find? fun p => decide (bits ≤ p.2) with
        | some p => do
          let pads ← fillPads ptrSz n (i32 (curOff + bits)) nextOff p
          .ok ((p.1, bits) :: pads)
        | none => .error .fuel

/-- Whether the alignment has to be forced by a padding of its own. The test
of the next field's alignment divides by it. -/
def needsAlign (curOff newOff nextOff : Int) (nextAlign : Nat) (inBitfield : Bool) : Res Bool :=
  if inBitfield then .ok true
  else if newOff = nextOff then
    if nextAlign = 0 then .error .divZero
    else .ok (roundupInt curOff (nextAlign * 8) != newOff)
  else .ok (decide (i32 (nextOff - newOff) ≤ i32 (newOff - curOff)))

/-- The padding of `btf_dump_emit_bit_padding`. -/
def bitPads (ptrSz : Nat) (curOff nextOff : Int) (nextAlign : Nat) (inBitfield : Bool) :
    Res (List (String × Int)) :=
  if curOff ≥ nextOff then .ok []
  else
    let pad := pickPad curOff nextOff ptrSz
    let newOff := roundupInt curOff pad.2
    let turns := fun cur : Int => (i32 (nextOff - cur)).toNat + 2
    if newOff > curOff ∧ newOff ≤ nextOff then do
      let force ← needsAlign curOff newOff nextOff nextAlign inBitfield
      let pads ← fillPads ptrSz (turns newOff) newOff nextOff pad
      .ok (if force then
        (pad.1, if inBitfield then i32 (newOff - curOff) else 0) :: pads else pads)
    else fillPads ptrSz (turns curOff) curOff nextOff pad

/-- `btf_dump_emit_bit_padding`. -/
def btfDumpEmitBitPadding (ptrSz : Nat) (curOff nextOff : Int) (nextAlign : Nat)
    (inBitfield : Bool) (lvl : Int) : Res Bytes := do
  let pads ← bitPads ptrSz curOff nextOff nextAlign inBitfield
  .ok (pads.flatMap fun p => lit "\n" ++ pfx lvl ++ lit p.1 ++ lit ": " ++ decText p.2 ++ lit ";")

-- ======== small pieces

/-- `btf_dump_emit_struct_fwd`. -/
def btfDumpEmitStructFwd (btf : Btf) (id : Nat) (t : BtfType) : Run BtfDump Bytes := do
  let name ← btfDumpTypeName btf id
  pure (lit (if t.kind == .struct then "struct" else "union")
    ++ (if t.nameOff ≠ 0 then lit " " else []) ++ name)

/-- `btf_dump_emit_decl_tag`. -/
def btfDumpEmitDeclTag (btf : Btf) (t : BtfType) : Res Bytes := do
  let name ← deref (btf.strByOffset t.nameOff)
  .ok (if t.kflag then lit " __attribute__((" ++ name.val ++ lit "))"
    else lit " __attribute__((btf_decl_tag(\"" ++ name.val ++ lit "\")))")

/-- The tags of one component among those of a type. -/
def declTagTexts (btf : Btf) (compIdx : Int) : List Nat → Res Bytes
  | [] => .ok []
  | tag :: tags => do
    let t ← deref (btf.typeById tag)
    let idx : Nat ← deref t.rest[0]?
    let rest ← declTagTexts btf compIdx tags
    if i32 idx = compIdx then do
      let text ← btfDumpEmitDeclTag btf t
      .ok (text ++ rest)
    else .ok rest

/-- `btf_dump_emit_decl_tags`: the binary search finds the first tag whose
target is not below `id`. -/
def btfDumpEmitDeclTags (btf : Btf) (id : Nat) (compIdx : Int) : Run BtfDump Bytes := do
  let d ← get
  liftRes (declTagTexts btf compIdx
    (((d.declTags.dropWhile fun x => decide (x.1 < id)).takeWhile fun x => x.1 == id).map (·.2)))

/-- `missing_base_types`. -/
def missingBaseTypes : List (String × String) :=
  [("__Poly8_t", "unsigned char"), ("__Poly16_t", "unsigned short"),
    ("__Poly64_t", "unsigned long long"), ("__Poly128_t", "unsigned __int128")]

/-- `btf_dump_emit_missing_aliases`. -/
def btfDumpEmitMissingAliases (btf : Btf) (id : Nat) : Run BtfDump Unit := do
  let name ← btfDumpTypeName btf id
  match missingBaseTypes.find? fun p => lit p.1 == name with
  | some p =>
    modify (·.print .alias id (lit "typedef " ++ lit p.2 ++ lit " " ++ name ++ lit ";\n\n"))
  | none => pure ()

/-- `btf_dump_emit_enum_fwd`. -/
def btfDumpEmitEnumFwd (btf : Btf) (id : Nat) : Run BtfDump Bytes := do
  let name ← btfDumpTypeName btf id
  pure (lit "enum " ++ name)

/-- The value of an enumerator as it is printed. -/
def enumValText (t : BtfType) (v : Nat) : Bytes :=
  if t.kind == .enum then
    decText (if t.kflag then (v : Int).bmod (2 ^ 64) else (v % 2 ^ 32 : Nat))
  else if t.kflag then decText ((v : Int).bmod (2 ^ 64)) ++ lit "LL"
  else decText v ++ lit "ULL"

/-- One turn of `btf_dump_emit_enum32_val` and `btf_dump_emit_enum64_val`. -/
def btfDumpEmitEnumVal (btf : Btf) (t : BtfType) (lvl : Int) (i : Nat) : Run BtfDump Bytes := do
  let off ← liftRes (deref (btfEnumNameOff? t i))
  let v ← liftRes (deref (btfEnumValue? t i))
  let name ← liftRes (deref (btf.strByOffset off))
  let dup ← btfDumpNameDups true name.val
  pure (lit "\n" ++ pfx (i32 (lvl + 1)) ++ name.val
    ++ (if dup > 1 then lit "___" ++ decText dup else []) ++ lit " = " ++ enumValText t v
    ++ lit ",")

/-- The attribute for an enum of an unusual size. -/
def enumMode (btf : Btf) (t : BtfType) : Bytes :=
  if t.size = 1 then lit " __attribute__((mode(byte)))"
  else if t.size = 8 ∧ btfPtrSz btf = 8 then
    if t.kind == .enum || (List.range t.vlen).all fun i => t.rest.getD (3 * i + 2) 0 == 0 then
      lit " __attribute__((mode(word)))"
    else []
  else []

/-- `btf_dump_emit_enum_def`. -/
def btfDumpEmitEnumDef (btf : Btf) (id : Nat) (t : BtfType) (lvl : Int) : Run BtfDump Bytes := do
  let name ← btfDumpTypeName btf id
  let head := lit "enum" ++ (if t.nameOff ≠ 0 then lit " " else []) ++ name
  if t.vlen = 0 then pure head
  else do
    let vals ← catEach (btfDumpEmitEnumVal btf t lvl) (List.range t.vlen)
    pure (head ++ lit " \x7b" ++ vals ++ lit "\n" ++ pfx lvl ++ lit "\x7d" ++ enumMode btf t)

/-- `btf_dump_emit_fwd_def`. -/
def btfDumpEmitFwdDef (btf : Btf) (id : Nat) (t : BtfType) : Run BtfDump Bytes := do
  let name ← btfDumpTypeName btf id
  pure (lit (if t.kflag then "union " else "struct ") ++ name)

-- ======== structs

/-- How wide a member is printed, and what follows the bits before the next:
its text, the offset after it, and whether it is a bitfield. -/
def memberEnd (btf : Btf) (t : BtfType) (m : BtfMember) : Res (Bytes × Int × Bool) :=
  let mSz := btfMemberBitfieldSize t m
  let mOff := i32 (btfMemberBitOffset t m)
  if mSz ≠ 0 then .ok (lit ": " ++ decText mSz, i32 (mOff + mSz), true)
  else
    match btfResolveSize btf m.type with
    | .ok sz => .ok ([], i32 (mOff + i32 (i32 sz * 8)), false)
    | .error (.err _) => .ok ([], mOff, false)
    | .error e => .error e

/-- The members of `btf_dump_emit_struct_def`, with the offset reached. -/
def emitMembers (btf : Btf) (n : Nat) (decl : Nat → Bytes → Int → Run BtfDump Bytes) (id : Nat)
    (t : BtfType) (packed : Bool) (lvl : Int) : List Nat → Int → Bool → Run BtfDump (Bytes × Int)
  | [], off, _ => pure ([], off)
  | i :: is, off, prevBitfield => do
    let m ← liftRes (deref (t.member? i))
    let fname ← liftRes (deref (btf.strByOffset m.nameOff))
    let mAlign ← liftRes (if packed then .ok 1 else btfAlignOf btf n m.type)
    let pads ← liftRes (btfDumpEmitBitPadding (btfPtrSz btf) off (i32 (btfMemberBitOffset t m))
      mAlign (prevBitfield && btfMemberBitfieldSize t m != 0) (i32 (lvl + 1)))
    let text ← decl m.type fname.val (i32 (lvl + 1))
    let (width, off, bitfield) ← liftRes (memberEnd btf t m)
    let tags ← btfDumpEmitDeclTags btf id i
    let (rest, last) ← emitMembers btf n decl id t packed lvl is off bitfield
    pure (pads ++ lit "\n" ++ pfx (i32 (lvl + 1)) ++ text ++ width ++ tags ++ lit ";" ++ rest, last)

/-- `btf_dump_emit_struct_def`; `decl` is `btf_dump_emit_type_decl`. -/
def btfDumpEmitStructDef (btf : Btf) (n : Nat) (decl : Nat → Bytes → Int → Run BtfDump Bytes)
    (id : Nat) (t : BtfType) (lvl : Int) : Run BtfDump Bytes := do
  let align ← liftRes (btfAlignOf btf n id)
  let packed ← liftRes (if t.kind == .struct then btfIsStructPacked btf n t else .ok false)
  let head ← btfDumpEmitStructFwd btf id t
  let (body, off) ← emitMembers btf n decl id t packed lvl (List.range t.vlen) 0 false
  let pads ← liftRes (if t.kind == .struct then
    btfDumpEmitBitPadding (btfPtrSz btf) off (i32 (t.size * 8)) align false (i32 (lvl + 1))
    else .ok [])
  let tags ← btfDumpEmitDeclTags btf id (-1)
  pure (head ++ lit " \x7b" ++ body ++ pads
    ++ (if t.vlen ≠ 0 ∨ t.size ≠ 0 then lit "\n" ++ pfx lvl else []) ++ lit "\x7d"
    ++ (if packed then lit " __attribute__((packed))" else []) ++ tags)

-- ======== chains

/-- `btf_dump_emit_mods`: the text, and the stack that is left. -/
def btfDumpEmitMods (btf : Btf) : List Nat → Res (Bytes × List Nat)
  | [] => .ok ([], [])
  | id :: stack => do
    let t ← deref (btf.typeById id)
    let word := match t.kind with
      | .volatile => some (lit "volatile ")
      | .const => some (lit "const ")
      | .restrict => some (lit "restrict ")
      | _ => none
    match word with
    | some w => do
      let (text, rest) ← btfDumpEmitMods btf stack
      .ok (w ++ text, rest)
    | none => .ok ([], id :: stack)

/-- `btf_dump_drop_mods`: the stack that is left. -/
def btfDumpDropMods (btf : Btf) : List Nat → Res (List Nat)
  | [] => .ok []
  | id :: stack => do
    let t ← deref (btf.typeById id)
    if t.isMod then btfDumpDropMods btf stack else .ok (id :: stack)

/-- `btf_dump_emit_name`. -/
def btfDumpEmitName (name : Bytes) (lastWasPtr : Bool) : Bytes :=
  (if !name.isEmpty && !lastWasPtr then lit " " else []) ++ name

/-- The parameters of a FUNC_PROTO from number `i` on. -/
def emitParams (btf : Btf) (decl : Nat → Bytes → Int → Run BtfDump Bytes) (t : BtfType) (lvl : Int)
    (i : Nat) : Run BtfDump Bytes := do
  let type ← liftRes (deref (t.paramType? i))
  let comma := if i > 0 then lit ", " else []
  if i + 1 = t.vlen ∧ type = 0 then pure (comma ++ lit "...")
  else do
    let off ← liftRes (deref t.rest[2 * i]?)
    let name ← liftRes (deref (btf.strByOffset off))
    let text ← decl type name.val lvl
    pure (comma ++ text)

/-- The parameter list of a FUNC_PROTO. -/
def emitParamList (btf : Btf) (decl : Nat → Bytes → Int → Run BtfDump Bytes) (t : BtfType)
    (lvl : Int) : Run BtfDump Bytes :=
  if t.vlen = 0 ∨ t.vlen = 1 ∧ t.paramType? 0 = some 0 then pure (lit "(void)")
  else do
    let params ← catEach (emitParams btf decl t lvl) (List.range t.vlen)
    pure (lit "(" ++ params ++ lit ")")

/-- The text of a TYPE_TAG. -/
def typeTagText (btf : Btf) (t : BtfType) : Res Bytes := do
  let name ← deref (btf.strByOffset t.nameOff)
  .ok (if t.kflag then lit " __attribute__((" ++ name.val ++ lit "))"
    else if name.val == lit "arena" then
      lit " __attribute__((address_space(1))) __attribute__((btf_type_tag(\"arena\")))"
    else lit " __attribute__((btf_type_tag(\"" ++ name.val ++ lit "\")))")

/-- The type at the end of a chain. -/
def emitBase (btf : Btf) (n : Nat) (decl : Nat → Bytes → Int → Run BtfDump Bytes) (id : Nat)
    (t : BtfType) (lvl : Int) : Run BtfDump Bytes :=
  match t.kind with
  | .int | .float => do
    let name ← liftRes (deref (btf.strByOffset t.nameOff))
    pure name.val
  | .struct | .union =>
    if t.nameOff = 0 then btfDumpEmitStructDef btf n decl id t lvl
    else btfDumpEmitStructFwd btf id t
  | .enum | .enum64 =>
    if t.nameOff = 0 then btfDumpEmitEnumDef btf id t lvl else btfDumpEmitEnumFwd btf id
  | .fwd => btfDumpEmitFwdDef btf id t
  | .typeTag => liftRes (typeTagText btf t)
  | _ => btfDumpIdentName btf id

/-- `btf_dump_emit_type_chain`, with the turns it may take: one for each type
on the stack is enough. -/
def btfDumpEmitTypeChain (btf : Btf) (n : Nat) (decl : Nat → Bytes → Int → Run BtfDump Bytes)
    (fname : Bytes) (lvl : Int) : Nat → List Nat → Bool → Run BtfDump Bytes
  | _, [], lastWasPtr | 0, _, lastWasPtr => pure (btfDumpEmitName fname lastWasPtr)
  | k + 1, id :: stack, lastWasPtr =>
    if id = 0 then do
      let (mods, stack) ← liftRes (btfDumpEmitMods btf stack)
      let rest ← btfDumpEmitTypeChain btf n decl fname lvl k stack false
      pure (mods ++ lit "void" ++ rest)
    else do
      let t ← liftRes (deref (btf.typeById id))
      match t.kind with
      | .int | .float | .struct | .union | .enum | .enum64 | .fwd | .typedef | .typeTag => do
        let (mods, stack) ← liftRes (btfDumpEmitMods btf stack)
        let text ← emitBase btf n decl id t lvl
        let rest ← btfDumpEmitTypeChain btf n decl fname lvl k stack false
        pure (mods ++ text ++ rest)
      | .ptr => do
        let rest ← btfDumpEmitTypeChain btf n decl fname lvl k stack true
        pure (lit (if lastWasPtr then "*" else " *") ++ rest)
      | .volatile => do
        let rest ← btfDumpEmitTypeChain btf n decl fname lvl k stack false
        pure (lit " volatile" ++ rest)
      | .const => do
        let rest ← btfDumpEmitTypeChain btf n decl fname lvl k stack false
        pure (lit " const" ++ rest)
      | .restrict => do
        let rest ← btfDumpEmitTypeChain btf n decl fname lvl k stack false
        pure (lit " restrict" ++ rest)
      | .array => do
        let a ← liftRes (deref t.array?)
        let dim := lit "[" ++ decText a.nelems ++ lit "]"
        let stack ← liftRes (btfDumpDropMods btf stack)
        match stack with
        | [] => pure (btfDumpEmitName fname lastWasPtr ++ dim)
        | next :: _ => do
          let nextT ← liftRes (deref (btf.typeById next))
          let inner ← btfDumpEmitTypeChain btf n decl fname lvl k stack true
          let space := if !fname.isEmpty && !lastWasPtr then lit " " else []
          pure (space ++ (if nextT.isArray then inner else lit "(" ++ inner ++ lit ")") ++ dim)
      | .funcProto => do
        let stack ← liftRes (btfDumpDropMods btf stack)
        match stack with
        | [] => do
          let params ← emitParamList btf decl t lvl
          pure (btfDumpEmitName fname lastWasPtr ++ params)
        | _ => do
          let inner ← btfDumpEmitTypeChain btf n decl fname lvl k stack true
          let params ← emitParamList btf decl t lvl
          pure (lit " (" ++ inner ++ lit ")" ++ params)
      | _ => pure []

/-- The loop of `btf_dump_emit_type_decl`: the stack, its top first. -/
def declStack (btf : Btf) (stripMods : Bool) : Nat → Nat → List Nat → Res (List Nat)
  | 0, _, _ => .error .fuel
  | n + 1, id, stack => do
    let t ← deref (btf.typeById id)
    let stack := if stripMods && t.isMod then stack else id :: stack
    if id = 0 then .ok stack
    else match t.kind with
      | .ptr | .volatile | .const | .restrict | .funcProto | .typeTag =>
        declStack btf stripMods n t.type stack
      | .array => do
        let a ← deref t.array?
        declStack btf stripMods n a.type stack
      | _ => .ok stack

/-- `btf_dump_emit_type_decl`. -/
def btfDumpEmitTypeDecl (btf : Btf) : Nat → Nat → Bytes → Int → Run BtfDump Bytes
  | 0, _, _, _ => throw .fuel
  | n + 1, id, fname, lvl => do
    let d ← get
    let stack ← liftRes (declStack btf d.stripMods (n + 1) id [])
    btfDumpEmitTypeChain btf n (btfDumpEmitTypeDecl btf n) fname lvl stack.length stack true

/-- `btf_dump_emit_typedef_def`. -/
def btfDumpEmitTypedefDef (btf : Btf) (n : Nat) (id : Nat) (t : BtfType) (lvl : Int) :
    Run BtfDump Bytes := do
  let name ← btfDumpIdentName btf id
  if t.type = 0 ∧ name = lit "__gnuc_va_list" then
    pure (lit "typedef __builtin_va_list __gnuc_va_list")
  else do
    let text ← btfDumpEmitTypeDecl btf n t.type name lvl
    let tags ← btfDumpEmitDeclTags btf id (-1)
    pure (lit "typedef " ++ text ++ tags)

end Libbpf
