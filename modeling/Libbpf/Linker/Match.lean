/-
When the linker takes two declarations of a global symbol for the same
(`glob_sym_btf_matches` in linker.c).

The two types are walked in lockstep. Behind a pointer only the outline is
compared: a struct or union then need not be the same inside, and may be a
forward declaration on one side. The walk has no bound of its own, so it takes
a step bound here. What the source prints is left out.
-/
import Libbpf.Core.Type

namespace Libbpf

open Lib

def BTF_FUNC_STATIC : Nat := 0
def BTF_VAR_STATIC : Nat := 0

namespace BtfType

/-- `btf_is_fwd`. -/
def isFwd (t : BtfType) : Bool := t.kind == .fwd

/-- `btf_func_linkage`. -/
def funcLinkage (t : BtfType) : Nat := t.vlen

/-- `btf_var(t)->linkage`. -/
def varLinkage? (t : BtfType) : Option Nat := t.rest[0]?

end BtfType

/-- A forward declaration is of the kind of a struct or union. -/
def fwdKindMatches (fwd t : BtfType) : Bool :=
  (fwd.kflag && t.kind == .union) || (!fwd.kflag && t.kind == .struct)

/-- One of the types is a forward declaration and the other is not. -/
def fwdMatches (btf₁ btf₂ : Btf) (t₁ t₂ : BtfType) : Res Bool := do
  let same ← strEq (btf₁.strByOffset t₁.nameOff) (btf₂.strByOffset t₂.nameOff)
  return same && (if t₁.isFwd then fwdKindMatches t₁ t₂ else fwdKindMatches t₂ t₁)

/-- The kinds whose names are compared. -/
def BtfKind.namesCompared : BtfKind → Bool
  | .struct | .union | .enum | .enum64 | .fwd | .func | .var => true
  | _ => false

/-- The names of two types of one kind. -/
def globNamesMatch (btf₁ btf₂ : Btf) (t₁ t₂ : BtfType) : Res Bool :=
  if t₁.kind.namesCompared then
    strEq (btf₁.strByOffset t₁.nameOff) (btf₂.strByOffset t₂.nameOff)
  else .ok true

/-- Field `i` of two structs or unions. -/
def globFieldMatches (go : Bool → Nat → Nat → Res Bool) (btf₁ btf₂ : Btf) (exact : Bool)
    (t₁ t₂ : BtfType) (i : Nat) : Res Bool := do
  let m₁ ← deref (t₁.member? i)
  let m₂ ← deref (t₂.member? i)
  let same ← strEq (btf₁.strByOffset m₁.nameOff) (btf₂.strByOffset m₂.nameOff)
  if same && m₁.offset == m₂.offset then go exact m₁.type m₂.type else return false

/-- Parameter `i` of two functions; its name does not matter. -/
def globParamMatches (go : Bool → Nat → Nat → Res Bool) (exact : Bool) (t₁ t₂ : BtfType)
    (i : Nat) : Res Bool := do
  let p₁ ← deref (t₁.paramType? i)
  let p₂ ← deref (t₂.paramType? i)
  go exact p₁ p₂

/-- Two types of one kind and, where it is compared, one name. -/
def globKindMatches (go : Bool → Nat → Nat → Res Bool) (btf₁ btf₂ : Btf) (exact : Bool)
    (t₁ t₂ : BtfType) : Res Bool :=
  match t₁.kind with
  | .unkn | .fwd => return true
  -- ignore encoding for int and enum values for enum
  | .int | .float | .enum | .enum64 => return t₁.size == t₂.size
  | .ptr => go false t₁.type t₂.type
  -- ignore index type and array size
  | .array => do
    let a₁ ← deref t₁.array?
    let a₂ ← deref t₂.array?
    go exact a₁.type a₂.type
  -- extern and global linkages are compatible
  | .func =>
    if (t₁.funcLinkage == BTF_FUNC_STATIC) != (t₂.funcLinkage == BTF_FUNC_STATIC) then
      return false
    else go exact t₁.type t₂.type
  | .var => do
    let l₁ ← deref t₁.varLinkage?
    let l₂ ← deref t₂.varLinkage?
    if (l₁ == BTF_VAR_STATIC) != (l₂ == BTF_VAR_STATIC) then return false
    else go exact t₁.type t₂.type
  | .struct | .union =>
    if !exact then return true
    else if t₁.vlen ≠ t₂.vlen then return false
    else (List.range t₁.vlen).allM (globFieldMatches go btf₁ btf₂ exact t₁ t₂)
  | .funcProto =>
    if t₁.vlen ≠ t₂.vlen then return false
    else do
      let params ← (List.range t₁.vlen).allM (globParamMatches go exact t₁ t₂)
      if params then go exact t₁.type t₂.type else return false
  | _ => return false

/-- `glob_sym_btf_matches` behind the two calls of `skip_mods_and_typedefs`; `go`
is what it continues with. -/
def globMatchStep (go : Bool → Nat → Nat → Res Bool) (btf₁ btf₂ : Btf) (exact : Bool)
    (t₁ t₂ : BtfType) : Res Bool :=
  -- check if only one side is FWD, otherwise handle with common logic
  if !exact && t₁.isFwd != t₂.isFwd then fwdMatches btf₁ btf₂ t₁ t₂
  else if t₁.kind ≠ t₂.kind then return false
  else do
    let named ← globNamesMatch btf₁ btf₂ t₁ t₂
    if named then globKindMatches go btf₁ btf₂ exact t₁ t₂ else return false

/-- `glob_sym_btf_matches`. -/
def globSymBtfMatches (btf₁ btf₂ : Btf) : Nat → Bool → Nat → Nat → Res Bool
  | 0, _, _, _ => .error .fuel
  | n + 1, exact, id₁, id₂ => do
    let r₁ ← skipModsAndTypedefs btf₁ n id₁
    let r₂ ← skipModsAndTypedefs btf₂ n id₂
    globMatchStep (globSymBtfMatches btf₁ btf₂ n) btf₁ btf₂ exact r₁.1 r₂.1

end Libbpf
