/-
Making the verifier's log readable.

A relocation that could not be resolved leaves a poisoned call in the
program, with the reason coded into the number of the function. When the
verifier rejects it, `fixup_verifier_log` looks for the message in the last
lines of the log and writes the reason over it. The log is a string in a
buffer of fixed size; what replaces two of its lines may be longer or
shorter than they are.

Pointers into the buffer are offsets, and the buffer is not NULL. The name
of what a relocation asked for comes from elsewhere: `LogProg` has the texts.
-/
import Libbpf.Core.Spec
import Libbpf.Lib.Text

namespace Libbpf

open Lib

-- ======== reading a line

/-- One directive of a format of `sscanf`. -/
inductive ScanItem where
  | byte (c : UInt8)
  /-- Any amount of space. -/
  | blank
  /-- `%d`, or `%*d`, which stores nothing. -/
  | int (store : Bool)

/-- The directives of a format. -/
def scanFormat : Bytes → List ScanItem
  -- `%d` and `%*d`
  | 37 :: 100 :: f => .int true :: scanFormat f
  | 37 :: 42 :: 100 :: f => .int false :: scanFormat f
  | c :: f => (if isSpaceByte c then .blank else .byte c) :: scanFormat f
  | [] => []

/-- What `sscanf` stores, up to the first directive that fails. -/
def sscanf : List ScanItem → Bytes → List Int
  | [], _ => []
  | .byte c :: f, s =>
    match s with
    | [] => []
    | d :: s => if d = c then sscanf f s else []
  | .blank :: f, s => sscanf f (s.dropWhile isSpaceByte)
  | .int store :: f, s =>
    match scanInt s with
    | none => []
    | some (v, s) => if store then v :: sscanf f s else sscanf f s

/-- The end of `find_prev_line`: back to the byte after a newline. -/
def lineStart (buf : Bytes) : Nat → Nat
  | 0 => 0
  | p + 1 => if buf[p]? = some 10 then p + 1 else lineStart buf p

/-- `find_prev_line`. -/
def findPrevLine (buf : Bytes) (cur : Nat) : Option Nat :=
  if cur = 0 then none else some (lineStart buf (cur - 1))

-- ======== patching

/-- The sizes `patch_log` settles on: of the patch, and of the log behind the
replaced part. -/
def patchSizes (bufSz logSz orig origSz patchSz : Nat) : Nat × Nat :=
  let remSz := logSz - (orig + origSz)
  if patchSz > origSz then
    -- the patch covers all of the remaining space
    if orig + patchSz ≥ bufSz then (patchSz - (orig + patchSz - bufSz + 1), 0)
    -- the patch pushes a part of the remaining log out
    else if patchSz - origSz > bufSz - logSz then
      (patchSz, remSz - (patchSz - origSz - (bufSz - logSz)))
    else (patchSz, remSz)
  else (patchSz, remSz)

/-- The shift and the copy of `patch_log`. -/
def shiftAndCopy (buf : Bytes) (orig origSz : Nat) (patch : Bytes) (remSz : Nat) : Res Bytes := do
  let buf ← memmove buf (orig + patch.length) (orig + origSz) remSz
  storeBytes buf orig patch

/-- `patch_log`: `patch` in place of the `origSz` bytes at `orig`. -/
def patchLog (buf : Bytes) (logSz orig origSz : Nat) (patch : CStr) : Res Bytes :=
  let sizes := patchSizes buf.length logSz orig origSz patch.val.length
  if patch.val.length ≠ origSz then
    shiftAndCopy buf orig origSz (patch.val.take sizes.1) sizes.2
  else storeBytes buf orig patch.val

/-- What the messages name, of a program and its object. -/
structure LogProg where
  /-- `find_relo_core`, `bpf_core_parse_spec` and `bpf_core_format_spec`: the
  relocation of an instruction as text, and whether its end is missing. -/
  coreSpec : Int → Option (CStr × Bool)
  /-- The names of the object's maps. -/
  maps : List CStr
  /-- The names of the object's externs. -/
  externs : List CStr

def POISON_LDIMM64_MAP_BASE : Int := 2001000000

def POISON_CALL_KFUNC_BASE : Int := 2002000000

/-- The patch of `fixup_log_failed_core_relo`. -/
def failedCoreReloPatch (prog : LogProg) (line1 : Bytes) : Res (Option CStr) :=
  match sscanf (scanFormat (ascii "%d: (%*d) call unknown#195896080\n")) line1 with
  | [insnIdx] =>
    match prog.coreSpec insnIdx with
    | none => .ok none
    | some (spec, cut) =>
      .ok (some (snprintf 512 (decimal insnIdx ++ ascii ": <invalid CO-RE relocation>\n"
        ++ ascii "failed to resolve CO-RE relocation " ++ spec.val
        ++ (if cut then ascii "..." else []) ++ ascii "\n")))
  | _ => .ok none

/-- The patch of `fixup_log_missing_map_load` and
`fixup_log_missing_kfunc_call`: the number called is an index of `names`, on
top of `base`. -/
def missingPatch (base : Int) (names : List CStr) (text : CStr → Bytes) (line1 : Bytes) :
    Res (Option CStr) :=
  match sscanf (scanFormat (ascii "%d: (%*d) call unknown#%d\n")) line1 with
  | [insnIdx, idx] => do
    -- the difference is of type int
    faultIf (idx - base < -(2 ^ 31))
    if idx - base < 0 then return none
    return names[(idx - base).toNat]?.map fun name =>
      snprintf 128 (decimal insnIdx ++ text name)
  | _ => .ok none

def missingMapLoadPatch (prog : LogProg) : Bytes → Res (Option CStr) :=
  missingPatch POISON_LDIMM64_MAP_BASE prog.maps fun name =>
    ascii ": <invalid BPF map reference>\n" ++ ascii "BPF map '" ++ name.val
      ++ ascii "' is referenced but wasn't created\n"

def missingKfuncCallPatch (prog : LogProg) : Bytes → Res (Option CStr) :=
  missingPatch POISON_CALL_KFUNC_BASE prog.externs fun name =>
    ascii ": <invalid kfunc call>\n" ++ ascii "kfunc '" ++ name.val
      ++ ascii "' is referenced but wasn't resolved\n"

/-- The lines from `line1` up to `line3`, replaced if there is a patch for
them. -/
def fixupLogWith (patchOf : Bytes → Res (Option CStr)) (buf : Bytes) (logSz line1 line3 : Nat) :
    Res Bytes := do
  match ← patchOf (cstr (buf.drop line1)) with
  | none => return buf
  | some patch => patchLog buf logSz line1 (line3 - line1) patch

/-- `fixup_log_failed_core_relo`. -/
def fixupLogFailedCoreRelo (prog : LogProg) := fixupLogWith (failedCoreReloPatch prog)

/-- `fixup_log_missing_map_load`. -/
def fixupLogMissingMapLoad (prog : LogProg) := fixupLogWith (missingMapLoadPatch prog)

/-- `fixup_log_missing_kfunc_call`. -/
def fixupLogMissingKfuncCall (prog : LogProg) := fixupLogWith (missingKfuncCallPatch prog)

/-- What was poisoned. -/
inductive Poison where
  | coreRelo
  | mapLoad
  | kfuncCall
deriving DecidableEq

/-- The message a line starts with. -/
def poisonOf (line : Bytes) : Option Poison :=
  if strHasPfx line (ascii "invalid func unknown#195896080\n") then some .coreRelo
  else if strHasPfx line (ascii "invalid func unknown#200100") then some .mapLoad
  else if strHasPfx line (ascii "invalid func unknown#2002") then some .kfuncCall
  else none

/-- The loop of `fixup_verifier_log`: the message, the line before it and the
line after it. -/
def findPoison (buf : Bytes) : Nat → Nat → Option (Poison × Nat × Nat)
  | 0, _ => none
  | i + 1, next =>
    match findPrevLine buf next with
    | none => none
    | some cur =>
      match poisonOf (buf.drop cur), findPrevLine buf cur with
      | some poison, some prev => some (poison, prev, next)
      | _, _ => findPoison buf i cur

/-- `fixup_verifier_log`. -/
def fixupVerifierLog (prog : LogProg) (buf : Bytes) : Res Bytes := do
  let logSz := (← strlen buf) + 1
  match findPoison buf 10 (logSz - 1) with
  | none => return buf
  | some (.coreRelo, line1, line3) => fixupLogFailedCoreRelo prog buf logSz line1 line3
  | some (.mapLoad, line1, line3) => fixupLogMissingMapLoad prog buf logSz line1 line3
  | some (.kfuncCall, line1, line3) => fixupLogMissingKfuncCall prog buf logSz line1 line3

end Libbpf
