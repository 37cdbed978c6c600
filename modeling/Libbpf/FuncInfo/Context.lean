/-
Context arguments of global functions.

The verifier wants an argument that is a program's context to be of one type,
which depends on the type of the program: a pointer to the struct that
`global_ctx_map` names. A function may declare it differently and tag the
argument; `need_func_arg_type_fixup` decides whether its BTF is to be replaced.

What `bpf_user_pt_regs_t` is on the host is a parameter (`HostRegs`).
-/
import Libbpf.Core.Type
import Libbpf.Lib.Text

namespace Libbpf

open Lib

/-- `enum bpf_prog_type`. -/
inductive BpfProgType where
  | unspec
  | socketFilter
  | kprobe
  | schedCls
  | schedAct
  | tracepoint
  | xdp
  | perfEvent
  | cgroupSkb
  | cgroupSock
  | lwtIn
  | lwtOut
  | lwtXmit
  | sockOps
  | skSkb
  | cgroupDevice
  | skMsg
  | rawTracepoint
  | cgroupSockAddr
  | lwtSeg6local
  | lircMode2
  | skReuseport
  | flowDissector
  | cgroupSysctl
  | rawTracepointWritable
  | cgroupSockopt
  | tracing
  | structOps
  | ext
  | lsm
  | skLookup
  | syscall
  | netfilter
deriving DecidableEq

/-- Which structs `bpf_user_pt_regs_t` is compatible with where the library is
compiled. -/
structure HostRegs where
  ptRegs : Bool
  userPtRegs : Bool
  userRegsStruct : Bool

/-- The name of a type, or what stands for it. -/
def Btf.nameOr (btf : Btf) (t : BtfType) : Bytes :=
  match btf.strByOffset t.nameOff with
  | some name => name.val
  | none => ascii "<anon>"

/-- `while (btf_is_mod(t)) t = btf__type_by_id(btf, t->type)`. -/
def skipMods (btf : Btf) : Nat → BtfType → Res BtfType
  | 0, _ => .error .fuel
  | n + 1, t =>
    if t.isMod then
      match btf.typeById t.type with
      | none => .error .fault
      | some t => skipMods btf n t
    else .ok t

/-- The last part of `need_func_arg_type_fixup`, for the type the argument
points to. -/
def wantsFixup (btf : Btf) (host : HostRegs) (progType : BpfProgType) (ctxName : Bytes)
    (t : BtfType) : Bool :=
  let tname := btf.nameOr t
  let isStruct := t.kind == .struct
  if t.kind == .unkn then true
  else if isStruct && tname == ctxName then false
  else
    match progType with
    | .kprobe => isStruct && tname == ascii "pt_regs"
    | .perfEvent =>
      (host.ptRegs && isStruct && tname == ascii "pt_regs")
        || (host.userPtRegs && isStruct && tname == ascii "user_pt_regs")
        || (host.userRegsStruct && isStruct && tname == ascii "user_regs_struct")
    | .rawTracepoint | .rawTracepointWritable => t.kind == .int && t.size == 8
    | _ => false

/-- `need_func_arg_type_fixup`. -/
def needFuncArgTypeFixup (btf : Btf) (host : HostRegs) (progType : BpfProgType) (n : Nat)
    (argTypeId : Nat) (ctxName : Bytes) : Res Bool := do
  let (t, _) ← skipModsAndTypedefs btf n argTypeId
  if t.kind ≠ .ptr then return false
  let t ← skipMods btf n t
  if t.isTypedef ∧ (progType = .kprobe ∨ progType = .perfEvent)
      ∧ btf.nameOr t = ascii "bpf_user_pt_regs_t" then return false
  let (t, _) ← skipModsAndTypedefs btf n t.type
  return wantsFixup btf host progType ctxName t

end Libbpf
