/-
The USDT manager: attaching and detaching.

A USDT attach gives every target of a binary a spec ID, writes the target's
spec under that ID to the specs map, attaches a uprobe to the target and,
where the kernel has no BPF cookies, enters the target's address in the
`ip_to_spec_id` map. IDs come from the free list or, if that is empty, from a
counter; targets with equal argument strings share an ID inside one attach.
Everything a failing attach has done up to the failure is taken back by
destroying the link it was building, in the same way as a user destroys it
later.

The kernel may fail any call; which ones it fails is part of the input
(`UsdtAttach`), as is what was found in the binary. Memory allocation
succeeds. The free list and the IDs of a link are lists: handing over the
pointer when the free list is `NULL` and appending otherwise are the same to
them. The hash of argument strings is a list of pairs, since every key is
looked up before it is added.

`given` is not in the source: which ID each target got.
-/
import Libbpf.Lib.Bytes
import Libbpf.Lib.Entries
import Libbpf.Hashmap
import Libbpf.Btf.Type

namespace Libbpf

open Lib

/-- `struct usdt_target`, less the spec that was parsed from its string. -/
structure UsdtTarget where
  absIp : Int
  relIp : Int
  semaOff : Int
  specStr : Bytes
deriving DecidableEq

/-- A uprobe as it is given to the kernel. -/
structure UsdtProbe where
  offset : Int
  refCtrOffset : Int
  bpfCookie : Nat
deriving DecidableEq

/-- `struct usdt_manager`, less its maps. -/
structure UsdtManager where
  freeSpecIds : List Nat
  nextFreeSpecId : Nat
  hasBpfCookie : Bool
  hasUprobeMulti : Bool
deriving DecidableEq

/-- The contents of the two maps. -/
structure UsdtMaps (Spec : Type) where
  specs : Nat → Option Spec
  /-- `bpf_map__max_entries` of the specs map. -/
  maxEntries : Nat
  ipToSpecId : Int → Option Nat

/-- `struct bpf_link_usdt`. -/
structure UsdtLink where
  specIds : List Nat
  uprobes : List (Int × UsdtProbe)
  multiLink : Option (List UsdtProbe)
  given : List (UsdtTarget × Nat)
deriving DecidableEq

/-- One call of `usdt_manager_attach_usdt`: its cookie, what
`collect_usdt_targets` finds, and the kernel calls that fail, by the index of
the target they are for. -/
structure UsdtAttach where
  usdtCookie : Nat
  /-- The targets, or the error of opening, checking or searching the file. -/
  targets : Except Int (List UsdtTarget)
  specFails : Nat → Option Int
  ipFails : Nat → Option Int
  uprobeFails : Nat → Option Int
  multiFails : Option Int
  /-- Deletions that fail when the link is destroyed on the error path. -/
  deleteFails : Nat → Bool

variable {Spec : Type}

/-- The manager and its maps. -/
structure UsdtWorld (Spec : Type) where
  man : UsdtManager
  maps : UsdtMaps Spec

/-- An attach under way: the world, the link, the hash of argument strings,
and the arrays for a multi-uprobe. -/
structure UsdtAttaching (Spec : Type) where
  world : UsdtWorld Spec
  link : UsdtLink
  specsHash : List (Bytes × Nat)
  multi : List UsdtProbe

/-- A kernel call that may fail. -/
def kernelCall {σ : Type} (fails : Option Int) : Run σ Unit :=
  match fails with
  | some errno => throw (.err (-errno))
  | none => pure ()

/-- Take an ID from the free list, or the next one that was never used. -/
def takeSpecId (w : UsdtWorld Spec) : Res (Nat × UsdtManager) :=
  match w.man.freeSpecIds.getLast? with
  | some id => .ok (id, { w.man with freeSpecIds := w.man.freeSpecIds.dropLast })
  | none =>
    if w.man.nextFreeSpecId ≥ w.maps.maxEntries then fail E2BIG
    else .ok (w.man.nextFreeSpecId, { w.man with nextFreeSpecId := w.man.nextFreeSpecId + 1 })

/-- `allocate_spec_id`: the ID, and whether it is new. -/
def allocateSpecId (t : UsdtTarget) : Run (UsdtAttaching Spec) (Nat × Bool) := do
  let s ← get
  match s.specsHash.lookup t.specStr with
  | some id => return (id, false)
  | none =>
    let (id, man) ← liftRes (takeSpecId s.world)
    set { s with
      world := { s.world with man := man }
      specsHash := (t.specStr, id) :: s.specsHash
      link := { s.link with specIds := s.link.specIds ++ [id] } }
    return (id, true)

/-- `bpf_map_update_elem(spec_map_fd, &spec_id, &target->spec, BPF_ANY)`. -/
def setSpec (fails : Option Int) (id : Nat) (spec : Spec) : Run (UsdtAttaching Spec) Unit := do
  kernelCall fails
  modify fun s => { s with world := { s.world with
    maps := { s.world.maps with specs := put s.world.maps.specs id spec } } }

/-- `bpf_map_update_elem(ip_map_fd, &target->abs_ip, &spec_id, BPF_NOEXIST)`. -/
def setIp (fails : Option Int) (ip : Int) (id : Nat) : Run (UsdtAttaching Spec) Unit := do
  let s ← get
  if (s.world.maps.ipToSpecId ip).isSome then throw (.err (-EEXIST))
  kernelCall fails
  modify fun s => { s with world := { s.world with
    maps := { s.world.maps with ipToSpecId := put s.world.maps.ipToSpecId ip id } } }

/-- Note the target for the multi-uprobe, or attach its uprobe. -/
def attachProbe (fails : Option Int) (t : UsdtTarget) (id : Nat) :
    Run (UsdtAttaching Spec) Unit := do
  let s ← get
  if s.world.man.hasUprobeMulti then
    set { s with multi := s.multi ++ [UsdtProbe.mk t.relIp t.semaOff id] }
  else
    kernelCall fails
    let cookie := if s.world.man.hasBpfCookie then id else 0
    set { s with link := { s.link with
      uprobes := s.link.uprobes ++ [(t.absIp, UsdtProbe.mk t.relIp t.semaOff cookie)] } }

/-- Keep which ID a target got. -/
def giveId (t : UsdtTarget) (id : Nat) : Run (UsdtAttaching Spec) Unit :=
  modify fun s => { s with link := { s.link with given := s.link.given ++ [(t, id)] } }

/-- One turn of the loop of `usdt_manager_attach_usdt`; `parse` is
`parse_usdt_spec`. -/
def attachTarget (parse : Nat → Bytes → Spec) (call : UsdtAttach) (x : UsdtTarget × Nat) :
    Run (UsdtAttaching Spec) Unit := do
  let (id, isNew) ← allocateSpecId x.1
  if isNew then setSpec (call.specFails x.2) id (parse call.usdtCookie x.1.specStr)
  if !(← get).world.man.hasBpfCookie then setIp (call.ipFails x.2) x.1.absIp id
  attachProbe (call.uprobeFails x.2) x.1 id
  giveId x.1 id

/-- Attach the multi-uprobe, if there is to be one. -/
def attachMulti (call : UsdtAttach) : Run (UsdtAttaching Spec) Unit := do
  let s ← get
  if s.world.man.hasUprobeMulti then
    kernelCall call.multiFails
    set { s with link := { s.link with multiLink := some s.multi } }

/-- The deletions of `bpf_link_usdt_detach`, with the index of the next. -/
def deleteIps (fails : Nat → Bool) : Nat → List (Int × UsdtProbe) → (Int → Option Nat) →
    (Int → Option Nat)
  | _, [], m => m
  | i, (ip, _) :: probes, m =>
    deleteIps fails (i + 1) probes (if fails i then m else erase m ip)

/-- `bpf_link_usdt_detach`. -/
def bpfLinkUsdtDetach (fails : Nat → Bool) (link : UsdtLink) (w : UsdtWorld Spec) :
    UsdtWorld Spec where
  man := { w.man with freeSpecIds := w.man.freeSpecIds ++ link.specIds }
  maps := { w.maps with
    ipToSpecId :=
      if w.man.hasBpfCookie then w.maps.ipToSpecId
      else deleteIps fails 0 link.uprobes w.maps.ipToSpecId }

/-- The link before the loop. -/
def UsdtLink.new : UsdtLink := ⟨[], [], none, []⟩

/-- The loop of `usdt_manager_attach_usdt` and what follows it. -/
def attachTargets (parse : Nat → Bytes → Spec) (call : UsdtAttach)
    (targets : List UsdtTarget) : Run (UsdtAttaching Spec) Unit := do
  each (attachTarget parse call) targets.zipIdx
  attachMulti call

/-- `usdt_manager_attach_usdt`. -/
def usdtManagerAttachUsdt (parse : Nat → Bytes → Spec) (call : UsdtAttach) :
    Run (UsdtWorld Spec) UsdtLink := fun w =>
  match call.targets with
  | .error err => .error (.err err) w
  | .ok [] => .error (.err (-ENOENT)) w
  | .ok targets =>
    match attachTargets parse call targets ⟨w, UsdtLink.new, [], []⟩ with
    | .ok _ s => .ok s.link s.world
    | .error e s => .error e (bpfLinkUsdtDetach call.deleteFails s.link s.world)

-- ======== runs

/-- A link the user holds, with the cookie it was attached with. -/
structure UsdtLive where
  link : UsdtLink
  usdtCookie : Nat
deriving DecidableEq

/-- The manager, its maps and the links that are alive. -/
structure UsdtSystem (Spec : Type) where
  world : UsdtWorld Spec
  live : List UsdtLive

/-- What a user does: attach, or destroy the link at some place of the list. -/
inductive UsdtCall where
  | attach (call : UsdtAttach)
  | destroy (k : Nat) (deleteFails : Nat → Bool)

/-- One call. -/
def UsdtSystem.step (parse : Nat → Bytes → Spec) (s : UsdtSystem Spec) : UsdtCall → UsdtSystem Spec
  | .attach call =>
    match usdtManagerAttachUsdt parse call s.world with
    | .ok link w => ⟨w, s.live ++ [⟨link, call.usdtCookie⟩]⟩
    | .error _ w => ⟨w, s.live⟩
  | .destroy k deleteFails =>
    match s.live[k]? with
    | some l => ⟨bpfLinkUsdtDetach deleteFails l.link s.world, s.live.eraseIdx k⟩
    | none => s

/-- A run of calls. -/
def UsdtSystem.run (parse : Nat → Bytes → Spec) (s : UsdtSystem Spec) (calls : List UsdtCall) :
    UsdtSystem Spec :=
  calls.foldl (UsdtSystem.step parse) s

/-- A manager as `usdt_manager_new` makes it, over maps that may hold anything. -/
def UsdtSystem.start (hasBpfCookie hasUprobeMulti : Bool) (maps : UsdtMaps Spec) :
    UsdtSystem Spec :=
  ⟨⟨⟨[], 0, hasBpfCookie, hasUprobeMulti⟩, maps⟩, []⟩

end Libbpf
