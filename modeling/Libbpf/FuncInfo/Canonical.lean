/-
Arguments that are what the verifier expects already.

`CanonicalArg` says which these are: a pointer to the program type's context
struct, or, for two program types, a pointer to `bpf_user_pt_regs_t`. The
function means to leave both alone. It looks for the typedef when it has found
the pointer but not yet followed it, where there is never one
(`needFuncArgTypeFixup_eq`), and then looks through it: it is the type behind
the typedef that decides (`canonical_arg_left_alone`).
-/
import Libbpf.Core.Path
import Libbpf.FuncInfo.Context

namespace Libbpf

open Lib

variable {btf : Btf} {host : HostRegs} {progType : BpfProgType} {ctxName : Bytes}

-- ======== what is expected

/-- `t` is behind the modifiers at `id`; typedefs are not looked through. -/
inductive BehindMods (btf : Btf) : Nat → BtfType → Prop
  | here {id : Nat} {t : BtfType} (ht : btf.typeById id = some t) (hm : t.isMod = false) :
      BehindMods btf id t
  | under {id : Nat} {m t : BtfType} (hid : btf.typeById id = some m) (hm : m.isMod = true)
      (h : BehindMods btf m.type t) : BehindMods btf id t

/-- A pointer to the context of a program type. -/
inductive CanonicalPtr (btf : Btf) (progType : BpfProgType) (ctxName : Bytes) (ptr : BtfType) : Prop
  | ctx {t : BtfType} {id : Nat} (ht : Resolves btf ptr.type t id) (hk : t.kind = .struct)
      (hname : btf.nameOr t = ctxName)
  | regs {t : BtfType} (htype : progType = .kprobe ∨ progType = .perfEvent)
      (ht : BehindMods btf ptr.type t) (hk : t.kind = .typedef)
      (hname : btf.nameOr t = ascii "bpf_user_pt_regs_t")

/-- An argument that is one. -/
structure CanonicalArg (btf : Btf) (progType : BpfProgType) (ctxName : Bytes) (argTypeId : Nat)
    (ptr : BtfType) : Prop where
  found : ∃ id, Resolves btf argTypeId ptr id
  kind : ptr.kind = .ptr
  canonical : CanonicalPtr btf progType ctxName ptr

/-- What the type behind the pointer is taken for something to replace: `void`,
or the struct of the registers. -/
def TakenForOther (btf : Btf) (host : HostRegs) (progType : BpfProgType) (t : BtfType) : Prop :=
  t.kind = .unkn ∨ (t.kind = .struct ∧ progType = .kprobe ∧ btf.nameOr t = ascii "pt_regs")
    ∨ (t.kind = .struct ∧ progType = .perfEvent
      ∧ ((host.ptRegs = true ∧ btf.nameOr t = ascii "pt_regs")
        ∨ (host.userPtRegs = true ∧ btf.nameOr t = ascii "user_pt_regs")
        ∨ (host.userRegsStruct = true ∧ btf.nameOr t = ascii "user_regs_struct")))

-- ======== the decision

/-- A pointer is no modifier and no typedef. -/
theorem isMod_of_ptr {t : BtfType} (hk : t.kind = .ptr) : t.isMod = false ∧ t.isTypedef = false := by
  unfold BtfType.isMod BtfType.isTypedef
  rw [hk]
  exact ⟨rfl, rfl⟩

/-- Once the argument is a pointer, only the type behind it matters. -/
theorem needFuncArgTypeFixup_eq {n id argTypeId : Nat} {ptr : BtfType}
    (hptr : skipModsAndTypedefs btf n argTypeId = .ok (ptr, id)) (hk : ptr.kind = .ptr) :
    needFuncArgTypeFixup btf host progType n argTypeId ctxName
      = skipModsAndTypedefs btf n ptr.type >>= fun r =>
          .ok (wantsFixup btf host progType ctxName r.1) := by
  obtain ⟨hmod, htd⟩ := isMod_of_ptr hk
  cases n with
  | zero => cases hptr
  | succ n =>
    have hskip : skipMods btf (n + 1) ptr = .ok ptr := by
      rw [skipMods, hmod]
      rfl
    rw [needFuncArgTypeFixup, hptr]
    change (if ptr.kind ≠ .ptr then _ else _) = _
    rw [if_neg (not_not_intro hk), hskip]
    change (if _ then _ else _) = _
    rw [if_neg (by rw [htd]; rintro ⟨⟨⟩, -⟩)]
    rfl

/-- It returns what is wanted for the type behind the pointer, and it returns
only if there is one. -/
theorem needFuncArgTypeFixup_settles {id argTypeId : Nat} {ptr : BtfType} {b : Bool}
    (hptr : Resolves btf argTypeId ptr id) (hk : ptr.kind = .ptr) :
    Settles (fun n => needFuncArgTypeFixup btf host progType n argTypeId ctxName) b
      ↔ ∃ t id', Resolves btf ptr.type t id' ∧ wantsFixup btf host progType ctxName t = b := by
  obtain ⟨N, hN⟩ := hptr.settles
  constructor
  · rintro ⟨M, hM⟩
    have hret := hM (max N M) (Nat.le_max_right ..)
    dsimp only at hret
    rw [needFuncArgTypeFixup_eq (hN _ (Nat.le_max_left ..)) hk] at hret
    obtain ⟨⟨t, id'⟩, ht, hb⟩ := of_bind_ok hret
    exact ⟨t, id', ⟨_, ht⟩, Except.ok.inj hb⟩
  · rintro ⟨t, id', ht, rfl⟩
    obtain ⟨M, hM⟩ := ht.settles
    refine ⟨max N M, fun n hn => ?_⟩
    dsimp only at hN hM ⊢
    rw [needFuncArgTypeFixup_eq (hN n (Nat.le_trans (Nat.le_max_left ..) hn)) hk,
      hM n (Nat.le_trans (Nat.le_max_right ..) hn)]
    rfl

theorem wantsFixup_eq_false (t : BtfType)
    (hctx : progType = .kprobe ∨ progType = .perfEvent ∨ (t.kind = .struct
      ∧ btf.nameOr t = ctxName)) :
    wantsFixup btf host progType ctxName t = false
      ↔ (t.kind = .struct ∧ btf.nameOr t = ctxName) ∨ ¬ TakenForOther btf host progType t := by
  by_cases hvoid : t.kind = .unkn
  · simp [wantsFixup, TakenForOther, hvoid]
  by_cases hstruct : t.kind = .struct
  · by_cases hname : btf.nameOr t = ctxName
    · simp [wantsFixup, hstruct, hname]
    have hregs := hctx.imp_right fun h => h.resolve_right fun h => hname h.2
    rcases hregs with rfl | rfl
    · simp [wantsFixup, TakenForOther, hstruct, hname]
    · simp [wantsFixup, TakenForOther, hstruct, hname, and_assoc]
  · have hregs := hctx.imp_right fun h => h.resolve_right fun h => hstruct h.1
    rcases hregs with rfl | rfl <;> simp [wantsFixup, TakenForOther, hvoid, hstruct]

/-- A canonical argument is left alone just if the type behind the pointer,
typedefs looked through, is the context struct itself, or is not taken for
something to replace. A pointer to the context struct therefore always is. -/
theorem canonical_arg_left_alone {argTypeId : Nat} {ptr : BtfType}
    (h : CanonicalArg btf progType ctxName argTypeId ptr) :
    Settles (fun n => needFuncArgTypeFixup btf host progType n argTypeId ctxName) false
      ↔ ∃ t id, Resolves btf ptr.type t id ∧ ((t.kind = .struct ∧ btf.nameOr t = ctxName)
          ∨ ¬ TakenForOther btf host progType t) := by
  obtain ⟨id, hptr⟩ := h.found
  rw [needFuncArgTypeFixup_settles hptr h.kind]
  refine exists_congr fun t => exists_congr fun id' => and_congr_right fun ht => ?_
  refine wantsFixup_eq_false t ?_
  cases h.canonical with
  | ctx ht' hk hname =>
    obtain ⟨rfl, rfl⟩ := ht.unique ht'
    exact .inr (.inr ⟨hk, hname⟩)
  | regs htype => exact htype.imp_right .inl

-- ======== the registers

/-- The string table "", "pt_regs", "bpf_user_pt_regs_t", "xdp_md". -/
private def regsStrs : Bytes :=
  [0] ++ ascii "pt_regs" ++ [0] ++ ascii "bpf_user_pt_regs_t" ++ [0] ++ ascii "xdp_md" ++ [0]

/-- `struct pt_regs`, the typedef of it, a pointer to the typedef, `struct
xdp_md`, and a pointer to a const of that. -/
private def regsBtf : Bytes :=
  btfImage .little
    [⟨1, btfTypeInfo .struct 0 false, 0, []⟩, ⟨9, btfTypeInfo .typedef 0 false, 1, []⟩,
      ⟨0, btfTypeInfo .ptr 0 false, 2, []⟩, ⟨28, btfTypeInfo .struct 0 false, 0, []⟩,
      ⟨0, btfTypeInfo .const 0 false, 4, []⟩, ⟨0, btfTypeInfo .ptr 0 false, 5, []⟩]
    regsStrs

private structure IsRegs (btf : Btf) : Prop where
  regs : Resolves btf 2 ⟨1, btfTypeInfo .struct 0 false, 0, []⟩ 1
  regsPtr : Resolves btf 3 ⟨0, btfTypeInfo .ptr 0 false, 2, []⟩ 3
  xdp : Resolves btf 5 ⟨28, btfTypeInfo .struct 0 false, 0, []⟩ 4
  xdpPtr : Resolves btf 6 ⟨0, btfTypeInfo .ptr 0 false, 5, []⟩ 6
  typedef : btf.typeById 2 = some ⟨9, btfTypeInfo .typedef 0 false, 1, []⟩
  regsName : btf.nameOr ⟨1, btfTypeInfo .struct 0 false, 0, []⟩ = ascii "pt_regs"
  typedefName : btf.nameOr ⟨9, btfTypeInfo .typedef 0 false, 1, []⟩ = ascii "bpf_user_pt_regs_t"
  xdpName : btf.nameOr ⟨28, btfTypeInfo .struct 0 false, 0, []⟩ = ascii "xdp_md"

private theorem regsBtf_ok : ∃ btf, btfNew .little 0 regsBtf none = .ok btf ∧ IsRegs btf := by
  obtain ⟨btf, hbtf, h2, h3, h5, h6, htd, hregs, htdName, hxdp⟩ := exists_ok_of_any
    (r := btfNew .little 0 regsBtf none) (P := fun btf =>
      skipModsAndTypedefs btf 3 2 = .ok (⟨1, btfTypeInfo .struct 0 false, 0, []⟩, 1)
      ∧ skipModsAndTypedefs btf 3 3 = .ok (⟨0, btfTypeInfo .ptr 0 false, 2, []⟩, 3)
      ∧ skipModsAndTypedefs btf 3 5 = .ok (⟨28, btfTypeInfo .struct 0 false, 0, []⟩, 4)
      ∧ skipModsAndTypedefs btf 3 6 = .ok (⟨0, btfTypeInfo .ptr 0 false, 5, []⟩, 6)
      ∧ btf.typeById 2 = some ⟨9, btfTypeInfo .typedef 0 false, 1, []⟩
      ∧ btf.nameOr ⟨1, btfTypeInfo .struct 0 false, 0, []⟩ = ascii "pt_regs"
      ∧ btf.nameOr ⟨9, btfTypeInfo .typedef 0 false, 1, []⟩ = ascii "bpf_user_pt_regs_t"
      ∧ btf.nameOr ⟨28, btfTypeInfo .struct 0 false, 0, []⟩ = ascii "xdp_md") (by decide +kernel)
  exact ⟨btf, hbtf, ⟨3, h2⟩, ⟨3, h3⟩, ⟨3, h5⟩, ⟨3, h6⟩, htd, hregs, htdName, hxdp⟩

/-- A pointer to a const of `struct xdp_md` is left alone in an XDP program. -/
theorem canonical_arg_left_alone_xdp : ∃ btf, btfNew .little 0 regsBtf none = .ok btf
    ∧ CanonicalArg btf .xdp (ascii "xdp_md") 6 ⟨0, btfTypeInfo .ptr 0 false, 5, []⟩
    ∧ Settles (fun n => needFuncArgTypeFixup btf ⟨true, false, false⟩ .xdp n 6 (ascii "xdp_md"))
        false := by
  obtain ⟨btf, hbtf, h⟩ := regsBtf_ok
  have hcanon : CanonicalArg btf .xdp (ascii "xdp_md") 6 ⟨0, btfTypeInfo .ptr 0 false, 5, []⟩ :=
    ⟨⟨6, h.xdpPtr⟩, by decide, .ctx h.xdp (by decide) h.xdpName⟩
  exact ⟨btf, hbtf, hcanon, (canonical_arg_left_alone hcanon).mpr
    ⟨_, _, h.xdp, .inl ⟨by decide, h.xdpName⟩⟩⟩

/-- In a kprobe program, a pointer to `bpf_user_pt_regs_t` is not left alone
where that is `struct pt_regs`. -/
theorem canonical_arg_replaced : ∃ btf, btfNew .little 0 regsBtf none = .ok btf
    ∧ CanonicalArg btf .kprobe (ascii "bpf_user_pt_regs_t") 3 ⟨0, btfTypeInfo .ptr 0 false, 2, []⟩
    ∧ Settles (fun n => needFuncArgTypeFixup btf ⟨true, false, false⟩ .kprobe n 3
        (ascii "bpf_user_pt_regs_t")) true := by
  obtain ⟨btf, hbtf, h⟩ := regsBtf_ok
  refine ⟨btf, hbtf, ⟨⟨3, h.regsPtr⟩, by decide, ?_⟩, ?_⟩
  · exact .regs (.inl rfl) (.here h.typedef (by decide)) (by decide) h.typedefName
  · refine (needFuncArgTypeFixup_settles h.regsPtr (by decide)).mpr ⟨_, _, h.regs, ?_⟩
    rw [wantsFixup, h.regsName]
    decide +kernel

end Libbpf
