/-
The offset a local spec carries, against the offset its access string
stands for.

`TypeSize` and `AccessBits` say what the string stands for, in plain
numbers: sizes and bit offsets as the types give them, multiplied and added
up without a bound. The code adds up the same terms in a `__u32`
(`parseSpecFrom_bits`), so a spec has the right offset as long as the
right one fits, and the leading index alone is enough to leave that range:
no type bounds it.
-/
import Libbpf.Core.Self

namespace Libbpf

open Lib

variable {id sz : Nat} {t : BtfType}

-- ======== sizes of types

/-- What the size of a type is made of: a number of bytes, or a number of
times the size of another type. -/
def sizeParts (btf : Btf) (t : BtfType) : Option (Nat × Option Nat) :=
  match t.kind with
  | .int | .struct | .union | .enum | .enum64 | .datasec | .float => some (t.size, none)
  | .ptr => some (btfPtrSz btf, none)
  | .typedef | .volatile | .const | .restrict | .var | .declTag | .typeTag =>
    some (1, some t.type)
  | .array => t.array?.map fun a => (a.nelems, some a.type)
  | _ => none

theorem sizeParts_alias {btf : Btf} (h : (t.isMod || t.isTypedef) = true) :
    sizeParts btf t = some (1, some t.type) := by
  unfold BtfType.isMod BtfType.isTypedef at h
  unfold sizeParts
  cases hk : t.kind <;> rw [hk] at h <;> first | rfl | cases h

/-- The size of a type in bytes. -/
inductive TypeSize (btf : Btf) : Nat → Nat → Prop
  | own {id sz : Nat} {t : BtfType} (ht : btf.typeById id = some t)
      (hp : sizeParts btf t = some (sz, none)) : TypeSize btf id sz
  | times {id id' k sz : Nat} {t : BtfType} (ht : btf.typeById id = some t)
      (hp : sizeParts btf t = some (k, some id')) (h : TypeSize btf id' sz) :
      TypeSize btf id (k * sz)

theorem TypeSize.unique {btf : Btf} {sz' : Nat} (h : TypeSize btf id sz)
    (h' : TypeSize btf id sz') : sz' = sz := by
  induction h generalizing sz' with
  | own ht hp =>
    cases h' with
    | own ht' hp' =>
      cases ht.symm.trans ht'
      cases hp.symm.trans hp'
      rfl
    | times ht' hp' _ =>
      cases ht.symm.trans ht'
      cases hp.symm.trans hp'
  | times ht hp _ ih =>
    cases h' with
    | own ht' hp' =>
      cases ht.symm.trans ht'
      cases hp.symm.trans hp'
    | times ht' hp' h' =>
      cases ht.symm.trans ht'
      cases hp.symm.trans hp'
      rw [ih h']

theorem sizeTimes_eq_ok {nelems size : Nat} (h : btfSizeTimes nelems size = .ok sz) :
    sz = nelems * size := by
  unfold btfSizeTimes at h
  split at h
  · cases h
  · cases h
    rfl

/-- The loop of `btf__resolve_size` has multiplied the elements so far by
the size of the type it is at. -/
theorem resolveSizeFrom_typeSize {btf : Btf} : ∀ {left id nelems sz : Nat},
    btfResolveSizeFrom btf left id nelems = .ok sz →
    ∃ own, TypeSize btf id own ∧ sz = nelems * own := by
  intro left
  induction left with
  | zero => intro id nelems sz h; cases h
  | succ left ih =>
    intro id nelems sz h
    unfold btfResolveSizeFrom at h
    cases ht : btf.typeById id with
    | none =>
      rw [ht] at h
      cases h
    | some t =>
      rw [ht] at h
      dsimp only at h
      split at h
      · cases h
      have hown : ∀ {size}, sizeParts btf t = some (size, none) →
          btfSizeTimes nelems size = .ok sz →
          ∃ own, TypeSize btf id own ∧ sz = nelems * own :=
        fun hp h => ⟨_, .own ht hp, sizeTimes_eq_ok h⟩
      have halias : ∀ {next}, sizeParts btf t = some (1, some next) →
          btfResolveSizeFrom btf left next nelems = .ok sz →
          ∃ own, TypeSize btf id own ∧ sz = nelems * own := by
        intro next hp h
        obtain ⟨own, hsize, rfl⟩ := ih h
        have htimes := TypeSize.times ht hp hsize
        rw [Nat.one_mul] at htimes
        exact ⟨own, htimes, rfl⟩
      unfold sizeParts at hown halias
      cases hk : t.kind <;> simp only [hk] at h hown halias
      case array =>
        cases ha : t.array? with
        | none =>
          rw [ha] at h
          cases h
        | some a =>
          rw [ha] at h
          dsimp only at h
          split at h
          · cases h
          obtain ⟨own, hsize, rfl⟩ := ih h
          refine ⟨a.nelems * own, .times ht ?_ hsize, Nat.mul_assoc _ _ _⟩
          simp only [sizeParts, hk, ha, Option.map_some]
      all_goals first
        | exact hown rfl h
        | exact halias rfl h
        | cases h

/-- `btf__resolve_size` finds the size, if it finds one. -/
theorem resolveSize_typeSize {btf : Btf}
    (h : btfResolveSize btf id = .ok sz) : TypeSize btf id sz := by
  obtain ⟨own, hown, rfl⟩ := resolveSizeFrom_typeSize h
  rwa [Nat.one_mul]

-- ======== the offset

/-- The bits the indices of an access add up to, from type `id` on: a
member's bit offset, an element's index times the size of an element. -/
inductive AccessBits (btf : Btf) : Nat → List Nat → Nat → Prop
  | nil {id : Nat} : AccessBits btf id [] 0
  | member {id id' i bits : Nat} {t : BtfType} {m : BtfMember} {p : List Nat}
      (ht : Resolves btf id t id') (hc : t.isComposite = true)
      (hm : t.member? i = some m) (hp : AccessBits btf m.type p bits) :
      AccessBits btf id (i :: p) (btfMemberBitOffset t m + bits)
  | elem {id id' i sz bits : Nat} {t : BtfType} {a : BtfArray} {p : List Nat}
      (ht : Resolves btf id t id') (hc : t.isArray = true)
      (ha : t.array? = some a) (hsz : TypeSize btf a.type sz)
      (hp : AccessBits btf a.type p bits) :
      AccessBits btf id (i :: p) (i * sz * 8 + bits)

/-- The offset in bits of a whole access: the leading index counts values of
the root type. -/
inductive AccessOffset (btf : Btf) (root : Nat) : List Nat → Nat → Prop
  | mk {i sz bits : Nat} {p : List Nat} (hsz : TypeSize btf root sz)
      (hp : AccessBits btf root p bits) :
      AccessOffset btf root (i :: p) (i * sz * 8 + bits)

section

variable {btf : Btf}

theorem not_isComposite_of_isArray (h : t.isArray = true) : t.isComposite = false := by
  have hk : t.kind = .array := beq_iff_eq.mp h
  unfold BtfType.isComposite
  rw [hk]
  rfl

theorem AccessBits.unique {bits bits' : Nat} {p : List Nat}
    (h : AccessBits btf id p bits) (h' : AccessBits btf id p bits') :
    bits' = bits := by
  induction h generalizing bits' with
  | nil =>
    cases h'
    rfl
  | member ht hc hm _ ih =>
    cases h' with
    | member ht' _ hm' h' =>
      obtain ⟨rfl, -⟩ := ht.unique ht'
      cases hm.symm.trans hm'
      rw [ih h']
    | elem ht' ha' _ _ _ =>
      obtain ⟨rfl, -⟩ := ht.unique ht'
      rw [not_isComposite_of_isArray ha'] at hc
      cases hc
  | elem ht ha harr hsz _ ih =>
    cases h' with
    | member ht' hc' _ _ =>
      obtain ⟨rfl, -⟩ := ht.unique ht'
      rw [not_isComposite_of_isArray ha] at hc'
      cases hc'
    | elem ht' _ harr' hsz' h' =>
      obtain ⟨rfl, -⟩ := ht.unique ht'
      cases harr.symm.trans harr'
      rw [hsz.unique hsz', ih h']

theorem AccessOffset.unique {root off off' : Nat} {raw : List Nat}
    (h : AccessOffset btf root raw off) (h' : AccessOffset btf root raw off') :
    off' = off := by
  cases h with
  | mk hsz hp =>
    cases h' with
    | mk hsz' hp' => rw [hsz.unique hsz', hp.unique hp']

/-- Typedefs and modifiers have the size of what is behind them. -/
theorem TypeSize.skip {id' : Nat} (ht : Resolves btf id t id')
    (h : TypeSize btf id' sz) : TypeSize btf id sz := by
  obtain ⟨n, hn⟩ := ht
  induction n generalizing id with
  | zero => cases hn
  | succ n ih =>
    rw [skipModsAndTypedefs] at hn
    cases htype : btf.typeById id with
    | none =>
      rw [htype] at hn
      cases hn
    | some u =>
      rw [htype] at hn
      dsimp only at hn
      split at hn
      · next hmod =>
          rw [← Nat.one_mul sz]
          exact .times htype (sizeParts_alias hmod) (ih hn)
      · cases hn
        exact h

/-- An access may start in front of typedefs and modifiers. -/
theorem AccessBits.skip {id' bits : Nat} {p : List Nat}
    (ht : Resolves btf id t id') (h : AccessBits btf id' p bits) :
    AccessBits btf id p bits := by
  cases h with
  | nil => exact .nil
  | member ht' hc hm hp =>
    obtain ⟨rfl, rfl⟩ := ht.again ht'
    exact .member ht hc hm hp
  | elem ht' hc ha hsz hp =>
    obtain ⟨rfl, rfl⟩ := ht.again ht'
    exact .elem ht hc ha hsz hp

/-- The code adds up the bits of the access, in 32 bits. -/
theorem parseSpecFrom_bits {n : Nat} : ∀ {raw : List Nat} {id : Nat} {s spec : CoreSpec},
    parseSpecFrom btf n raw id s = .ok spec →
    ∃ bits, AccessBits btf id raw bits ∧ spec.bitOffset = s.bitOffset + BitVec.ofNat 32 bits
  | [], _, s, _, h => by
    cases h
    exact ⟨0, .nil, (BitVec.add_zero s.bitOffset).symm⟩
  | idx :: raw, id, s, spec, h => by
    obtain ⟨⟨id', s'⟩, hstep, h⟩ := of_bind_ok h
    obtain ⟨bits, hbits, hspec⟩ := parseSpecFrom_bits h
    have hadd : ∀ off, s'.bitOffset = s.bitOffset + BitVec.ofNat 32 off →
        spec.bitOffset = s.bitOffset + BitVec.ofNat 32 (off + bits) := by
      intro off hoff
      rw [hspec, hoff, BitVec.ofNat_add, BitVec.add_assoc]
    obtain ⟨t, tid, hskip, hcase⟩ := parseSpecStep_cases hstep
    rcases hcase with ⟨hc, -, m, hm, rfl, ⟨-, rfl⟩ | ⟨-, name, -, -, rfl⟩⟩
      | ⟨-, harr, a, et, last, flex, sz, ha, he, -, -, -, hsz, rfl⟩
    · exact ⟨_, .member ⟨n, hskip⟩ hc hm hbits, hadd _ rfl⟩
    · exact ⟨_, .member ⟨n, hskip⟩ hc hm hbits, hadd _ rfl⟩
    · exact ⟨_, .elem ⟨n, hskip⟩ harr ha ((resolveSize_typeSize hsz).skip ⟨n, he⟩)
        (hbits.skip ⟨n, he⟩), hadd _ rfl⟩

end

/-- The spec of a field-based relocation: its raw spec is the access string,
the access has one offset, and the spec carries that offset exactly if it
fits the `__u32`. -/
theorem parseSpec_offset {btf : Btf} {relo : CoreRelo} {n : Nat} {spec : CoreSpec}
    (hk : coreReloIsFieldBased relo.kind = true) (h : bpfCoreParseSpec btf relo n = .ok spec) :
    (∃ str, btf.strByOffset relo.accessStrOff = some str
      ∧ parseRawFrom BPF_CORE_SPEC_MAX_LEN str.val = .ok spec.rawSpec)
    ∧ ∃ off, AccessOffset btf relo.typeId spec.rawSpec off
      ∧ (∀ off', AccessOffset btf relo.typeId spec.rawSpec off' → off' = off)
      ∧ (spec.bitOffset.toNat = off ↔ off < 2 ^ 32) := by
  obtain ⟨first, id, sz, rest, t, hskip, hsz, ⟨str, hstr, hparse⟩, hfrom⟩ :=
    parseSpec_field hk h
  obtain ⟨bits, hbits, hspec⟩ := parseSpecFrom_bits hfrom
  obtain ⟨accs, -, hraw, -⟩ := parseSpecFrom_frame _ _ _ _ hfrom
  dsimp only at hspec hraw
  refine ⟨⟨str, hstr, by rw [hparse, hraw]⟩, ?_⟩
  have hoff : AccessOffset btf relo.typeId spec.rawSpec (first * sz * 8 + bits) := by
    rw [hraw]
    exact .mk ((resolveSize_typeSize hsz).skip ⟨n, hskip⟩) (hbits.skip ⟨n, hskip⟩)
  have hval : spec.bitOffset.toNat = (first * sz * 8 + bits) % 2 ^ 32 := by
    have hsum : spec.bitOffset = BitVec.ofNat 32 (first * sz * 8 + bits) := by
      rw [hspec, BitVec.ofNat_add]
      congr 1
      exact BitVec.zero_add _
    rw [hsum, BitVec.toNat_ofNat]
  refine ⟨_, hoff, fun off' hoff' => hoff.unique hoff', ?_⟩
  rw [hval]
  omega

/-- An `int`, a struct of two, and access strings. -/
private def indexed : Bytes :=
  btfImage .little
    [⟨1, btfTypeInfo .int 0 false, 4, [32]⟩,
      ⟨5, btfTypeInfo .struct 2 false, 8, [7, 1, 0, 9, 1, 32]⟩]
    -- "", "int", "r", "a", "b", "3:1" and "536870912"
    [0, 105, 110, 116, 0, 114, 0, 97, 0, 98, 0, 51, 58, 49, 0,
      53, 51, 54, 56, 55, 48, 57, 49, 50, 0]

/-- The second member of the fourth struct. -/
theorem parseSpec_offset_indexed : ∃ btf spec, btfNew .little 0 indexed none = .ok btf
      ∧ bpfCoreParseSpec btf ⟨2, 11, .fieldByteOffset⟩ 100 = .ok spec
      ∧ AccessOffset btf 2 spec.rawSpec 224 ∧ spec.bitOffset.toNat = 224 := by
  obtain ⟨btf, hbtf, ht, haccess⟩ := exists_ok_of_any (r := btfNew .little 0 indexed none)
    (P := fun btf =>
      btf.typeById 2 = some ⟨5, btfTypeInfo .struct 2 false, 8, [7, 1, 0, 9, 1, 32]⟩
      ∧ (bpfCoreParseSpec btf ⟨2, 11, .fieldByteOffset⟩ 100).toOption.map (·.rawSpec)
        = some [3, 1]) (by decide +kernel)
  obtain ⟨spec, hspec, hraw⟩ := Option.map_eq_some_iff.mp haccess
  have hparse := eq_ok_of_toOption hspec
  have hskip : Resolves btf 2 ⟨5, btfTypeInfo .struct 2 false, 8, [7, 1, 0, 9, 1, 32]⟩ 2 := by
    refine ⟨1, ?_⟩
    rw [skipModsAndTypedefs, ht]
    rfl
  have hsz : TypeSize btf 2 8 := .own ht rfl
  have hm : BtfType.member? ⟨5, btfTypeInfo .struct 2 false, 8, [7, 1, 0, 9, 1, 32]⟩ 1
      = some ⟨9, 1, 32⟩ := rfl
  have hmember : AccessBits btf 2 [1] 32 := .member hskip rfl hm .nil
  have h224 : AccessOffset btf 2 spec.rawSpec 224 := by
    rw [hraw]
    exact .mk hsz hmember
  obtain ⟨-, off, -, hunique, hiff⟩ := parseSpec_offset rfl hparse
  cases hunique 224 h224
  exact ⟨btf, spec, hbtf, hparse, h224, hiff.mpr (by decide)⟩

/-- The leading index 536870912 of an `int`: 2 ^ 34 bits, and a spec that
says 0. -/
theorem parseSpec_offset_wraps : ∃ btf spec, btfNew .little 0 indexed none = .ok btf
      ∧ bpfCoreParseSpec btf ⟨1, 15, .fieldByteOffset⟩ 100 = .ok spec
      ∧ spec.rawSpec = [536870912] ∧ AccessOffset btf 1 spec.rawSpec (2 ^ 34)
      ∧ spec.bitOffset = 0 := by
  obtain ⟨btf, hbtf, ht, haccess⟩ := exists_ok_of_any (r := btfNew .little 0 indexed none)
    (P := fun btf => btf.typeById 1 = some ⟨1, btfTypeInfo .int 0 false, 4, [32]⟩
      ∧ (bpfCoreParseSpec btf ⟨1, 15, .fieldByteOffset⟩ 100).toOption.map
        (fun spec => (spec.rawSpec, spec.bitOffset)) = some ([536870912], 0)) (by decide +kernel)
  obtain ⟨spec, hspec, hval⟩ := Option.map_eq_some_iff.mp haccess
  obtain ⟨hraw, hbits⟩ := Prod.mk.inj hval
  refine ⟨btf, spec, hbtf, eq_ok_of_toOption hspec, hraw, ?_, hbits⟩
  have hsz : TypeSize btf 1 4 := .own ht rfl
  rw [hraw]
  exact .mk hsz .nil

end Libbpf
