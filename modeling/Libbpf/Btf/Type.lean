/-
The unit of BTF: one type record, the words of a `struct btf_type` and
of the data that follows it.

A record is kept as its three fixed words and the list of words after
them. That is the C layout cut at record boundaries: every structure
that can follow a `struct btf_type` is made of 32-bit words, so a field
at byte offset `o` of a record is its word `o / 4`. Kinds the library
does not know keep the number they are stored with.

`btfFieldIterInit` and `btfFieldIterNext` are the iterator of btf_iter.c
as a state machine over byte offsets; `btfFieldSlots_eq` is the closed form
every traversal is reasoned about with: the once-per-type slots, then
the per-member slots member by member.
-/
import Mathlib.Data.List.Basic
import Libbpf.Lib.Run

namespace Libbpf

open Lib

def EINVAL : Int := 22
def E2BIG : Int := 7
def ENOSPC : Int := 28
def EOPNOTSUPP : Int := 95

-- ======== kinds

/-- `BTF_KIND_*`; `other` is a number at or above `NR_BTF_KINDS`. -/
inductive BtfKind where
  | unkn
  | int
  | ptr
  | array
  | struct
  | union
  | enum
  | fwd
  | typedef
  | volatile
  | const
  | restrict
  | func
  | funcProto
  | var
  | datasec
  | float
  | declTag
  | typeTag
  | enum64
  | locParam
  | locProto
  | locsec
  | other (n : Nat)
deriving DecidableEq, Repr

def BtfKind.ofNat : Nat → BtfKind
  | 0 => .unkn
  | 1 => .int
  | 2 => .ptr
  | 3 => .array
  | 4 => .struct
  | 5 => .union
  | 6 => .enum
  | 7 => .fwd
  | 8 => .typedef
  | 9 => .volatile
  | 10 => .const
  | 11 => .restrict
  | 12 => .func
  | 13 => .funcProto
  | 14 => .var
  | 15 => .datasec
  | 16 => .float
  | 17 => .declTag
  | 18 => .typeTag
  | 19 => .enum64
  | 20 => .locParam
  | 21 => .locProto
  | 22 => .locsec
  | n => .other n

def BtfKind.toNat : BtfKind → Nat
  | .unkn => 0
  | .int => 1
  | .ptr => 2
  | .array => 3
  | .struct => 4
  | .union => 5
  | .enum => 6
  | .fwd => 7
  | .typedef => 8
  | .volatile => 9
  | .const => 10
  | .restrict => 11
  | .func => 12
  | .funcProto => 13
  | .var => 14
  | .datasec => 15
  | .float => 16
  | .declTag => 17
  | .typeTag => 18
  | .enum64 => 19
  | .locParam => 20
  | .locProto => 21
  | .locsec => 22
  | .other n => n

/-- `NR_BTF_KINDS`. -/
def NR_BTF_KINDS : Nat := 23

/-- A kind the library has a name for; `BTF_KIND_UNKN` is not one. -/
def BtfKind.known : BtfKind → Bool
  | .unkn => false
  | .other _ => false
  | _ => true

-- ======== records

/-- A type record: `struct btf_type` and the words after it. `size` is
the union of the source's `size` and `type`. -/
structure BtfType where
  nameOff : Nat
  info : Nat
  size : Nat
  rest : List Nat
deriving DecidableEq, Repr

/-- `BTF_MAX_VLEN`. -/
def BTF_MAX_VLEN : Nat := 0xffffff

/-- `btf_type_info`. -/
def btfTypeInfo (kind : BtfKind) (vlen : Nat) (kflag : Bool) : Nat :=
  (if kflag then 2 ^ 31 else 0) + kind.toNat * 2 ^ 24 + vlen

namespace BtfType

/-- The other name of the third word. -/
def type (t : BtfType) : Nat := t.size

/-- `btf_kind`. -/
def kind (t : BtfType) : BtfKind := BtfKind.ofNat (t.info / 2 ^ 24 % 2 ^ 7)

/-- `btf_vlen`. -/
def vlen (t : BtfType) : Nat := t.info % 2 ^ 24

/-- `btf_kflag`. -/
def kflag (t : BtfType) : Bool := t.info / 2 ^ 31 != 0

/-- All words of the record, in memory order. -/
def words (t : BtfType) : List Nat := t.nameOff :: t.info :: t.size :: t.rest

/-- The record's size in memory. -/
def byteSz (t : BtfType) : Nat := 12 + 4 * t.rest.length

/-- Word `i` of the record. -/
def word (t : BtfType) (i : Nat) : Nat := t.words.getD i 0

/-- The record with word `i` overwritten. -/
def setWord (t : BtfType) (i v : Nat) : BtfType :=
  match i with
  | 0 => { t with nameOff := v }
  | 1 => { t with info := v }
  | 2 => { t with size := v }
  | i + 3 => { t with rest := t.rest.set i v }

theorem words_length (t : BtfType) : t.words.length = t.rest.length + 3 := rfl

theorem byteSz_eq (t : BtfType) : t.byteSz = 4 * t.words.length := by
  rw [words_length, byteSz]
  omega

theorem words_setWord (t : BtfType) (i v : Nat) : (t.setWord i v).words = t.words.set i v := by
  match i with
  | 0 => rfl
  | 1 => rfl
  | 2 => rfl
  | i + 3 => rfl

theorem ext_words {t u : BtfType} (h : t.words = u.words) : t = u := by
  obtain ⟨a, b, c, r⟩ := t
  obtain ⟨rfl, rfl, rfl, rfl⟩ := h
  rfl

@[simp] theorem byteSz_setWord (t : BtfType) (i v : Nat) : (t.setWord i v).byteSz = t.byteSz := by
  rw [byteSz_eq, byteSz_eq, words_setWord, List.length_set]

@[simp] theorem rest_length_setWord (t : BtfType) (i v : Nat) :
    (t.setWord i v).rest.length = t.rest.length := by
  have := byteSz_setWord t i v
  unfold byteSz at this
  omega

theorem word_setWord_self (t : BtfType) {i v : Nat} (h : i < t.words.length) :
    (t.setWord i v).word i = v := by
  simp [word, words_setWord, h]

theorem word_setWord_ne (t : BtfType) {i j v : Nat} (h : j ≠ i) :
    (t.setWord j v).word i = t.word i := by
  simp [word, words_setWord, List.getElem?_set_ne h]

/-- Only a write to word 1 changes the kind or the counts. -/
theorem info_setWord (t : BtfType) {i v : Nat} (h : i ≠ 1) : (t.setWord i v).info = t.info := by
  match i with
  | 0 => rfl
  | 1 => exact absurd rfl h
  | 2 => rfl
  | i + 3 => rfl

end BtfType

/-- `btf_void`: all zero. -/
def btfVoid : BtfType := ⟨0, 0, 0, []⟩

section

variable {kind : BtfKind} {vlen : Nat} {kflag : Bool}

private theorem info_parts (hk : kind.toNat < 2 ^ 7) (hv : vlen < 2 ^ 24) :
    btfTypeInfo kind vlen kflag % 2 ^ 24 = vlen
      ∧ btfTypeInfo kind vlen kflag / 2 ^ 24 % 2 ^ 7 = kind.toNat
      ∧ btfTypeInfo kind vlen kflag / 2 ^ 31 = (if kflag then 1 else 0)
      ∧ btfTypeInfo kind vlen kflag < 2 ^ 32 := by
  unfold btfTypeInfo
  cases kflag
  · refine ⟨?_, ?_, ?_, ?_⟩ <;> simp <;> omega
  · refine ⟨?_, ?_, ?_, ?_⟩ <;> simp <;> omega

theorem btfTypeInfo_lt (hk : kind.toNat < 2 ^ 7) (hv : vlen < 2 ^ 24) :
    btfTypeInfo kind vlen kflag < 2 ^ 32 := (info_parts hk hv).2.2.2

theorem BtfKind.ofNat_toNat (hk : kind.known = true) :
    BtfKind.ofNat kind.toNat = kind ∧ kind.toNat < 2 ^ 7 := by
  cases kind <;> first | exact ⟨rfl, by decide⟩ | cases hk

/-- An info word put together comes apart again. -/
theorem btfTypeInfo_spec (hk : kind.known = true) (hv : vlen < 2 ^ 24)
    {t : BtfType} (h : t.info = btfTypeInfo kind vlen kflag) :
    t.kind = kind ∧ t.vlen = vlen ∧ t.info < 2 ^ 32 := by
  obtain ⟨hof, hlt⟩ := BtfKind.ofNat_toNat hk
  obtain ⟨h₁, h₂, -, h₄⟩ := @info_parts _ _ kflag hlt hv
  rw [BtfType.kind, BtfType.vlen, h, h₁, h₂]
  exact ⟨hof, rfl, h₄⟩

theorem btfTypeInfo_kflag (hk : kind.known = true) (hv : vlen < 2 ^ 24)
    {t : BtfType} (h : t.info = btfTypeInfo kind vlen kflag) : t.kflag = kflag := by
  obtain ⟨-, -, h₃, -⟩ := @info_parts _ _ kflag (BtfKind.ofNat_toNat hk).2 hv
  rw [BtfType.kflag, h, h₃]
  cases kflag <;> rfl

end

-- ======== sizes

/-- The known kinds of `btf_type_size`: the byte size of a record with
`vlen` elements; `none` is the `default` branch. -/
def btfKnownSize (kind : BtfKind) (vlen : Nat) : Option Nat :=
  match kind with
  | .fwd | .const | .volatile | .restrict | .ptr | .typedef | .func
  | .float | .typeTag => some 12
  | .int => some (12 + 4)
  | .enum => some (12 + vlen * 8)
  | .enum64 => some (12 + vlen * 12)
  | .array => some (12 + 12)
  | .struct | .union => some (12 + vlen * 12)
  | .funcProto => some (12 + vlen * 8)
  | .var => some (12 + 4)
  | .datasec => some (12 + vlen * 12)
  | .declTag => some (12 + 4)
  | .locParam => some (12 + 4 + vlen * 4)
  | .locProto => some (12 + vlen * 4)
  | .locsec => some (12 + vlen * 12)
  | .unkn | .other _ => none

/-- The words `btf_bswap_type_rest` swaps after the fixed ones; `none`
is its `default` branch. -/
def btfBswapRestCnt (kind : BtfKind) (vlen : Nat) : Option Nat :=
  match kind with
  | .fwd | .const | .volatile | .restrict | .ptr | .typedef | .func
  | .float | .typeTag => some 0
  | .int => some 1
  | .enum => some (vlen * 2)
  | .enum64 => some (vlen * 3)
  | .array => some 3
  | .struct | .union => some (vlen * 3)
  | .funcProto => some (vlen * 2)
  | .var => some 1
  | .datasec => some (vlen * 3)
  | .declTag => some 1
  | .locParam => some (1 + vlen)
  | .locProto => some vlen
  | .locsec => some (vlen * 3)
  | .unkn | .other _ => none

/-- The swapper's table and the size table describe the same records. -/
theorem btfKnownSize_eq (kind : BtfKind) (vlen : Nat) : btfKnownSize kind vlen
      = (btfBswapRestCnt kind vlen).map fun n => 12 + 4 * n := by
  cases kind <;> simp only [btfKnownSize, btfBswapRestCnt, Option.map_some,
      Option.map_none, Option.some.injEq] <;> omega

theorem btfKnownSize_isSome (kind : BtfKind) (vlen : Nat) :
    (btfKnownSize kind vlen).isSome = kind.known := by
  cases kind <;> rfl

/-- A record of a known kind has the size its kind and count say. -/
def BtfType.Sized (t : BtfType) : Prop :=
  btfBswapRestCnt t.kind t.vlen = some t.rest.length

instance (t : BtfType) : Decidable t.Sized :=
  inferInstanceAs (Decidable (_ = _))

end Libbpf
