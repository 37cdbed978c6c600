/-
One value of the typed dump.

A bitfield is gathered from as many bytes as its declared type has, and two
shifts cut it out (`btf_dump_get_bitfield_value`); an enum is read by its size
where the address is aligned, and as a bitfield of no bits where it is not.
The model is the little-endian build. A memory has a byte at every address, so
a read past the data gives what is there.
-/
import Libbpf.Core.Enumval
import Libbpf.Dump.Print
import Libbpf.Lib.Bitfield

namespace Libbpf

open Lib List

/-- What is printed for a value. -/
inductive ShownValue where
  /-- As `0x%llx`. -/
  | hex (n : Nat)
  /-- The name of an enumerator. -/
  | name (i : Nat)
  | int (z : Int)
deriving DecidableEq, Repr

-- ======== bitfields

/-- `btf_dump_get_bitfield_value`. The counts are of type `__u8` and the shifts
of type `__u16`; a `__u64` cannot be shifted by more than 63. -/
def btfDumpGetBitfieldValue (mem : Memory) (dataEnd : Nat) (t : BtfType)
    (data bitsOffset bitSz : Nat) : Res (BitVec 64) := do
  let startBit := bitsOffset % 8
  let nrBytes := (startBit + bitSz + 7) / 8 % 2 ^ 8
  failIf (data + nrBytes > dataEnd) E2BIG
  failIf (t.size > 8) EINVAL
  let num := BitVec.ofNat 64 (load mem data t.size)
  let nrCopyBits := (bitSz + bitsOffset) % 2 ^ 8
  let leftShiftBits := (2 ^ 16 + 64 - nrCopyBits) % 2 ^ 16
  let rightShiftBits := (2 ^ 16 + 64 - bitSz) % 2 ^ 16
  faultIf (64 ≤ leftShiftBits ∨ 64 ≤ rightShiftBits)
  return (num <<< leftShiftBits) >>> rightShiftBits

/-- `btf_dump_bitfield_data`. -/
def btfDumpBitfieldData (mem : Memory) (dataEnd : Nat) (t : BtfType)
    (data bitsOffset bitSz : Nat) : Res ShownValue := do
  let printNum ← btfDumpGetBitfieldValue mem dataEnd t data bitsOffset bitSz
  return .hex printNum.toNat

/-- The bitfield `m` of a struct `t` at `data`, with its type `mt`, as
`btf_dump_struct_data` hands it on. -/
def btfDumpBitfieldMember (mem : Memory) (dataEnd : Nat) (t : BtfType) (m : BtfMember)
    (mt : BtfType) (data : Nat) : Res ShownValue :=
  btfDumpBitfieldData mem dataEnd mt (data + btfMemberBitOffset t m / 8)
    (btfMemberBitOffset t m % 8) (btfMemberBitfieldSize t m)

/-- The two shifts keep `s` bits from bit `b` on. -/
theorem getLsbD_cut (x : BitVec 64) {b s : Nat} (hs : 0 < s) (hfit : b + s ≤ 64) (i : Nat) :
    ((x <<< (64 - (s + b))) >>> (64 - s)).getLsbD i = (decide (i < s) && x.getLsbD (b + i)) := by
  rw [BitVec.getLsbD_ushiftRight, BitVec.getLsbD_shiftLeft]
  by_cases hi : i < s
  · have hpos : 64 - s + i - (64 - (s + b)) = b + i := by omega
    simp [hi, hpos, show 64 - s + i < 64 by omega, show ¬ 64 - s + i < 64 - (s + b) by omega]
  · simp [hi, show ¬ 64 - s + i < 64 by omega]

section

variable {mem : Memory} {dataEnd data b s : Nat} {t : BtfType}

/-- Cut out of the bytes of the type: the bits of the field that lie in them. -/
theorem toNat_cut_load (hs : 0 < s) (hfit : b + s ≤ 64) (bytes : Nat) :
    ((BitVec.ofNat 64 (load mem data bytes) <<< (64 - (s + b))) >>> (64 - s)).toNat
      = bitsAt mem (8 * data + b) (min s (8 * bytes - b)) := by
  refine Nat.eq_of_testBit_eq fun i => ?_
  have hmin : i < min s (8 * bytes - b) ↔ i < s ∧ b + i < 8 * bytes := by omega
  rw [BitVec.testBit_toNat, getLsbD_cut _ hs hfit, BitVec.getLsbD_ofNat, testBit_load,
    testBit_bitsAt, Nat.add_assoc]
  by_cases hi : i < s
  · simp [hi, hmin, show b + i < 64 by omega]
  · simp [hi]

/-- The call returns the bits of the field that lie in the bytes of its type. -/
theorem getBitfieldValue_eq_ok (hb : b < 8) (hs : 0 < s) (hs' : s ≤ 64)
    (hin : 8 * data + b + s ≤ 8 * dataEnd) {v : BitVec 64} :
    btfDumpGetBitfieldValue mem dataEnd t data b s = .ok v ↔ t.size ≤ 8 ∧ b + s ≤ 64
      ∧ v.toNat = bitsAt mem (8 * data + b) (min s (8 * t.size - b)) := by
  have hcopy : (s + b) % 2 ^ 8 = s + b := by omega
  have hright : (2 ^ 16 + 64 - s) % 2 ^ 16 = 64 - s := by omega
  have hleft : b + s ≤ 64 → (2 ^ 16 + 64 - (s + b)) % 2 ^ 16 = 64 - (s + b) := by omega
  have hbound : ¬ data + (b % 8 + s + 7) / 8 % 2 ^ 8 > dataEnd := by omega
  simp only [btfDumpGetBitfieldValue, except_bind_eq_ok, failIf_eq_ok, faultIf_eq_ok, hcopy,
    hright, exists_and_left, exists_const, pure, Except.pure, Except.ok.injEq]
  constructor
  · rintro ⟨-, hsize, hshift, rfl⟩
    have hfit : b + s ≤ 64 := by omega
    rw [hleft hfit]
    exact ⟨by omega, hfit, toNat_cut_load hs hfit t.size⟩
  · rintro ⟨hsize, hfit, hv⟩
    refine ⟨hbound, by omega, by omega, BitVec.eq_of_toNat_eq ?_⟩
    rw [hleft hfit, toNat_cut_load hs hfit, hv]

/-- The field is cut out exactly: the gathered bytes fit into 64 bits with it,
and nothing of it that is set lies above them. -/
structure BitfieldExact (mem : Memory) (bytes data b s : Nat) : Prop where
  size : bytes ≤ 8
  width : b + s ≤ 64
  above : ∀ i < s, 8 * bytes ≤ b + i → bitAt mem (8 * data + (b + i)) = false

/-- What lies in the bytes is all of the field. -/
theorem bitsAt_min_iff (mem : Memory) (data b s bytes : Nat) :
    bitsAt mem (8 * data + b) s = bitsAt mem (8 * data + b) (min s (8 * bytes - b))
      ↔ ∀ i < s, 8 * bytes ≤ b + i → bitAt mem (8 * data + (b + i)) = false := by
  have hbit := fun n i => testBit_bitsAt mem n (8 * data + b) i
  simp only [Nat.add_assoc] at hbit
  constructor
  · intro h i hi hi'
    have := congrArg (Nat.testBit · i) h
    simpa [hbit, hi, show ¬ i < 8 * bytes - b by omega] using this
  · intro h
    refine Nat.eq_of_testBit_eq fun i => ?_
    rw [hbit, hbit]
    by_cases hi : i < s
    · by_cases hi' : 8 * bytes ≤ b + i
      · simp [h i hi hi']
      · simp [hi, show i < 8 * bytes - b by omega]
    · simp [hi]

theorem getBitfieldValue_exact (hb : b < 8) (hs : 0 < s) (hs' : s ≤ 64)
    (hin : 8 * data + b + s ≤ 8 * dataEnd) :
    btfDumpGetBitfieldValue mem dataEnd t data b s
        = .ok (BitVec.ofNat 64 (bitsAt mem (8 * data + b) s))
      ↔ BitfieldExact mem t.size data b s := by
  rw [getBitfieldValue_eq_ok hb hs hs' hin, BitVec.toNat_ofNat,
    Nat.mod_eq_of_lt (bitsAt_lt_of_le mem _ hs'), bitsAt_min_iff]
  exact ⟨fun h => ⟨h.1, h.2.1, h.2.2⟩, fun h => ⟨h.size, h.width, h.above⟩⟩

end

/-- A struct with one bitfield of `s` bits at bit `o`. -/
private def oneBitfield (o s : Nat) : BtfType × BtfMember :=
  (⟨0, btfTypeInfo .struct 1 true, 16, []⟩, ⟨0, 1, s * 2 ^ 24 + o⟩)

private def intOfSize (size : Nat) : BtfType := ⟨0, btfTypeInfo .int 0 false, size, [8 * size]⟩

/-- `ptr_is_aligned`. -/
def ptrIsAligned (btf : Btf) (n id data : Nat) : Res Bool := do
  let alignment ← btfAlignOf btf n id
  return alignment != 0 && data % alignment == 0

/-- `btf_dump_get_enum_value`. -/
def btfDumpGetEnumValue (btf : Btf) (n : Nat) (mem : Memory) (dataEnd : Nat) (t : BtfType)
    (data id : Nat) : Res Int := do
  if !(← ptrIsAligned btf n id data) then
    let val ← btfDumpGetBitfieldValue mem dataEnd t data 0 0
    return val.toInt
  if t.size = 8 then
    return wordNumber true 64 (load mem data 8)
  failIf (t.size ∉ [4, 2, 1]) EINVAL
  return wordNumber t.kflag (8 * t.size) (load mem data t.size)

/-- What `btf_dump_enum_data` prints for a value: `e->val` is an `__s32`, and
the format of an ENUM takes 32 bits of the value. -/
def btfDumpEnumShow (t : BtfType) (value : Int) : ShownValue :=
  let word := (value % 2 ^ 64).toNat
  match (List.range t.vlen).find? (fun i => btfEnumValue? t i == some word) with
  | some i => .name i
  | none =>
    let w := if t.kind == .enum then 32 else 64
    .int (wordNumber t.kflag w (word % 2 ^ w))

/-- `btf_dump_enum_data`. -/
def btfDumpEnumData (btf : Btf) (n : Nat) (mem : Memory) (dataEnd : Nat) (t : BtfType)
    (id data : Nat) : Res ShownValue := do
  return btfDumpEnumShow t (← btfDumpGetEnumValue btf n mem dataEnd t data id)

/-- The bytes of a local `__s64`, which is aligned. -/
def localWord (x : BitVec 64) : Memory := fun a => x.extractLsb' (8 * a) 8

/-- The enum case of `btf_dump_dump_type_data`. -/
def btfDumpEnumMember (btf : Btf) (n : Nat) (mem : Memory) (dataEnd id data bitsOffset bitSz : Nat) :
    Res ShownValue := do
  let (t, _) ← skipModsAndTypedefs btf n id
  if bitSz ≠ 0 then
    let enumVal ← btfDumpGetBitfieldValue mem dataEnd t data bitsOffset bitSz
    btfDumpEnumData btf n (localWord enumVal) dataEnd t id 0
  else btfDumpEnumData btf n mem dataEnd t id data

/-- What should be printed for the number `v`. -/
def enumShown (t : BtfType) (v : Int) : ShownValue :=
  match (List.range t.vlen).find? (fun i => enumNumber? t i == some v) with
  | some i => .name i
  | none => .int v

/-- The bits of an enumerator's value. -/
def enumWidth (t : BtfType) : Nat := if t.kind == .enum then 32 else 64

def enumWord? (t : BtfType) (i : Nat) : Option Nat :=
  if t.kind == .enum then t.rest[2 * i + 1]?
  else
    match t.rest[3 * i + 1]?, t.rest[3 * i + 2]? with
    | some lo, some hi => some (hi * 2 ^ 32 + lo)
    | _, _ => none

/-- The number that is compared, of the bits `x` of a value. -/
def enumRead (t : BtfType) (x : Nat) : Int :=
  if t.size = 8 then wordNumber true 64 x
  else wordNumber t.kflag (8 * t.size) (x % 2 ^ (8 * t.size))

/-- What is printed for `c` is what should be for `v`: if an enumerator stands
for `v`, its word read with a sign is `c`; if none does, the bits of `c` that
are printed make up `v`. -/
def EnumAgree (t : BtfType) (c v : Int) : Prop :=
  if ∃ i < t.vlen, enumNumber? t i = some v then
    c = wordNumber true (enumWidth t) (v % 2 ^ enumWidth t).toNat
  else v = wordNumber t.kflag (enumWidth t) (c % 2 ^ enumWidth t).toNat

theorem wordNumber_inj {signed : Bool} {w v v' : Nat} (h : v < 2 ^ w) (h' : v' < 2 ^ w) :
    wordNumber signed w v = wordNumber signed w v' ↔ v = v' := by
  refine ⟨fun he => ?_, fun he => by rw [he]⟩
  have := congrArg (· % (2 : Int) ^ w) he
  simp only [wordNumber_emod h, wordNumber_emod h'] at this
  exact Int.ofNat_inj.mp this

section

variable {t : BtfType} {i w : Nat} {c v : Int}

theorem enumNumber_eq (t : BtfType) (i : Nat) :
    enumNumber? t i = (enumWord? t i).map (wordNumber t.kflag (enumWidth t)) := by
  unfold enumNumber? enumWord? enumWidth
  by_cases hk : t.kind == .enum
  · simp only [if_pos hk]
  simp only [if_neg hk]
  rcases t.rest[3 * i + 1]? with _ | lo
  · rfl
  · rcases t.rest[3 * i + 2]? with _ | hi <;> rfl

theorem enumWord_lt (hfits : t.Fits) (h : enumWord? t i = some w) : w < 2 ^ enumWidth t := by
  have hword : ∀ {k x : Nat}, t.rest[k]? = some x → x < 2 ^ 32 := fun hk =>
    hfits _ (by simp [BtfType.words, mem_of_getElem? hk])
  unfold enumWord? at h
  unfold enumWidth
  by_cases hk : t.kind == .enum
  · rw [if_pos hk] at h ⊢
    exact hword h
  rw [if_neg hk] at h ⊢
  split at h
  · next lo hi hlo hhi =>
      have := hword hlo
      have := hword hhi
      cases h
      omega
  · cases h

/-- The comparison is of the enumerator's word, read with a sign. -/
theorem enumValue_eq_some (hfits : t.Fits) (hc : -2 ^ 63 ≤ c) (hc' : c < 2 ^ 63) :
    btfEnumValue? t i = some (c % 2 ^ 64).toNat
      ↔ ∃ w, enumWord? t i = some w ∧ wordNumber true (enumWidth t) w = c := by
  have hlt := @enumWord_lt t i
  revert hlt
  unfold btfEnumValue? enumWord? enumWidth
  by_cases hk : t.kind == .enum
  · simp only [if_pos hk, Option.map_eq_some_iff]
    intro hlt
    refine exists_congr fun w => and_congr_right fun hw => ?_
    have := hlt hfits hw
    simp only [wordNumber, Bool.true_and, decide_eq_true_eq]
    split <;> split <;> omega
  · simp only [if_neg hk]
    rcases hlo : t.rest[3 * i + 1]? with _ | lo
    · simp
    rcases hhi : t.rest[3 * i + 2]? with _ | hi
    · simp
    intro hlt
    have := hlt hfits rfl
    simp only [Option.some.injEq, exists_eq_left', wordNumber, Bool.true_and, decide_eq_true_eq]
    split <;> omega

/-- What is printed against what should be. -/
theorem enumShow_iff (hfits : t.Fits) (hc : -2 ^ 63 ≤ c) (hc' : c < 2 ^ 63) :
    btfDumpEnumShow t c = enumShown t v ↔ EnumAgree t c v := by
  have hread : ∀ i, (btfEnumValue? t i == some (c % 2 ^ 64).toNat) = true
      ↔ ∃ w, enumWord? t i = some w ∧ wordNumber true (enumWidth t) w = c := fun i =>
    beq_iff_eq.trans (enumValue_eq_some hfits hc hc')
  have hnum : ∀ i, (enumNumber? t i == some v) = true
      ↔ ∃ w, enumWord? t i = some w ∧ wordNumber t.kflag (enumWidth t) w = v := fun i => by
    rw [beq_iff_eq, enumNumber_eq, Option.map_eq_some_iff]
  have hword : ∀ {i w}, enumWord? t i = some w → w < 2 ^ enumWidth t := enumWord_lt hfits
  have hbits : (c % 2 ^ 64).toNat % 2 ^ enumWidth t = (c % 2 ^ enumWidth t).toNat := by
    unfold enumWidth
    split <;> omega
  have hmod : ∀ {signed w}, w < 2 ^ enumWidth t →
      (wordNumber signed (enumWidth t) w % 2 ^ enumWidth t).toNat = w := fun h => by
    rw [wordNumber_emod h, Int.toNat_natCast]
  have hsame : ∀ {i w}, enumWord? t i = some w → wordNumber true (enumWidth t) w = c →
      (c % 2 ^ enumWidth t).toNat = w := fun hw he => he ▸ hmod (hword hw)
  unfold btfDumpEnumShow enumShown EnumAgree
  dsimp only
  rw [← enumWidth, hbits]
  by_cases hnamed : ∃ i < t.vlen, enumNumber? t i = some v
  · rw [if_pos hnamed]
    cases hq : (List.range t.vlen).find? (fun i => enumNumber? t i == some v) with
    | none =>
      obtain ⟨i, hi, hv⟩ := hnamed
      exact absurd (beq_iff_eq.mpr hv) (find?_eq_none.mp hq i (mem_range.mpr hi))
    | some i =>
      have hfound := find?_some hq
      obtain ⟨w, hw, rfl⟩ := (hnum i).mp hfound
      rw [hmod (hword hw)]
      constructor
      · intro h
        split at h
        · next j hj =>
            cases h
            have hfound := find?_some hj
            obtain ⟨w', hw', hc⟩ := (hread i).mp hfound
            cases hw.symm.trans hw'
            exact hc.symm
        · cases h
      · -- the two searches look for the same word
        rintro rfl
        have hpred : (fun i => btfEnumValue? t i
              == some (wordNumber true (enumWidth t) w % 2 ^ 64).toNat)
            = fun i => enumNumber? t i == some (wordNumber t.kflag (enumWidth t) w) := by
          funext j
          rw [Bool.eq_iff_iff, hread, hnum]
          refine exists_congr fun w' => and_congr_right fun hw' => ?_
          rw [wordNumber_inj (hword hw') (hword hw), wordNumber_inj (hword hw') (hword hw)]
        rw [hpred, hq]
  · rw [if_neg hnamed]
    have hq : (List.range t.vlen).find? (fun i => enumNumber? t i == some v) = none :=
      find?_eq_none.mpr fun i hi hv =>
        hnamed ⟨i, mem_range.mp hi, beq_iff_eq.mp hv⟩
    rw [hq]
    cases hp : (List.range t.vlen).find? (fun i => btfEnumValue? t i
      == some (c % 2 ^ 64).toNat) with
    | none => exact ⟨fun h => (ShownValue.int.inj h).symm, fun h => congrArg _ h.symm⟩
    | some i =>
      refine iff_of_false (fun h => by cases h) fun hv => hnamed ⟨i, ?_, ?_⟩
      · exact mem_range.mp (mem_of_find?_eq_some hp)
      · have hfound := find?_some hp
        obtain ⟨w, hw, hc⟩ := (hread i).mp hfound
        rw [hsame hw hc] at hv
        rw [enumNumber_eq, hw, hv, Option.map_some]

end

theorem load_lt (mem : Memory) (a n : Nat) : load mem a n < 2 ^ (8 * n) := by
  refine Nat.lt_pow_two_of_testBit _ fun i hi => ?_
  rw [testBit_load, decide_eq_false (by omega), Bool.false_and]

theorem load_localWord (x : BitVec 64) (n : Nat) :
    load (localWord x) 0 n = x.toNat % 2 ^ (8 * n) := by
  refine Nat.eq_of_testBit_eq fun i => ?_
  rw [testBit_load, Nat.testBit_mod_two_pow, BitVec.testBit_toNat]
  by_cases hi : i < 8 * n
  · simp [bitAt, localWord, show i % 8 < 8 by omega, show 8 * (i / 8) + i % 8 = i by omega]
  · simp [hi]

section

variable {btf : Btf} {n id id' data dataEnd : Nat} {mem : Memory} {t : BtfType}

/-- The alignment asked for is the one of the enum behind the typedefs. -/
theorem alignOf_enum (hk : t.kind = .enum ∨ t.kind = .enum64) : ∀ {n id : Nat},
    skipModsAndTypedefs btf n id = .ok (t, id') →
      btfAlignOf btf n id = .ok (min (btfPtrSz btf) t.size)
  | n + 1, id, h => by
    unfold skipModsAndTypedefs at h
    unfold btfAlignOf
    cases hu : btf.typeById id with
    | none => simp only [hu] at h; cases h
    | some u =>
      simp only [hu] at h
      dsimp only [deref, bind, Except.bind]
      by_cases hmod : (u.isMod || u.isTypedef) = true
      · rw [if_pos hmod] at h
        rw [← alignOf_enum hk h]
        cases hkind : u.kind <;> simp [BtfType.isMod, BtfType.isTypedef, hkind] at hmod ⊢
      · rw [if_neg hmod] at h
        cases h
        rcases hk with hk | hk <;> rw [hk]

theorem getEnumValue_eq_ok (hsize : t.size ∈ [1, 2, 4, 8])
    (halign : btfAlignOf btf n id = .ok (min (btfPtrSz btf) t.size)) {c : Int} :
    btfDumpGetEnumValue btf n mem dataEnd t data id = .ok c
      ↔ data % min (btfPtrSz btf) t.size = 0 ∧ enumRead t (load mem data t.size) = c := by
  have hpos : min (btfPtrSz btf) t.size ≠ 0 := by
    have := btfPtrSz_cases btf
    simp only [mem_cons, not_mem_nil, or_false] at hsize
    omega
  have hempty : ∀ v, btfDumpGetBitfieldValue mem dataEnd t data 0 0 ≠ .ok v := by
    intro v h
    simp only [btfDumpGetBitfieldValue, except_bind_eq_ok, failIf_eq_ok, faultIf_eq_ok] at h
    obtain ⟨-, -, -, -, -, hshift, -⟩ := h
    exact hshift (by decide)
  unfold btfDumpGetEnumValue ptrIsAligned
  rw [halign]
  dsimp only [bind, Except.bind, pure, Except.pure]
  by_cases hal : data % min (btfPtrSz btf) t.size = 0
  · rw [if_neg (by simp [hpos, hal])]
    rw [and_iff_right hal, enumRead, Nat.mod_eq_of_lt (load_lt mem data t.size)]
    by_cases h8 : t.size = 8
    · rw [if_pos h8, if_pos h8, h8, Except.ok.injEq]
    have hin : ¬ t.size ∉ [4, 2, 1] := by
      simp only [mem_cons, not_mem_nil, or_false] at hsize ⊢
      omega
    unfold failIf
    rw [if_neg h8, if_neg h8, if_neg hin, Except.ok.injEq]
  · rw [if_pos (by simp [hal])]
    refine iff_of_false ?_ fun h => hal h.1
    cases hv : btfDumpGetBitfieldValue mem dataEnd t data 0 0 with
    | ok v => exact absurd hv (hempty v)
    | error e => intro h; cases h

/-- What the code compares is a 64-bit number. -/
theorem enumRead_range (hsize : t.size ∈ [1, 2, 4, 8]) {x : Nat} (hx : x < 2 ^ 64) :
    -2 ^ 63 ≤ enumRead t x ∧ enumRead t x < 2 ^ 63 := by
  simp only [mem_cons, not_mem_nil, or_false] at hsize
  unfold enumRead wordNumber
  rcases hsize with h | h | h | h <;> rw [h] <;> simp <;> split <;> omega

theorem enumRead_mod {x : Nat} (hx : x < 2 ^ 64) :
    enumRead t (x % 2 ^ (8 * t.size)) = enumRead t x := by
  unfold enumRead
  split
  · next h8 => rw [h8, Nat.mod_eq_of_lt hx]
  · rw [Nat.mod_mod]

end

/-- The enum of 4 bytes with the enumerators 5 and 2 ^ 32 - 1 or -1. -/
private def fiveAndTop (signed : Bool) : BtfType :=
  ⟨0, btfTypeInfo .enum 2 signed, 4, [1, 5, 3, 2 ^ 32 - 1]⟩

private def bothEnums : Bytes :=
  -- "", "a", "b"
  btfImage .little [fiveAndTop false, fiveAndTop true] [0, 97, 0, 98, 0]

end Libbpf
