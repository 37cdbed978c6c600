/-
Values of the kernel's configuration, as an object's `.kconfig` map gets them.

Each line of the configuration that names one of the object's externs is
parsed for the type of that extern, and the value written to the extern's
place in the map's data. The first line that names an extern counts; lines
that name none are skipped.

`KcfgState` is what a line changes: the externs' `is_set` and the data. The
host's byte order is a parameter.
-/
import Libbpf.Core.Patch
import Libbpf.Lib.Integer
import Libbpf.Lib.Text

namespace Libbpf

open Lib

/-- `enum kcfg_type`. -/
inductive KcfgType where
  | unknown
  | char
  | bool
  | int
  | tristate
  | charArr
deriving DecidableEq

/-- The part of `struct extern_desc` that a KCFG extern has. -/
structure Kcfg where
  type : KcfgType
  sz : Nat
  align : Nat
  dataOff : Nat
  isSigned : Bool
deriving DecidableEq

/-- A KCFG extern. -/
structure KcfgExtern where
  name : CStr
  isSet : Bool
  kcfg : Kcfg
deriving DecidableEq

/-- The object's KCFG externs, and the data of the `.kconfig` map. -/
structure KcfgState where
  externs : List KcfgExtern
  data : Bytes

-- ======== numbers

/-- The digit a character stands for. -/
def digitValue (c : UInt8) : Option Nat :=
  if 48 ≤ c ∧ c ≤ 57 then some (c.toNat - 48)
  else if 97 ≤ c ∧ c ≤ 122 then some (c.toNat - 97 + 10)
  else if 65 ≤ c ∧ c ≤ 90 then some (c.toNat - 65 + 10)
  else none

def isDigitOf (base : Nat) (c : UInt8) : Bool := (digitValue c).any (· < base)

/-- The base of a number whose text has no sign, and its text from the first
digit on. -/
def numberBase : Bytes → Nat × Bytes
  | 48 :: x :: d :: s =>
    if (x = 120 ∨ x = 88) ∧ isDigitOf 16 d = true then (16, d :: s) else (8, 48 :: x :: d :: s)
  | 48 :: s => (8, 48 :: s)
  | s => (10, s)

/-- Whether a text starts with a minus sign, and the text behind its sign. -/
def takeSign : Bytes → Bool × Bytes
  | 45 :: s => (true, s)
  | 43 :: s => (false, s)
  | s => (false, s)

/-- A number in the notation of `strtoull(s, &end, 0)`, of any size: its
sign, its magnitude, and the rest of the text. -/
def scanNumber (s : Bytes) : Option (Bool × Nat × Bytes) :=
  let signed := takeSign (s.dropWhile isSpaceByte)
  let based := numberBase signed.2
  let digits := based.2.takeWhile (isDigitOf based.1)
  if digits.isEmpty then none
  else
    some (signed.1, digits.foldl (fun v c => v * based.1 + (digitValue c).getD 0) 0,
      based.2.dropWhile (isDigitOf based.1))

/-- `parse_u64`. `strtoull` accepts a minus sign, and the result is then the
negated magnitude. -/
def parseU64 (value : Bytes) : Res Nat :=
  match scanNumber value with
  | none => if value = [] then .ok 0 else fail EINVAL
  | some (neg, m, rest) => do
    failIf (2 ^ 64 ≤ m) ERANGE
    failIf (rest ≠ []) EINVAL
    return if neg then (2 ^ 64 - m) % 2 ^ 64 else m

-- ======== setting

/-- `set_kcfg_value_tri`. -/
def setKcfgValueTri (o : ByteOrder) (k : Kcfg) (data : Bytes) (value : UInt8) : Res Bytes :=
  match k.type with
  | .bool =>
    if value = 109 then fail EINVAL
    else storeBytes data k.dataOff [if value = 121 then 1 else 0]
  | .tristate =>
    storeBytes data k.dataOff
      (intBytes o 4 (if value = 121 then 1 else if value = 109 then 2 else 0))
  | .char => storeBytes data k.dataOff [value]
  | _ => fail EINVAL

/-- `set_kcfg_value_str`. -/
def setKcfgValueStr (k : Kcfg) (data value : Bytes) : Res Bytes := do
  failIf (k.type ≠ .charArr) EINVAL
  failIf (value.length < 2 ∨ value.getLast? ≠ some 34) EINVAL
  let len := if value.length - 2 ≥ k.sz then k.sz - 1 else value.length - 2
  storeBytes data k.dataOff ((value.drop 1).take len ++ [0])

/-- `is_kcfg_value_in_range`. -/
def isKcfgValueInRange (k : Kcfg) (v : Nat) : Res Bool := do
  if k.sz = 8 then return true
  -- the shifts
  faultIf (k.sz = 0 ∨ 8 < k.sz)
  if k.isSigned then return decide ((v + 2 ^ (k.sz * 8 - 1)) % 2 ^ 64 < 2 ^ (k.sz * 8))
  else return decide (v / 2 ^ (k.sz * 8) = 0)

/-- `set_kcfg_value_num`. -/
def setKcfgValueNum (o : ByteOrder) (k : Kcfg) (data : Bytes) (value : Nat) : Res Bytes := do
  failIf (k.type ≠ .int ∧ k.type ≠ .char ∧ k.type ≠ .bool) EINVAL
  failIf (k.type = .bool ∧ value > 1) EINVAL
  let inRange ← isKcfgValueInRange k value
  failIf (inRange = false) ERANGE
  if k.sz = 1 ∨ k.sz = 2 ∨ k.sz = 4 ∨ k.sz = 8 then
    storeBytes data k.dataOff (intBytes o k.sz value)
  else fail EINVAL

/-- The switch of `bpf_object__process_kconfig_line` over the first character
of the value. -/
def setKcfgValue (o : ByteOrder) (k : Kcfg) (data value : Bytes) : Res Bytes :=
  match value with
  | 121 :: _ => setKcfgValueTri o k data 121
  | 110 :: _ => setKcfgValueTri o k data 110
  | 109 :: _ => setKcfgValueTri o k data 109
  | 34 :: _ => setKcfgValueStr k data value
  | _ => do
    let num ← parseU64 value
    failIf (k.type ≠ .int ∧ k.type ≠ .char) EINVAL
    setKcfgValueNum o k data num

-- ======== lines

/-- The name and the value on a line; nothing, if the line is to be skipped. -/
def kconfigLine (line : Bytes) : Res (Option (Bytes × Bytes)) := do
  if strHasPfx line (ascii "CONFIG_") = false then return none
  match line.dropWhile (· != 61) with
  | [] => fail EINVAL
  | _ :: value =>
    -- the newline at the end of the line is not part of the value
    let value := if value.getLast? = some 10 then value.dropLast else value
    if value = [] then fail EINVAL
    return some (line.takeWhile (· != 61), value)

/-- `find_extern_by_name`: the index of the extern. -/
def findExternByName (externs : List KcfgExtern) (name : Bytes) : Option Nat :=
  externs.findIdx? fun e => e.name.val == name

/-- `bpf_object__process_kconfig_line`. -/
def processKconfigLine (o : ByteOrder) (line : Bytes) : Run KcfgState Unit := do
  match ← liftRes (kconfigLine line) with
  | none => return ()
  | some (name, value) =>
    let s ← get
    match findExternByName s.externs name with
    | none => return ()
    | some i =>
      let ext ← liftRes (deref s.externs[i]?)
      if ext.isSet then return ()
      let data ← liftRes (setKcfgValue o ext.kcfg s.data value)
      set (KcfgState.mk (s.externs.set i { ext with isSet := true }) data)

/-- The loop of `bpf_object__read_kconfig_file` and
`bpf_object__read_kconfig_mem` over the lines. -/
def readKconfig (o : ByteOrder) (lines : List Bytes) : Run KcfgState Unit :=
  each (processKconfigLine o) lines

end Libbpf
