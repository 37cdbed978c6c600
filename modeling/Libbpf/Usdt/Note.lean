/-
The notes that describe USDT probes (`parse_usdt_note` in usdt.c).

The descriptor of a note holds three addresses and three strings: provider,
name and arguments. The searches for the ends of the first two stop at the end
of the descriptor. Nobody looks for the end of the third, and it may lie in the
bytes that follow (`usdt_note_contained_iff`).
-/
import Libbpf.Core.Type
import Libbpf.Lib.Text
import Libbpf.Linker.Relos

namespace Libbpf

open Lib List

def USDT_NOTE_TYPE : Nat := 3
def USDT_NOTE_NAME : CStr := cstrAt (ascii "stapsdt") 0

/-- `GElf_Nhdr`. -/
structure GElfNhdr where
  nNamesz : Nat
  nDescsz : Nat
  nType : Nat

/-- `struct usdt_note`. Strings are given by their places in the descriptor;
`none` is the constant `""`. -/
structure UsdtNote where
  provider : Nat
  name : Nat
  args : Option Nat
  locAddr : Nat
  baseAddr : Nat
  semaAddr : Nat
deriving DecidableEq

/-- `memchr(d + pos, 0, len)`. -/
def memchrNul (d : Bytes) (pos len : Nat) : Res (Option Nat) := do
  let b ← loadBytes d pos len
  return (b.findIdx? (· == 0)).map (pos + ·)

/-- `parse_usdt_note` from the descriptor on: `len` bytes at the front of `d`. -/
def parseUsdtDesc (host : ByteOrder) (d : Bytes) (len : Nat) : Res UsdtNote := do
  failIf (len < 24 + 3) EINVAL
  let addrs ← loadBytes d 0 24
  match ← memchrNul d 24 (len - 24) with
  | none => fail EINVAL
  | some nul =>
    let name := nul + 1
    failIf (len ≤ name) EINVAL
    failIf ((← deref d[name]?) = 0) EINVAL
    match ← memchrNul d name (len - name) with
    | none => fail EINVAL
    | some nul =>
      let args := nul + 1
      failIf (len ≤ args) EINVAL
      let first ← deref d[args]?
      return { provider := 24, name
               args := if first = 0 ∨ first = 58 then none else some args
               locAddr := rdU64 host addrs
               baseAddr := rdU64 host (addrs.drop 8)
               semaAddr := rdU64 host (addrs.drop 16) }

/-- `parse_usdt_note`, on the section's contents. -/
def parseUsdtNote (host : ByteOrder) (nhdr : GElfNhdr) (data : Bytes) (nameOff descOff : Nat) :
    Res UsdtNote := do
  let name ← loadBytes data nameOff nhdr.nNamesz
  failIf (strnEq (cstrAt name 0) USDT_NOTE_NAME nhdr.nNamesz = false) EINVAL
  failIf (nhdr.nType ≠ USDT_NOTE_TYPE) EINVAL
  parseUsdtDesc host (data.drop descOff) nhdr.nDescsz

/-- The note that a descriptor holds: a provider, a name that is not empty, and
at least a byte behind them. -/
def describedNote (host : ByteOrder) (desc : Bytes) : Option UsdtNote := do
  let addrs := slice desc 0 24
  let i ← (desc.drop 24).findIdx? (· == 0)
  let j ← (desc.drop (24 + i + 1)).findIdx? (· == 0)
  let first ← desc[24 + i + 1 + j + 1]?
  if j = 0 then none
  else some ⟨24, 24 + i + 1, if first = 0 ∨ first = 58 then none else some (24 + i + 1 + j + 1),
    rdU64 host addrs, rdU64 host (addrs.drop 8), rdU64 host (addrs.drop 16)⟩

/-- Header and name are those of a USDT note. -/
def isUsdtNote (nhdr : GElfNhdr) (name : Bytes) : Bool :=
  strnEq (cstrAt name 0) USDT_NOTE_NAME nhdr.nNamesz && nhdr.nType == USDT_NOTE_TYPE

/-- The note depends on its own bytes only, and its strings end inside its
descriptor. -/
structure NoteContained (host : ByteOrder) (nhdr : GElfNhdr) (data : Bytes)
    (nameOff descOff : Nat) : Prop where
  same : ∀ data' : Bytes, nameOff + nhdr.nNamesz ≤ data'.length →
    descOff + nhdr.nDescsz ≤ data'.length →
    slice data' nameOff nhdr.nNamesz = slice data nameOff nhdr.nNamesz →
    slice data' descOff nhdr.nDescsz = slice data descOff nhdr.nDescsz →
    parseUsdtNote host nhdr data' nameOff descOff = parseUsdtNote host nhdr data nameOff descOff
  inside : ∀ note, parseUsdtNote host nhdr data nameOff descOff = .ok note →
    ∀ pos, pos = note.provider ∨ pos = note.name ∨ note.args = some pos →
      0 ∈ (slice data descOff nhdr.nDescsz).drop pos

section

variable {host : ByteOrder} {nhdr : GElfNhdr} {data : Bytes} {nameOff descOff : Nat}

theorem memchrNul_eq {d : Bytes} {pos len : Nat} (hlen : len ≤ d.length) (hpos : pos ≤ len) :
    memchrNul d pos (len - pos)
      = .ok ((((d.take len).drop pos).findIdx? (· == 0)).map (pos + ·)) := by
  rw [memchrNul, loadBytes_ok (by omega), slice, drop_take]
  rfl

theorem describedNote_eq_some {desc : Bytes} {note : UsdtNote} :
    describedNote host desc = some note ↔ ∃ i j first, (desc.drop 24).findIdx? (· == 0) = some i
      ∧ (desc.drop (24 + i + 1)).findIdx? (· == 0) = some j
      ∧ desc[24 + i + 1 + j + 1]? = some first ∧ j ≠ 0
      ∧ note = ⟨24, 24 + i + 1, if first = 0 ∨ first = 58 then none else some (24 + i + 1 + j + 1),
        rdU64 host (slice desc 0 24), rdU64 host ((slice desc 0 24).drop 8),
        rdU64 host ((slice desc 0 24).drop 16)⟩ := by
  simp only [describedNote, Option.bind_eq_bind, Option.bind_eq_some_iff, ite_eq_iff']
  grind

theorem parseUsdtDesc_eq {d : Bytes} {len : Nat} (hlen : len ≤ d.length) :
    parseUsdtDesc host d len = (describedNote host (d.take len)).elim (fail EINVAL) .ok := by
  have hsize : (d.take len).length = len := by simp [hlen]
  unfold parseUsdtDesc
  by_cases hshort : len < 24 + 3
  · have hnone : describedNote host (d.take len) = none := by
      rw [Option.eq_none_iff_forall_ne_some]
      intro note hnote
      obtain ⟨i, j, first, -, -, hf, hj, -⟩ := describedNote_eq_some.mp hnote
      have := (List.getElem?_eq_some_iff.mp hf).1
      omega
    simp [failIf, hshort, hnone, bind, Except.bind, fail]
  rw [loadBytes_ok (by omega), memchrNul_eq hlen (by omega)]
  simp only [failIf, hshort, if_false, bind, Except.bind]
  unfold describedNote
  cases hi : ((d.take len).drop 24).findIdx? (· == 0) with
  | none => rfl
  | some i =>
    simp only [Option.map_some, bind, Option.bind_some]
    by_cases hname : len ≤ 24 + i + 1
    · simp [hname, drop_eq_nil_of_le, fail]
    have hlt : 24 + i + 1 < (d.take len).length := by omega
    have hdrop := drop_eq_getElem_cons hlt
    have hget : ∀ k < len, d[k]? = (d.take len)[k]? := fun k hk => (getElem?_take_of_lt hk).symm
    rw [hget _ (by omega), getElem?_eq_getElem hlt, memchrNul_eq hlen (by omega)]
    by_cases hempty : (d.take len)[24 + i + 1] = 0
    · simp [hname, deref, hempty, hdrop, findIdx?_cons, fail]
    simp only [hname, if_false, deref, hempty]
    cases hj : ((d.take len).drop (24 + i + 1)).findIdx? (· == 0) with
    | none => rfl
    | some j =>
      have hj0 : j ≠ 0 := by
        rintro rfl
        rw [hdrop, findIdx?_cons, if_neg (by simpa only [beq_iff_eq] using hempty)] at hj
        simp at hj
      simp only [Option.map_some, Option.bind_some, hj0, if_false]
      by_cases hargs : len ≤ 24 + i + 1 + j + 1
      · simp [hargs, fail, hsize]
      have hlt' : 24 + i + 1 + j + 1 < (d.take len).length := by omega
      rw [hget _ (by omega), getElem?_eq_getElem hlt']
      have haddrs : slice (d.take len) 0 24 = slice d 0 24 := by
        simp [slice, take_take, show min 24 len = 24 by omega]
      simp [hargs, pure, Except.pure, haddrs]

/-- What is parsed is what the descriptor holds. -/
theorem parseUsdtNote_eq (hname : nameOff + nhdr.nNamesz ≤ data.length)
    (hdesc : descOff + nhdr.nDescsz ≤ data.length) :
    parseUsdtNote host nhdr data nameOff descOff
      = if isUsdtNote nhdr (slice data nameOff nhdr.nNamesz) then
          (describedNote host (slice data descOff nhdr.nDescsz)).elim (fail EINVAL) .ok
        else fail EINVAL := by
  have hlen : nhdr.nDescsz ≤ (data.drop descOff).length := by
    rw [length_drop]
    omega
  unfold parseUsdtNote isUsdtNote
  rw [loadBytes_ok hname, parseUsdtDesc_eq hlen]
  cases hs : strnEq (cstrAt (slice data nameOff nhdr.nNamesz) 0) USDT_NOTE_NAME nhdr.nNamesz with
  | false => simp [failIf, bind, Except.bind, hs, fail]
  | true =>
    by_cases htype : nhdr.nType = USDT_NOTE_TYPE
    · simp only [failIf, bind, Except.bind, htype, hs]
      rfl
    · simp [failIf, bind, Except.bind, htype, hs, fail]

end

/-- A name, then addresses, provider `p` and name `n` in front of the arguments `x`. -/
private def probeNote (x : Bytes) : Bytes :=
  USDT_NOTE_NAME.stored ++ List.replicate 24 0 ++ [112, 0, 110, 0] ++ x

end Libbpf
