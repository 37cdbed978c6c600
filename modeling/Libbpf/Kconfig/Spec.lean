/-
What the externs hold after the configuration has been read.

`KcfgHolds` says what it is for an extern to hold the value on a line: a
letter, a string, or the number that is written there, whatever its size. A
line that is accepted stores just that, unless its text is one of two kinds
that the parser takes for another (`GoodText` excludes them): a word that only
starts with one of the letters, and a number that is out of range and equal,
modulo `2 ^ 64`, to one that is in range.

Reading a line changes the bytes of one extern at most and sets it, and only
if it was not set (`processKconfigLine_cases`); so after a run each extern
holds the value of the first line that names it (`readKconfig_step`).
-/
import Libbpf.Kconfig.Line

namespace Libbpf

open Lib List

-- ======== what is meant

/-- The number written in a text. -/
def intText (value : Bytes) : Option Int :=
  match scanNumber value with
  | some (neg, m, []) => some (if neg then -(m : Int) else m)
  | _ => none

/-- One of the letters `y`, `n` and `m`. -/
def isKcfgLetter (c : UInt8) : Bool := c == 121 || c == 110 || c == 109

/-- The bytes of an extern whose value is a letter. -/
def Kcfg.letter (o : ByteOrder) (k : Kcfg) (c : UInt8) : Option Bytes :=
  match k.type with
  | .bool => if c = 121 then some [1] else if c = 110 then some [0] else none
  | .tristate =>
    some (intBytes o k.sz (if c = 121 then 1 else if c = 109 then 2 else 0))
  | .char => some [c]
  | _ => none

/-- The bytes `b` of an extern hold the value written as a text. -/
inductive KcfgHolds (o : ByteOrder) (k : Kcfg) : Bytes → Bytes → Prop
  | letter {c : UInt8} {b : Bytes} (hc : isKcfgLetter c = true) (hb : k.letter o c = some b) :
      KcfgHolds o k [c] b
  | string {s b : Bytes} (htype : k.type = .charArr)
      (hb : (s.take (k.sz - 1) ++ [0]) <+: b) : KcfgHolds o k (34 :: s ++ [34]) b
  | number {value b : Bytes} {z : Int} (htype : k.type = .int ∨ k.type = .char)
      (hz : intText value = some z) (hb : intOf o k.isSigned b = z) : KcfgHolds o k value b

/-- The sizes that the externs of a type have. -/
def KcfgType.Sized : KcfgType → Nat → Prop
  | .unknown, _ => False
  | .char, sz => sz = 1
  | .bool, sz => sz = 1
  | .int, sz => sz = 2 ∨ sz = 4 ∨ sz = 8
  | .tristate, sz => 0 < sz
  | .charArr, sz => 0 < sz

/-- A text that is not taken for another: a letter stands alone, and a number
that is out of the extern's range is not one of its range modulo `2 ^ 64`. -/
structure GoodText (k : Kcfg) (value : Bytes) : Prop where
  alone : ∀ c, value.head? = some c → isKcfgLetter c = true → value = [c]
  fits : ∀ z z' : Int, intText value = some z → z.natAbs < 2 ^ 64 →
    IntFits k.sz k.isSigned z' → (2 ^ 64 : Int) ∣ z' - z → IntFits k.sz k.isSigned z

-- ======== one value

/-- A write at the start of an area. -/
theorem slice_patch_start {b new : Bytes} {pos len : Nat} (hlen : new.length ≤ len)
    (hb : pos + len ≤ b.length) :
    slice (patch b pos new) pos len = new ++ slice b (pos + new.length) (len - new.length) := by
  have hp : (b.take pos).length = pos := by
    rw [length_take]
    omega
  rw [slice, patch, append_assoc, drop_left' hp, take_append, take_of_length_le hlen, slice]

/-- What is stored in place of a value: at the start of the extern's bytes. -/
structure KcfgStore (o : ByteOrder) (k : Kcfg) (value new : Bytes) : Prop where
  room : new.length ≤ k.sz
  holds : ∀ b, b.length = k.sz → new <+: b → KcfgHolds o k value b

section

variable {o : ByteOrder} {k : Kcfg} {data data' value : Bytes}
  (hs : k.type.Sized k.sz) (htri : k.type = .tristate → k.sz = 4)

include hs htri in
theorem setKcfgValueTri_stores {c : UInt8} (hc : isKcfgLetter c = true)
    (h : setKcfgValueTri o k data c = .ok data') :
    ∃ new, storeBytes data k.dataOff new = .ok data' ∧ KcfgStore o k [c] new := by
  rw [setKcfgValueTri] at h
  cases htype : k.type with
  | bool =>
    rw [htype] at h hs
    dsimp only at h
    by_cases hm : c = 109
    · rw [if_pos hm] at h
      cases h
    rw [if_neg hm] at h
    refine ⟨_, h, ⟨Nat.le_of_eq hs.symm, fun b hlen hpre => ?_⟩⟩
    have hb := hpre.eq_of_length (hs.symm.trans hlen.symm)
    refine .letter hc ?_
    rw [Kcfg.letter, htype]
    dsimp only
    by_cases hy : c = 121
    · rw [if_pos hy] at hb ⊢
      rw [hb]
    have hn : c = 110 := by
      simp only [isKcfgLetter, Bool.or_eq_true, beq_iff_eq] at hc
      exact (hc.resolve_right hm).resolve_left hy
    rw [if_neg hy] at hb ⊢
    rw [if_pos hn, hb]
  | tristate =>
    rw [htype] at h
    have hfour := htri htype
    refine ⟨_, h, ⟨?_, fun b hlen hpre => ?_⟩⟩
    · rw [intBytes_length, hfour]
    · have hb := hpre.eq_of_length (by rw [intBytes_length, hlen, hfour])
      refine .letter hc ?_
      rw [Kcfg.letter, htype, hfour, ← hb]
  | char =>
    rw [htype] at h hs
    refine ⟨_, h, ⟨Nat.le_of_eq hs.symm, fun b hlen hpre => ?_⟩⟩
    have hb := hpre.eq_of_length (hs.symm.trans hlen.symm)
    refine .letter hc ?_
    rw [Kcfg.letter, htype, ← hb]
  | unknown => rw [htype] at h; cases h
  | int => rw [htype] at h; cases h
  | charArr => rw [htype] at h; cases h

include hs in
theorem setKcfgValueStr_stores (h : setKcfgValueStr k data (34 :: value) = .ok data') :
    ∃ new, storeBytes data k.dataOff new = .ok data' ∧ KcfgStore o k (34 :: value) new := by
  obtain ⟨_, htype, h⟩ := of_bind_ok h
  obtain ⟨_, hquote, h⟩ := of_bind_ok h
  rw [failIf_eq_ok, not_not] at htype
  rw [failIf_eq_ok, not_or, not_not] at hquote
  rw [htype] at hs
  obtain ⟨s, rfl⟩ : ∃ s, value = s ++ [34] := by
    cases value with
    | nil => exact absurd (Nat.lt_succ_self 1) hquote.1
    | cons c value =>
      rw [getLast?_cons_cons] at hquote
      exact getLast?_eq_some_iff.mp hquote.2
  have hlen : (34 :: (s ++ [34])).length - 2 = s.length := by
    rw [length_cons, length_append, length_singleton]
    omega
  have htext : ((34 :: (s ++ [34])).drop 1).take (if s.length ≥ k.sz then k.sz - 1 else s.length)
      = s.take (k.sz - 1) := by
    rw [drop_one, tail_cons]
    by_cases hlong : s.length ≥ k.sz
    · rw [if_pos hlong, take_append_of_le_length (by omega)]
    · rw [if_neg hlong, take_left, take_of_length_le (by omega)]
  dsimp only at h
  rw [hlen, htext] at h
  refine ⟨_, h, ⟨?_, fun b _ hpre => .string htype hpre⟩⟩
  have : 0 < k.sz := hs
  rw [length_append, length_take, length_singleton]
  omega

/-- A number that passes the range check is in range, modulo `2 ^ 64`. -/
theorem inRange_fits {v : Nat} (hsz : k.sz = 1 ∨ k.sz = 2 ∨ k.sz = 4 ∨ k.sz = 8)
    (hv : v < 2 ^ 64) (h : isKcfgValueInRange k v = .ok true) :
    ∃ z : Int, IntFits k.sz k.isSigned z ∧ (2 ^ 64 : Int) ∣ z - v := by
  rw [isKcfgValueInRange] at h
  cases hsigned : k.isSigned with
  | true =>
    refine ⟨((v + 2 ^ (k.sz * 8 - 1) : Nat) : Int) % 2 ^ 64 - 2 ^ (k.sz * 8 - 1), ?_⟩
    rw [hsigned] at h
    rcases hsz with hsz | hsz | hsz | hsz <;> rw [hsz] at h ⊢ <;>
      simp [IntFits, faultIf, bind, Except.bind, pure, Except.pure] at h ⊢ <;> omega
  | false =>
    refine ⟨v, ?_⟩
    rw [hsigned] at h
    rcases hsz with hsz | hsz | hsz | hsz <;> rw [hsz] at h ⊢ <;>
      simp [IntFits, faultIf, bind, Except.bind, pure, Except.pure] at h ⊢ <;> omega

/-- What `parse_u64` returns is the number of the text, modulo `2 ^ 64`. -/
theorem parseU64_eq_ok {num : Nat} (hne : value ≠ []) (h : parseU64 value = .ok num) :
    ∃ z, intText value = some z ∧ z.natAbs < 2 ^ 64 ∧ num < 2 ^ 64 ∧ (2 ^ 64 : Int) ∣ z - num := by
  rw [parseU64] at h
  cases hscan : scanNumber value with
  | none =>
    rw [hscan] at h
    rw [if_neg hne] at h
    cases h
  | some r =>
    obtain ⟨neg, m, rest⟩ := r
    rw [hscan] at h
    obtain ⟨_, hm, hcheck⟩ := of_bind_ok h
    obtain ⟨_, hrest, hret⟩ := of_bind_ok hcheck
    rw [failIf_eq_ok] at hm
    rw [failIf_eq_ok, not_not] at hrest
    subst hrest
    refine ⟨if neg then -(m : Int) else m, by rw [intText, hscan], ?_⟩
    cases neg with
    | true =>
      have hnum : (2 ^ 64 - m) % 2 ^ 64 = num := Except.ok.inj hret
      rw [if_pos rfl]
      omega
    | false =>
      have hnum : m = num := Except.ok.inj hret
      rw [if_neg Bool.false_ne_true]
      omega

theorem setKcfgValueNum_stores {num : Nat} {z : Int} (hgood : GoodText k value)
    (htype : k.type = .int ∨ k.type = .char) (hz : intText value = some z)
    (habs : z.natAbs < 2 ^ 64) (hnum : num < 2 ^ 64) (hmod : (2 ^ 64 : Int) ∣ z - num)
    (h : setKcfgValueNum o k data num = .ok data') :
    ∃ new, storeBytes data k.dataOff new = .ok data' ∧ KcfgStore o k value new := by
  obtain ⟨_, _, h⟩ := of_bind_ok h
  obtain ⟨_, _, h⟩ := of_bind_ok h
  obtain ⟨inRange, hin, h⟩ := of_bind_ok h
  obtain ⟨_, hcheck, h⟩ := of_bind_ok h
  rw [failIf_eq_ok, Bool.not_eq_false] at hcheck
  subst hcheck
  by_cases hsz : k.sz = 1 ∨ k.sz = 2 ∨ k.sz = 4 ∨ k.sz = 8
  · rw [if_pos hsz] at h
    refine ⟨_, h, ⟨Nat.le_of_eq (intBytes_length ..), fun b hlen hpre => ?_⟩⟩
    obtain ⟨z', hfits', hmod'⟩ := inRange_fits hsz hnum hin
    have hfits := hgood.fits z z' hz habs hfits' (by omega)
    have hb := hpre.eq_of_length (by rw [intBytes_length, hlen])
    refine .number htype hz ?_
    rw [← hb, intOf_intBytes]
    refine ⟨hfits, Int.dvd_trans ?_ hmod⟩
    rcases hsz with hsz | hsz | hsz | hsz <;> rw [hsz] <;> decide
  · rw [if_neg hsz] at h
    cases h

include hs htri in
/-- An accepted value is stored as it is meant. -/
theorem setKcfgValue_stores (hne : value ≠ []) (hgood : GoodText k value)
    (h : setKcfgValue o k data value = .ok data') :
    ∃ new, storeBytes data k.dataOff new = .ok data' ∧ KcfgStore o k value new := by
  cases value with
  | nil => exact absurd rfl hne
  | cons c value =>
    by_cases hc : isKcfgLetter c = true
    · have halone := hgood.alone c rfl hc
      rw [halone] at h ⊢
      have hset : setKcfgValueTri o k data c = .ok data' := by
        simp only [isKcfgLetter, Bool.or_eq_true, beq_iff_eq] at hc
        rcases hc with (rfl | rfl) | rfl <;> exact h
      exact setKcfgValueTri_stores hs htri hc hset
    · by_cases hquote : c = 34
      · subst hquote
        exact setKcfgValueStr_stores hs h
      rw [setKcfgValue] at h
      · obtain ⟨num, hparse, h⟩ := of_bind_ok h
        obtain ⟨_, htype, h⟩ := of_bind_ok h
        rw [failIf_eq_ok, not_and_or, not_not, not_not] at htype
        obtain ⟨z, hz, habs, hnum, hmod⟩ := parseU64_eq_ok hne hparse
        exact setKcfgValueNum_stores hgood htype hz habs hnum hmod h
      · rintro r ⟨⟩
        exact hc rfl
      · rintro r ⟨⟩
        exact hc rfl
      · rintro r ⟨⟩
        exact hc rfl
      · rintro r ⟨⟩
        exact hquote rfl

end

-- ======== the state

/-- What reading leaves alone of the externs: their names and places. -/
def KcfgState.fixed (s : KcfgState) : List (CStr × Kcfg) :=
  s.externs.map fun e => (e.name, e.kcfg)

/-- Two externs with separate bytes. -/
def Kcfg.Apart (k k' : Kcfg) : Prop :=
  k.dataOff + k.sz ≤ k'.dataOff ∨ k'.dataOff + k'.sz ≤ k.dataOff

instance Kcfg.decidableApart (k k' : Kcfg) : Decidable (k.Apart k') := inferInstanceAs (Decidable (_ ∨ _))

/-- The externs have separate bytes, inside the data, as many as their types
have. -/
structure KcfgState.Laid (s : KcfgState) : Prop where
  apart : s.fixed.Pairwise fun p q => p.2.Apart q.2
  inside : ∀ p ∈ s.fixed, p.2.dataOff + p.2.sz ≤ s.data.length
  sized : ∀ p ∈ s.fixed, p.2.type.Sized p.2.sz

/-- No two externs have the same name, and a tristate has four bytes. -/
structure KcfgState.Plain (s : KcfgState) : Prop where
  names : (s.fixed.map Prod.fst).Nodup
  tristate : ∀ p ∈ s.fixed, p.2.type = .tristate → p.2.sz = 4

section

variable {s s' : KcfgState} {i j : Nat} {e f : KcfgExtern}

theorem KcfgState.fixed_at (h : s.externs[i]? = some e) : s.fixed[i]? = some (e.name, e.kcfg) := by
  rw [KcfgState.fixed, getElem?_map, h]
  rfl

theorem KcfgState.mem_fixed (h : s.externs[i]? = some e) : (e.name, e.kcfg) ∈ s.fixed :=
  mem_of_getElem? (KcfgState.fixed_at h)

theorem KcfgState.Laid.of_fixed (hl : s.Laid) (hf : s'.fixed = s.fixed)
    (hd : s'.data.length = s.data.length) : s'.Laid := by
  refine ⟨?_, ?_, ?_⟩
  · rw [hf]
    exact hl.apart
  · rw [hf, hd]
    exact hl.inside
  · rw [hf]
    exact hl.sized

theorem KcfgState.Plain.of_fixed (hp : s.Plain) (hf : s'.fixed = s.fixed) : s'.Plain := by
  refine ⟨?_, ?_⟩
  · rw [hf]
    exact hp.names
  · rw [hf]
    exact hp.tristate

theorem KcfgState.Laid.apart_at (hl : s.Laid) (hij : i ≠ j) (hi : s.externs[i]? = some e)
    (hj : s.externs[j]? = some f) : e.kcfg.Apart f.kcfg := by
  obtain ⟨hilt, hie⟩ := List.getElem?_eq_some_iff.mp (KcfgState.fixed_at hi)
  obtain ⟨hjlt, hje⟩ := List.getElem?_eq_some_iff.mp (KcfgState.fixed_at hj)
  have hpair := pairwise_iff_getElem.mp hl.apart
  rcases Nat.lt_or_gt_of_ne hij with hlt | hlt
  · have := hpair i j hilt hjlt hlt
    rwa [hie, hje] at this
  · have := hpair j i hjlt hilt hlt
    rw [hie, hje] at this
    exact Or.symm this

theorem KcfgState.Plain.index_eq (hp : s.Plain) (hi : s.externs[i]? = some e)
    (hj : s.externs[j]? = some f) (hname : e.name = f.name) : i = j := by
  have hi' : (s.fixed.map Prod.fst)[i]? = some e.name := by
    rw [getElem?_map, KcfgState.fixed_at hi]
    rfl
  have hj' : (s.fixed.map Prod.fst)[j]? = some e.name := by
    rw [getElem?_map, KcfgState.fixed_at hj, hname]
    rfl
  exact (getElem?_inj (List.getElem?_eq_some_iff.mp hi').1 hp.names).mp (hi'.trans hj'.symm)

theorem findExternByName_eq_some {name : Bytes} (h : findExternByName s.externs name = some i) :
    ∃ e, s.externs[i]? = some e ∧ e.name.val = name := by
  obtain ⟨hlt, hname, _⟩ := findIdx?_eq_some_iff_getElem.mp h
  exact ⟨s.externs[i], getElem?_eq_getElem hlt, by simpa using hname⟩

theorem findExternByName_of_name (hp : s.Plain) (h : s.externs[i]? = some e) :
    findExternByName s.externs e.name.val = some i := by
  cases hfind : findExternByName s.externs e.name.val with
  | none =>
    have := findIdx?_eq_none_iff.mp hfind e (mem_of_getElem? h)
    simp at this
  | some j =>
    obtain ⟨f, hf, hname⟩ := findExternByName_eq_some hfind
    rw [hp.index_eq h hf (Subtype.ext hname.symm)]

end

-- ======== one line

/-- The value on a line that names an extern. -/
def valueOn (name : CStr) (line : Bytes) : Option Bytes :=
  match kconfigLine line with
  | .ok (some (n, value)) => if n = name.val then some value else none
  | _ => none

theorem valueOn_eq_some {name : CStr} {line value : Bytes} (h : valueOn name line = some value) :
    kconfigLine line = .ok (some (name.val, value)) := by
  rw [valueOn] at h
  split at h
  · next n v heq =>
      by_cases hn : n = name.val
      · rw [if_pos hn, Option.some.injEq] at h
        rw [heq, hn, h]
      · rw [if_neg hn] at h
        cases h
  · cases h

theorem kconfigLine_value_ne_nil {line name value : Bytes}
    (h : kconfigLine line = .ok (some (name, value))) : value ≠ [] := by
  rw [kconfigLine] at h
  by_cases hpfx : strHasPfx line (ascii "CONFIG_") = false
  · rw [if_pos hpfx] at h
    cases h
  rw [if_neg hpfx] at h
  cases hsep : line.dropWhile (· != 61) with
  | nil =>
    rw [hsep] at h
    cases h
  | cons c rest =>
    rw [hsep] at h
    dsimp only at h
    generalize (if rest.getLast? = some 10 then rest.dropLast else rest) = v at h
    by_cases hv : v = []
    · rw [if_pos hv] at h
      cases h
    · rw [if_neg hv] at h
      cases h
      exact hv

/-- What a line can do: nothing, if it names no extern or one that is set; or
set the extern it names. -/
theorem processKconfigLine_cases {o : ByteOrder} {line : Bytes} {s s' : KcfgState}
    (h : processKconfigLine o line s = .ok () s') :
    (s' = s ∧ ∀ name value i, kconfigLine line = .ok (some (name, value)) →
        findExternByName s.externs name = some i → ∀ e, s.externs[i]? = some e → e.isSet = true)
      ∨ ∃ name value i e data', kconfigLine line = .ok (some (name, value))
        ∧ findExternByName s.externs name = some i ∧ s.externs[i]? = some e ∧ e.isSet = false
        ∧ setKcfgValue o e.kcfg s.data value = .ok data'
        ∧ s' = ⟨s.externs.set i { e with isSet := true }, data'⟩ := by
  obtain ⟨parsed, s₁, hparse, h⟩ := bind_eq_ok.mp h
  obtain ⟨hline, rfl⟩ := liftRes_eq_ok.mp hparse
  clear hparse
  cases parsed with
  | none =>
    cases h
    refine .inl ⟨rfl, fun name value i hnv => ?_⟩
    rw [hline] at hnv
    cases hnv
  | some nv =>
    obtain ⟨name, value⟩ := nv
    obtain ⟨s₂, s₃, hget, h⟩ := bind_eq_ok.mp h
    cases hget
    cases hfind : findExternByName s₁.externs name with
    | none =>
      simp only [hfind] at h
      cases h
      refine .inl ⟨rfl, fun name' value' i hnv hfind' => ?_⟩
      rw [hline] at hnv
      cases hnv
      rw [hfind] at hfind'
      cases hfind'
    | some i =>
      simp only [hfind] at h
      obtain ⟨e, s₄, hread, h⟩ := bind_eq_ok.mp h
      obtain ⟨he, rfl⟩ := liftRes_eq_ok.mp hread
      rw [deref_eq_ok] at he
      clear hread
      by_cases hset : e.isSet = true
      · rw [if_pos hset] at h
        cases h
        refine .inl ⟨rfl, fun name' value' i' hnv hfind' e' he' => ?_⟩
        rw [hline] at hnv
        cases hnv
        rw [hfind] at hfind'
        cases hfind'
        rw [he] at he'
        cases he'
        exact hset
      · rw [if_neg hset] at h
        obtain ⟨data', s₅, hwrite, h⟩ := bind_eq_ok.mp h
        obtain ⟨hdata, rfl⟩ := liftRes_eq_ok.mp hwrite
        clear hwrite
        cases h
        exact .inr ⟨name, value, i, e, data', hline, hfind, he, by simpa using hset, hdata, rfl⟩

/-- What a line does to one extern: it is set, and holds the value; or it is
as it was, and the line has no value for it unless it was set. -/
structure KcfgLine (o : ByteOrder) (value : Option Bytes) (e e' : KcfgExtern) (b b' : Bytes) :
    Prop where
  name : e'.name = e.name
  kcfg : e'.kcfg = e.kcfg
  stored : (e'.isSet = e.isSet ∧ b' = b ∧ (e.isSet = false → value = none))
    ∨ (e.isSet = false ∧ e'.isSet = true ∧ ∃ v, value = some v ∧ KcfgHolds o e.kcfg v b')

/-- The bytes of an extern. -/
def KcfgState.bytesOf (s : KcfgState) (e : KcfgExtern) : Bytes :=
  slice s.data e.kcfg.dataOff e.kcfg.sz

/-- A step from `s` to `s'` does this to each extern. -/
structure KcfgStep (o : ByteOrder) (valueFor : CStr → Option Bytes) (s s' : KcfgState) : Prop where
  fixed : s'.fixed = s.fixed
  length : s'.data.length = s.data.length
  each : ∀ (i : Nat) (e : KcfgExtern), s.externs[i]? = some e → ∃ e', s'.externs[i]? = some e'
    ∧ KcfgLine o (valueFor e.name) e e' (s.bytesOf e) (s'.bytesOf e)

theorem KcfgStep.back {o : ByteOrder} {valueFor : CStr → Option Bytes} {s s' : KcfgState}
    {i : Nat} {e' : KcfgExtern} (h : KcfgStep o valueFor s s') (he' : s'.externs[i]? = some e') :
    ∃ e, s.externs[i]? = some e := by
  have hat := KcfgState.fixed_at he'
  rw [h.fixed, KcfgState.fixed, getElem?_map] at hat
  obtain ⟨e, he, -⟩ := Option.map_eq_some_iff.mp hat
  exact ⟨e, he⟩

/-- All texts that a step may store are good. -/
def KcfgState.GoodFor (s : KcfgState) (valueFor : CStr → Option Bytes) : Prop :=
  ∀ e ∈ s.externs, e.isSet = false → ∀ v, valueFor e.name = some v → GoodText e.kcfg v

section

variable {o : ByteOrder} {line : Bytes} {s s' : KcfgState}

theorem processKconfigLine_step (hl : s.Laid) (hp : s.Plain) (hg : s.GoodFor (valueOn · line))
    (h : processKconfigLine o line s = .ok () s') : KcfgStep o (valueOn · line) s s' := by
  rcases processKconfigLine_cases h with ⟨rfl, hset⟩
    | ⟨name, value, j, f, data', hline, hfind, hf, hunset, hdata, rfl⟩
  · refine ⟨rfl, rfl, fun i e he => ⟨e, he, rfl, rfl, .inl ⟨rfl, rfl, fun hunset => ?_⟩⟩⟩
    cases hv : valueOn e.name line with
    | none => rfl
    | some v =>
      have := hset _ _ _ (valueOn_eq_some hv) (findExternByName_of_name hp he) e he
      rw [hunset] at this
      cases this
  · obtain ⟨f', hf', hname⟩ := findExternByName_eq_some hfind
    rw [hf] at hf'
    cases hf'
    have hv : valueOn f.name line = some value := by rw [valueOn, hline, hname]; simp
    have hgood := hg f (mem_of_getElem? hf) hunset value hv
    have hmem := KcfgState.mem_fixed hf
    obtain ⟨new, hstore, hnew⟩ := setKcfgValue_stores (k := f.kcfg) (hl.sized _ hmem)
      (hp.tristate _ hmem) (kconfigLine_value_ne_nil hline) hgood hdata
    have hinside : f.kcfg.dataOff + f.kcfg.sz ≤ s.data.length := hl.inside _ hmem
    have hroom := hnew.room
    rw [storeBytes_ok (by omega)] at hstore
    cases hstore
    refine ⟨?_, patch_length (by omega), fun i e he => ?_⟩
    · obtain ⟨hlt, hat⟩ := List.getElem?_eq_some_iff.mp (KcfgState.fixed_at hf)
      rw [KcfgState.fixed, map_set]
      change s.fixed.set j (f.name, f.kcfg) = s.fixed
      rw [← hat, set_getElem_self]
    · by_cases hij : j = i
      · subst hij
        rw [hf] at he
        cases he
        refine ⟨_, getElem?_set_self (List.getElem?_eq_some_iff.mp hf).1, rfl, rfl,
          .inr ⟨hunset, rfl, value, hv, hnew.holds _ ?_ ?_⟩⟩
        · rw [KcfgState.bytesOf, slice_length (by rw [patch_length (by omega)]; exact hinside)]
        · rw [KcfgState.bytesOf, slice_patch_start hroom hinside]
          exact prefix_append _ _
      · refine ⟨e, by rw [getElem?_set_ne hij]; exact he, rfl, rfl, .inl ⟨rfl, ?_, ?_⟩⟩
        · have happart := hl.apart_at (Ne.symm hij) he hf
          rw [Kcfg.Apart] at happart
          rw [KcfgState.bytesOf, KcfgState.bytesOf, slice_patch_disjoint (by omega) (by omega)]
        · intro _
          rw [valueOn, hline]
          refine if_neg fun heq => hij ?_
          exact hp.index_eq hf he (Subtype.ext (hname.trans heq))

end

-- ======== the run

/-- The value on the first line that names an extern. -/
def firstValue (lines : List Bytes) (name : CStr) : Option Bytes :=
  lines.findSome? (valueOn name)

section

variable {o : ByteOrder} {lines : List Bytes} {s s' : KcfgState}

theorem readKconfig_step (hl : s.Laid) (hp : s.Plain) (hg : s.GoodFor (firstValue lines))
    (h : readKconfig o lines s = .ok () s') : KcfgStep o (firstValue lines) s s' := by
  induction lines generalizing s with
  | nil =>
    cases h
    exact ⟨rfl, rfl, fun i e he => ⟨e, he, rfl, rfl, .inl ⟨rfl, rfl, fun _ => rfl⟩⟩⟩
  | cons line lines ih =>
    obtain ⟨_, s₁, hline, hlines⟩ := bind_eq_ok.mp h
    -- the first line, then the others from the state it leaves
    have hfirst : ∀ name v, valueOn name line = some v →
        firstValue (line :: lines) name = some v := by
      intro name v hv
      rw [firstValue, findSome?_cons, hv]
    have hnext : ∀ name, valueOn name line = none →
        firstValue (line :: lines) name = firstValue lines name := by
      intro name hv
      rw [firstValue, findSome?_cons, hv]
      rfl
    have hstep := processKconfigLine_step hl hp
      (fun e he hunset v hv => hg e he hunset v (hfirst _ _ hv)) hline
    have hrest := ih (hl.of_fixed hstep.fixed hstep.length) (hp.of_fixed hstep.fixed) ?_ hlines
    · refine ⟨hrest.fixed.trans hstep.fixed, hrest.length.trans hstep.length, fun i e he => ?_⟩
      obtain ⟨e₁, he₁, hline₁⟩ := hstep.each i e he
      obtain ⟨e₂, he₂, hline₂⟩ := hrest.each i e₁ he₁
      refine ⟨e₂, he₂, hline₂.name.trans hline₁.name, hline₂.kcfg.trans hline₁.kcfg, ?_⟩
      have hb : ∀ t : KcfgState, t.bytesOf e₁ = t.bytesOf e := by
        intro t
        rw [KcfgState.bytesOf, KcfgState.bytesOf, hline₁.kcfg]
      have hst := hline₂.stored
      rw [hb, hb, hline₁.name, hline₁.kcfg] at hst
      rcases hline₁.stored with ⟨hset₁, hb₁, hnone⟩ | ⟨hunset, hset₁, v, hv, hholds⟩
      · rw [hset₁, hb₁] at hst
        rcases hst with ⟨hset₂, hb₂, hnone₂⟩ | ⟨hunset, hset₂, v, hv, hholds⟩
        · exact .inl ⟨hset₂, hb₂, fun hu => (hnext _ (hnone hu)).trans (hnone₂ hu)⟩
        · exact .inr ⟨hunset, hset₂, v, (hnext _ (hnone hunset)).trans hv, hholds⟩
      rw [hset₁] at hst
      rcases hst with ⟨hset₂, hb₂, -⟩ | ⟨hunset₁, -⟩
      · exact .inr ⟨hunset, hset₂, v, hfirst _ _ hv, by rw [hb₂]; exact hholds⟩
      · cases hunset₁
    · intro e₁ hmem hunset₁ v hv
      obtain ⟨i, he₁⟩ := mem_iff_getElem?.mp hmem
      obtain ⟨e, he⟩ := hstep.back he₁
      obtain ⟨e₁', he₁', hline₁⟩ := hstep.each i e he
      rw [he₁] at he₁'
      cases he₁'
      rcases hline₁.stored with ⟨hset₁, -, hnone⟩ | ⟨-, hset₁, -⟩
      · have hunset : e.isSet = false := hset₁.symm.trans hunset₁
        rw [hline₁.name] at hv
        rw [hline₁.kcfg]
        exact hg e (mem_of_getElem? he) hunset v ((hnext _ (hnone hunset)).trans hv)
      · rw [hunset₁] at hset₁
        cases hset₁

end

-- ======== what is taken for another

/-- A text that starts neither with a sign nor with a digit is no number. -/
theorem intText_of_head {c : UInt8} (r : Bytes) (hspace : isSpaceByte c = false) (hminus : c ≠ 45)
    (hplus : c ≠ 43) (hzero : c ≠ 48) (hdigit : isDigitOf 10 c = false) :
    intText (c :: r) = none := by
  have hbase : numberBase (c :: r) = (10, c :: r) := by
    rw [numberBase]
    · rintro x d t ⟨⟩
      exact hzero rfl
    · rintro t ⟨⟩
      exact hzero rfl
  have hsign : takeSign (c :: r) = (false, c :: r) := by
    rw [takeSign]
    · rintro t ⟨⟩
      exact hminus rfl
    · rintro t ⟨⟩
      exact hplus rfl
  have hscan : scanNumber (c :: r) = none := by
    rw [scanNumber, dropWhile_cons_of_neg (by rw [hspace]; exact Bool.false_ne_true), hsign]
    rw [hbase]
    rw [takeWhile_cons_of_neg (by rw [hdigit]; exact Bool.false_ne_true)]
    rfl
  rw [intText, hscan]

theorem intText_of_letter {c : UInt8} (hc : isKcfgLetter c = true) (r : Bytes) :
    intText (c :: r) = none := by
  simp only [isKcfgLetter, Bool.or_eq_true, beq_iff_eq] at hc
  rcases hc with (rfl | rfl) | rfl <;>
    exact intText_of_head r (by decide) (by decide) (by decide) (by decide) (by decide)

/-- An extern that holds its value was given by a good text. -/
theorem KcfgHolds.good {o : ByteOrder} {k : Kcfg} {value b : Bytes} (h : KcfgHolds o k value b)
    (hlen : b.length = k.sz) : GoodText k value := by
  cases h with
  | @letter c _ hc hb =>
    refine ⟨?_, fun z _ hz => ?_⟩
    · rintro c' ⟨⟩ -
      rfl
    · rw [intText_of_letter hc] at hz
      cases hz
  | string htype hb =>
    refine ⟨?_, fun z _ hz => ?_⟩
    · rintro c' ⟨⟩ hc
      cases hc
    · rw [cons_append, intText_of_head _ (by decide) (by decide) (by decide) (by decide)
        (by decide)] at hz
      cases hz
  | number htype hz hb =>
    refine ⟨fun c hhead hc => ?_, fun z _ hz' _ _ _ => ?_⟩
    · cases value with
      | nil => cases hhead
      | cons c' r =>
        cases hhead
        rw [intText_of_letter hc] at hz
        cases hz
    · rw [hz] at hz'
      cases hz'
      have := intOf_fits o k.isSigned b
      rwa [hb, hlen] at this

/-- Whatever is accepted is written inside the data. -/
theorem setKcfgValue_length {o : ByteOrder} {k : Kcfg} {data data' value : Bytes}
    (h : setKcfgValue o k data value = .ok data') : data'.length = data.length := by
  have htri : ∀ c, setKcfgValueTri o k data c = .ok data' → data'.length = data.length := by
    intro c h
    rw [setKcfgValueTri] at h
    split at h
    · split at h
      · cases h
      · exact storeBytes_length h
    · exact storeBytes_length h
    · exact storeBytes_length h
    · cases h
  rw [setKcfgValue.eq_def] at h
  split at h
  · exact htri _ h
  · exact htri _ h
  · exact htri _ h
  · obtain ⟨_, _, h⟩ := of_bind_ok h
    obtain ⟨_, _, h⟩ := of_bind_ok h
    exact storeBytes_length h
  · obtain ⟨_, _, h⟩ := of_bind_ok h
    obtain ⟨_, _, h⟩ := of_bind_ok h
    obtain ⟨_, _, h⟩ := of_bind_ok h
    obtain ⟨_, _, h⟩ := of_bind_ok h
    obtain ⟨_, _, h⟩ := of_bind_ok h
    obtain ⟨_, _, h⟩ := of_bind_ok h
    split at h
    · exact storeBytes_length h
    · cases h

theorem readKconfig_length {o : ByteOrder} {lines : List Bytes} {s s' : KcfgState}
    (h : readKconfig o lines s = .ok () s') : s'.data.length = s.data.length := by
  induction lines generalizing s with
  | nil =>
    cases h
    rfl
  | cons line lines ih =>
    obtain ⟨_, s₁, hline, hlines⟩ := bind_eq_ok.mp h
    refine (ih hlines).trans ?_
    rcases processKconfigLine_cases hline with ⟨rfl, -⟩ | ⟨_, _, _, _, _, -, -, -, -, hdata, rfl⟩
    · rfl
    · exact setKcfgValue_length hdata

-- ======== the theorem

/-- What an extern is to hold after the lines: the value on the first that
names it, or what it held before. -/
def KcfgStored (o : ByteOrder) (lines : List Bytes) (s s' : KcfgState) (e : KcfgExtern) : Prop :=
  match firstValue lines e.name with
  | some value => KcfgHolds o e.kcfg value (s'.bytesOf e)
  | none => s'.bytesOf e = s.bytesOf e

/-- Lines read without an error leave in each extern what is written on the
first line that names it, just if the texts that are stored are good ones. In
particular the numbers stored are then those written. -/
theorem kconfig_values_stored {o : ByteOrder} {lines : List Bytes} {s s' : KcfgState}
    (hl : s.Laid) (hp : s.Plain) (hunset : ∀ e ∈ s.externs, e.isSet = false)
    (h : readKconfig o lines s = .ok () s') :
    (∀ e ∈ s.externs, KcfgStored o lines s s' e)
      ↔ ∀ e ∈ s.externs, ∀ value, firstValue lines e.name = some value → GoodText e.kcfg value := by
  constructor
  · intro hstored e he value hv
    have hst := hstored e he
    rw [KcfgStored, hv] at hst
    obtain ⟨i, hi⟩ := mem_iff_getElem?.mp he
    have hin : e.kcfg.dataOff + e.kcfg.sz ≤ s.data.length := hl.inside _ (KcfgState.mem_fixed hi)
    refine KcfgHolds.good hst ?_
    rw [KcfgState.bytesOf, slice_length (by rw [readKconfig_length h]; exact hin)]
  · intro hgood e he
    have hstep := readKconfig_step hl hp (fun e he _ => hgood e he) h
    obtain ⟨i, hi⟩ := mem_iff_getElem?.mp he
    obtain ⟨e', -, hline⟩ := hstep.each i e hi
    rw [KcfgStored]
    rcases hline.stored with ⟨-, hb, hnone⟩ | ⟨-, -, v, hv, hholds⟩
    · rw [hnone (hunset e he)]
      exact hb
    · rw [hv]
      exact hholds

-- ======== two externs

/-- An `int` "CONFIG_A" and a tristate "CONFIG_B". -/
private def twoExterns : KcfgState where
  externs :=
    [⟨⟨ascii "CONFIG_A", by decide⟩, false, ⟨.int, 4, 4, 0, true⟩⟩,
     ⟨⟨ascii "CONFIG_B", by decide⟩, false, ⟨.tristate, 4, 4, 4, false⟩⟩]
  data := List.replicate 8 0

/-- "-5" for the first of them, "m" for the second, and the first once more. -/
private def twoLines : List Bytes :=
  [ascii "CONFIG_A=-5\n", ascii "# CONFIG_C is not set\n", ascii "CONFIG_B=m\n",
   ascii "CONFIG_A=7\n"]

/-- Both hold the values of the first lines that name them. -/
theorem kconfig_values_stored_two : twoExterns.Laid ∧ twoExterns.Plain
      ∧ ∃ s', readKconfig .little twoLines twoExterns = .ok () s'
        ∧ ∀ e ∈ twoExterns.externs, KcfgStored .little twoLines twoExterns s' e := by
  have hl : twoExterns.Laid :=
    ⟨by decide +kernel, by decide +kernel, by
      rintro p (_ | ⟨_, _ | ⟨_, hp⟩⟩)
      · exact .inr (.inl rfl)
      · exact Nat.zero_lt_succ 3
      · cases hp⟩
  have hp : twoExterns.Plain := ⟨by decide +kernel, by decide +kernel⟩
  obtain ⟨u, hv⟩ := exists_ok_of_isSome
    (r := value (readKconfig .little twoLines twoExterns)) (by decide +kernel)
  have hrun := eq_of_value hv
  refine ⟨hl, hp, _, hrun, (kconfig_values_stored hl hp (by decide +kernel) hrun).mpr ?_⟩
  rintro e (_ | ⟨_, _ | ⟨_, he⟩⟩) v hfirst
  · have hval : firstValue twoLines ⟨ascii "CONFIG_A", by decide⟩ = some (ascii "-5") := by
      decide +kernel
    obtain rfl : ascii "-5" = v := Option.some.inj (hval.symm.trans hfirst)
    refine ⟨?_, fun z z' hz _ _ _ => ?_⟩
    · rintro c ⟨⟩ hc
      cases hc
    · obtain rfl : -5 = z := Option.some.inj ((by decide +kernel : some (-5) = _).trans hz)
      decide
  · have hval : firstValue twoLines ⟨ascii "CONFIG_B", by decide⟩ = some (ascii "m") := by
      decide +kernel
    obtain rfl : ascii "m" = v := Option.some.inj (hval.symm.trans hfirst)
    refine ⟨?_, fun z z' hz _ _ _ => ?_⟩
    · rintro c ⟨⟩ -
      rfl
    · rw [show intText (ascii "m") = none by decide +kernel] at hz
      cases hz
  · cases he

/-- An unsigned 64-bit "CONFIG_A". -/
private def oneExtern : KcfgState where
  externs := [⟨⟨ascii "CONFIG_A", by decide⟩, false, ⟨.int, 8, 8, 0, false⟩⟩]
  data := List.replicate 8 0

/-- The value -1 is accepted for an unsigned extern, which then does not hold
it. -/
theorem kconfig_value_negative : oneExtern.Laid ∧ oneExtern.Plain
      ∧ ∃ s', readKconfig .little [ascii "CONFIG_A=-1\n"] oneExtern = .ok () s'
        ∧ s'.data = List.replicate 8 255
        ∧ ∃ e ∈ oneExtern.externs, ¬ KcfgStored .little [ascii "CONFIG_A=-1\n"] oneExtern s' e := by
  have hl : oneExtern.Laid :=
    ⟨by decide +kernel, by decide +kernel, by
      rintro p (_ | ⟨_, hp⟩)
      · exact .inr (.inr rfl)
      · cases hp⟩
  have hp : oneExtern.Plain := ⟨by decide +kernel, by decide +kernel⟩
  obtain ⟨u, hv⟩ := exists_ok_of_isSome
    (r := value (readKconfig .little [ascii "CONFIG_A=-1\n"] oneExtern)) (by decide +kernel)
  refine ⟨hl, hp, _, eq_of_value hv, by decide +kernel, _, mem_singleton_self _, ?_⟩
  intro hstored
  have hval : firstValue [ascii "CONFIG_A=-1\n"] ⟨ascii "CONFIG_A", by decide⟩
      = some (ascii "-1") := by decide +kernel
  rw [KcfgStored, hval] at hstored
  have hgood := hstored.good (by decide +kernel)
  have hfits := hgood.fits (-1) (2 ^ 64 - 1) (by decide +kernel) (by decide) (by decide) (by decide)
  exact absurd hfits (by decide)

end Libbpf
