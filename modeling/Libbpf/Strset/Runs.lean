/-
A string set over any sequence of calls.

`Ran max data log ss` says that the calls of `log`, the latest first, led from
the set made of `data` to `ss`, each with the `int` it returned. The offsets
are `long`s inside the set and come back as an `int`, so the size limit has to
be one that an `int` can count to, as it is for every set that is made in the
library.

A set knows a string if the string starts an entry of the initial data or was
added since (`Known`). What it knows it finds, and what it finds it knows, as
long as there is room to write the string behind the data: that is how a
lookup compares, and a set that is full cannot look up even what it has.
-/
import Libbpf.Strset

namespace Libbpf

open Lib
open List hiding after

variable {c : Call} {s : CStr}

namespace Strset

/-- A call on a set. -/
inductive Call where
  | addStr (s : CStr)
  | findStr (s : CStr)
deriving DecidableEq

namespace Call

/-- The string a call is about. -/
def str : Call → CStr
  | .addStr s => s
  | .findStr s => s

def run : Call → Run Strset Nat
  | .addStr s => Strset.addStr s
  | .findStr s => do
    let ss ← get
    liftRes (ss.findStr s)

end Call

/-- The `int` that a call returns: a `long` offset cut to its low half, or the
code of an error. -/
def retOf : EStateM.Result Stop Strset Nat → Int
  | .ok off _ => Int.bmod off (2 ^ 32)
  | .error (.err code) _ => code
  | .error _ _ => 0

/-- The sets that calls lead to, with the calls and what they returned. -/
inductive Ran (max : Nat) (data : Bytes) : List (Call × Int) → Strset → Prop
  | new : Ran max data [] (Strset.new max data)
  | call {log : List (Call × Int)} {ss : Strset} (c : Call) (h : Ran max data log ss) :
      Ran max data ((c, retOf (c.run ss)) :: log) (after (c.run ss))

/-- The entries of the data from the one at the first offset on. -/
inductive Entry (data : Bytes) : Nat → Nat → Prop
  | here {off : Nat} (hlt : off < data.length) : Entry data off off
  | next {off o : Nat} (hlt : off < data.length)
      (h : Entry data (off + (cstrAt data off).val.length + 1) o) : Entry data off o

/-- The string starts an entry of the initial data or was added. -/
def Known (data : Bytes) (log : List (Call × Int)) (s : CStr) : Prop :=
  (∃ off, Entry data 0 off ∧ cstrAt data off = s) ∨ ∃ ret, (Call.addStr s, ret) ∈ log ∧ 0 ≤ ret

-- ======== the first index

section

variable {data : Bytes} {max : Nat}

/-- A step of the indexing loop adds the string at its offset. -/
theorem holds_insert {hash : Hashmap} (hw : Wf ⟨data, max, hash⟩) (off : Nat) (s : CStr) :
    (∃ o, Holds ⟨data, max, (hash.insert (hashFn data) (equalFn data) off off .add).map⟩ s o)
      ↔ cstrAt data off = s ∨ ∃ o, Holds ⟨data, max, hash⟩ s o := by
  cases hf : hash.findEntry (equalFn data) off (hashBits (hashFn data off) hash.capBits) with
  | some e =>
    simp only [Hashmap.insert, hf]
    refine ⟨.inr, ?_⟩
    rintro (hs | h)
    · obtain ⟨he, hq⟩ := Hashmap.findEntry_some hf
      obtain ⟨k, v⟩ := e
      have hv : v = k := (hw.keys _ he).1
      rw [hv] at he
      exact ⟨k, he, (equalFn_iff.mp hq).trans hs⟩
    · exact h
  | none =>
    simp only [Hashmap.insert, hf]
    obtain ⟨-, hent⟩ := Hashmap.link_spec hw.hash off off
    constructor
    · rintro ⟨o, ho, hs⟩
      rcases (hent _).mp ho with heq | ho
      · cases heq
        exact .inl hs
      · exact .inr ⟨o, ho, hs⟩
    · rintro (hs | ⟨o, ho, hs⟩)
      · exact ⟨off, (hent _).mpr (Or.inl rfl), hs⟩
      · exact ⟨o, (hent _).mpr (Or.inr ho), hs⟩

/-- The indexing loop adds the strings of the entries it goes over. -/
theorem holds_index (s : CStr) :
    ∀ (fuel off : Nat) (hash : Hashmap), Wf ⟨data, max, hash⟩ → data.length ≤ off + fuel →
      ((∃ o, Holds ⟨data, max, index data fuel off hash⟩ s o)
        ↔ (∃ o, Entry data off o ∧ cstrAt data o = s) ∨ ∃ o, Holds ⟨data, max, hash⟩ s o) := by
  -- past the end there is no entry
  have hdone : ∀ {off : Nat} {P : Prop}, data.length ≤ off →
      (P ↔ (∃ o, Entry data off o ∧ cstrAt data o = s) ∨ P) := by
    intro off P hoff
    refine ⟨.inr, ?_⟩
    rintro (⟨o, ho, -⟩ | h)
    · cases ho with
      | here hlt => omega
      | next hlt _ => omega
    · exact h
  intro fuel
  induction fuel with
  | zero =>
    intro off hash hw hlen
    exact hdone hlen
  | succ fuel ih =>
    intro off hash hw hlen
    unfold index
    by_cases hoff : off < data.length
    · rw [if_pos hoff, ih _ _ (wf_insert hw hoff) (by omega), holds_insert hw, ← or_assoc]
      refine or_congr_left ⟨?_, ?_⟩
      · rintro (⟨o, ho, hs⟩ | hs)
        · exact ⟨o, .next hoff ho, hs⟩
        · exact ⟨off, .here hoff, hs⟩
      · rintro ⟨o, ho, hs⟩
        cases ho with
        | here _ => exact .inr hs
        | next _ ho => exact .inl ⟨o, ho, hs⟩
    · rw [if_neg hoff]
      exact hdone (Nat.le_of_not_lt hoff)

/-- A new set has the strings that start an entry. -/
theorem holds_new (ht : Terminated data) (s : CStr) :
    (∃ o, (Strset.new max data).Holds s o) ↔ ∃ o, Entry data 0 o ∧ cstrAt data o = s := by
  have hw : Wf ⟨data, max, Hashmap.init⟩ :=
    ⟨Hashmap.wf_init, by simp [Hashmap.entries, Hashmap.init],
      by simp [Hashmap.entries, Hashmap.init], ht⟩
  refine (holds_index s data.length 0 Hashmap.init hw (by omega)).trans ?_
  refine ⟨?_, .inl⟩
  rintro (h | ⟨o, ho, -⟩)
  · exact h
  · simp [Hashmap.entries, Hashmap.init] at ho

end

-- ======== the calls

section

variable {ss : Strset}

theorem bmod_of_lt {off : Nat} (h : off < 2 ^ 31) : Int.bmod off (2 ^ 32) = off :=
  Int.bmod_eq_of_le (by omega) (by omega)

/-- A string that is there and that there is room for is found, by either
call. -/
theorem run_found (hw : ss.Wf) (hmax : ss.strsDataMaxLen ≤ 2 ^ 31) {off : Nat}
    (hh : ss.Holds c.str off) (hfit : ss.Fits c.str) :
    retOf (c.run ss) = off ∧ after (c.run ss) = ss := by
  have hlt := hw.holds_lt hh
  have hoff : Int.bmod off (2 ^ 32) = off := by
    unfold Fits at hfit
    exact bmod_of_lt (by omega)
  cases c with
  | addStr s =>
    rcases addStr_cases hw s with ⟨o, ho, -, hrun⟩ | ⟨ss', hno, -⟩ | ⟨hno, -⟩
    · have hsame : o = off := hw.holds_unique ho hh
      rw [Call.run, hrun, hsame]
      exact ⟨hoff, rfl⟩
    · exact absurd hh (hno off)
    · exact absurd hfit hno
  | findStr s =>
    have hrun : Call.run (.findStr s) ss = .ok off ss := by
      rw [Call.run, run_bind, run_get]
      dsimp only
      rw [(findStr_eq_ok hw s off).mpr ⟨hh, hfit⟩]
      rfl
    rw [hrun]
    exact ⟨hoff, rfl⟩

/-- Without room a call fails, and changes nothing. -/
theorem run_full (hw : ss.Wf) (hfit : ¬ ss.Fits c.str) :
    retOf (c.run ss) = -ENOMEM ∧ after (c.run ss) = ss := by
  cases c with
  | addStr s =>
    rcases addStr_cases hw s with ⟨o, -, hf, -⟩ | ⟨ss', -, hf, -⟩ | ⟨-, hrun⟩
    · exact absurd hf hfit
    · exact absurd hf hfit
    · rw [Call.run, hrun]
      exact ⟨rfl, rfl⟩
  | findStr s =>
    have hrun : Call.run (.findStr s) ss = .error (.err (-ENOMEM)) ss := by
      rw [Call.run, run_bind, run_get]
      dsimp only
      have hfit : ¬ ss.Fits s := hfit
      unfold findStr
      rw [strAppend_eq, if_neg hfit]
      rfl
    rw [hrun]
    exact ⟨rfl, rfl⟩

/-- A string that is not there is not found. -/
theorem run_missing (hw : ss.Wf) (hno : ∀ off, ¬ ss.Holds s off) (hfit : ss.Fits s) :
    retOf (Call.run (.findStr s) ss) = -ENOENT ∧ after (Call.run (.findStr s) ss) = ss := by
  have hrun : Call.run (.findStr s) ss = .error (.err (-ENOENT)) ss := by
    rw [Call.run, run_bind, run_get]
    dsimp only
    cases hf : ss.findStr s with
    | ok off => exact absurd ((findStr_eq_ok hw s off).mp hf).1 (hno off)
    | error e =>
      unfold findStr at hf
      rw [strAppend_eq, if_pos hfit] at hf
      dsimp only [bind, Except.bind] at hf
      split at hf
      · cases hf
      · cases hf
        rfl
  rw [hrun]
  exact ⟨rfl, rfl⟩

/-- A string that is not there is added behind the others. -/
theorem run_added (hw : ss.Wf) (hmax : ss.strsDataMaxLen ≤ 2 ^ 31)
    (hno : ∀ off, ¬ ss.Holds s off) (hfit : ss.Fits s) :
    ∃ ss' : Strset, retOf (Call.run (.addStr s) ss) = ss.strsData.length
      ∧ after (Call.run (.addStr s) ss) = ss' ∧ ss'.Wf
      ∧ ss'.strsData = ss.strsData ++ s.stored ∧ ss'.strsDataMaxLen = ss.strsDataMaxLen
      ∧ ∀ t off, ss'.Holds t off ↔ (t = s ∧ off = ss.strsData.length) ∨ ss.Holds t off := by
  rcases addStr_cases hw s with ⟨o, ho, -⟩ | ⟨ss', -, -, hrun, hw', hdata, hmax', hholds⟩
    | ⟨hn, -⟩
  · exact absurd ho (hno o)
  · have hoff : Int.bmod ss.strsData.length (2 ^ 32) = ss.strsData.length := by
      have hpos : 0 < s.stored.length := by simp [CStr.stored]
      unfold Fits at hfit
      exact bmod_of_lt (by omega)
    rw [Call.run, hrun]
    exact ⟨ss', hoff, rfl, hw', hdata, hmax', hholds⟩
  · exact absurd hfit hn

end

-- ======== the runs

/-- What holds after any sequence of calls. -/
structure Inv (max : Nat) (data : Bytes) (log : List (Call × Int)) (ss : Strset) : Prop where
  wf : ss.Wf
  maxLen : ss.strsDataMaxLen = max
  known : ∀ s, (∃ off, ss.Holds s off) ↔ Known data log s
  returned : ∀ c ret, (c, ret) ∈ log → 0 ≤ ret → ∃ off : Nat, ret = off ∧ ss.Holds c.str off

section

variable {max : Nat} {data : Bytes} {log : List (Call × Int)} {ss : Strset}

theorem known_cons {ret : Int} :
    Known data ((c, ret) :: log) s ↔ (c = .addStr s ∧ 0 ≤ ret) ∨ Known data log s := by
  constructor
  · rintro (h | ⟨r, hr, h0⟩)
    · exact .inr (.inl h)
    · rcases mem_cons.mp hr with heq | hr
      · cases heq
        exact .inl ⟨rfl, h0⟩
      · exact .inr (.inr ⟨r, hr, h0⟩)
  · rintro (⟨rfl, h0⟩ | h | ⟨r, hr, h0⟩)
    · exact .inr ⟨ret, mem_cons_self, h0⟩
    · exact .inl h
    · exact .inr ⟨r, mem_cons_of_mem _ hr, h0⟩

/-- A call that changes nothing. -/
theorem Inv.same (h : Inv max data log ss) {ret : Int}
    (hknown : 0 ≤ ret → ∃ off : Nat, ret = off ∧ ss.Holds c.str off) :
    Inv max data ((c, ret) :: log) ss := by
  refine ⟨h.wf, h.maxLen, fun s => ?_, fun c' r hr h0 => ?_⟩
  · rw [known_cons, h.known]
    refine ⟨.inr, ?_⟩
    rintro (⟨rfl, h0⟩ | hs)
    · obtain ⟨off, -, hh⟩ := hknown h0
      exact (h.known s).mp ⟨off, hh⟩
    · exact hs
  · rcases mem_cons.mp hr with heq | hr
    · cases heq
      exact hknown h0
    · exact h.returned c' r hr h0

/-- Each call keeps what holds. -/
theorem Inv.call (hmax : max ≤ 2 ^ 31) (h : Inv max data log ss) (c : Call) :
    Inv max data ((c, retOf (c.run ss)) :: log) (after (c.run ss)) := by
  have hlimit : ss.strsDataMaxLen ≤ 2 ^ 31 := h.maxLen ▸ hmax
  by_cases hfit : ss.Fits c.str
  · by_cases hh : ∃ off, ss.Holds c.str off
    · obtain ⟨off, hh⟩ := hh
      obtain ⟨hret, hafter⟩ := run_found h.wf hlimit hh hfit
      rw [hret, hafter]
      exact h.same fun _ => ⟨off, rfl, hh⟩
    have hno : ∀ off, ¬ ss.Holds c.str off := fun off ho => hh ⟨off, ho⟩
    cases c with
    | findStr s =>
      obtain ⟨hret, hafter⟩ := run_missing h.wf hno hfit
      have hret : retOf (Call.run (.findStr s) ss) = -ENOENT := hret
      have hafter : after (Call.run (.findStr s) ss) = ss := hafter
      rw [hret, hafter]
      exact h.same fun h0 => absurd h0 (by decide)
    | addStr s =>
      obtain ⟨ss', hret, hafter, hw, -, hm, hholds⟩ := run_added h.wf hlimit hno hfit
      have hret : retOf (Call.run (.addStr s) ss) = ss.strsData.length := hret
      have hafter : after (Call.run (.addStr s) ss) = ss' := hafter
      rw [hafter]
      refine ⟨hw, hm.trans h.maxLen, fun t => ?_, fun c' r hr h0 => ?_⟩
      · rw [known_cons, ← h.known]
        constructor
        · rintro ⟨off, ho⟩
          rcases (hholds t off).mp ho with ⟨rfl, -⟩ | ho
          · refine .inl ⟨rfl, ?_⟩
            rw [hret]
            exact Int.natCast_nonneg _
          · exact .inr ⟨off, ho⟩
        · rintro (⟨heq, -⟩ | ⟨off, ho⟩)
          · cases heq
            exact ⟨_, (hholds _ _).mpr (.inl ⟨rfl, rfl⟩)⟩
          · exact ⟨off, (hholds t off).mpr (.inr ho)⟩
      · rcases mem_cons.mp hr with heq | hr
        · cases heq
          exact ⟨_, hret, (hholds _ _).mpr (.inl ⟨rfl, rfl⟩)⟩
        · obtain ⟨off, hoff, ho⟩ := h.returned c' r hr h0
          exact ⟨off, hoff, (hholds _ _).mpr (.inr ho)⟩
  · obtain ⟨hret, hafter⟩ := run_full h.wf hfit
    rw [hret, hafter]
    exact h.same fun h0 => absurd h0 (by decide)

theorem Ran.inv (hmax : max ≤ 2 ^ 31) (ht : Terminated data) (h : Ran max data log ss) :
    Inv max data log ss := by
  induction h with
  | new =>
    refine ⟨wf_new max ht, rfl, fun s => ?_, fun c ret hr => (by cases hr)⟩
    rw [holds_new ht]
    refine ⟨.inl, ?_⟩
    rintro (h | ⟨ret, hr, -⟩)
    · exact h
    · cases hr
  | call c _ ih => exact ih.call hmax c

end

/-- A string set over any sequence of calls. What was returned denotes the
string it was returned for, one string has one offset, and two strings have
two. The next call finds what is known, a lookup finds nothing else and
changes nothing, an addition appends what is not known, and nothing works
without room for the string behind the data. -/
theorem strset_run {max : Nat} {data : Bytes} {log : List (Call × Int)} {ss : Strset}
    (hmax : max ≤ 2 ^ 31) (ht : Terminated data) (h : Ran max data log ss) :
    (∀ c ret, (c, ret) ∈ log → 0 ≤ ret → ∃ off : Nat, ret = off
        ∧ off < ss.strsData.length ∧ cstrAt ss.strsData off = c.str)
      ∧ (∀ c ret c' ret', (c, ret) ∈ log → 0 ≤ ret → (c', ret') ∈ log → 0 ≤ ret' →
        (c.str = c'.str ↔ ret = ret'))
      ∧ (∀ s, 0 ≤ retOf (Call.run (.findStr s) ss) ↔ Known data log s ∧ ss.Fits s)
      ∧ (∀ s, after (Call.run (.findStr s) ss) = ss)
      ∧ (∀ s, ss.Fits s → Known data log s →
        0 ≤ retOf (Call.run (.addStr s) ss) ∧ after (Call.run (.addStr s) ss) = ss)
      ∧ (∀ s, ss.Fits s → ¬ Known data log s → retOf (Call.run (.addStr s) ss) = ss.strsData.length
          ∧ (after (Call.run (.addStr s) ss)).strsData = ss.strsData ++ s.stored)
      ∧ ∀ c : Call, ¬ ss.Fits c.str → retOf (c.run ss) = -ENOMEM ∧ after (c.run ss) = ss := by
  have hinv := h.inv hmax ht
  have hlimit : ss.strsDataMaxLen ≤ 2 ^ 31 := hinv.maxLen ▸ hmax
  have hfind : ∀ s, (0 ≤ retOf (Call.run (.findStr s) ss) ↔ Known data log s ∧ ss.Fits s)
      ∧ after (Call.run (.findStr s) ss) = ss := by
    intro s
    by_cases hfit : ss.Fits s
    · by_cases hk : Known data log s
      · obtain ⟨off, hh⟩ := (hinv.known s).mpr hk
        obtain ⟨hret, hafter⟩ := run_found (c := .findStr s) hinv.wf hlimit hh hfit
        exact ⟨⟨fun _ => ⟨hk, hfit⟩, fun _ => hret ▸ Int.natCast_nonneg off⟩, hafter⟩
      obtain ⟨hret, hafter⟩ := run_missing hinv.wf
        (fun off ho => hk ((hinv.known s).mp ⟨off, ho⟩)) hfit
      refine ⟨⟨fun h0 => ?_, fun h => absurd h.1 hk⟩, hafter⟩
      rw [hret] at h0
      exact absurd h0 (by decide)
    · obtain ⟨hret, hafter⟩ := run_full (c := .findStr s) hinv.wf hfit
      refine ⟨⟨fun h0 => ?_, fun h => absurd h.2 hfit⟩, hafter⟩
      rw [hret] at h0
      exact absurd h0 (by decide)
  refine ⟨fun c ret hc h0 => ?_, fun c ret c' ret' hc h0 hc' h0' => ?_, fun s => (hfind s).1,
    fun s => (hfind s).2, fun s hfit hk => ?_, fun s hfit hk => ?_, fun c hfit => ?_⟩
  · obtain ⟨off, hoff, hh⟩ := hinv.returned c ret hc h0
    exact ⟨off, hoff, hinv.wf.holds_lt hh, hh.2⟩
  · obtain ⟨off, rfl, hh⟩ := hinv.returned c ret hc h0
    obtain ⟨off', rfl, hh'⟩ := hinv.returned c' ret' hc' h0'
    constructor
    · intro hs
      rw [hs] at hh
      rw [hinv.wf.holds_unique hh hh']
    · intro ho
      rw [Int.ofNat_inj.mp ho] at hh
      exact hh.2.symm.trans hh'.2
  · obtain ⟨off, hh⟩ := (hinv.known s).mpr hk
    obtain ⟨hret, hafter⟩ := run_found (c := .addStr s) hinv.wf hlimit hh hfit
    exact ⟨hret ▸ Int.natCast_nonneg off, hafter⟩
  · obtain ⟨ss', hret, hafter, -, hdata, -⟩ := run_added hinv.wf hlimit
      (fun off ho => hk ((hinv.known s).mp ⟨off, ho⟩)) hfit
    exact ⟨hret, hafter ▸ hdata⟩
  · exact run_full hinv.wf hfit

private def cstrAbc : CStr := ⟨[97, 98, 99], by decide⟩

/-- The set that "abc" is added to, the first thing after the initial data. -/
private def withAbc (max : Nat) (data : Bytes) : Strset :=
  after (Call.run (.addStr cstrAbc) (Strset.new max data))

/-- A set with room for "abc" twice. -/
theorem strset_run_twice :
    let log : List (Call × Int) := [(.findStr cstrAbc, 1), (.addStr cstrAbc, 1)]
    ∃ ss, Ran 9 [0] log ss ∧ ss.strsData = [0, 97, 98, 99, 0] ∧ cstrAt ss.strsData 1 = cstrAbc
      ∧ (0 ≤ retOf (Call.run (.findStr cstrAbc) ss) ↔ Known [0] log cstrAbc ∧ ss.Fits cstrAbc) := by
  have hadd : retOf (Call.run (.addStr cstrAbc) (Strset.new 9 [0])) = 1 := by decide +kernel
  have hfound : retOf (Call.run (.findStr cstrAbc) (withAbc 9 [0])) = 1 := by decide +kernel
  have hdata : (after (Call.run (.findStr cstrAbc) (withAbc 9 [0]))).strsData
      = [0, 97, 98, 99, 0] := by decide +kernel
  have hran : Ran 9 [0] [(.findStr cstrAbc, 1), (.addStr cstrAbc, 1)]
      (after (Call.run (.findStr cstrAbc) (withAbc 9 [0]))) := by
    have hone : Ran 9 [0] [(.addStr cstrAbc, _)] (withAbc 9 [0]) := .call (.addStr cstrAbc) .new
    have htwo := Ran.call (.findStr cstrAbc) hone
    rwa [hadd, hfound] at htwo
  obtain ⟨hdenotes, -, hfind, -⟩ := strset_run (by decide) (by decide) hran
  obtain ⟨off, hoff, -, hs⟩ := hdenotes _ _ (mem_cons_self) (by decide)
  refine ⟨_, hran, hdata, ?_, hfind cstrAbc⟩
  have hone : off = 1 := by omega
  rw [hone] at hs
  exact hs

/-- A set that "abc" fills no longer finds it. -/
theorem full_set_finds_nothing :
    ∃ ss, Ran 4 [] [(.addStr cstrAbc, 0)] ss ∧ ss.strsData = [97, 98, 99, 0]
      ∧ retOf (Call.run (.findStr cstrAbc) ss) = -ENOMEM
      ∧ retOf (Call.run (.addStr cstrAbc) ss) = -ENOMEM := by
  have hadd : retOf (Call.run (.addStr cstrAbc) (Strset.new 4 [])) = 0 := by decide +kernel
  refine ⟨withAbc 4 [], ?_, by decide +kernel, by decide +kernel, by decide +kernel⟩
  rw [← hadd]
  exact .call (.addStr cstrAbc) .new

end Strset

end Libbpf
