/-
Which program an instruction belongs to.

`bpf_object__add_programs` makes a program of each function symbol of a
section, and nothing keeps the symbols from overlapping. `find_prog_by_sec_insn`
halves the sorted programs down to the last one that starts at or before the
instruction, and looks at that one alone. An earlier program that reaches
further is missed, unless the next program starts before the gap
(`find_prog_exact_iff`).
-/
import Libbpf.Btf.Parse
import Libbpf.Linker.Relos

namespace Libbpf

open Lib List

def LIBBPF_ERRNO__FORMAT : Int := 4001
def STT_FUNC : Nat := 2
def BPF_INSN_SZ : Nat := 8

/-- The fields of `struct bpf_program` that say where its code is. -/
structure BpfProgram where
  secIdx : Nat
  secInsnOff : Nat
  secInsnCnt : Nat
deriving DecidableEq

/-- The instruction behind the last one. -/
def BpfProgram.stop (p : BpfProgram) : Nat := p.secInsnOff + p.secInsnCnt

/-- `prog_contains_insn`. The sum does not wrap around, `addPrograms` sees to that. -/
def BpfProgram.containsInsn (p : BpfProgram) (insnIdx : Nat) : Prop :=
  p.secInsnOff ≤ insnIdx ∧ insnIdx < p.stop

instance (p : BpfProgram) (insnIdx : Nat) : Decidable (p.containsInsn insnIdx) :=
  inferInstanceAs (Decidable (_ ∧ _))

/-- `bpf_object__init_prog`. -/
def initProg (secIdx secOff insnDataSz : Nat) : Res BpfProgram := do
  failIf (insnDataSz = 0 ∨ insnDataSz % BPF_INSN_SZ ≠ 0 ∨ secOff % BPF_INSN_SZ ≠ 0) EINVAL
  return ⟨secIdx, secOff / BPF_INSN_SZ, insnDataSz / BPF_INSN_SZ⟩

/-- `bpf_object__add_programs` for section `secIdx` of `secSz` bytes, over the
symbols that are left; `symStr` is `elf_sym_str`. -/
def addPrograms (symStr : Nat → Option CStr) (textShndx : Int) (secIdx secSz : Nat) :
    List Elf64Sym → List BpfProgram → Res (List BpfProgram)
  | [], progs => .ok progs
  | sym :: syms, progs =>
    if sym.stShndx ≠ secIdx ∨ sym.type ≠ STT_FUNC then
      addPrograms symStr textShndx secIdx secSz syms progs
    else do
      let stop := (sym.stValue + sym.stSize) % 2 ^ 64
      failIf (symStr sym.stName = none) LIBBPF_ERRNO__FORMAT
      failIf (secSz < stop ∨ stop < sym.stValue) LIBBPF_ERRNO__FORMAT
      failIf (secIdx ≠ textShndx ∧ sym.bind = STB_LOCAL) ENOTSUP
      -- they are counted in an int
      faultIf (2 ^ 31 ≤ progs.length + 1)
      let prog ← initProg secIdx sym.stValue sym.stSize
      addPrograms symStr textShndx secIdx secSz syms (progs ++ [prog])

/-- The order that `cmp_progs` sorts by; programs that start at the same
instruction come in any order. -/
def BpfProgram.le (p q : BpfProgram) : Prop :=
  p.secIdx < q.secIdx ∨ p.secIdx = q.secIdx ∧ p.secInsnOff ≤ q.secInsnOff

/-- The programs of an object that was opened: those of its sections, sorted. -/
structure OpenedProgs where
  progs : List BpfProgram
  collected : ∃ symStr textShndx syms, ∃ secs : List (Nat × Nat), ∃ ps,
    secs.foldlM (fun ps sec => addPrograms symStr textShndx sec.1 sec.2 syms ps) [] = .ok ps
      ∧ progs.Perm ps
  sorted : progs.Pairwise BpfProgram.le

/-- The program is in an earlier section or starts at or before the instruction. -/
def BpfProgram.startsBy (secIdx insnIdx : Nat) (p : BpfProgram) : Prop :=
  p.secIdx < secIdx ∨ (p.secIdx = secIdx ∧ p.secInsnOff ≤ insnIdx)

instance (secIdx insnIdx : Nat) (p : BpfProgram) : Decidable (p.startsBy secIdx insnIdx) :=
  inferInstanceAs (Decidable (_ ∨ _))

/-- The loop of `find_prog_by_sec_insn`. -/
def lastStart (progs : List BpfProgram) (secIdx insnIdx : Nat) : Nat → Nat → Nat → Res Nat
  | 0, _, _ => .error .fuel
  | fuel + 1, l, r =>
    if l < r then do
      let m := l + (r - l + 1) / 2
      let prog ← deref progs[m]?
      if prog.startsBy secIdx insnIdx then lastStart progs secIdx insnIdx fuel m r
      else lastStart progs secIdx insnIdx fuel l (m - 1)
    else .ok l

/-- `find_prog_by_sec_insn`. -/
def findProgBySecInsn (progs : List BpfProgram) (secIdx insnIdx : Nat) : Res (Option BpfProgram) :=
  if progs.length = 0 then .ok none
  else do
    let l ← lastStart progs secIdx insnIdx progs.length 0 (progs.length - 1)
    let prog ← deref progs[l]?
    return if prog.secIdx = secIdx ∧ prog.containsInsn insnIdx then some prog else none

/-- What going through the programs one by one would find. -/
def FoundExactly (progs : List BpfProgram) (secIdx insnIdx : Nat) : Prop :=
  ∃ r, findProgBySecInsn progs secIdx insnIdx = .ok r
    ∧ (∀ p, r = some p → p ∈ progs ∧ p.secIdx = secIdx ∧ p.containsInsn insnIdx)
    ∧ (r = none → ∀ p ∈ progs, p.secIdx = secIdx → ¬ p.containsInsn insnIdx)

/-- Where a program ends inside an earlier one, the next has started. -/
def NoGaps (progs : List BpfProgram) : Prop :=
  ∀ i j p q, i < j → progs[i]? = some p → progs[j]? = some q → p.secIdx = q.secIdx →
    q.stop < p.stop → ∃ n, progs[j + 1]? = some n ∧ n.secIdx = q.secIdx ∧ n.secInsnOff ≤ q.stop

section

variable {progs : List BpfProgram} {secIdx insnIdx : Nat}

theorem le_of_lt_index (hs : progs.Pairwise BpfProgram.le) {i j : Nat} {p q : BpfProgram}
    (hij : i < j) (hp : progs[i]? = some p) (hq : progs[j]? = some q) : p.le q := by
  obtain ⟨hi, rfl⟩ := List.getElem?_eq_some_iff.mp hp
  obtain ⟨hj, rfl⟩ := List.getElem?_eq_some_iff.mp hq
  exact pairwise_iff_getElem.mp hs i j hi hj hij

/-- The loop ends at the last program that starts in time, or at its first. -/
theorem lastStart_ok (hs : progs.Pairwise BpfProgram.le) : ∀ {fuel l r : Nat}, l ≤ r →
    r < progs.length → r - l < fuel →
    ∃ k, lastStart progs secIdx insnIdx fuel l r = .ok k ∧ l ≤ k ∧ k ≤ r
      ∧ (∀ q, l < k → progs[k]? = some q → q.startsBy secIdx insnIdx)
      ∧ ∀ i q, k < i → i ≤ r → progs[i]? = some q → ¬ q.startsBy secIdx insnIdx := by
  intro fuel
  induction fuel with
  | zero => omega
  | succ fuel ih =>
    intro l r hlr hr hfuel
    rw [lastStart]
    by_cases hlt : l < r
    · have hm : l + (r - l + 1) / 2 < progs.length := by omega
      simp only [hlt, if_true, getElem?_eq_getElem hm, deref, bind, Except.bind]
      split
      · next hstarts =>
        obtain ⟨k, hk, hle, hkr, hq, hafter⟩ := ih (l := l + (r - l + 1) / 2) (by omega) hr (by omega)
        refine ⟨k, hk, by omega, hkr, fun q _ hq' => ?_, hafter⟩
        rcases Nat.eq_or_lt_of_le hle with rfl | hlt'
        · rw [getElem?_eq_getElem hm] at hq'
          cases hq'
          exact hstarts
        · exact hq q hlt' hq'
      · next hstarts =>
        obtain ⟨k, hk, hle, hkr, hq, hafter⟩ := ih (l := l) (r := l + (r - l + 1) / 2 - 1) (by omega)
          (by omega) (by omega)
        refine ⟨k, hk, hle, by omega, hq, fun i q hki hir hq' => ?_⟩
        by_cases him : i ≤ l + (r - l + 1) / 2 - 1
        · exact hafter i q hki him hq'
        -- from the middle on they start too late
        rcases Nat.eq_or_lt_of_le (show l + (r - l + 1) / 2 ≤ i by omega) with rfl | hlt'
        · rw [getElem?_eq_getElem hm] at hq'
          cases hq'
          exact hstarts
        · have hle := le_of_lt_index hs hlt' (getElem?_eq_getElem hm) hq'
          simp only [BpfProgram.startsBy, BpfProgram.le] at hstarts hle ⊢
          omega
    · rw [if_neg hlt]
      exact ⟨l, rfl, Nat.le_refl l, hlr, fun _ h => absurd h (Nat.lt_irrefl l),
        fun i q hi hir => by omega⟩

/-- The program that is looked at. -/
theorem findProgBySecInsn_eq (secIdx insnIdx : Nat) (hs : progs.Pairwise BpfProgram.le)
    (hne : progs.length ≠ 0) :
    ∃ k q, progs[k]? = some q ∧ (0 < k → q.startsBy secIdx insnIdx)
      ∧ (∀ i p, k < i → progs[i]? = some p → ¬ p.startsBy secIdx insnIdx)
      ∧ findProgBySecInsn progs secIdx insnIdx = .ok
        (if q.secIdx = secIdx ∧ q.containsInsn insnIdx then some q else none) := by
  obtain ⟨k, hk, -, hkr, hq, hafter⟩ := @lastStart_ok progs secIdx insnIdx hs progs.length 0
    (progs.length - 1) (by omega) (by omega) (by omega)
  have hin : k < progs.length := by omega
  have hget := getElem?_eq_getElem hin
  refine ⟨k, progs[k], hget, fun h => hq _ h hget, fun i p hi hp => ?_, ?_⟩
  · have hip : i < progs.length := (List.getElem?_eq_some_iff.mp hp).1
    exact hafter i p hi (by omega) hp
  · simp only [findProgBySecInsn, hne, if_false, hk, hget, deref, bind, Except.bind]
    rfl

/-- The lookup is as good as a scan of all programs, for every instruction of
every section, exactly if there are no gaps. -/
theorem find_prog_exact_iff (o : OpenedProgs) :
    (∀ secIdx insnIdx, FoundExactly o.progs secIdx insnIdx) ↔ NoGaps o.progs := by
  have hs := o.sorted
  constructor
  · intro h i j p q hij hp hq hsec hstop
    have hle := le_of_lt_index hs hij hp hq
    have hpin : p.containsInsn q.stop := by
      simp only [BpfProgram.le, BpfProgram.containsInsn, BpfProgram.stop] at hle hstop ⊢
      omega
    obtain ⟨r, hr, hsome, hnone⟩ := h q.secIdx q.stop
    have hne : o.progs.length ≠ 0 := by
      have := (List.getElem?_eq_some_iff.mp hp).1
      omega
    obtain ⟨k, s, hk, -, hafter, hfind⟩ := findProgBySecInsn_eq q.secIdx q.stop hs hne
    cases hfind.symm.trans hr
    by_cases hin : s.secIdx = q.secIdx ∧ s.containsInsn q.stop
    · -- the program that is found comes behind `q`
      have hjk : j < k := by
        by_contra hkj
        rcases Nat.eq_or_lt_of_le (Nat.le_of_not_lt hkj) with rfl | hlt
        · cases hk.symm.trans hq
          exact Nat.lt_irrefl _ hin.2.2
        · exact hafter j q hlt hq (.inr ⟨rfl, Nat.le_add_right _ _⟩)
      have hnext : j + 1 < o.progs.length := by
        have := (List.getElem?_eq_some_iff.mp hk).1
        omega
      refine ⟨o.progs[j + 1], getElem?_eq_getElem hnext, ?_⟩
      have hqn := le_of_lt_index hs (Nat.lt_succ_self j) hq (getElem?_eq_getElem hnext)
      rcases Nat.eq_or_lt_of_le (Nat.succ_le_of_lt hjk) with heq | hlt
      · subst heq
        rw [getElem?_eq_getElem hnext] at hk
        cases hk
        exact ⟨hin.1, hin.2.1⟩
      · have hns := le_of_lt_index hs hlt (getElem?_eq_getElem hnext) hk
        simp only [BpfProgram.le, BpfProgram.containsInsn] at hqn hns hin ⊢
        omega
    · exact absurd hpin (hnone (if_neg hin) p (mem_of_getElem? hp) hsec)
  · intro h secIdx insnIdx
    by_cases hne : o.progs.length = 0
    · refine ⟨none, by rw [findProgBySecInsn, if_pos hne], nofun, fun _ p hp => ?_⟩
      rw [length_eq_zero_iff.mp hne] at hp
      cases hp
    obtain ⟨k, q, hk, hstarts, hafter, hfind⟩ := findProgBySecInsn_eq secIdx insnIdx hs hne
    refine ⟨_, hfind, fun p hp => ?_, fun hnone p hp hsec hpin => ?_⟩
    · split at hp
      · next hin =>
        cases hp
        exact ⟨mem_of_getElem? hk, hin⟩
      · cases hp
    · have hout : ¬ (q.secIdx = secIdx ∧ q.containsInsn insnIdx) := fun hin => by
        rw [if_pos hin] at hnone
        cases hnone
      obtain ⟨i, hi⟩ := mem_iff_getElem?.mp hp
      have hik : i < k := by
        rcases Nat.lt_trichotomy i k with hlt | rfl | hlt
        · exact hlt
        · cases hi.symm.trans hk
          exact absurd ⟨hsec, hpin⟩ hout
        · exact absurd (.inr ⟨hsec, hpin.1⟩) (hafter i p hlt hi)
      -- the one that is looked at has ended, the next has not started
      have hle := le_of_lt_index hs hik hi hk
      have hq := hstarts (by omega)
      have hsecq : p.secIdx = q.secIdx ∧ q.stop ≤ insnIdx := by
        simp only [BpfProgram.le, BpfProgram.startsBy, BpfProgram.containsInsn] at hle hq hout hpin
        omega
      obtain ⟨n, hn, hnsec, hnoff⟩ := h i k p q hik hi hk hsecq.1 (by
        have := hpin.2
        omega)
      exact hafter (k + 1) n (Nat.lt_succ_self k) hn (.inr ⟨by omega, by omega⟩)

end

/-- A function of ten instructions with another one inside it. -/
private def nestedSyms : List Elf64Sym := [⟨1, 18, 0, 3, 0, 80⟩, ⟨2, 18, 0, 3, 16, 16⟩]

/-- Instruction 5 is in the first program, and none is found. -/
theorem find_prog_nested_missed : ∃ o : OpenedProgs, ⟨3, 0, 10⟩ ∈ o.progs
    ∧ (⟨3, 0, 10⟩ : BpfProgram).containsInsn 5 ∧ findProgBySecInsn o.progs 3 5 = .ok none :=
  ⟨⟨[⟨3, 0, 10⟩, ⟨3, 2, 2⟩], ⟨fun _ => some CStr.empty, 3, nestedSyms, [(3, 80)], _, rfl, .refl _⟩,
    by simp [BpfProgram.le]⟩, by decide, by decide, by decide⟩

end Libbpf
