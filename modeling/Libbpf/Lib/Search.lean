/-
Searching an interval for the first place where a test holds.

`leftmost` halves the interval; each probe may fail, and the search then
fails with it. Where the probes succeed and the test, once true, stays true,
it finds what going through the interval one by one would find.
-/
import Libbpf.Lib.Run

namespace Libbpf.Lib

/-- The first place from `l` to `r` where `test` holds, `missing` if there
is none. -/
def leftmost (test : Nat → Res Bool) (missing : Nat) : Nat → Nat → Nat → Res Nat
  | 0, _, _ => .error .fuel
  | fuel + 1, l, r =>
    if l ≤ r then do
      let m := l + (r - l) / 2
      if ← test m then
        if l = r then return r
        leftmost test missing fuel l m
      else leftmost test missing fuel (m + 1) r
    else return missing

/-- From the place that is found on the test holds, before it does not. -/
theorem leftmost_ok {test : Nat → Res Bool} {p : Nat → Prop} [DecidablePred p]
    {missing : Nat} : ∀ {fuel l r : Nat}, r + 1 - l < fuel → r < missing →
    (∀ i, l ≤ i → i ≤ r → test i = .ok (decide (p i))) →
    (∀ i j, l ≤ i → i ≤ j → j ≤ r → p i → p j) →
    ∃ k, leftmost test missing fuel l r = .ok k ∧ (l ≤ k ∧ k ≤ r ∨ k = missing)
      ∧ ∀ i, l ≤ i → i ≤ r → (p i ↔ k ≤ i) := by
  intro fuel
  induction fuel with
  | zero =>
    intro l r hfuel
    omega
  | succ fuel ih =>
    intro l r hfuel hmissing htest hmono
    rw [leftmost]
    by_cases hlr : l ≤ r
    · rw [if_pos hlr]
      dsimp only
      rw [htest (l + (r - l) / 2) (by omega) (by omega)]
      show ∃ k, (if decide (p (l + (r - l) / 2)) = true then _ else _) = _ ∧ _
      by_cases hp : p (l + (r - l) / 2)
      · rw [if_pos (decide_eq_true hp)]
        by_cases heq : l = r
        · rw [if_pos heq]
          refine ⟨r, rfl, Or.inl ⟨hlr, Nat.le_refl r⟩, fun i hi hir => ?_⟩
          have hir : i = l + (r - l) / 2 := by omega
          exact ⟨fun _ => by omega, fun _ => hir ▸ hp⟩
        rw [if_neg heq]
        obtain ⟨k, hk, hplace, hiff⟩ := ih (l := l) (r := l + (r - l) / 2) (by omega)
          (by omega) (fun i hi hir => htest i hi (by omega))
          (fun i j hi hij hjr => hmono i j hi hij (by omega))
        have hkm := (hiff _ (by omega) (Nat.le_refl _)).mp hp
        refine ⟨k, hk, by omega, fun i hi hir => ?_⟩
        by_cases him : i ≤ l + (r - l) / 2
        · exact hiff i hi him
        · exact ⟨fun _ => by omega, fun _ => hmono _ i (by omega) (by omega) hir hp⟩
      · rw [if_neg (by simpa using hp)]
        obtain ⟨k, hk, hplace, hiff⟩ := ih (l := l + (r - l) / 2 + 1) (r := r) (by omega)
          hmissing (fun i hi hir => htest i (by omega) hir)
          (fun i j hi hij hjr => hmono i j (by omega) hij hjr)
        refine ⟨k, hk, by omega, fun i hi hir => ?_⟩
        by_cases him : i ≤ l + (r - l) / 2
        · -- up to the middle the test fails
          exact ⟨fun hpi => absurd (hmono i _ hi him (by omega) hpi) hp, fun _ => by omega⟩
        · exact hiff i (by omega) hir
    · rw [if_neg hlr]
      exact ⟨missing, rfl, Or.inr rfl, fun i hi hir => by omega⟩

end Libbpf.Lib
