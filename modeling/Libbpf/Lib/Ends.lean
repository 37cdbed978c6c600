/-
Computations that come to an end.

`Ends r P` says that `r` neither runs out of its step bound nor divides by
zero, and that `P` holds of what it returns. It composes along a sequence
(`Ends.bind`), so the argument that a loop ends can use what the calls
before it have established.

The second half is about loops that follow references. A partial function
`next` on a finite set that has no cycle leaves the set after as many
steps as the set has elements (`climb_eq_none`); that bound is the step
bound such a loop needs.
-/
import Mathlib.Data.Finset.Card
import Mathlib.Data.Fintype.Card
import Libbpf.Lib.Run

namespace Libbpf.Lib

open List

variable {α β : Type}

-- ======== endings

/-- The ways of stopping that are not an ending. -/
def Stop.Endless : Stop → Prop
  | .fuel | .divZero => True
  | .err _ | .fault => False

/-- `r` ends, and `P` holds of what it returns. -/
def Ends (r : Res α) (P : α → Prop) : Prop :=
  match r with
  | .ok a => P a
  | .error e => ¬ e.Endless

theorem Ends.bind {r : Res α} {k : α → Res β} {P : α → Prop} {Q : β → Prop}
    (h : Ends r P) (hk : ∀ a, P a → Ends (k a) Q) : Ends (r >>= k) Q := by
  cases r with
  | ok a => exact hk a h
  | error e => exact h

theorem Ends.mono {r : Res α} {P Q : α → Prop} (h : Ends r P)
    (hpq : ∀ a, P a → Q a) : Ends r Q := by
  cases r with
  | ok a => exact hpq a h
  | error e => exact h

/-- What is returned may be named in the postcondition. -/
theorem Ends.eq {r : Res α} {P : α → Prop} (h : Ends r P) : Ends r fun a => P a ∧ r = .ok a := by
  cases r with
  | ok a => exact ⟨h, rfl⟩
  | error e => exact h

theorem Ends.of_ok {r : Res α} {P : α → Prop} {a : α} (h : Ends r P) (hr : r = .ok a) : P a := by
  rw [hr] at h
  exact h

theorem ends_pure {a : α} {P : α → Prop} (h : P a) : Ends (pure a : Res α) P := h

theorem ends_fail {code : Int} {P : α → Prop} : Ends (fail code : Res α) P := id

theorem ends_fault {P : α → Prop} : Ends (.error .fault : Res α) P := id

theorem ends_deref (o : Option α) : Ends (deref o) fun a => o = some a := by
  cases o with
  | none => exact id
  | some a => exact rfl

theorem ends_failIf (c : Prop) [Decidable c] (code : Int) : Ends (failIf c code) fun _ => ¬ c := by
  unfold failIf
  by_cases h : c
  · rw [if_pos h]
    exact ends_fail
  · rw [if_neg h]
    exact h

theorem ends_allM {f : α → Res Bool} : ∀ {l : List α},
    (∀ a ∈ l, Ends (f a) fun _ => True) → Ends (l.allM f) fun _ => True
  | [], _ => trivial
  | a :: l, h => by
    refine (h a mem_cons_self).bind fun b _ => ?_
    cases b with
    | false => trivial
    | true => exact ends_allM fun c hc => h c (mem_cons_of_mem _ hc)

theorem ends_anyM {f : α → Res Bool} : ∀ {l : List α},
    (∀ a ∈ l, Ends (f a) fun _ => True) → Ends (l.anyM f) fun _ => True
  | [], _ => trivial
  | a :: l, h => by
    refine (h a mem_cons_self).bind fun b _ => ?_
    cases b with
    | true => trivial
    | false => exact ends_anyM fun c hc => h c (mem_cons_of_mem _ hc)

-- ======== chains

/-- Follow `next` for `k` steps. -/
def climb (next : α → Option α) : Nat → α → Option α
  | 0, a => some a
  | k + 1, a => (next a).bind (climb next k)

/-- Following `next` never leads back. -/
def Acyclic (next : α → Option α) : Prop :=
  ∀ a k, climb next (k + 1) a ≠ some a

section

variable {next : α → Option α}

theorem climb_add (i j : Nat) (a : α) :
    climb next (i + j) a = (climb next i a).bind (climb next j) := by
  induction i generalizing a with
  | zero =>
    rw [Nat.zero_add]
    rfl
  | succ i ih =>
    rw [Nat.succ_add, climb, climb]
    cases next a with
    | none => rfl
    | some b => exact ih b

/-- A chain that has ended stays ended. -/
theorem climb_none_of_le {i j : Nat} (hij : i ≤ j) {a : α}
    (h : climb next i a = none) : climb next j a = none := by
  obtain ⟨k, rfl⟩ := Nat.exists_eq_add_of_le hij
  rw [climb_add, h]
  rfl

theorem climb_isSome {i j : Nat} (hij : i ≤ j) {a b : α}
    (h : climb next j a = some b) : ∃ c, climb next i a = some c := by
  cases hi : climb next i a with
  | some c => exact ⟨c, rfl⟩
  | none =>
    rw [climb_none_of_le hij hi] at h
    cases h

/-- What is left of a chain after some of its steps. -/
theorem climb_rest {i j : Nat} {a b : α} (h : climb next i a = some b)
    (hend : climb next (i + j) a = none) : climb next j b = none := by
  rwa [climb_add, h] at hend

/-- A cycle can be followed for any number of steps. -/
theorem climb_cycle {k : Nat} {a : α} (h : climb next (k + 1) a = some a) (n : Nat) :
    ∃ b, climb next n a = some b := by
  have hround : climb next ((k + 1) * n) a = some a := by
    induction n with
    | zero => rfl
    | succ n ih =>
      rw [Nat.mul_succ, climb_add, ih]
      exact h
  exact climb_isSome (Nat.le_mul_of_pos_left n (Nat.succ_pos k)) hround

end

/-- A chain of more than `m` steps through numbers below `m` meets one of
them twice. -/
theorem climb_meets {next : Nat → Option Nat} {m a b : Nat}
    (hlt : ∀ a b, next a = some b → a < m) (hb : climb next (m + 1) a = some b) :
    ∃ i k c, climb next i a = some c ∧ climb next (k + 1) c = some c := by
  -- the members of the chain, and that each has a successor
  have hmem : ∀ i, i ≤ m → ∃ c, climb next i a = some c ∧ c < m := by
    intro i hi
    obtain ⟨c, hc⟩ := climb_isSome (by omega : i ≤ m + 1) hb
    obtain ⟨d, hd⟩ := climb_isSome (by omega : i + 1 ≤ m + 1) hb
    rw [climb_add, hc] at hd
    change (next c).bind _ = some d at hd
    obtain ⟨e, he, -⟩ := Option.bind_eq_some_iff.mp hd
    exact ⟨c, hc, hlt c e he⟩
  have hmaps : ∀ i ∈ Finset.range (m + 1), (climb next i a).getD 0 ∈ Finset.range m := by
    intro i hi
    obtain ⟨c, hc, hcm⟩ := hmem i (Nat.lt_succ_iff.mp (Finset.mem_range.mp hi))
    rw [hc]
    exact Finset.mem_range.mpr hcm
  obtain ⟨i, hi, j, hj, hij, heq⟩ :=
    Finset.exists_ne_map_eq_of_card_lt_of_maps_to (by simp) hmaps
  -- two equal members close a cycle
  have hcycle : ∀ i j, i < j → j ≤ m → (climb next i a).getD 0 = (climb next j a).getD 0 →
      ∃ i k c, climb next i a = some c ∧ climb next (k + 1) c = some c := by
    intro i j hij hj heq
    obtain ⟨c, hc, -⟩ := hmem i (by omega)
    obtain ⟨d, hd, -⟩ := hmem j hj
    rw [hc, hd] at heq
    obtain ⟨k, rfl⟩ : ∃ k, j = i + (k + 1) := ⟨j - i - 1, by omega⟩
    rw [climb_add, hc] at hd
    have hcd : c = d := heq
    rw [← hcd] at hd
    exact ⟨i, k, c, hc, hd⟩
  rw [Finset.mem_range] at hi hj
  rcases Nat.lt_or_gt_of_ne hij with h | h
  · exact hcycle i j h (by omega) heq
  · exact hcycle j i h (by omega) heq.symm

/-- An acyclic chain through numbers below `m` has at most `m` steps. -/
theorem climb_eq_none {next : Nat → Option Nat} {m n : Nat} (hac : Acyclic next)
    (hlt : ∀ a b, next a = some b → a < m) (hn : m < n) (a : Nat) :
    climb next n a = none := by
  refine climb_none_of_le hn ?_
  by_contra hne
  obtain ⟨b, hb⟩ := Option.ne_none_iff_exists'.mp hne
  obtain ⟨i, k, c, -, hcycle⟩ := climb_meets hlt hb
  exact hac c k hcycle

end Libbpf.Lib
