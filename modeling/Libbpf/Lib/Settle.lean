/-
Computations with a step bound, once the bound is large enough.

A walk that the source makes without a bound takes one here, and runs out of
it where the source would not return. `Settles f a` says that from some bound
on the walk returns `a`: it ends, and the bound does not matter. `Decides f P`
says that it returns, and returns true just if `P`. Both compose along a
sequence and over the elements of a list.
-/
import Libbpf.Lib.Run

namespace Libbpf.Lib

variable {α β : Type}

/-- From some bound on, the result is `a`. -/
def Settles (f : Nat → Res α) (a : α) : Prop := ∃ N, ∀ n, N ≤ n → f n = .ok a

section

variable {f : Nat → Res α} {a b : α}

theorem settles_ok (a : α) : Settles (fun _ => .ok a) a := ⟨0, fun _ _ => rfl⟩

/-- There is one result only. -/
theorem Settles.unique (h : Settles f a) (h' : Settles f b) : a = b := by
  obtain ⟨N, hN⟩ := h
  obtain ⟨M, hM⟩ := h'
  have := (hN (max N M) (Nat.le_max_left ..)).symm.trans (hM (max N M) (Nat.le_max_right ..))
  exact Except.ok.inj this

theorem Settles.bind {g : Nat → α → Res β} {b : β} (hf : Settles f a)
    (hg : Settles (fun n => g n a) b) : Settles (fun n => f n >>= g n) b := by
  obtain ⟨N, hN⟩ := hf
  obtain ⟨M, hM⟩ := hg
  refine ⟨max N M, fun n hn => ?_⟩
  show f n >>= g n = .ok b
  rw [hN n (Nat.le_trans (Nat.le_max_left ..) hn)]
  exact hM n (Nat.le_trans (Nat.le_max_right ..) hn)

/-- One step of the bound is spent. -/
theorem Settles.step {g : Nat → Res α} (h : ∀ n, f (n + 1) = g n) (hg : Settles g a) :
    Settles f a := by
  obtain ⟨N, hN⟩ := hg
  refine ⟨N + 1, fun n hn => ?_⟩
  obtain ⟨k, rfl⟩ : ∃ k, n = k + 1 := ⟨n - 1, by omega⟩
  rw [h]
  exact hN k (by omega)

end

/-- The walk returns, and decides `P`. -/
def Decides (f : Nat → Res Bool) (P : Prop) : Prop := ∃ b, Settles f b ∧ (b = true ↔ P)

section

variable {f g : Nat → Res Bool} {P Q : Prop}

theorem decides_ok (b : Bool) : Decides (fun _ => .ok b) (b = true) := ⟨b, settles_ok b, Iff.rfl⟩

theorem decides_true : Decides (fun _ => .ok true) True := ⟨true, settles_ok true, by simp⟩

theorem decides_false (h : ¬ P) : Decides (fun _ => .ok false) P :=
  ⟨false, settles_ok false, by simp [h]⟩

theorem Decides.iff (h : Decides f P) (hpq : P ↔ Q) : Decides f Q := by
  obtain ⟨b, hf, hb⟩ := h
  exact ⟨b, hf, hb.trans hpq⟩

/-- A decision has one outcome. -/
theorem Decides.settles_true (h : Decides f P) : Settles f true ↔ P := by
  obtain ⟨b, hf, hb⟩ := h
  rw [← hb]
  refine ⟨fun ht => hf.unique ht, ?_⟩
  rintro rfl
  exact hf

theorem Decides.step (h : ∀ n, f (n + 1) = g n) (hg : Decides g P) : Decides f P := by
  obtain ⟨b, hg, hb⟩ := hg
  exact ⟨b, hg.step h, hb⟩

/-- Something is computed first. -/
theorem Settles.decides {f : Nat → Res α} {a : α} {g : Nat → α → Res Bool} (hf : Settles f a)
    (hg : Decides (fun n => g n a) P) : Decides (fun n => f n >>= g n) P := by
  obtain ⟨b, hg, hb⟩ := hg
  exact ⟨b, hf.bind hg, hb⟩

theorem decides_when {c : Prop} [Decidable c] (hg : c → Decides g Q) :
    Decides (fun n => if c then g n else .ok false) (c ∧ Q) := by
  by_cases hc : c
  · simp only [if_pos hc]
    exact (hg hc).iff (by simp [hc])
  · simp only [if_neg hc]
    exact decides_false fun h => hc h.1

theorem decides_unless {c : Prop} [Decidable c] (hg : ¬ c → Decides g Q) :
    Decides (fun n => if c then .ok false else g n) (¬ c ∧ Q) := by
  by_cases hc : c
  · simp only [if_pos hc]
    exact decides_false fun h => h.1 hc
  · simp only [if_neg hc]
    exact (hg hc).iff (by simp [hc])

/-- One decision after another. -/
theorem Decides.and (hf : Decides f P) (hg : P → Decides g Q) :
    Decides (fun n => do if ← f n then g n else return false) (P ∧ Q) := by
  obtain ⟨b, hf, hb⟩ := hf
  refine hf.decides ?_
  cases b with
  | false => exact decides_false fun h => Bool.false_ne_true (hb.mpr h.1)
  | true =>
    have hp := hb.mp rfl
    exact (hg hp).iff (by simp [hp])

theorem decides_allM {f : Nat → α → Res Bool} {P : α → Prop} {l : List α}
    (h : ∀ a ∈ l, Decides (fun n => f n a) (P a)) :
    Decides (fun n => l.allM (f n)) (∀ a ∈ l, P a) := by
  induction l with
  | nil => exact decides_true.iff (by simp)
  | cons a l ih =>
    obtain ⟨b, ha, hb⟩ := h a List.mem_cons_self
    refine ha.decides ?_
    cases b with
    | false =>
      refine decides_false fun hall => Bool.false_ne_true (hb.mpr ?_)
      exact hall a List.mem_cons_self
    | true =>
      have hp := hb.mp rfl
      refine (ih fun c hc => h c (List.mem_cons_of_mem _ hc)).iff ?_
      simp [hp]

end

end Libbpf.Lib
