/-
Computations that report their failures.

`Reports E r P` says that `r` returns, and `P` holds of what it returns, or
hands back a code with `E`. It excludes the other ways of stopping: a
computation that reports neither runs on nor touches memory that is not its
own. As `Ends` does, it composes along a sequence.
-/
import Libbpf.Lib.Run

namespace Libbpf.Lib

variable {α β : Type} {E : Int → Prop}

/-- `r` returns something with `P`, or a code with `E`. -/
def Reports (E : Int → Prop) (r : Res α) (P : α → Prop) : Prop :=
  match r with
  | .ok a => P a
  | .error (.err code) => E code
  | .error _ => False

theorem Reports.bind {r : Res α} {k : α → Res β} {P : α → Prop} {Q : β → Prop}
    (h : Reports E r P) (hk : ∀ a, r = .ok a → P a → Reports E (k a) Q) :
    Reports E (r >>= k) Q := by
  cases r with
  | ok a => exact hk a rfl h
  | error e =>
    cases e with
    | err code => exact h
    | fault | divZero | fuel => exact h.elim

theorem Reports.mono {r : Res α} {P Q : α → Prop} (h : Reports E r P)
    (hpq : ∀ a, r = .ok a → P a → Q a) : Reports E r Q := by
  cases r with
  | ok a => exact hpq a rfl h
  | error e =>
    cases e with
    | err code => exact h
    | fault | divZero | fuel => exact h.elim

theorem reports_iff {r : Res α} {P : α → Prop} :
    Reports E r P ↔ (∃ a, r = .ok a ∧ P a) ∨ ∃ code, r = .error (.err code) ∧ E code := by
  constructor
  · intro h
    cases r with
    | ok a => exact .inl ⟨a, rfl, h⟩
    | error e =>
      cases e with
      | err code => exact .inr ⟨code, rfl, h⟩
      | fault | divZero | fuel => exact h.elim
  · rintro (⟨a, rfl, h⟩ | ⟨code, rfl, h⟩)
    · exact h
    · exact h

/-- What a sequence reports, its first part does. -/
theorem Reports.first {r : Res α} {k : α → Res β} {Q : β → Prop}
    (h : Reports E (r >>= k) Q) : Reports E r fun _ => True := by
  cases r with
  | ok a => trivial
  | error e =>
    cases e with
    | err code => exact h
    | fault | divZero | fuel => exact h

theorem reports_failIf {c : Prop} [Decidable c] {code : Int} (h : E (-code)) :
    Reports E (failIf c code) fun _ => ¬ c := by
  unfold failIf
  by_cases hc : c
  · rw [if_pos hc]
    exact h
  · rw [if_neg hc]
    exact hc

theorem reports_deref {o : Option α} {a : α} (h : o = some a) :
    Reports E (deref o) fun b => b = a := by
  rw [h]
  exact rfl

/-- A loop of checks reports if each check does. -/
theorem reports_checkAll {f : α → Res Unit} {l : List α}
    (h : ∀ a ∈ l, Reports E (f a) fun _ => True) :
    Reports E (checkAll f l) fun _ => True := by
  induction l with
  | nil => trivial
  | cons a l ih =>
    refine (h a List.mem_cons_self).bind fun _ _ _ => ?_
    exact ih fun b hb => h b (List.mem_cons_of_mem a hb)

end Libbpf.Lib
