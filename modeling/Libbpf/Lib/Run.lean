/-
Runs of imperative code: a state-passing computation that either
returns, keeping the state it reached, or stops, keeping it as well.

A C function that fails after it has changed its object leaves the
change behind, so the failing half of a run carries a state too. `Stop`
separates the ways a run can fail to return: the negative code the
function hands back, undefined behaviour (an access outside the object
it was given, a signed sum that overflows; a division by zero is kept
apart), and the exhaustion of the step bound that stands for running on
forever. A theorem that a call "finishes" is a theorem that the last one
is not reached.

The rules below are the usual ones: what a sequence returns is what its
parts return (`bind_eq_ok`), an invariant kept by the
parts is kept by the whole on both exits (`Keeps`), and a loop over a
list is an induction over the prefix it has processed (`each_ok`).
-/
import Mathlib.Algebra.Order.Ring.Int
import Mathlib.Logic.Basic

namespace Libbpf.Lib

open List hiding modify

/-- How a computation ends when it does not return. -/
inductive Stop where
  /-- A negative code was returned. -/
  | err (code : Int)
  /-- Undefined: memory outside the object was touched, say. -/
  | fault
  /-- A division by zero. -/
  | divZero
  /-- The step bound ran out. -/
  | fuel
deriving DecidableEq, Repr

/-- A computation over a mutable object. -/
abbrev Run (σ α : Type) := EStateM Stop σ α

/-- A computation that only reads. -/
abbrev Res (α : Type) := Except Stop α

variable {σ τ α β : Type}

/-- The state a run leaves, whichever way it ended. -/
def after : EStateM.Result Stop σ α → σ
  | .ok _ s => s
  | .error _ s => s

@[simp] theorem after_ok (a : α) (s : σ) :
    after (EStateM.Result.ok a s : EStateM.Result Stop σ α) = s := rfl

@[simp] theorem after_error (e : Stop) (s : σ) :
    after (EStateM.Result.error e s : EStateM.Result Stop σ α) = s := rfl

/-- What a run hands back. -/
def value : EStateM.Result Stop σ α → Res α
  | .ok a _ => .ok a
  | .error e _ => .error e

@[simp] theorem value_ok (a : α) (s : σ) :
    value (EStateM.Result.ok a s : EStateM.Result Stop σ α) = .ok a := rfl

@[simp] theorem value_error (e : Stop) (s : σ) :
    value (EStateM.Result.error e s : EStateM.Result Stop σ α) = .error e := rfl

/-- A result is its value and its state. -/
def outcome (r : Res α) (s : σ) : EStateM.Result Stop σ α :=
  match r with
  | .ok a => .ok a s
  | .error e => .error e s

@[simp] theorem after_outcome (r : Res α) (s : σ) : after (outcome r s) = s := by
  cases r <;> rfl

@[simp] theorem value_outcome (r : Res α) (s : σ) : value (outcome r s) = r := by
  cases r <;> rfl

theorem outcome_value_after (r : EStateM.Result Stop σ α) : outcome (value r) (after r) = r := by
  cases r <;> rfl

theorem eq_of_value {r : EStateM.Result Stop σ α} {v : Res α} (h : value r = v) :
    r = outcome v (after r) := by
  rw [← h]
  exact (outcome_value_after r).symm

theorem outcome_eq_ok {r : Res α} {s s' : σ} {a : α} :
    outcome r s = .ok a s' ↔ r = .ok a ∧ s = s' := by
  cases r <;> simp [outcome]

/-- Use a read-only computation inside a run. -/
def liftRes (r : Res α) : Run σ α := fun s =>
  match r with
  | .ok a => .ok a s
  | .error e => .error e s

/-- Go on only if `c` does not make the next access undefined. -/
def faultIf (c : Prop) [Decidable c] : Res Unit :=
  if c then .error .fault else .ok ()

/-- Read memory that may not be there. -/
def deref (o : Option α) : Res α :=
  match o with
  | some a => .ok a
  | none => .error .fault

-- ======== what runs return

@[simp] theorem run_pure (a : α) (s : σ) : (pure a : Run σ α) s = .ok a s := rfl

@[simp] theorem run_throw (e : Stop) (s : σ) : (throw e : Run σ α) s = .error e s := rfl

@[simp] theorem run_get (s : σ) : (get : Run σ σ) s = .ok s s := rfl

@[simp] theorem run_set (s t : σ) : (set t : Run σ PUnit) s = .ok ⟨⟩ t := rfl

@[simp] theorem run_modify (f : σ → σ) (s : σ) : (modify f : Run σ PUnit) s = .ok ⟨⟩ (f s) := rfl

theorem run_bind (m : Run σ α) (k : α → Run σ β) (s : σ) : (m >>= k) s = match m s with
      | .ok a s' => k a s'
      | .error e s' => .error e s' := by
  simp only [bind, EStateM.bind]
  cases m s <;> rfl

theorem run_map (f : α → β) (m : Run σ α) (s : σ) : (f <$> m) s = match m s with
      | .ok a s' => .ok (f a) s'
      | .error e s' => .error e s' := by
  simp only [Functor.map, EStateM.map]
  cases m s <;> rfl

@[simp] theorem faultIf_eq_ok {c : Prop} [Decidable c] {u : Unit} : faultIf c = .ok u ↔ ¬ c := by
  unfold faultIf
  split
  · next h => simp [h]
  · next h => simp [h]

/-- A sequence returns when both halves do. -/
theorem bind_eq_ok {m : Run σ α} {k : α → Run σ β} {s s'' : σ} {b : β} : (m >>= k) s = .ok b s''
      ↔ ∃ a s', m s = .ok a s' ∧ k a s' = .ok b s'' := by
  rw [run_bind]
  cases m s with
  | ok a s' => exact ⟨fun h => ⟨a, s', rfl, h⟩, by rintro ⟨_, _, ⟨⟩, h⟩; exact h⟩
  | error e s' => simp

@[simp] theorem liftRes_ok (a : α) (s : σ) : (liftRes (.ok a : Res α) : Run σ α) s = .ok a s := rfl

@[simp] theorem liftRes_error (e : Stop) (s : σ) :
    (liftRes (.error e : Res α) : Run σ α) s = .error e s := rfl

theorem liftRes_eq_ok {r : Res α} {s s' : σ} {a : α} :
    (liftRes r : Run σ α) s = .ok a s' ↔ r = .ok a ∧ s' = s := by
  cases r with
  | ok b => simp [eq_comm]
  | error e => simp

theorem deref_eq_ok {o : Option α} {a : α} : deref o = .ok a ↔ o = some a := by
  cases o <;> simp [deref]

theorem except_bind_eq_ok {r : Res α} {k : α → Res β} {b : β} :
    (r >>= k) = .ok b ↔ ∃ a, r = .ok a ∧ k a = .ok b := by
  cases r with
  | ok a => simp [bind, Except.bind]
  | error e => simp [bind, Except.bind]

theorem of_bind_ok {r : Res α} {k : α → Res β} {b : β} (h : (r >>= k) = .ok b) :
    ∃ a, r = .ok a ∧ k a = .ok b := except_bind_eq_ok.mp h

theorem bind_ok {r : Res α} {k : α → Res β} {a : α} {b : β} (hr : r = .ok a) (hk : k a = .ok b) :
    (r >>= k) = .ok b := except_bind_eq_ok.mpr ⟨a, hr, hk⟩

theorem eq_ok_of_toOption {r : Res α} {a : α} (h : r.toOption = some a) : r = .ok a := by
  cases r with
  | ok b => cases h; rfl
  | error e => cases h

/-- A computation that evaluates to a result has one. -/
theorem exists_ok_of_isSome {r : Res α} (h : r.toOption.isSome = true) : ∃ a, r = .ok a := by
  cases r with
  | ok a => exact ⟨a, rfl⟩
  | error e => cases h

instance Res.decEq [DecidableEq α] : DecidableEq (Res α)
  | .ok a, .ok b => decidable_of_iff (a = b) ⟨congrArg _, Except.ok.inj⟩
  | .error e, .error e' => decidable_of_iff (e = e') ⟨congrArg _, Except.error.inj⟩
  | .ok _, .error _ | .error _, .ok _ => isFalse nofun

/-- A computation that evaluates to a result with `P` has one. -/
theorem exists_ok_of_any {r : Res α} {P : α → Prop} [DecidablePred P]
    (h : r.toOption.any (fun a => decide (P a)) = true) : ∃ a, r = .ok a ∧ P a := by
  cases r with
  | ok a => exact ⟨a, rfl, of_decide_eq_true h⟩
  | error e => cases h

/-- How a computation stopped, if it did. -/
def stopOf : Res α → Option Stop
  | .ok _ => none
  | .error e => some e

theorem eq_error_of_stopOf {r : Res α} {e : Stop} (h : stopOf r = some e) : r = .error e := by
  cases r with
  | ok a => cases h
  | error e' => cases h; rfl

/-- Return a negative code. -/
def fail (code : Int) : Res α := .error (.err (-code))

/-- Return a negative code when a condition holds. -/
def failIf (c : Prop) [Decidable c] (code : Int) : Res Unit :=
  if c then fail code else .ok ()

@[simp] theorem fail_ne_ok {code : Int} {a : α} : fail code ≠ (.ok a : Res α) := nofun

@[simp] theorem failIf_eq_ok {c : Prop} [Decidable c] {code : Int} {u : Unit} :
    failIf c code = .ok u ↔ ¬ c := by
  unfold failIf
  by_cases h : c
  · simp [h]
  · simp [h]

theorem failIf_bind_ok {c : Prop} [Decidable c] {code : Int} {k : Unit → Res β} {b : β}
    (hc : ¬ c) (hk : k () = .ok b) : (failIf c code >>= k) = .ok b :=
  bind_ok (failIf_eq_ok.mpr hc) hk

/-- A loop of checks: the first that fails ends it. -/
def checkAll (f : α → Res Unit) : List α → Res Unit
  | [] => .ok ()
  | a :: l => do
    f a
    checkAll f l

/-- A loop of checks passes when every check does. -/
theorem checkAll_eq_ok {f : α → Res Unit} {l : List α} :
    checkAll f l = .ok () ↔ ∀ a ∈ l, f a = .ok () := by
  induction l with
  | nil => simp [checkAll]
  | cons a l ih =>
    rw [checkAll, except_bind_eq_ok, forall_mem_cons, ← ih]
    refine ⟨?_, fun h => ⟨(), h⟩⟩
    rintro ⟨_, h⟩
    exact h

-- ======== invariants of runs

/-- `m` keeps `P`, whether it returns or stops. -/
def Keeps (P : σ → Prop) (m : Run σ α) : Prop :=
  ∀ s, P s → P (after (m s))

theorem keeps_pure {P : σ → Prop} (a : α) : Keeps P (pure a : Run σ α) := fun _ h => h

theorem keeps_get {P : σ → Prop} : Keeps P (get : Run σ σ) := fun _ h => h

theorem keeps_liftRes {P : σ → Prop} (r : Res α) : Keeps P (liftRes r : Run σ α) := by
  intro s h
  cases r <;> exact h

theorem keeps_bind {P : σ → Prop} {m : Run σ α} {k : α → Run σ β}
    (hm : Keeps P m) (hk : ∀ a, Keeps P (k a)) : Keeps P (m >>= k) := by
  intro s h
  have h1 := hm s h
  rw [run_bind]
  cases hms : m s with
  | ok a s' =>
    rw [hms] at h1
    exact hk a s' h1
  | error e s' =>
    rw [hms] at h1
    exact h1

-- ======== loops

/-- Run `f` on every element, in order. -/
def each (f : α → Run σ Unit) : List α → Run σ Unit
  | [] => pure ()
  | a :: l => do
    f a
    each f l

theorem keeps_each {P : σ → Prop} {f : α → Run σ Unit} :
    ∀ {l : List α}, (∀ a ∈ l, Keeps P (f a)) → Keeps P (each f l) := by
  intro l
  induction l with
  | nil => intro _; exact keeps_pure ()
  | cons a l ih =>
    intro h
    exact keeps_bind (h a (mem_cons_self ..))
      fun _ => ih fun b hb => h b (mem_cons_of_mem _ hb)

theorem each_append (f : α → Run σ Unit) (l m : List α) (s : σ) :
    each f (l ++ m) s = (do each f l; each f m) s := by
  induction l generalizing s with
  | nil => rfl
  | cons a l ih =>
    rw [cons_append, each, run_bind, run_bind, each, run_bind]
    cases f a s with
    | error e s' => rfl
    | ok u s' =>
      dsimp only
      rw [ih, run_bind]

theorem each_map (f : β → Run σ Unit) (g : α → β) (l : List α) (s : σ) :
    each f (l.map g) s = each (fun a => f (g a)) l s := by
  induction l generalizing s with
  | nil => rfl
  | cons a l ih =>
    rw [map_cons, each, each, run_bind, run_bind]
    cases f (g a) s with
    | error e s' => rfl
    | ok u s' => exact ih s'

/-- What a completed loop establishes, by induction on the processed
prefix. -/
theorem each_ok {f : α → Run σ Unit} (P : List α → σ → Prop) {l : List α}
    {s s' : σ} (hrun : each f l s = .ok () s') (h0 : P [] s)
    (hstep : ∀ pre a post t t', l = pre ++ a :: post → P pre t →
      f a t = .ok () t' → P (pre ++ [a]) t') : P l s' := by
  suffices h : ∀ (rest pre : List α) (t : σ), l = pre ++ rest → P pre t →
      each f rest t = .ok () s' → P l s' from h l [] s rfl h0 hrun
  intro rest
  induction rest with
  | nil =>
    intro pre t hl hp hr
    simp only [each, run_pure, EStateM.Result.ok.injEq, true_and] at hr
    rw [hl, append_nil, ← hr]
    exact hp
  | cons a rest ih =>
    intro pre t hl hp hr
    obtain ⟨_, t', h1, h2⟩ := bind_eq_ok.mp hr
    exact ih (pre ++ [a]) t' (by rw [hl]; simp) (hstep pre a rest t t' hl hp h1) h2

/-- Run `f` on every element, in order, and keep what it returns. -/
def collect (f : α → Run σ β) : List α → Run σ (List β)
  | [] => pure []
  | a :: l => do
    let b ← f a
    let bs ← collect f l
    pure (b :: bs)

theorem collect_append (f : α → Run σ β) (l m : List α) (s : σ) :
    collect f (l ++ m) s = (do pure ((← collect f l) ++ (← collect f m))) s := by
  induction l generalizing s with
  | nil =>
    exact congrFun (bind_pure (collect f m)).symm s
  | cons a l ih =>
    simp only [cons_append, collect, bind_assoc, pure_bind]
    rw [run_bind, run_bind]
    cases f a s with
    | error e s' => rfl
    | ok b s' =>
      dsimp only
      rw [run_bind, ih s']
      simp only [run_bind]
      cases collect f l s' with
      | error e t => rfl
      | ok bs t =>
        dsimp only
        cases collect f m t with
        | error e t' => rfl
        | ok cs t' => rfl

/-- What a completed loop establishes about what it returned, by induction on
the prefix that is done. -/
theorem collect_ok {f : α → Run σ β} (P : List α → List β → σ → Prop) {l : List α}
    {bs : List β} {s s' : σ} (hrun : collect f l s = .ok bs s') (h0 : P [] [] s)
    (hstep : ∀ pre a b t t' done, P pre done t → f a t = .ok b t' → a ∈ l →
      P (pre ++ [a]) (done ++ [b]) t') : P l bs s' := by
  suffices h : ∀ (rest pre : List α) (bs' done : List β) (t : σ), l = pre ++ rest →
      P pre done t → collect f rest t = .ok bs' s' → P l (done ++ bs') s' by
    have := h l [] bs [] s rfl h0 hrun
    rwa [nil_append] at this
  intro rest
  induction rest with
  | nil =>
    intro pre bs' done t hl hp hr
    simp only [collect, run_pure, EStateM.Result.ok.injEq] at hr
    rw [hl, append_nil, ← hr.1, ← hr.2, append_nil]
    exact hp
  | cons a rest ih =>
    intro pre bs' done t hl hp hr
    obtain ⟨b, t', h1, hr⟩ := bind_eq_ok.mp hr
    obtain ⟨cs, t'', h2, hr⟩ := bind_eq_ok.mp hr
    simp only [run_pure, EStateM.Result.ok.injEq] at hr
    obtain ⟨rfl, rfl⟩ := hr
    have hmem : a ∈ l := by
      rw [hl]
      exact mem_append_right _ mem_cons_self
    have := ih (pre ++ [a]) cs (done ++ [b]) t' (by rw [hl]; simp)
      (hstep pre a b t t' done hp h1 hmem) h2
    rwa [append_assoc, singleton_append] at this

/-- Run a computation on a part of the state. -/
def onPart (part : σ → τ) (put : σ → τ → σ) (m : Run τ α) : Run σ α := fun s =>
  match m (part s) with
  | .ok a t => .ok a (put s t)
  | .error e t => .error e (put s t)

theorem onPart_eq_ok {part : σ → τ} {put : σ → τ → σ} {m : Run τ α} {s s' : σ} {a : α} :
    onPart part put m s = .ok a s' ↔ ∃ t, m (part s) = .ok a t ∧ s' = put s t := by
  unfold onPart
  cases m (part s) with
  | ok b t => simp [eq_comm]
  | error e t => simp

end Libbpf.Lib
