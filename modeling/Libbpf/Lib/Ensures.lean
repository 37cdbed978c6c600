/-
Pre- and postconditions of runs.

`Ensures m s Q E`: from state `s` the run `m` either returns, with `Q` of the
value and the state, or stops with `E` of the way it stopped and the state.
The failing half has a postcondition of its own because a C function that
fails part of the way is followed by the cleanup of its caller, which starts
from that state.

`Moves R ok m s` is for runs that take many steps of one kind: each moves the
state along `R`, which is reflexive and transitive, so the whole run does, and
each stops only in the ways `ok` allows.
-/
import Libbpf.Lib.Run

namespace Libbpf.Lib

variable {σ α β : Type}

/-- What a run does from one state. -/
def Ensures (m : Run σ α) (s : σ) (Q : α → σ → Prop) (E : Stop → σ → Prop) : Prop :=
  match m s with
  | .ok a s' => Q a s'
  | .error e s' => E e s'

section

variable {m : Run σ α} {k : α → Run σ β} {s : σ} {P Q : α → σ → Prop} {R : β → σ → Prop}
  {E : Stop → σ → Prop}

theorem Ensures.bind (hm : Ensures m s P E) (hk : ∀ a t, P a t → Ensures (k a) t R E) :
    Ensures (m >>= k) s R E := by
  unfold Ensures at hm ⊢
  rw [run_bind]
  cases h : m s with
  | ok a t =>
    rw [h] at hm
    exact hk a t hm
  | error e t =>
    rw [h] at hm
    exact hm

/-- A statement that is skipped under a condition, before `k`. -/
theorem ensures_when {c : Prop} [Decidable c] {m : Run σ Unit} {k : Unit → Run σ β}
    {P : σ → Prop} (hm : c → Ensures m s (fun _ t => P t) E) (hs : ¬ c → P s)
    (hk : ∀ t, P t → Ensures (k ()) t R E) :
    Ensures (if c then m >>= k else k ()) s R E := by
  by_cases hc : c
  · rw [if_pos hc]
    exact (hm hc).bind fun _ => hk
  · rw [if_neg hc]
    exact hk s (hs hc)

theorem Ensures.imp {E' : Stop → σ → Prop} (h : Ensures m s P E) (hQ : ∀ a t, P a t → Q a t)
    (hE : ∀ e t, E e t → E' e t) : Ensures m s Q E' := by
  unfold Ensures at h ⊢
  cases hm : m s with
  | ok a t =>
    rw [hm] at h
    exact hQ a t h
  | error e t =>
    rw [hm] at h
    exact hE e t h

theorem Ensures.mono (h : Ensures m s P E) (hQ : ∀ a t, P a t → Q a t) :
    Ensures m s Q E := h.imp hQ fun _ _ h => h

theorem Ensures.ok (h : Ensures m s Q E) {a : α} {t : σ} (hm : m s = .ok a t) : Q a t := by
  unfold Ensures at h
  rw [hm] at h
  exact h

theorem Ensures.error (h : Ensures m s Q E) {e : Stop} {t : σ} (hm : m s = .error e t) : E e t := by
  unfold Ensures at h
  rw [hm] at h
  exact h

theorem ensures_pure {a : α} (h : Q a s) : Ensures (pure a : Run σ α) s Q E := h

theorem ensures_get {k : σ → Run σ β} (h : Ensures (k s) s R E) : Ensures (get >>= k) s R E := h

/-- A first part that is known. -/
theorem ensures_of_eq {a : α} {t : σ} (hm : m s = .ok a t) (h : Ensures (k a) t R E) :
    Ensures (m >>= k) s R E := by
  unfold Ensures
  rw [run_bind, hm]
  exact h

/-- Read, then go on with what was read. -/
theorem ensures_read {r : Res α} (he : ∀ e, r = .error e → E e s)
    (hk : ∀ a, r = .ok a → Ensures (k a) s R E) : Ensures (liftRes r >>= k) s R E := by
  cases r with
  | ok a => exact hk a rfl
  | error e => exact he e rfl

theorem ensures_modify {f : σ → σ} {k : PUnit → Run σ β} (h : Ensures (k ⟨⟩) (f s) R E) :
    Ensures (modify f >>= k) s R E := h

theorem ensures_modify_last {f : σ → σ} {R : PUnit → σ → Prop} (h : R ⟨⟩ (f s)) :
    Ensures (modify f) s R E := h

/-- A loop keeps what each of its turns keeps, over the elements processed. -/
theorem ensures_each {f : α → Run σ Unit} {l : List α} (P : List α → σ → Prop)
    (h0 : P [] s) (hstep : ∀ pre a post t, l = pre ++ a :: post → P pre t →
      Ensures (f a) t (fun _ t' => P (pre ++ [a]) t') E) :
    Ensures (each f l) s (fun _ t => P l t) E := by
  suffices h : ∀ (rest pre : List α) (t : σ), l = pre ++ rest → P pre t →
      Ensures (each f rest) t (fun _ t' => P l t') E from h l [] s rfl h0
  intro rest
  induction rest with
  | nil =>
    intro pre t hl hp
    rw [List.append_nil] at hl
    subst hl
    exact ensures_pure hp
  | cons a rest ih =>
    intro pre t hl hp
    refine (hstep pre a rest t hl hp).bind fun _ t' ht' => ih (pre ++ [a]) t' ?_ ht'
    rw [hl, List.append_assoc]
    rfl

end

-- ======== moves

/-- A relation between states that steps compose along. -/
structure Composes (R : σ → σ → Prop) : Prop where
  refl : ∀ s, R s s
  trans : ∀ {s t u}, R s t → R t u → R s u

/-- `m` moves along `R`, and stops only in ways with `ok`. -/
def Moves (R : σ → σ → Prop) (ok : Stop → Prop) (m : Run σ α) (s : σ) : Prop :=
  match m s with
  | .ok _ s' => R s s'
  | .error e s' => ok e ∧ R s s'

/-- A code was handed back. -/
def Stop.IsCode : Stop → Prop
  | .err _ => True
  | _ => False

section

variable {R : σ → σ → Prop} {ok : Stop → Prop} (hR : Composes R) {m : Run σ α}
  {k : α → Run σ β} {s : σ}

theorem Moves.of_ok {a : α} {s' : σ} (h : Moves R ok m s) (hm : m s = .ok a s') : R s s' := by
  unfold Moves at h
  rw [hm] at h
  exact h

theorem Moves.of_error {e : Stop} {s' : σ} (h : Moves R ok m s) (hm : m s = .error e s') :
    ok e ∧ R s s' := by
  unfold Moves at h
  rw [hm] at h
  exact h

theorem Moves.after (h : Moves R ok m s) : R s (after (m s)) := by
  cases hm : m s with
  | ok a s' => exact h.of_ok hm
  | error e s' => exact (h.of_error hm).2

theorem Moves.mono {R' : σ → σ → Prop} {ok' : Stop → Prop} (h : Moves R ok m s)
    (hR : ∀ s', R s s' → R' s s') (hok : ∀ e, ok e → ok' e) : Moves R' ok' m s := by
  unfold Moves
  cases hm : m s with
  | ok a s' => exact hR s' (h.of_ok hm)
  | error e s' => exact ⟨hok e (h.of_error hm).1, hR s' (h.of_error hm).2⟩

theorem moves_throw {e : Stop} (hR : Composes R) (he : ok e) :
    Moves R ok (throw e : Run σ α) s := ⟨he, hR.refl s⟩

theorem moves_modify {f : σ → σ} (hf : R s (f s)) : Moves R ok (modify f) s := hf

theorem moves_get {k : σ → Run σ β} (h : Moves R ok (k s) s) : Moves R ok (get >>= k) s := h

/-- A first part that returns without changing the state. -/
theorem moves_of_eq {a : α} (hm : m s = .ok a s) (h : Moves R ok (k a) s) :
    Moves R ok (m >>= k) s := by
  unfold Moves
  rw [run_bind, hm]
  exact h

/-- Read, then go on with what was read. -/
theorem moves_read {r : Res α} {a : α} (hr : r = .ok a) (h : Moves R ok (k a) s) :
    Moves R ok (liftRes r >>= k) s := by
  subst hr
  exact h

include hR

theorem moves_pure (a : α) (s : σ) : Moves R ok (pure a) s := hR.refl s

/-- Going on from a later state. -/
theorem Moves.from {t : σ} (hst : R s t) (h : Moves R ok m t) : match m t with
    | .ok _ s' => R s s'
    | .error e s' => ok e ∧ R s s' := by
  unfold Moves at h
  cases hm : m t with
  | ok a u =>
    rw [hm] at h
    exact hR.trans hst h
  | error e u =>
    rw [hm] at h
    exact ⟨h.1, hR.trans hst h.2⟩

theorem Moves.bind (hm : Moves R ok m s) (hk : ∀ a s', R s s' → Moves R ok (k a) s') :
    Moves R ok (m >>= k) s := by
  unfold Moves
  rw [run_bind]
  cases hr : m s with
  | ok a t => exact (hk a t (hm.of_ok hr)).from hR (hm.of_ok hr)
  | error e t => exact hm.of_error hr

/-- Change the state, then go on from there. -/
theorem moves_modify_bind {f : σ → σ} {k : PUnit → Run σ β} (hf : R s (f s))
    (hk : Moves R ok (k ⟨⟩) (f s)) : Moves R ok (modify f >>= k) s :=
  Moves.from (m := k ⟨⟩) (t := f s) hR hf hk

theorem moves_each {f : α → Run σ Unit} {l : List α}
    (h : ∀ a ∈ l, ∀ t, R s t → Moves R ok (f a) t) : Moves R ok (each f l) s := by
  induction l generalizing s with
  | nil => exact moves_pure hR _ s
  | cons a l ih =>
    refine (h a List.mem_cons_self s (hR.refl s)).bind hR fun _ t ht => ih fun b hb u hu => ?_
    exact h b (List.mem_cons_of_mem _ hb) u (hR.trans ht hu)

end

end Libbpf.Lib
