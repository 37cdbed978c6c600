/-
Partial maps, and which entries were added to one.

`Plus m base es` says that `m` is `base` with the entries `es` on top: their
keys are pairwise different and not in `base`. That is what a table looks
like to which entries are only added under keys that are free, and from
which each owner takes its own entries off again; `put` and `erase` move
between the two sides, and a table is determined by its base and its entries
(`Plus.eq_of_perm`).
-/
import Mathlib.Data.List.Nodup
import Mathlib.Data.List.Perm.Basic
import Mathlib.Algebra.Order.Ring.Int

namespace Libbpf.Lib

open List

variable {K V : Type} [DecidableEq K]

/-- The map with `k` bound to `v`. -/
def put (m : K → Option V) (k : K) (v : V) : K → Option V :=
  fun x => if x = k then some v else m x

/-- The map without `k`. -/
def erase (m : K → Option V) (k : K) : K → Option V :=
  fun x => if x = k then none else m x

@[simp] theorem put_self (m : K → Option V) (k : K) (v : V) : put m k v k = some v :=
  if_pos rfl

theorem put_ne (m : K → Option V) {k x : K} (v : V) (h : x ≠ k) : put m k v x = m x :=
  if_neg h

/-- `m` is `base` and the entries `es`. -/
structure Plus (m base : K → Option V) (es : List (K × V)) : Prop where
  mem : ∀ k v, m k = some v ↔ base k = some v ∨ (k, v) ∈ es
  keys : (es.map Prod.fst).Nodup
  fresh : ∀ e ∈ es, base e.1 = none

namespace Plus

variable {m m' base : K → Option V} {es es' : List (K × V)}

omit [DecidableEq K] in
theorem nil (m : K → Option V) : Plus m m [] where
  mem k v := by simp
  keys := nodup_nil
  fresh e he := absurd he not_mem_nil

omit [DecidableEq K] in
/-- A key that is not bound is new to both sides. -/
theorem absent (h : Plus m base es) {k : K} (hk : m k = none) :
    base k = none ∧ k ∉ es.map Prod.fst := by
  refine ⟨?_, fun hmem => ?_⟩
  · cases hb : base k with
    | none => rfl
    | some v =>
      rw [(h.mem k v).mpr (.inl hb)] at hk
      cases hk
  · obtain ⟨⟨k', v⟩, he, rfl⟩ := mem_map.mp hmem
    rw [(h.mem k' v).mpr (.inr he)] at hk
    cases hk

theorem put (h : Plus m base es) {k : K} (v : V) (hk : m k = none) :
    Plus (put m k v) base (es ++ [(k, v)]) := by
  obtain ⟨hb, hkeys⟩ := h.absent hk
  refine ⟨fun x w => ?_, ?_, ?_⟩
  · by_cases hx : x = k
    · subst hx
      rw [put_self, hb, Option.some.injEq]
      constructor
      · rintro rfl
        exact .inr (mem_append_right _ mem_cons_self)
      · rintro (hn | hmem)
        · cases hn
        · rcases mem_append.mp hmem with hmem | hmem
          · exact absurd (mem_map_of_mem hmem) hkeys
          · cases mem_singleton.mp hmem
            rfl
    · rw [put_ne m v hx, h.mem x w, mem_append, mem_singleton, Prod.mk.injEq]
      exact or_congr_right ⟨.inl, fun hor => hor.resolve_right fun he => hx he.1⟩
  · rw [map_append, nodup_append]
    refine ⟨h.keys, nodup_singleton _, fun a ha b hb' => ?_⟩
    cases mem_singleton.mp hb'
    rintro rfl
    exact hkeys ha
  · intro e he
    rcases mem_append.mp he with he | he
    · exact h.fresh e he
    · cases mem_singleton.mp he
      exact hb

theorem erase {k : K} {v : V} (h : Plus m base ((k, v) :: es)) : Plus (erase m k) base es := by
  have hkeys := h.keys
  rw [map_cons, nodup_cons] at hkeys
  have hb : base k = none := h.fresh (k, v) mem_cons_self
  refine ⟨fun x w => ?_, hkeys.2, fun e he => h.fresh e (mem_cons_of_mem _ he)⟩
  unfold Lib.erase
  by_cases hx : x = k
  · subst hx
    rw [if_pos rfl, hb]
    constructor
    · intro hn
      cases hn
    · rintro (hn | hmem)
      · cases hn
      · exact absurd (mem_map_of_mem hmem) hkeys.1
  · rw [if_neg hx, h.mem x w, mem_cons, Prod.mk.injEq]
    exact or_congr_right ⟨fun hor => hor.resolve_left fun he => hx he.1, .inr⟩

omit [DecidableEq K] in
theorem perm (h : Plus m base es) (hp : es.Perm es') : Plus m base es' where
  mem k v := by rw [h.mem k v, hp.mem_iff]
  keys := (hp.map Prod.fst).nodup_iff.mp h.keys
  fresh e he := h.fresh e (hp.mem_iff.mpr he)

omit [DecidableEq K] in
/-- Entries on top of entries. -/
theorem trans (h' : Plus m' m es') (h : Plus m base es) : Plus m' base (es ++ es') where
  mem k v := by rw [h'.mem k v, h.mem k v, mem_append, or_assoc]
  keys := by
    rw [map_append, nodup_append]
    refine ⟨h.keys, h'.keys, ?_⟩
    rintro k hk _ hk' rfl
    obtain ⟨e, he, rfl⟩ := mem_map.mp hk'
    exact (h.absent (h'.fresh e he)).2 hk
  fresh e he := by
    rcases mem_append.mp he with he | he
    · exact h.fresh e he
    · exact (h.absent (h'.fresh e he)).1

/-- Taking entries off, one key after the other. -/
theorem erase_all (h : Plus m base (es ++ es')) :
    Plus (es.foldl (fun m e => Lib.erase m e.1) m) base es' := by
  induction es generalizing m with
  | nil => exact h
  | cons e es ih => exact ih (erase h)

omit [DecidableEq K] in
/-- The base and the entries are all there is. -/
theorem eq_of_perm (h : Plus m base es) (h' : Plus m' base es') (hp : es.Perm es') : m = m' := by
  funext k
  refine Option.ext fun v => ?_
  rw [h.mem k v, h'.mem k v, hp.mem_iff]

end Plus

end Libbpf.Lib
