/-
Ranks of a finite graph without cycles.

A graph gives each node a list of successors, and only nodes below some bound
have any. If no node leads back to itself, counting the nodes that a node
leads to gives a number that every step makes smaller (`Acyclic.rank_lt`) and
that the bound limits (`rank_le`). A recursion over the graph is then a
recursion over that number.
-/
import Mathlib.Data.Finset.Card
import Mathlib.Logic.Relation
import Mathlib.Algebra.Order.Ring.Int

namespace Libbpf.Lib

open Relation

/-- A step of the graph. -/
def Leads (next : Nat → List Nat) (a b : Nat) : Prop := b ∈ next a

/-- No node leads back to itself. -/
def Graph.Acyclic (next : Nat → List Nat) : Prop := ∀ a, ¬ TransGen (Leads next) a a

section

variable {next : Nat → List Nat} {m : Nat}

open Classical in
/-- How many nodes below `m` a node leads to, itself included. -/
noncomputable def rank (next : Nat → List Nat) (m a : Nat) : Nat :=
  ((Finset.range m).filter fun c => ReflTransGen (Leads next) a c).card

open Classical in
theorem rank_le (next : Nat → List Nat) (m a : Nat) : rank next m a ≤ m := by
  unfold rank
  refine (Finset.card_filter_le _ _).trans ?_
  rw [Finset.card_range]

open Classical in
theorem Graph.Acyclic.rank_lt (h : Graph.Acyclic next) {a b : Nat} (ha : a < m)
    (hab : b ∈ next a) : rank next m b < rank next m a := by
  unfold rank
  refine Finset.card_lt_card ⟨fun c hc => ?_, fun hsub => ?_⟩
  · rw [Finset.mem_filter] at hc ⊢
    exact ⟨hc.1, ReflTransGen.head hab hc.2⟩
  · -- the node itself is not among those behind it
    have hmem := hsub (Finset.mem_filter.mpr ⟨Finset.mem_range.mpr ha, ReflTransGen.refl⟩)
    rw [Finset.mem_filter] at hmem
    exact h a (TransGen.head' hab hmem.2)

/-- A number that every step makes smaller excludes cycles. -/
theorem Graph.acyclic_of_lt (f : Nat → Nat) (h : ∀ a, ∀ b ∈ next a, f b < f a) :
    Graph.Acyclic next := by
  have hlt : ∀ a b, TransGen (Leads next) a b → f b < f a := by
    intro a b hab
    induction hab with
    | single hb => exact h a _ hb
    | tail _ hb ih => exact (h _ _ hb).trans ih
  exact fun a ha => Nat.lt_irrefl _ (hlt a a ha)

end

end Libbpf.Lib
