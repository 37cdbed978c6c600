/-
Matching a name against a pattern (`glob_match`).

The source walks over both strings as long as the pattern has neither ended nor
come to a `*`; at a `*` it tries the rest of the pattern on every suffix of the
name. `InGlob` says what a pattern stands for, and `glob_match_iff` that the
call decides it.
-/
import Libbpf.Lib.Bytes

namespace Libbpf

open Lib List

variable {pat str : Bytes}

/-- `'*'`. -/
def globStar : UInt8 := 42

/-- `'?'`. -/
def globQuery : UInt8 := 63

/-- The names that a pattern stands for. -/
inductive InGlob : Bytes → Bytes → Prop
  | nil : InGlob [] []
  | star {name skip str pat : Bytes} : name = skip ++ str → InGlob str pat →
      InGlob name (globStar :: pat)
  | query (c : UInt8) {str pat : Bytes} : InGlob str pat → InGlob (c :: str) (globQuery :: pat)
  | char {c : UInt8} {str pat : Bytes} : c ≠ globStar → c ≠ globQuery → InGlob str pat →
      InGlob (c :: str) (c :: pat)

-- ======== the call

/-- The first loop: what is left of both strings where it stops, or nothing
if two characters differ. -/
def globWalk : Bytes → Bytes → Option (Bytes × Bytes)
  | c :: str, p :: pat =>
    if p = globStar then some (c :: str, p :: pat)
    else if p = globQuery then globWalk str pat
    else if c ≠ p then none
    else globWalk str pat
  | str, pat => some (str, pat)

/-- `while (*str) if (f(str++)) return true;` -/
def anySuffix (f : Bytes → Bool) : Bytes → Bool
  | [] => false
  | c :: str => f (c :: str) || anySuffix f str

theorem globWalk_length {str' pat' : Bytes} (h : globWalk str pat = some (str', pat')) :
    pat'.length ≤ pat.length := by
  fun_induction globWalk str pat with
  | case1 => cases h; exact Nat.le_refl _
  | case2 c str pat _ ih => exact Nat.le_succ_of_le (ih h)
  | case3 => cases h
  | case4 c str p pat _ _ _ ih => exact Nat.le_succ_of_le (ih h)
  | case5 => cases h; exact Nat.le_refl _

theorem dropStars_length (h : pat.head? = some globStar) :
    (pat.dropWhile (· == globStar)).length < pat.length := by
  cases pat with
  | nil => cases h
  | cons p pat =>
    cases h
    rw [dropWhile_cons_of_pos (p := (· == globStar)) (beq_self_eq_true _)]
    exact Nat.lt_succ_of_le (dropWhile_suffix _).length_le

def globMatch (str pat : Bytes) : Bool :=
  match _hwalk : globWalk str pat with
  | none => false
  | some (str, pat') =>
    if _hstar : pat'.head? = some globStar then
      let rest := pat'.dropWhile (· == globStar)
      if rest.isEmpty then true
      -- the name is at its end when no suffix has matched
      else anySuffix (fun s => globMatch s rest) str || (([] : Bytes).isEmpty && rest.isEmpty)
    else str.isEmpty && pat'.isEmpty
termination_by pat.length
decreasing_by exact Nat.lt_of_lt_of_le (dropStars_length _hstar) (globWalk_length _hwalk)

-- ======== what it decides

theorem inGlob_star : InGlob str (globStar :: pat) ↔ ∃ t, t <:+ str ∧ InGlob t pat := by
  constructor
  · intro h
    cases h with
    | star hname h => exact ⟨_, ⟨_, hname.symm⟩, h⟩
    | char hne => exact absurd rfl hne
  · rintro ⟨t, ⟨skip, hname⟩, h⟩
    exact .star hname.symm h

theorem inGlob_char {c p : UInt8} (hp : p ≠ globStar) (hq : p ≠ globQuery) :
    InGlob (c :: str) (p :: pat) ↔ c = p ∧ InGlob str pat := by
  constructor
  · intro h
    cases h with
    | star => exact absurd rfl hp
    | query => exact absurd rfl hq
    | char _ _ h => exact ⟨rfl, h⟩
  · rintro ⟨rfl, h⟩
    exact .char hp hq h

theorem inGlob_query {c : UInt8} : InGlob (c :: str) (globQuery :: pat) ↔ InGlob str pat := by
  constructor
  · intro h
    cases h with
    | query _ h => exact h
    | char _ hne => exact absurd rfl hne
  · exact .query c

/-- Only stars stand for the empty name. -/
theorem inGlob_nil (h : InGlob [] pat) (hstar : pat.head? ≠ some globStar) : pat = [] := by
  cases pat with
  | nil => rfl
  | cons p pat =>
    cases h with
    | star => exact absurd rfl hstar

/-- Any number of stars is one. -/
theorem inGlob_dropStars : ∀ {str : Bytes}, pat.head? = some globStar →
    (InGlob str pat ↔ ∃ t, t <:+ str ∧ InGlob t (pat.dropWhile (· == globStar))) := by
  induction pat with
  | nil => intro _ h; cases h
  | cons p pat ih =>
    intro str h
    cases h
    rw [inGlob_star, dropWhile_cons_of_pos (p := (· == globStar)) (beq_self_eq_true _)]
    by_cases hp : pat.head? = some globStar
    · constructor
      · rintro ⟨t, ht, hin⟩
        obtain ⟨u, hu, hin⟩ := (ih hp).mp hin
        exact ⟨u, hu.trans ht, hin⟩
      · rintro ⟨t, ht, hin⟩
        exact ⟨t, ht, (ih hp).mpr ⟨t, suffix_refl t, hin⟩⟩
    · rw [show pat.dropWhile (· == globStar) = pat by
        cases pat with
        | nil => rfl
        | cons q pat => exact dropWhile_cons_of_neg fun hq => hp (by rw [beq_iff_eq.mp hq]; rfl)]

/-- The walk leaves the question as it was, and stops at an end or at a star. -/
theorem globWalk_spec (str pat : Bytes) : match globWalk str pat with
    | none => ¬ InGlob str pat
    | some (str', pat') => (InGlob str pat ↔ InGlob str' pat')
        ∧ (pat'.head? = some globStar ∨ str' = [] ∨ pat' = []) := by
  fun_induction globWalk str pat with
  | case1 c str pat => exact ⟨Iff.rfl, .inl rfl⟩
  | case2 c str pat hs ih =>
    simp only [inGlob_query]
    exact ih
  | case3 c str p pat hs hq hne => exact fun h => hne ((inGlob_char hs hq).mp h).1
  | case4 c str p pat hs hq hne ih =>
    simp only [inGlob_char hs hq, not_not.mp hne, true_and]
    exact ih
  | case5 str pat hnil =>
    refine ⟨Iff.rfl, .inr ?_⟩
    cases str with
    | nil => exact .inl rfl
    | cons c str =>
      cases pat with
      | nil => exact .inr rfl
      | cons p pat => exact (hnil c str p pat rfl rfl).elim

theorem head?_dropStars (pat : Bytes) : (pat.dropWhile (· == globStar)).head? ≠ some globStar := by
  intro h
  have := head?_dropWhile_not (· == globStar) pat
  rw [h] at this
  exact Bool.false_ne_true this.symm

theorem anySuffix_iff {f : Bytes → Bool} :
    anySuffix f str = true ↔ ∃ t, t <:+ str ∧ t ≠ [] ∧ f t = true := by
  induction str with
  | nil =>
    refine ⟨fun h => absurd h Bool.false_ne_true, ?_⟩
    rintro ⟨t, ht, hne, -⟩
    exact absurd (suffix_nil.mp ht) hne
  | cons c str ih =>
    rw [anySuffix, Bool.or_eq_true, ih]
    constructor
    · rintro (h | ⟨t, ht, h⟩)
      · exact ⟨_, suffix_refl _, cons_ne_nil _ _, h⟩
      · exact ⟨t, ht.trans (suffix_cons c str), h⟩
    · rintro ⟨t, ht, hne, h⟩
      rcases suffix_cons_iff.mp ht with rfl | ht
      · exact .inl h
      · exact .inr ⟨t, ht, hne, h⟩

/-- `glob_match` returns, and `true` exactly for the names that the pattern
stands for. -/
theorem glob_match_iff (str pat : CStr) :
    globMatch str.val pat.val = true ↔ InGlob str.val pat.val := by
  generalize str.val = str
  generalize pat.val = pat
  -- a star shortens the pattern that is left for the suffixes
  fun_induction globMatch str pat with
  | case1 str pat hwalk =>
    have := globWalk_spec str pat
    rw [hwalk] at this
    exact ⟨fun h => absurd h Bool.false_ne_true, fun h => absurd h this⟩
  | case2 str pat str' pat' hwalk hstar rest hrest =>
    have := globWalk_spec str pat
    rw [hwalk] at this
    refine ⟨fun _ => this.1.mpr ((inGlob_dropStars hstar).mpr ⟨[], nil_suffix, ?_⟩), fun _ => rfl⟩
    rw [show pat'.dropWhile (· == globStar) = [] from List.isEmpty_iff.mp hrest]
    exact .nil
  | case3 str pat str' pat' hwalk hstar rest hrest ih =>
    have := globWalk_spec str pat
    rw [hwalk] at this
    rw [isEmpty_nil, Bool.true_and, Bool.eq_false_iff.mpr hrest, Bool.or_false,
      anySuffix_iff, this.1, inGlob_dropStars hstar]
    constructor
    · rintro ⟨t, ht, -, h⟩
      exact ⟨t, ht, (ih t).mp h⟩
    · rintro ⟨t, ht, h⟩
      refine ⟨t, ht, ?_, (ih t).mpr h⟩
      rintro rfl
      exact hrest (List.isEmpty_iff.mpr (inGlob_nil h (head?_dropStars _)))
  | case4 str pat str' pat' hwalk hstar =>
    have := globWalk_spec str pat
    rw [hwalk] at this
    rw [Bool.and_eq_true, List.isEmpty_iff, List.isEmpty_iff, this.1]
    constructor
    · rintro ⟨rfl, rfl⟩
      exact .nil
    · intro h
      rcases this.2.resolve_left hstar with rfl | rfl
      · exact ⟨rfl, inGlob_nil h hstar⟩
      · cases h
        exact ⟨rfl, rfl⟩

end Libbpf
