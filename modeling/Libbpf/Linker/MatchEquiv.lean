/-
Matching declarations of a global symbol: reflexive, symmetric, and how far it
is transitive.

`Alike` is an equivalence but for forward declarations. Two of them are alike
whatever they declare, a struct or a union, while a struct is only like a
forward declaration of a struct. So behind a pointer a struct may be like one
forward declaration, that one like another, and the struct not like the other
(`Clash`). Where there is no such place, likeness is transitive
(`Alike.trans_iff`).
-/
import Libbpf.Linker.MatchSpec

namespace Libbpf

open Lib List

-- ======== likeness

section

variable {btf btf₁ btf₂ btf₃ : Btf} {exact : Bool} {id id₁ id₂ id₃ id₁' id₂' id₃' : Nat}
  {t t₁ t₂ t₃ : BtfType}

theorem mode_eq {k : Nat} {r₁ r₂ : Bool × Nat}
    (hs : shapeOf btf₁ exact t₁ = shapeOf btf₂ exact t₂) (h₁ : (followed exact t₁)[k]? = some r₁)
    (h₂ : (followed exact t₂)[k]? = some r₂) : r₁.1 = r₂.1 := by
  have h := congrArg (·[k]?) (followed_modes hs)
  simp only [getElem?_map, h₁, h₂, Option.map_some, Option.some.injEq] at h
  exact h

theorem Unfolds.alike (h : Unfolds btf exact id) : Alike btf btf exact id id := by
  induction h with
  | mk ht _ _ ih =>
    refine .same ht ht rfl fun k r₁ r₂ h₁ h₂ => ?_
    rw [h₁] at h₂
    cases h₂
    exact ih r₁ (mem_of_getElem? h₁)

theorem Alike.symm (h : Alike btf₁ btf₂ exact id₁ id₂) : Alike btf₂ btf₁ exact id₂ id₁ := by
  induction h with
  | declares h₁ h₂ h => exact .declares h₂ h₁ h.symm
  | same h₁ h₂ hs _ ih =>
    refine .same h₂ h₁ hs.symm fun k r₂ r₁ hr₂ hr₁ => ?_
    rw [← mode_eq hs hr₁ hr₂]
    exact ih k r₁ r₂ hr₁ hr₂

theorem Alike.resolves (h : Alike btf₁ btf₂ exact id₁ id₂) : ∃ t id', Resolves btf₂ id₂ t id' := by
  cases h with
  | declares _ h₂ _ => exact ⟨_, _, h₂⟩
  | same _ h₂ _ _ => exact ⟨_, _, h₂⟩

/-- Where matching is not transitive: the second type is a forward declaration
of one of the others, and the remaining one a forward declaration of the other
kind; or so at a place that the comparisons come to. -/
inductive Clash (btf₁ btf₂ btf₃ : Btf) : Bool → Nat → Nat → Nat → Prop
  | here {id₁ id₂ id₃ id₁' id₂' id₃' : Nat} {t₁ t₂ t₃ : BtfType}
      (h₁ : Resolves btf₁ id₁ t₁ id₁') (h₂ : Resolves btf₂ id₂ t₂ id₂')
      (h₃ : Resolves btf₃ id₃ t₃ id₃')
      (h : (Declares btf₂ btf₁ t₂ t₁ ∧ t₃.kind = .fwd ∧ t₃.fwdKind ≠ t₂.fwdKind)
        ∨ (Declares btf₂ btf₃ t₂ t₃ ∧ t₁.kind = .fwd ∧ t₁.fwdKind ≠ t₂.fwdKind)) :
      Clash btf₁ btf₂ btf₃ false id₁ id₂ id₃
  | deeper {exact : Bool} {id₁ id₂ id₃ id₁' id₂' id₃' k : Nat} {t₁ t₂ t₃ : BtfType}
      {r₁ r₂ r₃ : Bool × Nat}
      (h₁ : Resolves btf₁ id₁ t₁ id₁') (h₂ : Resolves btf₂ id₂ t₂ id₂')
      (h₃ : Resolves btf₃ id₃ t₃ id₃') (hr₁ : (followed exact t₁)[k]? = some r₁)
      (hr₂ : (followed exact t₂)[k]? = some r₂) (hr₃ : (followed exact t₃)[k]? = some r₃)
      (h : Clash btf₁ btf₂ btf₃ r₁.1 r₁.2 r₂.2 r₃.2) : Clash btf₁ btf₂ btf₃ exact id₁ id₂ id₃

/-- What there is at three types that clash. -/
theorem clash_iff (ht₁ : Resolves btf₁ id₁ t₁ id₁') (ht₂ : Resolves btf₂ id₂ t₂ id₂')
    (ht₃ : Resolves btf₃ id₃ t₃ id₃') : Clash btf₁ btf₂ btf₃ exact id₁ id₂ id₃ ↔ (exact = false
          ∧ ((Declares btf₂ btf₁ t₂ t₁ ∧ t₃.kind = .fwd ∧ t₃.fwdKind ≠ t₂.fwdKind)
            ∨ (Declares btf₂ btf₃ t₂ t₃ ∧ t₁.kind = .fwd ∧ t₁.fwdKind ≠ t₂.fwdKind)))
        ∨ ∃ (k : Nat) (r₁ r₂ r₃ : Bool × Nat), (followed exact t₁)[k]? = some r₁
          ∧ (followed exact t₂)[k]? = some r₂ ∧ (followed exact t₃)[k]? = some r₃
          ∧ Clash btf₁ btf₂ btf₃ r₁.1 r₁.2 r₂.2 r₃.2 := by
  constructor
  · intro h
    cases h with
    | here h₁ h₂ h₃ h =>
      rw [← (ht₁.unique h₁).1, ← (ht₂.unique h₂).1, ← (ht₃.unique h₃).1]
      exact .inl ⟨rfl, h⟩
    | deeper h₁ h₂ h₃ hr₁ hr₂ hr₃ h =>
      rw [← (ht₁.unique h₁).1, ← (ht₂.unique h₂).1, ← (ht₃.unique h₃).1]
      exact .inr ⟨_, _, _, _, hr₁, hr₂, hr₃, h⟩
  · rintro (⟨rfl, h⟩ | ⟨k, r₁, r₂, r₃, hr₁, hr₂, hr₃, h⟩)
    · exact .here ht₁ ht₂ ht₃ h
    · exact .deeper ht₁ ht₂ ht₃ hr₁ hr₂ hr₃ h

/-- A forward declaration, a struct or a union has nothing to follow unless it is
to be exactly the same. -/
theorem followed_outline (h : t.kind = .fwd ∨ ∃ f : BtfType, t.kind = f.fwdKind) :
    followed false t = [] := by
  unfold followed
  rcases h with h | ⟨f, h⟩
  · rw [h]
  · rw [h, BtfType.fwdKind]
    cases f.kflag <;> rfl

theorem fwdKind_ne_fwd (f : BtfType) : f.fwdKind ≠ .fwd := by
  unfold BtfType.fwdKind
  cases f.kflag <;> decide

/-- Two forward declarations of one name, or two structs or unions of one name and
kind, have the same outline. -/
theorem shapeOf_outline (hk : t₁.kind = t₂.kind)
    (hkind : t₁.kind = .fwd ∨ ∃ f : BtfType, t₁.kind = f.fwdKind)
    (hname : btf₁.strByOffset t₁.nameOff = btf₂.strByOffset t₂.nameOff) :
    shapeOf btf₁ false t₁ = shapeOf btf₂ false t₂ := by
  unfold shapeOf
  rw [← hk, hname]
  rcases hkind with h | ⟨f, h⟩
  · rw [h]
  · rw [h, BtfType.fwdKind]
    cases f.kflag <;> rfl

theorem outline_name (hs : shapeOf btf₁ exact t₁ = shapeOf btf₂ exact t₂)
    (hkind : t₁.kind = .fwd ∨ ∃ f : BtfType, t₁.kind = f.fwdKind) :
    btf₁.strByOffset t₁.nameOff = btf₂.strByOffset t₂.nameOff := by
  have hn := congrArg Shape.name hs
  have hk : t₁.kind = t₂.kind := congrArg Shape.kind hs
  have hnamed : t₁.kind.namesCompared = true := by
    rcases hkind with h | ⟨f, h⟩
    · rw [h]
      rfl
    · rw [h, BtfType.fwdKind]
      cases f.kflag <;> rfl
  dsimp only [shapeOf] at hn
  rwa [← hk, if_pos hnamed, if_pos hnamed] at hn

/-- Without references to follow a clash has no direction. -/
theorem clash_comm (ht₁ : Resolves btf₁ id₁ t₁ id₁') (ht₂ : Resolves btf₂ id₂ t₂ id₂')
    (ht₃ : Resolves btf₃ id₃ t₃ id₃') (hnil : followed false t₂ = []) :
    Clash btf₁ btf₂ btf₃ false id₁ id₂ id₃ ↔ Clash btf₃ btf₂ btf₁ false id₃ id₂ id₁ := by
  rw [clash_iff ht₁ ht₂ ht₃, clash_iff ht₃ ht₂ ht₁, hnil]
  simp [or_comm]

/-- A struct, a forward declaration of it and another forward declaration. -/
theorem Declares.trans_iff (ht₁ : Resolves btf₁ id₁ t₁ id₁') (ht₂ : Resolves btf₂ id₂ t₂ id₂')
    (ht₃ : Resolves btf₃ id₃ t₃ id₃') (h₁₂ : Declares btf₁ btf₂ t₁ t₂ ∨ Declares btf₂ btf₁ t₂ t₁)
    (hs : shapeOf btf₂ false t₂ = shapeOf btf₃ false t₃) :
    Alike btf₁ btf₃ false id₁ id₃ ↔ ¬ Clash btf₁ btf₂ btf₃ false id₁ id₂ id₃ := by
  have hk : t₂.kind = t₃.kind := congrArg Shape.kind hs
  rw [clash_iff ht₁ ht₂ ht₃, alike_iff ht₁ ht₃]
  rcases h₁₂ with h | h
  · have hname := outline_name hs (.inr ⟨t₁, h.kind⟩)
    have hd : Declares btf₁ btf₃ t₁ t₃ := ⟨h.fwd, hk.symm.trans h.kind, h.name.trans hname⟩
    refine ⟨fun _ => ?_, fun _ => .inl ⟨rfl, .inl hd⟩⟩
    rintro (⟨-, hc | hc⟩ | ⟨k, r₁, -, -, hr₁, -⟩)
    · exact fwdKind_ne_fwd t₁ (h.kind.symm.trans hc.1.fwd)
    · exact fwdKind_ne_fwd t₁ (h.kind.symm.trans hc.1.fwd)
    · rw [followed_outline (.inl h.fwd)] at hr₁
      cases hr₁
  · have hk₃ : t₃.kind = .fwd := hk.symm.trans h.fwd
    have hname := outline_name hs (.inl h.fwd)
    by_cases hf : t₃.fwdKind = t₂.fwdKind
    · have hd : Declares btf₃ btf₁ t₃ t₁ := ⟨hk₃, h.kind.trans hf.symm, hname.symm.trans h.name⟩
      refine ⟨fun _ => ?_, fun _ => .inl ⟨rfl, .inr hd⟩⟩
      rintro (⟨-, hc | hc⟩ | ⟨k, r₁, -, -, hr₁, -⟩)
      · exact hc.2.2 hf
      · exact fwdKind_ne_fwd t₂ (h.kind.symm.trans hc.2.1)
      · rw [followed_outline (.inr ⟨t₂, h.kind⟩)] at hr₁
        cases hr₁
    · refine ⟨?_, fun hc => absurd (.inl ⟨rfl, .inl ⟨h, hk₃, hf⟩⟩) hc⟩
      rintro (⟨-, hc | hc⟩ | ⟨hc, -⟩)
      · exact absurd (h.kind.symm.trans hc.fwd) (fwdKind_ne_fwd t₂)
      · exact absurd (hc.kind.symm.trans h.kind) hf
      · exact absurd (h.kind.symm.trans ((congrArg Shape.kind hc).trans hk₃)) (fwdKind_ne_fwd t₂)

/-- Two of the same side of a declaration. -/
theorem Declares.trans (ht₁ : Resolves btf₁ id₁ t₁ id₁') (ht₂ : Resolves btf₂ id₂ t₂ id₂')
    (ht₃ : Resolves btf₃ id₃ t₃ id₃') (h₁₂ : Declares btf₁ btf₂ t₁ t₂ ∨ Declares btf₂ btf₁ t₂ t₁)
    (h₂₃ : Declares btf₂ btf₃ t₂ t₃ ∨ Declares btf₃ btf₂ t₃ t₂) :
    Alike btf₁ btf₃ false id₁ id₃ ∧ ¬ Clash btf₁ btf₂ btf₃ false id₁ id₂ id₃ := by
  -- the second type is not both, so the others are of one kind
  have hsame : t₁.kind = t₃.kind ∧ (t₁.kind = .fwd ∨ ∃ f : BtfType, t₁.kind = f.fwdKind)
      ∧ btf₁.strByOffset t₁.nameOff = btf₃.strByOffset t₃.nameOff := by
    rcases h₁₂ with h | h <;> rcases h₂₃ with h' | h'
    · exact absurd (h.kind.symm.trans h'.fwd) (fwdKind_ne_fwd t₁)
    · exact ⟨h.fwd.trans h'.fwd.symm, .inl h.fwd, h.name.trans h'.name.symm⟩
    · exact ⟨h.kind.trans h'.kind.symm, .inr ⟨t₂, h.kind⟩, h.name.symm.trans h'.name⟩
    · exact absurd (h'.kind.symm.trans h.fwd) (fwdKind_ne_fwd t₃)
  obtain ⟨hk, hkind, hname⟩ := hsame
  have hnil := followed_outline hkind
  refine ⟨(alike_iff ht₁ ht₃).mpr (.inr ⟨shapeOf_outline hk hkind hname, ?_⟩), ?_⟩
  · rw [hnil]
    exact pointwise_nil
  · rw [clash_iff ht₁ ht₂ ht₃, hnil]
    rintro (⟨-, hc | hc⟩ | ⟨k, r₁, -, -, hr₁, -⟩)
    · exact fwdKind_ne_fwd t₂ (hc.1.kind.symm.trans (hk.trans hc.2.1))
    · exact fwdKind_ne_fwd t₂ (hc.1.kind.symm.trans (hk.symm.trans hc.2.1))
    · cases hr₁

/-- Three types of one shape. -/
theorem same_trans_iff (ht₁ : Resolves btf₁ id₁ t₁ id₁') (ht₂ : Resolves btf₂ id₂ t₂ id₂')
    (ht₃ : Resolves btf₃ id₃ t₃ id₃') (hs : shapeOf btf₁ exact t₁ = shapeOf btf₂ exact t₂)
    (hs' : shapeOf btf₂ exact t₂ = shapeOf btf₃ exact t₃)
    (hrefs : ∀ (k : Nat) r₁ r₂ r₃, (followed exact t₁)[k]? = some r₁ →
      (followed exact t₂)[k]? = some r₂ → (followed exact t₃)[k]? = some r₃ →
      (Alike btf₁ btf₃ r₁.1 r₁.2 r₃.2 ↔ ¬ Clash btf₁ btf₂ btf₃ r₁.1 r₁.2 r₂.2 r₃.2)) :
    Alike btf₁ btf₃ exact id₁ id₃ ↔ ¬ Clash btf₁ btf₂ btf₃ exact id₁ id₂ id₃ := by
  have hk : t₁.kind = t₂.kind := congrArg Shape.kind hs
  have hk' : t₂.kind = t₃.kind := congrArg Shape.kind hs'
  rw [alike_iff ht₁ ht₃, clash_iff ht₁ ht₂ ht₃]
  constructor
  · rintro (⟨-, hd | hd⟩ | ⟨-, hall⟩)
    · exact absurd (hd.kind.symm.trans (hk'.symm.trans (hk.symm.trans hd.fwd))) (fwdKind_ne_fwd t₁)
    · exact absurd (hd.kind.symm.trans (hk.trans (hk'.trans hd.fwd))) (fwdKind_ne_fwd t₃)
    · rintro (⟨-, hc | hc⟩ | ⟨k, r₁, r₂, r₃, hr₁, hr₂, hr₃, hc⟩)
      · exact fwdKind_ne_fwd t₂ (hc.1.kind.symm.trans (hk.trans hc.1.fwd))
      · exact fwdKind_ne_fwd t₂ (hc.1.kind.symm.trans (hk'.symm.trans hc.1.fwd))
      · exact (hrefs k r₁ r₂ r₃ hr₁ hr₂ hr₃).mp (hall k r₁ r₃ hr₁ hr₃) hc
  · intro hno
    refine .inr ⟨hs.trans hs', fun k r₁ r₃ hr₁ hr₃ => ?_⟩
    obtain ⟨r₂, hr₂⟩ : ∃ r₂, (followed exact t₂)[k]? = some r₂ := by
      have h := congrArg (·[k]?) (followed_modes hs)
      simp only [getElem?_map, hr₁] at h
      obtain ⟨r₂, hr₂, -⟩ := Option.map_eq_some_iff.mp h.symm
      exact ⟨r₂, hr₂⟩
    refine (hrefs k r₁ r₂ r₃ hr₁ hr₂ hr₃).mpr fun hc => hno (.inr ?_)
    exact ⟨k, r₁, r₂, r₃, hr₁, hr₂, hr₃, hc⟩

/-- Likeness is transitive except where there is a clash. -/
theorem Alike.trans_iff (h₁₂ : Alike btf₁ btf₂ exact id₁ id₂)
    (h₂₃ : Alike btf₂ btf₃ exact id₂ id₃) :
    Alike btf₁ btf₃ exact id₁ id₃ ↔ ¬ Clash btf₁ btf₂ btf₃ exact id₁ id₂ id₃ := by
  induction h₁₂ generalizing id₃ with
  | @declares id₁ id₂ id₁' id₂' t₁ t₂ ht₁ ht₂ h =>
    obtain ⟨t₃, id₃', ht₃⟩ := h₂₃.resolves
    rcases (alike_iff ht₂ ht₃).mp h₂₃ with ⟨-, h'⟩ | ⟨hs, -⟩
    · obtain ⟨halike, hno⟩ := Declares.trans ht₁ ht₂ ht₃ h h'
      exact ⟨fun _ => hno, fun _ => halike⟩
    · exact Declares.trans_iff ht₁ ht₂ ht₃ h hs
  | @same exact id₁ id₂ id₁' id₂' t₁ t₂ ht₁ ht₂ hs hrefs ih =>
    obtain ⟨t₃, id₃', ht₃⟩ := h₂₃.resolves
    rcases (alike_iff ht₂ ht₃).mp h₂₃ with ⟨rfl, h'⟩ | ⟨hs', hrefs'⟩
    · have hnil : followed false t₂ = [] := by
        rcases h' with h' | h'
        · exact followed_outline (.inl h'.fwd)
        · exact followed_outline (.inr ⟨t₃, h'.kind⟩)
      rw [clash_comm ht₁ ht₂ ht₃ hnil]
      exact Iff.trans ⟨Alike.symm, Alike.symm⟩ (Declares.trans_iff ht₃ ht₂ ht₁ h'.symm hs.symm)
    · refine same_trans_iff ht₁ ht₂ ht₃ hs hs' fun k r₁ r₂ r₃ hr₁ hr₂ hr₃ => ?_
      refine ih k r₁ r₂ hr₁ hr₂ ?_
      rw [mode_eq hs hr₁ hr₂]
      exact hrefs' k r₂ r₃ hr₂ hr₃

end

-- ======== matching

/-- `glob_sym_btf_matches` returns true. -/
def Matches (btf₁ btf₂ : Btf) (exact : Bool) (id₁ id₂ : Nat) : Prop :=
  Settles (fun n => globSymBtfMatches btf₁ btf₂ n exact id₁ id₂) true

/-- Comparing three types: it ends, a type matches itself, the order does not
matter, and what matches a common third matches unless there is a clash. -/
theorem glob_match_equivalence {btf₁ btf₂ btf₃ : Btf} {exact : Bool} {id₁ id₂ id₃ : Nat}
    (h₁ : btf₁.Accepted) (h₂ : btf₂.Accepted) (h₃ : btf₃.Accepted)
    (hu₁ : Unfolds btf₁ exact id₁) (hu₂ : Unfolds btf₂ exact id₂) (hu₃ : Unfolds btf₃ exact id₃) :
    (∃ b, Settles (fun n => globSymBtfMatches btf₁ btf₂ n exact id₁ id₂) b)
      ∧ Matches btf₁ btf₁ exact id₁ id₁
      ∧ (Matches btf₁ btf₂ exact id₁ id₂ ↔ Matches btf₂ btf₁ exact id₂ id₁)
      ∧ (Matches btf₁ btf₂ exact id₁ id₂ → Matches btf₂ btf₃ exact id₂ id₃ →
        (Matches btf₁ btf₃ exact id₁ id₃ ↔ ¬ Clash btf₁ btf₂ btf₃ exact id₁ id₂ id₃)) := by
  have h₁₁ := globMatch_decides h₁ h₁ hu₁ hu₁
  have h₁₂ := globMatch_decides h₁ h₂ hu₁ hu₂
  have h₂₁ := globMatch_decides h₂ h₁ hu₂ hu₁
  have h₂₃ := globMatch_decides h₂ h₃ hu₂ hu₃
  have h₁₃ := globMatch_decides h₁ h₃ hu₁ hu₃
  unfold Matches
  rw [h₁₁.settles_true, h₁₂.settles_true, h₂₁.settles_true, h₂₃.settles_true, h₁₃.settles_true]
  refine ⟨?_, hu₁.alike, ⟨Alike.symm, Alike.symm⟩, fun h h' => h.trans_iff h'⟩
  obtain ⟨b, hb, -⟩ := h₁₂
  exact ⟨b, hb⟩

/-- A struct, a forward declaration of it and one of a union of its name, a const
of the struct, and pointers to them. -/
private def pointers : Bytes :=
  btfImage .little
    [⟨1, btfTypeInfo .struct 0 false, 0, []⟩, ⟨1, btfTypeInfo .fwd 0 false, 0, []⟩,
      ⟨1, btfTypeInfo .fwd 0 true, 0, []⟩, ⟨0, btfTypeInfo .const 0 false, 1, []⟩,
      ⟨0, btfTypeInfo .ptr 0 false, 1, []⟩, ⟨0, btfTypeInfo .ptr 0 false, 2, []⟩,
      ⟨0, btfTypeInfo .ptr 0 false, 3, []⟩, ⟨0, btfTypeInfo .ptr 0 false, 4, []⟩]
    [0, 115, 0]

/-- What the types of `pointers` are. -/
private structure IsPointers (btf : Btf) : Prop where
  accepted : btf.Accepted
  str : Resolves btf 1 ⟨1, btfTypeInfo .struct 0 false, 0, []⟩ 1
  fwd : Resolves btf 2 ⟨1, btfTypeInfo .fwd 0 false, 0, []⟩ 2
  fwdUnion : Resolves btf 3 ⟨1, btfTypeInfo .fwd 0 true, 0, []⟩ 3
  const : Resolves btf 4 ⟨1, btfTypeInfo .struct 0 false, 0, []⟩ 1
  ptr : ∀ i, 1 ≤ i → i ≤ 4 → Resolves btf (i + 4) ⟨0, btfTypeInfo .ptr 0 false, i, []⟩ (i + 4)

private theorem pointers_ok : ∃ btf, btfNew .little 0 pointers none = .ok btf ∧ IsPointers btf := by
  obtain ⟨btf, hbtf, h1, h2, h3, h4, h5, h6, h7, h8⟩ := exists_ok_of_any
    (r := btfNew .little 0 pointers none) (P := fun btf =>
      skipModsAndTypedefs btf 2 1 = .ok (⟨1, btfTypeInfo .struct 0 false, 0, []⟩, 1)
      ∧ skipModsAndTypedefs btf 2 2 = .ok (⟨1, btfTypeInfo .fwd 0 false, 0, []⟩, 2)
      ∧ skipModsAndTypedefs btf 2 3 = .ok (⟨1, btfTypeInfo .fwd 0 true, 0, []⟩, 3)
      ∧ skipModsAndTypedefs btf 2 4 = .ok (⟨1, btfTypeInfo .struct 0 false, 0, []⟩, 1)
      ∧ skipModsAndTypedefs btf 2 5 = .ok (⟨0, btfTypeInfo .ptr 0 false, 1, []⟩, 5)
      ∧ skipModsAndTypedefs btf 2 6 = .ok (⟨0, btfTypeInfo .ptr 0 false, 2, []⟩, 6)
      ∧ skipModsAndTypedefs btf 2 7 = .ok (⟨0, btfTypeInfo .ptr 0 false, 3, []⟩, 7)
      ∧ skipModsAndTypedefs btf 2 8 = .ok (⟨0, btfTypeInfo .ptr 0 false, 4, []⟩, 8))
    (by decide +kernel)
  refine ⟨btf, hbtf, btfNew_accepted (fun b hb => (by cases hb)) hbtf, ⟨2, h1⟩, ⟨2, h2⟩, ⟨2, h3⟩,
    ⟨2, h4⟩, fun i hlo hhi => ?_⟩
  obtain rfl | rfl | rfl | rfl : i = 1 ∨ i = 2 ∨ i = 3 ∨ i = 4 := by omega
  · exact ⟨2, h5⟩
  · exact ⟨2, h6⟩
  · exact ⟨2, h7⟩
  · exact ⟨2, h8⟩

private theorem ptrKind (i : Nat) : BtfType.kind ⟨0, btfTypeInfo .ptr 0 false, i, []⟩ = .ptr := by
  show BtfKind.ofNat (btfTypeInfo .ptr 0 false / 2 ^ 24 % 2 ^ 7) = .ptr
  decide

private theorem ptrFollowed (exact : Bool) (i : Nat) :
    followed exact ⟨0, btfTypeInfo .ptr 0 false, i, []⟩ = [(false, i)] := by
  unfold followed
  rw [ptrKind]
  rfl

section

variable {btf : Btf} (hp : IsPointers btf) {i j k : Nat}

include hp

/-- The types that are pointed to have nothing to follow. -/
private theorem IsPointers.pointee (hlo : 1 ≤ i) (hhi : i ≤ 4) :
    ∃ t id', Resolves btf i t id' ∧ t.kind.comparable = true ∧ followed false t = [] := by
  obtain rfl | rfl | rfl | rfl : i = 1 ∨ i = 2 ∨ i = 3 ∨ i = 4 := by omega
  · exact ⟨_, _, hp.str, rfl, rfl⟩
  · exact ⟨_, _, hp.fwd, rfl, rfl⟩
  · exact ⟨_, _, hp.fwdUnion, rfl, rfl⟩
  · exact ⟨_, _, hp.const, rfl, rfl⟩

private theorem IsPointers.unfolds (hlo : 1 ≤ i) (hhi : i ≤ 4) : Unfolds btf true (i + 4) := by
  refine .mk (hp.ptr i hlo hhi) (by rw [ptrKind]; rfl) fun r hr => ?_
  rw [ptrFollowed] at hr
  cases mem_singleton.mp hr
  obtain ⟨t, id', ht, hk, hnil⟩ := hp.pointee hlo hhi
  refine .mk ht hk fun r hr => ?_
  rw [hnil] at hr
  cases hr

/-- Pointers match if what they point to is alike in outline. -/
private theorem IsPointers.matches_iff (hi : 1 ≤ i) (hi' : i ≤ 4) (hj : 1 ≤ j) (hj' : j ≤ 4) :
    Matches btf btf true (i + 4) (j + 4) ↔ Alike btf btf false i j := by
  unfold Matches
  rw [(globMatch_decides hp.accepted hp.accepted (hp.unfolds hi hi')
    (hp.unfolds hj hj')).settles_true, alike_iff (hp.ptr i hi hi') (hp.ptr j hj hj'), ptrFollowed,
    ptrFollowed]
  have hs : shapeOf btf true ⟨0, btfTypeInfo .ptr 0 false, i, []⟩
      = shapeOf btf true ⟨0, btfTypeInfo .ptr 0 false, j, []⟩ := by
    unfold shapeOf
    rw [ptrKind, ptrKind]
  refine ⟨?_, fun h => .inr ⟨hs, pointwise_singleton.mpr h⟩⟩
  rintro (⟨⟨⟩, -⟩ | ⟨-, h⟩)
  exact pointwise_singleton.mp h

private theorem IsPointers.clash_iff (hi : 1 ≤ i) (hi' : i ≤ 4) (hj : 1 ≤ j) (hj' : j ≤ 4)
    (hk : 1 ≤ k) (hk' : k ≤ 4) :
    Clash btf btf btf true (i + 4) (j + 4) (k + 4) ↔ Clash btf btf btf false i j k := by
  rw [Libbpf.clash_iff (hp.ptr i hi hi') (hp.ptr j hj hj') (hp.ptr k hk hk'), ptrFollowed,
    ptrFollowed, ptrFollowed]
  refine ⟨?_, fun h => .inr ⟨0, (false, i), (false, j), (false, k), rfl, rfl, rfl, h⟩⟩
  rintro (⟨⟨⟩, -⟩ | ⟨m, r₁, r₂, r₃, hr₁, hr₂, hr₃, h⟩)
  cases m with
  | zero =>
    cases hr₁
    cases hr₂
    cases hr₃
    exact h
  | succ m => cases hr₁

/-- The struct is like its forward declaration. -/
private theorem IsPointers.alike_fwd : Alike btf btf false 1 2 :=
  .declares hp.str hp.fwd (.inr ⟨rfl, rfl, rfl⟩)

end

/-- A pointer to a struct, one to a forward declaration of it and one to a const
of it. -/
theorem glob_match_equivalence_pointers : ∃ btf, btfNew .little 0 pointers none = .ok btf
    ∧ Matches btf btf true 5 6 ∧ Matches btf btf true 6 8 ∧ Matches btf btf true 5 8 := by
  obtain ⟨btf, hbtf, hp⟩ := pointers_ok
  have h56 : Matches btf btf true 5 6 :=
    (hp.matches_iff (i := 1) (j := 2) (by omega) (by omega) (by omega) (by omega)).mpr hp.alike_fwd
  have h68 : Matches btf btf true 6 8 :=
    (hp.matches_iff (i := 2) (j := 4) (by omega) (by omega) (by omega) (by omega)).mpr
      (.declares hp.fwd hp.const (.inl ⟨rfl, rfl, rfl⟩))
  have hno : ¬ Clash btf btf btf true 5 6 8 := by
    refine mt (hp.clash_iff (i := 1) (j := 2) (k := 4) (by omega) (by omega) (by omega) (by omega)
      (by omega) (by omega)).mp ?_
    rw [clash_iff hp.str hp.fwd hp.const]
    rintro (⟨-, ⟨-, hk, -⟩ | ⟨-, hk, -⟩⟩ | ⟨k, r₁, -, -, hr₁, -⟩)
    · exact absurd hk (by decide)
    · exact absurd hk (by decide)
    · cases hr₁
  obtain ⟨-, -, -, htrans⟩ := glob_match_equivalence hp.accepted hp.accepted hp.accepted
    (hp.unfolds (i := 1) (by omega) (by omega)) (hp.unfolds (i := 2) (by omega) (by omega))
    (hp.unfolds (i := 4) (by omega) (by omega))
  exact ⟨btf, hbtf, h56, h68, (htrans h56 h68).mpr hno⟩

/-- A pointer to a struct matches one to a forward declaration of it, and that
one to a forward declaration of a union of the same name; but the first does not
match the last. -/
theorem glob_match_not_transitive : ∃ btf, btfNew .little 0 pointers none = .ok btf
    ∧ Unfolds btf true 5 ∧ Unfolds btf true 6 ∧ Unfolds btf true 7
    ∧ Matches btf btf true 5 6 ∧ Matches btf btf true 6 7 ∧ ¬ Matches btf btf true 5 7 := by
  obtain ⟨btf, hbtf, hp⟩ := pointers_ok
  have halike : Alike btf btf false 2 3 :=
    .same hp.fwd hp.fwdUnion rfl fun _ _ _ h => (by cases h)
  refine ⟨btf, hbtf, hp.unfolds (i := 1) (by omega) (by omega),
    hp.unfolds (i := 2) (by omega) (by omega), hp.unfolds (i := 3) (by omega) (by omega),
    (hp.matches_iff (i := 1) (j := 2) (by omega) (by omega) (by omega) (by omega)).mpr hp.alike_fwd,
    (hp.matches_iff (i := 2) (j := 3) (by omega) (by omega) (by omega) (by omega)).mpr halike, ?_⟩
  rw [hp.matches_iff (i := 1) (j := 3) (by omega) (by omega) (by omega) (by omega),
    hp.alike_fwd.trans_iff halike, not_not]
  refine .here hp.str hp.fwd hp.fwdUnion (.inl ⟨⟨rfl, rfl, rfl⟩, rfl, ?_⟩)
  decide

end Libbpf
