/-
The walk over a subsection of `.BTF.ext`.

The validation walks each subsection once and the swap walks it again;
`SecsAt` is the walk both take. The validation accepts exactly these
walks (`parseSecInfo_eq_ok`). Along one, the swap touches every word of
the subsection once and in order (`bswapInfoSec_spec`), so it swaps the
subsection as a whole.
-/
import Libbpf.Ext.Parse

namespace Libbpf

open Lib List

-- ======== the walk

/-- The `cnt` sections in the `left` bytes at `pos`, as the words `rd`
tell their record counts. -/
inductive SecsAt (rd : Nat → Nat) (recSize : Nat) : Nat → Nat → Nat → Prop
  | done {pos : Nat} : SecsAt rd recSize pos 0 0
  | sec {pos left cnt : Nat} (num : rd (pos + 4) ≠ 0) (fits : 8 + rd (pos + 4) * recSize ≤ left)
      (rest : SecsAt rd recSize (pos + (8 + rd (pos + 4) * recSize))
        (left - (8 + rd (pos + 4) * recSize)) cnt) :
      SecsAt rd recSize pos left (cnt + 1)

section

variable {rd rd' : Nat → Nat} {recSize pos left cnt : Nat}

theorem SecsAt.cnt_le (h : SecsAt rd recSize pos left cnt) : 8 * cnt ≤ left := by
  induction h with
  | done => exact Nat.le_refl 0
  | sec num fits rest ih => omega

/-- The walk depends on the words it goes over only. -/
theorem SecsAt.congr (hrec : recSize % 4 = 0) (h : SecsAt rd recSize pos left cnt)
    (hrd : ∀ k, 4 * k + 4 ≤ left → rd' (pos + 4 * k) = rd (pos + 4 * k)) :
    SecsAt rd' recSize pos left cnt := by
  induction h with
  | done => exact .done
  | @sec pos left cnt num fits rest ih =>
    have hnum : rd' (pos + 4) = rd (pos + 4) := hrd 1 (by omega)
    have hmul : (rd (pos + 4) * recSize) % 4 = 0 := by
      rw [Nat.mul_mod, hrec, Nat.mul_zero]
    rw [← hnum] at num fits rest ih hmul
    refine .sec num fits (ih fun k hk => ?_)
    have hpos : pos + (8 + rd' (pos + 4) * recSize) + 4 * k
        = pos + 4 * ((8 + rd' (pos + 4) * recSize) / 4 + k) := by omega
    rw [hpos]
    exact hrd _ (by omega)

end

section

variable {host : ByteOrder} {nat : Bool} {b : Bytes} {hdrLen : Nat}
  {sec : BtfExtSecParam} {i : BtfExtInfo}

theorem rdNative_eq_ok {p w : Nat} :
    rdNative host nat b p = .ok w ↔ p + 4 ≤ b.length ∧ nativeWord host nat b p = w := by
  unfold rdNative
  split
  · next h => simp [h]
  · next h => simp [h]

/-- The validation loop accepts exactly the walks. -/
theorem parseSecs_walk {recSize : Nat} : ∀ {fuel pos left cnt : Nat},
    btfExtParseSecs host nat b recSize fuel pos left = .ok cnt →
      SecsAt (nativeWord host nat b) recSize pos left cnt
  | 0, _, _, _, h => nomatch h
  | fuel + 1, pos, left, cnt, h => by
    rw [btfExtParseSecs] at h
    split at h
    · next hz =>
        cases h
        subst hz
        exact .done
    obtain ⟨_, -, h⟩ := of_bind_ok h
    obtain ⟨num, hnum, h⟩ := of_bind_ok h
    obtain ⟨-, rfl⟩ := rdNative_eq_ok.mp hnum
    obtain ⟨_, hzero, h⟩ := of_bind_ok h
    obtain ⟨_, hfits, h⟩ := of_bind_ok h
    obtain ⟨cnt', hrest, h⟩ := of_bind_ok h
    cases h
    exact .sec (failIf_eq_ok.mp hzero)
      (Nat.le_of_not_lt (failIf_eq_ok.mp hfits)) (parseSecs_walk hrest)

theorem parseSecs_of_walk {recSize pos left cnt : Nat}
    (h : SecsAt (nativeWord host nat b) recSize pos left cnt) :
    ∀ {fuel : Nat}, cnt < fuel → pos + left ≤ b.length →
      btfExtParseSecs host nat b recSize fuel pos left = .ok cnt := by
  induction h with
  | done =>
    intro fuel hfuel _
    obtain ⟨fuel, rfl⟩ : ∃ f, fuel = f + 1 := ⟨fuel - 1, by omega⟩
    rw [btfExtParseSecs, if_pos rfl]
  | @sec pos left cnt num fits rest ih =>
    intro fuel hfuel hin
    obtain ⟨fuel, rfl⟩ : ∃ f, fuel = f + 1 := ⟨fuel - 1, by omega⟩
    rw [btfExtParseSecs, if_neg (by omega)]
    refine failIf_bind_ok (by omega) ?_
    refine bind_ok (rdNative_eq_ok.mpr ⟨by omega, rfl⟩) ?_
    refine failIf_bind_ok num ?_
    refine failIf_bind_ok (by omega) ?_
    exact bind_ok (ih (by omega) (by omega)) rfl

/-- A subsection as the validation leaves it. -/
structure SecOk (rd : Nat → Nat) (size hdrLen : Nat) (sec : BtfExtSecParam)
    (i : BtfExtInfo) : Prop where
  aligned : sec.off % 4 = 0
  inside : hdrLen + sec.off + sec.len ≤ size
  enough : 4 < sec.len
  info : i.info = hdrLen + sec.off + 4
  recSize : i.recSize = rd (hdrLen + sec.off)
  min : sec.minRecSize ≤ i.recSize
  words : i.recSize % 4 = 0
  len : i.len = sec.len - 4
  secs : SecsAt rd i.recSize i.info i.len i.secCnt

theorem parseSecInfo_eq_ok : btfExtParseSecInfo host nat b hdrLen sec = .ok i
    ↔ sec.len = 0 ∧ i = .absent ∨ sec.len ≠ 0 ∧ SecOk (nativeWord host nat b) b.length hdrLen sec i
        ∧ (nat = false → i.recSize = sec.minRecSize) := by
  unfold btfExtParseSecInfo
  by_cases hz : sec.len = 0
  · rw [if_pos hz]
    constructor
    · intro h
      cases h
      exact .inl ⟨hz, rfl⟩
    · rintro (⟨-, rfl⟩ | ⟨hnz, -⟩)
      · rfl
      · exact absurd hz hnz
  · rw [if_neg hz]
    constructor
    · intro h
      obtain ⟨_, halign, h⟩ := of_bind_ok h
      obtain ⟨_, hhdr, h⟩ := of_bind_ok h
      obtain ⟨_, hin, h⟩ := of_bind_ok h
      obtain ⟨_, hfour, h⟩ := of_bind_ok h
      obtain ⟨recSize, hrec, h⟩ := of_bind_ok h
      obtain ⟨-, rfl⟩ := rdNative_eq_ok.mp hrec
      obtain ⟨_, hsize, h⟩ := of_bind_ok h
      obtain ⟨_, hsome, h⟩ := of_bind_ok h
      obtain ⟨cnt, hsecs, h⟩ := of_bind_ok h
      cases h
      rw [failIf_eq_ok] at halign hhdr hin hfour hsize hsome
      have hwords : nativeWord host nat b (hdrLen + sec.off) % 4 = 0 := by
        by_contra hc
        exact hsize (.inr (.inr hc))
      refine .inr ⟨hz, ⟨by omega, by omega, by omega, rfl, rfl,
        Nat.le_of_not_lt fun hlt => hsize (.inl hlt), hwords, rfl,
        parseSecs_walk hsecs⟩, fun hnat => ?_⟩
      by_contra hne
      exact hsize (.inr (.inl ⟨hnat, hne⟩))
    · rintro (⟨h0, -⟩ | ⟨-, hok, hexact⟩)
      · exact absurd h0 hz
      have hin := hok.inside
      have henough := hok.enough
      have hcnt := hok.secs.cnt_le
      rw [hok.len] at hcnt
      refine except_bind_eq_ok.mpr
        ⟨(), failIf_eq_ok.mpr (by rw [hok.aligned]; decide), ?_⟩
      refine failIf_bind_ok (by omega) ?_
      refine failIf_bind_ok (by omega) ?_
      refine failIf_bind_ok (by omega) ?_
      refine except_bind_eq_ok.mpr
        ⟨_, rdNative_eq_ok.mpr ⟨by omega, rfl⟩, ?_⟩
      have hsize : ¬ (nativeWord host nat b (hdrLen + sec.off) < sec.minRecSize ∨ nat = false
            ∧ nativeWord host nat b (hdrLen + sec.off) ≠ sec.minRecSize
          ∨ nativeWord host nat b (hdrLen + sec.off) % 4 ≠ 0) := by
        rw [← hok.recSize]
        rintro (hlt | ⟨hnat, hne⟩ | hwords)
        · exact absurd hok.min (Nat.not_le_of_lt hlt)
        · exact hne (hexact hnat)
        · exact hwords hok.words
      refine failIf_bind_ok hsize ?_
      refine failIf_bind_ok (by omega) ?_
      have hsecs := hok.secs
      rw [hok.recSize, hok.info, hok.len] at hsecs
      refine except_bind_eq_ok.mpr
        ⟨i.secCnt, parseSecs_of_walk hsecs (by omega) (by omega), ?_⟩
      rw [← hok.recSize, ← hok.info, ← hok.len]
      rfl

end

-- ======== the swap

section

variable {host : ByteOrder} {nat : Bool} {b : Bytes} {t : List Nat}

theorem swapAt_ok {p n : Nat} (h : p + 4 * n ≤ b.length) : swapAt host p n ⟨b, t⟩
      = .ok () ⟨swapWords host b p n, t ++ List.range' p n 4⟩ := by
  rw [swapAt, if_pos h]

theorem swapRead_ok {p : Nat} (h : p + 4 ≤ b.length) : swapRead host nat p ⟨b, t⟩
      = .ok (nativeWord host nat b p)
          ⟨swapWords host b p 1, t ++ List.range' p 1 4⟩ := by
  unfold swapRead
  rw [run_bind, run_get]
  dsimp only
  rw [run_bind, rdNative, if_pos h, liftRes_ok]
  dsimp only
  rw [run_bind, swapAt_ok (by omega)]
  rfl

/-- Consecutive runs of touched words. -/
private theorem touched_append (t : List Nat) (p m n : Nat) :
    t ++ List.range' p m 4 ++ List.range' (p + 4 * m) n 4 = t ++ List.range' p (m + n) 4 := by
  rw [append_assoc, range'_append]

theorem bswapRecs_ok {recWords : Nat} : ∀ {n p : Nat} {b : Bytes} {t : List Nat},
    p + 4 * (recWords * n) ≤ b.length →
    bswapRecs host recWords (4 * recWords) n p ⟨b, t⟩ = .ok () ⟨swapWords host b p (recWords * n),
          t ++ List.range' p (recWords * n) 4⟩
  | 0, p, b, t, _ => by
    rw [bswapRecs, Nat.mul_zero, swapWords, range'_zero, append_nil]
    rfl
  | n + 1, p, b, t, h => by
    rw [Nat.mul_succ] at h
    have hl : (swapWords host b p recWords).length = b.length :=
      swapWords_length (by omega)
    rw [bswapRecs, run_bind, swapAt_ok (by omega)]
    dsimp only
    rw [bswapRecs_ok (by rw [hl]; omega), ← swapWords_add, touched_append,
      Nat.mul_succ, Nat.add_comm recWords]

theorem sub32_of_le {a b : Nat} (h : b ≤ a) (ha : a < 2 ^ 32) : sub32 a b = a - b := by
  unfold sub32
  omega

/-- The loop swaps the whole area it was given, each word once. -/
theorem bswapSecs_spec {rd : Nat → Nat} {recWords pos left cnt : Nat}
    (h : SecsAt rd (4 * recWords) pos left cnt) : ∀ {b : Bytes} {t : List Nat}
      {fuel : Nat}, cnt < fuel → left < 2 ^ 32 → pos + left ≤ b.length →
      (∀ k, 4 * k + 4 ≤ left → nativeWord host nat b (pos + 4 * k) = rd (pos + 4 * k)) →
      bswapSecs host nat recWords (4 * recWords) fuel pos left ⟨b, t⟩
        = .ok () ⟨swapWords host b pos (left / 4), t ++ List.range' pos (left / 4) 4⟩ := by
  induction h with
  | done =>
    intro b t fuel hfuel _ _ _
    obtain ⟨fuel, rfl⟩ : ∃ f, fuel = f + 1 := ⟨fuel - 1, by omega⟩
    rw [bswapSecs, if_pos rfl, Nat.zero_div, swapWords, range'_zero, append_nil]
    rfl
  | @sec pos left cnt num fits rest ih =>
    intro b t fuel hfuel hsmall hin hrd
    obtain ⟨fuel, rfl⟩ : ∃ f, fuel = f + 1 := ⟨fuel - 1, by omega⟩
    have hnum : nativeWord host nat b (pos + 4) = rd (pos + 4) := hrd 1 (by omega)
    generalize hn : rd (pos + 4) = n at num fits rest ih hnum
    have hcomm : n * (4 * recWords) = 4 * (recWords * n) := by
      rw [Nat.mul_comm n, Nat.mul_assoc]
    rw [hcomm] at fits rest ih
    have h1 : (swapWords host b pos 1).length = b.length :=
      swapWords_length (by omega)
    have h2 : (swapWords host b pos 2).length = b.length :=
      swapWords_length (by omega)
    have htot : (swapWords host b pos (2 + recWords * n)).length = b.length :=
      swapWords_length (by omega)
    -- the two header words
    have hread : nativeWord host nat (swapWords host b pos 1) (pos + 4) = n := by
      rw [← hnum, nativeWord, nativeWord, wordAt_swapWords_of_disjoint (by omega) (.inr (by omega))]
    have htwo : swapWords host (swapWords host b pos 1) (pos + 4) 1
        = swapWords host b pos 2 := (swapWords_add 1).symm
    rw [bswapSecs, if_neg (by omega), run_bind, swapAt_ok (by omega)]
    dsimp only
    rw [run_bind, swapRead_ok (by rw [h1]; omega)]
    dsimp only
    rw [hread, htwo, touched_append t pos 1 1]
    -- the records
    rw [run_bind, bswapRecs_ok (by rw [h2]; omega)]
    dsimp only
    rw [touched_append t pos 2, show pos + 8 = pos + 4 * 2 from rfl,
      ← swapWords_add, Nat.mul_assoc 4, sub32_of_le fits hsmall]
    -- the sections after them, whose words are as they were
    rw [ih (by omega) (by omega) (by rw [htot]; omega)]
    · rw [show pos + (8 + 4 * (recWords * n)) = pos + 4 * (2 + recWords * n) by
          omega, ← swapWords_add, touched_append]
      have hdiv : 2 + recWords * n + (left - (8 + 4 * (recWords * n))) / 4 = left / 4 := by omega
      rw [hdiv]
    · intro k hk
      have hpos : pos + (8 + 4 * (recWords * n)) + 4 * k
          = pos + 4 * (2 + recWords * n + k) := by omega
      rw [hpos, ← hrd _ (by omega), nativeWord, nativeWord,
        wordAt_swapWords_of_disjoint (by omega) (.inr (by omega))]

theorem bswapInfoSec_spec {sec : BtfExtSecParam} {i : BtfExtInfo} {hdrLen recWords : Nat}
    (hok : SecOk (nativeWord host nat b) b.length hdrLen sec i)
    (hrec : i.recSize = 4 * recWords) (hsmall : sec.len < 2 ^ 32) :
    btfExtBswapInfoSec host nat recWords (hdrLen + sec.off) sec.len ⟨b, t⟩
      = .ok () ⟨swapWords host b (hdrLen + sec.off) (sec.len / 4),
          t ++ List.range' (hdrLen + sec.off) (sec.len / 4) 4⟩ := by
  have hin := hok.inside
  have henough := hok.enough
  have hcnt := hok.secs.cnt_le
  have hsecs := hok.secs
  rw [hok.len] at hcnt
  rw [hrec, hok.info, hok.len] at hsecs
  have h1 : (swapWords host b (hdrLen + sec.off) 1).length = b.length :=
    swapWords_length (by omega)
  rw [btfExtBswapInfoSec, if_neg (by omega), run_bind, swapRead_ok (by omega)]
  dsimp only
  rw [run_bind, run_get, ← hok.recSize, hrec, sub32_of_le (by omega) hsmall]
  dsimp only
  -- the sections are read behind the word just swapped
  rw [bswapSecs_spec hsecs (by rw [h1]; omega) (by omega) (by rw [h1]; omega) fun k hk => by
      rw [nativeWord, nativeWord, wordAt_swapWords_of_disjoint (by omega) (.inr (by omega))]]
  have hdiv : 1 + (sec.len - 4) / 4 = sec.len / 4 := by omega
  rw [show hdrLen + sec.off + 4 = hdrLen + sec.off + 4 * 1 from rfl,
    ← swapWords_add, touched_append, hdiv]

end

end Libbpf
