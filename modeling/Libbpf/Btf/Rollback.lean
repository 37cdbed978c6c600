/-
What a failed `btf__add_btf` leaves behind.

The error path restores the header's string length and nothing else. The
types were never visible; the strings interned so far stay in the set,
past the length the header states. So the call is undone exactly when it
interned nothing new: when, going through the strings of the source in
the order of the loop, the first one the destination does not have is
not there to be added but fails to be looked up at all (`NoneMissing`).

The loop is followed in two moods. While every string is found it stays
`Quiet`: the destination is as it was, up to the header's length. The
first missing string makes it `Loud`, and it never gets quiet again.
-/
import Libbpf.Btf.AddBtfSpec

namespace Libbpf

open Lib
open List hiding after

variable {b d src b' : Btf} {p : BtfPipe} {α : Type} {L : List CStr} {off : Nat} {s : CStr}
  {t : BtfType} {slots : List Nat}

-- ======== the strings of the loop

/-- The string a turn of the loop over string offsets looks up. -/
def btfSlotStr (src : Btf) (keep strOff : Nat) : List CStr :=
  if strOff < keep ∨ strOff = 0 then [] else (src.strByOffset strOff).toList

/-- The strings `btf__add_btf` looks up, in order. A kind the iterator
does not know ends the loop. -/
def btfCopyStrs (src : Btf) : List BtfType → List CStr
  | [] => []
  | t :: ts =>
    match btfFieldSlots .strs t with
    | .ok slots =>
      slots.flatMap (fun i => btfSlotStr src src.startStrOff (t.word i)) ++ btfCopyStrs src ts
    | .error _ => []

/-- No string is missing up to the first that cannot be looked up. -/
def NoneMissing (dst : Btf) : List CStr → Prop
  | [] => True
  | s :: l =>
    match dst.findVal s with
    | .ok _ => NoneMissing dst l
    | .error e => e ≠ .err (-ENOENT)

-- ======== adding, in view

/-- The object with another string length in the header. -/
def Btf.withStrLen (n : Nat) (btf : Btf) : Btf :=
  { btf with hdr := { btf.hdr with strLen := n } }

theorem Btf.findVal_withStrLen (s : CStr) (n : Nat) (btf : Btf) :
    (btf.withStrLen n).findVal s = btf.findVal s := by
  rw [Btf.findVal_eq, Btf.findVal_eq]
  rfl

/-- The two objects differ in the header's string length only. -/
def Btf.SameStrs (b d : Btf) : Prop :=
  ∀ n, (d.withStrLen n).norm = (b.withStrLen n).norm

theorem Btf.SameStrs.findVal (h : b.SameStrs d) (s : CStr) : d.findVal s = b.findVal s := by
  rw [← Btf.findVal_withStrLen s 0 d, Btf.findVal_congr (h 0), Btf.findVal_withStrLen]

theorem Btf.SameStrs.trans {e : Btf} (h : b.SameStrs d) (h' : d.SameStrs e) :
    b.SameStrs e := fun n => (h' n).trans (h n)

theorem Btf.SameStrs.of_norm (h : d.norm = b.norm) : b.SameStrs d := by
  intro n
  obtain ⟨hown, hbase⟩ := Btf.mapChain_eq_iff.mp h
  refine Btf.mapChain_eq_iff.mpr ⟨?_, hbase⟩
  have := congrArg (fun o : BtfOwn =>
    { o with hdr := { o.hdr with strLen := n } }) hown
  exact this

theorem Btf.sameStrs_withSet (h : d.sealed = false) : d.SameStrs (d.withSet d.index) := by
  intro n
  refine Btf.mapChain_eq_iff.mpr ⟨?_, rfl⟩
  have hse : ((d.withStrLen n).toBtfOwn).sealed = false := h
  simp only [hse]
  rfl

/-- What the own half does, by what the own search returns. -/
theorem btfAddStrOwn_findVal (hw : d.Wf) (s : CStr) : (d.toBtfOwn.findVal s ≠ fail ENOENT
        ∧ ∃ d', btfAddStrOwn s d = outcome (d.toBtfOwn.findVal s) d' ∧ d.SameStrs d')
      ∨ (d.toBtfOwn.findVal s = fail ENOENT ∧ ∃ o, (after (btfAddStrOwn s d)).index.Holds s o) := by
  obtain ⟨hiw, -⟩ := hw.own.strs.index
  unfold BtfOwn.findVal
  rcases btfAddStrOwn_cases hw s with ⟨hse, h⟩ | ⟨hse, hfit, h⟩
    | ⟨o, ss, hse, hfit, hi, h⟩
  · left
    rw [if_pos hse]
    exact ⟨by decide, d, h, fun _ => rfl⟩
  · left
    have hf : d.index.findStr s = .error (.err (-ENOMEM)) := by
      rw [Strset.findStr, Strset.strAppend_eq, if_neg hfit]
      rfl
    rw [if_neg (by rw [hse]; exact Bool.false_ne_true), hf]
    refine ⟨?_, d.opened, h, Btf.SameStrs.of_norm (Btf.norm_opened hse)⟩
    show (.error (.err (-ENOMEM)) : Res Nat) ≠ fail ENOENT
    decide
  · rw [if_neg (by rw [hse]; exact Bool.false_ne_true)]
    rcases hi.data with rfl | ⟨hnew, -⟩
    · left
      have hf : d.index.findStr s = .ok o :=
        (Strset.findStr_eq_ok hiw s o).mpr ⟨hi.holds, hfit⟩
      rw [hf]
      refine ⟨?_, d.withSet d.index, h, Btf.sameStrs_withSet hse⟩
      show intSum d.startStrOff o ≠ _
      unfold intSum
      split
      · exact fun he => fail_ne_ok he.symm
      · decide
    · right
      have hf : d.index.findStr s = fail ENOENT := by
        cases hf : d.index.findStr s with
        | ok o' =>
          exact absurd ((Strset.findStr_eq_ok hiw s o').mp hf).1 (hnew o')
        | error e =>
          rw [Strset.findStr, Strset.strAppend_eq, if_pos hfit] at hf
          simp only [bind, Except.bind] at hf
          split at hf
          · cases hf
          · cases hf
            rfl
      rw [hf]
      refine ⟨rfl, o, ?_⟩
      rw [h, after_outcome]
      exact hi.holds

/-- `btf__add_str`, by what `btf__find_str` returns. -/
theorem Btf.addStr_findVal (hw : d.Wf) (s : CStr) : (d.findVal s ≠ fail ENOENT
        ∧ ∃ d', d.addStr s = outcome (d.findVal s) d' ∧ d.SameStrs d')
      ∨ (d.findVal s = fail ENOENT ∧ ∃ o, (after (d.addStr s)).index.Holds s o) := by
  rw [Btf.addStr_eq, Btf.findVal_eq]
  cases hb : d.baseBtf with
  | none => exact btfAddStrOwn_findVal hw s
  | some base =>
    have hl := Btf.looked_base hb s
    dsimp only
    split
    next =>
      rcases btfAddStrOwn_findVal (hl.wf hw) s with ⟨h1, d', h2, h3⟩ | h
      · exact Or.inl ⟨h1, d', h2, (Btf.SameStrs.of_norm hl.norm).trans h3⟩
      · exact Or.inr h
    next hne =>
      exact Or.inl ⟨hne, _, rfl, Btf.SameStrs.of_norm hl.norm⟩

-- ======== the two moods

/-- Every string so far was there. -/
structure Quiet (src b : Btf) (p : BtfPipe) : Prop where
  strs : b.SameStrs p.dst
  seen : ∀ m, p.strOffMap = some m → ∀ e ∈ m.entries, ∀ s,
    src.strByOffset e.key = some s → ∃ off, b.findVal s = .ok off

/-- A string that was missing is there now. -/
def Loud (b d : Btf) : Prop :=
  ∃ s o, b.findVal s = fail ENOENT ∧ d.index.Holds s o

theorem Loud.mono {d' : Btf} (h : Loud b d) (hi : d.Interned d') : Loud b d' := by
  obtain ⟨s, o, hs, ho⟩ := h
  exact ⟨s, o, hs, hi.index s o ho⟩

/-- What a part of the loop that looks up the strings `L` does: it goes
on quietly, it stops quietly at a string it cannot look up, or it gets
loud over one that is missing. -/
def Tally (src b : Btf) (L : List CStr) {α : Type} : EStateM.Result Stop BtfPipe α → Prop
  | .ok _ p =>
    (Quiet src b p ∧ ∀ L', NoneMissing b (L ++ L') ↔ NoneMissing b L')
      ∨ (Loud b p.dst ∧ ∀ L', ¬ NoneMissing b (L ++ L'))
  | .error (.err _) p =>
    (b.SameStrs p.dst ∧ ∀ L', NoneMissing b (L ++ L'))
      ∨ (Loud b p.dst ∧ ∀ L', ¬ NoneMissing b (L ++ L'))
  | .error _ _ => True

theorem Tally.error {e : Stop}
    (h : ∀ c, e = .err c → (b.SameStrs p.dst ∧ ∀ L', NoneMissing b (L ++ L'))
      ∨ (Loud b p.dst ∧ ∀ L', ¬ NoneMissing b (L ++ L'))) :
    Tally src b L (.error e p : EStateM.Result Stop BtfPipe α) := by
  cases e with
  | err c => exact h c rfl
  | fault | divZero | fuel => trivial

theorem Tally.loud {r : EStateM.Result Stop BtfPipe α}
    (hl : Loud b (after r).dst) (hn : ∀ L', ¬ NoneMissing b (L ++ L')) : Tally src b L r := by
  cases r with
  | ok a p => exact Or.inr ⟨hl, hn⟩
  | error e p => exact .error fun _ _ => Or.inr ⟨hl, hn⟩

theorem Tally.bind {L₁ L₂ : List CStr} {β : Type} {m : Run BtfPipe α} {k : α → Run BtfPipe β}
    (h₁ : Tally src b L₁ (m p))
    (h₂ : ∀ a p', m p = .ok a p' → Quiet src b p' → Tally src b L₂ (k a p'))
    (hi : ∀ a p', m p = .ok a p' → p'.dst.Interned (after (k a p')).dst) :
    Tally src b (L₁ ++ L₂) ((m >>= k) p) := by
  rw [run_bind]
  cases hm : m p with
  | error e p' =>
    rw [hm] at h₁
    refine .error fun c he => ?_
    subst he
    rcases h₁ with ⟨hq, hn⟩ | ⟨hl, hn⟩
    · exact Or.inl ⟨hq, fun L' => by rw [append_assoc]; exact hn _⟩
    · exact Or.inr ⟨hl, fun L' => by rw [append_assoc]; exact hn _⟩
  | ok a p' =>
    rw [hm] at h₁
    dsimp only
    rcases h₁ with ⟨hq, hn⟩ | ⟨hl, hn⟩
    · have h := h₂ a p' hm hq
      cases hk : k a p' with
      | ok c p'' =>
        rw [hk] at h
        rcases h with ⟨hq', hn'⟩ | ⟨hl', hn'⟩
        · exact Or.inl ⟨hq', fun L' => by
            rw [append_assoc, hn]; exact hn' L'⟩
        · exact Or.inr ⟨hl', fun L' => by
            rw [append_assoc, hn]; exact hn' L'⟩
      | error e p'' =>
        rw [hk] at h
        refine .error fun c he => ?_
        subst he
        rcases h with ⟨hq', hn'⟩ | ⟨hl', hn'⟩
        · exact Or.inl ⟨hq', fun L' => by
            rw [append_assoc, hn]; exact hn' L'⟩
        · exact Or.inr ⟨hl', fun L' => by
            rw [append_assoc, hn]; exact hn' L'⟩
    · -- loud already
      refine .loud (hl.mono (hi a p' hm)) fun L' => ?_
      rw [append_assoc]
      exact hn _

theorem Tally.pure (h : Quiet src b p) (a : α) : Tally src b [] (.ok a p) :=
  Or.inl ⟨h, fun _ => Iff.rfl⟩

theorem Quiet.remember {dst : Btf} (h : Quiet src b p)
    (hp : PipeOk src b p) (hs : b.SameStrs dst) {k v : Nat}
    (hk : src.strByOffset k = some s) (hf : b.findVal s = .ok off) :
    Quiet src b ⟨dst, p.strOffMap.map (strOffAppend · k v)⟩ := by
  refine ⟨hs, fun m hm e he x hx => ?_⟩
  obtain ⟨m₀, hm₀, rfl⟩ := Option.map_eq_some_iff.mp hm
  obtain ⟨-, hent⟩ := Hashmap.link_spec (hp.map m₀ hm₀).1 k v
  rcases (hent e).mp he with rfl | he
  · rw [hk] at hx
    cases hx
    exact ⟨off, hf⟩
  · exact h.seen m₀ hm₀ e he x hx

theorem btfRewriteStr_tally (hp : PipeOk src b p) (h : Quiet src b p) (h0 : off ≠ 0) :
    Tally src b (src.strByOffset off).toList (btfRewriteStr src off p) := by
  unfold btfRewriteStr
  rw [if_neg h0]
  cases hf : p.strOffMap.bind (strOffFind · off) with
  | some v =>
    -- seen before, so it was found
    obtain ⟨m, hm, hfind⟩ := Option.bind_eq_some_iff.mp hf
    obtain ⟨e, he, -⟩ := Option.map_eq_some_iff.mp hfind
    obtain ⟨hmem, hkey⟩ := Hashmap.findEntry_some he
    have hk : e.key = off := beq_iff_eq.mp hkey
    left
    refine ⟨h, fun L' => ?_⟩
    cases hs : src.strByOffset off with
    | none => exact Iff.rfl
    | some s =>
      obtain ⟨o, ho⟩ := h.seen m hm e hmem s (by rw [hk]; exact hs)
      show (match b.findVal s with
        | .ok _ => NoneMissing b L'
        | .error e => e ≠ .err (-ENOENT)) ↔ _
      rw [ho]
  | none =>
    cases hs : src.strByOffset off with
    | none => trivial
    | some s =>
      have hhead : ∀ L', NoneMissing b ((some s).toList ++ L') = match b.findVal s with
          | .ok _ => NoneMissing b L'
          | .error e => e ≠ .err (-ENOENT) := fun _ => rfl
      rcases Btf.addStr_findVal hp.interned.wf s with ⟨hne, d, hadd, hsame⟩
        | ⟨hmiss, o, ho⟩
      · rw [h.strs.findVal] at hne hadd
        dsimp only
        rw [hadd]
        cases hv : b.findVal s with
        | ok v =>
          left
          refine ⟨h.remember hp (h.strs.trans hsame) hs hv, fun L' => ?_⟩
          rw [hhead, hv]
        | error e =>
          rw [hv] at hne
          refine .error fun c _ => Or.inl ⟨h.strs.trans hsame, fun L' => ?_⟩
          rw [hhead, hv]
          exact fun he => hne (congrArg Except.error he)
      · rw [h.strs.findVal] at hmiss
        have hnot : ∀ L', ¬ NoneMissing b ((some s).toList ++ L') := by
          intro L' hL
          rw [hhead, hmiss] at hL
          exact hL rfl
        dsimp only
        cases hadd : Btf.addStr s p.dst with
        | ok v d =>
          rw [hadd] at ho
          exact Or.inr ⟨⟨s, o, hmiss, ho⟩, hnot⟩
        | error e d =>
          rw [hadd] at ho
          exact .error fun _ _ => Or.inr ⟨⟨s, o, hmiss, ho⟩, hnot⟩

theorem btfRewriteSlot_tally (hp : PipeOk src b p) (h : Quiet src b p) (keep off : Nat) :
    Tally src b (btfSlotStr src keep off) (btfRewriteSlot src keep off p) := by
  unfold btfRewriteSlot btfSlotStr
  by_cases hk : off < keep
  · rw [if_pos hk, if_pos (Or.inl hk)]
    exact Tally.pure h off
  rw [if_neg hk]
  by_cases h0 : off = 0
  · rw [if_pos (Or.inr h0), btfRewriteStr, if_pos h0]
    exact Tally.pure h 0
  · rw [if_neg (not_or.mpr ⟨hk, h0⟩)]
    exact btfRewriteStr_tally hp h h0

theorem btfRewriteStrs_tally (hbw : b.Wf) (keep : Nat) (slots : List Nat) :
    ∀ (t : BtfType) (p : BtfPipe), PipeOk src b p → Quiet src b p →
      slots.Nodup → (∀ i ∈ slots, i ≠ 1 ∧ i < t.words.length) →
      Tally src b (slots.flatMap fun i => btfSlotStr src keep (t.word i))
        (btfRewriteStrs src keep slots t p) := by
  induction slots with
  | nil =>
    intro t p _ h _ _
    exact Tally.pure h t
  | cons i slots ih =>
    intro t p hp h hnd hin
    obtain ⟨hi, hnd'⟩ := nodup_cons.mp hnd
    have hin' : ∀ v, ∀ j ∈ slots, j ≠ 1 ∧ j < (t.setWord i v).words.length := by
      intro v j hj
      rw [BtfType.words_setWord, length_set]
      exact hin j (mem_cons_of_mem _ hj)
    have hsp := btfRewriteSlot_spec hp hbw keep (t.word i)
    rw [flatMap_cons]
    apply (btfRewriteSlot_tally hp h keep (t.word i)).bind
    · intro v p' hv hq
      rw [hv] at hsp
      have hrest := ih (t.setWord i v) p' hsp.1 hq hnd' (hin' v)
      -- the turns ahead read words this one did not write
      have hflat : (slots.flatMap fun j =>
            btfSlotStr src keep ((t.setWord i v).word j))
          = slots.flatMap fun j => btfSlotStr src keep (t.word j) := by
        apply flatMap_congr
        intro j hj
        rw [t.word_setWord_ne fun he : i = j => hi (he ▸ hj)]
      rw [hflat] at hrest
      exact hrest
    · intro v p' hv
      rw [hv] at hsp
      exact (btfRewriteStrs_spec hbw keep slots (t.setWord i v) p' hsp.1 hnd' (hin' v)).2.1

/-- The ID table has a row for every kind the string table has. -/
theorem btfFieldSlots_ids (h : btfFieldSlots .strs t = .ok slots) :
    ∃ islots, btfFieldSlots .ids t = .ok islots := by
  obtain ⟨d, hd, -⟩ := btfFieldSlots_eq_ok h
  have : (btfFieldDesc .ids t.kind).isSome := by
    cases hk : t.kind <;> first | rfl | (rw [hk] at hd; cases hd)
  obtain ⟨e, he⟩ := Option.isSome_iff_exists.mp this
  exact ⟨_, btfFieldSlots_eq he⟩

theorem btfCopyOne_tally (hbw : b.Wf) (lo hi : Nat) (hsz : btfTypeSize src t = .ok t.byteSz)
    (hp : PipeOk src b p) (h : Quiet src b p) (hsl : btfFieldSlots .strs t = .ok slots) :
    Tally src b (slots.flatMap fun i => btfSlotStr src src.startStrOff (t.word i))
      (btfCopyOne src lo hi t p) := by
  obtain ⟨d, hd, rfl⟩ := btfFieldSlots_eq_ok hsl
  have hin : ∀ i ∈ d.slots t.vlen, i ≠ 1 ∧ i < t.words.length :=
    fun i hm => slots_in hsz hd hm
  unfold btfCopyOne
  rw [run_bind, hsz, liftRes_ok]
  dsimp only
  rw [run_bind, hsl, liftRes_ok]
  dsimp only
  rw [← append_nil (List.flatMap _ _)]
  have hsp := btfRewriteStrs_spec hbw src.startStrOff (d.slots t.vlen) t p hp (slots_nodup hd _) hin
  apply (btfRewriteStrs_tally hbw src.startStrOff (d.slots t.vlen) t p hp h
    (slots_nodup hd _) hin).bind
  · intro u p' hu hq
    have hinfo := (hsp.2.2 u p' hu).info
    obtain ⟨islots, his⟩ := btfFieldSlots_ids hsl
    rw [run_bind, btfFieldSlots_congr .ids hinfo, his, liftRes_ok]
    exact Tally.pure hq _
  · intro u p' hu
    rw [hu] at hsp
    have hinfo := (hsp.2.2 u p' rfl).info
    obtain ⟨islots, his⟩ := btfFieldSlots_ids hsl
    rw [run_bind, btfFieldSlots_congr .ids hinfo, his, liftRes_ok]
    exact Btf.Looked.interned (Btf.Looked.refl _) hsp.1.interned.wf

/-- A loop that failed either found everything, or left a string. -/
theorem btfCopyAll_failed (hbw : b.Wf) (lo hi : Nat) (ts : List BtfType) :
    (∀ t ∈ ts, btfTypeSize src t = .ok t.byteSz) → ∀ p, PipeOk src b p →
      Quiet src b p → ∀ c p', btfCopyAll src lo hi ts p = .error (.err c) p' →
        (b.SameStrs p'.dst ∧ NoneMissing b (btfCopyStrs src ts))
          ∨ (Loud b p'.dst ∧ ¬ NoneMissing b (btfCopyStrs src ts)) := by
  induction ts with
  | nil =>
    intro _ p _ _ c p' h
    cases h
  | cons t ts ih =>
    intro hsz p hp hq c p' h
    have hszt := hsz t mem_cons_self
    have hszs := fun u hu => hsz u (mem_cons_of_mem t hu)
    unfold btfCopyStrs
    cases hsl : btfFieldSlots .strs t with
    | error e =>
      -- an unknown kind: nothing is looked up for it
      rw [btfCopyAll, run_bind, btfCopyOne, run_bind, hszt, liftRes_ok] at h
      dsimp only at h
      rw [run_bind, hsl, liftRes_error] at h
      cases h
      exact Or.inl ⟨hq.strs, trivial⟩
    | ok slots =>
      dsimp only
      have htal := btfCopyOne_tally hbw lo hi hszt hp hq hsl
      have hsp := btfCopyOne_spec hbw lo hi hszt hp
      rw [btfCopyAll, run_bind] at h
      cases hone : btfCopyOne src lo hi t p with
      | error e p₁ =>
        rw [hone] at h htal
        cases h
        rcases htal with ⟨h₁, h₂⟩ | ⟨h₁, h₂⟩
        · exact Or.inl ⟨h₁, h₂ _⟩
        · exact Or.inr ⟨h₁, h₂ _⟩
      | ok t' p₁ =>
        rw [hone] at h htal hsp
        dsimp only at h
        rw [run_bind] at h
        cases hall : btfCopyAll src lo hi ts p₁ with
        | ok ts' p₂ =>
          rw [hall] at h
          cases h
        | error e p₂ =>
          rw [hall] at h
          cases h
          rcases htal with ⟨h₁, h₂⟩ | ⟨h₁, h₂⟩
          · rw [h₂]
            exact ih hszs p₁ hsp.1 h₁ c p' hall
          · have hi₂ := (btfCopyAll_spec hbw lo hi ts hszs p₁ hsp.1).2.1
            rw [hall] at hi₂
            exact Or.inr ⟨h₁.mono hi₂, h₂ _⟩

-- ======== the verdict

/-- Every observable of the object is as before. -/
structure Unchanged (b b' : Btf) : Prop where
  cnt : b'.typeCnt = b.typeCnt
  types : ∀ id, b'.typeById id = b.typeById id
  strLen : b'.hdr.strLen = b.hdr.strLen
  strs : ∀ off, b'.strByOffset off = b.strByOffset off
  find : ∀ s, value (b'.findStr s) = value (b.findStr s)
  add : ∀ s, value (b'.addStr s) = value (b.addStr s)

/-- Lookups of types and strings see the `core`. -/
theorem unchanged_of_core (hw : b.Wf) (hw' : b'.Wf) (hc : b'.core = b.core) : b'.typeCnt = b.typeCnt
      ∧ (∀ id, b'.typeById id = b.typeById id) ∧ b'.hdr.strLen = b.hdr.strLen
      ∧ ∀ off, b'.strByOffset off = b.strByOffset off := by
  refine ⟨?_, fun id => ?_, ?_, fun off => ?_⟩
  · rw [← b'.core_typeCnt, hc, b.core_typeCnt]
  · rw [← b'.typeById_core, hc, b.typeById_core]
  · rw [← b'.core_hdr, hc, b.core_hdr]
  · rw [← hw'.strByOffset_core, hc, hw.strByOffset_core]

theorem unchanged_of_norm (hw : b.Wf) (hw' : b'.Wf) (hn : b'.norm = b.norm) : Unchanged b b' := by
  obtain ⟨h₁, h₂, h₃, h₄⟩ := unchanged_of_core hw hw' (Btf.core_of_norm hn)
  refine ⟨h₁, h₂, h₃, h₄, fun s => ?_, fun s => ?_⟩
  · rw [(Btf.findStr_spec s b').1, (Btf.findStr_spec s b).1, Btf.findVal_congr hn]
  · rw [Btf.addStr_value, Btf.addStr_value, ← Btf.addVal_norm, hn, Btf.addVal_norm]

/-- Putting the header's length back hides what was interned since. -/
theorem Btf.Interned.core_withStrLen (hw : b.Wf) (h : b.Interned d) : (d.withStrLen b.hdr.strLen).core = b.core := by
  obtain ⟨r, hr⟩ := h.grown
  have hle := hw.own.strs.strLen_le
  have hlen : (b.strsData.take b.hdr.strLen).length = b.hdr.strLen := by
    rw [length_take]
    omega
  -- the visible data of `d` starts with that of `b`
  have hdata : d.strsData.take d.hdr.strLen = b.strsData.take b.hdr.strLen ++ r := by
    rw [← d.core_strsData, hr, ← b.core_strsData]
    rfl
  have hgrow : b.hdr.strLen ≤ d.hdr.strLen := by
    have h₁ := congrArg List.length hdata
    rw [length_append, length_take] at h₁
    omega
  have htake : d.strsData.take b.hdr.strLen = b.strsData.take b.hdr.strLen := by
    have h₁ := congrArg (List.take b.hdr.strLen) hdata
    rw [take_take, Nat.min_eq_left hgrow,
      take_append_of_le_length (Nat.le_of_eq hlen.symm), take_take,
      Nat.min_self] at h₁
    exact h₁
  have hown := congrArg (fun c : Btf => c.toBtfOwn) hr
  have hbase := congrArg (fun c : Btf => c.baseBtf) hr
  rw [d.core_own] at hown
  rw [d.core_base] at hbase
  refine Btf.ext_own ?_ ?_
  · rw [Btf.core_own]
    show ({ d.toBtfOwn.bare with
      hdr := { d.hdr with strLen := b.hdr.strLen }
      strs := .raw (d.strsData.take b.hdr.strLen) } : BtfOwn) = _
    rw [htake, h.hdr]
    have := congrArg (fun o : BtfOwn => { o with
      hdr := b.hdr, strs := .raw (b.strsData.take b.hdr.strLen) }) hown
    refine Eq.trans ?_ (this.trans ?_)
    · rfl
    · show ({ b.core.toBtfOwn with
        hdr := b.hdr, strs := .raw (b.strsData.take b.hdr.strLen) } : BtfOwn) = _
      rw [b.core_own]
      rfl
  · rw [Btf.core_base]
    exact hbase

theorem Btf.Interned.wf_withStrLen (hw : b.Wf) (h : b.Interned d)
    (hset : ∃ ss, b.strs = .set ss) : (d.withStrLen b.hdr.strLen).Wf := by
  have hcore := h.core_withStrLen hw
  obtain ⟨ss, hss⟩ := h.set hset
  obtain ⟨hc, hs⟩ := Btf.ownWf_iff_core.mp hw.own
  have hds := h.wf.own.strs
  refine .mk (Btf.ownWf_iff_core.mpr ⟨?_, ?_⟩) fun c hb => h.wf.base hb
  · rw [hcore]
    exact hc
  · have hcs := hs.core
    rw [← hcore] at hcs
    have hterm := hcs.terminated
    have hle := hcs.strLen_le
    rw [Btf.strsData, Btf.core_strs, BtfStrs.data, Btf.core_hdr, take_take, Nat.min_self] at hterm
    rw [Btf.strsData, Btf.core_strs, BtfStrs.data, Btf.core_hdr, length_take] at hle
    refine ⟨by omega, hds.length_le, hterm, ?_, ?_, hds.set⟩
    · intro hnone
      refine ⟨?_, (hds.first hnone).2⟩
      have hbn : b.baseBtf = none := by
        have hb := h.base
        rw [show d.baseBtf = none from hnone] at hb
        exact Option.map_eq_none_iff.mp hb.symm
      exact (hs.first hbn).1
    · intro data hdata
      have : d.strs = .raw data := hdata
      rw [hss] at this
      cases this

/-- A string left behind is found. -/
theorem Loud.found (hd : d.Wf) (hbase : d.baseBtf.map Btf.norm = b.baseBtf.map Btf.norm) {o : Nat}
    (hmiss : b.findVal s = fail ENOENT) (ho : d.index.Holds s o) :
    d.findVal s ≠ fail ENOENT := by
  -- the base still does not have it
  have hd' : d.findVal s = d.toBtfOwn.findVal s := by
    rw [Btf.findVal_eq]
    rw [Btf.findVal_eq] at hmiss
    cases hdb : d.baseBtf with
    | none => rfl
    | some c =>
      cases hbb : b.baseBtf with
      | none =>
        rw [hdb, hbb] at hbase
        cases hbase
      | some c' =>
        rw [hdb, hbb] at hbase
        have hfv := Btf.findVal_congr (Option.some.inj hbase) s
        rw [hbb] at hmiss
        dsimp only at hmiss ⊢
        split at hmiss
        next hc => rw [hfv, if_pos hc]
        next hc => exact absurd hmiss hc
  obtain ⟨hiw, -⟩ := hd.own.strs.index
  rw [hd', BtfOwn.findVal]
  split
  next => decide
  next =>
    by_cases hfit : d.index.Fits s
    · rw [(Strset.findStr_eq_ok hiw s o).mpr ⟨ho, hfit⟩]
      show intSum d.startStrOff o ≠ _
      unfold intSum
      split
      · exact fun he => fail_ne_ok he.symm
      · decide
    · rw [Strset.findStr, Strset.strAppend_eq, if_neg hfit]
      show (.error (.err (-ENOMEM)) : Res Nat) ≠ fail ENOENT
      decide

theorem NoneMissing.congr (h : ∀ s, b'.findVal s = b.findVal s) :
    ∀ L, NoneMissing b' L ↔ NoneMissing b L := by
  intro L
  induction L with
  | nil => exact Iff.rfl
  | cons s L ih =>
    unfold NoneMissing
    rw [h s]
    cases b.findVal s with
    | ok v => exact ih
    | error e => exact Iff.rfl

/-- A failed call is undone exactly when it was refused outright, or no
string was missing up to the point where it failed. -/
theorem addBtf_rollback_iff {src dst dst' : Btf} {code : Int} (hd : dst.Wf)
    (hs : src.Sized) (h : Btf.addBtf src dst = .error (.err code) dst') :
    Unchanged dst dst' ↔ Btf.AddBtfRefused src dst
      ∨ NoneMissing dst (btfCopyStrs src src.types) := by
  by_cases hr : Btf.AddBtfRefused src dst
  · refine ⟨fun _ => Or.inl hr, fun _ => ?_⟩
    obtain ⟨e, he | ⟨hse, he⟩⟩ := Btf.addBtf_refused hr
    · rw [he] at h
      cases h
      exact unchanged_of_norm hd hd rfl
    · rw [he] at h
      cases h
      exact unchanged_of_norm hd hd.opened (Btf.norm_opened hse)
  have hse : dst.sealed = false := by
    unfold Btf.AddBtfRefused at hr
    simp only [not_or] at hr
    simpa using hr.2.1
  rw [Btf.addBtf_copies hr] at h
  cases hc : btfCopyAll src src.copyFrom dst.typeCnt src.types
      ⟨dst.opened, some Hashmap.init⟩ with
  | ok ts p =>
    -- a finished loop can only end in an overflowing sum
    rw [hc, btfAddBtfDone] at h
    have hv := congrArg value h
    rw [value_outcome, value_error] at hv
    unfold intSum at hv
    split at hv
    · cases hv
    · cases hv
  | error e p =>
    rw [hc, btfAddBtfDone] at h
    cases h
    have hopen := hd.opened
    have hp := PipeOk.start src hopen
    have hq : Quiet src dst.opened ⟨dst.opened, some Hashmap.init⟩ := by
      refine ⟨fun _ => rfl, fun m hm e he => ?_⟩
      cases hm
      cases he
    have hsp := btfCopyAll_spec hopen src.copyFrom dst.typeCnt src.types
      hs _ hp
    rw [hc] at hsp
    have hint : dst.opened.Interned p.dst := hsp.1.interned
    have hw' := hint.wf_withStrLen hopen ⟨_, rfl⟩
    have hfv : ∀ s, dst.opened.findVal s = dst.findVal s :=
      fun s => Btf.findVal_congr (Btf.norm_opened hse) s
    have hmiss := NoneMissing.congr hfv (btfCopyStrs src src.types)
    rcases btfCopyAll_failed hopen src.copyFrom dst.typeCnt src.types
        hs _ hp hq _ p hc with ⟨hsame, hnone⟩ | ⟨hloud, hnone⟩
    · refine ⟨fun _ => Or.inr (hmiss.mp hnone), fun _ => ?_⟩
      apply unchanged_of_norm hd hw'
      have hn := hsame dst.opened.hdr.strLen
      exact hn.trans (Btf.norm_opened hse)
    refine ⟨fun hu => ?_, fun hor => ?_⟩
    · obtain ⟨s, o, hs₁, hs₂⟩ := hloud
      have hfind := hu.find s
      rw [(Btf.findStr_spec s _).1, (Btf.findStr_spec s _).1, ← hfv, hs₁] at hfind
      exact absurd hfind (Loud.found hw' hint.base hs₁ hs₂)
    · rcases hor with hor | hor
      · exact absurd hor hr
      · exact absurd (hmiss.mpr hor) hnone

/-- A destination that has the string already is left as it was. -/
theorem addBtf_rollback_iff_holding : ∃ src dst dst', btfNew .little 1 fooThenForeign none = .ok src
      ∧ btfNew .little 2 fooAlone none = .ok dst
      ∧ Btf.addBtf src dst = .error (.err (-EINVAL)) dst'
      ∧ (Unchanged dst dst' ↔ Btf.AddBtfRefused src dst
        ∨ NoneMissing dst (btfCopyStrs src src.types)) := by
  obtain ⟨src, hsrc, hdst⟩ := exists_ok_of_any
    (r := btfNew .little 1 fooThenForeign none) (P := fun src =>
      (btfNew .little 2 fooAlone none).toOption.any (fun dst =>
        decide (value (Btf.addBtf src dst) = fail EINVAL)) = true) (by decide +kernel)
  obtain ⟨dst, hdst, hv⟩ := exists_ok_of_any hdst
  have hc := eq_of_value hv
  exact ⟨src, dst, _, hsrc, hdst, hc, addBtf_rollback_iff
    (btfNew_wf (by nofun) hdst) (btfNew_sized hsrc) hc⟩

/-- A failed call on an empty destination: `btf__find_str` reported `foo`
missing before and finds it at offset 1 after. -/
theorem addBtf_leaves_string : ∃ src dst', btfNew .little 1 fooThenForeign none = .ok src
      ∧ Btf.addBtf src (btfNewEmpty .little 2 false none) = .error (.err (-EINVAL)) dst'
      ∧ value ((btfNewEmpty .little 2 false none).findStr foo) = fail ENOENT
      ∧ value (dst'.findStr foo) = .ok 1
      ∧ ¬ Unchanged (btfNewEmpty .little 2 false none) dst' := by
  obtain ⟨src, hsrc, hv, hafter⟩ := exists_ok_of_any
    (r := btfNew .little 1 fooThenForeign none) (P := fun src =>
      value (Btf.addBtf src (btfNewEmpty .little 2 false none)) = fail EINVAL
      ∧ value ((after (Btf.addBtf src (btfNewEmpty .little 2 false none))).findStr foo) = .ok 1)
    (by decide +kernel)
  have hbefore : value ((btfNewEmpty .little 2 false none).findStr foo)
      = fail ENOENT := by decide +kernel
  refine ⟨src, _, hsrc, eq_of_value hv, hbefore, hafter, fun hu => ?_⟩
  have hfind := hu.find foo
  rw [hbefore, hafter] at hfind
  exact fail_ne_ok hfind.symm

end Libbpf
