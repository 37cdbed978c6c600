/-
An output section is the concatenation of its inputs.

`sec_sz` and `dst_off` are `int`s, and a section that grows to 2^31 bytes, which
takes no memory if it has no contents or asks for a large enough alignment, no
longer fits them: from there on the recorded places are wrong. So over a whole
run of the linker the section of a name is the concatenation of its pieces
exactly when the pieces end below 2^31 (`append_concat_iff`).
-/
import Libbpf.Linker.Extend

namespace Libbpf

open Lib
open List hiding after

variable {ps qs : List Piece} {d : DstSec} {alloc : Allocator} {swapped : Bool} {s e : ElfScn}
  {l l' : Linker} {name : CStr}

-- ======== bounds

/-- The recorded places are in order and end below 2^31. -/
structure InBounds (ps : List Piece) : Prop where
  nonneg : ∀ p ∈ ps, 0 ≤ p.off.toInt
  inOrder : ps.Pairwise fun (p q : Piece) => p.off.toInt + (p.size : Int) ≤ q.off.toInt
  below : ∀ p ∈ ps, p.off.toInt + p.size < 2 ^ 31

theorem Concatenated.inBounds (h : Concatenated swapped ps d s) : InBounds ps := by
  refine ⟨h.nonneg, h.inOrder, fun p hp => ?_⟩
  cases hlast : ps.getLast? with
  | none =>
    rw [getLast?_eq_none_iff.mp hlast] at hp
    cases hp
  | some q =>
    have hq := (h.sizes q hlast).1
    have hint : d.secSz.toInt < 2 ^ 31 := BitVec.toInt_lt
    obtain ⟨init, rfl⟩ := getLast?_eq_some_iff.mp hlast
    have horder := (pairwise_append.mp h.inOrder).2.2
    rcases mem_append.mp hp with hp | hp
    · have := horder p hp q mem_cons_self
      omega
    · rw [mem_singleton.mp hp]
      omega

theorem InBounds.left (h : InBounds (ps ++ qs)) : InBounds ps where
  nonneg p hp := h.nonneg p (mem_append_left _ hp)
  inOrder := (pairwise_append.mp h.inOrder).1
  below p hp := h.below p (mem_append_left _ hp)

/-- If the next piece was recorded in order and below 2^31, that is where it
is. -/
theorem Layout.stop_lt {d' : DstSec} {off : BitVec 32} (hl : Layout swapped ps d s)
    (halign : max (max 1 s.shdr.shAddralign.toNat) e.shdr.shAddralign.toNat
      = max (laid ps).align e.shdr.shAddralign.toNat)
    (hpow : (Piece.mk e off).block.Pow2) (hs : d.scn = some s)
    (h : extendScn alloc swapped d e = .ok (d', off)) (hb : InBounds (ps ++ [⟨e, off⟩])) :
    (laid (ps ++ [⟨e, off⟩])).stop < 2 ^ 31 := by
  obtain ⟨alignSz, raw, halignSz, -, hoff, -⟩ := extendScn_ok hs h
  obtain ⟨-, hsz⟩ := toNat_alignSz hl.toSized halign hpow
  rw [← halignSz] at hsz
  have hmem : Piece.mk e off ∈ ps ++ [⟨e, off⟩] := mem_append_right _ mem_cons_self
  have hnonneg : 0 ≤ off.toInt := hb.nonneg _ hmem
  have hbelow := hb.below (Piece.mk e off) hmem
  have hsize : (Piece.mk e off).size = e.shdr.shSize.toNat := rfl
  dsimp only at hbelow
  have hoffNat : off.toNat < 2 ^ 31 := by
    rw [BitVec.toInt_eq_toNat_cond] at hnonneg
    split at hnonneg <;> omega
  have hoffInt : off.toInt = off.toNat := toInt_of_small hoffNat
  have hmod : alignSz.toNat % 2 ^ (31 + 1) = off.toNat := by rw [hoff, BitVec.toNat_setWidth]
  -- the piece starts behind the end of the last one
  have hbehind : (laid ps).stop ≤ off.toNat := by
    cases hlast : ps.getLast? with
    | none =>
      rw [getLast?_eq_none_iff.mp hlast]
      exact Nat.zero_le _
    | some q =>
      have hend := hl.last q hlast
      have hqmem := mem_of_getLast? hlast
      have hq : q.off.toInt = q.off.toNat := toInt_of_small (by have := hl.small; omega)
      have horder := (pairwise_append.mp hb.inOrder).2.2 q hqmem _ mem_cons_self
      rw [hq] at horder
      have hnat : ((q.off.toNat + q.size : Nat) : Int) ≤ off.toInt := by
        exact horder
      omega
  obtain ⟨k, hk⟩ := hl.pow
  obtain ⟨j, hj⟩ := Laid.pow_next hk hpow
  have hround : alignSz.toNat = roundUp (laid ps).stop (2 ^ j) := by
    rw [hsz, ← hj]
    rfl
  have hexact : alignSz.toNat < 2 ^ 31 := by
    rw [hround] at hmod ⊢
    apply roundUp_lt_of_mod (w := 31) hl.small
    · rw [hmod]
      exact hoffNat
    · rw [hmod]
      exact hbehind
  have hstop : (laid (ps ++ [⟨e, off⟩])).stop = alignSz.toNat + e.shdr.shSize.toNat := by
    rw [laid_concat, hsz]
    rfl
  omega

-- ======== runs

/-- The contents of the section of a name. -/
def Linker.rawOf (l : Linker) (name : CStr) : Bytes := (l.sec? name).elim [] DstSec.rawData

theorem Begun.rawData_eq {old : Option DstSec} (h : Begun e old d) :
    old.elim [] DstSec.rawData = d.rawData := by
  cases h with
  | going => rfl
  | fresh hold hnone =>
    cases old with
    | none => exact (hnone rfl).symm
    | some o => exact (hold o rfl).2

/-- What a section of an object does to the section of a name: it leaves it as
it is, or puts a piece behind it. -/
inductive Follows (alloc : Allocator) (ps : List Piece) (l l' : Linker) (name : CStr) :
    Option Piece → Prop
  | same (hgood : Good l.swappedEndian ps (l'.sec? name)) (hraw : l'.rawOf name = l.rawOf name) :
      Follows alloc ps l l' name none
  | piece {e s : ElfScn} {off : BitVec 32} {d d' : DstSec} (hs : d.scn = some s)
      (htype : s.shdr.shType = e.shdr.shType) (hl : Layout l.swappedEndian ps d s)
      (halign : max (max 1 s.shdr.shAddralign.toNat) e.shdr.shAddralign.toNat
        = max (laid ps).align e.shdr.shAddralign.toNat)
      (hext : extendScn alloc l.swappedEndian d e = .ok (d', off))
      (hsec : l'.sec? name = some d') (hraw : l.rawOf name = d.rawData) :
      Follows alloc ps l l' name (some ⟨e, off⟩)

theorem Appended.follows {src src' : SrcSec} (h : Appended alloc src l src' l')
    (hgood : Good l.swappedEndian ps (l.sec? name)) :
    l'.swappedEndian = l.swappedEndian ∧ Follows alloc ps l l' name (src'.piece? name) := by
  -- a section of another name
  have hother : ∀ {id d}, Changed src.secName id d l l' → src.secName ≠ name →
      Follows alloc ps l l' name none := by
    intro id d hl hne
    have hsec := hl.others name (Ne.symm hne)
    refine .same (hsec ▸ hgood) ?_
    rw [Linker.rawOf, Linker.rawOf, hsec]
  cases h with
  | ignored hdata =>
    have hnone : src.piece? name = none := by simp [SrcSec.piece?, hdata]
    exact ⟨rfl, hnone ▸ .same hgood rfl⟩
  | deduped id =>
    have hnone : SrcSec.piece? name { src with skipped := true, dstId := id } = none := by
      simp [SrcSec.piece?, isDataSec]
    exact ⟨rfl, hnone ▸ .same hgood rfl⟩
  | @ephemeral _ id d hs hl hd =>
    have hnone : SrcSec.piece? name { src with dstId := id } = none := by
      simp [SrcSec.piece?, hs]
    refine ⟨hl.order, ?_⟩
    rw [hnone]
    by_cases hname : src.secName = name
    · subst hname
      rcases hd with hd | ⟨hno, rfl⟩
      · have hsec : l'.sec? src.secName = l.sec? src.secName := hl.sec?.trans hd.symm
        refine .same (hsec ▸ hgood) ?_
        rw [Linker.rawOf, Linker.rawOf, hsec]
      have hnil : ps = [] := by
        rw [hno] at hgood
        cases hgood
        assumption
      refine .same (hl.sec? ▸ .shell hnil rfl rfl rfl) ?_
      rw [Linker.rawOf, Linker.rawOf, hl.sec?, hno]
      rfl
    · exact hother hl hname
  | @extended _ id e d d' off hdata hs hbegun hext hl =>
    refine ⟨hl.order, ?_⟩
    by_cases hname : src.secName = name
    · subst hname
      have hpiece : SrcSec.piece? src.secName { src with dstId := id, dstOff := off }
          = some ⟨e, off⟩ := by
        unfold SrcSec.piece?
        rw [if_pos ⟨rfl, hdata⟩]
        exact congrArg _ hs
      rw [hpiece]
      obtain ⟨s, hds, htype, hlay, halign⟩ := hgood.begun hbegun
      exact .piece hds htype hlay halign hext hl.sec? hbegun.rawData_eq
    · have hnone : SrcSec.piece? name { src with dstId := id, dstOff := off } = none := by
        simp [SrcSec.piece?, hname]
      rw [hnone]
      exact hother hl hname

/-- The pieces end below 2^31, or have been recorded so. -/
def Fine (ps : List Piece) : Prop := InBounds ps ∨ (laid ps).stop < 2 ^ 31

theorem Fine.left (h : Fine (ps ++ qs)) : Fine ps := by
  rcases h with h | h
  · exact .inl h.left
  · exact .inr (Nat.lt_of_le_of_lt (laid_stop_le ps qs) h)

theorem pieces_concat (name : CStr) (secs : List SrcSec) (sec : SrcSec) :
    pieces name (secs ++ [sec]) = pieces name secs ++ (sec.piece? name).toList := by
  rw [pieces, filterMap_append]
  rfl

/-- Whole runs: the section of a name stays laid out, and its contents only
grow. -/
theorem good_run {srcs outs : List SrcSec} (hgood : Good l.swappedEndian ps (l.sec? name))
    (hstop : (laid ps).stop < 2 ^ 31) (hrun : collect (appendSec alloc) srcs l = .ok outs l')
    (hpow : ∀ p ∈ pieces name outs, p.block.Pow2) (hfine : Fine (ps ++ pieces name outs)) :
    (laid (ps ++ pieces name outs)).stop < 2 ^ 31
      ∧ Good l'.swappedEndian (ps ++ pieces name outs) (l'.sec? name)
      ∧ l.rawOf name <+: l'.rawOf name ∧ l'.swappedEndian = l.swappedEndian := by
  refine collect_ok (fun _ done t => (∀ p ∈ pieces name done, p.block.Pow2) →
    Fine (ps ++ pieces name done) → (laid (ps ++ pieces name done)).stop < 2 ^ 31
      ∧ Good t.swappedEndian (ps ++ pieces name done) (t.sec? name)
      ∧ l.rawOf name <+: t.rawOf name ∧ t.swappedEndian = l.swappedEndian)
    hrun (fun _ _ => ?_) (fun _ src src' t t' done ih hstep _ => ?_) hpow hfine
  · rw [pieces, filterMap_nil, append_nil]
    exact ⟨hstop, hgood, prefix_refl _, rfl⟩
  · rw [pieces_concat, ← append_assoc]
    intro hpow hfine
    obtain ⟨hstop, hgood, hraw, horder⟩ := ih (fun p hp => hpow p (mem_append_left _ hp)) hfine.left
    obtain ⟨horder', hfollows⟩ := (appendSec_ok hstep).follows hgood
    rw [horder']
    cases hp : src'.piece? name with
    | none =>
      rw [hp] at hfollows
      cases hfollows with
      | same hgood' hraw' =>
        rw [Option.toList_none, append_nil, hraw']
        exact ⟨hstop, hgood', hraw, horder⟩
    | some p =>
      rw [hp] at hfollows hpow hfine
      have hp2 : p.block.Pow2 := hpow p (by simp)
      cases hfollows with
      | @piece e s off d d' hs htype hl halign hext hsec hraw' =>
        have hnext : (laid (ps ++ pieces name done ++ [⟨e, off⟩])).stop < 2 ^ 31 := by
          rcases hfine with hb | hlt
          · exact hl.stop_lt halign hp2 hs hext hb
          · exact hlt
        obtain ⟨s', hs', hgrown⟩ := hl.toSized.grown halign hp2 hs htype hext
          (laid_concat _ _ ▸ hnext)
        refine ⟨hnext, ?_, ?_, horder⟩
        · rw [hsec]
          exact .real (by simp) hs' (hgrown.finished hl hp2 hnext)
        · have hrawOf : t'.rawOf name = d'.rawData := by
            rw [Linker.rawOf, hsec]
            rfl
          rw [hrawOf]
          exact (hraw' ▸ hraw).trans hgrown.rawData_grows

/-- The inputs of a name, over any run of the linker that starts without a
section of that name. Ephemeral sections leave at most an empty shell. With
other inputs there is a section that is their concatenation, and whose contents
at any time were a first part of the last ones, exactly when the inputs end
below 2^31. -/
theorem append_concat_iff {alloc : Allocator} {name : CStr} {srcs outs : List SrcSec}
    {l l' : Linker} (hnew : l.sec? name = none) (hpow : ∀ p ∈ pieces name outs, p.block.Pow2)
    (hrun : collect (appendSec alloc) srcs l = .ok outs l') :
    (pieces name outs = [] → ∀ d, l'.sec? name = some d →
        d.scn = none ∧ d.rawData = [] ∧ d.secSz = 0)
      ∧ (pieces name outs ≠ [] → ((∃ d s, l'.sec? name = some d ∧ d.scn = some s
            ∧ Concatenated l.swappedEndian (pieces name outs) d s
            ∧ ∀ pre post outs₁ l₁, srcs = pre ++ post →
              collect (appendSec alloc) pre l = .ok outs₁ l₁ → l₁.rawOf name <+: d.rawData)
          ↔ (laid (pieces name outs)).stop < 2 ^ 31)) := by
  have hstart : Good l.swappedEndian [] (l.sec? name) := hnew ▸ .none rfl
  have hzero : (laid []).stop < 2 ^ 31 := by decide
  have hgood := good_run hstart hzero hrun hpow
  rw [nil_append] at hgood
  constructor
  · intro hnil d hd
    obtain ⟨-, hg, -, -⟩ := hgood (.inr (by rw [hnil]; exact hzero))
    rw [hnil, hd] at hg
    cases hg with
    | shell _ hs hraw hsz => exact ⟨hs, hraw, hsz⟩
    | real hne => exact absurd rfl hne
  · intro hne
    constructor
    · rintro ⟨d, s, -, -, hc, -⟩
      exact (hgood (.inl hc.inBounds)).1
    · intro hstop
      obtain ⟨-, hg, -, horder⟩ := hgood (.inr hstop)
      rw [horder] at hg
      generalize hsec : l'.sec? name = sec at hg
      cases hg with
      | none hnil => exact absurd hnil hne
      | shell hnil => exact absurd hnil hne
      | @real d s _ hs hf =>
        refine ⟨d, s, rfl, hs, hf.concatenated, ?_⟩
        rintro pre post outs₁ l₁ rfl hpre
        -- the rest of the run starts from a section that is laid out
        obtain ⟨outs₂, rfl, hpost⟩ : ∃ outs₂, outs = outs₁ ++ outs₂
            ∧ collect (appendSec alloc) post l₁ = .ok outs₂ l' := by
          rw [collect_append] at hrun
          simp only [bind_eq_ok, run_pure] at hrun
          obtain ⟨os₁, t, h₁, os₂, t', h₂, h⟩ := hrun
          rw [hpre] at h₁
          cases h₁
          cases h
          exact ⟨os₂, rfl, h₂⟩
        have happ : pieces name (outs₁ ++ outs₂) = pieces name outs₁ ++ pieces name outs₂ :=
          filterMap_append
        rw [happ] at hstop hpow
        have hstop₁ := Nat.lt_of_le_of_lt (laid_stop_le _ _) hstop
        obtain ⟨-, hg₁, -, -⟩ := good_run hstart hzero hpre
          (fun p hp => hpow p (mem_append_left _ hp)) (.inr (by
            rw [nil_append]
            exact hstop₁))
        rw [nil_append] at hg₁
        obtain ⟨-, -, hraw, -⟩ := good_run hg₁ hstop₁ hpost
          (fun p hp => hpow p (mem_append_right _ hp)) (.inr hstop)
        have hlast : l'.rawOf name = d.rawData := by
          rw [Linker.rawOf, hsec]
          rfl
        rw [← hlast]
        exact hraw

/-- ".x". -/
private def secX : CStr := ⟨[46, 120], by decide⟩

/-- An executable section of one instruction. -/
private def execX (align : BitVec 64) (insn : Bytes) : SrcSec :=
  { secName := secX
    scn := some
      { secIdx := 1
        shdr := { shType := SHT_PROGBITS, shFlags := 6, shSize := 8, shAddralign := align }
        data := { dBuf := insn, dSize := 8, dAlign := align } } }

/-- A section without contents. -/
private def bssX (size : BitVec 64) : SrcSec :=
  { secName := secX
    scn := some
      { secIdx := 1
        shdr := { shType := SHT_NOBITS, shFlags := 3, shSize := size, shAddralign := 1 }
        data := { dSize := size, dAlign := 1 } } }

private def foreign : Linker := { after bpfLinkerNew with swappedEndian := true }

private def twoInsns : List SrcSec :=
  [{ secName := secX, scn := none }, execX 8 [24, 16, 0, 1, 0, 0, 0, 2],
    execX 16 [149, 0, 0, 0, 0, 0, 0, 0]]

/-- A shell and two instructions of the foreign order, the second at a multiple
of 16. -/
theorem append_concat_iff_foreign :
    ∃ outs l', collect (appendSec .zeroing) twoInsns foreign = .ok outs l'
      ∧ (pieces secX outs).map (·.off) = [0, 16]
      ∧ l'.rawOf secX = [24, 1, 1, 0, 2, 0, 0, 0, 0, 0, 0, 0, 0, 0, 0, 0, 149, 0, 0, 0, 0, 0, 0, 0]
      ∧ ∃ d s, l'.sec? secX = some d ∧ d.scn = some s
        ∧ Concatenated true (pieces secX outs) d s := by
  obtain ⟨outs, hv, hoffs, hblocks⟩ := exists_ok_of_any
    (r := value (collect (appendSec .zeroing) twoInsns foreign)) (P := fun outs =>
      (pieces secX outs).map (·.off) = [0, 16]
      ∧ (pieces secX outs).map (·.block) = [⟨8, 8⟩, ⟨16, 8⟩]) (by decide +kernel)
  have hrun := eq_of_value hv
  refine ⟨outs, _, hrun, hoffs, by decide +kernel, ?_⟩
  have hpow : ∀ p ∈ pieces secX outs, p.block.Pow2 := by
    intro p hp
    have hmem := mem_map_of_mem (f := Piece.block) hp
    rw [hblocks] at hmem
    rcases mem_cons.mp hmem with h | h
    · exact .inr ⟨3, congrArg Block.align h⟩
    · exact .inr ⟨4, congrArg Block.align (mem_singleton.mp h)⟩
  have hne : pieces secX outs ≠ [] := by
    intro h
    rw [h] at hoffs
    cases hoffs
  have hstop : (laid (pieces secX outs)).stop < 2 ^ 31 := by
    rw [laid, hblocks]
    decide
  obtain ⟨d, s, hd, hs, hc, -⟩ :=
    ((append_concat_iff (by decide +kernel) hpow hrun).2 hne).mpr hstop
  exact ⟨d, s, hd, hs, hc⟩

/-- Two inputs without contents, of 2^32 and of 8 bytes: both are recorded at
0, and the section has 8 bytes. -/
theorem append_overlaps :
    ∃ outs l' d s, collect (appendSec .zeroing) [bssX 0x100000000, bssX 8] (after bpfLinkerNew)
        = .ok outs l'
      ∧ (pieces secX outs).map (fun p => (p.off.toInt, p.size)) = [(0, 2 ^ 32), (0, 8)]
      ∧ l'.sec? secX = some d ∧ d.scn = some s ∧ d.secSz.toInt = 8
      ∧ s.shdr.shSize.toNat = 8 := by
  obtain ⟨outs, hv, hpieces⟩ := exists_ok_of_any
    (r := value (collect (appendSec .zeroing) [bssX 0x100000000, bssX 8] (after bpfLinkerNew)))
    (P := fun outs => (pieces secX outs).map (fun p => (p.off.toInt, p.size))
      = [(0, 2 ^ 32), (0, 8)]) (by decide +kernel)
  have hsec : ((after (collect (appendSec .zeroing) [bssX 0x100000000, bssX 8]
      (after bpfLinkerNew))).sec? secX).bind
      (fun d => d.scn.map fun s => (d.secSz.toInt, s.shdr.shSize.toNat)) = some (8, 8) := by
    decide +kernel
  obtain ⟨d, hd, hsec⟩ := Option.bind_eq_some_iff.mp hsec
  obtain ⟨s, hs, hsizes⟩ := Option.map_eq_some_iff.mp hsec
  obtain ⟨hsz, hsh⟩ := Prod.mk.inj hsizes
  exact ⟨outs, _, d, s, eq_of_value hv, hpieces, hd, hs, hsz, hsh⟩

end Libbpf
