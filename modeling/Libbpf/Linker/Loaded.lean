/-
What the checks of an object give for its relocations.

`Loaded` is an object as `linker_append_elf_relos` finds it. From the checks it
follows that every relocation that is looked at can be read, and so can its
symbol (`Loaded.relo`). They say nothing about where a relocation points.
-/
import Libbpf.Linker.Relos

namespace Libbpf

open Lib List

/-- What holds of an object when its relocations are appended: the first `n`
sections are those of its ELF file and have passed the checks, ignored sections
are skipped, and libelf and `linker_append_elf_syms` have provided the buffers
and the symbol map. -/
structure Loaded (host : ByteOrder) (n : Nat) (obj : SrcObj) : Prop where
  sane : linkerSanityCheckElf host { obj with secs := obj.secs.take n } = .ok ()
  unused : ∀ s, obj.secs[0]? = some s → s.scn = none
  ephemeral : ∀ i s, n ≤ i → obj.secs[i]? = some s → s.scn = none
  ignored : ∀ s ∈ obj.secs, ∀ e, s.scn = some e → isIgnoredSec s.secName e.shdr = true →
    s.skipped = true
  buffers : ∀ s ∈ obj.secs, ∀ e, s.scn = some e → e.shdr.shType ≠ SHT_NOBITS →
    e.data.dBuf.length = e.data.dSize.toNat
  symtab : ∃ s e, obj.secs[obj.symtabSecIdx]? = some s ∧ s.scn = some e ∧ s.skipped = false
    ∧ e.shdr.shType = SHT_SYMTAB ∧ e.shdr.shSize.toNat / 24 < obj.symMap.length

namespace Loaded

variable {host : ByteOrder} {n : Nat} {obj : SrcObj} {i : Nat} {s : SrcSec} {e : ElfScn}

/-- The section went through the check. -/
theorem checked (h : Loaded host n obj) (hi : obj.secs[i]? = some s) (he : s.scn = some e) :
    sanityCheckSec host { obj with secs := obj.secs.take n } s = .ok () := by
  have hne : i ≠ 0 := by
    rintro rfl
    rw [h.unused s hi] at he
    cases he
  have hlt : i < n := by
    by_contra hge
    rw [h.ephemeral i s (by omega) hi] at he
    cases he
  have hsane := h.sane
  simp only [linkerSanityCheckElf, except_bind_eq_ok] at hsane
  obtain ⟨_, -, _, -, hall⟩ := hsane
  refine checkAll_eq_ok.mp hall s (mem_of_getElem? (i := i - 1) ?_)
  rw [getElem?_drop, getElem?_take_of_lt (by omega), ← hi]
  congr 1
  omega

/-- A section that is not skipped has no DWARF name. -/
theorem not_dwarf (h : Loaded host n obj) (hi : obj.secs[i]? = some s) (he : s.scn = some e)
    (hskip : s.skipped = false) : isDwarfSecName s.secName.val = false := by
  by_contra hd
  have := h.ignored s (mem_of_getElem? hi) e he (by simp [isIgnoredSec, hd])
  rw [hskip] at this
  cases this

/-- The header and the data of a section that is not skipped agree. -/
theorem header (h : Loaded host n obj) (hi : obj.secs[i]? = some s) (he : s.scn = some e)
    (hskip : s.skipped = false) :
    (e.shdr.shAddralign = 0 ∨ isPowOf2 e.shdr.shAddralign = true) ∧ e.shdr.shSize = e.data.dSize
      ∧ (e.shdr.shType = SHT_SYMTAB →
        linkerSanityCheckElfSymtab host { obj with secs := obj.secs.take n } e = .ok ())
      ∧ (e.shdr.shType = SHT_REL →
        linkerSanityCheckElfRelos host { obj with secs := obj.secs.take n } s.secName e
          = .ok ()) := by
  have hcheck := h.checked hi he
  simp only [sanityCheckSec, h.not_dwarf hi he hskip, except_bind_eq_ok, he, deref_eq_ok,
    failIf_eq_ok, Bool.false_eq_true, if_false] at hcheck
  obtain ⟨_, -, _, ⟨⟩, _, halign, _, -, _, hsize, hcheck⟩ := hcheck
  refine ⟨?_, by simpa using hsize, fun ht => ?_, fun ht => ?_⟩
  · by_cases hz : e.shdr.shAddralign = 0
    · exact .inl hz
    · refine .inr ?_
      by_contra hc
      exact halign ⟨hz, hc⟩
  · rw [if_pos ht] at hcheck
    exact hcheck
  · rw [if_neg (by rw [ht]; decide), if_neg (by rw [ht]; decide), if_neg (by rw [ht]; decide),
      if_neg (by rw [ht]; decide), if_pos ht] at hcheck
    exact hcheck

/-- A symbol that the check of the relocations lets through is there. -/
theorem symbol (h : Loaded host n obj) {idx : Nat} {st : SrcSec} {ste : ElfScn}
    (hst : obj.secs[obj.symtabSecIdx]? = some st) (hste : st.scn = some ste)
    (hidx : idx * 24 < ste.shdr.shSize.toNat) :
    ∃ sym m, symAt host ste.data.dBuf idx = .ok sym ∧ obj.symMap[idx]? = some m := by
  obtain ⟨st', ste', hst', hste', hskip, htype, hmap⟩ := h.symtab
  rw [hst] at hst'
  cases hst'
  rw [hste] at hste'
  cases hste'
  obtain ⟨-, hsize, hsym, -⟩ := h.header hst hste hskip
  have hcheck := hsym htype
  simp only [linkerSanityCheckElfSymtab, except_bind_eq_ok, failIf_eq_ok] at hcheck
  have hlen := h.buffers st (mem_of_getElem? hst) ste hste (by rw [htype]; decide)
  rw [← hsize] at hlen
  have hin : 24 * idx + 24 ≤ ste.data.dBuf.length := by omega
  have hlt : idx < obj.symMap.length := by omega
  have hsymAt : ∃ sym, symAt host ste.data.dBuf idx = .ok sym := by
    simp only [symAt, access, if_pos hin]
    exact ⟨_, rfl⟩
  obtain ⟨sym, hsymAt⟩ := hsymAt
  exact ⟨sym, _, hsymAt, getElem?_eq_getElem hlt⟩

/-- A relocation section and what its relocations refer to. -/
theorem relo (h : Loaded host n obj) (hi : obj.secs[i]? = some s) (he : s.scn = some e)
    (hrelo : isReloSec s = true) :
    e.shdr.shType = SHT_REL ∧ e.shdr.shEntsize = sizeofRel
      ∧ e.data.dBuf.length = e.shdr.shSize.toNat
      ∧ ∃ link, obj.secs[e.shdr.shInfo.toNat]? = some link ∧ (link.skipped = false →
        ∃ le, link.scn = some le ∧ (le.shdr.shType = SHT_PROGBITS ∨ le.shdr.shType = SHT_NOBITS)
          ∧ ∀ j, j < entryCnt e.shdr → ∃ rel st ste sym m, relAt host e.data.dBuf j = .ok rel
            ∧ obj.secs[obj.symtabSecIdx]? = some st ∧ st.scn = some ste
            ∧ symAt host ste.data.dBuf rel.sym = .ok sym ∧ obj.symMap[rel.sym]? = some m) := by
  simp only [isReloSec, he, Bool.and_eq_true, Bool.not_eq_true', beq_iff_eq] at hrelo
  obtain ⟨hskip, htype⟩ := hrelo
  obtain ⟨-, hsize, -, hrel⟩ := h.header hi he hskip
  have hcheck := hrel htype
  have hlen := h.buffers s (mem_of_getElem? hi) e he (by rw [htype]; decide)
  simp only [linkerSanityCheckElfRelos, except_bind_eq_ok, failIf_eq_ok, deref_eq_ok,
    not_not] at hcheck
  obtain ⟨_, hent, _, -, _, -, _, -, link, hlink, _, -, hcheck⟩ := hcheck
  have hinfo : obj.secs[e.shdr.shInfo.toNat]? = some link := by
    obtain ⟨hlt, -⟩ := List.getElem?_eq_some_iff.mp hlink
    rw [length_take] at hlt
    rwa [getElem?_take_of_lt (by omega)] at hlink
  refine ⟨htype, hent, hsize ▸ hlen, link, hinfo, fun hnskip => ?_⟩
  simp only [hnskip, Bool.false_eq_true, if_false, except_bind_eq_ok, deref_eq_ok,
    failIf_eq_ok] at hcheck
  obtain ⟨le, hle, _, hltype, st, hst, ste, hste, hall⟩ := hcheck
  have hst : obj.secs[obj.symtabSecIdx]? = some st := by
    obtain ⟨hlt, -⟩ := List.getElem?_eq_some_iff.mp hst
    rw [length_take] at hlt
    rwa [getElem?_take_of_lt (by omega)] at hst
  refine ⟨le, hle, ?_, fun j hj => ?_⟩
  · by_contra hc
    rw [not_or] at hc
    exact hltype hc
  · have hrelj := checkAll_eq_ok.mp hall j (mem_range.mpr hj)
    obtain ⟨rel, hrelat, hrelj⟩ := of_bind_ok hrelj
    simp only [sanityCheckRel, except_bind_eq_ok, failIf_eq_ok, not_or, not_le] at hrelj
    obtain ⟨_, -, _, ⟨-, hidx⟩, -⟩ := hrelj
    obtain ⟨sym, m, hsym, hm⟩ := h.symbol hst hste hidx
    exact ⟨rel, st, ste, sym, m, hrelat, hst, hste, hsym, hm⟩

/-- The alignment of a section that is not skipped. -/
theorem pow2 (h : Loaded host n obj) (hi : obj.secs[i]? = some s) (he : s.scn = some e)
    (hskip : s.skipped = false) :
    e.shdr.shAddralign.toNat = 0 ∨ ∃ k, e.shdr.shAddralign.toNat = 2 ^ k := by
  rcases (h.header hi he hskip).1 with hz | hpow
  · exact .inl (by rw [hz]; rfl)
  simp only [isPowOf2, Bool.and_eq_true, bne_iff_ne, beq_iff_eq] at hpow
  obtain ⟨hne, hand⟩ := hpow
  have hpos : e.shdr.shAddralign.toNat ≠ 0 := fun h0 => hne (BitVec.eq_of_toNat_eq h0)
  refine .inr ((Nat.and_sub_one_eq_zero_iff_isPowerOfTwo hpos).mp ?_)
  have hnat := congrArg BitVec.toNat hand
  have hsub : (e.shdr.shAddralign - 1).toNat = e.shdr.shAddralign.toNat - 1 := by
    have hone : (1 : BitVec 64).toNat = 1 := rfl
    rw [BitVec.toNat_sub]
    omega
  rwa [BitVec.toNat_and, hsub] at hnat

end Loaded

end Libbpf
