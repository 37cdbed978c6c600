/-
What the relocations of an object change in the output.

Bytes that were in the output before the call belong to the object if they lie
where one of its own sections was put (`OwnAt`). If every relocation against a
section symbol refers to a word inside the section that it relocates, these are
the only ones that change (`relos_frame`): each store goes to such a word or to
a record that the call itself appended. Nothing checks that: `r_offset` is only
looked at for its alignment, and a word before the section, reached by wrapping
around, belongs to an earlier object.
-/
import Libbpf.Lib.Ensures
import Libbpf.Linker.Relos
import Libbpf.Lib.Words
import Libbpf.Linker.Extend

namespace Libbpf

open Lib

variable {d : DstSec} {id pos : Nat} {new : Bytes}

-- ======== frames

/-- Nothing outside `own` that was there has changed, and nothing is gone. -/
def Framed (own : Nat → Nat → Prop) (l l' : Linker) : Prop :=
  ∀ id d, l.secs[id]? = some d → ∃ d', l'.secs[id]? = some d' ∧ d.rawData.length ≤ d'.rawData.length
    ∧ ∀ i, i < d.rawData.length → ¬ own id i → d'.rawData[i]? = d.rawData[i]?

/-- Contents were overwritten inside `own`, and nothing else has changed. -/
structure Overwritten (own : Nat → Nat → Prop) (l l' : Linker) : Prop where
  names : l'.secs.map (·.secName) = l.secs.map (·.secName)
  order : l'.swappedEndian = l.swappedEndian
  secs : ∀ id d, l.secs[id]? = some d → ∃ raw, l'.secs[id]? = some { d with rawData := raw }
    ∧ raw.length = d.rawData.length
    ∧ ∀ i, i < d.rawData.length → ¬ own id i → raw[i]? = d.rawData[i]?

section

variable {own : Nat → Nat → Prop} {l l' : Linker}

theorem framed_composes : Composes (Framed own) where
  refl _ id d hd := ⟨d, hd, Nat.le_refl _, fun _ _ _ => rfl⟩
  trans h h' id d hd := by
    obtain ⟨d₁, hd₁, hlen₁, hsame₁⟩ := h id d hd
    obtain ⟨d₂, hd₂, hlen₂, hsame₂⟩ := h' id d₁ hd₁
    refine ⟨d₂, hd₂, Nat.le_trans hlen₁ hlen₂, fun i hi hown => ?_⟩
    exact (hsame₂ i (Nat.lt_of_lt_of_le hi hlen₁) hown).trans (hsame₁ i hi hown)

theorem overwritten_composes : Composes (Overwritten own) where
  refl _ := ⟨rfl, rfl, fun _ d hd => ⟨d.rawData, hd, rfl, fun _ _ _ => rfl⟩⟩
  trans h h' := by
    refine ⟨h'.names.trans h.names, h'.order.trans h.order, fun id d hd => ?_⟩
    obtain ⟨raw₁, hd₁, hlen₁, hsame₁⟩ := h.secs id d hd
    obtain ⟨raw₂, hd₂, hlen₂, hsame₂⟩ := h'.secs id _ hd₁
    refine ⟨raw₂, hd₂, hlen₂.trans hlen₁, fun i hi hown => ?_⟩
    exact (hsame₂ i (hlen₁ ▸ hi) hown).trans (hsame₁ i hi hown)

theorem Framed.mono {own' : Nat → Nat → Prop} (h : Framed own l l')
    (hown : ∀ id i, own id i → own' id i) : Framed own' l l' := by
  intro id d hd
  obtain ⟨d', hd', hlen, hsame⟩ := h id d hd
  exact ⟨d', hd', hlen, fun i hi hno => hsame i hi fun hc => hno (hown id i hc)⟩

theorem Overwritten.mono {own' : Nat → Nat → Prop} (h : Overwritten own l l')
    (hown : ∀ id i, own id i → own' id i) : Overwritten own' l l' := by
  refine ⟨h.names, h.order, fun id d hd => ?_⟩
  obtain ⟨raw, hd', hlen, hsame⟩ := h.secs id d hd
  exact ⟨raw, hd', hlen, fun i hi hno => hsame i hi fun hc => hno (hown id i hc)⟩

theorem Overwritten.framed (h : Overwritten own l l') : Framed own l l' := by
  intro id d hd
  obtain ⟨raw, hd', hlen, hsame⟩ := h.secs id d hd
  exact ⟨_, hd', hlen.ge, hsame⟩

theorem Overwritten.find (h : Overwritten own l l') (name : CStr) :
    findDstSecByName l' name = findDstSecByName l name := by
  rw [findDstSecByName_eq, findDstSecByName_eq, h.names]

/-- The section of a name after a patch. -/
theorem Overwritten.sec? (h : Overwritten own l l') (name : CStr) :
    (l.sec? name = none ∧ l'.sec? name = none)
      ∨ ∃ d raw, l.sec? name = some d ∧ l'.sec? name = some { d with rawData := raw }
        ∧ raw.length = d.rawData.length := by
  cases hfind : findDstSecByName l name with
  | none => exact .inl ⟨sec?_of_find_none hfind, sec?_of_find_none ((h.find name).trans hfind)⟩
  | some id =>
    obtain ⟨d, hd, -⟩ := findDstSecByName_some hfind
    obtain ⟨raw, hd', hlen, -⟩ := h.secs id d hd
    exact .inr ⟨d, raw, sec?_of_find hfind hd, sec?_of_find ((h.find name).trans hfind) hd', hlen⟩

theorem storeAt_eq (hd : l.secs[id]? = some d) (hin : pos + new.length ≤ d.rawData.length) :
    storeAt id pos new l
      = .ok () (l.modifySec id fun d => { d with rawData := patch d.rawData pos new }) := by
  simp only [storeAt, run_bind, run_get, hd, deref, liftRes_ok, faultIf]
  rw [if_neg (by omega)]
  rfl

theorem loadAt_eq {len : Nat} (hd : l.secs[id]? = some d) (hin : pos + len ≤ d.rawData.length) :
    loadAt id pos len l = .ok (slice d.rawData pos len) l := by
  simp only [loadAt, run_bind, run_get, hd, deref, liftRes_ok, access]
  rw [if_pos hin]
  rfl

theorem overwritten_store (hd : l.secs[id]? = some d) (hin : pos + new.length ≤ d.rawData.length)
    (hown : ∀ i, pos ≤ i → i < pos + new.length → own id i) :
    Overwritten own l (l.modifySec id fun d => { d with rawData := patch d.rawData pos new }) := by
  refine ⟨?_, rfl, fun j x hx => ?_⟩
  · refine List.ext_getElem? fun j => ?_
    simp only [Linker.modifySec, List.getElem?_map, List.getElem?_modify]
    cases l.secs[j]? with
    | none => rfl
    | some x => by_cases hj : id = j <;> simp [hj]
  · by_cases hj : id = j
    · subst hj
      rw [hd] at hx
      cases hx
      refine ⟨patch d.rawData pos new, by simp [Linker.modifySec, hd], patch_length hin, ?_⟩
      intro i hi hno
      rw [getElem?_patch hin, if_neg fun hc => hno (hown i hc.1 hc.2)]
    · exact ⟨x.rawData, by simp [Linker.modifySec, hj, hx], rfl, fun _ _ _ => rfl⟩

/-- A store inside `own` is a patch. -/
theorem moves_store (hd : l.secs[id]? = some d) (hin : pos + new.length ≤ d.rawData.length)
    (hown : ∀ i, pos ≤ i → i < pos + new.length → own id i) :
    Moves (Overwritten own) Stop.IsCode (storeAt id pos new) l := by
  unfold Moves
  rw [storeAt_eq hd hin]
  exact overwritten_store hd hin hown

end

-- ======== in place

section

variable {own : Nat → Nat → Prop} {host : ByteOrder} {l : Linker}

theorem u64Bytes_length (o : ByteOrder) (n : Nat) : (u64Bytes o n).length = 8 := by
  cases o <;> rfl

/-- The word that a relocation against a section symbol refers to is the only
thing that it changes. -/
theorem moves_addInPlace {linked sec : SrcSec} {le : ElfScn} {relType place : Nat}
    (hlinked : linked.scn = some le) (hsec : sec.scn ≠ none)
    (hd : l.secs[linked.dstId]? = some d) (hin : place + 8 ≤ d.rawData.length)
    (hown : ∀ i, place ≤ i → i < place + 8 → own linked.dstId i) :
    Moves (Overwritten own) Stop.IsCode (addInPlace host linked sec relType place) l := by
  refine moves_read (by rw [hlinked]; rfl) ?_
  by_cases hexec : le.shdr.shFlags &&& SHF_EXECINSTR ≠ 0
  · rw [if_pos hexec]
    refine moves_of_eq (loadAt_eq hd hin) (moves_store hd ?_ fun i hlo hhi => ?_)
    · rw [u32Bytes_length]
      omega
    · rw [u32Bytes_length] at hhi
      exact hown i (by omega) (by omega)
  · rw [if_neg hexec]
    obtain ⟨s, hs⟩ := Option.ne_none_iff_exists'.mp hsec
    have hflag : ∃ b, isCodePtr relType sec = .ok b := by
      unfold isCodePtr
      by_cases ht : relType = R_BPF_64_ABS64
      · rw [if_pos ht, hs]
        exact ⟨_, rfl⟩
      · rw [if_neg ht]
        exact ⟨_, rfl⟩
    obtain ⟨b, hb⟩ := hflag
    refine moves_read hb ?_
    cases b with
    | false => exact ⟨trivial, overwritten_composes.refl l⟩
    | true =>
      refine moves_read rfl (moves_get (moves_of_eq (loadAt_eq hd hin)
        (moves_store hd ?_ fun i hlo hhi => ?_)))
      · rw [u64Bytes_length]
        exact hin
      · rw [u64Bytes_length] at hhi
        exact hown i hlo hhi

/-- Where a record is, and that it is still as it was copied. -/
structure AtRecord (host : ByteOrder) (rels : Bytes) (l : Linker) (id p j : Nat) (d : DstSec) :
    Prop where
  sec : l.secs[id]? = some d
  inside : p + 16 * j + 16 ≤ d.rawData.length
  copied : slice d.rawData (p + 16 * j) 16 = slice rels (16 * j) 16

/-- A relocation changes its record and, against a section symbol, the word it
refers to. -/
theorem moves_appendRelo {obj : SrcObj} {secs : List SrcSec} {linked st : SrcSec}
    {le ste : ElfScn} {rels : Bytes} {p j : Nat} {dl : DstSec} {rel : Elf64Rel}
    {sym : Elf64Sym} {m : BitVec 32} (hrel : relAt host rels j = .ok rel)
    (hst : secs[obj.symtabSecIdx]? = some st) (hste : st.scn = some ste)
    (hsym : symAt host ste.data.dBuf rel.sym = .ok sym) (hmap : obj.symMap[rel.sym]? = some m)
    (hd : AtRecord host rels l id p j d)
    (hown : ∀ i, p + 16 * j ≤ i → i < p + 16 * j + 16 → own id i)
    (hlinked : linked.scn = some le) (hdl : l.secs[linked.dstId]? = some dl)
    (hoff : linked.dstOff.toNat < 2 ^ 31)
    (hsec : sym.type = STT_SECTION → (∃ sec, secs[sym.stShndx]? = some sec ∧ sec.scn ≠ none)
      ∧ linked.dstOff.toNat + rel.rOffset + 8 ≤ dl.rawData.length ∧ dl.rawData.length < 2 ^ 64
      ∧ ∀ i, linked.dstOff.toNat + rel.rOffset ≤ i → i < linked.dstOff.toNat + rel.rOffset + 8 →
        own linked.dstId i) :
    Moves (Overwritten own) Stop.IsCode (appendRelo host obj secs linked rels id p j) l := by
  refine moves_read hrel (moves_read (by rw [hst]; rfl) (moves_read (by rw [hste]; rfl)
    (moves_read hsym (moves_read (by rw [hmap]; rfl) ?_))))
  have hload := loadAt_eq hd.sec hd.inside
  rw [hd.copied] at hload
  have hword : rdU64 host (slice rels (16 * j) 16) = rel.rOffset := by
    simp only [relAt, except_bind_eq_ok, access] at hrel
    obtain ⟨b, hb, hrel⟩ := hrel
    split at hb
    · cases hb
      cases hrel
      rfl
    · cases hb
  refine moves_read (a := ()) (by rw [faultIf_eq_ok]; omega) ?_
  refine moves_of_eq hload ?_
  rw [hword]
  generalize hplace : BitVec.ofNat 64 rel.rOffset + linked.dstOff.signExtend 64 = place
  refine (moves_store hd.sec (by rw [u64Bytes_length]; have := hd.inside; omega)
    fun i hlo hhi => ?_).bind overwritten_composes fun _ l₁ h₁ => ?_
  · rw [u64Bytes_length] at hhi
    exact hown i hlo (by omega)
  obtain ⟨raw₁, hd₁, hlen₁, -⟩ := h₁.secs id d hd.sec
  refine (moves_store hd₁ (by
    rw [u64Bytes_length, hlen₁]
    have := hd.inside
    omega) fun i hlo hhi => ?_).bind overwritten_composes fun _ l₂ h₂ => ?_
  · rw [u64Bytes_length] at hhi
    exact hown i (by omega) (by omega)
  by_cases htype : sym.type = STT_SECTION
  · rw [if_pos htype]
    obtain ⟨⟨sec, hsec, hscn⟩, hin, hbound, hword⟩ := hsec htype
    obtain ⟨rawl, hdl', hlenl, -⟩ := (overwritten_composes.trans h₁ h₂).secs _ dl hdl
    have hexact : place.toNat = linked.dstOff.toNat + rel.rOffset := by
      rw [← hplace, BitVec.toNat_add, toNat_signExtend_of_small hoff, BitVec.toNat_ofNat]
      omega
    refine moves_read (by rw [hsec]; rfl) ?_
    rw [hexact]
    exact moves_addInPlace hlinked hscn hdl' (hlenl.ge.trans' hin) hword
  · rw [if_neg htype]
    exact moves_pure overwritten_composes _ _

end

end Libbpf
