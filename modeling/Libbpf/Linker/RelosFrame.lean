/-
Appending the relocations of an object changes only the object's own bytes, if
they all point into the sections they relocate.

The sections of the object are gone through in order. What is kept is `Ready`:
the output is framed, the object's data lie where they were put, and the
relocations that are still to come fit behind those that are there. A section
of relocations is appended to the output section of its name, and then its
records and the words they refer to are changed (`appendReloSec_ensures`).
-/
import Libbpf.Linker.Frame
import Libbpf.Linker.Loaded
import Mathlib.Data.List.Forall2

namespace Libbpf

open Lib
open List hiding after

variable {d d' x : DstSec} {off : BitVec 32} {name : CStr} {s s' : ElfScn} {i j linkedId k : Nat}
  {own : Nat → Nat → Prop} {swapped : Bool} {lay : Laid} {p : Piece} {t₁ : Linker}
  {linked : SrcSec} {done : List SrcSec}

-- ======== conditions

/-- A byte of the output that a data section of the object was copied to. -/
def OwnAt (secs : List SrcSec) (id i : Nat) : Prop :=
  ∃ s ∈ secs, ∃ e, s.scn = some e ∧ isDataSec s = true ∧ s.dstId = id
    ∧ s.dstOff.toNat ≤ i ∧ i < s.dstOff.toNat + e.shdr.shSize.toNat

/-- The data sections of the object are in the output, where they say. -/
def Placed (obj : SrcObj) (l : Linker) : Prop :=
  ∀ s ∈ obj.secs, isDataSec s = true → ∀ e, s.scn = some e →
    ∃ d ds, l.secs[s.dstId]? = some d ∧ d.scn = some ds ∧ ds.shdr.shType = e.shdr.shType
      ∧ d.rawData.length < 2 ^ 64 ∧ s.dstOff.toNat < 2 ^ 31
      ∧ (e.shdr.shType ≠ SHT_NOBITS → s.dstOff.toNat + e.shdr.shSize.toNat ≤ d.rawData.length)

/-- The alignment and the size of the section of a name. -/
def Linker.laidAt (l : Linker) (name : CStr) : Laid :=
  match (l.sec? name).bind fun d => d.scn.map fun s => (d, s) with
  | some (d, s) => ⟨max 1 s.shdr.shAddralign.toNat, d.secSz.toNat⟩
  | none => Laid.start

/-- The sizes of the relocation sections are what they contain. -/
def RelSized (l : Linker) : Prop :=
  ∀ name d s, l.sec? name = some d → d.scn = some s → s.shdr.shType = SHT_REL →
    Sized (l.laidAt name) d s

/-- The section that a relocation section relocates, if it is not left out. -/
def SrcObj.linkedSec (obj : SrcObj) (src : SrcSec) : Option SrcSec :=
  if isReloSec src then do
    let e ← src.scn
    let linked ← obj.secs[e.shdr.shInfo.toNat]?
    if linked.skipped then none else some linked
  else none

/-- What the relocation sections of a name ask for. -/
def SrcObj.reloBlocks (obj : SrcObj) (name : CStr) (secs : List SrcSec) : List Block :=
  secs.filterMap fun src =>
    if src.secName = name ∧ (obj.linkedSec src).isSome then
      src.scn.map fun e => ⟨e.shdr.shAddralign.toNat, e.shdr.shSize.toNat⟩
    else none

/-- Every relocation against a section symbol refers to a word of the section
that it relocates, and its symbol to a section of the object. -/
def PointsInside (host : ByteOrder) (obj : SrcObj) : Prop :=
  ∀ src ∈ obj.secs, ∀ linked e le st ste, obj.linkedSec src = some linked → src.scn = some e →
    linked.scn = some le → obj.secs[obj.symtabSecIdx]? = some st → st.scn = some ste →
    ∀ j rel sym, j < entryCnt e.shdr → relAt host e.data.dBuf j = .ok rel →
      symAt host ste.data.dBuf rel.sym = .ok sym → sym.type = STT_SECTION →
      le.shdr.shType ≠ SHT_NOBITS ∧ rel.rOffset + 8 ≤ le.shdr.shSize.toNat
        ∧ ∃ sec, obj.secs[sym.stShndx]? = some sec ∧ sec.scn ≠ none

/-- What the sections of an object that are still to come need: output sections
that are no shells and stay below 2^31. -/
structure Room (obj : SrcObj) (l : Linker) (rest : List SrcSec) : Prop where
  small : ∀ name, ((l.laidAt name).all (obj.reloBlocks name rest)).stop < 2 ^ 31
  real : ∀ src ∈ rest, (obj.linkedSec src).isSome → ∀ d, l.sec? src.secName = some d → d.scn ≠ none

-- ======== sections

section

variable {l l' : Linker} {id : Nat}

/-- Only the section in slot `id` may have changed. -/
def Beside (id : Nat) (l l' : Linker) : Prop :=
  ∀ j : Nat, j ≠ id → ∀ d, l.secs[j]? = some d → l'.secs[j]? = some d

/-- All contents are as they were. -/
def Kept (l l' : Linker) : Prop :=
  ∀ (j : Nat) (d : DstSec), l.secs[j]? = some d →
    ∃ d', l'.secs[j]? = some d' ∧ d'.rawData = d.rawData

theorem beside_composes : Composes (Beside id) where
  refl _ _ _ _ hd := hd
  trans h h' j hj d hd := h' j hj d (h j hj d hd)

theorem kept_composes : Composes Kept where
  refl _ _ d hd := ⟨d, hd, rfl⟩
  trans h h' j d hd := by
    obtain ⟨d₁, hd₁, hraw₁⟩ := h j d hd
    obtain ⟨d₂, hd₂, hraw₂⟩ := h' j d₁ hd₁
    exact ⟨d₂, hd₂, hraw₂.trans hraw₁⟩

theorem Kept.framed (h : Kept l l') : Framed own l l' := by
  intro j d hd
  obtain ⟨d', hd', hraw⟩ := h j d hd
  exact ⟨d', hd', by rw [hraw], fun i _ _ => by rw [hraw]⟩

theorem beside_modifySec (f : DstSec → DstSec) : Beside id l (l.modifySec id f) := by
  intro j hj d hd
  simp [Linker.modifySec, Ne.symm hj, hd]

theorem kept_modifySec {f : DstSec → DstSec} (hf : ∀ d, (f d).rawData = d.rawData) :
    Kept l (l.modifySec id f) := by
  intro j d hd
  by_cases hj : id = j
  · subst hj
    exact ⟨f d, by simp [Linker.modifySec, hd], hf d⟩
  · exact ⟨d, by simp [Linker.modifySec, hj, hd], rfl⟩

/-- A string that is refused is refused with a code. -/
theorem moves_linkerAddStr {R : Linker → Linker → Prop} (s : CStr)
    (hR : ∀ strs, R l { l with strtabStrs := strs }) :
    Moves R Stop.IsCode (linkerAddStr s) l := by
  unfold Moves linkerAddStr onPart
  cases h : Strset.addStr s l.strtabStrs with
  | ok off strs => exact hR strs
  | error e strs =>
    refine ⟨?_, hR strs⟩
    obtain ⟨code, rfl⟩ := Strset.addStr_error h
    trivial

theorem kept_of_secs (h : l'.secs = l.secs) : Kept l l' := by
  intro j d hd
  exact ⟨d, by rw [h, hd], rfl⟩

/-- `init_sec` leaves the other sections alone, and all contents. -/
theorem moves_initSec (src : SrcSec) :
    Moves (fun l l' => Beside id l l' ∧ Kept l l') Stop.IsCode (initSec id src) l := by
  have hR : Composes fun l l' : Linker => Beside id l l' ∧ Kept l l' := by
    refine ⟨fun s => ⟨beside_composes.refl s, kept_composes.refl s⟩, fun h h' => ?_⟩
    exact ⟨beside_composes.trans h.1 h'.1, kept_composes.trans h.2 h'.2⟩
  have hmod : ∀ (l : Linker) (f : DstSec → DstSec), (∀ d, (f d).rawData = d.rawData) →
      Beside id l (l.modifySec id f) ∧ Kept l (l.modifySec id f) := fun _ f hf =>
    ⟨beside_modifySec f, kept_modifySec hf⟩
  refine moves_modify_bind hR (hmod _ _ fun _ => rfl) ?_
  cases src.scn with
  | none => exact moves_pure hR _ _
  | some e =>
    refine moves_get (moves_modify_bind hR (hmod _ _ fun _ => rfl) ?_)
    refine (moves_linkerAddStr src.secName fun strs => ?_).bind hR fun off t _ => ?_
    · exact ⟨fun j _ d hd => hd, kept_of_secs rfl⟩
    · exact moves_modify (hmod _ _ fun _ => rfl)

/-- A section that is added is a new one. -/
theorem addDstSec_new (h : addDstSec name l = .ok id l') :
    l.secs[id]? = none ∧ ∀ (j : Nat) d, l.secs[j]? = some d → l'.secs[j]? = some d := by
  obtain ⟨_, _, ⟨⟩, _, _, ⟨⟩, ⟨⟩⟩ := h
  by_cases hnil : l.secs = []
  · simp [hnil]
  simp only [hnil, if_false]
  refine ⟨getElem?_eq_none (Nat.le_refl _), fun j d hd => ?_⟩
  rw [getElem?_append_left (List.getElem?_eq_some_iff.mp hd).1]
  exact hd

/-- Finding the output section changes no contents. -/
theorem moves_reloDstSec (src : SrcSec) : Moves Kept Stop.IsCode (reloDstSec src) l := by
  refine moves_get ?_
  cases hfind : findDstSecByName l src.secName with
  | none =>
    have hadd : Moves Kept Stop.IsCode (addDstSec src.secName) l := by
      unfold Moves
      cases h : addDstSec src.secName l with
      | ok id l' =>
        intro j d hd
        exact ⟨d, (addDstSec_new h).2 j d hd, rfl⟩
      | error e l' => cases h
    refine hadd.bind kept_composes fun id l₁ _ => ?_
    exact ((moves_initSec src).mono (fun _ h => h.2) fun _ h => h).bind kept_composes
      fun _ l₂ _ => moves_pure kept_composes _ _
  | some id =>
    obtain ⟨d, hd, -⟩ := findDstSecByName_some hfind
    refine moves_read (by rw [hd]; rfl) ?_
    unfold failIf
    by_cases hm : ¬ secsMatch d src = true
    · rw [if_pos hm]
      exact ⟨trivial, kept_composes.refl l⟩
    · rw [if_neg hm]
      exact moves_pure kept_composes _ _

theorem laidAt_none (h : l.sec? name = none) : l.laidAt name = Laid.start := by
  unfold Linker.laidAt
  rw [h]
  rfl

theorem laidAt_some (h : l.sec? name = some d) (hs : d.scn = some s) :
    l.laidAt name = ⟨max 1 s.shdr.shAddralign.toNat, d.secSz.toNat⟩ := by
  unfold Linker.laidAt
  rw [h, Option.bind_some, hs]
  rfl

theorem laidAt_align_pos (l : Linker) (name : CStr) : 0 < (l.laidAt name).align := by
  cases h : l.sec? name with
  | none =>
    rw [laidAt_none h]
    decide
  | some d =>
    cases hs : d.scn with
    | none =>
      unfold Linker.laidAt
      rw [h, Option.bind_some, hs]
      exact Nat.one_pos
    | some s =>
      rw [laidAt_some h hs]
      exact Nat.lt_of_lt_of_le Nat.one_pos (Nat.le_max_left ..)

/-- The output section that the relocations are put behind. -/
theorem reloDstSec_ok {src : SrcSec} {e : ElfScn} (hsrc : src.scn = some e)
    (htype : e.shdr.shType = SHT_REL) (hrel : RelSized l)
    (hreal : ∀ d, l.sec? src.secName = some d → d.scn ≠ none) (h : reloDstSec src l = .ok id l') :
    ∃ d s, Changed src.secName id d l l' ∧ Beside id l l'
      ∧ (∀ o, l.secs[id]? = some o → o = d) ∧ d.scn = some s
      ∧ s.shdr.shType = SHT_REL ∧ Sized (l.laidAt src.secName) d s
      ∧ max (max 1 s.shdr.shAddralign.toNat) e.shdr.shAddralign.toNat
        = max (l.laidAt src.secName).align e.shdr.shAddralign.toNat := by
  unfold reloDstSec at h
  rw [run_bind] at h
  dsimp only [run_get] at h
  cases hfind : findDstSecByName l src.secName with
  | none =>
    rw [hfind] at h
    obtain ⟨id', l₁, hadd, h⟩ := bind_eq_ok.mp h
    obtain ⟨_, l₂, hinit, h⟩ := bind_eq_ok.mp h
    cases h
    obtain ⟨hnew, hold⟩ := addDstSec_new hadd
    have hl₁ := addDstSec_ok hfind hadd
    obtain ⟨d, hd, hl₂⟩ := initSec_ok hl₁ hinit
    have hbeside := ((moves_initSec src).of_ok hinit).1
    unfold Initialized at hd
    rw [hsrc] at hd
    obtain ⟨secIdx, nameOff, rfl⟩ := hd
    rw [laidAt_none (sec?_of_find_none hfind)]
    refine ⟨_, _, hl₂, fun j hj d hd => hbeside j hj d (hold j d hd), fun o ho => ?_, rfl, htype,
      (show Layout false [] _ _ from layout_nil _ rfl rfl).toSized, ?_⟩
    · rw [hnew] at ho
      cases ho
    · show max (max 1 e.shdr.shAddralign.toNat) e.shdr.shAddralign.toNat
        = max 1 e.shdr.shAddralign.toNat
      omega
  | some id' =>
    rw [hfind] at h
    simp only [bind_eq_ok, liftRes_eq_ok, deref_eq_ok, failIf_eq_ok, run_pure] at h
    obtain ⟨d, _, ⟨hd, rfl⟩, _, _, ⟨hmatch, rfl⟩, h⟩ := h
    cases h
    have hl := Changed.same hfind hd
    obtain ⟨s, hs⟩ := Option.ne_none_iff_exists'.mp (hreal d hl.sec?)
    simp only [secsMatch, hs, hsrc, not_not, Bool.and_eq_true, beq_iff_eq] at hmatch
    have hstype : s.shdr.shType = SHT_REL := hmatch.1.1.trans htype
    refine ⟨d, s, hl, beside_composes.refl _, fun o ho => ?_, hs, hstype,
      hrel _ d s hl.sec? hs hstype, ?_⟩
    · rw [hd] at ho
      cases ho
      rfl
    · rw [laidAt_some hl.sec? hs]

/-- What `linkReloSec` makes of a header. -/
def ElfScn.linkTo (s : ElfScn) (link info : BitVec 32) : ElfScn :=
  { s with shdr := { s.shdr with shLink := link, shInfo := info } }

/-- The header is changed, the contents stay. -/
theorem linkReloSec_eq (hd : l.secs[id]? = some d)
    (hs : d.scn = some s) (hx : l.secs[linkedId]? = some x) :
    ∃ link info, linkReloSec id linkedId l
      = .ok () (l.modifySec id fun d => { d with scn := some (s.linkTo link info) }) := by
  refine ⟨BitVec.ofNat 32 l.symtabSecIdx, BitVec.ofNat 32 ((x.scn.map (·.secIdx)).getD 0), ?_⟩
  simp only [linkReloSec, run_bind, run_get, hd, hs, hx, deref, liftRes_ok]
  rfl

end

-- ======== appending

/-- The relocations of a section were put to `off` of the output section in
slot `id`, behind what was there. -/
structure PutBehind (src : SrcSec) (e : ElfScn) (id : Nat) (off : BitVec 32) (d : DstSec)
    (l l' : Linker) : Prop where
  changed : Changed src.secName id d l l'
  beside : Beside id l l'
  slot : ∀ o, l.secs[id]? = some o → (∃ s, o.scn = some s ∧ s.shdr.shType = SHT_REL)
    ∧ o.rawData <+: d.rawData ∧ o.rawData.length ≤ off.toNat
  small : off.toNat < 2 ^ 31
  raw : ∃ before, before.length = off.toNat
    ∧ d.rawData = before ++ e.data.dBuf.take e.shdr.shSize.toNat
  scn : ∃ s, d.scn = some s ∧ s.shdr.shType = SHT_REL ∧ Sized (l'.laidAt src.secName) d s
  laid : l'.laidAt src.secName
    = (l.laidAt src.secName).next ⟨e.shdr.shAddralign.toNat, e.shdr.shSize.toNat⟩

section

variable {alloc : Allocator} {host : ByteOrder} {obj : SrcObj} {n : Nat} {l l' t : Linker}
  {id : Nat}

theorem extendSec_eq {src : SrcSec} {e : ElfScn}
    (hd : l.secs[id]? = some d) (hs : d.scn = some s) (hsrc : src.scn = some e)
    (hext : extendScn alloc l.swappedEndian d e = .ok (d', off)) :
    extendSec alloc id src l = .ok { src with dstOff := off } (l.modifySec id fun _ => d') := by
  have hreal : d.ephemeral = false := by rw [DstSec.ephemeral, hs]; rfl
  simp only [extendSec, hsrc, extendRealSec, run_bind, run_get, hd, deref, liftRes_ok, hreal,
    Bool.false_eq_true, if_false, hext]
  rfl

/-- The contents after the relocations were appended. -/
theorem Grown.relo_raw (hl : Sized lay d s) (hs : d.scn = some s) (htype : s.shdr.shType = SHT_REL)
    (h : Grown swapped lay p d d' s s') :
    ∃ before, before.length = p.off.toNat
      ∧ d'.rawData = before ++ p.scn.data.dBuf.take p.scn.shdr.shSize.toNat := by
  have hbits : s.shdr.shType ≠ SHT_NOBITS := by rw [htype]; decide
  have hexec : isExecSec d = false := by
    unfold isExecSec
    rw [hs]
    have hno : (s.shdr.shType == SHT_PROGBITS) = false := by rw [htype]; decide
    simp only [hno, Bool.false_and]
  obtain ⟨k, hk⟩ := hl.pow
  have hle : lay.stop ≤ p.off.toNat :=
    h.off ▸ Laid.stop_le_off (hk ▸ Nat.two_pow_pos k)
  obtain ⟨-, hraw⟩ := h.grows hbits
  rw [appendedBytes, hexec, Bool.and_false] at hraw
  refine ⟨_, ?_, hraw⟩
  rw [length_append, length_replicate, hl.stored hbits]
  omega

theorem Grown.laidAt (h : Grown swapped lay p d d' s s') (hpos : 0 < (lay.next p.block).align)
    (hs' : d'.scn = some s') (hsec : t.sec? name = some d') :
    t.laidAt name = lay.next p.block := by
  rw [laidAt_some hsec hs', h.secSz, h.shAddralign, Nat.max_eq_right hpos]

/-- Appending the relocations to their output section succeeds. -/
theorem extendRelo_ok {src : SrcSec} {e : ElfScn}
    (halloc : ∀ (b : Bytes) (n : Nat), 0 < n → alloc.realloc b n ≠ none)
    (hsrc : src.scn = some e) (htype : e.shdr.shType = SHT_REL)
    (hpow : Block.Pow2 ⟨e.shdr.shAddralign.toNat, e.shdr.shSize.toNat⟩)
    (hbuf : e.data.dBuf.length = e.shdr.shSize.toNat) (hrel : RelSized l)
    (hreal : ∀ d, l.sec? src.secName = some d → d.scn ≠ none) (hsmall : ((l.laidAt src.secName).next
      ⟨e.shdr.shAddralign.toNat, e.shdr.shSize.toNat⟩).stop < 2 ^ 31)
    (hx : l.secs[linkedId]? = some x) (hne : ∀ s, x.scn = some s → s.shdr.shType ≠ SHT_REL)
    (h : reloDstSec src l = .ok id l') :
    ∃ l₂ off d t, linkReloSec id linkedId l' = .ok () l₂
      ∧ extendSec alloc id { src with dstId := id } l₂
        = .ok { src with dstId := id, dstOff := off } t
      ∧ PutBehind src e id off d l t := by
  obtain ⟨d, s, hchanged, hbeside, hslot, hs, hstype, hsized, halign⟩ :=
    reloDstSec_ok hsrc htype hrel hreal h
  have hxid : linkedId ≠ id := by
    rintro rfl
    cases hslot x hx
    exact hne s hs hstype
  obtain ⟨link, info, hlink⟩ := linkReloSec_eq hchanged.sec hs (hbeside linkedId hxid x hx)
  have hlinked := hchanged.modify (f := fun d => { d with scn := some (s.linkTo link info) }) rfl
  have hsized' : Sized (l.laidAt src.secName) { d with scn := some (s.linkTo link info) }
      (s.linkTo link info) := ⟨hsized.small, hsized.pow, hsized.secSz, hsized.stored⟩
  obtain ⟨d', off, hext⟩ : ∃ d' off, extendScn alloc l.swappedEndian
      { d with scn := some (s.linkTo link info) } e = .ok (d', off) :=
    hsized'.extend_exists halign hpow halloc rfl hbuf.ge
      (show ((l.laidAt src.secName).next (Piece.mk e 0).block).stop < 2 ^ 31 from hsmall)
  obtain ⟨s', hs', hgrown⟩ := hsized'.grown halign hpow rfl (hstype.trans htype.symm) hext hsmall
  have hrun : extendSec alloc id { src with dstId := id } _
      = .ok { src with dstId := id, dstOff := off } _ :=
    extendSec_eq hlinked.sec rfl hsrc (by rw [hlinked.order]; exact hext)
  have hchanged' := hlinked.modify (f := fun _ => d') (extendScn_name hext)
  obtain ⟨before, hbefore, hraw⟩ := hgrown.relo_raw hsized' rfl hstype
  obtain ⟨k, hk⟩ := hsized.pow
  obtain ⟨j, hj⟩ := Laid.pow_next hk hpow
  have hoff : (l.laidAt src.secName).stop ≤ off.toNat :=
    hgrown.off ▸ Laid.stop_le_off (hk ▸ Nat.two_pow_pos k)
  have hend : off.toNat + e.shdr.shSize.toNat < 2 ^ 31 := by
    rw [show off.toNat = _ from hgrown.off]
    exact hsmall
  have hbits : s.shdr.shType ≠ SHT_NOBITS := by rw [hstype]; decide
  have hlaid := hgrown.laidAt (hj ▸ Nat.two_pow_pos j) hs' hchanged'.sec?
  refine ⟨_, off, d', _, hlink, hrun, hchanged', ?_, fun o ho => ?_, by omega,
    ⟨before, hbefore, hraw⟩, ⟨s', hs', hgrown.type.trans hstype, ?_⟩, hlaid⟩
  · exact beside_composes.trans (beside_composes.trans hbeside (beside_modifySec _))
      (beside_modifySec _)
  · cases hslot o ho
    refine ⟨⟨s, hs, hstype⟩, hgrown.rawData_grows, ?_⟩
    rw [hsized.stored hbits]
    exact hoff
  · rw [hlaid]
    refine ⟨hsmall, ⟨j, hj⟩, hgrown.secSz, fun _ => ?_⟩
    rw [hraw, length_append, hbefore, length_take]
    show off.toNat + min e.shdr.shSize.toNat e.data.dBuf.length = _
    rw [hbuf, Nat.min_self, show off.toNat = _ from hgrown.off]
    rfl

end

-- ======== turns

/-- What a section is after the loop has come by: a relocation section may have
got a place. -/
def Kin (s s' : SrcSec) : Prop :=
  s' = s ∨ isReloSec s = true ∧ ∃ id off, s' = { s with dstId := id, dstOff := off }

/-- What every turn needs of the output, with `rest` still to come. -/
structure Steady (obj : SrcObj) (l : Linker) (rest : List SrcSec) : Prop where
  placed : Placed obj l
  rel : RelSized l
  room : Room obj l rest

/-- A byte that the call may change: one of the object's data, or one that was
not there in `l`. -/
def Free (l : Linker) (secs : List SrcSec) (id i : Nat) : Prop :=
  OwnAt secs id i ∨ ∀ d, l.secs[id]? = some d → d.rawData.length ≤ i

section

variable {alloc : Allocator} {host : ByteOrder} {obj : SrcObj} {n : Nat} {l l' t t' : Linker}
  {id : Nat} {src : SrcSec} {e : ElfScn} {rest secs : List SrcSec}

theorem kin_refl (s : SrcSec) : Kin s s := .inl rfl

theorem Kin.scn {s s' : SrcSec} (h : Kin s s') : s'.scn = s.scn := by
  rcases h with rfl | ⟨-, _, _, rfl⟩ <;> rfl

theorem Kin.skipped {s s' : SrcSec} (h : Kin s s') : s'.skipped = s.skipped := by
  rcases h with rfl | ⟨-, _, _, rfl⟩ <;> rfl

theorem kin_getElem? {secs secs' : List SrcSec} (h : List.Forall₂ Kin secs secs')
    {s : SrcSec} (hs : secs[i]? = some s) : ∃ s', secs'[i]? = some s' ∧ Kin s s' := by
  induction h generalizing i with
  | nil => cases hs
  | @cons a b as bs hab _ ih =>
    cases i with
    | zero =>
      cases hs
      exact ⟨b, rfl, hab⟩
    | succ i => exact ih hs

theorem Framed.free_iff : Framed (Free l secs) l t ↔ Framed (OwnAt secs) l t := by
  refine ⟨fun h id d hd => ?_, fun h => h.mono fun _ _ => .inl⟩
  obtain ⟨d', hd', hlen, hsame⟩ := h id d hd
  refine ⟨d', hd', hlen, fun i hi hno => hsame i hi ?_⟩
  rintro (hown | hnew)
  · exact hno hown
  · have := hnew d hd
    omega

-- a patch changes contents only, and nothing of this is about contents
theorem Overwritten.laidAt (h : Overwritten own t t') (name : CStr) :
    t'.laidAt name = t.laidAt name := by
  unfold Linker.laidAt
  rcases h.sec? name with ⟨hn, hn'⟩ | ⟨d, raw, hd, hd', -⟩
  · rw [hn, hn']
  · simp only [hd, hd', Option.bind_some]
    cases d.scn <;> rfl

theorem Overwritten.steady (h : Overwritten own t t') (ht : Steady obj t rest) :
    Steady obj t' rest := by
  refine ⟨fun s hs hdata e he => ?_, fun name d s hd hs htype => ?_, fun name => ?_, ?_⟩
  · obtain ⟨d, ds, hd, hds, htype, hlen, hoff, hin⟩ := ht.placed s hs hdata e he
    obtain ⟨raw, hd', hraw, -⟩ := h.secs _ d hd
    exact ⟨_, ds, hd', hds, htype, hraw ▸ hlen, hoff, fun hb => hraw ▸ hin hb⟩
  · rw [h.laidAt]
    rcases h.sec? name with ⟨-, hn⟩ | ⟨d₀, raw, hd₀, hd', hraw⟩
    · rw [hn] at hd
      cases hd
    rw [hd'] at hd
    cases hd
    have hsized := ht.rel name d₀ s hd₀ hs htype
    exact ⟨hsized.small, hsized.pow, hsized.secSz, fun hb => hraw.trans (hsized.stored hb)⟩
  · rw [h.laidAt]
    exact ht.room.small name
  · intro src hsrc hlinked d hd
    rcases h.sec? src.secName with ⟨-, hn⟩ | ⟨d₀, raw, hd₀, hd', -⟩
    · rw [hn] at hd
      cases hd
    · rw [hd'] at hd
      cases hd
      exact ht.room.real src hsrc hlinked d₀ hd₀

theorem PutBehind.laidAt_ne (h : PutBehind src e id off d t t')
    (hne : name ≠ src.secName) : t'.laidAt name = t.laidAt name := by
  unfold Linker.laidAt
  rw [h.changed.others name hne]

/-- No data section has the slot of relocations. -/
theorem Placed.slot_ne {s : SrcSec} {o : DstSec} {os : ElfScn} (h : Placed obj t)
    (hs : s ∈ obj.secs) (hdata : isDataSec s = true) (he : s.scn = some e)
    (ho : t.secs[id]? = some o) (hos : o.scn = some os) (htype : os.shdr.shType = SHT_REL) :
    s.dstId ≠ id := by
  rintro rfl
  obtain ⟨d, ds, hd, hds, hdtype, -⟩ := h s hs hdata e he
  rw [ho] at hd
  cases hd
  rw [hos] at hds
  cases hds
  rw [htype] at hdtype
  simp only [isDataSec, he, Bool.and_eq_true] at hdata
  rw [← hdtype] at hdata
  rcases hdata.2 with hc | hc <;> exact absurd hc (by decide)

theorem reloBlocks_cons (name : CStr) (rest : List SrcSec) (hsrc : src.scn = some e)
    (hlinked : (obj.linkedSec src).isSome) :
    obj.reloBlocks name (src :: rest) = if src.secName = name then
          ⟨e.shdr.shAddralign.toNat, e.shdr.shSize.toNat⟩ :: obj.reloBlocks name rest
        else obj.reloBlocks name rest := by
  unfold SrcObj.reloBlocks
  by_cases hn : src.secName = name
  · rw [if_pos hn, filterMap_cons_some]
    rw [if_pos ⟨hn, hlinked⟩, hsrc]
    rfl
  · rw [if_neg hn, filterMap_cons_none]
    rw [if_neg fun hc => hn hc.1]

/-- What is needed after relocations were appended. -/
theorem PutBehind.steady (h : PutBehind src e id off d t t')
    (ht : Steady obj t (src :: rest)) (hsrc : src.scn = some e)
    (hlinked : (obj.linkedSec src).isSome) : Steady obj t' rest := by
  obtain ⟨s', hs', htype', hsized⟩ := h.scn
  refine ⟨fun s hs hdata x hx => ?_, fun name o s ho hs htype => ?_, fun name => ?_, ?_⟩
  · obtain ⟨o, os, ho, rest⟩ := ht.placed s hs hdata x hx
    refine ⟨o, os, h.beside _ ?_ o ho, rest⟩
    intro hid
    rw [hid] at ho
    obtain ⟨⟨os', hos', hrel⟩, -⟩ := h.slot o ho
    exact ht.placed.slot_ne hs hdata hx ho hos' hrel hid
  · by_cases hn : name = src.secName
    · subst hn
      rw [h.changed.sec?] at ho
      cases ho
      rw [hs'] at hs
      cases hs
      exact hsized
    · rw [h.laidAt_ne hn]
      rw [h.changed.others name hn] at ho
      exact ht.rel name o s ho hs htype
  · have hsmall := ht.room.small name
    rw [reloBlocks_cons name rest hsrc hlinked] at hsmall
    by_cases hn : src.secName = name
    · subst hn
      rw [if_pos rfl] at hsmall
      rw [h.laid]
      exact hsmall
    · rw [if_neg hn] at hsmall
      rw [h.laidAt_ne (Ne.symm hn)]
      exact hsmall
  · intro src' hmem hl' o ho
    by_cases hn : src'.secName = src.secName
    · rw [hn, h.changed.sec?] at ho
      cases ho
      rw [hs']
      exact Option.some_ne_none _
    · rw [h.changed.others _ hn] at ho
      exact ht.room.real src' (mem_cons_of_mem _ hmem) hl' o ho

theorem PutBehind.framed (h : PutBehind src e id off d t t') : Framed own t t' := by
  intro j o ho
  by_cases hj : j = id
  · subst hj
    obtain ⟨-, ⟨r, hr⟩, -⟩ := h.slot o ho
    refine ⟨d, h.changed.sec, by simp [← hr], fun i hi _ => ?_⟩
    rw [← hr, getElem?_append_left hi]
  · exact ⟨o, h.beside j hj o ho, Nat.le_refl _, fun _ _ _ => rfl⟩

/-- What the first `k` relocations of a section may change: their records, in
slot `id` from `p` on, and the object's data. -/
def UpTo (secs : List SrcSec) (id p k j i : Nat) : Prop :=
  OwnAt secs j i ∨ j = id ∧ p ≤ i ∧ i < p + 16 * k

theorem UpTo.mono {p k' : Nat} (hk : k ≤ k') (h : UpTo secs id p k j i) :
    UpTo secs id p k' j i := by
  rcases h with hown | ⟨rfl, hlo, hhi⟩
  · exact .inl hown
  · exact .inr ⟨rfl, hlo, by omega⟩

/-- A record that no relocation has come to is as it was copied. -/
theorem atRecord (h : PutBehind src e id off d t t₁) (hplaced : Placed obj t₁)
    (hbuf : e.data.dBuf.length = e.shdr.shSize.toNat) (hj : 16 * j + 16 ≤ e.shdr.shSize.toNat)
    (hover : Overwritten (UpTo obj.secs id off.toNat j) t₁ t') :
    ∃ d', AtRecord host e.data.dBuf t' id off.toNat j d' := by
  obtain ⟨before, hbefore, hraw⟩ := h.raw
  rw [← hbuf, take_length] at hraw
  obtain ⟨raw, hd', hlen, hsame⟩ := hover.secs id d h.changed.sec
  have hdlen : d.rawData.length = off.toNat + e.shdr.shSize.toNat := by
    rw [hraw, length_append, hbefore, hbuf]
  refine ⟨_, hd', by show _ ≤ raw.length; omega, ?_⟩
  have hold : slice raw (off.toNat + 16 * j) 16 = slice d.rawData (off.toNat + 16 * j) 16 := by
    refine slice_congr fun i hlo hhi => hsame i (by omega) ?_
    rintro (⟨s, hs, x, hx, hdata, hid, -⟩ | ⟨-, -, hlt⟩)
    · obtain ⟨os, hos, htype, -⟩ := h.scn
      exact hplaced.slot_ne hs hdata hx h.changed.sec hos htype hid
    · omega
  rw [hold, hraw, slice_append_right _ (by omega), hbefore, Nat.add_sub_cancel_left]

theorem linkedSec_eq_some (hsrc : src.scn = some e) (hrelo : isReloSec src = true) :
    obj.linkedSec src = some linked
      ↔ obj.secs[e.shdr.shInfo.toNat]? = some linked ∧ linked.skipped = false := by
  unfold SrcObj.linkedSec
  rw [if_pos hrelo, hsrc]
  cases h : obj.secs[e.shdr.shInfo.toNat]? with
  | none => simp [h]
  | some x =>
    cases hx : x.skipped with
    | true =>
      simp only [bind, Option.bind, h, hx, if_true]
      refine ⟨fun hc => (by cases hc), ?_⟩
      rintro ⟨⟨⟩, hc⟩
      rw [hx] at hc
      cases hc
    | false =>
      simp only [bind, Option.bind, h, hx, Bool.false_eq_true, if_false]
      refine ⟨fun hc => ⟨hc, ?_⟩, fun hc => hc.1⟩
      cases hc
      exact hx

/-- The relocations of a section change their records and the words they refer
to. -/
theorem appendRelos_ensures (hobj : Loaded host n obj) (hinside : PointsInside host obj)
    (hkin : List.Forall₂ Kin obj.secs secs) (hi : obj.secs[i]? = some src)
    (hsrc : src.scn = some e) (hrelo : isReloSec src = true)
    (hlinked : obj.linkedSec src = some linked) (hput : PutBehind src e id off d t t₁)
    (hplaced : Placed obj t₁) :
    Ensures (each (appendRelo host obj secs linked e.data.dBuf id off.toInt)
        (List.range (entryCnt e.shdr))) t₁
      (fun _ t' => Overwritten (UpTo obj.secs id off.toNat (entryCnt e.shdr)) t₁ t')
      fun err t' => err.IsCode
        ∧ Overwritten (UpTo obj.secs id off.toNat (entryCnt e.shdr)) t₁ t' := by
  obtain ⟨-, -, hbuf, link, hlink, hrels⟩ := hobj.relo hi hsrc hrelo
  obtain ⟨hlinkAt, hskip⟩ := (linkedSec_eq_some hsrc hrelo).mp hlinked
  rw [hlink] at hlinkAt
  cases hlinkAt
  obtain ⟨le, hle, hltype, hrels⟩ := hrels hskip
  have hmem : linked ∈ obj.secs := mem_of_getElem? hlink
  have hdata : isDataSec linked = true := by
    simp only [isDataSec, hskip, hle, Bool.not_false, Bool.true_and, Bool.or_eq_true, beq_iff_eq]
    exact hltype
  obtain ⟨dl, ds, hdl, hds, -, hlong, hoff, hfits⟩ := hplaced linked hmem hdata le hle
  rw [toInt_of_small hput.small]
  have hloop : Ensures (each (appendRelo host obj secs linked e.data.dBuf id off.toNat)
      (List.range (entryCnt e.shdr))) t₁
      (fun _ t' => Overwritten (UpTo obj.secs id off.toNat (List.range (entryCnt e.shdr)).length) t₁ t')
      fun err t' => err.IsCode
        ∧ Overwritten (UpTo obj.secs id off.toNat (entryCnt e.shdr)) t₁ t' := by
    refine ensures_each (fun pre t' => Overwritten (UpTo obj.secs id off.toNat pre.length) t₁ t')
      (overwritten_composes.refl t₁) fun pre j post t' hsplit hpre => ?_
    obtain ⟨rfl, hj⟩ : j = pre.length ∧ pre.length < entryCnt e.shdr := by
      have hat := congrArg (·[pre.length]?) hsplit
      simp only [getElem?_append_right (Nat.le_refl _), Nat.sub_self, getElem?_cons_zero] at hat
      obtain ⟨hlt, hval⟩ := List.getElem?_eq_some_iff.mp hat
      rw [getElem_range] at hval
      exact ⟨hval.symm, by simpa using hlt⟩
    obtain ⟨rel, st, ste, sym, m, hrel, hst, hste, hsym, hm⟩ := hrels pre.length hj
    obtain ⟨st', hst', hkst⟩ := kin_getElem? hkin hst
    have hread : 16 * pre.length + 16 ≤ e.shdr.shSize.toNat := by
      simp only [relAt, except_bind_eq_ok, access] at hrel
      obtain ⟨b, hb, -⟩ := hrel
      by_contra hlt
      rw [if_neg (by omega)] at hb
      cases hb
    obtain ⟨d', hrec⟩ : ∃ d', AtRecord host e.data.dBuf t' id off.toNat pre.length d' :=
      atRecord hput hplaced hbuf hread hpre
    obtain ⟨rawl, hdl', hlenl, -⟩ := hpre.secs _ dl hdl
    have hturn : Moves (Overwritten (UpTo obj.secs id off.toNat (pre.length + 1))) Stop.IsCode
        (appendRelo host obj secs linked e.data.dBuf id off.toNat pre.length) t' := by
      refine moves_appendRelo hrel hst' (hkst.scn.trans hste) hsym hm hrec
        (fun x hlo hhi => .inr ⟨rfl, by omega, by omega⟩) hle hdl' hoff fun hsec => ?_
      obtain ⟨hbits, hin, sec, hsecAt, hscn⟩ := hinside src (mem_of_getElem? hi) linked e le st
        ste hlinked hsrc hle hst hste pre.length rel sym hj hrel hsym hsec
      obtain ⟨sec', hsecAt', hksec⟩ := kin_getElem? hkin hsecAt
      have hfit := hfits hbits
      refine ⟨⟨sec', hsecAt', hksec.scn ▸ hscn⟩, ?_, ?_, fun x hlo hhi => .inl ?_⟩
      · show _ ≤ rawl.length
        omega
      · show rawl.length < _
        omega
      · exact ⟨linked, hmem, le, hle, hdata, rfl, by omega, by omega⟩
    have hdone : ∀ k, pre.length ≤ k → Overwritten (UpTo obj.secs id off.toNat k) t₁ t' :=
      fun k hk => hpre.mono fun _ _ => UpTo.mono hk
    unfold Ensures
    cases hrun : appendRelo host obj secs linked e.data.dBuf id off.toNat pre.length t' with
    | ok _ t₂ =>
      show Overwritten (UpTo obj.secs id off.toNat (pre ++ [pre.length]).length) t₁ t₂
      rw [length_append]
      exact overwritten_composes.trans (hdone _ (Nat.le_succ _)) (hturn.of_ok hrun)
    | error err t₂ =>
      obtain ⟨hcode, hover⟩ := hturn.of_error hrun
      exact ⟨hcode, overwritten_composes.trans (hdone _ hj.le) (hover.mono fun _ _ => UpTo.mono hj)⟩
  rwa [length_range] at hloop

/-- A section that is passed over asks for nothing. -/
theorem Steady.skip (h : Steady obj t (src :: rest)) (hno : obj.linkedSec src = none) :
    Steady obj t rest := by
  refine ⟨h.placed, h.rel, fun name => ?_, fun s hs => h.room.real s (mem_cons_of_mem _ hs)⟩
  have hsmall := h.room.small name
  have hcons : obj.reloBlocks name (src :: rest) = obj.reloBlocks name rest := by
    unfold SrcObj.reloBlocks
    rw [filterMap_cons_none]
    rw [hno, if_neg (by simp)]
  rwa [hcons] at hsmall

/-- Records behind what was there are free to change. -/
theorem PutBehind.free (h : PutBehind src e id off d t t') (hframed : Framed (Free l obj.secs) l t)
    (hi : UpTo obj.secs id off.toNat k j i) : Free l obj.secs j i := by
  rcases hi with hown | ⟨rfl, hlo, -⟩
  · exact .inl hown
  refine .inr fun o ho => ?_
  obtain ⟨o', ho', hlen, -⟩ := hframed j o ho
  have := (h.slot o' ho').2.2
  omega

/-- A turn of the loop over the sections. -/
theorem appendReloSec_ensures (hobj : Loaded host n obj) (hinside : PointsInside host obj)
    (halloc : ∀ (b : Bytes) (n : Nat), 0 < n → alloc.realloc b n ≠ none)
    (hkin : ∀ src', Kin src src' → List.Forall₂ Kin obj.secs (done ++ src' :: rest))
    (hi : obj.secs[i]? = some src) (hframed : Framed (Free l obj.secs) l t)
    (hsteady : Steady obj t (src :: rest)) :
    Ensures (appendReloSec alloc host obj done src rest) t
      (fun src' t' => Kin src src' ∧ Framed (Free l obj.secs) l t' ∧ Steady obj t' rest)
      fun err t' => err.IsCode ∧ Framed (Free l obj.secs) l t' := by
  unfold appendReloSec
  by_cases hrelo : isReloSec src = true
  · rw [if_neg (by simp [hrelo])]
    obtain ⟨e, hsrc⟩ : ∃ e, src.scn = some e := by
      cases h : src.scn with
      | none => simp [isReloSec, h] at hrelo
      | some e => exact ⟨e, rfl⟩
    obtain ⟨htype, hent, hbuf, link, hlink, hrels⟩ := hobj.relo hi hsrc hrelo
    obtain ⟨link', hlink', hkl⟩ := kin_getElem? (hkin src (kin_refl src)) hlink
    refine ensures_of_eq (by rw [hsrc]; rfl) (ensures_of_eq (by rw [hlink']; rfl) ?_)
    by_cases hskip : link.skipped = true
    · rw [if_pos (hkl.skipped.trans hskip)]
      refine ensures_pure ⟨kin_refl src, hframed, hsteady.skip ?_⟩
      simp [SrcObj.linkedSec, hrelo, hsrc, hlink, hskip]
    rw [if_neg (by rw [hkl.skipped]; exact hskip)]
    have hskip : link.skipped = false := by simpa using hskip
    have hlinked := (linkedSec_eq_some hsrc hrelo).mpr ⟨hlink, hskip⟩
    obtain ⟨le, hle, hltype, -⟩ := hrels hskip
    have hmem : link ∈ obj.secs := mem_of_getElem? hlink
    have hdata : isDataSec link = true := by
      simp only [isDataSec, hskip, hle, Bool.not_false, Bool.true_and, Bool.or_eq_true, beq_iff_eq]
      exact hltype
    -- a data section gets no place here
    have hsame : link' = link := by
      rcases hkl with h | ⟨h, -⟩
      · exact h
      · simp only [isReloSec, hle, Bool.and_eq_true, beq_iff_eq] at h
        rw [h.2] at hltype
        rcases hltype with hc | hc <;> exact absurd hc (by decide)
    subst hsame
    obtain ⟨x, xs, hx, hxs, hxtype, -⟩ := hsteady.placed link' hmem hdata le hle
    cases hrun : reloDstSec src t with
    | error err t₁ =>
      obtain ⟨hcode, hkept⟩ := (moves_reloDstSec src).of_error hrun
      unfold Ensures
      rw [run_bind, hrun]
      exact ⟨hcode, framed_composes.trans hframed hkept.framed⟩
    | ok id t₁ =>
      refine ensures_of_eq hrun ?_
      have hsmall := hsteady.room.small src.secName
      rw [reloBlocks_cons _ rest hsrc (by rw [hlinked]; rfl), if_pos rfl] at hsmall
      obtain ⟨t₂, off, d, t₃, hlinkRun, hext, hput⟩ := extendRelo_ok halloc hsrc htype
        (hobj.pow2 hi hsrc (by
          simp only [isReloSec, hsrc, Bool.and_eq_true, Bool.not_eq_true'] at hrelo
          exact hrelo.1)) hbuf hsteady.rel
        (hsteady.room.real src mem_cons_self (by rw [hlinked]; rfl))
        (Nat.lt_of_le_of_lt (Laid.stop_le_all (Laid.align_pos (laidAt_align_pos t _)) _) hsmall)
        hx (fun s hs => by
          rw [hxs] at hs
          cases hs
          rw [hxtype]
          rcases hltype with h | h <;> rw [h] <;> decide) hrun
      refine ensures_of_eq hlinkRun (ensures_of_eq hext (ensures_of_eq (a := ()) (t := t₃) (by
        rw [hent, if_neg (by decide)]
        rfl) ?_))
      have hsteady' := hput.steady hsteady hsrc (by rw [hlinked]; rfl)
      have hframed' := framed_composes.trans hframed hput.framed
      have hkin' : Kin src { src with dstId := id, dstOff := off } := .inr ⟨hrelo, id, off, rfl⟩
      have hover : ∀ t', Overwritten (UpTo obj.secs id off.toNat (entryCnt e.shdr)) t₃ t' →
          Framed (Free l obj.secs) l t' := fun t' h =>
        framed_composes.trans hframed' (h.framed.mono fun _ _ => hput.free hframed)
      refine ((appendRelos_ensures hobj hinside (hkin _ hkin') hi hsrc hrelo hlinked hput
        hsteady'.placed).imp (fun _ t' h => ?_) fun _ t' h => ⟨h.1, hover t' h.2⟩).bind
          fun _ t' h => ensures_pure h
      exact ⟨hkin', hover t' h, h.steady hsteady'⟩
  · rw [if_pos (by simp [hrelo])]
    refine ensures_pure ⟨kin_refl src, hframed, hsteady.skip ?_⟩
    simp [SrcObj.linkedSec, hrelo]

theorem appendReloSecs_ensures {orig : List SrcSec} (hobj : Loaded host n obj)
    (hinside : PointsInside host obj)
    (halloc : ∀ (b : Bytes) (n : Nat), 0 < n → alloc.realloc b n ≠ none)
    (hsecs : obj.secs = orig ++ rest) (hdone : List.Forall₂ Kin orig done)
    (hframed : Framed (Free l obj.secs) l t) (hsteady : Steady obj t rest) :
    Ensures (appendReloSecs alloc host obj done rest) t (fun _ t' => Framed (Free l obj.secs) l t')
      fun err t' => err.IsCode ∧ Framed (Free l obj.secs) l t' := by
  induction rest generalizing orig done t with
  | nil => exact ensures_pure hframed
  | cons src rest ih =>
    have hrest : List.Forall₂ Kin rest rest := List.forall₂_same.mpr fun s _ => kin_refl s
    have hkin : ∀ src', Kin src src' → List.Forall₂ Kin obj.secs (done ++ src' :: rest) := by
      intro src' h
      rw [hsecs]
      exact rel_append hdone (.cons h hrest)
    have hi : obj.secs[orig.length]? = some src := by
      rw [hsecs, getElem?_append_right (Nat.le_refl _), Nat.sub_self]
      rfl
    refine (appendReloSec_ensures hobj hinside halloc hkin hi hframed hsteady).bind
      fun src' t' h => ?_
    have hsecs' : obj.secs = (orig ++ [src]) ++ rest := by
      rw [hsecs, append_assoc]
      rfl
    exact ih hsecs' (rel_append hdone (.cons h.1 .nil)) h.2.1 h.2.2

end

-- ======== whole

/-- ".c". -/
private def secC : CStr := ⟨[46, 99], by decide⟩

/-- ".rel.c". -/
private def relC : CStr := ⟨[46, 114, 101, 108, 46, 99], by decide⟩

/-- A section of one call instruction. -/
private def callC (imm : UInt8) : SrcSec :=
  { secName := secC
    scn := some
      { secIdx := 1
        shdr := { shType := SHT_PROGBITS, shFlags := 6, shSize := 8, shAddralign := 8 }
        data := { dBuf := [133, 16, 0, 0, imm, 0, 0, 0], dSize := 8, dAlign := 8 } } }

/-- The output after the data of two objects with a call each. -/
private def twoCalls : Linker :=
  after (collect (appendSec .zeroing) [callC 5, callC 6] (after bpfLinkerNew))

/-- The second object: the call, the symbol of its section, and a relocation
at `place` against it. -/
private def callObj (place : Nat) : SrcObj where
  secs :=
    [{ secName := .empty, scn := none }, { callC 6 with dstId := 3, dstOff := 8 },
      { secName := ⟨[115], by decide⟩, skipped := true
        scn := some { secIdx := 2, shdr := { shType := SHT_STRTAB } } },
      { secName := ⟨[116], by decide⟩
        scn := some
          { secIdx := 3
            shdr := { shType := SHT_SYMTAB, shSize := 48, shLink := 2, shEntsize := 24 }
            data :=
              { dBuf := List.replicate 24 0 ++ [0, 0, 0, 0, 3, 0, 1, 0] ++ List.replicate 16 0
                dSize := 48 } } },
      { secName := relC
        scn := some
          { secIdx := 4
            shdr := { shType := SHT_REL, shSize := 16, shLink := 3, shInfo := 1, shEntsize := 16 }
            data := { dBuf := u64Bytes .little place ++ u64Bytes .little (2 ^ 32 + 10)
                      dSize := 16 } } }]
  symtabSecIdx := 3
  shstrsSecIdx := 2
  symMap := [0, 1, 0]

private theorem callObj_loaded : Loaded .little 5 (callObj 0) where
  sane := by decide +kernel
  unused s hs := by
    cases hs
    rfl
  ephemeral i s hi hs := by
    rw [getElem?_eq_none hi] at hs
    cases hs
  ignored s hs e he hign := by
    have h : ∀ s ∈ (callObj 0).secs, ∀ e ∈ s.scn, isIgnoredSec s.secName e.shdr = true →
        s.skipped = true := by decide +kernel
    exact h s hs e he hign
  buffers s hs e he hbits := by
    have h : ∀ s ∈ (callObj 0).secs, ∀ e ∈ s.scn, e.shdr.shType ≠ SHT_NOBITS →
        e.data.dBuf.length = e.data.dSize.toNat := by decide +kernel
    exact h s hs e he hbits
  symtab := ⟨_, _, rfl, rfl, rfl, rfl, by decide⟩

private theorem callObj_placed : Placed (callObj 0) twoCalls := by
  intro s hs hdata e he
  have h : ∀ s ∈ (callObj 0).secs, isDataSec s = true → ∀ e ∈ s.scn,
      (twoCalls.secs[s.dstId]?.bind fun d => d.scn.map fun ds =>
        decide (ds.shdr.shType = e.shdr.shType ∧ d.rawData.length < 2 ^ 64
          ∧ s.dstOff.toNat < 2 ^ 31 ∧ s.dstOff.toNat + e.shdr.shSize.toNat ≤ d.rawData.length))
      = some true := by decide +kernel
  obtain ⟨d, hd, hrest⟩ := Option.bind_eq_some_iff.mp (h s hs hdata e he)
  obtain ⟨ds, hds, hrest⟩ := Option.map_eq_some_iff.mp hrest
  obtain ⟨htype, hlen, hoff, hin⟩ := of_decide_eq_true hrest
  exact ⟨d, ds, hd, hds, htype, hlen, hoff, fun _ => hin⟩

private theorem mem_of_sec? {l : Linker} (h : l.sec? name = some d) : d ∈ l.secs := by
  obtain ⟨id, -, hd⟩ := Option.bind_eq_some_iff.mp h
  exact mem_of_getElem? hd

private theorem twoCalls_relSized : RelSized twoCalls := by
  intro name d s hd hs htype
  have h : ∀ d ∈ twoCalls.secs, ∀ s ∈ d.scn, s.shdr.shType ≠ SHT_REL := by decide +kernel
  exact absurd htype (h d (mem_of_sec? hd) s hs)

private theorem callObj_room : Room (callObj 0) twoCalls ((callObj 0).secs.drop 1) := by
  have hname : ∀ src ∈ (callObj 0).secs.drop 1, ((callObj 0).linkedSec src).isSome →
      src.secName = relC := by decide +kernel
  refine ⟨fun name => ?_, fun src hsrc hlinked d hd => ?_⟩
  · by_cases hn : relC = name
    · subst hn
      decide +kernel
    have hnil : (callObj 0).reloBlocks name ((callObj 0).secs.drop 1) = [] := by
      refine filterMap_eq_nil_iff.mpr fun src hsrc => if_neg ?_
      rintro ⟨rfl, hlinked⟩
      exact hn (hname src hsrc hlinked).symm
    have hsmall : ∀ d ∈ twoCalls.secs, d.secSz.toNat < 2 ^ 31 := by decide +kernel
    rw [hnil]
    unfold Linker.laidAt
    cases h : twoCalls.sec? name with
    | none => decide
    | some d =>
      cases hs : d.scn with
      | none =>
        rw [Option.bind_some, hs]
        exact Nat.two_pow_pos 31
      | some s =>
        rw [Option.bind_some, hs]
        exact hsmall d (mem_of_sec? h)
  · have hnone : twoCalls.sec? relC = none := by decide +kernel
    rw [hname src hsrc hlinked] at hd
    cases hd

private theorem callObj_inside : PointsInside .little (callObj 0) := by
  intro src hsrc linked e le st ste hlinked he hle hst hste j rel sym hj hrel hsym _
  have hsole : ∀ src ∈ (callObj 0).secs, ((callObj 0).linkedSec src).isSome →
      some src = (callObj 0).secs[4]? := by decide +kernel
  have hlast := hsole src hsrc (by rw [hlinked]; rfl)
  cases hlast
  cases he
  cases hlinked
  cases hle
  cases hst
  cases hste
  obtain rfl : j = 0 := Nat.lt_one_iff.mp (Nat.lt_of_lt_of_le hj (by decide +kernel))
  cases hrel
  cases hsym
  exact ⟨by decide, by decide, _, rfl, Option.some_ne_none _⟩

end Libbpf
