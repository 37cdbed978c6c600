/-
What appending an input section does to the output sections.

Sections are found by name, so what matters about the linker is the section
that each name leads to (`Linker.sec?`). Appending a section of one name leaves
the sections of the others alone; the section of that name is the one that was
there, or, if there was none or only a shell, one made in the likeness of the
input (`Begun`), with the input behind it (`appendSec_ok`).
-/
import Libbpf.Linker.Section

namespace Libbpf

open Lib
open List hiding modify

variable {src src' : SrcSec} {alloc : Allocator} {e : ElfScn} {l₀ : Linker}

/-- The output section of a name. -/
def Linker.sec? (l : Linker) (name : CStr) : Option DstSec :=
  (findDstSecByName l name).bind (l.secs[·]?)

-- ======== by name

section

variable {l : Linker} {name m : CStr} {id : Nat} {f : DstSec → DstSec}

theorem findDstSecByName_eq (l : Linker) (name : CStr) : findDstSecByName l name
      = (((l.secs.map (·.secName)).drop 1).findIdx? (· == name)).map (· + 1) := by
  rw [← map_drop, findIdx?_map]
  rfl

theorem findDstSecByName_some (h : findDstSecByName l name = some id) :
    ∃ d, l.secs[id]? = some d ∧ d.secName = name := by
  obtain ⟨i, hi, rfl⟩ := Option.map_eq_some_iff.mp h
  obtain ⟨hlt, hname, -⟩ := findIdx?_eq_some_iff_getElem.mp hi
  refine ⟨(l.secs.drop 1)[i], ?_, eq_of_beq hname⟩
  rw [← getElem?_eq_getElem hlt, getElem?_drop, Nat.add_comm]

theorem sec?_of_find {d : DstSec} (h : findDstSecByName l name = some id)
    (hd : l.secs[id]? = some d) : l.sec? name = some d := by
  rw [Linker.sec?, h]
  exact hd

theorem sec?_of_find_none (h : findDstSecByName l name = none) : l.sec? name = none := by
  rw [Linker.sec?, h]
  rfl

/-- Names stay where they are. -/
theorem findDstSecByName_modifySec (hf : ∀ d, l.secs[id]? = some d → (f d).secName = d.secName) :
    findDstSecByName (l.modifySec id f) name = findDstSecByName l name := by
  rw [findDstSecByName_eq, findDstSecByName_eq]
  congr 3
  refine ext_getElem? fun j => ?_
  simp only [Linker.modifySec, getElem?_map, getElem?_modify]
  cases hd : l.secs[j]? with
  | none => rfl
  | some d =>
    by_cases hj : id = j
    · subst hj
      simp [hf d hd]
    · simp [hj]

theorem sec?_modifySec_ne (hf : ∀ d, l.secs[id]? = some d → (f d).secName = d.secName)
    (h : findDstSecByName l name = some id) (hne : m ≠ name) :
    (l.modifySec id f).sec? m = l.sec? m := by
  rw [Linker.sec?, Linker.sec?, findDstSecByName_modifySec hf]
  cases hm : findDstSecByName l m with
  | none => rfl
  | some j =>
    have hj : id ≠ j := by
      rintro rfl
      obtain ⟨d, hd, hn⟩ := findDstSecByName_some h
      obtain ⟨d', hd', hn'⟩ := findDstSecByName_some hm
      rw [hd] at hd'
      cases hd'
      exact hne (hn'.symm.trans hn)
    simp [Linker.modifySec, hj]

end

-- ======== changes

/-- The linker after a change to the section of one name: the others and the
byte order are as they were. -/
structure Changed (name : CStr) (id : Nat) (d : DstSec) (l l' : Linker) : Prop where
  find : findDstSecByName l' name = some id
  sec : l'.secs[id]? = some d
  others : ∀ m, m ≠ name → l'.sec? m = l.sec? m
  order : l'.swappedEndian = l.swappedEndian

namespace Changed

variable {name : CStr} {id : Nat} {d : DstSec} {l l' l'' : Linker}

theorem sec? (h : Changed name id d l l') : l'.sec? name = some d := sec?_of_find h.find h.sec

theorem same (hfind : findDstSecByName l name = some id) (hd : l.secs[id]? = some d) :
    Changed name id d l l := ⟨hfind, hd, fun _ _ => rfl, rfl⟩

/-- A further change to the section. -/
theorem modify (h : Changed name id d l l') {f : DstSec → DstSec}
    (hf : (f d).secName = d.secName) : Changed name id (f d) l (l'.modifySec id f) := by
  have hf' : ∀ x, l'.secs[id]? = some x → (f x).secName = x.secName := by
    intro x hx
    rw [h.sec] at hx
    cases hx
    exact hf
  refine ⟨(findDstSecByName_modifySec hf').trans h.find, ?_, fun m hm => ?_, h.order⟩
  · simp [Linker.modifySec, h.sec]
  · exact (sec?_modifySec_ne hf' h.find hm).trans (h.others m hm)

/-- A change of what is not a section. -/
theorem congr (h : Changed name id d l l') (hsecs : l''.secs = l'.secs)
    (horder : l''.swappedEndian = l'.swappedEndian) : Changed name id d l l'' where
  find := by
    rw [← h.find]
    unfold findDstSecByName
    rw [hsecs]
  sec := by rw [hsecs, h.sec]
  others m hm := by
    rw [← h.others m hm]
    unfold Linker.sec? findDstSecByName
    rw [hsecs]
  order := horder.trans h.order

end Changed

/-- A section that is added goes to the end. -/
theorem addDstSec_ok {name : CStr} {l l' : Linker} {id : Nat}
    (hnone : findDstSecByName l name = none) (h : addDstSec name l = .ok id l') :
    Changed name id { secName := name, id := id } l l' := by
  obtain ⟨_, _, ⟨⟩, _, _, ⟨⟩, ⟨⟩⟩ := h
  generalize hsecs : (if l.secs = [] then [DstSec.unused] else l.secs) = secs
  -- the slots after the first are those of before
  have hdrop : secs.drop 1 = l.secs.drop 1 ∧ 0 < secs.length := by
    rw [← hsecs]
    by_cases he : l.secs = []
    · simp [he]
    · simp [he, length_pos_iff]
  have hlast : (secs ++ [({ secName := name, id := secs.length } : DstSec)])[secs.length]?
      = some { secName := name, id := secs.length } := by simp
  have hnone' : (secs.drop 1).findIdx? (·.secName == name) = none := by
    rw [hdrop.1]
    exact Option.map_eq_none_iff.mp hnone
  refine ⟨?_, hlast, fun m hm => ?_, rfl⟩
  · simp only [findDstSecByName]
    rw [drop_append_of_le_length (by omega), findIdx?_append, hnone']
    have hlen : secs.length - 1 + 1 = secs.length := by omega
    simp [hlen]
  · simp only [Linker.sec?, findDstSecByName]
    rw [drop_append_of_le_length (by omega), findIdx?_append, hdrop.1]
    have hne : ((name == m) : Bool) = false := beq_eq_false_iff_ne.mpr hm.symm
    cases hf : (l.secs.drop 1).findIdx? (·.secName == m) with
    | none => simp [hne]
    | some i =>
      obtain ⟨hlt, -⟩ := findIdx?_eq_some_iff_getElem.mp hf
      rw [← hdrop.1, length_drop] at hlt
      have hi : secs[i + 1]? = l.secs[i + 1]? := by
        have := congrArg (·[i]?) hdrop.1
        simpa [Nat.add_comm] using this
      simp only [Option.some_or, Option.map_some, Option.bind_some]
      rw [getElem?_append_left (by omega), hi]

/-- What `init_sec` makes of a section. -/
def Initialized (src : SrcSec) (old d : DstSec) : Prop :=
  match src.scn with
  | none => d = { old with secSz := 0, scn := none }
  | some e => ∃ secIdx nameOff,
      d = { old with secSz := 0, scn := some (ElfScn.initFrom secIdx nameOff e) }

theorem linkerAddStr_ok {s : CStr} {l l' : Linker} {off : Nat} (h : linkerAddStr s l = .ok off l') :
    l'.secs = l.secs ∧ l'.swappedEndian = l.swappedEndian := by
  obtain ⟨strs, -, rfl⟩ := onPart_eq_ok.mp h
  exact ⟨rfl, rfl⟩

theorem initSec_ok {name : CStr} {id : Nat} {old : DstSec} {l l' : Linker}
    (hl : Changed name id old l₀ l) (h : initSec id src l = .ok () l') :
    ∃ d, Initialized src old d ∧ Changed name id d l₀ l' := by
  simp only [initSec, bind_eq_ok] at h
  obtain ⟨_, _, ⟨⟩, h⟩ := h
  unfold Initialized
  have hshell := hl.modify (f := fun d => { d with secSz := 0, scn := none }) rfl
  cases hs : src.scn with
  | none =>
    rw [hs] at h
    cases h
    exact ⟨_, rfl, hshell⟩
  | some e =>
    rw [hs] at h
    simp only [bind_eq_ok] at h
    obtain ⟨_, _, ⟨⟩, _, _, ⟨⟩, off, l₁, hadd, ⟨⟩⟩ := h
    obtain ⟨hsecs, horder⟩ := linkerAddStr_ok hadd
    have hcnt : Changed name id _ l₀ { l.modifySec id
        (fun d => { d with secSz := 0, scn := none }) with scnCnt := l.scnCnt + 1 } :=
      hshell.congr rfl rfl
    have hscn := (hcnt.modify (f := fun d => { d with scn := some { secIdx := l.scnCnt + 1 } })
      rfl).congr hsecs horder
    exact ⟨_, ⟨_, off, rfl⟩, hscn.modify (f := fun d =>
      { d with scn := some (ElfScn.initFrom (l.scnCnt + 1) off e) }) rfl⟩

-- ======== appending

/-- The section that an input with an ELF part is put behind: the one that was
there, or a new one in its likeness. -/
inductive Begun (e : ElfScn) : Option DstSec → DstSec → Prop
  | going {d : DstSec} {s : ElfScn} (hs : d.scn = some s) (htype : s.shdr.shType = e.shdr.shType) :
      Begun e (some d) d
  | fresh {old : Option DstSec} {d : DstSec} {secIdx nameOff : Nat}
      (hold : ∀ o, old = some o → o.scn = none ∧ o.rawData = d.rawData)
      (hnone : old = none → d.rawData = [])
      (hs : d.scn = some (ElfScn.initFrom secIdx nameOff e)) (hsz : d.secSz = 0) :
      Begun e old d

theorem extendScn_name {swapped : Bool} {d d' : DstSec}
    {off : BitVec 32} (h : extendScn alloc swapped d e = .ok (d', off)) :
    d'.secName = d.secName := by
  simp only [extendScn, except_bind_eq_ok] at h
  obtain ⟨_, -, _, -, h⟩ := h
  cases h
  rfl

theorem extendRealSec_ok {name : CStr} {id : Nat} {d : DstSec}
    {l l' : Linker} (hl : Changed name id d l₀ l)
    (h : extendRealSec alloc id src e l = .ok src' l') :
    ∃ d' off, extendScn alloc l₀.swappedEndian d e = .ok (d', off)
      ∧ src' = { src with dstOff := off } ∧ Changed name id d' l₀ l' := by
  simp only [extendRealSec, bind_eq_ok, run_get, run_set, run_pure, liftRes_eq_ok, deref_eq_ok] at h
  obtain ⟨_, _, ⟨⟩, d₁, _, ⟨hd₁, rfl⟩, ⟨d', off⟩, _, ⟨hext, rfl⟩, _, _, ⟨⟩, ⟨⟩⟩ := h
  rw [hl.sec] at hd₁
  cases hd₁
  rw [hl.order] at hext
  exact ⟨d', off, hext, rfl, hl.modify (f := fun _ => d') (extendScn_name hext)⟩

theorem extendSec_ephemeral (alloc : Allocator) (id : Nat) (src : SrcSec) (h : src.scn = none) :
    extendSec alloc id src = pure src := by
  unfold extendSec
  rw [h]

/-- Appending data to a section that has an ELF part or gets it now. -/
theorem extendSec_ok {name : CStr} {id : Nat} {d : DstSec}
    {l l' : Linker} (hl : Changed name id d l₀ l)
    (hsrc : src.scn = some e) (h : extendSec alloc id src l = .ok src' l') :
    ∃ d₁ d' off, ((d.scn ≠ none ∧ d₁ = d) ∨ (d.scn = none ∧ Initialized src d d₁))
      ∧ extendScn alloc l₀.swappedEndian d₁ e = .ok (d', off)
      ∧ src' = { src with dstOff := off } ∧ Changed name id d' l₀ l' := by
  simp only [extendSec, hsrc, bind_eq_ok, run_get, liftRes_eq_ok, deref_eq_ok] at h
  obtain ⟨_, _, ⟨⟩, d₀, _, ⟨hd₀, rfl⟩, h⟩ := h
  rw [hl.sec] at hd₀
  cases hd₀
  cases hs : d.scn with
  | some s =>
    rw [DstSec.ephemeral, hs] at h
    obtain ⟨d', off, hext, hsrc', hl'⟩ := extendRealSec_ok hl h
    exact ⟨d, d', off, .inl ⟨by simp, rfl⟩, hext, hsrc', hl'⟩
  | none =>
    rw [DstSec.ephemeral, hs] at h
    obtain ⟨_, l₁, hinit, h⟩ := bind_eq_ok.mp h
    obtain ⟨d₁, hd₁, hl₁⟩ := initSec_ok hl hinit
    obtain ⟨d', off, hext, hsrc', hl'⟩ := extendRealSec_ok hl₁ h
    exact ⟨d₁, d', off, .inr ⟨rfl, hd₁⟩, hext, hsrc', hl'⟩

/-- A section that was made for the input is one it can be put behind. -/
theorem Initialized.begun {old : Option DstSec} {o d : DstSec}
    (hsrc : src.scn = some e) (h : Initialized src o d)
    (hold : ∀ x, old = some x → x.scn = none ∧ x.rawData = o.rawData)
    (hnone : old = none → o.rawData = []) : Begun e old d := by
  unfold Initialized at h
  rw [hsrc] at h
  obtain ⟨secIdx, nameOff, rfl⟩ := h
  exact .fresh hold hnone rfl rfl

/-- What a section of an object comes to: nothing, if it is no data or the
contents are there already; a shell at most, if it is ephemeral; or its data
behind those of its name. -/
inductive Appended (alloc : Allocator) (src : SrcSec) (l : Linker) : SrcSec → Linker → Prop
  | ignored (h : isDataSec src = false) : Appended alloc src l src l
  | deduped (id : Nat) : Appended alloc src l { src with skipped := true, dstId := id } l
  | ephemeral {l' : Linker} {id : Nat} {d : DstSec} (h : src.scn = none)
      (hl : Changed src.secName id d l l')
      (hd : l.sec? src.secName = some d
        ∨ l.sec? src.secName = none ∧ d = { secName := src.secName, id := id }) :
      Appended alloc src l { src with dstId := id } l'
  | extended {l' : Linker} {id : Nat} {e : ElfScn} {d d' : DstSec} {off : BitVec 32}
      (hdata : isDataSec src = true) (h : src.scn = some e)
      (hbegun : Begun e (l.sec? src.secName) d)
      (hext : extendScn alloc l.swappedEndian d e = .ok (d', off))
      (hl : Changed src.secName id d' l l') :
      Appended alloc src l { src with dstId := id, dstOff := off } l'

theorem appendSec_ok {l l' : Linker}
    (h : appendSec alloc src l = .ok src' l') : Appended alloc src l src' l' := by
  unfold appendSec at h
  by_cases hdata : isDataSec src = true
  · rw [if_neg (by simp [hdata])] at h
    rw [run_bind] at h
    dsimp only [run_get] at h
    cases hfind : findDstSecByName l src.secName with
    | none =>
      rw [hfind] at h
      obtain ⟨id, l₁, hadd, h⟩ := bind_eq_ok.mp h
      obtain ⟨_, l₂, hinit, h⟩ := bind_eq_ok.mp h
      have hl₁ := addDstSec_ok hfind hadd
      obtain ⟨d, hd, hl₂⟩ := initSec_ok hl₁ hinit
      have hnone := sec?_of_find_none hfind
      cases hs : src.scn with
      | none =>
        rw [extendSec_ephemeral alloc id { src with dstId := id } hs] at h
        cases h
        refine .ephemeral hs hl₂ (.inr ⟨hnone, ?_⟩)
        unfold Initialized at hd
        rw [hs] at hd
        exact hd
      | some e =>
        obtain ⟨d₁, d', off, hd₁, hext, rfl, hl'⟩ := extendSec_ok hl₂
          (show SrcSec.scn { src with dstId := id } = some e from hs) h
        refine .extended hdata hs ?_ hext hl'
        rcases hd₁ with ⟨-, rfl⟩ | ⟨hno, -⟩
        · exact hd.begun hs (by simp [hnone]) fun _ => rfl
        unfold Initialized at hd
        rw [hs] at hd
        obtain ⟨_, _, rfl⟩ := hd
        cases hno
    | some id =>
      rw [hfind] at h
      simp only [bind_eq_ok, liftRes_eq_ok, deref_eq_ok, failIf_eq_ok] at h
      obtain ⟨dst, _, ⟨hdst, rfl⟩, _, _, ⟨hmatch, rfl⟩, h⟩ := h
      by_cases hdedup : src.secName = licenseSec ∨ src.secName = versionSec
      · rw [if_pos hdedup] at h
        simp only [bind_eq_ok, liftRes_eq_ok] at h
        obtain ⟨_, _, ⟨-, rfl⟩, _, _, ⟨-, rfl⟩, h⟩ := h
        cases h
        exact .deduped id
      rw [if_neg hdedup] at h
      have hl := Changed.same hfind hdst
      cases hs : src.scn with
      | none =>
        rw [extendSec_ephemeral alloc id { src with dstId := id } hs] at h
        cases h
        exact .ephemeral hs hl (.inl hl.sec?)
      | some e =>
        obtain ⟨d₁, d', off, hd₁, hext, rfl, hl'⟩ := extendSec_ok hl
          (show SrcSec.scn { src with dstId := id } = some e from hs) h
        refine .extended hdata hs ?_ hext hl'
        rw [hl.sec?]
        rcases hd₁ with ⟨hsome, rfl⟩ | ⟨hno, hd₁⟩
        · obtain ⟨s, hs'⟩ := Option.ne_none_iff_exists'.mp hsome
          refine .going hs' ?_
          simp only [secsMatch, hs', hs, not_not, Bool.and_eq_true, beq_iff_eq] at hmatch
          exact hmatch.1.1
        · refine hd₁.begun hs (fun x hx => ?_) fun hx => by cases hx
          cases hx
          exact ⟨hno, rfl⟩
  · rw [if_pos (by simp [hdata])] at h
    cases h
    exact .ignored (by simpa using hdata)

end Libbpf
