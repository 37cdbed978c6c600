/-
What the writing calls do to an object, whatever they return.

A new object is well formed. Each call runs its checks, which read, and
then one of two bodies: a record is appended with its name interned, or
an element is appended to the last record. `Writes` is what both keep:
the call edits, and an object whose records can be written out and read
back (`Clean`) stays one. A call that fails half way has interned a
string, no more.
-/
import Libbpf.Btf.Copy

namespace Libbpf

open Lib
open List hiding after

variable {info v i size : Nat} {kind : BtfKind} {b' : Btf} {elem rest : List Nat}
  {kinds : List BtfKind}

-- ======== new objects

theorem btfLayouts_fits : ∀ e ∈ btfLayouts, e.Fits := by
  unfold BtfLayout.Fits
  decide

theorem btfEmptyHdr_fits {layoutLen strLen : Nat} (hl : layoutLen < 2 ^ 32)
    (hs : strLen < 2 ^ 32) : (btfEmptyHdr layoutLen strLen).Fits := by
  refine ⟨?_, ?_, ?_, ?_, ?_, ?_, hl, hs, ?_, hl⟩ <;>
    simp only [btfEmptyHdr, BTF_MAGIC, BTF_VERSION] <;> omega

theorem btfNewEmpty_wf (host : ByteOrder) (addr : Nat) (addLayout : Bool)
    {base : Option Btf} (hbase : ∀ b, base = some b → b.Wf) :
    (btfNewEmpty host addr addLayout base).Wf := by
  refine .mk ⟨?_, ⟨rfl, rfl, nofun, nofun, Nat.zero_le _⟩, ?_, ?_, rfl, rfl⟩
    hbase
  · apply btfEmptyHdr_fits
    · cases addLayout <;> decide
    · cases base <;> exact of_decide_eq_true rfl
  · cases base with
    | none =>
      refine ⟨Nat.le_refl _, Nat.le_add_left 1 _, Or.inr rfl,
        fun _ => ⟨Nat.one_pos, rfl⟩, ?_, nofun⟩
      intro data hd
      cases hd
      rfl
    | some b =>
      refine ⟨Nat.le_refl _, Nat.zero_le _, Or.inl rfl, nofun, ?_, nofun⟩
      intro data hd
      cases hd
      rfl
  · cases addLayout with
    | false => rfl
    | true => exact ⟨rfl, by decide, btfLayouts_fits⟩

-- ======== writing calls

/-- Every name slot of the record reads as a string. -/
def Btf.Named (b : Btf) (t : BtfType) : Prop :=
  ∀ slots, btfFieldSlots .strs t = .ok slots → ∀ i ∈ slots, ∃ s, b.strByOffset (t.word i) = some s

/-- Every record is of a known kind, has the size its kind says, and
its names can be read. -/
def Btf.Clean (b : Btf) : Prop := ∀ t ∈ b.types, t.Sized ∧ b.Named t

/-- What a writing call may do, and what it keeps. -/
structure Btf.Writes (b b' : Btf) : Prop where
  edited : b.Edited b'
  clean : b.BaseFinds → b.Clean → b'.Clean

theorem Btf.Named.mono {b : Btf} {t : BtfType} (h : b.Named t)
    (hstr : ∀ off x, b.strByOffset off = some x → b'.strByOffset off = some x) :
    b'.Named t := by
  intro slots hs i hi
  obtain ⟨s, hs'⟩ := h slots hs i hi
  exact ⟨s, hstr _ _ hs'⟩

theorem Btf.Interned.writes {b : Btf} (hw : b.Wf) (h : b.Interned b') : b.Writes b' := by
  refine ⟨h.edited, fun _ hc t ht => ?_⟩
  rw [h.types] at ht
  obtain ⟨hs, hn⟩ := hc t ht
  exact ⟨hs, hn.mono fun _ _ hx => h.strByOffset hw hx⟩

theorem Btf.Writes.refl {b : Btf} (hw : b.Wf) : b.Writes b :=
  Btf.Interned.writes hw (Btf.Looked.interned (Btf.Looked.refl b) hw)

theorem Btf.Writes.trans {b b'' : Btf} (hw : b.Wf) (h : b.Writes b')
    (h' : b'.Writes b'') : b.Writes b'' :=
  ⟨h.edited.trans h'.edited, fun hf hc =>
    h'.clean (h.edited.baseFinds hw hf) (h.clean hf hc)⟩

/-- A computation that only writes, started where `P` holds. -/
def Writer {α : Type} (P : Btf → Prop) (m : Run Btf α) : Prop :=
  ∀ b, b.Wf → P b → b.Writes (after (m b))

section

variable {α : Type} {P : Btf → Prop}

/-- After a check its condition is known not to hold. -/
theorem writer_check {c : Prop} [Decidable c] {code : Int}
    {k : Unit → Run Btf α} (h : ¬ c → Writer P (k ())) :
    Writer P (check c code >>= k) := by
  intro b hw hp
  rw [run_bind, check_eq]
  by_cases hc : c
  · rw [if_pos hc]
    exact Btf.Writes.refl hw
  · rw [if_neg hc]
    exact h hc b hw hp

/-- An ID that passes is a word. -/
theorem writer_validateTypeId {id : Int32} {k : Unit → Run Btf α}
    (h : id.toInt.toNat < 2 ^ 31 → Writer P (k ())) :
    Writer P (validateTypeId id >>= k) := by
  apply writer_check
  intro hc
  apply h
  unfold BTF_MAX_NR_TYPES at hc
  omega

end

-- ======== the prologue

theorem btfAddName_spec {b : Btf} (hw : b.Wf) (name : CStr) : b.Interned (after (btfAddName name b))
      ∧ ∀ off b', btfAddName name b = .ok off b' →
        off < 2 ^ 31 ∧ (b.BaseFinds → b'.strByOffset off = some name) := by
  unfold btfAddName
  by_cases hn : name = CStr.empty
  · rw [if_pos hn]
    refine ⟨Btf.Looked.interned (Btf.Looked.refl b) hw, fun off b' h => ?_⟩
    cases h
    rw [hn]
    exact ⟨by decide, fun _ => hw.strByOffset_zero.1⟩
  · rw [if_neg hn]
    refine ⟨Btf.addStr_interned hw name, fun off b' h => ?_⟩
    exact ⟨Btf.addStr_lt hw h, fun hf => (Btf.addStr_ok hw hf h).1⟩

/-- The object is open and has room for `n` bytes of types. -/
structure Roomy (b : Btf) (n : Nat) (b' : Btf) : Prop where
  interned : b.Interned b'
  uncached : b'.rawData = none ∧ b'.rawDataSwapped = none
  room : b'.hdr.typeLen + n < 2 ^ 32

/-- It also has the name at `off`. -/
structure Prepared (b : Btf) (n : Nat) (name : CStr) (off : Nat) (b' : Btf) :
    Prop extends Roomy b n b' where
  lt : off < 2 ^ 31
  name : b.BaseFinds → b'.strByOffset off = some name

/-- The steps both bodies start with. -/
theorem prologue_cases {α : Type} {b : Btf} (hw : b.Wf) (n : Nat) (name : CStr)
    (k : Nat → Run Btf α) :
    (∃ e b', (do btfEnsureModifiable; btfAddTypeMem n
                 let off ← btfAddName name; k off : Run Btf α) b = .error e b'
        ∧ b.Interned b')
      ∨ ∃ off b', (do btfEnsureModifiable; btfAddTypeMem n
                      let off ← btfAddName name; k off : Run Btf α) b = k off b'
        ∧ Prepared b n name off b' := by
  have hrefl := Btf.Looked.interned (Btf.Looked.refl b) hw
  rw [run_bind, btfEnsureModifiable_eq]
  cases hse : b.sealed with
  | true => exact Or.inl ⟨_, b, rfl, hrefl⟩
  | false =>
    have hopen : b.Interned b.opened :=
      Btf.Looked.interned ⟨Btf.norm_opened hse, Btf.Wf.opened, Or.inr rfl⟩ hw
    simp only [Bool.false_eq_true, if_false]
    rw [run_bind, btfAddTypeMem_eq]
    by_cases hroom : b.opened.hdr.typeLen + n > 2 ^ 32 - 1
    · rw [if_pos hroom]
      exact Or.inl ⟨_, _, rfl, hopen⟩
    rw [if_neg hroom]
    dsimp only
    rw [run_bind]
    obtain ⟨hint, hname⟩ := btfAddName_spec hopen.wf name
    cases hadd : btfAddName name b.opened with
    | error e b' =>
      rw [hadd] at hint
      exact Or.inl ⟨e, b', rfl, hopen.trans hint⟩
    | ok off b' =>
      rw [hadd, after_ok] at hint
      rw [hadd] at hname
      obtain ⟨hlt, hread⟩ := hname off b' rfl
      refine Or.inr ⟨off, b', rfl, ⟨hopen.trans hint, ?_, ?_⟩, hlt, ?_⟩
      · rcases hint.cache with ho | hn
        · rw [ho]
          exact ⟨rfl, rfl⟩
        · exact hn
      · rw [hint.hdr]
        show b.opened.hdr.typeLen + n < 2 ^ 32
        omega
      · exact fun hf => hread (hopen.edited.baseFinds hw hf)

/-- Writing the type section of an open object. -/
theorem Roomy.writes {b : Btf} {n : Nat} (h : Roomy b n b') {ts : List BtfType} (hts : Btf.Section ts)
    (hc : b.BaseFinds → b.Clean → ∀ t ∈ ts, t.Sized ∧ b'.Named t) :
    b.Writes (b'.setTypes ts) := by
  refine ⟨h.interned.edited.trans
    (Btf.edited_setTypes h.interned.wf hts h.uncached), fun hf hclean t ht => ?_⟩
  obtain ⟨hs, hn⟩ := hc hf hclean t ht
  refine ⟨hs, hn.mono fun off x hx => ?_⟩
  rw [Btf.strByOffset_setTypes]
  exact hx

-- ======== a record

theorem BtfType.fits_mk {a s : Nat} {r : List Nat} (ha : a < 2 ^ 32)
    (hi : i < 2 ^ 32) (hs : s < 2 ^ 32) (hr : ∀ w ∈ r, w < 2 ^ 32) :
    (⟨a, i, s, r⟩ : BtfType).Fits := by
  intro w hw
  simp only [BtfType.words, mem_cons] at hw
  rcases hw with rfl | rfl | rfl | hw
  · exact ha
  · exact hi
  · exact hs
  · exact hr w hw

/-- The info word of a record of kind `kind` with count `v`, which has
`n` words after the fixed ones. -/
structure InfoOf (kind : BtfKind) (v n info : Nat) : Prop where
  eq : ∃ kflag, info = btfTypeInfo kind v kflag
  vlen : v < 2 ^ 24
  rest : btfBswapRestCnt kind v = some n

theorem InfoOf.mk_zero {n : Nat} (kflag : Bool) (h : btfBswapRestCnt kind 0 = some n) :
    InfoOf kind 0 n (btfTypeInfo kind 0 kflag) :=
  ⟨⟨kflag, rfl⟩, Nat.two_pow_pos 24, h⟩

theorem InfoOf.known {n : Nat} (h : InfoOf kind v n info) : kind.known = true := by
  rw [← btfKnownSize_isSome kind v, btfKnownSize_eq, h.rest]
  rfl

theorem InfoOf.lt {n : Nat} (h : InfoOf kind v n info) : info < 2 ^ 32 := by
  obtain ⟨kflag, rfl⟩ := h.eq
  exact btfTypeInfo_lt (BtfKind.ofNat_toNat h.known).2 h.vlen

theorem InfoOf.spec {n : Nat} {t : BtfType}
    (h : InfoOf kind v n t.info) : t.kind = kind ∧ t.vlen = v := by
  obtain ⟨kflag, hi⟩ := h.eq
  obtain ⟨h₁, h₂, -⟩ := btfTypeInfo_spec h.known h.vlen hi
  exact ⟨h₁, h₂⟩

theorem InfoOf.sized {t : BtfType} (h : InfoOf kind v t.rest.length t.info) : t.Sized := by
  obtain ⟨h₁, h₂⟩ := h.spec
  rw [BtfType.Sized, h₁, h₂]
  exact h.rest

/-- Appending one record where there is room for it. -/
theorem Roomy.section_append {b : Btf} {n : Nat} (h : Roomy b n b') {t : BtfType} (ht : t.Fits)
    (hk : t.kind.known = true → t.Sized) (hn : t.byteSz = n)
    (hcnt : b'.nrTypes + 1 ≤ BTF_MAX_NR_TYPES) :
    Btf.Section (b'.types ++ [t]) := by
  have htypes := h.interned.wf.own.types
  refine ⟨fun u hu => ?_, fun u hu => ?_, ?_, ?_⟩
  · rcases mem_append.mp hu with hu | hu
    · exact htypes.fits u hu
    · rw [mem_singleton.mp hu]
      exact ht
  · rcases mem_append.mp hu with hu | hu
    · exact htypes.known u hu
    · rw [mem_singleton.mp hu]
      exact hk
  · rw [htypes.nrTypes] at hcnt
    rw [length_append]
    exact hcnt
  · rw [total_append, total_cons, ← htypes.typeLen, hn]
    exact h.room

/-- Committing a record: refused without an effect, or appended. -/
theorem btfCommitType_cases {b : Btf} {n : Nat} (h : Roomy b n b')
    {t : BtfType} (ht : t.Fits) (hk : t.kind.known = true → t.Sized) (hn : t.byteSz = n) :
    (∃ e, btfCommitType t b' = .error e b') ∨ ∃ res, Btf.Section (b'.types ++ [t])
        ∧ btfCommitType t b' = outcome res (b'.setTypes (b'.types ++ [t])) := by
  rw [btfCommitType, run_bind, run_get]
  dsimp only
  rw [run_bind]
  by_cases hcnt : b'.nrTypes + 1 > BTF_MAX_NR_TYPES
  · left
    rw [failIf, if_pos hcnt]
    exact ⟨_, rfl⟩
  right
  refine ⟨(do
    let cnt ← intSum b'.startId (b'.nrTypes + 1)
    return cnt - 1), h.section_append ht hk hn (Nat.le_of_not_gt hcnt), ?_⟩
  have happ := btfAppendTypes_eq h.interned.wf.own.types [t]
  rw [failIf, if_neg hcnt, liftRes_ok, ← happ]
  dsimp only
  rw [run_bind, run_set]
  dsimp only
  rw [run_bind]
  cases intSum b'.startId (b'.nrTypes + 1) <;> rfl

/-- The body that appends a record either interns a string and fails, or
appends the record. -/
theorem btfAddTypeRec_cases {b : Btf} (hw : b.Wf) (name : CStr)
    (hi : InfoOf kind v rest.length info) (hs : size < 2 ^ 32) (hr : ∀ w ∈ rest, w < 2 ^ 32) :
    (∃ e b', btfAddTypeRec name info size rest b = .error e b' ∧ b.Interned b')
      ∨ ∃ off b' res, Prepared b (12 + 4 * rest.length) name off b'
        ∧ Btf.Section (b'.types ++ [⟨off, info, size, rest⟩])
        ∧ btfAddTypeRec name info size rest b
          = outcome res (b'.setTypes (b'.types ++ [⟨off, info, size, rest⟩])) := by
  rcases prologue_cases hw (12 + 4 * rest.length) name
      (fun off => btfCommitType ⟨off, info, size, rest⟩) with
    herr | ⟨off, b', hrun, hp⟩
  · exact Or.inl herr
  have hrun' : btfAddTypeRec name info size rest b
      = btfCommitType ⟨off, info, size, rest⟩ b' := hrun
  have hlt := hp.lt
  rcases btfCommitType_cases hp.toRoomy (t := ⟨off, info, size, rest⟩)
      (BtfType.fits_mk (by omega) hi.lt hs hr) (fun _ => hi.sized) rfl with
    ⟨e, he⟩ | ⟨res, hsec, he⟩
  · exact Or.inl ⟨e, b', hrun'.trans he, hp.interned⟩
  · exact Or.inr ⟨off, b', res, hp, hsec, hrun'.trans he⟩

/-- A record whose only name slot is its first word. -/
theorem named_of_first {b : Btf} {t : BtfType} (s : CStr) (hs : b.strByOffset t.nameOff = some s)
    (hone : t.vlen = 0 ∨ t.kind = .func) : b.Named t := by
  intro slots hsl i hi
  obtain ⟨d, hd, rfl⟩ := btfFieldSlots_eq_ok hsl
  rcases mem_slots.mp hi with ⟨o, ho, rfl⟩ | ⟨m, hm, o, ho, rfl⟩
  · have h0 : o = 0 := by
      cases hk : t.kind <;> rw [hk] at hd <;> cases hd <;>
        first | cases ho; done | exact mem_singleton.mp ho
    rw [h0]
    exact ⟨s, hs⟩
  rcases hone with h0 | hf
  · omega
  · rw [hf] at hd
    cases hd
    cases ho

theorem Prepared.append_writes {b : Btf} {n off : Nat} {name : CStr}
    (hw : b.Wf) (h : Prepared b n name off b') {t : BtfType}
    (hname : t.nameOff = off) (hi : InfoOf kind v t.rest.length t.info)
    (hone : v = 0 ∨ kind = .func) (hsec : Btf.Section (b'.types ++ [t])) :
    b.Writes (b'.setTypes (b'.types ++ [t])) := by
  apply h.writes hsec
  intro hf hc u hu
  rcases mem_append.mp hu with hu | hu
  · exact (h.interned.writes hw).clean hf hc u hu
  rw [mem_singleton.mp hu]
  obtain ⟨hkind, hvlen⟩ := hi.spec
  refine ⟨hi.sized, named_of_first name ?_ ?_⟩
  · rw [hname]
    exact h.name hf
  · rw [hkind, hvlen]
    exact hone

/-- A call that ends in the record body writes. -/
theorem writer_addTypeRec {P : Btf → Prop} (name : CStr)
    (kflag : Bool) (hs : size < 2 ^ 32) (hr : ∀ w ∈ rest, w < 2 ^ 32)
    (hk : btfBswapRestCnt kind 0 = some rest.length) :
    Writer P (btfAddTypeRec name (btfTypeInfo kind 0 kflag) size rest) := by
  intro b hw _
  have hi := InfoOf.mk_zero kflag hk
  rcases btfAddTypeRec_cases hw name hi hs hr with
    ⟨e, b', hrun, hint⟩ | ⟨off, b', res, hp, hsec, hrun⟩
  · rw [hrun]
    exact hint.writes hw
  · rw [hrun, after_outcome]
    exact hp.append_writes hw rfl hi (Or.inl rfl) hsec

theorem modify_last {α : Type} (f : α → α) (l : List α) (a : α) :
    (l ++ [a]).modify l.length f = l ++ [f a] := by
  induction l with
  | nil => rfl
  | cons x l ih =>
    rw [cons_append, length_cons, modify_succ_cons, ih]
    rfl

/-- Overwriting the last info word is as good as having written it. -/
theorem btfSetLastInfo_append (b : Btf) (l : List BtfType) (t : BtfType)
    (info : Nat) : btfSetLastInfo info (b.setTypes (l ++ [t]))
      = .ok () (b.setTypes (l ++ [{ t with info }])) := by
  have hmod : (l ++ [t]).modify ((l ++ [t]).length - 1) ({ · with info })
      = l ++ [{ t with info }] := by
    rw [length_append]
    exact modify_last _ l t
  have htot : total BtfType.byteSz (l ++ [{ t with info }]) = total BtfType.byteSz (l ++ [t]) := by
    rw [total_append, total_append]
    rfl
  have hoffs : offsFrom BtfType.byteSz 0 (l ++ [{ t with info }])
      = offsFrom BtfType.byteSz 0 (l ++ [t]) := by
    rw [offsFrom_append, offsFrom_append]
    rfl
  show EStateM.Result.ok () ({ b.setTypes (l ++ [t]) with
    types := (l ++ [t]).modify ((l ++ [t]).length - 1) ({ · with info }) } : Btf) = _
  rw [hmod, Btf.setTypes, Btf.setTypes, htot, hoffs]
  rfl

/-- A call that appends a record without a count and then overwrites its
info word. -/
theorem writer_setLastInfo {P : Btf → Prop} (name : CStr)
    (hs : size < 2 ^ 32) (hi : InfoOf kind v 0 info)
    (hone : v = 0 ∨ kind = .func) (hk : btfBswapRestCnt kind 0 = some 0) :
    Writer P (do
      let id ← btfAddTypeRec name (btfTypeInfo kind 0 false) size []
      btfSetLastInfo info
      return id) := by
  intro b hw _
  have hi₀ := InfoOf.mk_zero false hk
  have hnil : ∀ w ∈ ([] : List Nat), w < 2 ^ 32 := nofun
  rw [run_bind]
  rcases btfAddTypeRec_cases hw name hi₀ hs hnil with
    ⟨e, b', hrun, hint⟩ | ⟨off, b', res, hp, hsec, hrun⟩
  · rw [hrun]
    exact hint.writes hw
  rw [hrun]
  cases res with
  | error e => exact hp.append_writes hw rfl hi₀ (Or.inl rfl) hsec
  | ok id =>
    show b.Writes (after ((btfSetLastInfo _ >>= fun _ => pure id) _))
    rw [run_bind, btfSetLastInfo_append]
    have hlt := hp.lt
    have hoff : off < 2 ^ 32 := by omega
    have hcnt := hsec.cnt
    rw [length_append] at hcnt
    have hi' : InfoOf kind v (⟨off, info, size, []⟩ : BtfType).rest.length
        (⟨off, info, size, []⟩ : BtfType).info := hi
    apply hp.append_writes (t := ⟨off, info, size, []⟩) hw rfl hi' hone
    apply hp.section_append (BtfType.fits_mk hoff hi.lt hs hnil) (fun _ => hi'.sized) rfl
    rw [hp.interned.wf.own.types.nrTypes]
    exact hcnt

-- ======== an element

/-- Kind `k` has elements of `n` words; where they have names, the name
is the first word. -/
structure ElemKind (k : BtfKind) (n : Nat) (named : Bool) : Prop where
  rest : ∀ v m, btfBswapRestCnt k v = some m → btfBswapRestCnt k (v + 1) = some (m + n)
  known : k.known = true
  names : ∀ d, btfFieldDesc .strs k = some d → if named then d.mOffs = [0] ∧ d.mSz = 4 * n
      ∧ ∀ v, btfBswapRestCnt k v = some (v * n)
    else d.mOffs = []

theorem elemKind_named : ∀ k n, (k, n) ∈ [(BtfKind.struct, 3), (.union, 3),
    (.enum, 2), (.enum64, 3), (.funcProto, 2)] → ElemKind k n true := by
  intro k n h
  simp only [mem_cons, not_mem_nil, or_false] at h
  rcases h with ⟨rfl, rfl⟩ | ⟨rfl, rfl⟩ | ⟨rfl, rfl⟩ | ⟨rfl, rfl⟩ | ⟨rfl, rfl⟩
  all_goals
    refine ⟨fun v m h => ?_, rfl, fun d hd => ?_⟩
    · cases h
      exact congrArg some (Nat.succ_mul v _)
    · cases hd
      exact ⟨rfl, rfl, fun v => rfl⟩

theorem elemKind_plain : ∀ k n, (k, n) ∈ [(BtfKind.datasec, 3), (.locParam, 1),
    (.locProto, 1), (.locsec, 3)] → ElemKind k n false := by
  intro k n h
  simp only [mem_cons, not_mem_nil, or_false] at h
  rcases h with ⟨rfl, rfl⟩ | ⟨rfl, rfl⟩ | ⟨rfl, rfl⟩ | ⟨rfl, rfl⟩
  all_goals
    refine ⟨fun v m h => ?_, rfl, fun d hd => ?_⟩
    · cases h
      first
      | exact congrArg some (Nat.succ_mul v _)
      | rfl
    · cases hd
      rfl

/-- The string slots of a record with one element more. -/
theorem ElemKind.slots {k : BtfKind} {n : Nat} {named : Bool}
    (h : ElemKind k n named) {d : BtfFieldDesc} (hd : btfFieldDesc .strs k = some d) {m : Nat}
    (hm : btfBswapRestCnt k v = some m) (hi : i ∈ d.slots (v + 1)) :
    i ∈ d.slots v ∨ named = true ∧ i = 3 + m := by
  have hnames := h.names d hd
  rcases mem_slots.mp hi with ht | ⟨j, hj, o, ho, rfl⟩
  · exact Or.inl (mem_slots.mpr (Or.inl ht))
  cases named with
  | false =>
    rw [hnames] at ho
    cases ho
  | true =>
    obtain ⟨hoffs, hsz, hcnt⟩ := hnames
    by_cases hjv : j < v
    · exact Or.inl (mem_slots.mpr (Or.inr ⟨j, hjv, o, ho, rfl⟩))
    right
    have hjv : j = v := by omega
    rw [hoffs] at ho
    rw [hcnt v] at hm
    cases hm
    rw [mem_singleton.mp ho, hsz, hjv]
    refine ⟨rfl, ?_⟩
    have hmul : 12 + v * (4 * n) + 0 = 4 * (3 + v * n) := by
      rw [Nat.mul_add, Nat.mul_left_comm, Nat.add_zero]
    rw [hmul, Nat.mul_div_cancel_left _ (by decide)]

/-- The record with an element appended. -/
def BtfType.addElem (t : BtfType) (info : Nat) (elem : List Nat) : BtfType :=
  { t with info, rest := t.rest ++ elem }

theorem BtfType.word_addElem_old (t : BtfType) (h1 : i ≠ 1) (hi : i < t.words.length) :
    (t.addElem info elem).word i = t.word i := by
  rw [BtfType.words_length] at hi
  unfold BtfType.word BtfType.words BtfType.addElem
  match i with
  | 0 => rfl
  | 2 => rfl
  | i + 3 =>
    simp only [getD_eq_getElem?_getD, getElem?_cons_succ]
    rw [getElem?_append_left (by omega)]

theorem BtfType.word_addElem_new (t : BtfType) {x : Nat} :
    (t.addElem info (x :: elem)).word (3 + t.rest.length) = x := by
  unfold BtfType.word BtfType.words BtfType.addElem
  rw [Nat.add_comm 3]
  simp only [getD_eq_getElem?_getD, getElem?_cons_succ]
  rw [getElem?_append_right (Nat.le_refl _), Nat.sub_self]
  rfl

/-- The info word that counts one element more. -/
theorem ElemKind.infoOf {n : Nat} {named : Bool} {t : BtfType}
    (h : ElemKind t.kind n named) (hs : t.Sized) (hv : t.vlen + 1 < 2 ^ 24)
    (hi : ∃ kflag, info = btfTypeInfo t.kind (t.vlen + 1) kflag) (hlen : elem.length = n) :
    InfoOf t.kind (t.vlen + 1) (t.addElem info elem).rest.length (t.addElem info elem).info := by
  refine ⟨hi, hv, ?_⟩
  rw [h.rest _ _ hs]
  show _ = some (t.rest ++ elem).length
  rw [length_append, hlen]

/-- Appending an element keeps a record's names in order. -/
theorem ElemKind.named {n : Nat} {named : Bool} {b : Btf} {t : BtfType}
    (h : ElemKind t.kind n named) (hs : t.Sized) (hn : b.Named t)
    (hi : InfoOf t.kind (t.vlen + 1) v (t.addElem info elem).info)
    (hname : named = true → ∃ off l s, elem = off :: l
      ∧ b.strByOffset off = some s) : b.Named (t.addElem info elem) := by
  obtain ⟨hkind, hvlen⟩ := hi.spec
  intro slots hsl i hi
  obtain ⟨d, hd, rfl⟩ := btfFieldSlots_eq_ok hsl
  rw [hkind] at hd
  rw [hvlen] at hi
  rcases h.slots hd hs hi with hi | ⟨hnm, rfl⟩
  · rw [BtfType.word_addElem_old t (slots_ne_info hd hi)
      (by rw [BtfType.words_length]; exact slots_lt hd hs hi)]
    exact hn _ (btfFieldSlots_eq hd) i hi
  · obtain ⟨off, l, s, rfl, hstr⟩ := hname hnm
    rw [BtfType.word_addElem_new]
    exact ⟨s, hstr⟩

/-- The last own record is `t`. -/
def Btf.Last (t : BtfType) (b : Btf) : Prop := b.types.getLast? = some t

theorem Btf.Last.split {t : BtfType} {b : Btf} (h : b.Last t) : b.types = b.types.dropLast ++ [t] :=
  (dropLast_append_getLast? t h).symm

theorem btfLastType_of_last {b : Btf} (hw : b.Wf) {t : BtfType} (h : b.Last t) :
    btfLastType b = .ok t b := by
  have hne : b.types ≠ [] := by
    intro h0
    rw [Btf.Last, h0] at h
    cases h
  have hpos := hw.startId_pos
  have hlen := length_pos_iff.mpr hne
  have hget : btfTypeById b (b.typeCnt - 1) = some t := by
    rw [hw.own.typeCnt, btfTypeById_own hw.own.types (by omega) (by omega),
      show b.startId + b.types.length - 1 - b.startId = b.types.length - 1 by
        omega, ← getLast?_eq_getElem?]
    exact h
  rw [btfLastType, run_bind, run_get]
  dsimp only
  rw [hget]
  rfl

/-- The call knows the last record and its kind from here on. -/
theorem writer_checkLast {α : Type} {P : Btf → Prop} {k : BtfType → Run Btf α}
    (h : ∀ t, t.kind ∈ kinds → Writer (Btf.Last t) (k t)) :
    Writer P (btfCheckLast kinds >>= k) := by
  intro b hw _
  rw [btfCheckLast, run_bind, run_bind, run_get]
  dsimp only
  rw [run_bind, check_eq]
  by_cases h0 : b.nrTypes = 0
  · rw [if_pos h0]
    exact Btf.Writes.refl hw
  have hne : b.types ≠ [] := by
    intro hnil
    rw [hw.own.types.nrTypes, hnil] at h0
    exact h0 rfl
  have hlast : b.Last (b.types.getLast hne) := getLast?_eq_getLast_of_ne_nil hne
  rw [if_neg h0]
  dsimp only
  rw [run_bind, btfLastType_of_last hw hlast]
  dsimp only
  rw [run_bind, check_eq]
  by_cases hk : (b.types.getLast hne).kind ∈ kinds
  · rw [if_neg (not_not.mpr hk)]
    exact h _ hk b hw hlast
  · rw [if_pos hk]
    exact Btf.Writes.refl hw

section

variable {b : Btf} {t t' : BtfType} (hw : b.Wf) (hlast : b.Last t) {n : Nat}
  (hsz : t'.byteSz = t.byteSz + n)

include hw hlast hsz

theorem Btf.total_replaceLast :
    total BtfType.byteSz (b.types.dropLast ++ [t']) = b.hdr.typeLen + n := by
  rw [hw.own.types.typeLen]
  conv => rhs; rw [hlast.split]
  rw [total_append, total_append, total_cons, total_cons]
  omega

/-- Growing the last record leaves the index as it is. -/
theorem Btf.setTypes_replaceLast : b.setTypes (b.types.dropLast ++ [t'])
      = btfHdrUpdateTypeLen (b.hdr.typeLen + n)
          { b with types := b.types.dropLast ++ [t'] } := by
  have hoffs : offsFrom BtfType.byteSz 0 (b.types.dropLast ++ [t']) = b.typeOffs := by
    rw [hw.own.types.offs]
    conv => rhs; rw [hlast.split]
    rw [offsFrom_append, offsFrom_append]
    rfl
  rw [Btf.setTypes, hoffs, Btf.total_replaceLast hw hlast hsz]

theorem Btf.section_replaceLast (ht : t'.Fits) (hs : t'.Sized)
    (hroom : b.hdr.typeLen + n < 2 ^ 32) :
    Btf.Section (b.types.dropLast ++ [t']) := by
  refine ⟨fun u hu => ?_, fun u hu => ?_, ?_, ?_⟩
  · rcases mem_append.mp hu with hu | hu
    · exact hw.own.types.fits u (dropLast_subset _ hu)
    · rw [mem_singleton.mp hu]
      exact ht
  · rcases mem_append.mp hu with hu | hu
    · exact hw.own.types.known u (dropLast_subset _ hu)
    · rw [mem_singleton.mp hu]
      exact fun _ => hs
  · have hcnt := hw.own.types.cnt
    rw [hlast.split, length_append] at hcnt
    rw [length_append]
    exact hcnt
  · rw [Btf.total_replaceLast hw hlast hsz]
    exact hroom

end

theorem BtfType.Fits.addElem {t : BtfType} (ht : t.Fits)
    (hi : info < 2 ^ 32) (he : ∀ w ∈ elem, w < 2 ^ 32) :
    (t.addElem info elem).Fits := by
  apply BtfType.fits_mk _ hi
  · apply ht
    simp [BtfType.words]
  · intro w hw
    rcases mem_append.mp hw with hw | hw
    · apply ht
      simp [BtfType.words, hw]
    · exact he w hw
  · apply ht
    simp [BtfType.words]

/-- A call that ends in the element body writes. -/
theorem writer_appendElem {n : Nat} {named : Bool}
    (hkinds : ∀ k ∈ kinds, ElemKind k n named) (name : CStr)
    {elem : Nat → List Nat} {newInfo : BtfType → Res Nat} {t : BtfType}
    (ht : t.kind ∈ kinds) (hlen : ∀ off, (elem off).length = n)
    (hfit : ∀ off, off < 2 ^ 31 → ∀ w ∈ elem off, w < 2 ^ 32)
    (hname : named = true → ∀ off, ∃ l, elem off = off :: l)
    (hinfo : ∀ info, newInfo t = .ok info → t.vlen + 1 < 2 ^ 24
      ∧ ∃ kflag, info = btfTypeInfo t.kind (t.vlen + 1) kflag) :
    Writer (Btf.Last t) (btfAppendElem name n elem newInfo) := by
  intro b hw hlast
  have hek := hkinds t.kind ht
  rcases prologue_cases hw (4 * n) name (fun off => do
      let t ← btfLastType
      let info ← liftRes (newInfo t)
      let btf ← get
      let t' := { t with info, rest := t.rest ++ elem off }
      set (btfHdrUpdateTypeLen (btf.hdr.typeLen + 4 * n)
        { btf with types := btf.types.dropLast ++ [t'] })
      return 0) with ⟨e, b', hrun, hint⟩ | ⟨off, b', hrun, hp⟩
  · have hrun' : btfAppendElem name n elem newInfo b = .error e b' := hrun
    rw [hrun']
    exact hint.writes hw
  have hwp := hp.interned.wf
  have hlast' : b'.Last t := by
    rw [Btf.Last, hp.interned.types]
    exact hlast
  have htmem : t ∈ b'.types := mem_of_getLast? hlast'
  have hrun' : btfAppendElem name n elem newInfo b = _ := hrun
  rw [hrun', run_bind, btfLastType_of_last hwp hlast']
  dsimp only
  cases hni : newInfo t with
  | error e =>
    exact hp.interned.writes hw
  | ok info =>
    obtain ⟨hv, hflag⟩ := hinfo info hni
    have hts := hwp.own.types.known t htmem hek.known
    have hi := hek.infoOf hts hv hflag (hlen off)
    have hbytes : (t.addElem info (elem off)).byteSz = t.byteSz + 4 * n := by
      unfold BtfType.byteSz BtfType.addElem
      rw [length_append, hlen]
      omega
    show b.Writes (btfHdrUpdateTypeLen (b'.hdr.typeLen + 4 * n) { b' with
      types := b'.types.dropLast ++ [t.addElem info (elem off)] })
    rw [← Btf.setTypes_replaceLast hwp hlast' hbytes]
    apply hp.writes
    · apply Btf.section_replaceLast hwp hlast' hbytes _ hi.sized hp.room
      exact (hwp.own.types.fits t htmem).addElem hi.lt (hfit off hp.lt)
    · intro hf hc u hu
      have hc' := (hp.interned.writes hw).clean hf hc
      rcases mem_append.mp hu with hu | hu
      · exact hc' u (dropLast_subset _ hu)
      rw [mem_singleton.mp hu]
      refine ⟨hi.sized, hek.named hts (hc' t htmem).2 hi fun hnm => ?_⟩
      obtain ⟨l, hl⟩ := hname hnm off
      exact ⟨off, l, name, hl, hp.name hf⟩

/-- `btf_type_inc_vlen` counts one more element. -/
theorem btfTypeIncVlen_ok {t : BtfType} (h : btfTypeIncVlen t = .ok info) : t.vlen + 1 < 2 ^ 24
      ∧ ∃ kflag, info = btfTypeInfo t.kind (t.vlen + 1) kflag := by
  have hlt : t.vlen < 2 ^ 24 := Nat.mod_lt _ (Nat.two_pow_pos 24)
  unfold btfTypeIncVlen BTF_MAX_VLEN at h
  split at h
  · cases h
  · cases h
    exact ⟨by omega, t.kflag, rfl⟩

end Libbpf
