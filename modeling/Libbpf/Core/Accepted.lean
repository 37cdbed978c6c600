/-
What CO-RE can rely on in a BTF that was accepted.

The validator checks every own type against the object and its bases, so
along a chain of accepted objects every name, every member's type and
every type behind a typedef, a modifier or an array can be looked up. With
no reference cycle the walks over typedefs and modifiers then find a type
(`Btf.Accepted.skip`).
-/
import Libbpf.Btf.View
import Libbpf.Core.Termination

namespace Libbpf

open Lib List

variable {i off : Nat} {b : Btf} {s : CStr}

/-- An object whose types passed the validator, on bases of which the same
is true. -/
inductive Btf.Accepted : Btf → Prop
  | mk {btf : Btf} (wf : btf.Wf) (valid : ∀ t ∈ btf.types, btfValidateType btf t = .ok ())
      (base : ∀ b, btf.baseBtf = some b → b.Accepted) : btf.Accepted

theorem Btf.Accepted.wf {btf : Btf} (h : btf.Accepted) : btf.Wf := by
  cases h with
  | mk wf valid base => exact wf

/-- The sortedness note does not matter to the validator. -/
theorem btfValidateType_note (btf : Btf) (k : Nat) (t : BtfType) :
    btfValidateType { btf with namedStartId := k } t = btfValidateType btf t := by
  have htype : ∀ id, Btf.typeById { btf with namedStartId := k } id = btf.typeById id := by
    intro id
    unfold Btf.typeById
    rw [btfTypeById_eq, btfTypeById_eq btf]
    rfl
  have hstr : ∀ off, Btf.strByOffset { btf with namedStartId := k } off = btf.strByOffset off := by
    intro off
    rw [Btf.strByOffset_eq, Btf.strByOffset_eq btf]
  unfold btfValidateType btfValidateStr btfValidateId
  simp only [htype, hstr]
  rfl

/-- `btf_new` returns such objects. -/
theorem btfNew_accepted {host : ByteOrder} {addr : Nat} {data : Bytes}
    {base : Option Btf} {btf : Btf} (hbase : ∀ b, base = some b → b.Accepted)
    (h : btfNew host addr data base = .ok btf) : btf.Accepted := by
  have hbwf : ∀ b, base = some b → b.Wf := fun b hb => (hbase b hb).wf
  have hw := btfNew_wf hbwf h
  obtain ⟨pre, hd, hs, hbtf⟩ := btfNew_eq_ok h
  have hwpre := btfDecode_wf hbwf hd
  obtain ⟨i, -, hpre⟩ := btfDecode_iff.mp hd
  have hpb : pre.baseBtf = base := by
    rw [hpre]
    rfl
  refine .mk hw (fun t ht => ?_) fun b hb => hbase b ?_
  · have hmem : t ∈ pre.types := by
      rw [hbtf] at ht
      exact ht
    have hv := btfSanityCheck_ok hwpre hs hmem
    rw [hbtf, btfValidateType_note]
    exact hv
  · rw [← hpb]
    rw [hbtf] at hb
    exact hb

section

variable {btf : Btf}

/-- Lookups in the base go through. -/
theorem Btf.Wf.typeById_base (h : btf.Wf) (hb : btf.baseBtf = some b)
    {id : Nat} {t : BtfType} (ht : b.typeById id = some t) :
    btf.typeById id = some t := by
  have hs := h.own.startId
  rw [hb] at hs
  have hlt := Btf.typeById_lt ht
  have hlt' : id < btf.typeCnt := by
    simp only [Btf.startIdOn] at hs
    unfold Btf.typeCnt
    omega
  rw [Btf.typeById_of_lt hlt', btfTypeById_eq]
  split
  · next h0 =>
      have hvoid := Btf.btfTypeById_of_typeById ht
      rwa [h0, btfTypeById_zero] at hvoid
  · simp only [Btf.startIdOn] at hs
    rw [if_pos (by omega), hb]
    exact Btf.btfTypeById_of_typeById ht

/-- The words of every type fit. -/
theorem Btf.Wf.typeById_fits (h : btf.Wf) {id : Nat} {t : BtfType}
    (ht : btfTypeById btf id = some t) : t.Fits := by
  induction h with
  | @mk btf own base ih =>
    by_cases h0 : id = 0
    · rw [h0, btfTypeById_zero] at ht
      cases ht
      decide
    by_cases hown : btf.startId ≤ id
    · rw [btfTypeById_own own.types h0 hown] at ht
      exact own.types.fits t (mem_of_getElem? ht)
    · rw [btfTypeById_base h0 (Nat.lt_of_not_le hown)] at ht
      obtain ⟨b, hb, ht⟩ := Option.bind_eq_some_iff.mp ht
      exact ih b hb ht

theorem Btf.strByOffset_lt (h : btf.strByOffset off = some s) :
    off < btf.hdr.strLen + btf.startStrOff := by
  rw [Btf.strByOffset_eq] at h
  split at h
  · omega
  · split at h
    · omega
    · cases h

theorem Btf.Wf.strByOffset_base (h : btf.Wf) (hb : btf.baseBtf = some b)
    (hs : b.strByOffset off = some s) :
    btf.strByOffset off = some s := by
  have hso := h.own.startStrOff
  rw [hb] at hso
  have hlt : off < btf.startStrOff := by
    rw [hso]
    exact Btf.strByOffset_lt hs
  rw [Btf.strByOffset_eq, if_pos hlt, hb]
  exact hs

/-- A type was validated at the level it belongs to. -/
theorem Btf.Accepted.level (h : btf.Accepted) {id : Nat} {t : BtfType}
    (ht : btf.typeById id = some t) : t = btfVoid ∨ ∃ b : Btf, b.Wf ∧ t ∈ b.types
      ∧ btfValidateType b t = .ok ()
      ∧ (∀ x u, b.typeById x = some u → btf.typeById x = some u)
      ∧ ∀ off s, b.strByOffset off = some s → btf.strByOffset off = some s := by
  induction h with
  | @mk btf wf valid base ih =>
    by_cases h0 : id = 0
    · have hvoid := Btf.btfTypeById_of_typeById ht
      rw [h0, btfTypeById_zero] at hvoid
      exact .inl (Option.some.inj hvoid).symm
    by_cases hown : btf.startId ≤ id
    · have hmem := Btf.mem_types_of_typeById wf hown ht
      exact .inr ⟨btf, wf, hmem, valid t hmem, fun _ _ h => h, fun _ _ h => h⟩
    have hlt := Nat.lt_of_not_le hown
    have hget := Btf.btfTypeById_of_typeById ht
    rw [btfTypeById_base h0 hlt] at hget
    obtain ⟨b, hb, hget⟩ := Option.bind_eq_some_iff.mp hget
    have hs := wf.own.startId
    rw [hb] at hs
    have hbt : b.typeById id = some t := by
      rw [Btf.typeById_of_lt (Nat.lt_of_lt_of_eq hlt hs)]
      exact hget
    rcases ih b hb hbt with hvoid | ⟨c, hc, hmem, hv, hty, hst⟩
    · exact .inl hvoid
    · exact .inr ⟨c, hc, hmem, hv, fun x u hx => wf.typeById_base hb (hty x u hx),
        fun off s hs => wf.strByOffset_base hb (hst off s hs)⟩

-- ======== the records

theorem validate_name {t : BtfType} (h : btfValidateType btf t = .ok ()) :
    ∃ s, btf.strByOffset t.nameOff = some s := by
  obtain ⟨_, hname, -⟩ := of_bind_ok h
  exact btfValidateStr_eq_ok.mp hname

theorem Btf.Accepted.name (h : btf.Accepted) {id : Nat} {t : BtfType}
    (ht : btf.typeById id = some t) : ∃ s, btf.strByOffset t.nameOff = some s := by
  rcases h.level ht with rfl | ⟨b, -, -, hv, -, hst⟩
  · exact ⟨_, h.wf.strByOffset_zero.1⟩
  · obtain ⟨s, hs⟩ := validate_name hv
    exact ⟨s, hst _ s hs⟩

/-- Behind a typedef or a modifier there is a type. -/
theorem Btf.Accepted.behind (h : btf.Accepted) {id : Nat} {t : BtfType}
    (ht : btf.typeById id = some t) (hmod : (t.isMod || t.isTypedef) = true) :
    ∃ u, btf.typeById t.type = some u := by
  rcases h.level ht with rfl | ⟨b, -, -, hv, hty, -⟩
  · cases hmod
  obtain ⟨_, -, hv⟩ := of_bind_ok hv
  unfold BtfType.isMod BtfType.isTypedef at hmod
  cases hk : t.kind with
  | volatile | const | restrict | typeTag | typedef =>
    rw [hk] at hv
    obtain ⟨u, hu⟩ := btfValidateId_eq_ok.mp hv
    exact ⟨u, hty _ u hu⟩
  | _ =>
    rw [hk] at hmod
    cases hmod

variable {id : Nat} {t : BtfType}

theorem BtfType.rest_eq_word {t : BtfType} {k : Nat} (h : k < t.rest.length) :
    t.rest[k]? = some (t.word (3 + k)) := by
  have hword : t.word (3 + k) = t.rest.getD k 0 := by
    rw [Nat.add_comm]
    rfl
  rw [hword, getD_eq_getElem?_getD, getElem?_eq_getElem h]
  rfl

theorem Btf.Accepted.type (h : btf.Accepted) (hid : id < btf.typeCnt) :
    ∃ t, btf.typeById id = some t := by
  obtain ⟨t, ht⟩ := Option.isSome_iff_exists.mp (h.wf.typeById_isSome hid)
  exact ⟨t, (Btf.typeById_of_lt hid).trans ht⟩

/-- A type of a known kind has its words, and the checks of its kind were made
at its level. -/
theorem Btf.Accepted.checked (h : btf.Accepted) (ht : btf.typeById id = some t)
    {n : Nat} (hcnt : btfBswapRestCnt t.kind t.vlen = some n) (hknown : t.kind.known = true) :
    ∃ b : Btf, t.rest.length = n ∧ btfValidateType b t = .ok ()
      ∧ (∀ x u, b.typeById x = some u → btf.typeById x = some u)
      ∧ ∀ off s, b.strByOffset off = some s → btf.strByOffset off = some s := by
  rcases h.level ht with rfl | ⟨b, hb, hmem, hv, hty, hst⟩
  · cases hknown
  · have hsized := hb.own.types.known t hmem hknown
    rw [BtfType.Sized, hcnt, Option.some.injEq] at hsized
    exact ⟨b, hsized.symm, hv, hty, hst⟩

theorem Btf.Accepted.ptr (h : btf.Accepted) (ht : btf.typeById id = some t) (hk : t.kind = .ptr) :
    ∃ u, btf.typeById t.type = some u := by
  obtain ⟨b, -, hv, hty, -⟩ := h.checked ht (by rw [hk]; rfl) (by rw [hk]; rfl)
  obtain ⟨_, -, hv⟩ := of_bind_ok hv
  rw [hk] at hv
  obtain ⟨u, hu⟩ := btfValidateId_eq_ok.mp hv
  exact ⟨u, hty _ u hu⟩

theorem Btf.Accepted.param (h : btf.Accepted) (ht : btf.typeById id = some t)
    (hk : t.kind = .funcProto) (hi : i < t.vlen) :
    ∃ type off s u, t.paramType? i = some type
      ∧ t.rest[2 * i]? = some off ∧ btf.strByOffset off = some s
      ∧ btf.typeById type = some u := by
  obtain ⟨b, hlen, hv, hty, hst⟩ := h.checked (n := t.vlen * 2) ht (by rw [hk]; rfl)
    (by rw [hk]; rfl)
  obtain ⟨_, -, hv⟩ := of_bind_ok hv
  rw [hk] at hv
  obtain ⟨_, hs, hid⟩ := of_bind_ok (checkAll_eq_ok.mp hv i (mem_range.mpr hi))
  obtain ⟨s, hs⟩ := btfValidateStr_eq_ok.mp hs
  obtain ⟨u, hu⟩ := btfValidateId_eq_ok.mp hid
  rw [Nat.add_assoc] at hu
  exact ⟨_, _, s, u, BtfType.rest_eq_word (by omega), BtfType.rest_eq_word (by omega),
    hst _ s hs, hty _ u hu⟩

theorem Btf.Accepted.enum (h : btf.Accepted) (ht : btf.typeById id = some t)
    (hk : t.isAnyEnum = true) (hi : i < t.vlen) : ∃ off v s, btfEnumNameOff? t i = some off
      ∧ btfEnumValue? t i = some v ∧ btf.strByOffset off = some s := by
  have hkind : t.kind = .enum ∨ t.kind = .enum64 := by
    unfold BtfType.isAnyEnum at hk
    rcases Bool.or_eq_true_iff.mp hk with hk | hk
    · exact .inl (beq_iff_eq.mp hk)
    · exact .inr (beq_iff_eq.mp hk)
  rcases hkind with hk | hk
  · obtain ⟨b, hlen, hv, -, hst⟩ := h.checked (n := t.vlen * 2) ht (by rw [hk]; rfl)
      (by rw [hk]; rfl)
    obtain ⟨_, -, hv⟩ := of_bind_ok hv
    rw [hk] at hv
    obtain ⟨s, hs⟩ := btfValidateStr_eq_ok.mp (checkAll_eq_ok.mp hv i (mem_range.mpr hi))
    have h0 := BtfType.rest_eq_word (t := t) (k := 2 * i) (by omega)
    have h1 := BtfType.rest_eq_word (t := t) (k := 2 * i + 1) (by omega)
    unfold btfEnumNameOff? btfEnumValue?
    rw [hk, h0, h1]
    exact ⟨_, _, s, rfl, rfl, hst _ s hs⟩
  · obtain ⟨b, hlen, hv, -, hst⟩ := h.checked (n := t.vlen * 3) ht (by rw [hk]; rfl)
      (by rw [hk]; rfl)
    obtain ⟨_, -, hv⟩ := of_bind_ok hv
    rw [hk] at hv
    obtain ⟨s, hs⟩ := btfValidateStr_eq_ok.mp (checkAll_eq_ok.mp hv i (mem_range.mpr hi))
    have h0 := BtfType.rest_eq_word (t := t) (k := 3 * i) (by omega)
    have h1 := BtfType.rest_eq_word (t := t) (k := 3 * i + 1) (by omega)
    have h2 := BtfType.rest_eq_word (t := t) (k := 3 * i + 2) (by omega)
    unfold btfEnumNameOff? btfEnumValue?
    rw [hk, h0, h1, h2]
    exact ⟨_, _, s, rfl, rfl, hst _ s hs⟩

/-- An array has its data and an element type. -/
theorem Btf.Accepted.array (h : btf.Accepted) (ht : btf.typeById id = some t)
    (harr : t.isArray = true) : ∃ a u, t.array? = some a ∧ btf.typeById a.type = some u := by
  have hk : t.kind = .array := beq_iff_eq.mp harr
  obtain ⟨b, hlen, hv, hty, -⟩ := h.checked (n := 3) ht (by rw [hk]; rfl) (by rw [hk]; rfl)
  obtain ⟨_, -, hv⟩ := of_bind_ok hv
  rw [hk] at hv
  obtain ⟨_, hv, -⟩ := of_bind_ok hv
  obtain ⟨u, hu⟩ := btfValidateId_eq_ok.mp hv
  refine ⟨⟨t.word (3 + 0), t.word (3 + 1), t.word (3 + 2)⟩, u, ?_, hty _ u hu⟩
  unfold BtfType.array?
  rw [BtfType.rest_eq_word (by omega), BtfType.rest_eq_word (by omega),
    BtfType.rest_eq_word (by omega)]

/-- A composite has its members, with their names and types. -/
theorem Btf.Accepted.member (h : btf.Accepted) (ht : btf.typeById id = some t)
    (hc : t.isComposite = true) (hi : i < t.vlen) : ∃ m u s, t.member? i = some m
      ∧ btf.typeById m.type = some u ∧ btf.strByOffset m.nameOff = some s := by
  have hkind : t.kind = .struct ∨ t.kind = .union := by
    unfold BtfType.isComposite at hc
    rcases Bool.or_eq_true_iff.mp hc with hk | hk
    · exact .inl (beq_iff_eq.mp hk)
    · exact .inr (beq_iff_eq.mp hk)
  obtain ⟨b, hlen, hv, hty, hst⟩ := h.checked (n := t.vlen * 3) ht
    (by rcases hkind with hk | hk <;> (rw [hk]; rfl))
    (by rcases hkind with hk | hk <;> (rw [hk]; rfl))
  obtain ⟨_, -, hv⟩ := of_bind_ok hv
  have hcheck : checkAll (fun i => do
      btfValidateStr b (t.word (3 + 3 * i))
      btfValidateId b (t.word (3 + 3 * i + 1))) (List.range t.vlen) = .ok () := by
    rcases hkind with hk | hk
    · rw [hk] at hv
      exact hv
    · rw [hk] at hv
      exact hv
  obtain ⟨_, hs, hid⟩ := of_bind_ok (checkAll_eq_ok.mp hcheck i (mem_range.mpr hi))
  obtain ⟨s, hs⟩ := btfValidateStr_eq_ok.mp hs
  obtain ⟨u, hu⟩ := btfValidateId_eq_ok.mp hid
  rw [Nat.add_assoc] at hu
  refine ⟨⟨t.word (3 + 3 * i), t.word (3 + (3 * i + 1)), t.word (3 + (3 * i + 2))⟩, u, s, ?_,
    hty _ u hu, hst _ s hs⟩
  unfold BtfType.member?
  rw [BtfType.rest_eq_word (by omega), BtfType.rest_eq_word (by omega),
    BtfType.rest_eq_word (by omega)]

/-- The type behind typedefs and modifiers is found. -/
theorem Btf.Accepted.skip (h : btf.Accepted) : ∀ {n id : Nat} {u : BtfType},
    climb btf.follow n id = none → btf.typeById id = some u →
    ∃ t id', skipModsAndTypedefs btf n id = .ok (t, id')
  | n + 1, id, u, hend, hu => by
    rw [skipModsAndTypedefs, hu]
    dsimp only
    by_cases hmod : (u.isMod || u.isTypedef) = true
    · rw [if_pos hmod]
      obtain ⟨v, hv⟩ := h.behind hu hmod
      refine h.skip ?_ hv
      rw [climb, Btf.follow, hu] at hend
      dsimp only at hend
      rw [if_pos hmod] at hend
      exact hend
    · rw [if_neg hmod]
      exact ⟨u, id, rfl⟩

end

end Libbpf
