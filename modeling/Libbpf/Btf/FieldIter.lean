/-
The field iterator of btf_iter.c: which words of a record are type IDs
and which are string offsets.

`btfFieldIterInit` picks a descriptor by kind and `btfFieldIterNext`
walks it, first the once-per-type offsets and then, member by member,
the per-member ones. A traversal reads and writes through the pointers
it is given but the walk itself depends on the descriptor and the
element count alone, so a traversal is a loop over the list
`btfFieldSlots` of the words the iterator stops at.

`btfFieldSlots_eq` gives that list in closed form (`BtfFieldDesc.slots`).
The facts the traversals rest on follow from the table: the slots lie
inside a record of the right size, they are distinct, none is the info
word, and no word is both an ID and a string offset.
-/
import Libbpf.Btf.Type

namespace Libbpf

open Lib List

variable {d : BtfFieldDesc} {k : BtfFieldIterKind} {kind : BtfKind} {vlen i : Nat}

-- ======== the iterator

/-- `enum btf_field_iter_kind`. -/
inductive BtfFieldIterKind where
  | ids
  | strs
deriving DecidableEq, Repr

/-- `struct btf_field_desc`: once-per-type byte offsets, the member
size, and the byte offsets inside each member. -/
structure BtfFieldDesc where
  tOffs : List Nat
  mSz : Nat
  mOffs : List Nat
deriving DecidableEq, Repr

/-- The descriptor tables of `btf_field_iter_init`. -/
def btfFieldDesc : BtfFieldIterKind → BtfKind → Option BtfFieldDesc
  | .ids, kind =>
    match kind with
    | .unkn | .int | .float | .enum | .enum64 | .locParam =>
      some ⟨[], 0, []⟩
    | .fwd | .const | .volatile | .restrict | .ptr | .typedef | .func
    | .var | .declTag | .typeTag => some ⟨[8], 0, []⟩
    | .array => some ⟨[12 + 0, 12 + 4], 0, []⟩
    | .struct | .union => some ⟨[], 12, [4]⟩
    | .funcProto => some ⟨[8], 8, [4]⟩
    | .datasec => some ⟨[], 12, [0]⟩
    | .locProto => some ⟨[], 4, [0]⟩
    | .locsec => some ⟨[], 12, [0, 4]⟩
    | .other _ => none
  | .strs, kind =>
    match kind with
    | .unkn => some ⟨[], 0, []⟩
    | .int | .float | .fwd | .array | .const | .volatile | .restrict
    | .ptr | .typedef | .func | .var | .declTag | .typeTag | .datasec
    | .locParam | .locProto | .locsec => some ⟨[0], 0, []⟩
    | .enum => some ⟨[0], 8, [0]⟩
    | .enum64 => some ⟨[0], 12, [0]⟩
    | .struct | .union => some ⟨[0], 12, [0]⟩
    | .funcProto => some ⟨[0], 8, [0]⟩
    | .other _ => none

/-- `struct btf_field_iter`; `p` is a byte offset into the record
(`none` is NULL) and `mIdx` is `none` for -1. -/
structure BtfFieldIter where
  desc : BtfFieldDesc
  p : Option Nat
  mIdx : Option Nat
  offIdx : Nat
  vlen : Nat
deriving DecidableEq, Repr

/-- `btf_field_iter_init`. -/
def btfFieldIterInit (t : BtfType) (iterKind : BtfFieldIterKind) : Res BtfFieldIter :=
  match btfFieldDesc iterKind t.kind with
  | none => .error (.err (-EINVAL))
  | some desc =>
    .ok { desc, p := some 0, mIdx := none, offIdx := 0
          vlen := if desc.mSz = 0 then 0 else t.vlen }

/-- The member half of `btf_field_iter_next`, at member `m`. -/
def btfFieldIterNextMember (it : BtfFieldIter) (p m : Nat) : Option Nat × BtfFieldIter :=
  if it.desc.mSz = 0 then (none, { it with p := none })
  else
    let (m, p, offIdx) :=
      if it.offIdx ≥ it.desc.mOffs.length then (m + 1, p + it.desc.mSz, 0)
      else (m, p, it.offIdx)
    if m < it.vlen then
      (some (p + it.desc.mOffs.getD offIdx 0),
        { it with p := some p, mIdx := some m, offIdx := offIdx + 1 })
    else (none, { it with p := none, mIdx := some m, offIdx })

/-- `btf_field_iter_next`: the byte offset of the next field. -/
def btfFieldIterNext (it : BtfFieldIter) : Option Nat × BtfFieldIter :=
  match it.p, it.mIdx with
  | none, _ => (none, it)
  | some p, some m => btfFieldIterNextMember it p m
  | some p, none =>
    if it.offIdx < it.desc.tOffs.length then
      (some (p + it.desc.tOffs.getD it.offIdx 0), { it with offIdx := it.offIdx + 1 })
    else
      -- move to per-member iteration
      btfFieldIterNextMember { it with mIdx := some 0, offIdx := 0 } (p + 12) 0

/-- The fields a `while` loop over the iterator visits. -/
def btfFieldIterAll : Nat → BtfFieldIter → List Nat
  | 0, _ => []
  | fuel + 1, it =>
    match btfFieldIterNext it with
    | (none, _) => []
    | (some o, it') => o :: btfFieldIterAll fuel it'

/-- The words of `t` a traversal visits. -/
def btfFieldSlots (iterKind : BtfFieldIterKind) (t : BtfType) : Res (List Nat) := do
  let it ← btfFieldIterInit t iterKind
  -- one step per field and one to see the end
  let steps := it.desc.tOffs.length + it.vlen * it.desc.mOffs.length + 1
  return (btfFieldIterAll steps it).map (· / 4)

-- ======== closed form

/-- Every field offset of a record with `vlen` members. -/
def BtfFieldDesc.offs (d : BtfFieldDesc) (vlen : Nat) : List Nat :=
  d.tOffs ++ (List.range vlen).flatMap fun m => d.mOffs.map (12 + m * d.mSz + ·)

/-- The same as word numbers. -/
def BtfFieldDesc.slots (d : BtfFieldDesc) (vlen : Nat) : List Nat :=
  (d.offs vlen).map (· / 4)

/-- The fields still ahead of an iterator at field `j` of member `m`. -/
private def aheadMembers (d : BtfFieldDesc) (vlen m j : Nat) : List Nat :=
  if m < vlen then
    (d.mOffs.drop j).map (12 + m * d.mSz + ·) ++ (List.range' (m + 1) (vlen - (m + 1))).flatMap
          fun m => d.mOffs.map (12 + m * d.mSz + ·)
  else []

private theorem aheadMembers_end {m : Nat} :
    aheadMembers d vlen m d.mOffs.length = aheadMembers d vlen (m + 1) 0 := by
  unfold aheadMembers
  by_cases hm : m < vlen
  · rw [if_pos hm, drop_length, map_nil, nil_append]
    by_cases hm' : m + 1 < vlen
    · rw [if_pos hm', drop_zero, show vlen - (m + 1) = vlen - (m + 1 + 1) + 1 by omega,
        range'_succ, flatMap_cons]
    · rw [if_neg hm', show vlen - (m + 1) = 0 by omega]
      rfl
  · rw [if_neg hm, if_neg (by omega)]

private theorem all_member (d : BtfFieldDesc) (hsz : d.mSz ≠ 0)
    (hne : 0 < d.mOffs.length) (vlen : Nat) :
    ∀ (fuel m j : Nat), j ≤ d.mOffs.length → btfFieldIterAll fuel
          { desc := d, p := some (12 + m * d.mSz), mIdx := some m
            offIdx := j, vlen }
        = (aheadMembers d vlen m j).take fuel := by
  intro fuel
  induction fuel with
  | zero => intro m j _; simp [btfFieldIterAll]
  | succ fuel ih =>
    -- one step at a field of a member that exists
    have hin : ∀ m j, j < d.mOffs.length → m < vlen → (12 + m * d.mSz + d.mOffs.getD j 0)
            :: (aheadMembers d vlen m (j + 1)).take fuel
          = (aheadMembers d vlen m j).take (fuel + 1) := by
      intro m j hj hm
      unfold aheadMembers
      rw [if_pos hm, if_pos hm, drop_eq_getElem_cons hj, map_cons,
        cons_append, take_succ_cons, getD_eq_getElem?_getD,
        getElem?_eq_getElem hj, Option.getD_some]
    intro m j hj
    by_cases hjlt : j < d.mOffs.length
    · by_cases hm : m < vlen
      · rw [← hin m j hjlt hm, ← ih m (j + 1) hjlt]
        simp [btfFieldIterAll, btfFieldIterNext, btfFieldIterNextMember, hsz,
          Nat.not_le_of_lt hjlt, hm]
      have hnil : aheadMembers d vlen m j = [] := if_neg hm
      rw [hnil]
      simp [btfFieldIterAll, btfFieldIterNext, btfFieldIterNextMember, hsz,
        Nat.not_le_of_lt hjlt, hm]
    · have hje : j = d.mOffs.length := by omega
      subst hje
      have hp : 12 + m * d.mSz + d.mSz = 12 + (m + 1) * d.mSz := by
        rw [Nat.add_mul, Nat.one_mul, Nat.add_assoc]
      rw [aheadMembers_end]
      by_cases hm : m + 1 < vlen
      · rw [← hin (m + 1) 0 hne hm, ← ih (m + 1) 1 hne]
        simp [btfFieldIterAll, btfFieldIterNext, btfFieldIterNextMember, hsz, hm, hp]
      · have hnil : aheadMembers d vlen (m + 1) 0 = [] := if_neg hm
        rw [hnil]
        simp [btfFieldIterAll, btfFieldIterNext, btfFieldIterNextMember, hsz, hm]

private theorem all_type (d : BtfFieldDesc) (vlen : Nat)
    (hd : d.mSz = 0 ∧ vlen = 0 ∨ d.mSz ≠ 0 ∧ 0 < d.mOffs.length) :
    ∀ (fuel j : Nat), j ≤ d.tOffs.length → btfFieldIterAll fuel
          { desc := d, p := some 0, mIdx := none, offIdx := j, vlen }
        = (d.tOffs.drop j ++ aheadMembers d vlen 0 0).take fuel := by
  intro fuel
  induction fuel with
  | zero => intro j _; simp [btfFieldIterAll]
  | succ fuel ih =>
    intro j hj
    by_cases hjlt : j < d.tOffs.length
    · rw [drop_eq_getElem_cons hjlt, cons_append, take_succ_cons, ← ih (j + 1) hjlt]
      simp [btfFieldIterAll, btfFieldIterNext, hjlt]
    rw [drop_eq_nil_of_le (by omega), nil_append]
    -- the type half is exhausted: the same call continues with members
    rcases hd with ⟨h0, hv⟩ | ⟨hsz, hne⟩
    · have hnil : aheadMembers d vlen 0 0 = [] := by
        rw [hv]
        rfl
      rw [hnil]
      simp [btfFieldIterAll, btfFieldIterNext, btfFieldIterNextMember, hjlt, h0]
    · have h := all_member d hsz hne vlen (fuel + 1) 0 0 (Nat.zero_le _)
      rw [← h]
      simp [btfFieldIterAll, btfFieldIterNext, btfFieldIterNextMember, hjlt, hsz, Nat.ne_of_gt hne]

private theorem aheadMembers_zero (d : BtfFieldDesc) (vlen : Nat) :
    aheadMembers d vlen 0 0 = (List.range vlen).flatMap
      fun m => d.mOffs.map (12 + m * d.mSz + ·) := by
  unfold aheadMembers
  cases vlen with
  | zero => rfl
  | succ n =>
    rw [if_pos (Nat.succ_pos n), range_eq_range', range'_succ, flatMap_cons, drop_zero]
    rfl

/-- No descriptor has a member size without member fields, or member
fields without a size. -/
theorem btfFieldDesc_members (h : btfFieldDesc k kind = some d) :
    d.mSz = 0 ∧ d.mOffs = [] ∨ d.mSz ≠ 0 ∧ 0 < d.mOffs.length := by
  cases k <;> cases kind <;> simp only [btfFieldDesc, Option.some.injEq, reduceCtorEq] at h <;>
    subst h <;> simp

/-- The iterator stops at the slots of the descriptor, in order. -/
theorem btfFieldSlots_eq {t : BtfType} (h : btfFieldDesc k t.kind = some d) :
    btfFieldSlots k t = .ok (d.slots t.vlen) := by
  have hlen : ∀ n, (d.offs n).length = d.tOffs.length + n * d.mOffs.length := by
    simp [BtfFieldDesc.offs]
  have hmain : btfFieldIterAll
      (d.tOffs.length + (if d.mSz = 0 then 0 else t.vlen) * d.mOffs.length + 1)
      { desc := d, p := some 0, mIdx := none, offIdx := 0
        vlen := if d.mSz = 0 then 0 else t.vlen } = d.offs t.vlen := by
    have hm := btfFieldDesc_members h
    rw [all_type d _ (by
      rcases hm with ⟨h0, -⟩ | ⟨h1, h2⟩
      · exact Or.inl ⟨h0, if_pos h0⟩
      · exact Or.inr ⟨h1, h2⟩) _ 0 (Nat.zero_le _),
      aheadMembers_zero, drop_zero]
    rcases hm with ⟨h0, h1⟩ | ⟨h1, h2⟩
    · have hoffs : d.offs t.vlen = d.tOffs := by simp [BtfFieldDesc.offs, h1]
      rw [hoffs, if_pos h0]
      simp only [range_zero, flatMap_nil, append_nil]
      exact take_of_length_le (by omega)
    rw [if_neg h1]
    change (d.offs t.vlen).take _ = _
    rw [take_of_length_le]
    rw [hlen]
    omega
  unfold btfFieldSlots btfFieldIterInit
  rw [h]
  simp only [bind, Except.bind]
  rw [hmain]
  rfl

theorem btfFieldSlots_none {t : BtfType} (h : btfFieldDesc k t.kind = none) :
    btfFieldSlots k t = .error (.err (-EINVAL)) := by
  unfold btfFieldSlots btfFieldIterInit
  rw [h]
  rfl

-- ======== what the table promises

theorem mem_slots : i ∈ d.slots vlen ↔ (∃ o ∈ d.tOffs, i = o / 4)
      ∨ ∃ m < vlen, ∃ o ∈ d.mOffs, i = (12 + m * d.mSz + o) / 4 := by
  simp only [BtfFieldDesc.slots, BtfFieldDesc.offs, map_append,
    mem_append, mem_map, mem_flatMap, mem_range]
  refine or_congr ?_ ⟨?_, ?_⟩
  · exact exists_congr fun o => and_congr_right fun _ => eq_comm
  · rintro ⟨_, ⟨m, hm, o, ho, rfl⟩, rfl⟩
    exact ⟨m, hm, o, ho, rfl⟩
  · rintro ⟨m, hm, o, ho, rfl⟩
    exact ⟨_, ⟨m, hm, o, ho, rfl⟩, rfl⟩

/-- What holds of every row of the tables: the offsets are words, in
order, inside their structure, and none is the info word. -/
private def DescOk (d : BtfFieldDesc) : Prop :=
  d.mSz % 4 = 0 ∧ (∀ o ∈ d.mOffs, o % 4 = 0 ∧ o < d.mSz)
    ∧ (∀ o ∈ d.tOffs, o / 4 ≠ 1 ∧ (d.mOffs ≠ [] → o / 4 < 3))
    ∧ (d.tOffs.map (· / 4)).Pairwise (· < ·)
    ∧ (d.mOffs.map (· / 4)).Pairwise (· < ·)

private instance (d : BtfFieldDesc) : Decidable (DescOk d) :=
  inferInstanceAs (Decidable (_ ∧ _))

private theorem desc_ok (h : btfFieldDesc k kind = some d) : DescOk d := by
  cases k <;> cases kind <;> simp only [btfFieldDesc, Option.some.injEq, reduceCtorEq] at h <;>
    subst h <;> decide

/-- The word number of a member's field. -/
private theorem member_slot (hd : DescOk d) {m o : Nat} (ho : o ∈ d.mOffs) :
    (12 + m * d.mSz + o) / 4 = 3 + m * (d.mSz / 4) + o / 4 ∧ o / 4 < d.mSz / 4 := by
  obtain ⟨hsz, hoffs, -, -, -⟩ := hd
  obtain ⟨ho4, holt⟩ := hoffs o ho
  have hmul : m * d.mSz = 4 * (m * (d.mSz / 4)) := by
    rw [Nat.mul_left_comm, Nat.mul_div_cancel' (Nat.dvd_of_mod_eq_zero hsz)]
  omega

/-- The iterator never stops at the info word, so a traversal cannot
change a kind or a count. -/
theorem slots_ne_info (h : btfFieldDesc k kind = some d) (hi : i ∈ d.slots vlen) : i ≠ 1 := by
  have hd := desc_ok h
  rcases mem_slots.mp hi with ⟨o, ho, rfl⟩ | ⟨m, -, o, ho, rfl⟩
  · exact (hd.2.2.1 o ho).1
  · omega

/-- The slots lie inside a record of the size its kind asks for. -/
theorem slots_lt (h : btfFieldDesc k kind = some d) {n : Nat}
    (hn : btfBswapRestCnt kind vlen = some n) (hi : i ∈ d.slots vlen) :
    i < n + 3 := by
  have hd := desc_ok h
  have hfit : (∀ o ∈ d.tOffs, o / 4 < n + 3) ∧ (d.mOffs ≠ [] → vlen * (d.mSz / 4) ≤ n) := by
    cases k <;> cases kind <;> simp only [btfFieldDesc, btfBswapRestCnt, Option.some.injEq,
        reduceCtorEq] at h hn <;>
      subst h <;> simp <;> omega
  rcases mem_slots.mp hi with ⟨o, ho, rfl⟩ | ⟨m, hm, o, ho, rfl⟩
  · exact hfit.1 o ho
  have hlt := member_slot hd ho (m := m)
  have hcnt := hfit.2 (ne_nil_of_mem ho)
  have hmul : (m + 1) * (d.mSz / 4) ≤ vlen * (d.mSz / 4) :=
    Nat.mul_le_mul_right _ hm
  rw [Nat.add_mul] at hmul
  omega

/-- The slots come in memory order, so no word is visited twice. -/
theorem slots_pairwise (h : btfFieldDesc k kind = some d) (vlen : Nat) :
    (d.slots vlen).Pairwise (· < ·) := by
  have hd := desc_ok h
  obtain ⟨-, -, htm, hts, hms⟩ := hd
  have hmap : d.slots vlen = d.tOffs.map (· / 4) ++ (List.range vlen).flatMap fun m =>
          d.mOffs.map fun o => (12 + m * d.mSz + o) / 4 := by
    simp [BtfFieldDesc.slots, BtfFieldDesc.offs, map_flatMap, Function.comp_def]
  rw [hmap, pairwise_append]
  refine ⟨hts, ?_, ?_⟩
  · rw [pairwise_flatMap]
    refine ⟨fun m _ => ?_, ?_⟩
    · rw [pairwise_map] at hms ⊢
      refine hms.imp_of_mem fun {a b} ha hb hab => ?_
      rw [(member_slot (desc_ok h) ha).1, (member_slot (desc_ok h) hb).1]
      omega
    · refine pairwise_lt_range.imp fun {m m'} hmm x hx y hy => ?_
      obtain ⟨a, ha, rfl⟩ := mem_map.mp hx
      obtain ⟨b, hb, rfl⟩ := mem_map.mp hy
      obtain ⟨ea, la⟩ := member_slot (desc_ok h) ha (m := m)
      obtain ⟨eb, -⟩ := member_slot (desc_ok h) hb (m := m')
      have hmul : (m + 1) * (d.mSz / 4) ≤ m' * (d.mSz / 4) :=
        Nat.mul_le_mul_right _ hmm
      rw [Nat.add_mul] at hmul
      omega
  · intro x hx y hy
    obtain ⟨o, ho, rfl⟩ := mem_map.mp hx
    obtain ⟨m, -, hy⟩ := mem_flatMap.mp hy
    obtain ⟨b, hb, rfl⟩ := mem_map.mp hy
    have hlt := (htm o ho).2 (ne_nil_of_mem hb)
    omega

theorem slots_nodup (h : btfFieldDesc k kind = some d) (vlen : Nat) : (d.slots vlen).Nodup :=
  (slots_pairwise h vlen).imp fun hab => Nat.ne_of_lt hab

/-- No word is both a type ID and a string offset. -/
theorem slots_disjoint {e : BtfFieldDesc} (hd : btfFieldDesc .ids kind = some d)
    (he : btfFieldDesc .strs kind = some e) (hi : i ∈ d.slots vlen) : i ∉ e.slots vlen := by
  intro hi'
  rcases mem_slots.mp hi with ⟨o, ho, rfl⟩ | ⟨m, -, o, ho, rfl⟩ <;>
    rcases mem_slots.mp hi' with ⟨o', ho', heq⟩ | ⟨m', -, o', ho', heq⟩ <;>
    cases kind <;>
    simp only [btfFieldDesc, Option.some.injEq, reduceCtorEq] at hd he <;>
    subst hd <;> subst he <;> simp at ho ho' heq <;> omega

end Libbpf
