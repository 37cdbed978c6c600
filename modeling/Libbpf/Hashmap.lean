/-
The chained hash table of hashmap.c.

A table is its bucket array, each bucket a chain with the most recently
linked entry first; an array that has not been allocated yet is empty.
Keys and values are the `long`s of the source. The hash and equality
callbacks (with their context) are arguments of every operation, because
the string set's callbacks read memory that changes between calls.

Growing walks the old buckets in order and pushes each entry on the
front of its new chain, so it does not keep the relative order of two
entries of one chain. Nothing below depends on that order: what the
callers rely on is which entries a chain holds (`mem_bucket_iff`) and
that an insertion adds one entry and loses none (`link_spec`).
-/
import Mathlib.Algebra.Order.Ring.Int
import Mathlib.Data.List.Basic

namespace Libbpf

open List

variable {e : HashmapEntry} {m : Hashmap} {key h : Nat} {b : List (List HashmapEntry)}

/-- `struct hashmap_entry` less its link. -/
structure HashmapEntry where
  key : Nat
  value : Nat
deriving DecidableEq, Repr

/-- `struct hashmap` less its callbacks; `cap` is the array's length. -/
structure Hashmap where
  buckets : List (List HashmapEntry)
  capBits : Nat
  sz : Nat
deriving DecidableEq, Repr

/-- `enum hashmap_insert_strategy`. -/
inductive InsertStrategy where
  | add
  | set
  | update
  | append
deriving DecidableEq, Repr

/-- Error numbers of errno.h. -/
def ENOENT : Int := 2
def EEXIST : Int := 17

/-- `hash_bits`, LP64: the upper `bits` bits of the shuffled hash. -/
def hashBits (h bits : Nat) : Nat :=
  if bits = 0 then 0
  else h * 11400714819323198485 % 2 ^ 64 / 2 ^ (64 - bits)

namespace Hashmap

/-- `hashmap__init`. -/
def init : Hashmap := { buckets := [], capBits := 0, sz := 0 }

def cap (m : Hashmap) : Nat := m.buckets.length

/-- All entries, in the order `hashmap__for_each_entry` visits them. -/
def entries (m : Hashmap) : List HashmapEntry := m.buckets.flatten

/-- `hashmap_add_entry` on bucket `h`. -/
def addEntry (buckets : List (List HashmapEntry)) (h : Nat)
    (e : HashmapEntry) : List (List HashmapEntry) :=
  buckets.modify h (e :: ·)

/-- `hashmap_needs_to_grow`. -/
def needsToGrow (m : Hashmap) : Bool :=
  m.cap == 0 || (m.sz + 1) * 4 / 3 > m.cap

/-- `hashmap_grow`; `HASHMAP_MIN_CAP_BITS` is 2. -/
def grow (hash : Nat → Nat) (m : Hashmap) : Hashmap :=
  let newCapBits := if m.capBits + 1 < 2 then 2 else m.capBits + 1
  { buckets := m.entries.foldl
      (fun nb e => addEntry nb (hashBits (hash e.key) newCapBits) e)
      (List.replicate (2 ^ newCapBits) [])
    capBits := newCapBits
    sz := m.sz }

/-- `hashmap_find_entry` on bucket `h`. -/
def findEntry (equal : Nat → Nat → Bool) (m : Hashmap) (key h : Nat) : Option HashmapEntry :=
  (m.buckets.getD h []).find? fun e => equal e.key key

/-- What `hashmap_insert` returns and stores through its pointers. -/
structure InsertResult where
  ret : Int
  oldKey : Nat
  oldValue : Nat
  map : Hashmap
deriving DecidableEq

/-- Overwrite the first entry of a chain with an equal key. -/
def setFirst (equal : Nat → Nat → Bool) (key value : Nat) : List HashmapEntry → List HashmapEntry
  | [] => []
  | e :: l =>
    if equal e.key key then ⟨key, value⟩ :: l
    else e :: setFirst equal key value l

/-- The tail of `hashmap_insert`: grow if needed and link a new entry. -/
def link (hash : Nat → Nat) (m : Hashmap) (key value : Nat) : Hashmap :=
  let m := if m.needsToGrow then m.grow hash else m
  { m with
    buckets := addEntry m.buckets (hashBits (hash key) m.capBits) ⟨key, value⟩
    sz := m.sz + 1 }

/-- `hashmap_insert`. -/
def insert (hash : Nat → Nat) (equal : Nat → Nat → Bool) (m : Hashmap)
    (key value : Nat) (strategy : InsertStrategy) : InsertResult :=
  let h := hashBits (hash key) m.capBits
  match strategy, m.findEntry equal key h with
  | .append, _ => ⟨0, 0, 0, m.link hash key value⟩
  | .add, some e => ⟨-EEXIST, e.key, e.value, m⟩
  | .add, none => ⟨0, 0, 0, m.link hash key value⟩
  | .set, some e | .update, some e =>
    ⟨0, e.key, e.value, { m with buckets := m.buckets.modify h (setFirst equal key value) }⟩
  | .set, none => ⟨0, 0, 0, m.link hash key value⟩
  | .update, none => ⟨-ENOENT, 0, 0, m⟩

/-- `hashmap_find`. -/
def find (hash : Nat → Nat) (equal : Nat → Nat → Bool) (m : Hashmap) (key : Nat) : Option Nat :=
  (m.findEntry equal key (hashBits (hash key) m.capBits)).map (·.value)

/-- `hashmap_delete`: the entry unlinked, which `old_key` and `old_value`
report, or nothing and no change. -/
def delete (hash : Nat → Nat) (equal : Nat → Nat → Bool) (m : Hashmap)
    (key : Nat) : Option HashmapEntry × Hashmap :=
  let h := hashBits (hash key) m.capBits
  match m.findEntry equal key h with
  | none => (none, m)
  | some e =>
    (some e, { m with
      buckets := m.buckets.modify h (·.eraseP fun e => equal e.key key)
      sz := m.sz - 1 })

/-- The entries `hashmap__for_each_key_entry` visits, in its order. -/
def keyEntries (hash : Nat → Nat) (equal : Nat → Nat → Bool) (m : Hashmap)
    (key : Nat) : List HashmapEntry :=
  (m.buckets.getD (hashBits (hash key) m.capBits) []).filter
    fun e => equal e.key key

-- ======== invariant

/-- Every entry is in the bucket its key hashes to, and the bucket index
of any key exists once the array does. -/
structure Wf (hash : Nat → Nat) (m : Hashmap) : Prop where
  len : m.buckets = [] ∨ m.buckets.length = 2 ^ m.capBits
  placed : ∀ (i : Nat) (l : List HashmapEntry), m.buckets[i]? = some l →
    ∀ e ∈ l, hashBits (hash e.key) m.capBits = i

theorem hashBits_lt (h bits : Nat) : hashBits h bits < 2 ^ bits := by
  unfold hashBits
  split
  next hb => simp [hb]
  next hb =>
    have hlt : h * 11400714819323198485 % 2 ^ 64 < 2 ^ 64 :=
      Nat.mod_lt _ (by decide)
    rw [Nat.div_lt_iff_lt_mul (Nat.two_pow_pos _), ← Nat.pow_add]
    exact Nat.lt_of_lt_of_le hlt (Nat.pow_le_pow_right (by decide) (by omega))

variable {hash : Nat → Nat} {equal : Nat → Nat → Bool}

theorem wf_init : Wf hash init :=
  ⟨Or.inl rfl, by intro i l h; simp [init] at h⟩

private theorem mem_flatten_iff : e ∈ b.flatten ↔
      ∃ (i : Nat) (l : List HashmapEntry), b[i]? = some l ∧ e ∈ l := by
  rw [mem_flatten]
  constructor
  · rintro ⟨l, hl, he⟩
    obtain ⟨i, hi⟩ := mem_iff_getElem?.mp hl
    exact ⟨i, l, hi, he⟩
  · rintro ⟨i, l, hi, he⟩
    exact ⟨l, mem_of_getElem? hi, he⟩

theorem mem_entries : e ∈ m.entries ↔
      ∃ (i : Nat) (l : List HashmapEntry), m.buckets[i]? = some l ∧ e ∈ l :=
  mem_flatten_iff

/-- A well-formed table with other callbacks that agree on its keys is
well formed. -/
theorem Wf.congr {hash' : Nat → Nat} (hw : Wf hash m)
    (h : ∀ e ∈ m.entries, hash' e.key = hash e.key) : Wf hash' m := by
  refine ⟨hw.len, fun i l hl e he => ?_⟩
  rw [h e (mem_entries.mpr ⟨i, l, hl, he⟩)]
  exact hw.placed i l hl e he

-- ======== linking

theorem getElem?_addEntry (b : List (List HashmapEntry)) (h i : Nat) (e : HashmapEntry) :
    (addEntry b h e)[i]? = if h = i then b[i]?.map (e :: ·) else b[i]? := by
  rw [addEntry, getElem?_modify]
  split <;> simp

/-- One new entry in a bucket that exists: the entries are the old ones
and the new one. -/
theorem mem_flatten_addEntry {x : HashmapEntry} (hlt : h < b.length) :
    x ∈ (addEntry b h e).flatten ↔ x = e ∨ x ∈ b.flatten := by
  simp only [mem_flatten_iff, getElem?_addEntry]
  have hb : b[h]? = some b[h] := getElem?_eq_getElem hlt
  constructor
  · rintro ⟨i, l, hi, hx⟩
    split at hi
    next hi' =>
      subst hi'
      rw [hb, Option.map_some, Option.some.injEq] at hi
      subst hi
      rcases mem_cons.mp hx with hx | hx
      · exact Or.inl hx
      · exact Or.inr ⟨h, b[h], hb, hx⟩
    next => exact Or.inr ⟨i, l, hi, hx⟩
  · rintro (rfl | ⟨i, l, hi, hx⟩)
    · exact ⟨h, x :: b[h], by simp [hb], mem_cons_self⟩
    · by_cases hih : h = i
      · exact ⟨i, e :: l, by simp [hih, hi], mem_cons_of_mem e hx⟩
      · exact ⟨i, l, by simp [hih, hi], hx⟩

/-- Relinking a list of entries into an array: lengths, membership and
placement at once. -/
private theorem relink_spec (hash : Nat → Nat) (bits : Nat) {n : Nat} (hn : n = 2 ^ bits) :
    ∀ (es : List HashmapEntry) (nb : List (List HashmapEntry)), nb.length = n →
      (∀ (i : Nat) (l : List HashmapEntry), nb[i]? = some l →
        ∀ e ∈ l, hashBits (hash e.key) bits = i) →
      let nb' := es.foldl (fun nb e => addEntry nb (hashBits (hash e.key) bits) e) nb
      nb'.length = n ∧ (∀ (i : Nat) (l : List HashmapEntry), nb'[i]? = some l →
            ∀ e ∈ l, hashBits (hash e.key) bits = i)
        ∧ ∀ x, x ∈ nb'.flatten ↔ x ∈ es ∨ x ∈ nb.flatten := by
  intro es
  induction es with
  | nil =>
    intro nb hlen hpl
    exact ⟨hlen, hpl, by simp⟩
  | cons e es ih =>
    intro nb hlen hpl
    have hh : hashBits (hash e.key) bits < nb.length := by
      rw [hlen, hn]
      exact hashBits_lt _ _
    have hpl' : ∀ (i : Nat) (l : List HashmapEntry),
        (addEntry nb (hashBits (hash e.key) bits) e)[i]? = some l →
        ∀ x ∈ l, hashBits (hash x.key) bits = i := by
      intro i l hl x hx
      rw [getElem?_addEntry] at hl
      split at hl
      next hi =>
        cases hb : nb[i]? with
        | none => rw [hb] at hl; cases hl
        | some l₀ =>
          rw [hb, Option.map_some, Option.some.injEq] at hl
          subst hl
          rcases mem_cons.mp hx with rfl | hx
          · exact hi
          · exact hpl i l₀ hb x hx
      next => exact hpl i l hl x hx
    obtain ⟨h1, h2, h3⟩ := ih (addEntry nb (hashBits (hash e.key) bits) e)
      (by rw [addEntry, length_modify, hlen]) hpl'
    refine ⟨h1, h2, fun x => ?_⟩
    rw [foldl_cons, h3, mem_flatten_addEntry hh, mem_cons]
    constructor
    · rintro (h | h | h)
      · exact Or.inl (Or.inr h)
      · exact Or.inl (Or.inl h)
      · exact Or.inr h
    · rintro ((h | h) | h)
      · exact Or.inr (Or.inl h)
      · exact Or.inl h
      · exact Or.inr (Or.inr h)

/-- Growing keeps the table well formed and its entries. -/
theorem grow_spec (hash : Nat → Nat) (m : Hashmap) :
    Wf hash (m.grow hash) ∧ (m.grow hash).buckets ≠ []
      ∧ ∀ x, x ∈ (m.grow hash).entries ↔ x ∈ m.entries := by
  have h := relink_spec hash (if m.capBits + 1 < 2 then 2 else m.capBits + 1) rfl
    m.entries (List.replicate (2 ^ (if m.capBits + 1 < 2 then 2 else m.capBits + 1)) [])
    (by simp) (by
      intro i l hl e he
      have hnil := eq_of_mem_replicate (mem_of_getElem? hl)
      rw [hnil] at he
      cases he)
  obtain ⟨h1, h2, h3⟩ := h
  refine ⟨⟨Or.inr h1, h2⟩, ?_, fun x => ?_⟩
  · intro hnil
    have hz : (m.grow hash).buckets.length = 0 := by rw [hnil]; rfl
    have hpos := Nat.two_pow_pos (if m.capBits + 1 < 2 then 2 else m.capBits + 1)
    have : (m.grow hash).buckets.length = 2 ^ (if m.capBits + 1 < 2 then 2 else m.capBits + 1) := h1
    omega
  · have := h3 x
    rw [show (m.grow hash).entries = (m.grow hash).buckets.flatten from rfl]
    refine this.trans ?_
    constructor
    · rintro (h | h)
      · exact h
      · rw [mem_flatten] at h
        obtain ⟨l, hl, hx⟩ := h
        rw [eq_of_mem_replicate hl] at hx
        cases hx
    · exact Or.inl

/-- Linking an entry keeps the table well formed and adds exactly that
entry. -/
theorem link_spec (hw : Wf hash m) (key value : Nat) : Wf hash (m.link hash key value)
      ∧ ∀ x, x ∈ (m.link hash key value).entries ↔ x = ⟨key, value⟩ ∨ x ∈ m.entries := by
  -- the table that receives the entry: allocated, and with m's entries
  obtain ⟨m', hm', hw', hne, hent⟩ : ∃ m' : Hashmap,
      (if m.needsToGrow then m.grow hash else m) = m' ∧ Wf hash m'
        ∧ m'.buckets ≠ [] ∧ ∀ x, x ∈ m'.entries ↔ x ∈ m.entries := by
    by_cases hg : m.needsToGrow = true
    · obtain ⟨h1, h2, h3⟩ := grow_spec hash m
      exact ⟨_, if_pos hg, h1, h2, h3⟩
    refine ⟨m, if_neg hg, hw, ?_, fun x => Iff.rfl⟩
    intro hnil
    apply hg
    simp [needsToGrow, cap, hnil]
  have hlen : m'.buckets.length = 2 ^ m'.capBits := by
    rcases hw'.len with h | h
    · exact absurd h hne
    · exact h
  have hh : hashBits (hash key) m'.capBits < m'.buckets.length := by
    rw [hlen]
    exact hashBits_lt _ _
  have hlink : m.link hash key value = { m' with
      buckets := addEntry m'.buckets (hashBits (hash key) m'.capBits)
        ⟨key, value⟩
      sz := m'.sz + 1 } := by
    unfold link
    rw [hm']
  rw [hlink]
  refine ⟨⟨Or.inr ?_, ?_⟩, fun x => ?_⟩
  · rw [addEntry, length_modify, hlen]
  · intro i l hl e he
    rw [getElem?_addEntry] at hl
    split at hl
    next hi =>
      cases hb : m'.buckets[i]? with
      | none => rw [hb] at hl; cases hl
      | some l₀ =>
        rw [hb, Option.map_some, Option.some.injEq] at hl
        subst hl
        rcases mem_cons.mp he with rfl | he
        · exact hi
        · exact hw'.placed i l₀ hb e he
    next => exact hw'.placed i l hl e he
  · rw [← hent x]
    exact mem_flatten_addEntry hh

-- ======== lookup

/-- A chain lookup sees every entry with that key. -/
theorem mem_bucket_iff (hw : Wf hash m) (hk : hash e.key = hash key) :
    e ∈ m.buckets.getD (hashBits (hash key) m.capBits) [] ↔ e ∈ m.entries := by
  rw [getD_eq_getElem?_getD]
  constructor
  · intro he
    cases hb : m.buckets[hashBits (hash key) m.capBits]? with
    | none => rw [hb] at he; cases he
    | some l => rw [hb] at he; exact mem_entries.mpr ⟨_, l, hb, he⟩
  · intro he
    obtain ⟨i, l, hl, he⟩ := mem_entries.mp he
    have hi := hw.placed i l hl e he
    rw [hk] at hi
    rw [hi, hl]
    exact he

theorem findEntry_some (hf : m.findEntry equal key h = some e) :
    e ∈ m.entries ∧ equal e.key key = true := by
  refine ⟨?_, by simpa using find?_some hf⟩
  have he := mem_of_find?_eq_some hf
  rw [getD_eq_getElem?_getD] at he
  cases hb : m.buckets[h]? with
  | none => rw [hb] at he; cases he
  | some l => rw [hb] at he; exact mem_entries.mpr ⟨h, l, hb, he⟩

theorem findEntry_none (hw : Wf hash m)
    (hf : m.findEntry equal key (hashBits (hash key) m.capBits) = none) (he : e ∈ m.entries)
    (hcompat : equal e.key key = true → hash e.key = hash key) :
    equal e.key key = false := by
  unfold findEntry at hf
  rw [find?_eq_none] at hf
  by_contra hq
  rw [Bool.not_eq_false] at hq
  exact hf e ((mem_bucket_iff hw (hcompat hq)).mpr he) hq

end Hashmap

end Libbpf
