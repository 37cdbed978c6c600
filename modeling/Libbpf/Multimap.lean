/-
The hash table as an association multimap.

A `Multimap` is the list of the entries a client has stored, the most
recently inserted first; `find`, `set`, `update` and `delete` mean the
first entry with the key, which is what hashmap.h documents. The table
keeps such a list per key, in its chains, and every operation acts on it
as on the multimap (`HashmapCall.run_spec`), with one exception: growing
the table turns the entries of every key around (`keyEntries_grow`). So a
table and its multimap agree for as long as each growth finds the entries
of every key in an order that reads the same backwards
(`hashmap_run_iff`), in particular while no key has two entries.

What does not depend on the order holds in every run: the size counts the
entries, and a call changes one entry of its key (`run_bag`).
-/
import Mathlib.Data.List.Perm.Basic
import Mathlib.Data.List.Count
import Mathlib.Data.List.Induction
import Libbpf.Hashmap

namespace Libbpf

open List

variable {e : HashmapEntry} {f : List HashmapEntry → List HashmapEntry} {sz n : Nat}
  {l : List HashmapEntry} {m : Hashmap} {mm : Multimap} {cs : List HashmapCall} {c : HashmapCall}

-- ======== the multimap

/-- What a client has stored, the most recently inserted entry first. -/
abbrev Multimap := List HashmapEntry

/-- A call of the hash table's interface. -/
inductive HashmapCall where
  | insert (key value : Nat) (strategy : InsertStrategy)
  | delete (key : Nat)
  | find (key : Nat)
deriving DecidableEq, Repr

/-- What a call returns and stores through its pointers. -/
inductive HashmapReturn where
  | inserted (ret : Int) (oldKey oldValue : Nat)
  | deleted (old : Option HashmapEntry)
  | found (value : Option Nat)
deriving DecidableEq, Repr

/-- The call on the table. -/
def HashmapCall.run (hash : Nat → Nat) (equal : Nat → Nat → Bool)
    (m : Hashmap) : HashmapCall → HashmapReturn × Hashmap
  | .insert key value strategy =>
    let r := m.insert hash equal key value strategy
    (.inserted r.ret r.oldKey r.oldValue, r.map)
  | .delete key =>
    let r := m.delete hash equal key
    (.deleted r.1, r.2)
  | .find key => (.found (m.find hash equal key), m)

/-- The call on the multimap: what the header says it does. -/
def HashmapCall.spec (equal : Nat → Nat → Bool) (mm : Multimap) :
    HashmapCall → HashmapReturn × Multimap
  | .insert key value strategy =>
    match strategy, mm.find? fun e => equal e.key key with
    | .append, _ => (.inserted 0 0 0, ⟨key, value⟩ :: mm)
    | .add, some e => (.inserted (-EEXIST) e.key e.value, mm)
    | .add, none => (.inserted 0 0 0, ⟨key, value⟩ :: mm)
    | .set, some e | .update, some e =>
      (.inserted 0 e.key e.value, Hashmap.setFirst equal key value mm)
    | .set, none => (.inserted 0 0 0, ⟨key, value⟩ :: mm)
    | .update, none => (.inserted (-ENOENT) 0 0, mm)
  | .delete key =>
    match mm.find? fun e => equal e.key key with
    | none => (.deleted none, mm)
    | some e => (.deleted (some e), mm.eraseP fun e => equal e.key key)
  | .find key =>
    (.found ((mm.find? fun e => equal e.key key).map (·.value)), mm)

/-- The callbacks a hash table can be used with: an equivalence, and equal
keys hash equally. -/
structure Callbacks (hash : Nat → Nat) (equal : Nat → Nat → Bool) : Prop where
  refl : ∀ a, equal a a = true
  symm : ∀ {a b}, equal a b = true → equal b a = true
  trans : ∀ {a b c}, equal a b = true → equal b c = true → equal a c = true
  hash_eq : ∀ {a b}, equal a b = true → hash a = hash b

namespace Hashmap

variable {hash : Nat → Nat} {equal : Nat → Nat → Bool}

-- ======== one key's entries in a table

/-- An allocated table has a bucket for every key. -/
theorem Wf.bucket_lt (hw : Wf hash m) (hne : m.buckets ≠ [])
    (key : Nat) : hashBits (hash key) m.capBits < m.buckets.length := by
  rw [hw.len.resolve_left hne]
  exact hashBits_lt _ _

/-- The entries of one key are those of one bucket. -/
private theorem filter_flatten_of_bucket {p : HashmapEntry → Bool} :
    ∀ (b : List (List HashmapEntry)) (h : Nat),
      (∀ (i : Nat) (l : List HashmapEntry), b[i]? = some l → i ≠ h → l.filter p = []) →
      b.flatten.filter p = (b.getD h []).filter p := by
  intro b
  induction b with
  | nil => intro h _; simp
  | cons l b ih =>
    intro h hout
    rw [flatten_cons, filter_append]
    cases h with
    | zero =>
      have hrest : b.flatten.filter p = [] := by
        rw [filter_eq_nil_iff]
        intro e he
        obtain ⟨l', hl', he⟩ := mem_flatten.mp he
        obtain ⟨i, hi⟩ := mem_iff_getElem?.mp hl'
        have hnil := hout (i + 1) l' (by simpa using hi) (by omega)
        exact filter_eq_nil_iff.mp hnil e he
      rw [hrest, append_nil]
      rfl
    | succ h =>
      rw [hout 0 l rfl (by omega), nil_append, ih h fun i l' hl' hne =>
          hout (i + 1) l' (by simpa using hl') (by omega)]
      rfl

/-- What a walk over one key's chain sees is that key's part of all the
entries. -/
theorem keyEntries_eq_filter (hc : Callbacks hash equal) (hw : Wf hash m) (key : Nat) :
    m.keyEntries hash equal key = m.entries.filter fun e => equal e.key key := by
  refine (filter_flatten_of_bucket m.buckets _ fun i l hl hne => ?_).symm
  rw [filter_eq_nil_iff]
  intro e he hq
  apply hne
  rw [← hw.placed i l hl e he, hc.hash_eq hq]

theorem findEntry_eq_head? (m : Hashmap) (key : Nat) :
    m.findEntry equal key (hashBits (hash key) m.capBits)
      = (m.keyEntries hash equal key).head? := by
  rw [findEntry, keyEntries, head?_filter]

/-- The chains after relinking a list of entries: each chain has got its
share of the list, last linked first. -/
private theorem getElem?_relink (bits : Nat) :
    ∀ (es : List HashmapEntry) (nb : List (List HashmapEntry)) (i : Nat),
      (es.foldl (fun nb e => addEntry nb (hashBits (hash e.key) bits) e) nb)[i]?
        = nb[i]?.map ((es.filter fun e =>
            hashBits (hash e.key) bits == i).reverse ++ ·) := by
  intro es
  induction es with
  | nil => intro nb i; simp
  | cons e es ih =>
    intro nb i
    rw [foldl_cons, ih, getElem?_addEntry]
    by_cases hi : hashBits (hash e.key) bits = i
    · rw [if_pos hi, filter_cons_of_pos (by simpa using hi), Option.map_map]
      congr 1
      funext l
      simp
    · rw [if_neg hi, filter_cons_of_neg (by simpa using hi)]

/-- Growing turns the entries of every key around. -/
theorem keyEntries_grow (hc : Callbacks hash equal) (hw : Wf hash m) (key : Nat) :
    (m.grow hash).keyEntries hash equal key = (m.keyEntries hash equal key).reverse := by
  rw [keyEntries_eq_filter hc hw, keyEntries, grow]
  rw [getD_eq_getElem?_getD, getElem?_relink,
    getElem?_replicate_of_lt (hashBits_lt _ _), Option.map_some,
    Option.getD_some, append_nil, filter_reverse,
    filter_filter]
  congr 1
  apply filter_congr
  intro e _
  by_cases hq : equal e.key key = true
  · simp [hc.hash_eq hq]
  · simp [hq]

/-- One chain apart, an array holds the same entries after a change of
that chain. -/
private theorem perm_modify : ∀ (b : List (List HashmapEntry)) (h : Nat), h < b.length →
      ∃ rest, b.flatten.Perm (b.getD h [] ++ rest) ∧ ∀ f : List HashmapEntry → List HashmapEntry,
            (b.modify h f).flatten.Perm (f (b.getD h []) ++ rest) := by
  intro b
  induction b with
  | nil => intro h hlt; simp at hlt
  | cons l b ih =>
    intro h hlt
    cases h with
    | zero => exact ⟨b.flatten, List.Perm.refl _, fun f => List.Perm.refl _⟩
    | succ h =>
      obtain ⟨rest, hold, hnew⟩ := ih h (by simpa using hlt)
      refine ⟨l ++ rest, ?_, fun f => ?_⟩
      · exact (hold.append_left l).trans (perm_append_comm_assoc _ _ _)
      · exact ((hnew f).append_left l).trans (perm_append_comm_assoc _ _ _)

/-- A table that is well formed and counts its entries. -/
structure Held (hash : Nat → Nat) (m : Hashmap) : Prop where
  wf : Wf hash m
  count : m.sz = m.entries.length

theorem held_init : Held hash init := ⟨wf_init, rfl⟩

private theorem perm_relink (bits : Nat) :
    ∀ (es : List HashmapEntry) (nb : List (List HashmapEntry)), nb.length = 2 ^ bits →
      (es.foldl (fun nb e => addEntry nb (hashBits (hash e.key) bits) e)
          nb).flatten.Perm (es ++ nb.flatten) := by
  intro es
  induction es with
  | nil => intro nb _; exact List.Perm.refl _
  | cons e es ih =>
    intro nb hlen
    have hlt : hashBits (hash e.key) bits < nb.length := by
      rw [hlen]
      exact hashBits_lt _ _
    obtain ⟨rest, hold, hnew⟩ := perm_modify nb _ hlt
    have hone : (addEntry nb (hashBits (hash e.key) bits) e).flatten.Perm
        (e :: nb.flatten) := (hnew _).trans (hold.symm.cons e)
    refine (ih _ (by simpa [addEntry] using hlen)).trans ?_
    exact (hone.append_left es).trans perm_middle

/-- Growing keeps the entries. -/
theorem perm_grow (m : Hashmap) : (m.grow hash).entries.Perm m.entries := by
  refine (perm_relink _ m.entries (List.replicate _ []) ?_).trans ?_
  · exact length_replicate
  · rw [flatten_replicate_nil, append_nil]

/-- The table a new entry is linked into: allocated, with the entries of
the old one, turned around if it was grown for this. -/
private theorem linked_into (hc : Callbacks hash equal) (hm : Held hash m) :
    ∃ m' : Hashmap, (if m.needsToGrow then m.grow hash else m) = m'
      ∧ Held hash m' ∧ m'.buckets ≠ [] ∧ m'.entries.Perm m.entries
      ∧ ∀ key, m'.keyEntries hash equal key
          = if m.needsToGrow then (m.keyEntries hash equal key).reverse
            else m.keyEntries hash equal key := by
  by_cases hg : m.needsToGrow = true
  · obtain ⟨hw, hne, -⟩ := grow_spec hash m
    refine ⟨m.grow hash, if_pos hg, ⟨hw, ?_⟩, hne, perm_grow m, fun key => ?_⟩
    · rw [(perm_grow m).length_eq]
      exact hm.count
    · rw [if_pos hg, keyEntries_grow hc hm.wf]
  refine ⟨m, if_neg hg, hm, ?_, List.Perm.refl _, fun key => by rw [if_neg hg]⟩
  intro hnil
  apply hg
  simp [needsToGrow, cap, hnil]

-- ======== changing one chain

/-- A change of a list of entries that, seen by any one key, is the same
change of that key's entries if they are those of `key`, and none
otherwise. -/
def ActsOn (equal : Nat → Nat → Bool) (key : Nat)
    (f : List HashmapEntry → List HashmapEntry) : Prop :=
  ∀ (l : List HashmapEntry) (j : Nat), (f l).filter (fun e => equal e.key j)
      = if equal key j then f (l.filter fun e => equal e.key j)
        else l.filter fun e => equal e.key j

theorem actsOn_cons (key value : Nat) : ActsOn equal key (⟨key, value⟩ :: ·) := by
  intro l j
  rw [filter_cons]

theorem actsOn_setFirst (hc : Callbacks hash equal) (key value : Nat) :
    ActsOn equal key (setFirst equal key value) := by
  intro l j
  induction l with
  | nil => simp [setFirst]
  | cons e l ih =>
    -- an entry of `key` passes the filter exactly if `key` does
    have hiff : equal e.key key = true → equal e.key j = equal key j := by
      intro hq
      rw [Bool.eq_iff_iff]
      exact ⟨hc.trans (hc.symm hq), hc.trans hq⟩
    by_cases hq : equal e.key key = true
    · rw [setFirst, if_pos hq, filter_cons, filter_cons, hiff hq]
      by_cases hj : equal key j = true
      · rw [if_pos hj, if_pos hj, if_pos hj, setFirst, if_pos hq]
      · rw [if_neg hj, if_neg hj, if_neg hj]
    rw [setFirst, if_neg hq, filter_cons, filter_cons, ih]
    by_cases he : equal e.key j = true
    · have hj : ¬ equal key j = true := fun hj => hq (hc.trans he (hc.symm hj))
      rw [if_pos he, if_pos he, if_neg hj, if_neg hj]
    · rw [if_neg he, if_neg he]

theorem actsOn_eraseP (hc : Callbacks hash equal) (key : Nat) :
    ActsOn equal key (·.eraseP fun e => equal e.key key) := by
  intro l j
  dsimp only
  induction l with
  | nil => simp
  | cons e l ih =>
    have hiff : equal e.key key = true → equal e.key j = equal key j := by
      intro hq
      rw [Bool.eq_iff_iff]
      exact ⟨hc.trans (hc.symm hq), hc.trans hq⟩
    rw [eraseP_cons, Bool.cond_eq_ite, filter_cons]
    by_cases hq : equal e.key key = true
    · rw [if_pos hq, hiff hq]
      by_cases hj : equal key j = true
      · rw [if_pos hj, if_pos hj, eraseP_cons, Bool.cond_eq_ite, if_pos hq]
      · rw [if_neg hj, if_neg hj]
    rw [if_neg hq, filter_cons, ih]
    by_cases he : equal e.key j = true
    · have hj : ¬ equal key j = true := fun hj => hq (hc.trans he (hc.symm hj))
      rw [if_pos he, if_pos he, if_neg hj, if_neg hj]
    · rw [if_neg he, if_neg he]

/-- What a change of the chain of `key` does to the entries of each key. -/
theorem keyEntries_modify (hc : Callbacks hash equal) {key : Nat}
    (hf : ActsOn equal key f) (hne : m.buckets ≠ []) (hw : Wf hash m) (sz j : Nat) :
    keyEntries hash equal { m with
        buckets := m.buckets.modify (hashBits (hash key) m.capBits) f
        sz := sz } j
      = if equal key j then f (m.keyEntries hash equal j)
        else m.keyEntries hash equal j := by
  rw [keyEntries, keyEntries]
  dsimp only
  rw [← hf, getD_eq_getElem?_getD, getD_eq_getElem?_getD, getElem?_modify]
  by_cases hh : hashBits (hash key) m.capBits = hashBits (hash j) m.capBits
  · rw [getElem?_eq_getElem (hw.bucket_lt hne j)]
    simp [hh]
  · have hq : ¬ equal key j = true := fun hq => hh (by rw [hc.hash_eq hq])
    rw [hf, if_neg hq]
    simp [hh]

/-- Changing the chain of `key` keeps the table well formed if each entry
of the new chain is an old one or belongs there. -/
theorem wf_modify (hw : Wf hash m) {key : Nat}
    (hf : ∀ l, ∀ e ∈ f l, e ∈ l ∨ hash e.key = hash key) :
    Wf hash { m with
      buckets := m.buckets.modify (hashBits (hash key) m.capBits) f
      sz := sz } := by
  refine ⟨?_, fun i l hl e he => ?_⟩
  · rcases hw.len with hnil | hlen
    · exact Or.inl (by simp [hnil])
    · exact Or.inr (by rw [length_modify, hlen])
  · dsimp only at hl ⊢
    rw [getElem?_modify] at hl
    cases hb : m.buckets[i]? with
    | none => simp [hb] at hl
    | some l₀ =>
      by_cases hi : hashBits (hash key) m.capBits = i
      · simp only [hb, hi, if_true, Option.map_eq_map, Option.map_some, Option.some.injEq] at hl
        subst hl
        rcases hf l₀ e he with he | he
        · exact hw.placed i l₀ hb e he
        · rw [he, hi]
      · simp only [hb, hi, if_false, Option.map_eq_map, Option.map_some, Option.some.injEq] at hl
        subst hl
        exact hw.placed i l₀ hb e he

theorem mem_setFirst {key value : Nat} (he : e ∈ setFirst equal key value l) :
    e ∈ l ∨ e = ⟨key, value⟩ := by
  induction l with
  | nil => cases he
  | cons a l ih =>
    rw [setFirst] at he
    split at he
    · rcases mem_cons.mp he with rfl | he
      · exact Or.inr rfl
      · exact Or.inl (mem_cons_of_mem a he)
    · rcases mem_cons.mp he with rfl | he
      · exact Or.inl mem_cons_self
      · exact (ih he).imp (mem_cons_of_mem a) id

theorem length_setFirst (key value : Nat) (l : List HashmapEntry) :
    (setFirst equal key value l).length = l.length := by
  induction l with
  | nil => rfl
  | cons a l ih =>
    rw [setFirst]
    split
    · rfl
    · rw [length_cons, length_cons, ih]

/-- A found entry is in an allocated table. -/
theorem buckets_ne_nil_of_find {key h : Nat}
    (hf : m.findEntry equal key h = some e) : m.buckets ≠ [] := by
  intro hnil
  rw [findEntry, hnil] at hf
  simp at hf

-- ======== the refinement

/-- The table `m` holds the multimap `mm`, in its order. -/
structure Refines (hash : Nat → Nat) (equal : Nat → Nat → Bool) (m : Hashmap)
    (mm : Multimap) : Prop extends Held hash m where
  order : ∀ key, m.keyEntries hash equal key = mm.filter fun e => equal e.key key

theorem refines_init : Refines hash equal init [] :=
  ⟨held_init, fun _ => rfl⟩

/-- Entry by entry, the table holds what the multimap does. -/
theorem Refines.perm (hc : Callbacks hash equal)
    (h : Refines hash equal m mm) : m.entries.Perm mm := by
  rw [perm_iff_count]
  intro e
  have hsame := h.order e.key
  rw [keyEntries_eq_filter hc h.wf] at hsame
  have hall : ∀ l : List HashmapEntry, (l.filter fun x => equal x.key e.key).count e = l.count e :=
    fun l => count_filter (p := fun x : HashmapEntry => equal x.key e.key) (hc.refl e.key)
  rw [← hall, hsame, hall]

theorem Refines.size (hc : Callbacks hash equal)
    (h : Refines hash equal m mm) : m.sz = mm.length := by
  rw [h.count, (h.perm hc).length_eq]

theorem Refines.findEntry_eq (h : Refines hash equal m mm) (key : Nat) :
    m.findEntry equal key (hashBits (hash key) m.capBits) = mm.find? fun e => equal e.key key := by
  rw [findEntry_eq_head?, h.order, head?_filter]

/-- The same change of the chain of `key` and of the multimap. -/
theorem Refines.modify (hc : Callbacks hash equal)
    (h : Refines hash equal m mm) {key : Nat} (hf : ActsOn equal key f)
    (hne : m.buckets ≠ []) (hm : Held hash { m with
      buckets := m.buckets.modify (hashBits (hash key) m.capBits) f
      sz := sz }) :
    Refines hash equal { m with
      buckets := m.buckets.modify (hashBits (hash key) m.capBits) f
      sz := sz } (f mm) := by
  refine ⟨hm, fun j => ?_⟩
  rw [keyEntries_modify hc hf hne h.wf, hf, h.order]

-- -------- one operation

/-- A changed chain of a well-formed table is counted right if the size is
moved by as much as the chain's length. -/
private theorem Held.modify (hm : Held hash m) {key : Nat} (hne : m.buckets ≠ [])
    (hf : ∀ l, ∀ e ∈ f l, e ∈ l ∨ hash e.key = hash key)
    (hsz : ∀ l, l = m.buckets.getD (hashBits (hash key) m.capBits) [] →
      sz + l.length = m.sz + (f l).length) :
    Held hash { m with
      buckets := m.buckets.modify (hashBits (hash key) m.capBits) f
      sz := sz } := by
  refine ⟨wf_modify hm.wf hf, ?_⟩
  obtain ⟨rest, hold, hnew⟩ := perm_modify m.buckets _ (hm.wf.bucket_lt hne key)
  have hmoved := hsz _ rfl
  have hcount := hm.count
  rw [entries, hold.length_eq, length_append] at hcount
  rw [entries, (hnew f).length_eq, length_append]
  dsimp only
  omega

theorem Held.setFirst (equal : Nat → Nat → Bool)
    (hm : Held hash m) (key value : Nat) (hne : m.buckets ≠ []) :
    Held hash { m with
      buckets := m.buckets.modify (hashBits (hash key) m.capBits) (setFirst equal key value) } := by
  refine hm.modify hne (fun l e he => ?_) fun l _ => by rw [length_setFirst]
  rcases mem_setFirst he with he | rfl
  · exact Or.inl he
  · exact Or.inr rfl

theorem Held.eraseP (hm : Held hash m) {key : Nat}
    (hf : m.findEntry equal key (hashBits (hash key) m.capBits) = some e) :
    Held hash { m with
      buckets := m.buckets.modify (hashBits (hash key) m.capBits)
        (·.eraseP fun e => equal e.key key)
      sz := m.sz - 1 } := by
  have hmem := (findEntry_some hf).1
  have hpos : 0 < m.sz := by
    rw [hm.count]
    exact length_pos_of_mem hmem
  refine hm.modify (buckets_ne_nil_of_find hf) (fun l e he => Or.inl (mem_of_mem_eraseP he)) ?_
  intro l hl
  rw [findEntry, ← hl] at hf
  have hlen := length_eraseP_of_mem (mem_of_find?_eq_some hf) (find?_some hf)
  have hlpos := length_pos_of_mem (mem_of_find?_eq_some hf)
  omega

/-- Linking a new entry puts it before the entries of its key, which a
growth has turned around. -/
theorem link_cases (hc : Callbacks hash equal) (hm : Held hash m) (key value : Nat) :
    Held hash (m.link hash key value)
      ∧ (m.link hash key value).entries.Perm (⟨key, value⟩ :: m.entries)
      ∧ ∀ j, (m.link hash key value).keyEntries hash equal j
        = (if equal key j then [⟨key, value⟩] else [])
          ++ (if m.needsToGrow then (m.keyEntries hash equal j).reverse
              else m.keyEntries hash equal j) := by
  obtain ⟨m', hm', hheld, hne, hent, hkeys⟩ := linked_into hc hm
  have hlink : m.link hash key value = { m' with
      buckets := m'.buckets.modify (hashBits (hash key) m'.capBits) (⟨key, value⟩ :: ·)
      sz := m'.sz + 1 } := by
    unfold link addEntry
    rw [hm']
  rw [hlink]
  refine ⟨?_, ?_, ?_⟩
  · refine hheld.modify hne (fun l e he => ?_) fun l _ => ?_
    · rcases mem_cons.mp he with rfl | he
      · exact Or.inr rfl
      · exact Or.inl he
    · rw [length_cons]
      omega
  · obtain ⟨rest, hold, hnew⟩ := perm_modify m'.buckets _ (hheld.wf.bucket_lt hne key)
    exact (hnew _).trans ((hold.symm.trans hent).cons _)
  · intro j
    rw [keyEntries_modify hc (actsOn_cons key value) hne hheld.wf, hkeys]
    split <;> simp

/-- A new entry refines the multimap with that entry in front exactly if
no growth has changed the order. -/
theorem Refines.link_iff (hc : Callbacks hash equal)
    (h : Refines hash equal m mm) (key value : Nat) :
    Refines hash equal (m.link hash key value) (⟨key, value⟩ :: mm) ↔ (m.needsToGrow = true → ∀ j,
        (m.keyEntries hash equal j).reverse = m.keyEntries hash equal j) := by
  obtain ⟨hheld, -, hkeys⟩ := link_cases hc h.toHeld key value
  have hcons : ∀ j, (⟨key, value⟩ :: mm : Multimap).filter (fun e => equal e.key j)
        = (if equal key j then [⟨key, value⟩] else []) ++ m.keyEntries hash equal j := by
    intro j
    rw [h.order, filter_cons]
    split <;> rfl
  constructor
  · intro hr hg j
    have := hr.order j
    rw [hkeys, hcons, if_pos hg] at this
    exact append_cancel_left this
  · intro hcalm
    refine ⟨hheld, fun j => ?_⟩
    rw [hkeys, hcons]
    by_cases hg : m.needsToGrow = true
    · rw [if_pos hg, hcalm hg j]
    · rw [if_neg hg]

end Hashmap

-- ======== the runs

/-- The call links a new entry. -/
def HashmapCall.links (hash : Nat → Nat) (equal : Nat → Nat → Bool)
    (m : Hashmap) : HashmapCall → Bool
  | .insert key _ strategy =>
    match strategy, m.findEntry equal key (hashBits (hash key) m.capBits) with
    | .append, _ | .add, none | .set, none => true
    | _, _ => false
  | _ => false

/-- If the call grows the table, the entries of every key read the same
from either end; so they do if no key has two entries. -/
def HashmapCall.Calm (hash : Nat → Nat) (equal : Nat → Nat → Bool)
    (m : Hashmap) (c : HashmapCall) : Prop :=
  c.links hash equal m = true → m.needsToGrow = true → ∀ key, (m.keyEntries hash equal key).reverse
      = m.keyEntries hash equal key

open Hashmap

variable {hash : Nat → Nat} {equal : Nat → Nat → Bool}

/-- One call on a table and on the multimap it holds: the same return, and
still the same contents if the call is calm, and only then. -/
theorem HashmapCall.run_spec (hc : Callbacks hash equal)
    (h : Refines hash equal m mm) (c : HashmapCall) :
    (c.run hash equal m).1 = (c.spec equal mm).1
      ∧ (Refines hash equal (c.run hash equal m).2 (c.spec equal mm).2 ↔ c.Calm hash equal m) := by
  cases c with
  | insert key value strategy =>
    have hfind := h.findEntry_eq key
    -- a new entry, and an overwritten one
    have hlink := h.link_iff hc key value
    have hset : ∀ e, m.findEntry equal key (hashBits (hash key) m.capBits) = some e →
        Refines hash equal { m with
          buckets := m.buckets.modify (hashBits (hash key) m.capBits)
            (setFirst equal key value) } (setFirst equal key value mm) := by
      intro e he
      have hne := buckets_ne_nil_of_find he
      exact h.modify hc (actsOn_setFirst hc key value) hne (h.toHeld.setFirst equal key value hne)
    simp only [run, spec, Calm, links, Hashmap.insert]
    cases hf : m.findEntry equal key (hashBits (hash key) m.capBits) with
    | none =>
      rw [← hfind, hf]
      cases strategy <;> simp [hlink, h]
    | some e =>
      rw [← hfind, hf]
      cases strategy <;> simp [hlink, h, hset e hf]
  | delete key =>
    have hfind := h.findEntry_eq key
    simp only [run, spec, Calm, links, Hashmap.delete]
    cases hf : m.findEntry equal key (hashBits (hash key) m.capBits) with
    | none =>
      rw [← hfind, hf]
      simp [h]
    | some e =>
      rw [← hfind, hf]
      have := h.modify hc (actsOn_eraseP hc key) (buckets_ne_nil_of_find hf) (h.toHeld.eraseP hf)
      simp [this]
  | find key =>
    simp only [run, spec, Calm, links, Hashmap.find, h.findEntry_eq key]
    simp [h]

-- -------- whole runs

/-- A new table after a sequence of calls. -/
def Hashmap.after (hash : Nat → Nat) (equal : Nat → Nat → Bool) (cs : List HashmapCall) : Hashmap :=
  cs.foldl (fun m c => (c.run hash equal m).2) Hashmap.init

/-- What those calls store. -/
def Multimap.after (equal : Nat → Nat → Bool) (cs : List HashmapCall) : Multimap :=
  cs.foldl (fun mm c => (c.spec equal mm).2) []

theorem Hashmap.after_take_succ (hn : cs[n]? = some c) : Hashmap.after hash equal (cs.take (n + 1))
      = (c.run hash equal (Hashmap.after hash equal (cs.take n))).2 := by
  rw [Hashmap.after, take_add_one, hn, foldl_append]
  rfl

theorem Multimap.after_take_succ (hn : cs[n]? = some c) : Multimap.after equal (cs.take (n + 1))
      = (c.spec equal (Multimap.after equal (cs.take n))).2 := by
  rw [Multimap.after, take_add_one, hn, foldl_append]
  rfl

/-- What a client sees of a table: its size, the walk over each key's
entries, and a lookup. -/
def Hashmap.Shows (hash : Nat → Nat) (equal : Nat → Nat → Bool) (m : Hashmap)
    (mm : Multimap) : Prop :=
  m.sz = mm.length ∧ (∀ key, m.keyEntries hash equal key = mm.filter fun e => equal e.key key)
    ∧ ∀ key, m.find hash equal key = (mm.find? fun e => equal e.key key).map (·.value)

theorem Hashmap.Refines.shows (hc : Callbacks hash equal)
    (h : Refines hash equal m mm) : m.Shows hash equal mm :=
  ⟨h.size hc, h.order, fun key => by rw [Hashmap.find, h.findEntry_eq]⟩

/-- Every call keeps the table well formed and its size right. -/
theorem HashmapCall.run_held (hc : Callbacks hash equal) (hm : Held hash m) (c : HashmapCall) :
    Held hash (c.run hash equal m).2 := by
  cases c with
  | insert key value strategy =>
    have hlink := (link_cases hc hm key value).1
    simp only [run, Hashmap.insert]
    cases hf : m.findEntry equal key (hashBits (hash key) m.capBits) with
    | none => cases strategy <;> simp [hlink, hm]
    | some e =>
      have hset := hm.setFirst equal key value (buckets_ne_nil_of_find hf)
      cases strategy <;> simp [hlink, hm, hset]
  | delete key =>
    simp only [run, Hashmap.delete]
    cases hf : m.findEntry equal key (hashBits (hash key) m.capBits) with
    | none => exact hm
    | some e => exact hm.eraseP hf
  | find key => exact hm

theorem Hashmap.after_held (hc : Callbacks hash equal)
    (cs : List HashmapCall) : Held hash (Hashmap.after hash equal cs) := by
  induction cs using List.reverseRecOn with
  | nil => exact held_init
  | append_singleton cs c ih =>
    rw [Hashmap.after, foldl_append]
    exact c.run_held hc ih

/-- A run of calls on a new table does at each of its points what the
header documents (the size counts the entries, a walk over a key visits
its entries and a lookup finds the most recently inserted one, and the
next call returns and stores what the multimap says) exactly if each call
that grows the table finds the entries of every key in an order that
reads the same from either end. -/
theorem hashmap_run_iff {hash : Nat → Nat} {equal : Nat → Nat → Bool}
    (hc : Callbacks hash equal) (cs : List HashmapCall) :
    (∀ n, n ≤ cs.length → (Hashmap.after hash equal (cs.take n)).Shows hash equal
          (Multimap.after equal (cs.take n))
        ∧ ∀ c, cs[n]? = some c → (c.run hash equal (Hashmap.after hash equal (cs.take n))).1
              = (c.spec equal (Multimap.after equal (cs.take n))).1)
      ↔ ∀ (n : Nat) (c : HashmapCall), cs[n]? = some c →
          c.Calm hash equal (Hashmap.after hash equal (cs.take n)) := by
  constructor
  · intro hshow n c hn
    have hlt : n < cs.length := (List.getElem?_eq_some_iff.mp hn).1
    -- the table holds the multimap before and after the call
    have hbefore : Refines hash equal (Hashmap.after hash equal (cs.take n))
        (Multimap.after equal (cs.take n)) :=
      ⟨Hashmap.after_held hc _, (hshow n (by omega)).1.2.1⟩
    have hafter : Refines hash equal (Hashmap.after hash equal (cs.take (n + 1)))
        (Multimap.after equal (cs.take (n + 1))) :=
      ⟨Hashmap.after_held hc _, (hshow (n + 1) hlt).1.2.1⟩
    rw [Hashmap.after_take_succ hn, Multimap.after_take_succ hn] at hafter
    exact (c.run_spec hc hbefore).2.mp hafter
  · intro hcalm
    have hrun : ∀ n, n ≤ cs.length → Refines hash equal (Hashmap.after hash equal (cs.take n))
          (Multimap.after equal (cs.take n)) := by
      intro n
      induction n with
      | zero => intro _; exact refines_init
      | succ n ih =>
        intro hn
        have hget : cs[n]? = some cs[n] := getElem?_eq_getElem hn
        rw [Hashmap.after_take_succ hget, Multimap.after_take_succ hget]
        exact ((cs[n]).run_spec hc (ih (by omega))).2.mpr (hcalm n _ hget)
    intro n hn
    exact ⟨(hrun n hn).shows hc, fun c _ => (c.run_spec hc (hrun n hn)).1⟩

/-- Plain numbers as keys. -/
theorem callbacks_beq : Callbacks id (fun a b => a == b) where
  refl a := by simp
  symm h := by rw [beq_iff_eq] at *; exact h.symm
  trans h h' := by rw [beq_iff_eq] at *; exact h.trans h'
  hash_eq h := by rw [beq_iff_eq] at h; rw [h]

/-- A run without a growth of a nonempty table: two values under one key. -/
theorem hashmap_run_iff_append : Callbacks id (fun a b => a == b)
      ∧ (Hashmap.after id (fun a b => a == b) [.insert 7 1 .append, .insert 7 2 .append]).Shows id
            (fun a b => a == b) [⟨7, 2⟩, ⟨7, 1⟩] := by
  refine ⟨callbacks_beq, ?_⟩
  refine ((hashmap_run_iff callbacks_beq
    [.insert 7 1 .append, .insert 7 2 .append]).mpr ?_ 2 (by decide)).1
  intro n c hn _ hg
  match n with
  | 0 => intro key; rfl
  | 1 => exact absurd hg (by decide +kernel)
  | n + 2 => simp at hn

/-- Key 7 gets the values 1 and 2; two further keys make the table grow,
and a lookup of 7 then finds the older value. -/
theorem hashmap_find_older : Callbacks id (fun a b => a == b)
      ∧ (Hashmap.after id (fun a b => a == b)
          [.insert 7 1 .append, .insert 7 2 .append, .insert 8 0 .append,
            .insert 9 0 .append]).find id (fun a b => a == b) 7 = some 1
      ∧ ((Multimap.after (fun a b => a == b)
          [.insert 7 1 .append, .insert 7 2 .append, .insert 8 0 .append,
            .insert 9 0 .append]).find? fun e => e.key == 7).map (·.value)
          = some 2 :=
  ⟨callbacks_beq, by decide +kernel, by decide +kernel⟩

-- -------- without the order

/-- An entry with the key, if there is one. -/
def Picks (equal : Nat → Nat → Bool) (es : List HashmapEntry) (key : Nat) :
    Option HashmapEntry → Prop
  | some e => e ∈ es ∧ equal e.key key = true
  | none => ∀ e ∈ es, equal e.key key = false

/-- A call on a multimap without an order: `pick` is the entry of its key
that it finds. -/
def HashmapCall.bag (pick : Option HashmapEntry) (es : List HashmapEntry) :
    HashmapCall → HashmapReturn × List HashmapEntry
  | .insert key value strategy =>
    match strategy, pick with
    | .append, _ => (.inserted 0 0 0, ⟨key, value⟩ :: es)
    | .add, some e => (.inserted (-EEXIST) e.key e.value, es)
    | .add, none => (.inserted 0 0 0, ⟨key, value⟩ :: es)
    | .set, some e | .update, some e =>
      (.inserted 0 e.key e.value, ⟨key, value⟩ :: es.erase e)
    | .set, none => (.inserted 0 0 0, ⟨key, value⟩ :: es)
    | .update, none => (.inserted (-ENOENT) 0 0, es)
  | .delete _ =>
    match pick with
    | none => (.deleted none, es)
    | some e => (.deleted (some e), es.erase e)
  | .find _ => (.found (pick.map (·.value)), es)

def HashmapCall.key : HashmapCall → Nat
  | .insert key _ _ | .delete key | .find key => key

/-- The first entry of the key is the one that is found. -/
theorem Hashmap.eraseP_found {key : Nat} (hf : l.find? (fun e => equal e.key key) = some e) :
    l.eraseP (fun e => equal e.key key) = l.erase e := by
  obtain ⟨hkey, front, back, rfl, hfront⟩ := find?_eq_some_iff_append.mp hf
  have hnot : e ∉ front := fun he => by simpa [hkey] using hfront e he
  rw [eraseP_append_right _ (by simpa using hfront), erase_append_right _ hnot]
  simp [hkey]

theorem Hashmap.setFirst_perm {key : Nat} (value : Nat)
    (hf : l.find? (fun e => equal e.key key) = some e) :
    (setFirst equal key value l).Perm (⟨key, value⟩ :: l.erase e) := by
  rw [← eraseP_found hf]
  induction l with
  | nil => cases hf
  | cons a l ih =>
    rw [setFirst]
    rw [find?_cons] at hf
    cases hq : equal a.key key with
    | true => simp [hq]
    | false =>
      rw [hq] at hf
      rw [eraseP_cons_of_neg (by simp [hq])]
      exact ((ih hf).cons a).trans (List.Perm.swap _ _ _)

/-- A chain that loses the entry found in it, seen from the whole table. -/
theorem Hashmap.perm_found (hw : Wf hash m) {key : Nat}
    (f : List HashmapEntry → List HashmapEntry) (new : List HashmapEntry) (sz : Nat)
    (hf : m.findEntry equal key (hashBits (hash key) m.capBits) = some e)
    (hchain : ∀ l : List HashmapEntry, l.find? (fun e => equal e.key key) = some e →
      (f l).Perm (new ++ l.erase e)) :
    (Hashmap.entries { m with
        buckets := m.buckets.modify (hashBits (hash key) m.capBits) f
        sz := sz }).Perm (new ++ m.entries.erase e) := by
  obtain ⟨rest, hold, hnew⟩ := perm_modify m.buckets _
    (hw.bucket_lt (buckets_ne_nil_of_find hf) key)
  have herase : (m.entries.erase e).Perm
      ((m.buckets.getD (hashBits (hash key) m.capBits) []).erase e ++ rest) := by
    have := hold.erase e
    rw [erase_append_left rest (mem_of_find?_eq_some hf)] at this
    exact this
  refine (hnew f).trans (((hchain _ hf).append_right rest).trans ?_)
  rw [append_assoc]
  exact (herase.append_left new).symm

/-- A call finds an entry of its key if there is one, and returns and changes
what the multimap without an order does for that entry. -/
theorem HashmapCall.run_bag (hc : Callbacks hash equal) (hm : Held hash m) (c : HashmapCall) :
    ∃ pick, Picks equal m.entries c.key pick ∧ (c.run hash equal m).1 = (c.bag pick m.entries).1
      ∧ (c.run hash equal m).2.entries.Perm (c.bag pick m.entries).2 := by
  refine ⟨m.findEntry equal c.key (hashBits (hash c.key) m.capBits), ?_⟩
  have hpick : Picks equal m.entries c.key
      (m.findEntry equal c.key (hashBits (hash c.key) m.capBits)) := by
    cases hf : m.findEntry equal c.key (hashBits (hash c.key) m.capBits) with
    | none => exact fun e he => findEntry_none hm.wf hf he hc.hash_eq
    | some e => exact findEntry_some hf
  refine ⟨hpick, ?_⟩
  cases c with
  | insert key value strategy =>
    have hlink := (link_cases hc hm key value).2.1
    simp only [run, bag, HashmapCall.key, Hashmap.insert]
    cases hf : m.findEntry equal key (hashBits (hash key) m.capBits) with
    | none => cases strategy <;> simp [hlink]
    | some e =>
      have hset := perm_found hm.wf (setFirst equal key value)
        [⟨key, value⟩] m.sz hf fun l hl => setFirst_perm value hl
      cases strategy <;> simp [hlink] <;> exact hset
  | delete key =>
    simp only [run, bag, HashmapCall.key, Hashmap.delete]
    cases hf : m.findEntry equal key (hashBits (hash key) m.capBits) with
    | none => exact ⟨rfl, List.Perm.refl _⟩
    | some e =>
      exact ⟨rfl, perm_found hm.wf _ [] _ hf fun l hl => .of_eq (eraseP_found hl)⟩
  | find key => exact ⟨rfl, List.Perm.refl _⟩

/-- So it is after every run, whatever has grown. -/
theorem hashmap_run_bag (hc : Callbacks hash equal) (cs : List HashmapCall) (c : HashmapCall) :
    let m := Hashmap.after hash equal cs
    ∃ pick, Picks equal m.entries c.key pick ∧ (c.run hash equal m).1 = (c.bag pick m.entries).1
      ∧ (c.run hash equal m).2.entries.Perm (c.bag pick m.entries).2 :=
  c.run_bag hc (Hashmap.after_held hc cs)

theorem hashmap_run_bag_append : Callbacks id (fun a b => a == b)
    ∧ let m := Hashmap.after id (fun a b => a == b) [.insert 7 1 .append, .insert 7 2 .append]
      ∃ pick, Picks (fun a b => a == b) m.entries 7 pick
        ∧ (HashmapCall.run id (fun a b => a == b) m (.find 7)).1 = .found (pick.map (·.value)) := by
  obtain ⟨pick, hpick, hret, -⟩ := hashmap_run_bag callbacks_beq
    [.insert 7 1 .append, .insert 7 2 .append] (.find 7)
  exact ⟨callbacks_beq, pick, hpick, hret⟩

end Libbpf
