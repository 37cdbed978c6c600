/-
What attaching and detaching USDTs leaves behind.

Every spec ID below the counter is held by one live link or is on the free
list, and by or on nothing else (`Held`): this one permutation says that the
IDs of live links are pairwise disjoint, in range and not free, and that the
IDs of a link that is gone are available again. It holds in every run,
whatever the kernel fails (`UsdtSystem.Accounted`).

The `ip_to_spec_id` map is the one the manager started with and the entries
of the live links (`Plus`), as long as no step leaks an entry. Two things do:
the entry of a target is made before its uprobe is attached, but only targets
whose uprobe was attached are recorded for deletion; and with a multi-uprobe
no target is recorded at all. Neither matters with BPF cookies, where the map
is not used.
-/
import Libbpf.Lib.Ensures
import Libbpf.Usdt.Manager

namespace Libbpf

open Lib List

variable {id : Nat} {link : UsdtLink}

variable {Spec : Type}

-- ======== the spec IDs

/-- The IDs below the counter are those of `others`, those of `mine`, and the
free ones, each once. -/
structure Held (others mine : List Nat) (w : UsdtWorld Spec) : Prop where
  perm : (others ++ mine ++ w.man.freeSpecIds).Perm (List.range w.man.nextFreeSpecId)
  bound : w.man.nextFreeSpecId ≤ w.maps.maxEntries

namespace Held

variable {others mine : List Nat} {w : UsdtWorld Spec}

theorem nodup (h : Held others mine w) : (others ++ mine ++ w.man.freeSpecIds).Nodup :=
  h.perm.nodup_iff.mpr nodup_range

/-- An ID is held by one side only. -/
theorem not_mem (h : Held others mine w) (hid : id ∈ others) : id ∉ mine := by
  intro hmine
  have hno := (nodup_append.mp h.nodup).1
  exact (nodup_append.mp hno).2.2 id hid id hmine rfl

theorem lt (h : Held others mine w) (hid : id ∈ others ++ mine) : id < w.maps.maxEntries := by
  have hmem : id ∈ List.range w.man.nextFreeSpecId :=
    h.perm.mem_iff.mp (mem_append_left _ hid)
  exact Nat.lt_of_lt_of_le (mem_range.mp hmem) h.bound

theorem of_perm {others' mine' : List Nat} (h : Held others mine w)
    (hp : (others' ++ mine').Perm (others ++ mine)) : Held others' mine' w :=
  ⟨(hp.append_right _).trans h.perm, h.bound⟩

theorem not_free (h : Held others mine w) (hid : id ∈ others ++ mine) : id ∉ w.man.freeSpecIds :=
  fun hfree => (nodup_append.mp h.nodup).2.2 id hid id hfree rfl

end Held

/-- An ID that the next attach may take. -/
def UsdtWorld.Available (w : UsdtWorld Spec) (id : Nat) : Prop :=
  id ∈ w.man.freeSpecIds ∨ w.man.nextFreeSpecId ≤ id ∧ id < w.maps.maxEntries

/-- The available IDs are those that nobody holds. -/
theorem Held.available_iff {others mine : List Nat} {w : UsdtWorld Spec}
    (h : Held others mine w) (id : Nat) :
    w.Available id ↔ id < w.maps.maxEntries ∧ id ∉ others ++ mine := by
  have hrange : id ∈ others ++ mine ++ w.man.freeSpecIds ↔ id < w.man.nextFreeSpecId := by
    rw [h.perm.mem_iff, mem_range]
  have hbound := h.bound
  constructor
  · rintro (hfree | ⟨hge, hlt⟩)
    · have := hrange.mp (mem_append_right _ hfree)
      exact ⟨by omega, fun hheld => h.not_free hheld hfree⟩
    · exact ⟨hlt, fun hheld => by
        have := hrange.mp (mem_append_left _ hheld)
        omega⟩
  · rintro ⟨hlt, hno⟩
    by_cases hnext : id < w.man.nextFreeSpecId
    · exact .inl ((mem_append.mp (hrange.mpr hnext)).resolve_left hno)
    · exact .inr ⟨by omega, hlt⟩

/-- What stays as it is while IDs and entries come and go. -/
structure SameConfig (w w' : UsdtWorld Spec) : Prop where
  cookie : w'.man.hasBpfCookie = w.man.hasBpfCookie
  multi : w'.man.hasUprobeMulti = w.man.hasUprobeMulti
  maxEntries : w'.maps.maxEntries = w.maps.maxEntries

theorem SameConfig.refl (w : UsdtWorld Spec) : SameConfig w w := ⟨rfl, rfl, rfl⟩

/-- Taking an ID. -/
theorem takeSpecId_held {others mine : List Nat} {w : UsdtWorld Spec}
    {man : UsdtManager} (h : Held others mine w) (hid : takeSpecId w = .ok (id, man)) :
    Held others (mine ++ [id]) { w with man := man } ∧ SameConfig w { w with man := man }
      ∧ id ∉ mine := by
  unfold takeSpecId at hid
  have hnew : Held others (mine ++ [id]) { w with man := man } → id ∉ mine := by
    intro hheld hmem
    have hno := (nodup_append.mp hheld.nodup).1
    have hmine := (nodup_append.mp hno).2.1
    exact (nodup_append.mp hmine).2.2 id hmem id (mem_singleton.mpr rfl) rfl
  cases hlast : w.man.freeSpecIds.getLast? with
  | some last =>
    rw [hlast] at hid
    cases hid
    have hsplit := dropLast_append_getLast? id hlast
    have hheld : Held others (mine ++ [id]) { w with man :=
        { w.man with freeSpecIds := w.man.freeSpecIds.dropLast } } := by
      refine ⟨List.Perm.trans ?_ h.perm, h.bound⟩
      rw [← hsplit]
      simp only [dropLast_concat, append_assoc]
      refine List.Perm.append_left _ (List.Perm.append_left _ ?_)
      exact perm_append_comm
    exact ⟨hheld, ⟨rfl, rfl, rfl⟩, hnew hheld⟩
  | none =>
    rw [hlast] at hid
    dsimp only at hid
    split at hid
    · cases hid
    next hroom =>
      cases hid
      have hfree : w.man.freeSpecIds = [] := getLast?_eq_none_iff.mp hlast
      have hheld : Held others (mine ++ [w.man.nextFreeSpecId]) { w with man :=
          { w.man with nextFreeSpecId := w.man.nextFreeSpecId + 1 } } := by
        refine ⟨?_, Nat.lt_of_not_le hroom⟩
        have hperm := h.perm
        rw [hfree, append_nil] at hperm
        dsimp only
        rw [hfree, append_nil, range_succ, ← append_assoc]
        exact hperm.append_right _
      exact ⟨hheld, ⟨rfl, rfl, rfl⟩, hnew hheld⟩

-- ======== one attach

/-- The map entries for targets and their IDs. -/
def ipEntries (cookie : Bool) (given : List (UsdtTarget × Nat)) : List (Int × Nat) :=
  if cookie then [] else given.map fun g => (g.1.absIp, g.2)

/-- The uprobes of a link that does not use a multi-uprobe. -/
def singleProbes (cookie multi : Bool) (given : List (UsdtTarget × Nat)) : List (Int × UsdtProbe) :=
  if multi then []
  else given.map fun g =>
    (g.1.absIp, ⟨g.1.relIp, g.1.semaOff, if cookie then g.2 else 0⟩)

/-- What a multi-uprobe is attached with. -/
def multiProbes (multi : Bool) (given : List (UsdtTarget × Nat)) : List UsdtProbe :=
  if multi then given.map fun g => ⟨g.1.relIp, g.1.semaOff, g.2⟩ else []

/-- The specs map holds the specs of targets under the IDs they got. -/
def SpecsOf (parse : Nat → Bytes → Spec) (cookie : Nat) (specs : Nat → Option Spec)
    (link : UsdtLink) : Prop :=
  ∀ g ∈ link.given, g.2 ∈ link.specIds ∧ specs g.2 = some (parse cookie g.1.specStr)

/-- One attach: the parser, the call, the IDs of the live links, and the world
before it. -/
structure UsdtAttempt (Spec : Type) where
  parse : Nat → Bytes → Spec
  call : UsdtAttach
  others : List Nat
  world : UsdtWorld Spec

/-- No uprobe fails to attach, if the kernel has neither cookies nor
multi-uprobes. -/
def UsdtAttach.Probes (call : UsdtAttach) (man : UsdtManager) : Prop :=
  man.hasBpfCookie = false → man.hasUprobeMulti = false → ∀ i, call.uprobeFails i = none

namespace UsdtAttempt

variable (a : UsdtAttempt Spec)

/-- What an attach has changed at any point: IDs are accounted for, and specs
are written only under its own. -/
structure Touched (s : UsdtAttaching Spec) : Prop where
  config : SameConfig a.world s.world
  held : Held a.others s.link.specIds s.world
  frame : ∀ id, id ∉ s.link.specIds → s.world.maps.specs id = a.world.maps.specs id

/-- What the link under construction says of the targets `probed`. -/
structure Recorded (probed : List (UsdtTarget × Nat)) (s : UsdtAttaching Spec) : Prop where
  uprobes : s.link.uprobes = singleProbes a.world.man.hasBpfCookie a.world.man.hasUprobeMulti probed
  multi : s.multi = multiProbes a.world.man.hasUprobeMulti probed

/-- The `ip_to_spec_id` map has entries for the targets `entered`. -/
def Mapped (entered : List (UsdtTarget × Nat)) (s : UsdtAttaching Spec) : Prop :=
  Plus s.world.maps.ipToSpecId a.world.maps.ipToSpecId (ipEntries a.world.man.hasBpfCookie entered)

/-- After the targets `pre`, and perhaps part of the turn for the next. -/
structure Within (pre : List UsdtTarget) (entered probed : List (UsdtTarget × Nat))
    (s : UsdtAttaching Spec) : Prop where
  touched : a.Touched s
  recorded : a.Recorded probed s
  mapped : a.Mapped entered s
  hash : ∀ str id, s.specsHash.lookup str = some id →
    id ∈ s.link.specIds ∧ s.world.maps.specs id = some (a.parse a.call.usdtCookie str)
  targets : s.link.given.map Prod.fst = pre
  specs : SpecsOf a.parse a.call.usdtCookie s.world.maps.specs s.link

/-- After the targets `pre`. -/
def Attached (pre : List UsdtTarget) (s : UsdtAttaching Spec) : Prop :=
  a.Within pre s.link.given s.link.given s

/-- After a failure: the map holds no more than what is recorded for deletion,
if no uprobe failed. -/
structure Failed (s : UsdtAttaching Spec) : Prop where
  touched : a.Touched s
  recorded : a.Recorded s.link.given s
  mapped : a.call.Probes a.world.man → a.Mapped s.link.given s

/-- A target whose ID is in place. -/
structure Placed (pre : List UsdtTarget) (g : UsdtTarget × Nat)
    (entered probed : List (UsdtTarget × Nat)) (s : UsdtAttaching Spec) : Prop where
  within : a.Within pre entered probed s
  mine : g.2 ∈ s.link.specIds
  spec : s.world.maps.specs g.2 = some (a.parse a.call.usdtCookie g.1.specStr)

/-- An ID that was just taken and has no spec yet. -/
def Fresh (pre : List UsdtTarget) (g : UsdtTarget × Nat) (s' : UsdtAttaching Spec) : Prop :=
  ∃ s man, a.Attached pre s ∧ takeSpecId s.world = .ok (g.2, man) ∧ s' = { s with
      world := { s.world with man := man }
      specsHash := (g.1.specStr, g.2) :: s.specsHash
      link := { s.link with specIds := s.link.specIds ++ [g.2] } }

variable {a} {pre : List UsdtTarget} {g : UsdtTarget × Nat} {s : UsdtAttaching Spec}

theorem Attached.failed (h : a.Attached pre s) : a.Failed s :=
  ⟨h.touched, h.recorded, fun _ => h.mapped⟩

/-- Taking an ID changes nothing else. -/
theorem Fresh.touched (h : a.Fresh pre g s) : a.Touched s := by
  obtain ⟨s, man, hs, hid, rfl⟩ := h
  obtain ⟨hheld, hconfig, -⟩ := takeSpecId_held hs.touched.held hid
  have hold := hs.touched.config
  refine ⟨⟨hconfig.cookie.trans hold.cookie, hconfig.multi.trans hold.multi,
    hold.maxEntries⟩, hheld, fun id' hid' => hs.touched.frame id' fun hmem => ?_⟩
  exact hid' (mem_append_left _ hmem)

theorem Fresh.failed (h : a.Fresh pre g s) : a.Failed s := by
  have htouched := h.touched
  obtain ⟨s, man, hs, hid, rfl⟩ := h
  exact ⟨htouched, ⟨hs.recorded.uprobes, hs.recorded.multi⟩, fun _ => hs.mapped⟩

theorem allocateSpecId_ensures (h : a.Attached pre s) (t : UsdtTarget) :
    Ensures (allocateSpecId t) s (fun r s' => if r.2 then a.Fresh pre (t, r.1) s'
        else a.Placed pre (t, r.1) s'.link.given s'.link.given s')
      (fun _ => a.Failed) := by
  unfold Ensures allocateSpecId
  rw [run_bind, run_get]
  dsimp only
  cases hlook : s.specsHash.lookup t.specStr with
  | some id =>
    obtain ⟨hmine, hspec⟩ := h.hash t.specStr id hlook
    exact ⟨h, hmine, hspec⟩
  | none =>
    dsimp only
    rw [run_bind]
    cases hid : takeSpecId s.world with
    | error e => exact h.failed
    | ok r =>
      obtain ⟨id, man⟩ := r
      exact ⟨s, man, h, hid, rfl⟩

/-- Writing the spec of a new ID completes it. -/
theorem setSpec_ensures (h : a.Fresh pre g s) (fails : Option Int) :
    Ensures (setSpec fails g.2 (a.parse a.call.usdtCookie g.1.specStr)) s
      (fun _ s' => a.Placed pre g s'.link.given s'.link.given s') (fun _ => a.Failed) := by
  unfold Ensures setSpec kernelCall
  rw [run_bind]
  cases fails with
  | some errno => exact h.failed
  | none =>
    have htouched := h.touched
    obtain ⟨s, man, hs, hid, rfl⟩ := h
    obtain ⟨hheld, -, hnew⟩ := takeSpecId_held hs.touched.held hid
    have hmine : g.2 ∈ s.link.specIds ++ [g.2] :=
      mem_append_right _ mem_cons_self
    -- the specs under the link's older IDs stay
    have hkeep : ∀ id ∈ s.link.specIds, ∀ spec : Spec,
        put s.world.maps.specs g.2 spec id = s.world.maps.specs id := by
      intro id hid' spec
      refine put_ne _ _ ?_
      rintro rfl
      exact hnew hid'
    obtain ⟨hcookie, hmulti, hmax⟩ := htouched.config
    refine ⟨⟨⟨⟨hcookie, hmulti, hmax⟩, ⟨hheld.perm, hheld.bound⟩, fun id hid' => ?_⟩,
      ⟨hs.recorded.uprobes, hs.recorded.multi⟩, hs.mapped, fun str id hlook => ?_,
      hs.targets, fun g' hg' => ?_⟩, hmine, put_self _ _ _⟩
    · have hne : id ≠ g.2 := by
        rintro rfl
        exact hid' hmine
      exact (put_ne _ _ hne).trans (htouched.frame id hid')
    · by_cases hstr : str = g.1.specStr
      · subst hstr
        rw [lookup_cons_self] at hlook
        cases hlook
        exact ⟨hmine, put_self _ _ _⟩
      · rw [lookup_cons, beq_false_of_ne hstr] at hlook
        obtain ⟨hold, hspec⟩ := hs.hash str id hlook
        exact ⟨mem_append_left _ hold, (hkeep id hold _).trans hspec⟩
    · obtain ⟨hold, hspec⟩ := hs.specs g' hg'
      exact ⟨mem_append_left _ hold, (hkeep g'.2 hold _).trans hspec⟩

/-- Entering the address. -/
theorem setIp_ensures (h : a.Placed pre g s.link.given s.link.given s)
    (hcookie : s.world.man.hasBpfCookie = false) (fails : Option Int) :
    Ensures (setIp fails g.1.absIp g.2) s
      (fun _ s' => a.Placed pre g (s'.link.given ++ [g]) s'.link.given s')
      (fun _ => a.Failed) := by
  obtain ⟨hwithin, hmine, hspec⟩ := h
  unfold Ensures setIp kernelCall
  rw [run_bind, run_get]
  dsimp only
  cases hip : s.world.maps.ipToSpecId g.1.absIp with
  | some id => exact Attached.failed hwithin
  | none =>
    rw [if_neg (by simp)]
    cases fails with
    | some errno => exact Attached.failed hwithin
    | none =>
      obtain ⟨htc, htm, htx⟩ := hwithin.touched.config
      obtain ⟨hperm, hbound⟩ := hwithin.touched.held
      refine ⟨⟨⟨⟨htc, htm, htx⟩, ⟨hperm, hbound⟩, hwithin.touched.frame⟩,
        ⟨hwithin.recorded.uprobes, hwithin.recorded.multi⟩, ?_, hwithin.hash,
        hwithin.targets, hwithin.specs⟩, hmine, hspec⟩
      have hput := Plus.put hwithin.mapped g.2 hip
      unfold Mapped
      unfold ipEntries at hput ⊢
      rw [← htc, hcookie, if_neg Bool.false_ne_true] at hput ⊢
      rw [map_append]
      exact hput

/-- With cookies there is nothing to enter. -/
theorem Placed.enter {entered entered' probed : List (UsdtTarget × Nat)}
    (h : a.Placed pre g entered probed s) (hcookie : s.world.man.hasBpfCookie = true) :
    a.Placed pre g entered' probed s := by
  obtain ⟨hwithin, hmine, hspec⟩ := h
  refine ⟨⟨hwithin.touched, hwithin.recorded, ?_, hwithin.hash, hwithin.targets,
    hwithin.specs⟩, hmine, hspec⟩
  have hmapped := hwithin.mapped
  unfold Mapped at hmapped ⊢
  rw [← hwithin.touched.config.cookie, hcookie] at hmapped ⊢
  exact hmapped

/-- With its entry made, a target is as good as recorded only if its uprobe
attaches. -/
theorem Placed.failed {i : Nat} {errno : Int}
    (h : a.Placed pre g (s.link.given ++ [g]) s.link.given s)
    (hmulti : s.world.man.hasUprobeMulti = false)
    (hfails : a.call.uprobeFails i = some errno) : a.Failed s := by
  refine ⟨h.within.touched, h.within.recorded, fun hprobes => ?_⟩
  have hconfig := h.within.touched.config
  cases hcookie : s.world.man.hasBpfCookie with
  | true => exact (h.enter hcookie).within.mapped
  | false =>
    have := hprobes (hconfig.cookie.symm.trans hcookie) (hconfig.multi.symm.trans hmulti) i
    rw [this] at hfails
    cases hfails

theorem attachProbe_ensures (h : a.Placed pre g (s.link.given ++ [g]) s.link.given s) (i : Nat) :
    Ensures (attachProbe (a.call.uprobeFails i) g.1 g.2) s
      (fun _ s' => a.Placed pre g (s'.link.given ++ [g]) (s'.link.given ++ [g]) s')
      (fun _ => a.Failed) := by
  obtain ⟨hcookie, hmulti, hmax⟩ := h.within.touched.config
  obtain ⟨hperm, hbound⟩ := h.within.touched.held
  have hrec := h.within.recorded
  unfold Ensures attachProbe
  rw [run_bind, run_get]
  dsimp only
  cases hm : s.world.man.hasUprobeMulti with
  | true =>
    refine ⟨⟨⟨⟨hcookie, hmulti, hmax⟩, ⟨hperm, hbound⟩, h.within.touched.frame⟩, ⟨?_, ?_⟩,
      h.within.mapped, h.within.hash, h.within.targets, h.within.specs⟩, h.mine, h.spec⟩
    · have := hrec.uprobes
      unfold singleProbes at this ⊢
      rw [← hmulti, hm] at this ⊢
      exact this
    · have := hrec.multi
      unfold multiProbes at this ⊢
      rw [← hmulti, hm, if_pos rfl] at this ⊢
      rw [this, map_append]
      rfl
  | false =>
    cases hfails : a.call.uprobeFails i with
    | some errno => exact h.failed hm hfails
    | none =>
      refine ⟨⟨⟨⟨hcookie, hmulti, hmax⟩, ⟨hperm, hbound⟩, h.within.touched.frame⟩,
        ⟨?_, ?_⟩, h.within.mapped, h.within.hash, h.within.targets, h.within.specs⟩,
        h.mine, h.spec⟩
      · have := hrec.uprobes
        unfold singleProbes at this ⊢
        rw [← hmulti, hm, if_neg Bool.false_ne_true, ← hcookie] at this ⊢
        rw [this, map_append]
        rfl
      · have := hrec.multi
        unfold multiProbes at this ⊢
        rw [← hmulti, hm] at this ⊢
        exact this

theorem giveId_ensures (h : a.Placed pre g (s.link.given ++ [g]) (s.link.given ++ [g]) s) :
    Ensures (giveId g.1 g.2) s (fun _ s' => a.Attached (pre ++ [g.1]) s') (fun _ => a.Failed) := by
  obtain ⟨hcookie, hmulti, hmax⟩ := h.within.touched.config
  obtain ⟨hperm, hbound⟩ := h.within.touched.held
  refine ⟨⟨⟨hcookie, hmulti, hmax⟩, ⟨hperm, hbound⟩, h.within.touched.frame⟩,
    ⟨h.within.recorded.uprobes, h.within.recorded.multi⟩, h.within.mapped, h.within.hash,
    ?_, fun g' hg' => ?_⟩
  · rw [← h.within.targets]
    exact map_append
  · rcases mem_append.mp hg' with hg' | hg'
    · exact h.within.specs g' hg'
    · cases mem_singleton.mp hg'
      exact ⟨h.mine, h.spec⟩

/-- One turn of the loop. -/
theorem attachTarget_ensures (h : a.Attached pre s) (x : UsdtTarget × Nat) :
    Ensures (attachTarget a.parse a.call x) s
      (fun _ s' => a.Attached (pre ++ [x.1]) s') (fun _ => a.Failed) := by
  unfold attachTarget
  refine (allocateSpecId_ensures h x.1).bind fun r s₁ h₁ => ?_
  obtain ⟨id, isNew⟩ := r
  refine ensures_when (fun hnew => setSpec_ensures ((if_pos hnew).mp h₁) _)
    (fun hold => (if_neg hold).mp h₁) fun s₂ h₂ => ensures_get ?_
  refine ensures_when (fun hcookie => setIp_ensures h₂ (by simpa using hcookie) _)
    (fun hcookie => h₂.enter (by simpa using hcookie)) fun s₃ h₃ => ?_
  exact (attachProbe_ensures h₃ x.2).bind fun _ s₄ h₄ => giveId_ensures h₄

theorem attachMulti_ensures (h : a.Attached pre s) :
    Ensures (attachMulti a.call) s (fun _ s' => a.Attached pre s') (fun _ => a.Failed) := by
  refine ensures_get ?_
  split
  · cases a.call.multiFails with
    | some errno => exact h.failed
    | none =>
      obtain ⟨hcookie, hmulti, hmax⟩ := h.touched.config
      obtain ⟨hperm, hbound⟩ := h.touched.held
      exact ⟨⟨⟨hcookie, hmulti, hmax⟩, ⟨hperm, hbound⟩, h.touched.frame⟩,
        ⟨h.recorded.uprobes, h.recorded.multi⟩, h.mapped, h.hash, h.targets, h.specs⟩
  · exact h

/-- Before the loop. -/
theorem attached_new (hheld : Held a.others [] a.world) :
    a.Attached [] ⟨a.world, UsdtLink.new, [], []⟩ where
  touched := ⟨SameConfig.refl _, hheld, fun _ _ => rfl⟩
  recorded := ⟨by unfold singleProbes; split <;> rfl, by unfold multiProbes; split <;> rfl⟩
  mapped := by
    unfold Mapped ipEntries
    split <;> exact Plus.nil _
  hash _ _ hlook := by cases hlook
  targets := rfl
  specs g hg := absurd hg not_mem_nil

theorem attachTargets_ensures (hheld : Held a.others [] a.world) (targets : List UsdtTarget) :
    Ensures (attachTargets a.parse a.call targets) ⟨a.world, UsdtLink.new, [], []⟩
      (fun _ s' => a.Attached targets s') (fun _ => a.Failed) := by
  unfold attachTargets
  have hloop := ensures_each (l := targets.zipIdx)
    (fun pre s => a.Attached (pre.map Prod.fst) s) (attached_new hheld)
    (fun pre x post t _ ht => by
      rw [map_append]
      exact attachTarget_ensures ht x)
  refine hloop.bind fun _ s' hs' => ?_
  rw [zipIdx_map_fst] at hs'
  exact attachMulti_ensures hs'

end UsdtAttempt

-- ======== detaching

theorem deleteIps_eq {fails : Nat → Bool} (hfails : ∀ i, fails i = false) (i : Nat)
    (probes : List (Int × UsdtProbe)) (m : Int → Option Nat) :
    deleteIps fails i probes m = (probes.map Prod.fst).foldl erase m := by
  induction probes generalizing i m with
  | nil => rfl
  | cons p probes ih =>
    rw [deleteIps, ih, hfails i]
    rfl

/-- Detaching gives the IDs back. -/
theorem Held.detach {others : List Nat} {w : UsdtWorld Spec}
    (h : Held others link.specIds w) (fails : Nat → Bool) :
    Held others [] (bpfLinkUsdtDetach fails link w) where
  perm := by
    refine List.Perm.trans ?_ h.perm
    rw [append_nil, append_assoc]
    exact List.Perm.append_left _ perm_append_comm
  bound := h.bound

/-- Which deletions take all of a link's entries off the map. -/
def Deletes (cookie multi : Bool) (fails : Nat → Bool) : Prop :=
  cookie = true ∨ multi = false ∧ ∀ i, fails i = false

/-- Detaching takes the link's entries off the map. -/
theorem bpfLinkUsdtDetach_plus {base : Int → Option Nat} {w : UsdtWorld Spec}
    {rest : List (Int × Nat)} {fails : Nat → Bool}
    (h : Plus w.maps.ipToSpecId base (ipEntries w.man.hasBpfCookie link.given ++ rest))
    (hprobes : link.uprobes = singleProbes w.man.hasBpfCookie w.man.hasUprobeMulti link.given)
    (hdel : Deletes w.man.hasBpfCookie w.man.hasUprobeMulti fails) :
    Plus (bpfLinkUsdtDetach fails link w).maps.ipToSpecId base rest := by
  unfold bpfLinkUsdtDetach
  cases hcookie : w.man.hasBpfCookie with
  | true =>
    rw [hcookie] at h
    exact h
  | false =>
    rw [hcookie] at h hprobes hdel
    obtain ⟨hmulti, hfails⟩ := hdel.resolve_left Bool.false_ne_true
    rw [if_neg Bool.false_ne_true, deleteIps_eq hfails, hprobes]
    have herase := h.erase_all
    unfold ipEntries at herase
    unfold singleProbes
    rw [if_neg Bool.false_ne_true, foldl_map] at herase
    rw [hmulti, if_neg Bool.false_ne_true, map_map, foldl_map]
    exact herase

-- ======== whole calls

/-- The calls that leave no entry behind if they fail. -/
def UsdtAttach.Clean (cookie multi : Bool) (call : UsdtAttach) : Prop :=
  cookie = true ∨ multi = false ∧ (∀ i, call.uprobeFails i = none) ∧ ∀ i, call.deleteFails i = false

section

variable {parse : Nat → Bytes → Spec} {call : UsdtAttach} {others : List Nat}
  {w w' : UsdtWorld Spec}

/-- What a successful attach did. -/
theorem usdtManagerAttachUsdt_ok (hheld : Held others [] w)
    (hr : usdtManagerAttachUsdt parse call w = .ok link w') :
    ∃ s, (UsdtAttempt.mk parse call others w).Attached (link.given.map Prod.fst) s
      ∧ call.targets = .ok (link.given.map Prod.fst) ∧ s.link = link ∧ s.world = w' := by
  unfold usdtManagerAttachUsdt at hr
  split at hr
  · cases hr
  · cases hr
  · next targets hne htargets =>
      have hloop := UsdtAttempt.attachTargets_ensures (a := ⟨parse, call, others, w⟩) hheld targets
      split at hr
      · next s hs =>
          cases hr
          have hdone := hloop.ok hs
          rw [hdone.targets]
          exact ⟨s, hdone, htargets, rfl, rfl⟩
      · cases hr

/-- A failing attach leaves the IDs and, if it is clean, the map. -/
theorem usdtManagerAttachUsdt_error {e : Stop} (hheld : Held others [] w)
    (hr : usdtManagerAttachUsdt parse call w = .error e w') :
    SameConfig w w' ∧ Held others [] w' ∧ (∀ id ∈ others, w'.maps.specs id = w.maps.specs id)
      ∧ (call.Clean w.man.hasBpfCookie w.man.hasUprobeMulti →
        w'.maps.ipToSpecId = w.maps.ipToSpecId) := by
  unfold usdtManagerAttachUsdt at hr
  split at hr
  · cases hr
    exact ⟨SameConfig.refl _, hheld, fun _ _ => rfl, fun _ => rfl⟩
  · cases hr
    exact ⟨SameConfig.refl _, hheld, fun _ _ => rfl, fun _ => rfl⟩
  · next targets hne htargets =>
      have hloop := UsdtAttempt.attachTargets_ensures (a := ⟨parse, call, others, w⟩) hheld targets
      split at hr
      · cases hr
      next e' s hs =>
        cases hr
        obtain ⟨⟨⟨hcookie, hmulti, hmax⟩, hids, hframe⟩, hrec, hmapped⟩ := hloop.error hs
        refine ⟨⟨hcookie, hmulti, hmax⟩, hids.detach _,
          fun id hid => hframe id (hids.not_mem hid), fun hclean => ?_⟩
        have hprobes : call.Probes w.man := by
          intro hc _
          exact (hclean.resolve_left (by rw [hc]; exact Bool.false_ne_true)).2.1
        have hplus := hmapped hprobes
        have hdel : Deletes w.man.hasBpfCookie w.man.hasUprobeMulti call.deleteFails :=
          hclean.imp_right fun hn => ⟨hn.1, hn.2.2⟩
        unfold UsdtAttempt.Mapped at hplus
        rw [← hcookie, ← append_nil (ipEntries _ _)] at hplus
        rw [← hcookie, ← hmulti] at hdel
        refine Plus.eq_of_perm (bpfLinkUsdtDetach_plus hplus ?_ hdel) (Plus.nil _)
          (List.Perm.refl _)
        rw [hcookie, hmulti]
        exact hrec.uprobes

end

-- ======== runs

/-- The IDs that live links hold. -/
def UsdtSystem.heldIds (s : UsdtSystem Spec) : List Nat :=
  s.live.flatMap fun l => l.link.specIds

/-- The map entries of live links. -/
def UsdtSystem.liveEntries (s : UsdtSystem Spec) : List (Int × Nat) :=
  s.live.flatMap fun l => ipEntries s.world.man.hasBpfCookie l.link.given

/-- The calls that leave no entry behind. -/
def UsdtCall.Clean (cookie multi : Bool) : UsdtCall → Prop
  | .attach call => call.Clean cookie multi
  | .destroy _ deleteFails => Deletes cookie multi deleteFails

/-- What holds of the manager and the live links in every run from `s₀`. -/
structure UsdtSystem.Accounted (parse : Nat → Bytes → Spec) (s₀ s : UsdtSystem Spec) : Prop where
  config : SameConfig s₀.world s.world
  held : Held s.heldIds [] s.world
  specs : ∀ l ∈ s.live, SpecsOf parse l.usdtCookie s.world.maps.specs l.link
  uprobes : ∀ l ∈ s.live, l.link.uprobes
    = singleProbes s.world.man.hasBpfCookie s.world.man.hasUprobeMulti l.link.given

namespace UsdtSystem

variable {parse : Nat → Bytes → Spec} {s₀ s : UsdtSystem Spec} {base : Int → Option Nat}

/-- A live link and the others. -/
theorem live_perm {k : Nat} {l : UsdtLive} (hk : s.live[k]? = some l) :
    (l :: s.live.eraseIdx k).Perm s.live := by
  obtain ⟨hlt, rfl⟩ := List.getElem?_eq_some_iff.mp hk
  exact getElem_cons_eraseIdx_perm hlt

theorem Accounted.step (h : Accounted parse s₀ s) (call : UsdtCall) :
    Accounted parse s₀ (s.step parse call) := by
  obtain ⟨hcookie₀, hmulti₀, hmax₀⟩ := h.config
  cases call with
  | attach call =>
    unfold UsdtSystem.step
    dsimp only
    cases hr : usdtManagerAttachUsdt parse call s.world with
    | error e w =>
      obtain ⟨⟨hcookie, hmulti, hmax⟩, hheld, hframe, -⟩ :=
        usdtManagerAttachUsdt_error h.held hr
      refine ⟨⟨hcookie.trans hcookie₀, hmulti.trans hmulti₀, hmax.trans hmax₀⟩, hheld,
        fun l hl g hg => ?_, fun l hl => ?_⟩
      · obtain ⟨hid, hspec⟩ := h.specs l hl g hg
        exact ⟨hid, (hframe g.2 (mem_flatMap.mpr ⟨l, hl, hid⟩)).trans hspec⟩
      · rw [hcookie, hmulti]
        exact h.uprobes l hl
    | ok link w =>
      obtain ⟨a, hdone, -, rfl, rfl⟩ := usdtManagerAttachUsdt_ok h.held hr
      obtain ⟨⟨hcookie, hmulti, hmax⟩, hheld, hframe⟩ := hdone.touched
      refine ⟨⟨hcookie.trans hcookie₀, hmulti.trans hmulti₀, hmax.trans hmax₀⟩,
        hheld.of_perm ?_, fun l hl => ?_, fun l hl => ?_⟩
      · unfold heldIds
        rw [flatMap_append, append_nil, flatMap_singleton]
      · rcases mem_append.mp hl with hl | hl
        · intro g hg
          obtain ⟨hid, hspec⟩ := h.specs l hl g hg
          have hother : g.2 ∉ a.link.specIds :=
            hheld.not_mem (mem_flatMap.mpr ⟨l, hl, hid⟩)
          exact ⟨hid, (hframe g.2 hother).trans hspec⟩
        · cases mem_singleton.mp hl
          exact hdone.specs
      · rcases mem_append.mp hl with hl | hl
        · rw [hcookie, hmulti]
          exact h.uprobes l hl
        · cases mem_singleton.mp hl
          rw [hcookie, hmulti]
          exact hdone.recorded.uprobes
  | destroy k fails =>
    unfold UsdtSystem.step
    dsimp only
    cases hk : s.live[k]? with
    | none => exact h
    | some l =>
      have hperm := live_perm hk
      have hsub : ∀ l' ∈ s.live.eraseIdx k, l' ∈ s.live :=
        fun l' hl' => hperm.mem_iff.mp (mem_cons_of_mem _ hl')
      refine ⟨⟨hcookie₀, hmulti₀, hmax₀⟩, Held.detach (h.held.of_perm ?_) fails,
        fun l' hl' => h.specs l' (hsub l' hl'), fun l' hl' => h.uprobes l' (hsub l' hl')⟩
      rw [append_nil]
      refine perm_append_comm.trans ?_
      exact hperm.flatMap_right fun l => l.link.specIds

/-- A clean call keeps the map the initial one and the entries of live links. -/
theorem Accounted.step_plus (h : Accounted parse s₀ s) {call : UsdtCall}
    (hclean : call.Clean s.world.man.hasBpfCookie s.world.man.hasUprobeMulti)
    (hplus : Plus s.world.maps.ipToSpecId base s.liveEntries) :
    Plus (s.step parse call).world.maps.ipToSpecId base (s.step parse call).liveEntries := by
  cases call with
  | attach call =>
    unfold UsdtSystem.step
    dsimp only
    cases hr : usdtManagerAttachUsdt parse call s.world with
    | error e w =>
      obtain ⟨⟨hcookie, -, -⟩, -, -, hip⟩ := usdtManagerAttachUsdt_error h.held hr
      unfold liveEntries
      rw [hip hclean, hcookie]
      exact hplus
    | ok link w =>
      obtain ⟨a, hdone, -, rfl, rfl⟩ := usdtManagerAttachUsdt_ok h.held hr
      have hnew := Plus.trans hdone.mapped hplus
      unfold liveEntries at hnew ⊢
      rw [flatMap_append, flatMap_singleton, hdone.touched.config.cookie]
      exact hnew
  | destroy k fails =>
    unfold UsdtSystem.step
    dsimp only
    cases hk : s.live[k]? with
    | none => exact hplus
    | some l =>
      have hperm := live_perm hk
      refine bpfLinkUsdtDetach_plus (hplus.perm ?_)
        (h.uprobes l (hperm.mem_iff.mp mem_cons_self)) hclean
      exact (hperm.flatMap_right _).symm

/-- A failing attach takes nothing. -/
theorem Accounted.available_error (h : Accounted parse s₀ s) {call : UsdtAttach} {e : Stop}
    {w : UsdtWorld Spec} (hr : usdtManagerAttachUsdt parse call s.world = .error e w)
    (id : Nat) : w.Available id ↔ s.world.Available id := by
  obtain ⟨hconfig, hheld, -, -⟩ := usdtManagerAttachUsdt_error h.held hr
  rw [hheld.available_iff, h.held.available_iff, hconfig.maxEntries]

theorem Accounted.start (parse : Nat → Bytes → Spec) (cookie multi : Bool) (maps : UsdtMaps Spec) :
    Accounted parse (.start cookie multi maps) (.start cookie multi maps) where
  config := SameConfig.refl _
  held := ⟨List.Perm.refl _, Nat.zero_le _⟩
  specs _ hl := absurd hl not_mem_nil
  uprobes _ hl := absurd hl not_mem_nil

theorem Accounted.run (h : Accounted parse s₀ s) (calls : List UsdtCall) :
    Accounted parse s₀ (s.run parse calls) := by
  induction calls generalizing s with
  | nil => exact h
  | cons call calls ih => exact ih (h.step call)

theorem Accounted.run_plus (h : Accounted parse s₀ s) {calls : List UsdtCall}
    (hclean : ∀ call ∈ calls, call.Clean s₀.world.man.hasBpfCookie s₀.world.man.hasUprobeMulti)
    (hplus : Plus s.world.maps.ipToSpecId base s.liveEntries) :
    Plus (s.run parse calls).world.maps.ipToSpecId base (s.run parse calls).liveEntries := by
  induction calls generalizing s with
  | nil => exact hplus
  | cons call calls ih =>
    refine ih (h.step call) (fun c hc => hclean c (mem_cons_of_mem _ hc)) (h.step_plus ?_ hplus)
    rw [h.config.cookie, h.config.multi]
    exact hclean call mem_cons_self

end UsdtSystem

/-- Attaching and detaching, from any maps. In every run the IDs of live links
are pairwise disjoint, in range and not free, every other ID is available, and
the specs map holds the spec of every target of a live link; a failed attach
takes no ID. If all calls are clean, the `ip_to_spec_id` map is the initial
one and the entries of the live links; so it is back to what it was as soon as
the live links are, and a failed attach leaves it alone. -/
theorem usdt_run_accounted (parse : Nat → Bytes → Spec) (cookie multi : Bool)
    (maps : UsdtMaps Spec) (calls : List UsdtCall) (s : UsdtSystem Spec)
    (hs : s = (UsdtSystem.start cookie multi maps).run parse calls) :
    (s.heldIds.Nodup ∧ (∀ id ∈ s.heldIds, id < maps.maxEntries ∧ id ∉ s.world.man.freeSpecIds)
      ∧ (∀ id, s.world.Available id ↔ id < maps.maxEntries ∧ id ∉ s.heldIds)
      ∧ ∀ l ∈ s.live, SpecsOf parse l.usdtCookie s.world.maps.specs l.link)
    ∧ (∀ call link w, usdtManagerAttachUsdt parse call s.world = .ok link w →
      call.targets = .ok (link.given.map Prod.fst))
    ∧ (∀ call e w, usdtManagerAttachUsdt parse call s.world = .error e w →
      (∀ id, w.Available id ↔ s.world.Available id)
        ∧ (call.Clean cookie multi → w.maps.ipToSpecId = s.world.maps.ipToSpecId))
    ∧ ((∀ call ∈ calls, call.Clean cookie multi) →
      Plus s.world.maps.ipToSpecId maps.ipToSpecId s.liveEntries
        ∧ ∀ more, (∀ call ∈ more, call.Clean cookie multi) → (s.run parse more).live.Perm s.live →
          (s.run parse more).world.maps.ipToSpecId = s.world.maps.ipToSpecId) := by
  have hstart := UsdtSystem.Accounted.start parse cookie multi maps
  have hacc : UsdtSystem.Accounted parse (.start cookie multi maps) s := by
    rw [hs]
    exact hstart.run calls
  have hmax : s.world.maps.maxEntries = maps.maxEntries := hacc.config.maxEntries
  have hheld := hacc.held
  refine ⟨⟨?_, fun id hid => ?_, fun id => ?_, hacc.specs⟩, fun call link w hr => ?_,
    fun call e w hr => ⟨hacc.available_error hr, ?_⟩, fun hclean => ?_⟩
  · have hno := (nodup_append.mp hheld.nodup).1
    rwa [append_nil] at hno
  · have hid' : id ∈ s.heldIds ++ [] := mem_append_left _ hid
    exact ⟨hmax ▸ hheld.lt hid', hheld.not_free hid'⟩
  · rw [hheld.available_iff, hmax, append_nil]
  · obtain ⟨-, -, htargets, -, -⟩ := usdtManagerAttachUsdt_ok hheld hr
    exact htargets
  · obtain ⟨-, -, -, hip⟩ := usdtManagerAttachUsdt_error hheld hr
    rw [hacc.config.cookie, hacc.config.multi] at hip
    exact hip
  · have hplus : Plus s.world.maps.ipToSpecId maps.ipToSpecId s.liveEntries := by
      rw [hs]
      exact hstart.run_plus hclean (Plus.nil _)
    refine ⟨hplus, fun more hmore hlive => ?_⟩
    have hagain := hacc.run_plus hmore hplus
    refine hagain.eq_of_perm hplus ?_
    unfold UsdtSystem.liveEntries
    rw [(hacc.run more).config.cookie, hacc.config.cookie]
    exact hlive.flatMap_right _

section

/-- Specs that keep what they were parsed from. -/
def keepSpec (cookie : Nat) (str : Bytes) : Nat × Bytes := (cookie, str)

/-- Maps with nothing in them and room for four specs. -/
def emptyMaps : UsdtMaps (Nat × Bytes) := ⟨fun _ => none, 4, fun _ => none⟩

/-- Three targets, two of which have the same arguments. -/
def threeTargets : List UsdtTarget :=
  [⟨16, 16, 0, [1]⟩, ⟨32, 32, 0, [2]⟩, ⟨48, 48, 0, [1]⟩]

/-- An attach to `targets` of which the uprobes in `failing` do not attach. -/
def attachTo (targets : List UsdtTarget) (failing : List Nat) : UsdtAttach where
  usdtCookie := 7
  targets := .ok targets
  specFails _ := none
  ipFails _ := none
  uprobeFails i := if i ∈ failing then some 1 else none
  multiFails := none
  deleteFails _ := false

/-- With three targets attached, an attach fails at an address that is taken,
another succeeds and is undone; the map is as before. -/
theorem usdt_run_accounted_undone :
    let s := (UsdtSystem.start false false emptyMaps).run keepSpec
      [.attach (attachTo threeTargets [])]
    s.heldIds = [0, 1] ∧ s.liveEntries = [(16, 0), (32, 1), (48, 0)]
      ∧ (s.run keepSpec [.attach (attachTo [⟨64, 64, 0, [3]⟩, ⟨16, 16, 0, [1]⟩] []),
          .attach (attachTo [⟨64, 64, 0, [3]⟩] []), .destroy 1 fun _ => false]
        ).world.maps.ipToSpecId = s.world.maps.ipToSpecId := by
  have hclean : ∀ targets, (attachTo targets []).Clean false false := fun _ =>
    .inr ⟨rfl, fun _ => rfl, fun _ => rfl⟩
  refine ⟨rfl, rfl, ?_⟩
  obtain ⟨-, -, -, hmap⟩ := usdt_run_accounted keepSpec false false emptyMaps
    [.attach (attachTo threeTargets [])] _ rfl
  refine (hmap ?_).2 _ ?_ (List.Perm.of_eq rfl)
  · intro call hmem
    cases mem_singleton.mp hmem
    exact hclean _
  · intro call hmem
    rcases mem_cons.mp hmem with rfl | hmem
    · exact hclean _
    rcases mem_cons.mp hmem with rfl | hmem
    · exact hclean _
    cases mem_singleton.mp hmem
    exact .inr ⟨rfl, fun _ => rfl⟩

/-- Neither way of leaving an entry behind needs more than one target: a uprobe
that does not attach after its address was entered, and, with a multi-uprobe, a
link that is attached and destroyed. -/
theorem attach_leaves_entry : let t : UsdtTarget := ⟨16, 16, 0, [1]⟩
    let failed := (UsdtSystem.start false false emptyMaps).run keepSpec
      [.attach (attachTo [t] [0])]
    let undone := (UsdtSystem.start false true emptyMaps).run keepSpec
      [.attach (attachTo [t] []), .destroy 0 fun _ => false]
    (failed.live = [] ∧ failed.world.maps.ipToSpecId 16 = some 0)
      ∧ undone.live = [] ∧ undone.world.maps.ipToSpecId 16 = some 0
      ∧ emptyMaps.ipToSpecId 16 = none :=
  ⟨⟨rfl, rfl⟩, rfl, rfl, rfl⟩

end

end Libbpf
