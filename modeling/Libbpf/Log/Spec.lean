/-
What patching the log leaves in the buffer.

The log before is a string `s` in a buffer; the lines from `line1` up to
`line3` are replaced by `patch`. What should be left is `spliced`, cut where
the buffer is full. It is there whenever it fits with its terminator
(`patchLog_fits`). When the patch alone fills the buffer, the last byte is
the one that was there (`patchLog_full`); when the rest of the log is cut,
the last byte is one of the log, and there is no terminator at all
(`patchLog_cut`).
-/
import Mathlib.Data.List.TakeDrop
import Libbpf.Log.Patch

namespace Libbpf

open Lib List

-- ======== the search

theorem lineStart_le (buf : Bytes) (p : Nat) : lineStart buf p ≤ p := by
  induction p with
  | zero => exact Nat.le_refl 0
  | succ p ih =>
    rw [lineStart]
    split
    · exact Nat.le_refl _
    · omega

theorem findPrevLine_lt {buf : Bytes} {cur prev : Nat} (h : findPrevLine buf cur = some prev) :
    prev < cur := by
  rw [findPrevLine] at h
  by_cases hcur : cur = 0
  · rw [if_pos hcur] at h
    cases h
  · rw [if_neg hcur, Option.some.injEq] at h
    have := lineStart_le buf (cur - 1)
    omega

/-- The lines found lie in order before the place the search starts at. -/
theorem findPoison_lt {buf : Bytes} {poison : Poison} {n next line1 line3 : Nat}
    (h : findPoison buf n next = some (poison, line1, line3)) :
    line1 < line3 ∧ line3 ≤ next := by
  induction n generalizing next with
  | zero => cases h
  | succ n ih =>
    rw [findPoison] at h
    cases hcur : findPrevLine buf next with
    | none =>
      rw [hcur] at h
      cases h
    | some cur =>
      have hlt := findPrevLine_lt hcur
      rw [hcur] at h
      dsimp only at h
      split at h
      · next p q _ hprev =>
          have := findPrevLine_lt hprev
          cases h
          omega
      · have := ih h
        omega

-- ======== the patching

section

variable {s : Bytes} {o origSz : Nat} {patch : CStr}

/-- The log with the bytes from `o` up to `e` replaced. -/
def spliced (s : Bytes) (o e : Nat) (patch : CStr) : Bytes := s.take o ++ patch.val ++ s.drop e

/-- The shift and the copy, when both stay inside the buffer: what is left is
made of four pieces. -/
theorem shiftAndCopy_eq {buf new : Bytes} {rem : Nat} (he : o + origSz + rem ≤ buf.length)
    (ho : o + new.length + rem ≤ buf.length) :
    shiftAndCopy buf o origSz new rem = .ok (buf.take o ++ new ++ slice buf (o + origSz) rem
          ++ buf.drop (o + new.length + rem)) := by
  have hmid : (slice buf (o + origSz) rem).length = rem := slice_length he
  have hlen : (patch buf (o + new.length) (slice buf (o + origSz) rem)).length = buf.length :=
    patch_length (by rw [hmid]; exact ho)
  rw [shiftAndCopy, memmove_ok he ho]
  change storeBytes _ o new = _
  rw [storeBytes_ok (by rw [hlen]; omega), patch_before_patch (by rw [hmid]; exact ho), hmid]

/-- The buffer keeps its size. -/
theorem patchLog_length {buf buf' : Bytes} {logSz : Nat}
    (h : patchLog buf logSz o origSz patch = .ok buf') : buf'.length = buf.length := by
  rw [patchLog] at h
  by_cases hne : patch.val.length ≠ origSz
  · rw [if_pos hne] at h
    obtain ⟨moved, hmove, hcopy⟩ := of_bind_ok h
    obtain ⟨_, _, hmove⟩ := of_bind_ok hmove
    exact (storeBytes_length hcopy).trans (storeBytes_length hmove)
  · rw [if_neg hne] at h
    exact storeBytes_length h

section

variable {bufSz logSz orig patchSz : Nat} (hlog : orig + origSz < logSz) (hbuf : logSz ≤ bufSz)

include hlog hbuf

theorem patchSizes_fits (h : orig + patchSz + (logSz - (orig + origSz)) ≤ bufSz) :
    patchSizes bufSz logSz orig origSz patchSz = (patchSz, logSz - (orig + origSz)) := by
  rw [patchSizes]
  by_cases hlt : patchSz > origSz
  · rw [if_pos hlt, if_neg (by omega), if_neg (by omega)]
  · rw [if_neg hlt]

theorem patchSizes_full (h : bufSz ≤ orig + patchSz) :
    patchSizes bufSz logSz orig origSz patchSz = (bufSz - 1 - orig, 0) := by
  rw [patchSizes, if_pos (by omega), if_pos h, Prod.mk.injEq]
  omega

theorem patchSizes_cut (h : orig + patchSz < bufSz)
    (hbig : bufSz < orig + patchSz + (logSz - (orig + origSz))) :
    patchSizes bufSz logSz orig origSz patchSz = (patchSz, bufSz - (orig + patchSz)) := by
  rw [patchSizes, if_pos (by omega), if_neg (by omega), if_pos (by omega), Prod.mk.injEq]
  omega

end

/-- The buffer holds the string `s`, which the `origSz` bytes at `o` are a
part of. -/
structure LogAt (buf s : Bytes) (o origSz : Nat) : Prop where
  log : ∃ rest, buf = s ++ 0 :: rest
  inside : o + origSz ≤ s.length

variable {buf : Bytes} (h : LogAt buf s o origSz)

include h

theorem LogAt.length : s.length < buf.length := by
  obtain ⟨rest, rfl⟩ := h.log
  rw [length_append, length_cons]
  omega

theorem LogAt.take : buf.take o = s.take o := by
  obtain ⟨rest, rfl⟩ := h.log
  have := h.inside
  exact take_append_of_le_length (by omega)

theorem LogAt.drop : ∃ rest, buf.drop (o + origSz) = s.drop (o + origSz) ++ 0 :: rest := by
  obtain ⟨rest, rfl⟩ := h.log
  exact ⟨rest, drop_append_of_le_length h.inside⟩

/-- All of it fits: the buffer holds it, and its terminator. -/
theorem patchLog_fits (hfit : o + patch.val.length + (s.length - (o + origSz)) < buf.length) :
    ∃ tail, patchLog buf (s.length + 1) o origSz patch
      = .ok (spliced s o (o + origSz) patch ++ 0 :: tail) := by
  have hin := h.inside
  have hlen := h.length
  obtain ⟨rest, hrest⟩ := h.drop
  by_cases heq : patch.val.length = origSz
  · -- the same length: nothing moves
    refine ⟨rest, ?_⟩
    rw [patchLog, if_neg (not_not_intro heq), storeBytes_ok (by omega), Lib.patch, h.take, heq,
      hrest, spliced]
    simp only [append_assoc]
  have hsz : patchSizes buf.length (s.length + 1) o origSz patch.val.length
      = (patch.val.length, s.length + 1 - (o + origSz)) :=
    patchSizes_fits (by omega) (by omega) (by omega)
  have hl : (s.drop (o + origSz) ++ [0]).length = s.length + 1 - (o + origSz) := by
    rw [length_append, length_drop, length_singleton]
    omega
  have hslice : slice buf (o + origSz) (s.length + 1 - (o + origSz))
      = s.drop (o + origSz) ++ [0] := by
    rw [slice, hrest, append_cons, take_left' hl]
  refine ⟨buf.drop (o + patch.val.length + (s.length + 1 - (o + origSz))), ?_⟩
  rw [patchLog, if_pos heq, hsz]
  dsimp only
  rw [take_length, shiftAndCopy_eq (by omega) (by omega), hslice, h.take, spliced]
  simp only [append_assoc, cons_append, nil_append]

/-- The patch alone fills the buffer: the last byte is not written. -/
theorem patchLog_full (hfull : buf.length ≤ o + patch.val.length) :
    patchLog buf (s.length + 1) o origSz patch
      = .ok ((spliced s o (o + origSz) patch).take (buf.length - 1)
          ++ buf.drop (buf.length - 1)) := by
  have hin := h.inside
  have hlen := h.length
  have hsz : patchSizes buf.length (s.length + 1) o origSz patch.val.length
      = (buf.length - 1 - o, 0) := patchSizes_full (by omega) (by omega) hfull
  have hl : (patch.val.take (buf.length - 1 - o)).length = buf.length - 1 - o := by
    rw [length_take]
    omega
  have ho : (s.take o).length = o := by
    rw [length_take]
    omega
  have hcut : (spliced s o (o + origSz) patch).take (buf.length - 1)
      = s.take o ++ patch.val.take (buf.length - 1 - o) := by
    rw [spliced, append_assoc, take_append, ho,
      take_of_length_le (by omega : (s.take o).length ≤ buf.length - 1),
      take_append_of_le_length (by omega)]
  rw [patchLog, if_pos (by omega), hsz]
  dsimp only
  rw [shiftAndCopy_eq (by omega) (by omega), hl, h.take, hcut, slice, take_zero, append_nil]
  congr 3
  omega

/-- The rest of the log is cut: the buffer is full of text. -/
theorem patchLog_cut (hfull : o + patch.val.length < buf.length)
    (hbig : buf.length ≤ o + patch.val.length + (s.length - (o + origSz))) :
    patchLog buf (s.length + 1) o origSz patch
      = .ok ((spliced s o (o + origSz) patch).take buf.length) := by
  have hin := h.inside
  have hlen := h.length
  obtain ⟨rest, hrest⟩ := h.drop
  have hsz : patchSizes buf.length (s.length + 1) o origSz patch.val.length
      = (patch.val.length, buf.length - (o + patch.val.length)) :=
    patchSizes_cut (by omega) (by omega) hfull (by omega)
  have ho : (s.take o).length = o := by
    rw [length_take]
    omega
  have hop : (s.take o ++ patch.val).length = o + patch.val.length := by
    rw [length_append, ho]
  have hslice : slice buf (o + origSz) (buf.length - (o + patch.val.length))
      = (s.drop (o + origSz)).take (buf.length - (o + patch.val.length)) := by
    rw [slice, hrest, take_append_of_le_length (by rw [length_drop]; omega)]
  rw [patchLog, if_pos (by omega), hsz]
  dsimp only
  have hall : buf.drop (o + patch.val.length + (buf.length - (o + patch.val.length))) = [] :=
    drop_of_length_le (by omega)
  rw [take_length, shiftAndCopy_eq (by omega) (by omega), hslice, h.take, hall, spliced,
    take_append, take_of_length_le (by omega : (s.take o ++ patch.val).length ≤ _), hop,
    append_nil]

end

-- ======== the string

/-- The buffer holds the string `s`. -/
def HoldsString (buf s : Bytes) : Prop := (0 : UInt8) ∈ buf ∧ cstr buf = s

theorem nul_not_mem_spliced {s : Bytes} (hs : (0 : UInt8) ∉ s) (o e : Nat) (patch : CStr) :
    (0 : UInt8) ∉ spliced s o e patch := by
  intro h
  rw [spliced, mem_append, mem_append] at h
  rcases h with (h | h) | h
  · exact hs (mem_of_mem_take h)
  · exact patch.property h
  · exact hs (mem_of_mem_drop h)

theorem holdsString_append {s : Bytes} (hs : (0 : UInt8) ∉ s) (tail : Bytes) :
    HoldsString (s ++ 0 :: tail) s :=
  ⟨mem_append_right _ (mem_cons_self ..), cstr_nul hs tail⟩

/-- There is room for the whole of it; or not even for the patch, and the
last byte of the buffer happens to be a terminator. -/
def LogRoom (buf : Bytes) (line1 line3 : Nat) (patch : CStr) : Prop :=
  line1 + patch.val.length + ((cstr buf).length - line3) < buf.length
    ∨ (buf.length ≤ line1 + patch.val.length ∧ buf.getLast? = some 0)

/-- The call returns the buffer, of the same size, and it holds `s` just if
`P`. -/
def LeavesIff (buf : Bytes) (r : Res Bytes) (s : Bytes) (P : Prop) : Prop :=
  ∃ buf', r = .ok buf' ∧ buf'.length = buf.length ∧ (HoldsString buf' s ↔ P)

/-- `patch_log` leaves the replaced log, as far as the buffer goes, just if
there is room for it. -/
theorem patchLog_leaves {buf : Bytes} {line1 line3 : Nat} {patch : CStr}
    (hnul : (0 : UInt8) ∈ buf) (hle : line1 ≤ line3) (hin : line3 ≤ (cstr buf).length) :
    LeavesIff buf (patchLog buf ((cstr buf).length + 1) line1 (line3 - line1) patch)
      ((spliced (cstr buf) line1 line3 patch).take (buf.length - 1))
      (LogRoom buf line1 line3 patch) := by
  have hat : LogAt buf (cstr buf) line1 (line3 - line1) := ⟨eq_cstr_append hnul, by omega⟩
  have hlen := hat.length
  have hsp : (spliced (cstr buf) line1 line3 patch).length
      = line1 + patch.val.length + ((cstr buf).length - line3) := by
    rw [spliced, length_append, length_append, length_take, length_drop]
    omega
  have hno := nul_not_mem_spliced (nul_not_mem_cstr buf) line1 line3 patch
  obtain ⟨w, rfl⟩ : ∃ w, line3 = line1 + w := ⟨line3 - line1, by omega⟩
  rw [Nat.add_sub_cancel_left] at hat ⊢
  by_cases hfull : buf.length ≤ line1 + patch.val.length
  · -- the last byte decides
    have hres := patchLog_full hat hfull
    have hne : buf ≠ [] := ne_nil_of_mem hnul
    have hcut : (0 : UInt8) ∉ (spliced (cstr buf) line1 (line1 + w) patch).take (buf.length - 1) :=
      fun hmem => hno (mem_of_mem_take hmem)
    refine ⟨_, hres, patchLog_length hres, ?_⟩
    rw [drop_length_sub_one hne, LogRoom, getLast?_eq_some_getLast hne]
    constructor
    · rintro ⟨hmem, -⟩
      rcases mem_append.mp hmem with hmem | hmem
      · exact absurd hmem hcut
      · exact .inr ⟨hfull, by rw [← mem_singleton.mp hmem]⟩
    · rintro (hroom | ⟨-, hz⟩)
      · omega
      · rw [Option.some.inj hz]
        exact holdsString_append hcut []
  · by_cases hfit : line1 + patch.val.length + ((cstr buf).length - (line1 + w)) < buf.length
    · obtain ⟨tail, hres⟩ := patchLog_fits hat hfit
      refine ⟨_, hres, patchLog_length hres, fun _ => .inl hfit, fun _ => ?_⟩
      rw [take_of_length_le (by omega)]
      exact holdsString_append hno tail
    -- no byte of the buffer is a terminator
    have hres : patchLog buf ((cstr buf).length + 1) line1 w patch = .ok _ :=
      patchLog_cut hat (by omega) (by omega)
    refine ⟨_, hres, patchLog_length hres, ?_, ?_⟩
    · rintro ⟨hmem, -⟩
      exact absurd (mem_of_mem_take hmem) hno
    · rintro (hroom | ⟨hroom, -⟩)
      · exact absurd hroom hfit
      · exact absurd hroom hfull

/-- The patch for a message. -/
def Poison.patch (prog : LogProg) : Poison → Bytes → Res (Option CStr)
  | .coreRelo => failedCoreReloPatch prog
  | .mapLoad => missingMapLoadPatch prog
  | .kfuncCall => missingKfuncCallPatch prog

theorem fixupVerifierLog_eq {prog : LogProg} {buf : Bytes} {poison : Poison} {line1 line3 : Nat}
    (hnul : (0 : UInt8) ∈ buf)
    (hfind : findPoison buf 10 (cstr buf).length = some (poison, line1, line3)) :
    fixupVerifierLog prog buf
      = fixupLogWith (poison.patch prog) buf ((cstr buf).length + 1) line1 line3 := by
  rw [fixupVerifierLog, strlen_ok hnul]
  simp only [bind, Except.bind, Nat.add_sub_cancel, hfind]
  cases poison <;> rfl

/-- `fixup_verifier_log`, when it finds a message and has a patch for it: the
buffer holds the log with the lines replaced, as much of it as has room before
a terminator, just if all of it has room, or the patch leaves no room for the
rest and the last byte of the buffer was a terminator before. It writes inside
the buffer in any case. -/
theorem fixup_verifier_log_string {prog : LogProg} {buf : Bytes} {poison : Poison}
    {line1 line3 : Nat} {patch : CStr} (hnul : (0 : UInt8) ∈ buf)
    (hfind : findPoison buf 10 (cstr buf).length = some (poison, line1, line3))
    (hpatch : poison.patch prog (cstr (buf.drop line1)) = .ok (some patch)) :
    LeavesIff buf (fixupVerifierLog prog buf)
      ((spliced (cstr buf) line1 line3 patch).take (buf.length - 1))
      (LogRoom buf line1 line3 patch) := by
  obtain ⟨hlt, hle⟩ := findPoison_lt hfind
  rw [fixupVerifierLog_eq hnul hfind, fixupLogWith, hpatch]
  exact patchLog_leaves hnul (Nat.le_of_lt hlt) hle

-- ======== one map

/-- A program of an object with one map, "m". -/
private def oneMap : LogProg := ⟨fun _ => none, [⟨ascii "m", by decide⟩], []⟩

/-- The log of a program that uses the map, with `rest` behind the message and
`room` bytes behind the string. -/
private def mapLog (rest : Bytes) (room : Nat) : Bytes :=
  ascii "0: (85) call unknown#2001000000\ninvalid func unknown#2001000000\n" ++ rest
    ++ 0 :: List.replicate room 7

private def mapPatch : CStr :=
  snprintf 128 (ascii "0: <invalid BPF map reference>\n"
    ++ ascii "BPF map 'm' is referenced but wasn't created\n")

/-- Sixteen bytes of room are enough for the message. -/
theorem fixup_verifier_log_string_roomy : ((0 : UInt8) ∈ mapLog [] 16
      ∧ findPoison (mapLog [] 16) 10 (cstr (mapLog [] 16)).length = some (.mapLoad, 0, 64))
    ∧ ∃ buf', fixupVerifierLog oneMap (mapLog [] 16) = .ok buf'
      ∧ HoldsString buf' ((spliced (cstr (mapLog [] 16)) 0 64 mapPatch).take 80) := by
  have hnul : (0 : UInt8) ∈ mapLog [] 16 := by decide +kernel
  have hfind : findPoison (mapLog [] 16) 10 (cstr (mapLog [] 16)).length
      = some (.mapLoad, 0, 64) := by decide +kernel
  have hpatch : Poison.mapLoad.patch oneMap (cstr ((mapLog [] 16).drop 0)) = .ok (some mapPatch) :=
    eq_ok_of_toOption (by decide +kernel)
  obtain ⟨buf', hres, -, hiff⟩ := fixup_verifier_log_string hnul hfind hpatch
  have hlen : (mapLog [] 16).length - 1 = 80 := by decide +kernel
  have hroom : LogRoom (mapLog [] 16) 0 64 mapPatch := .inl (by decide +kernel)
  rw [hlen] at hiff
  exact ⟨⟨hnul, hfind⟩, buf', hres, hiff.mpr hroom⟩

/-- With twenty bytes of the log behind the message and no room behind the
log, there is no terminator left in the buffer. -/
theorem fixup_verifier_log_unterminated : (0 : UInt8) ∈ mapLog (ascii "processed 1 insns..\n") 0
      ∧ findPoison (mapLog (ascii "processed 1 insns..\n") 0) 10
          (cstr (mapLog (ascii "processed 1 insns..\n") 0)).length = some (.mapLoad, 0, 64)
      ∧ ∃ buf', fixupVerifierLog oneMap (mapLog (ascii "processed 1 insns..\n") 0) = .ok buf'
        ∧ (0 : UInt8) ∉ buf' := by
  refine ⟨by decide +kernel, by decide +kernel, ?_⟩
  have hres : ((fixupVerifierLog oneMap (mapLog (ascii "processed 1 insns..\n") 0)).toOption.map
      fun buf' => decide ((0 : UInt8) ∉ buf')) = some true := by decide +kernel
  obtain ⟨buf', hbuf, hno⟩ := Option.map_eq_some_iff.mp hres
  exact ⟨buf', eq_ok_of_toOption hbuf, of_decide_eq_true hno⟩

end Libbpf
