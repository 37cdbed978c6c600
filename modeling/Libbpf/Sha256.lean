/-
`libbpf_sha256`.

The rounds are unrolled by eight, each with the names of the variables moved
on by one, so that only two of them are written (`sha256Round`); the end of
the message is put together in a buffer of two blocks. A `__u32` is a
`BitVec 32`, an array of words is a function of the index.
-/
import Libbpf.Btf.Image
import Libbpf.Lib.Fips180
import Libbpf.Linker.Relos

namespace Libbpf

open Lib List
open Lib.Fips180 (Word State)

/-- `ror32`. -/
def ror32 (v : Word) (bits : Nat) : Word := (v >>> bits) ||| (v <<< (32 - bits))

def sha256Ch (x y z : Word) : Word := (x &&& y) ^^^ (~~~x &&& z)

def sha256Maj (x y z : Word) : Word := (x &&& y) ^^^ (x &&& z) ^^^ (y &&& z)

/-- `Sigma_0` and `Sigma_1`. -/
def sha256UpperSigma0 (x : Word) : Word := ror32 x 2 ^^^ ror32 x 13 ^^^ ror32 x 22

def sha256UpperSigma1 (x : Word) : Word := ror32 x 6 ^^^ ror32 x 11 ^^^ ror32 x 25

/-- `sigma_0` and `sigma_1`. -/
def sha256Sigma0 (x : Word) : Word := ror32 x 7 ^^^ ror32 x 18 ^^^ x >>> 3

def sha256Sigma1 (x : Word) : Word := ror32 x 17 ^^^ ror32 x 19 ^^^ x >>> 10

/-- `sha256_K`. -/
def sha256K : List Word := [ 0x428a2f98, 0x71374491, 0xb5c0fbcf, 0xe9b5dba5, 0x3956c25b, 0x59f111f1,
  0x923f82a4, 0xab1c5ed5, 0xd807aa98, 0x12835b01, 0x243185be, 0x550c7dc3,
  0x72be5d74, 0x80deb1fe, 0x9bdc06a7, 0xc19bf174, 0xe49b69c1, 0xefbe4786,
  0x0fc19dc6, 0x240ca1cc, 0x2de92c6f, 0x4a7484aa, 0x5cb0a9dc, 0x76f988da,
  0x983e5152, 0xa831c66d, 0xb00327c8, 0xbf597fc7, 0xc6e00bf3, 0xd5a79147,
  0x06ca6351, 0x14292967, 0x27b70a85, 0x2e1b2138, 0x4d2c6dfc, 0x53380d13,
  0x650a7354, 0x766a0abb, 0x81c2c92e, 0x92722c85, 0xa2bfe8a1, 0xa81a664b,
  0xc24b8b70, 0xc76c51a3, 0xd192e819, 0xd6990624, 0xf40e3585, 0x106aa070,
  0x19a4c116, 0x1e376c08, 0x2748774c, 0x34b0bcb5, 0x391c0cb3, 0x4ed8aa4a,
  0x5b9cca4f, 0x682e6ff3, 0x748f82ee, 0x78a5636f, 0x84c87814, 0x8cc70208,
  0x90befffa, 0xa4506ceb, 0xbef9a3f7, 0xc67178f2]

/-- `be32_to_cpu` and `cpu_to_be32`. -/
def be32ToCpu : ByteOrder → Nat → Nat
  | .little, n => bswap32 n
  | .big, n => n

/-- `cpu_to_be64`. -/
def cpuToBe64 : ByteOrder → Nat → Nat
  | .little, n => bswap32 n * 2 ^ 32 + bswap32 (n / 2 ^ 32)
  | .big, n => n

/-- `get_unaligned_be32`. -/
def getUnalignedBe32 (host : ByteOrder) (p : Bytes) : Word :=
  BitVec.ofNat 32 (be32ToCpu host (rdU32 host p))

/-- `put_unaligned_be32`: the bytes that are stored. -/
def putUnalignedBe32 (host : ByteOrder) (val : Word) : Bytes :=
  u32Bytes host (be32ToCpu host val.toNat)

/-- `SHA256_ROUND`: what is written to `d` and `h`. -/
def sha256Round (k w a b c d e f g h : Word) : Word × Word :=
  let tmp := h + sha256UpperSigma1 e + sha256Ch e f g + k + w
  (d + tmp, tmp + sha256UpperSigma0 a + sha256Maj a b c)

/-- Eight rounds, from round `i` on. -/
def sha256Rounds (w : Nat → Word) (v : State) (i : Nat) : State :=
  let k i := sha256K.getD i 0
  let ⟨a, b, c, d, e, f, g, h⟩ := v
  let (d, h) := sha256Round (k (i + 0)) (w (i + 0)) a b c d e f g h
  let (c, g) := sha256Round (k (i + 1)) (w (i + 1)) h a b c d e f g
  let (b, f) := sha256Round (k (i + 2)) (w (i + 2)) g h a b c d e f
  let (a, e) := sha256Round (k (i + 3)) (w (i + 3)) f g h a b c d e
  let (h, d) := sha256Round (k (i + 4)) (w (i + 4)) e f g h a b c d
  let (g, c) := sha256Round (k (i + 5)) (w (i + 5)) d e f g h a b c
  let (f, b) := sha256Round (k (i + 6)) (w (i + 6)) c d e f g h a b
  let (e, a) := sha256Round (k (i + 7)) (w (i + 7)) b c d e f g h a
  ⟨a, b, c, d, e, f, g, h⟩

/-- The loop that extends `w` from word 16 on. -/
def sha256Extend (w : Nat → Word) (n : Nat) : Nat → Word :=
  (List.range' 16 n).foldl (fun w i j => if j = i then
    sha256Sigma1 (w (i - 2)) + w (i - 7) + sha256Sigma0 (w (i - 15)) + w (i - 16) else w j) w

/-- One turn of the loop of `sha256_blocks`. -/
def sha256Block (host : ByteOrder) (state : State) (data : Bytes) : State :=
  let w := sha256Extend (fun i => getUnalignedBe32 host (data.drop (4 * i))) 48
  state.add (([0, 8, 16, 24, 32, 40, 48, 56] : List Nat).foldl (sha256Rounds w) state)

/-- `sha256_blocks`. -/
def sha256Blocks (host : ByteOrder) : State → Bytes → Nat → State
  | state, _, 0 => state
  | state, data, nblocks + 1 =>
    sha256Blocks host (sha256Block host state data) (data.drop 64) nblocks

/-- `libbpf_sha256`: the bytes of `out`. -/
def libbpfSha256 (host : ByteOrder) (data : Bytes) : Bytes :=
  let len := data.length
  let state : State := ⟨0x6a09e667, 0xbb67ae85, 0x3c6ef372, 0xa54ff53a,
    0x510e527f, 0x9b05688c, 0x1f83d9ab, 0x5be0cd19⟩
  let bitcount := u64Bytes host (cpuToBe64 host (len * 8 % 2 ^ 64))
  let finalData := List.replicate 128 0
  let finalLen := len % 64
  let state := sha256Blocks host state data (len / 64)
  let finalData := patch finalData 0 (data.drop (len - finalLen))
  let finalData := patch finalData finalLen [0x80]
  let finalLen := (finalLen + 9 + 63) / 64 * 64
  let finalData := patch finalData (finalLen - 8) bitcount
  let state := sha256Blocks host state finalData (finalLen / 64)
  state.words.flatMap (putUnalignedBe32 host)

-- ======== rounds

theorem sha256K_eq : sha256K = Fips180.primes.map (Fips180.rootWord 3) := by
  decide +kernel

theorem sha256K_getD (t : Nat) : sha256K.getD t 0 = Fips180.constant t := by
  rw [sha256K_eq, show (0 : Word) = Fips180.rootWord 3 0 by decide, getD_eq_getElem?_getD,
    getElem?_map, Option.getD_map]
  rfl

/-- Moving the names on by one is what the standard's round does. -/
theorem round_eq (k w a b c d e f g h : Word) : Fips180.round k w ⟨a, b, c, d, e, f, g, h⟩
      = ⟨(sha256Round k w a b c d e f g h).2, a, b, c,
        (sha256Round k w a b c d e f g h).1, e, f, g⟩ := by
  show State.mk (_ + (_ + _)) a b c _ e f g = _
  rw [← BitVec.add_assoc]
  rfl

theorem sha256Rounds_eq (w : Nat → Word) (v : State) (i : Nat) : sha256Rounds w v i
      = (List.range' i 8).foldl (fun v t => Fips180.round (Fips180.constant t) (w t) v) v := by
  obtain ⟨a, b, c, d, e, f, g, h⟩ := v
  simp only [List.range', foldl_cons, foldl_nil, round_eq, ← sha256K_getD]
  rfl

-- ======== blocks

theorem getUnalignedBe32_eq (host : ByteOrder) (p : Bytes) :
    getUnalignedBe32 host p = BitVec.ofNat 32 (rdU32 .big p) := by
  cases host with
  | little => exact congrArg (BitVec.ofNat 32) (bswap32_rdU32 .little p)
  | big => rfl

theorem putUnalignedBe32_eq (host : ByteOrder) (w : Word) :
    putUnalignedBe32 host w = u32Bytes .big w.toNat := by
  cases host with
  | little => exact u32Bytes_bswap32 .little w.toNat
  | big => rfl

/-- The loop fills `w` with the schedule. -/
theorem sha256Extend_eq {w : Nat → Word} {block : Bytes}
    (hw : ∀ t < 16, w t = Fips180.schedule block t) (n : Nat) :
    ∀ t < 16 + n, sha256Extend w n t = Fips180.schedule block t := by
  induction n with
  | zero => exact hw
  | succ n ih =>
    intro t ht
    unfold sha256Extend at ih ⊢
    rw [range'_concat, foldl_append, foldl_cons, foldl_nil]
    by_cases hlast : t = 16 + 1 * n
    · rw [if_pos hlast, ih _ (by omega), ih _ (by omega), ih _ (by omega), ih _ (by omega), hlast]
      conv_rhs => rw [Fips180.schedule, if_neg (by omega)]
      rfl
    · rw [if_neg hlast, ih t (by omega)]

theorem sha256Block_eq (host : ByteOrder) (s : State) (data : Bytes) :
    sha256Block host s data = Fips180.compress s (data.take 64) := by
  have hw : ∀ t < 16 + 48, sha256Extend (fun i => getUnalignedBe32 host (data.drop (4 * i))) 48 t
      = Fips180.schedule (data.take 64) t := by
    refine sha256Extend_eq (fun t ht => ?_) 48
    rw [Fips180.schedule, if_pos ht, getUnalignedBe32_eq, drop_take, rdU32_take _ _ (by omega)]
  have hrange : List.range 64
      = ([0, 8, 16, 24, 32, 40, 48, 56] : List Nat).flatMap fun i => List.range' i 8 := by decide
  unfold sha256Block
  dsimp only
  rw [funext₂ (sha256Rounds_eq _), ← foldl_flatMap]
  refine congrArg s.add (foldl_ext _ _ _ fun v t ht => ?_)
  rw [hw t (mem_range.mp ht)]

theorem sha256Blocks_eq (host : ByteOrder) (n : Nat) : ∀ (s : State) (data : Bytes),
    sha256Blocks host s data n
      = (List.range n).foldl (fun s i => Fips180.compress s (slice data (64 * i) 64)) s := by
  induction n with
  | zero => exact fun _ _ => rfl
  | succ n ih =>
    intro s data
    rw [sha256Blocks, ih, sha256Block_eq, range_succ_eq_map, foldl_cons, foldl_map]
    refine foldl_ext _ _ _ fun s i _ => ?_
    rw [slice, slice, drop_drop, Nat.mul_succ, Nat.add_comm]

-- ======== the end of the message

theorem patch_append (a b new : Bytes) :
    patch (a ++ b) a.length new = a ++ new ++ b.drop new.length := by
  rw [patch]
  simp

/-- The buffer holds the tail of the padded message. -/
theorem finalData_eq {x y : Bytes} {n : Nat} (hy : y.length = 8) (hlo : x.length + 9 ≤ n)
    (hhi : n ≤ 128) :
    patch (patch (patch (List.replicate 128 0) 0 x) x.length [0x80]) (n - 8) y
      = x ++ 0x80 :: (List.replicate (n - 9 - x.length) 0 ++ y) ++ List.replicate (128 - n) 0 := by
  have h1 : patch (List.replicate 128 0) 0 x = x ++ List.replicate (128 - x.length) 0 := by
    rw [patch, take_zero, nil_append, Nat.zero_add, drop_replicate]
  have h2 : patch (x ++ List.replicate (128 - x.length) 0) x.length [0x80]
      = (x ++ 0x80 :: List.replicate (n - 9 - x.length) 0) ++ List.replicate (136 - n) 0 := by
    rw [patch_append, drop_replicate,
      show 128 - x.length - [(0x80 : UInt8)].length = (n - 9 - x.length) + (136 - n) by
        simp; omega, replicate_add]
    simp
  have hlen : n - 8 = (x ++ 0x80 :: List.replicate (n - 9 - x.length) 0 : Bytes).length := by
    simp
    omega
  rw [h1, h2, hlen, patch_append, drop_replicate, hy, show 136 - n - 8 = 128 - n by omega]
  simp

theorem bitcount_eq (host : ByteOrder) {len : Nat} (h : len < 2 ^ 61) :
    u64Bytes host (cpuToBe64 host (len * 8 % 2 ^ 64)) = Fips180.lengthBytes len := by
  rw [Nat.mod_eq_of_lt (by omega), Nat.mul_comm, Fips180.lengthBytes]
  generalize 8 * len = n
  cases host with
  | little =>
    have hword : ∀ m, u32Bytes .little (bswap32 m) = u32Bytes .big m := u32Bytes_bswap32 .little
    rw [← hword, ← hword, cpuToBe64]
    have hlt := bswap32_lt (n / 2 ^ 32)
    generalize bswap32 n = hi, bswap32 (n / 2 ^ 32) = lo at hlt ⊢
    have hlow : bswap32 (hi * 2 ^ 32 + lo) = bswap32 lo := by
      unfold bswap32 ofBytes
      omega
    have hstored : ∀ m, u32Bytes .little m = u32Bytes .big (bswap32 m) := fun m =>
      (u32Bytes_bswap32 .big m).symm
    rw [u64Bytes, show (hi * 2 ^ 32 + lo) / 2 ^ 32 = hi by omega, hstored (_ + _), hlow, ← hstored]
  | big => rfl

/-- The digest is the standard's. -/
theorem libbpf_sha256_digest (host : ByteOrder) {data : Bytes} (h : data.length < 2 ^ 61) :
    libbpfSha256 host data = Fips180.digest data := by
  have hinit : (⟨0x6a09e667, 0xbb67ae85, 0x3c6ef372, 0xa54ff53a,
      0x510e527f, 0x9b05688c, 0x1f83d9ab, 0x5be0cd19⟩ : State) = Fips180.initial := by
    decide +kernel
  obtain ⟨q, r, hr, hlen⟩ : ∃ q r, r < 64 ∧ data.length = 64 * q + r :=
    ⟨data.length / 64, data.length % 64, by omega, by omega⟩
  obtain ⟨n, hn, hlo, hhi, hz⟩ : ∃ n, (r + 9 + 63) / 64 = n ∧ r + 9 ≤ 64 * n ∧ 64 * n ≤ 128
      ∧ 64 * n - 9 - r = (119 - r) % 64 := ⟨_, rfl, by omega, by omega, by omega⟩
  have htail : (data.drop (64 * q)).length = r := by
    rw [length_drop]
    omega
  -- the padded message is the whole blocks and what the buffer starts with
  have hfinal := @finalData_eq (data.drop (64 * q)) (Fips180.lengthBytes data.length) (64 * n)
    (by simp [Fips180.lengthBytes]) (by omega) hhi
  rw [htail, hz] at hfinal
  generalize hrest : data.drop (64 * q) ++ 0x80 ::
    (List.replicate ((119 - r) % 64) 0 ++ Fips180.lengthBytes data.length) = rest at hfinal
  have hpad : Fips180.pad data = data.take (64 * q) ++ rest := by
    rw [Fips180.pad, ← hrest, ← append_assoc, take_append_drop, show data.length % 64 = r by omega]
  have hwhole : (data.take (64 * q)).length = 64 * q := by
    rw [length_take]
    omega
  have hrestlen : rest.length = 64 * n := by
    rw [← hrest]
    simp [Fips180.lengthBytes]
    omega
  have hblocks : (Fips180.pad data).length / 64 = q + n := by
    rw [hpad, length_append]
    omega
  unfold libbpfSha256 Fips180.digest
  dsimp only
  rw [show data.length / 64 = q by omega, show data.length % 64 = r by omega,
    show data.length - r = 64 * q by omega, hn, Nat.mul_comm n, Nat.mul_div_cancel_left _ (by decide),
    bitcount_eq host h, hfinal, sha256Blocks_eq, sha256Blocks_eq, hinit, hblocks, range_add,
    foldl_append, foldl_map, funext (putUnalignedBe32_eq host)]
  have hfst : (List.range q).foldl (fun s i => Fips180.compress s (slice data (64 * i) 64))
        Fips180.initial
      = (List.range q).foldl (fun s i => Fips180.compress s (slice (Fips180.pad data) (64 * i) 64))
        Fips180.initial := by
    refine foldl_ext _ _ _ fun s i hi => ?_
    have := mem_range.mp hi
    rw [Fips180.pad, slice_append_left _ (by omega)]
  rw [hfst]
  refine congrArg (fun s : State => s.words.flatMap fun w => u32Bytes .big w.toNat)
    (foldl_ext _ _ _ fun s i hi => ?_)
  have := mem_range.mp hi
  rw [slice_append_left _ (by omega), hpad, slice_append_right _ (by omega), hwhole, Nat.mul_add,
    Nat.add_sub_cancel_left]

/-- On both byte orders, for the message "abc". -/
theorem libbpf_sha256_digest_abc : libbpfSha256 .little [97, 98, 99] = Fips180.digest [97, 98, 99]
      ∧ libbpfSha256 .big [97, 98, 99] = Fips180.digest [97, 98, 99] :=
  ⟨libbpf_sha256_digest .little (by decide), libbpf_sha256_digest .big (by decide)⟩

end Libbpf
