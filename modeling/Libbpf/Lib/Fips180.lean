/-
SHA-256 as FIPS 180-4 defines it.

The constants are the bits of roots of primes (`rootWord`), the schedule is
the standard's recursion, and the digest folds `compress` over the blocks of
the padded message. A message is a list of bytes.
-/
import Mathlib.Data.Nat.NthRoot.Defs
import Libbpf.Lib.Bytes

namespace Libbpf.Lib.Fips180

abbrev Word := BitVec 32

def ch (x y z : Word) : Word := (x &&& y) ^^^ (~~~x &&& z)

def maj (x y z : Word) : Word := (x &&& y) ^^^ (x &&& z) ^^^ (y &&& z)

def upperSigma0 (x : Word) : Word := x.rotateRight 2 ^^^ x.rotateRight 13 ^^^ x.rotateRight 22

def upperSigma1 (x : Word) : Word := x.rotateRight 6 ^^^ x.rotateRight 11 ^^^ x.rotateRight 25

def sigma0 (x : Word) : Word := x.rotateRight 7 ^^^ x.rotateRight 18 ^^^ x >>> 3

def sigma1 (x : Word) : Word := x.rotateRight 17 ^^^ x.rotateRight 19 ^^^ x >>> 10

/-- The first 32 bits of the fractional part of the `k`-th root of `p`. -/
def rootWord (k p : Nat) : Word := BitVec.ofNat 32 (Nat.nthRoot k (p * 2 ^ (32 * k)))

/-- The first 64 primes: what the first seven leave of the numbers below 312,
which is below 19 squared. -/
def primes : List Nat := (List.range 312).filter fun n =>
  1 < n && [2, 3, 5, 7, 11, 13, 17].all fun d => n == d || n % d != 0

/-- The constant of round `t`. -/
def constant (t : Nat) : Word := rootWord 3 (primes.getD t 0)

/-- The eight working variables, or the hash value they start from. -/
structure State where
  (a b c d e f g h : Word)
deriving DecidableEq

def initial : State :=
  let word i := rootWord 2 (primes.getD i 0)
  ⟨word 0, word 1, word 2, word 3, word 4, word 5, word 6, word 7⟩

def State.add (s v : State) : State :=
  ⟨s.a + v.a, s.b + v.b, s.c + v.c, s.d + v.d, s.e + v.e, s.f + v.f, s.g + v.g, s.h + v.h⟩

def State.words (s : State) : List Word := [s.a, s.b, s.c, s.d, s.e, s.f, s.g, s.h]

/-- Word `t` of the message schedule of a block. -/
def schedule (block : Bytes) (t : Nat) : Word :=
  if t < 16 then BitVec.ofNat 32 (rdU32 .big (block.drop (4 * t)))
  else sigma1 (schedule block (t - 2)) + schedule block (t - 7)
    + sigma0 (schedule block (t - 15)) + schedule block (t - 16)

def round (k w : Word) (v : State) : State :=
  let t1 := v.h + upperSigma1 v.e + ch v.e v.f v.g + k + w
  let t2 := upperSigma0 v.a + maj v.a v.b v.c
  ⟨t1 + t2, v.a, v.b, v.c, v.d + t1, v.e, v.f, v.g⟩

def compress (s : State) (block : Bytes) : State :=
  s.add ((List.range 64).foldl (fun v t => round (constant t) (schedule block t) v) s)

/-- The length in bits, as the last 64 bits. -/
def lengthBytes (len : Nat) : Bytes := u32Bytes .big (8 * len / 2 ^ 32) ++ u32Bytes .big (8 * len)

/-- The bit 1, the fewest zeros that leave room for the length in the last
block, and the length. -/
def pad (m : Bytes) : Bytes :=
  m ++ 0x80 :: (List.replicate ((119 - m.length % 64) % 64) 0 ++ lengthBytes m.length)

def digest (m : Bytes) : Bytes :=
  ((List.range ((pad m).length / 64)).foldl
    (fun s i => compress s (slice (pad m) (64 * i) 64)) initial).words.flatMap
      fun w => u32Bytes .big w.toNat

end Libbpf.Lib.Fips180
