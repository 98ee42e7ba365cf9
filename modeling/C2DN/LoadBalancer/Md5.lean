import Mathlib.Algebra.Ring.Nat
import Mathlib.Data.List.Basic

/-!
# MD5

`md5.Sum` of the Go library, on the bytes of a string: the ring keys of `consistenthash.go` are
words of it. Words are natural numbers below `2 ^ 32`.
-/

namespace C2DN.LoadBalancer

namespace Md5

def word : Nat := 2 ^ 32

/-- The additive constants of the 64 steps. -/
def constants : List Nat :=
  [0xd76aa478, 0xe8c7b756, 0x242070db, 0xc1bdceee, 0xf57c0faf, 0x4787c62a, 0xa8304613, 0xfd469501,
   0x698098d8, 0x8b44f7af, 0xffff5bb1, 0x895cd7be, 0x6b901122, 0xfd987193, 0xa679438e, 0x49b40821,
   0xf61e2562, 0xc040b340, 0x265e5a51, 0xe9b6c7aa, 0xd62f105d, 0x02441453, 0xd8a1e681, 0xe7d3fbc8,
   0x21e1cde6, 0xc33707d6, 0xf4d50d87, 0x455a14ed, 0xa9e3e905, 0xfcefa3f8, 0x676f02d9, 0x8d2a4c8a,
   0xfffa3942, 0x8771f681, 0x6d9d6122, 0xfde5380c, 0xa4beea44, 0x4bdecfa9, 0xf6bb4b60, 0xbebfbc70,
   0x289b7ec6, 0xeaa127fa, 0xd4ef3085, 0x04881d05, 0xd9d4d039, 0xe6db99e5, 0x1fa27cf8, 0xc4ac5665,
   0xf4292244, 0x432aff97, 0xab9423a7, 0xfc93a039, 0x655b59c3, 0x8f0ccc92, 0xffeff47d, 0x85845dd1,
   0x6fa87e4f, 0xfe2ce6e0, 0xa3014314, 0x4e0811a1, 0xf7537e82, 0xbd3af235, 0x2ad7d2bb, 0xeb86d391]

/-- The rotations of the four rounds. -/
def shifts : List Nat := [7, 12, 17, 22, 5, 9, 14, 20, 4, 11, 16, 23, 6, 10, 15, 21]

def rotl (x s : Nat) : Nat := (x <<< s % word) ||| (x >>> (32 - s))

def compl (x : Nat) : Nat := word - 1 - x

structure State where
  a : Nat
  b : Nat
  c : Nat
  d : Nat

def init : State := ⟨0x67452301, 0xefcdab89, 0x98badcfe, 0x10325476⟩

/-- The mixing function of step `i` and the message word that it takes. -/
def mix (i : Nat) (s : State) : Nat × Nat :=
  match i / 16 with
  | 0 => ((s.b &&& s.c) ||| (compl s.b &&& s.d), i)
  | 1 => ((s.d &&& s.b) ||| (compl s.d &&& s.c), (5 * i + 1) % 16)
  | 2 => (s.b ^^^ s.c ^^^ s.d, (3 * i + 5) % 16)
  | _ => (s.c ^^^ (s.b ||| compl s.d), 7 * i % 16)

def step (m : List Nat) (s : State) (i k : Nat) : State :=
  let (f, g) := mix i s
  let x := (f + s.a + k + m.getD g 0) % word
  ⟨s.d, (s.b + rotl x (shifts.getD (i / 16 * 4 + i % 4) 0)) % word, s.b, s.c⟩

def steps (m : List Nat) : Nat → List Nat → State → State
  | _, [], s => s
  | i, k :: ks, s => steps m (i + 1) ks (step m s i k)

/-- One block of 16 words. -/
def block (s : State) (m : List Nat) : State :=
  let t := steps m 0 constants s
  ⟨(s.a + t.a) % word, (s.b + t.b) % word, (s.c + t.c) % word, (s.d + t.d) % word⟩

/-- The `n` bytes of a number, the lowest first. -/
def bytesLE : Nat → Nat → List Nat
  | 0, _ => []
  | n + 1, x => x % 256 :: bytesLE n (x / 256)

def ofBytesLE : List Nat → Nat
  | [] => 0
  | b :: bs => b + 256 * ofBytesLE bs

/-- The padded message: a byte `0x80`, zeros and the length in bits. -/
def pad (msg : List Nat) : List Nat :=
  msg ++ 0x80 :: List.replicate ((119 - msg.length % 64) % 64) 0 ++ bytesLE 8 (8 * msg.length)

/-- `n` words of four bytes each. -/
def words : Nat → List Nat → List Nat
  | 0, _ => []
  | n + 1, bs => ofBytesLE (bs.take 4) :: words n (bs.drop 4)

def blocks : Nat → List Nat → State → State
  | 0, _, s => s
  | n + 1, bs, s => blocks n (bs.drop 64) (block s (words 16 bs))

end Md5

open Md5 in
/-- `md5.Sum`. -/
def md5Sum (msg : List Nat) : List Nat :=
  let p := pad msg
  let s := blocks (p.length / 64) p init
  bytesLE 4 s.a ++ bytesLE 4 s.b ++ bytesLE 4 s.c ++ bytesLE 4 s.d

-- the digest of "abc"
example : md5Sum [97, 98, 99] = [0x90, 0x01, 0x50, 0x98, 0x3c, 0xd2, 0x4f, 0xb0, 0xd6, 0x96, 0x3f,
    0x7d, 0x28, 0xe1, 0x7f, 0x72] := by decide +kernel

end C2DN.LoadBalancer
