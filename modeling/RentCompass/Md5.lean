import RentCompass.Sha256

/-!
# MD5

MD5 over bytes, as `hashlib` computes it.
-/

namespace Md5

open Sha256 (add)

def rotateLeft (x n : Nat) : Nat := (x <<< n ||| x >>> (32 - n)) % 2 ^ 32

def invert (x : Nat) : Nat := 2 ^ 32 - 1 - x

/-- The integer parts of `2 ^ 32 * |sin i|`. -/
def roundConstants : List Nat :=
  [0xd76aa478, 0xe8c7b756, 0x242070db, 0xc1bdceee, 0xf57c0faf, 0x4787c62a, 0xa8304613, 0xfd469501,
    0x698098d8, 0x8b44f7af, 0xffff5bb1, 0x895cd7be, 0x6b901122, 0xfd987193, 0xa679438e, 0x49b40821,
    0xf61e2562, 0xc040b340, 0x265e5a51, 0xe9b6c7aa, 0xd62f105d, 0x02441453, 0xd8a1e681, 0xe7d3fbc8,
    0x21e1cde6, 0xc33707d6, 0xf4d50d87, 0x455a14ed, 0xa9e3e905, 0xfcefa3f8, 0x676f02d9, 0x8d2a4c8a,
    0xfffa3942, 0x8771f681, 0x6d9d6122, 0xfde5380c, 0xa4beea44, 0x4bdecfa9, 0xf6bb4b60, 0xbebfbc70,
    0x289b7ec6, 0xeaa127fa, 0xd4ef3085, 0x04881d05, 0xd9d4d039, 0xe6db99e5, 0x1fa27cf8, 0xc4ac5665,
    0xf4292244, 0x432aff97, 0xab9423a7, 0xfc93a039, 0x655b59c3, 0x8f0ccc92, 0xffeff47d, 0x85845dd1,
    0x6fa87e4f, 0xfe2ce6e0, 0xa3014314, 0x4e0811a1, 0xf7537e82, 0xbd3af235, 0x2ad7d2bb, 0xeb86d391]

/-- The rotations of the four rounds. -/
def rotations : List (List Nat) :=
  [[7, 12, 17, 22], [5, 9, 14, 20], [4, 11, 16, 23], [6, 10, 15, 21]]

/-- The working variables. -/
structure Working where
  a : Nat
  b : Nat
  c : Nat
  d : Nat

def initial : Working := ⟨0x67452301, 0xefcdab89, 0x98badcfe, 0x10325476⟩

/-- The function of a round, and which word it adds at its `i`th operation. -/
def mix (s : Working) (i : Nat) : Nat × Nat :=
  match i / 16 with
  | 0 => ((s.b &&& s.c) ||| (invert s.b &&& s.d), i)
  | 1 => ((s.d &&& s.b) ||| (invert s.d &&& s.c), 5 * i + 1)
  | 2 => (s.b ^^^ s.c ^^^ s.d, 3 * i + 5)
  | _ => (s.c ^^^ (s.b ||| invert s.d), 7 * i)

/-- One operation on a block of sixteen words. -/
def operation (block : List Nat) (s : Working) (constant : Nat × Nat) : Working :=
  let (i, k) := constant
  let (f, g) := mix s i
  let sum := add (add (add s.a f) k) (block.getD (g % 16) 0)
  ⟨s.d, add s.b (rotateLeft sum ((rotations.getD (i / 16) []).getD (i % 4) 0)), s.b, s.c⟩

def compress (s : Working) (block : List Nat) : Working :=
  let t := ((List.range 64).zip roundConstants).foldl (operation block) s
  ⟨add s.a t.a, add s.b t.b, add s.c t.c, add s.d t.d⟩

/-- A number in little-endian bytes. -/
def littleEndian (n x : Nat) : List Nat := (Sha256.bigEndian n x).reverse

def pad (bytes : List Nat) : List Nat :=
  bytes ++ [0x80] ++ List.replicate ((119 - bytes.length % 64) % 64) 0 ++
    littleEndian 8 (8 * bytes.length)

/-- The little-endian words of these bytes. -/
def words : List Nat → List Nat
  | a :: b :: c :: d :: bytes => (((d * 256 + c) * 256 + b) * 256 + a) :: words bytes
  | _ => []

/-- Compress as many blocks of sixteen words. -/
def blocks : Nat → Working → List Nat → Working
  | 0, s, _ => s
  | n + 1, s, ws => blocks n (compress s (ws.take 16)) (ws.drop 16)

/-- `hashlib.md5(bytes).digest()`. -/
def digest (bytes : List Nat) : List Nat :=
  let s := blocks ((pad bytes).length / 64) initial (words (pad bytes))
  [s.a, s.b, s.c, s.d].flatMap (littleEndian 4)

/-- The MD5 of a text, in hex. -/
def hexDigest (t : Text) : Text := Sha256.hex (digest (Sha256.utf8 t))

example : hexDigest (Text.ofString "abc") = Text.ofString "900150983cd24fb0d6963f7d28e17f72" := by
  decide +kernel

end Md5
