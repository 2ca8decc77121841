import RentCompass.Text
import Mathlib.Algebra.Group.Nat.Defs

/-!
# SHA-256

SHA-256 and its HMAC over bytes, as `hashlib` and `hmac` compute them.
-/

namespace Sha256

/-! ### Words of 32 bits -/

def add (x y : Nat) : Nat := (x + y) % 2 ^ 32

def rotateRight (x n : Nat) : Nat := (x >>> n ||| x <<< (32 - n)) % 2 ^ 32

def choose (x y z : Nat) : Nat := (x &&& y) ^^^ ((2 ^ 32 - 1 - x) &&& z)

def majority (x y z : Nat) : Nat := (x &&& y) ^^^ (x &&& z) ^^^ (y &&& z)

/-- The fractional parts of the cube roots of the first 64 primes. -/
def roundConstants : List Nat :=
  [0x428a2f98, 0x71374491, 0xb5c0fbcf, 0xe9b5dba5, 0x3956c25b, 0x59f111f1, 0x923f82a4,
    0xab1c5ed5, 0xd807aa98, 0x12835b01, 0x243185be, 0x550c7dc3, 0x72be5d74, 0x80deb1fe,
    0x9bdc06a7, 0xc19bf174, 0xe49b69c1, 0xefbe4786, 0x0fc19dc6, 0x240ca1cc, 0x2de92c6f,
    0x4a7484aa, 0x5cb0a9dc, 0x76f988da, 0x983e5152, 0xa831c66d, 0xb00327c8, 0xbf597fc7,
    0xc6e00bf3, 0xd5a79147, 0x06ca6351, 0x14292967, 0x27b70a85, 0x2e1b2138, 0x4d2c6dfc,
    0x53380d13, 0x650a7354, 0x766a0abb, 0x81c2c92e, 0x92722c85, 0xa2bfe8a1, 0xa81a664b,
    0xc24b8b70, 0xc76c51a3, 0xd192e819, 0xd6990624, 0xf40e3585, 0x106aa070, 0x19a4c116,
    0x1e376c08, 0x2748774c, 0x34b0bcb5, 0x391c0cb3, 0x4ed8aa4a, 0x5b9cca4f, 0x682e6ff3,
    0x748f82ee, 0x78a5636f, 0x84c87814, 0x8cc70208, 0x90befffa, 0xa4506ceb, 0xbef9a3f7,
    0xc67178f2]

/-- The fractional parts of the square roots of the first 8 primes. -/
def initialHash : List Nat :=
  [0x6a09e667, 0xbb67ae85, 0x3c6ef372, 0xa54ff53a, 0x510e527f, 0x9b05688c, 0x1f83d9ab, 0x5be0cd19]

/-! ### Compression -/

/-- The working variables. -/
structure Working where
  a : Nat
  b : Nat
  c : Nat
  d : Nat
  e : Nat
  f : Nat
  g : Nat
  h : Nat

def Working.ofWords : List Nat → Working
  | [a, b, c, d, e, f, g, h] => ⟨a, b, c, d, e, f, g, h⟩
  | _ => ⟨0, 0, 0, 0, 0, 0, 0, 0⟩

def Working.words (s : Working) : List Nat := [s.a, s.b, s.c, s.d, s.e, s.f, s.g, s.h]

/-- One round, on the variables and the next sixteen words of the schedule. -/
def round (s : Working × List Nat) (constant : Nat) : Working × List Nat :=
  let ⟨a, b, c, d, e, f, g, h⟩ := s.1
  let word (i : Nat) : Nat := s.2.getD i 0
  let s0 := rotateRight (word 1) 7 ^^^ rotateRight (word 1) 18 ^^^ (word 1 >>> 3)
  let s1 := rotateRight (word 14) 17 ^^^ rotateRight (word 14) 19 ^^^ (word 14 >>> 10)
  let next := add (add (word 0) s0) (add (word 9) s1)
  let e1 := rotateRight e 6 ^^^ rotateRight e 11 ^^^ rotateRight e 25
  let t1 := add (add (add h e1) (add (choose e f g) constant)) (word 0)
  let e0 := rotateRight a 2 ^^^ rotateRight a 13 ^^^ rotateRight a 22
  let t2 := add e0 (majority a b c)
  (⟨add t1 t2, a, b, c, add d t1, e, f, g⟩, s.2.tail ++ [next])

/-- One block of sixteen words. -/
def compress (hash : List Nat) (block : List Nat) : List Nat :=
  List.zipWith add hash (roundConstants.foldl round (Working.ofWords hash, block)).1.words

/-! ### Messages -/

/-- A number in big-endian bytes. -/
def bigEndian : Nat → Nat → List Nat
  | 0, _ => []
  | n + 1, x => bigEndian n (x / 256) ++ [x % 256]

def pad (bytes : List Nat) : List Nat :=
  bytes ++ [0x80] ++ List.replicate ((119 - bytes.length % 64) % 64) 0 ++
    bigEndian 8 (8 * bytes.length)

/-- The big-endian words of these bytes. -/
def words : List Nat → List Nat
  | a :: b :: c :: d :: bytes => (((a * 256 + b) * 256 + c) * 256 + d) :: words bytes
  | _ => []

/-- Compress as many blocks of sixteen words. -/
def blocks : Nat → List Nat → List Nat → List Nat
  | 0, hash, _ => hash
  | n + 1, hash, ws => blocks n (compress hash (ws.take 16)) (ws.drop 16)

/-- `hashlib.sha256(bytes).digest()`. -/
def digest (bytes : List Nat) : List Nat :=
  (blocks ((pad bytes).length / 64) initialHash (words (pad bytes))).flatMap (bigEndian 4)

lemma length_bigEndian (n x : Nat) : (bigEndian n x).length = n := by
  induction n generalizing x with
  | zero => rfl
  | succ n ih => simp [bigEndian, ih]

lemma lt_of_mem_bigEndian {n x b : Nat} (h : b ∈ bigEndian n x) : b < 256 := by
  induction n generalizing x with
  | zero => cases h
  | succ n ih =>
    rcases List.mem_append.1 h with h | h
    · exact ih h
    · rw [List.mem_singleton.1 h]
      exact Nat.mod_lt _ (by decide)

lemma length_blocks (n : Nat) (hash ws : List Nat) (h : hash.length = 8) :
    (blocks n hash ws).length = 8 := by
  induction n generalizing hash ws with
  | zero => exact h
  | succ n ih =>
    refine ih _ _ ?_
    rw [compress, List.length_zipWith, h]
    rfl

lemma length_digest (bytes : List Nat) : (digest bytes).length = 32 := by
  have hconst : ∀ ws : List Nat, (ws.flatMap (bigEndian 4)).length = 4 * ws.length := by
    intro ws
    induction ws with
    | nil => rfl
    | cons w ws ih =>
      rw [List.flatMap_cons, List.length_append, length_bigEndian, ih, List.length_cons]
      omega
  rw [digest, hconst, length_blocks _ _ _ rfl]

lemma lt_of_mem_digest {bytes : List Nat} {b : Nat} (h : b ∈ digest bytes) : b < 256 := by
  obtain ⟨w, -, hb⟩ := List.mem_flatMap.1 h
  exact lt_of_mem_bigEndian hb

/-- `hmac.new(key, bytes, hashlib.sha256).digest()`, for a key of at most 64 bytes. -/
def hmac (key bytes : List Nat) : List Nat :=
  let block := key ++ List.replicate (64 - key.length) 0
  digest (block.map (· ^^^ 0x5c) ++ digest (block.map (· ^^^ 0x36) ++ bytes))

/-! ### Texts -/

/-- A character in UTF-8, surrogates passed. -/
def utf8Char (c : Nat) : List Nat :=
  if c < 0x80 then [c]
  else if c < 0x800 then [0xC0 + c / 64, 0x80 + c % 64]
  else if c < 0x10000 then [0xE0 + c / 4096, 0x80 + c / 64 % 64, 0x80 + c % 64]
  else [0xF0 + c / 262144, 0x80 + c / 4096 % 64, 0x80 + c / 64 % 64, 0x80 + c % 64]

def utf8 (t : Text) : List Nat := t.flatMap utf8Char

def hexChar (n : Nat) : Nat := if n < 10 then 48 + n else 87 + n

/-- `bytes.hex()`. -/
def hex (bytes : List Nat) : Text := bytes.flatMap fun b => [hexChar (b / 16), hexChar (b % 16)]

lemma length_hex (bytes : List Nat) : (hex bytes).length = 2 * bytes.length := by
  induction bytes with
  | nil => rfl
  | cons b bytes ih =>
    simp only [hex, List.flatMap_cons, List.length_append, List.length_cons] at ih ⊢
    rw [ih]
    simp only [List.length_nil]
    omega

lemma hexChar_range {n : Nat} (h : n < 16) :
    48 ≤ hexChar n ∧ hexChar n ≤ 57 ∨ 97 ≤ hexChar n ∧ hexChar n ≤ 102 := by
  revert n
  decide

/-- The hex of bytes is made of digits and of `a` to `f`. -/
lemma hex_range {bytes : List Nat} (h : ∀ b ∈ bytes, b < 256) {c : Nat} (hc : c ∈ hex bytes) :
    48 ≤ c ∧ c ≤ 57 ∨ 97 ≤ c ∧ c ≤ 102 := by
  obtain ⟨b, hb, hc⟩ := List.mem_flatMap.1 hc
  have hlt := h b hb
  simp only [List.mem_cons, List.not_mem_nil, or_false] at hc
  rcases hc with rfl | rfl
  · exact hexChar_range (by omega)
  · exact hexChar_range (by omega)

/-- The SHA-256 of a text, in hex. -/
def hexDigest (t : Text) : Text := hex (digest (utf8 t))

/-- The HMAC of a text, in hex, under a key that is the SHA-256 of a text. -/
def hmacHex (key message : Text) : Text := hex (hmac (digest (utf8 key)) (utf8 message))

example : hexDigest (Text.ofString "abc") = Text.ofString
    "ba7816bf8f01cfea414140de5dae2223b00361a396177a9cb410ff61f20015ad" := by decide +kernel

end Sha256
