/-!
# SHA-256

The SHA-256 digest of a list of bytes. The message is padded to whole blocks of
sixteen words, and each block is mixed into a state of eight words in sixty-four rounds.
-/
namespace TypeDeps.Digest.Sha256

abbrev Word := UInt32

def rotate (x : Word) (n : Word) : Word := (x >>> n) ||| (x <<< (32 - n))

def bigSigma0 (x : Word) : Word := rotate x 2 ^^^ rotate x 13 ^^^ rotate x 22

def bigSigma1 (x : Word) : Word := rotate x 6 ^^^ rotate x 11 ^^^ rotate x 25

def smallSigma0 (x : Word) : Word := rotate x 7 ^^^ rotate x 18 ^^^ (x >>> 3)

def smallSigma1 (x : Word) : Word := rotate x 17 ^^^ rotate x 19 ^^^ (x >>> 10)

def choose (x y z : Word) : Word := (x &&& y) ^^^ (~~~x &&& z)

def majority (x y z : Word) : Word := (x &&& y) ^^^ (x &&& z) ^^^ (y &&& z)

/-- The first bits of the fractional parts of the cube roots of the first primes. -/
def roundConstants : List Word :=
  [0x428a2f98, 0x71374491, 0xb5c0fbcf, 0xe9b5dba5, 0x3956c25b, 0x59f111f1, 0x923f82a4, 0xab1c5ed5,
    0xd807aa98, 0x12835b01, 0x243185be, 0x550c7dc3, 0x72be5d74, 0x80deb1fe, 0x9bdc06a7, 0xc19bf174,
    0xe49b69c1, 0xefbe4786, 0x0fc19dc6, 0x240ca1cc, 0x2de92c6f, 0x4a7484aa, 0x5cb0a9dc, 0x76f988da,
    0x983e5152, 0xa831c66d, 0xb00327c8, 0xbf597fc7, 0xc6e00bf3, 0xd5a79147, 0x06ca6351, 0x14292967,
    0x27b70a85, 0x2e1b2138, 0x4d2c6dfc, 0x53380d13, 0x650a7354, 0x766a0abb, 0x81c2c92e, 0x92722c85,
    0xa2bfe8a1, 0xa81a664b, 0xc24b8b70, 0xc76c51a3, 0xd192e819, 0xd6990624, 0xf40e3585, 0x106aa070,
    0x19a4c116, 0x1e376c08, 0x2748774c, 0x34b0bcb5, 0x391c0cb3, 0x4ed8aa4a, 0x5b9cca4f, 0x682e6ff3,
    0x748f82ee, 0x78a5636f, 0x84c87814, 0x8cc70208, 0x90befffa, 0xa4506ceb, 0xbef9a3f7, 0xc67178f2]

structure State where
  a : Word
  b : Word
  c : Word
  d : Word
  e : Word
  f : Word
  g : Word
  h : Word
  deriving DecidableEq, Repr

namespace State

/-- The first bits of the fractional parts of the square roots of the first primes. -/
def initial : State :=
  ⟨0x6a09e667, 0xbb67ae85, 0x3c6ef372, 0xa54ff53a, 0x510e527f, 0x9b05688c, 0x1f83d9ab, 0x5be0cd19⟩

/-- One round, with its constant and its word of the message. -/
def round (s : State) (k w : Word) : State :=
  let t := s.h + bigSigma1 s.e + choose s.e s.f s.g + k + w
  ⟨t + bigSigma0 s.a + majority s.a s.b s.c, s.a, s.b, s.c, s.d + t, s.e, s.f, s.g⟩

def add (s t : State) : State :=
  ⟨s.a + t.a, s.b + t.b, s.c + t.c, s.d + t.d, s.e + t.e, s.f + t.f, s.g + t.g, s.h + t.h⟩

def words (s : State) : List Word := [s.a, s.b, s.c, s.d, s.e, s.f, s.g, s.h]

end State

/-- The next word of the schedule from the sixteen words before it, the oldest one first. -/
def nextWord (window : List Word) : Word :=
  match window with
  | [w0, w1, _, _, _, _, _, _, _, w9, _, _, _, _, w14, _] =>
    smallSigma1 w14 + w9 + smallSigma0 w1 + w0
  | _ => 0

/-- The rounds with these constants. The window holds the next sixteen words. -/
def rounds (s : State) (window : List Word) : List Word → State
  | [] => s
  | k :: ks => rounds (s.round k (window.headD 0)) (window.tail ++ [nextWord window]) ks

/-- Mix in a block of sixteen words. -/
def mix (s : State) (block : List Word) : State := s.add (rounds s block roundConstants)

/-- Bytes taken four at a time, the most significant one first. -/
def wordsOf : List UInt8 → List Word
  | a :: b :: c :: d :: r =>
    ((a.toUInt32 <<< 24) ||| (b.toUInt32 <<< 16) ||| (c.toUInt32 <<< 8) ||| d.toUInt32) :: wordsOf r
  | _ => []

def wordBytes (w : Word) : List UInt8 :=
  [(w >>> 24).toUInt8, (w >>> 16).toUInt8, (w >>> 8).toUInt8, w.toUInt8]

/-- One bit, then zeros, then the length in bits as eight bytes: whole blocks in all. -/
def pad (bytes : List UInt8) : List UInt8 :=
  let zeros := (119 - bytes.length % 64) % 64
  let bits := 8 * bytes.length
  bytes ++ 0x80 :: List.replicate zeros 0 ++
    (wordBytes (UInt32.ofNat (bits / Nat.pow 2 32)) ++ wordBytes (UInt32.ofNat bits))

/-- Mix in this many blocks. -/
def mixBlocks (s : State) : Nat → List Word → State
  | 0, _ => s
  | n + 1, ws => mixBlocks (mix s (ws.take 16)) n (ws.drop 16)

def digest (bytes : List UInt8) : List UInt8 :=
  let ws := wordsOf (pad bytes)
  (mixBlocks .initial (ws.length / 16) ws).words.flatMap wordBytes

/-- The digest in lower-case hexadecimal digits. -/
def hex (bytes : List UInt8) : String :=
  String.ofList ((digest bytes).flatMap fun b =>
    [Nat.digitChar (b.toNat / 16), Nat.digitChar (b.toNat % 16)])

end TypeDeps.Digest.Sha256
