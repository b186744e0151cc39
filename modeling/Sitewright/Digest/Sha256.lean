import Sitewright.Text.Utf8
/-!
# SHA-256

The digest of some bytes: they are padded to whole blocks of sixty-four, each block is spread over a
schedule of sixty-four words, and sixty-four rounds mix it into a state of eight words.
-/
set_option autoImplicit false

namespace Sitewright.Sha256

def roundWords : List UInt32 :=
  [0x428a2f98, 0x71374491, 0xb5c0fbcf, 0xe9b5dba5, 0x3956c25b, 0x59f111f1, 0x923f82a4, 0xab1c5ed5,
    0xd807aa98, 0x12835b01, 0x243185be, 0x550c7dc3, 0x72be5d74, 0x80deb1fe, 0x9bdc06a7, 0xc19bf174,
    0xe49b69c1, 0xefbe4786, 0x0fc19dc6, 0x240ca1cc, 0x2de92c6f, 0x4a7484aa, 0x5cb0a9dc, 0x76f988da,
    0x983e5152, 0xa831c66d, 0xb00327c8, 0xbf597fc7, 0xc6e00bf3, 0xd5a79147, 0x06ca6351, 0x14292967,
    0x27b70a85, 0x2e1b2138, 0x4d2c6dfc, 0x53380d13, 0x650a7354, 0x766a0abb, 0x81c2c92e, 0x92722c85,
    0xa2bfe8a1, 0xa81a664b, 0xc24b8b70, 0xc76c51a3, 0xd192e819, 0xd6990624, 0xf40e3585, 0x106aa070,
    0x19a4c116, 0x1e376c08, 0x2748774c, 0x34b0bcb5, 0x391c0cb3, 0x4ed8aa4a, 0x5b9cca4f, 0x682e6ff3,
    0x748f82ee, 0x78a5636f, 0x84c87814, 0x8cc70208, 0x90befffa, 0xa4506ceb, 0xbef9a3f7, 0xc67178f2]

/-- The eight words that the rounds mix. -/
structure State where
  a : UInt32
  b : UInt32
  c : UInt32
  d : UInt32
  e : UInt32
  f : UInt32
  g : UInt32
  h : UInt32
deriving DecidableEq, Repr

def State.first : State :=
  ⟨0x6a09e667, 0xbb67ae85, 0x3c6ef372, 0xa54ff53a, 0x510e527f, 0x9b05688c, 0x1f83d9ab, 0x5be0cd19⟩

/-- The word turned right by `n` bits. -/
def rotate (n : UInt32) (x : UInt32) : UInt32 := (x >>> n) ||| (x <<< (32 - n))

/-- The next word of the schedule, from the words before it, the latest first. -/
def nextWord (words : List UInt32) : UInt32 :=
  let word := fun k => words.getD (k - 1) 0
  let x := word 15
  let y := word 2
  let s := rotate 7 x ^^^ rotate 18 x ^^^ (x >>> 3)
  let t := rotate 17 y ^^^ rotate 19 y ^^^ (y >>> 10)
  word 16 + s + word 7 + t

/-- Goes on with a schedule, the latest word first. -/
def extend (words : List UInt32) : Nat → List UInt32
  | 0 => words
  | n + 1 => extend (nextWord words :: words) n

/-- The words that bytes stand for, four to a word, the highest byte first. -/
def wordsOf : Bytes → List UInt32
  | a :: b :: c :: d :: rest =>
    ((a.toUInt32 <<< 24) ||| (b.toUInt32 <<< 16) ||| (c.toUInt32 <<< 8) ||| d.toUInt32) ::
      wordsOf rest
  | _ => []

def schedule (block : Bytes) : List UInt32 := (extend (wordsOf block).reverse 48).reverse

def round (s : State) (k w : UInt32) : State :=
  let s1 := rotate 6 s.e ^^^ rotate 11 s.e ^^^ rotate 25 s.e
  let choice := (s.e &&& s.f) ^^^ (~~~s.e &&& s.g)
  let t1 := s.h + s1 + choice + k + w
  let s0 := rotate 2 s.a ^^^ rotate 13 s.a ^^^ rotate 22 s.a
  let majority := (s.a &&& s.b) ^^^ (s.a &&& s.c) ^^^ (s.b &&& s.c)
  ⟨t1 + (s0 + majority), s.a, s.b, s.c, s.d + t1, s.e, s.f, s.g⟩

def absorb (s : State) (block : Bytes) : State :=
  let t := (roundWords.zip (schedule block)).foldl (fun t kw => round t kw.1 kw.2) s
  ⟨s.a + t.a, s.b + t.b, s.c + t.c, s.d + t.d, s.e + t.e, s.f + t.f, s.g + t.g, s.h + t.h⟩

/-- The number in eight bytes, the highest first. -/
def lengthBytes (n : Nat) : Bytes :=
  [56, 48, 40, 32, 24, 16, 8, 0].map fun shift => UInt8.ofNat (n / Nat.pow 2 shift % 256)

/-- The bytes with a one bit, zeros and their number of bits behind them, up to whole blocks. -/
def padded (bytes : Bytes) : Bytes :=
  let zeros := (119 - bytes.length % 64) % 64
  bytes ++ 0x80 :: List.replicate zeros 0 ++ lengthBytes (8 * bytes.length)

/-- Mixes whole blocks into the state; `count` is their number. -/
def absorbAll (s : State) : Nat → Bytes → State
  | 0, _ => s
  | n + 1, bytes => absorbAll (absorb s (bytes.take 64)) n (bytes.drop 64)

/-- The four bytes of a word, the highest first. -/
def bytesOf (w : UInt32) : Bytes :=
  [(w >>> 24).toUInt8, (w >>> 16).toUInt8, (w >>> 8).toUInt8, w.toUInt8]

def digest (bytes : Bytes) : Bytes :=
  let whole := padded bytes
  let s := absorbAll State.first (whole.length / 64) whole
  [s.a, s.b, s.c, s.d, s.e, s.f, s.g, s.h].flatMap bytesOf

def hexDigest (bytes : Bytes) : Text := (digest bytes).toHex

/-- The first `length` digits of the digest; a negative length leaves out that many at the end. -/
def fingerprint (bytes : Bytes) (length : Int) : Text :=
  let digits := hexDigest bytes
  if length < 0 then digits.take (digits.length - length.natAbs) else digits.take length.toNat

/-- The number of digits in the name of a bundled file. -/
def nameDigits : Int := 8

end Sitewright.Sha256
