import Sitewright.Text.Integer
/-!
# UTF-8

Files hold bytes; texts are written to them and read from them in UTF-8. Reading is strict: an
ill-formed stretch is reported with its place. A lossy reading, which puts the replacement
character for each ill-formed stretch, serves addresses sent by a browser.
-/
set_option autoImplicit false

namespace Sitewright

abbrev Bytes := List UInt8

namespace Utf8

/-! ## Writing -/

def encodeChar (c : Char) : Bytes :=
  let n := c.toNat
  if n < 0x80 then [UInt8.ofNat n]
  else if n < 0x800 then [UInt8.ofNat (0xC0 + n / 64), UInt8.ofNat (0x80 + n % 64)]
  else if n < 0x10000 then
    [UInt8.ofNat (0xE0 + n / 4096), UInt8.ofNat (0x80 + n / 64 % 64), UInt8.ofNat (0x80 + n % 64)]
  else
    [UInt8.ofNat (0xF0 + n / 262144), UInt8.ofNat (0x80 + n / 4096 % 64),
      UInt8.ofNat (0x80 + n / 64 % 64), UInt8.ofNat (0x80 + n % 64)]

def encode (s : Text) : Bytes := s.flatMap encodeChar

def size (s : Text) : Nat := (encode s).length

/-! ## Reading -/

/-- Why a stretch of bytes is no character. -/
inductive Flaw where
  /-- No character begins with this byte. -/
  | badStart
  /-- A byte that should continue the character does not. -/
  | badContinuation
  /-- The bytes end within the character. -/
  | truncated
deriving DecidableEq, Repr

/-- What stands at the front of some bytes: a character, or a flaw with the length it covers. -/
inductive Front where
  | char (c : Char) (rest : Bytes)
  | flaw (flaw : Flaw) (length : Nat)

def within (lo hi : Nat) (b : UInt8) : Bool := decide (lo ≤ b.toNat) && decide (b.toNat ≤ hi)

/-- The low six bits of a byte that continues a character. -/
def low (b : UInt8) : Nat := b.toNat % 64

/-- Reads the bytes after the first, which has told how many they are (`count`), the bounds of the
next one, and the leading bits (`value`); `taken` bytes have been read. -/
def continueChar (lo hi value taken : Nat) : Nat → Bytes → Front
  | 0, rest => .char (Char.ofNat value) rest
  | _ + 1, [] => .flaw .truncated taken
  | count + 1, b :: rest =>
    if within lo hi b then continueChar 0x80 0xBF (value * 64 + low b) (taken + 1) count rest
    else .flaw .badContinuation taken

/-- What stands at the front of a byte and those after it. -/
def front (b : UInt8) (rest : Bytes) : Front :=
  let n := b.toNat
  if n < 0x80 then .char (Char.ofNat n) rest
  else if n < 0xC2 then .flaw .badStart 1
  else if n < 0xE0 then continueChar 0x80 0xBF (n - 0xC0) 1 1 rest
  else if n = 0xE0 then continueChar 0xA0 0xBF 0 1 2 rest
  else if n = 0xED then continueChar 0x80 0x9F 0xD 1 2 rest
  else if n < 0xF0 then continueChar 0x80 0xBF (n - 0xE0) 1 2 rest
  else if n = 0xF0 then continueChar 0x90 0xBF 0 1 3 rest
  else if n < 0xF4 then continueChar 0x80 0xBF (n - 0xF0) 1 3 rest
  else if n = 0xF4 then continueChar 0x80 0x8F 4 1 3 rest
  else .flaw .badStart 1

/-- An ill-formed stretch: its first byte, where it begins, how long it is, and why. -/
structure Problem where
  byte : UInt8
  start : Nat
  length : Nat
  flaw : Flaw
deriving DecidableEq, Repr

/-- The loop of the strict reading. A character's bytes after its first are passed over (`skip`);
`out` is the text so far, in reverse, and `index` the place of the next byte. -/
def decodeFrom (out : Text) (index skip : Nat) : Bytes → Except Problem Text
  | [] => .ok out.reverse
  | b :: rest =>
    match skip with
    | k + 1 => decodeFrom out (index + 1) k rest
    | 0 =>
      match front b rest with
      | .char c after => decodeFrom (c :: out) (index + 1) (rest.length - after.length) rest
      | .flaw flaw length => .error ⟨b, index, length, flaw⟩

/-- The text of the bytes, or the first ill-formed stretch. -/
def decode (bytes : Bytes) : Except Problem Text :=
  if bytes.all fun b => decide (b.toNat < 0x80) then .ok (bytes.map fun b => Char.ofNat b.toNat)
  else decodeFrom [] 0 0 bytes

def decodeLossyFrom (out : Text) (skip : Nat) : Bytes → Text
  | [] => out.reverse
  | b :: rest =>
    match skip with
    | k + 1 => decodeLossyFrom out k rest
    | 0 =>
      match front b rest with
      | .char c after => decodeLossyFrom (c :: out) (rest.length - after.length) rest
      | .flaw _ length => decodeLossyFrom ('\ufffd' :: out) (length - 1) rest

/-- The text of the bytes, with the replacement character for each ill-formed stretch. -/
def decodeLossy (bytes : Bytes) : Text := decodeLossyFrom [] 0 bytes

/-- How many bytes of the character that goes on behind an index stand before it. -/
def bytesBefore (bytes : Bytes) (index : Nat) : Nat → Nat
  | 0 => 0
  | fuel + 1 =>
    match bytes[index]? with
    | some b =>
      if within 0x80 0xBF b && decide (0 < index) then bytesBefore bytes (index - 1) fuel + 1 else 0
    | none => 0

/-- The text of bytes that arrive in portions of some size. A flaw is placed in the portion that shows
it, behind what was left over of the one before; an end within a character is shown by what is left
over alone. -/
def decodeInPortions (size : Nat) (bytes : Bytes) : Except Problem Text :=
  (decode bytes).mapError fun p =>
    if p.flaw = .truncated then { p with start := 0 }
    else
      let portion := (p.start + (if p.flaw = .badContinuation then p.length else 0)) / size * size
      { p with start := if p.start < portion then 0 else p.start - portion + bytesBefore bytes portion 3 }

/-! ## Messages -/

def Flaw.message : Flaw → Text
  | .badStart => "invalid start byte".toList
  | .badContinuation => "invalid continuation byte".toList
  | .truncated => "unexpected end of data".toList

def Problem.message (p : Problem) : Text :=
  if p.length ≤ 1 then
    "'utf-8' codec can't decode byte 0x".toList ++ Integer.hex 2 p.byte.toNat ++
      " in position ".toList ++ Integer.ofNat p.start ++ ": ".toList ++ p.flaw.message
  else
    "'utf-8' codec can't decode bytes in position ".toList ++ Integer.ofNat p.start ++
      "-".toList ++ Integer.ofNat (p.start + p.length - 1) ++ ": ".toList ++ p.flaw.message

end Utf8

/-- The bytes that pairs of hexadecimal digits stand for; none where the text is not of that form. -/
def Bytes.ofHex? : Text → Option Bytes
  | [] => some []
  | [_] => none
  | a :: b :: s => do
    let hi ← Text.hexDigit? a
    let lo ← Text.hexDigit? b
    let rest ← Bytes.ofHex? s
    return UInt8.ofNat (16 * hi + lo) :: rest

def Bytes.toHex (bytes : Bytes) : Text := bytes.flatMap fun b => Integer.hex 2 b.toNat

end Sitewright
