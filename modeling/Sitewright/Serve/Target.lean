import Sitewright.Text.Utf8
/-!
# Request targets

The target of a request is an address: it may name a scheme and a host, and it may carry a query and
a fragment, which say nothing about what is asked for. In its path, percent escapes stand for bytes.
-/
set_option autoImplicit false

namespace Sitewright.Serve

/-- The parts of an address that are used. -/
structure Target where
  scheme : Text
  host : Text
  path : Text
  query : Text
deriving DecidableEq, Repr

namespace Target

def isLetter (c : Char) : Bool := c.isAlpha

def isSchemeChar (c : Char) : Bool := c.isAlphanum || c = '+' || c = '-' || c = '.'

/-- The scheme in front of an address, and what follows its colon. -/
def splitScheme (s : Text) : Text × Text :=
  let scheme := s.takeWhile (· ≠ ':')
  match s.drop scheme.length, scheme with
  | ':' :: rest, c :: _ =>
    if isLetter c && scheme.all isSchemeChar then (scheme.map Char.toLower, rest) else ([], s)
  | _, _ => ([], s)

/-- The host in front of the rest of an address, behind two slashes. -/
def splitHost : Text → Text × Text
  | '/' :: '/' :: s =>
    let inHost := fun c => c ≠ '/' && c ≠ '?' && c ≠ '#'
    (s.takeWhile inHost, s.dropWhile inHost)
  | s => ([], s)

/-- What stands before the first occurrence of a character, and what follows it. -/
def cut (c : Char) (s : Text) : Text × Text := (s.takeWhile (· ≠ c), (s.dropWhile (· ≠ c)).drop 1)

def ofText (s : Text) : Target :=
  let s := s.dropWhile fun c => decide (c.toNat ≤ 32)
  let s := s.filter fun c => !(c = '\t' || c = '\r' || c = '\n')
  let (scheme, s) := splitScheme s
  let (host, s) := splitHost s
  let s := (cut '#' s).1
  let (path, query) := cut '?' s
  ⟨scheme, host, path, query⟩

/-- The target of a request: scheme and host are those of the address, or the defaults; its path and
query are taken as an address of their own once more. -/
def ofRequest (s : Text) : Target :=
  let outer := ofText s
  let inner := ofText (outer.path ++ if outer.query.isEmpty then [] else '?' :: outer.query)
  ⟨if outer.scheme.isEmpty then "http".toList else outer.scheme,
    if outer.host.isEmpty then "localhost".toList else outer.host, inner.path, inner.query⟩

/-- The loop of the decoding: `skip` characters belong to the escape taken last; `out` holds the bytes
so far, in reverse. -/
def unescapeFrom (out : Bytes) (skip : Nat) : Text → Bytes
  | [] => out.reverse
  | c :: s =>
    match skip with
    | k + 1 => unescapeFrom out k s
    | 0 =>
      match c, s with
      | '%', a :: b :: _ =>
        match Text.hexDigit? a, Text.hexDigit? b with
        | some hi, some lo => unescapeFrom (UInt8.ofNat (16 * hi + lo) :: out) 2 s
        | _, _ => unescapeFrom (37 :: out) 0 s
      | _, _ => unescapeFrom ((Utf8.encodeChar c).reverse ++ out) 0 s

def unescape (s : Text) : Text := Utf8.decodeLossy (unescapeFrom [] 0 s)

/-- The path that is asked for, without its escapes and without slashes in front; none where the
address has no path. -/
def resource? (t : Target) : Option Text :=
  let path := unescape t.path
  if path.isEmpty then none else some (path.dropWhile (· = '/'))

/-- The address of the root, with the query. -/
def rootAddress (t : Target) : Text :=
  t.scheme ++ "://".toList ++ t.host ++ ['/'] ++ if t.query.isEmpty then [] else '?' :: t.query

end Target
end Sitewright.Serve
