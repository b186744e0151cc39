import Sitewright.Json.Value
/-!
# Writing values

A value is written on one line. The compact form puts nothing between its parts and keeps every
character it may keep; the spaced form puts a blank behind commas and colons and escapes everything
beyond ASCII, so it passes through any channel.
-/
set_option autoImplicit false

namespace Sitewright.Json

/-- How values are written. -/
structure Style where
  /-- What stands between neighbours. -/
  comma : Text
  /-- What stands between a member's name and its value. -/
  colon : Text
  /-- Characters beyond printable ASCII are escaped. -/
  asciiOnly : Bool
deriving DecidableEq, Repr

/-- Nothing between the parts, every character kept. -/
def Style.compact : Style := ⟨[','], [':'], false⟩

/-- A blank behind commas and colons, ASCII only. -/
def Style.spaced : Style := ⟨[',', ' '], [':', ' '], true⟩

def unitEscape (n : Nat) : Text := '\\' :: 'u' :: Integer.hex 4 n

/-- The escape of a character by its code point, in two units where it does not fit into one. -/
def codeEscape (c : Char) : Text :=
  let n := c.toNat
  if n < 0x10000 then unitEscape n
  else unitEscape (0xD800 + (n - 0x10000) / 0x400) ++ unitEscape (0xDC00 + (n - 0x10000) % 0x400)

def Style.char (style : Style) (c : Char) : Text :=
  if c = '"' then ['\\', '"']
  else if c = '\\' then ['\\', '\\']
  else if c = '\n' then ['\\', 'n']
  else if c = '\r' then ['\\', 'r']
  else if c = '\t' then ['\\', 't']
  else if c = '\x08' then ['\\', 'b']
  else if c = '\x0c' then ['\\', 'f']
  else if c.toNat < 0x20 then codeEscape c
  else if style.asciiOnly && decide (c.toNat > 0x7e) then codeEscape c
  else [c]

def Style.string (style : Style) (s : Text) : Text := '"' :: s.flatMap style.char ++ ['"']

def realText (d : Double) : Text :=
  if d.isFinite then d.finiteText
  else if d.isNaN then "NaN".toList
  else if d.isNegative then "-Infinity".toList else "Infinity".toList

mutual

def Style.write (style : Style) : Value → Text
  | .null => "null".toList
  | .bool b => if b then "true".toList else "false".toList
  | .int n => Integer.ofInt n
  | .real d => realText d
  | .string s => style.string s
  | .array items => '[' :: style.writeItems true items ++ [']']
  | .object members => '\x7b' :: style.writeMembers true members ++ ['\x7d']

/-- The texts of the items; `first` says that no item stands before them. -/
def Style.writeItems (style : Style) (first : Bool) : List Value → Text
  | [] => []
  | v :: rest =>
    (if first then [] else style.comma) ++ (style.write v ++ style.writeItems false rest)

/-- The texts of the members; `first` says that no member stands before them. -/
def Style.writeMembers (style : Style) (first : Bool) : List (Text × Value) → Text
  | [] => []
  | (name, v) :: rest =>
    (if first then [] else style.comma) ++
      (style.string name ++ style.colon ++ style.write v ++ style.writeMembers false rest)

end

end Sitewright.Json
