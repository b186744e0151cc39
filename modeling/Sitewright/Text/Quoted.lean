import Sitewright.Text.Printable
import Sitewright.Text.Integer
/-!
# Quoted texts

Messages show names and paths in quotes: single quotes, or double ones where the text holds a single
quote and no double one. Backslashes, the quote itself, line breaks and tabs are escaped with a
backslash, other unprintable characters by their code point.
-/
set_option autoImplicit false

namespace Sitewright.Text

/-- The escape of a character by its code point, as short as its size allows. -/
def codeEscape (c : Char) : Text :=
  let n := c.toNat
  if n < 0x100 then '\\' :: 'x' :: Integer.hex 2 n
  else if n < 0x10000 then '\\' :: 'u' :: Integer.hex 4 n
  else '\\' :: 'U' :: Integer.hex 8 n

def quotedChar (quote c : Char) : Text :=
  if c = quote || c = '\\' then ['\\', c]
  else if c = '\n' then ['\\', 'n']
  else if c = '\r' then ['\\', 'r']
  else if c = '\t' then ['\\', 't']
  else if isPrintable c then [c]
  else codeEscape c

def quoteFor (s : Text) : Char := if List.elem '\'' s && !List.elem '"' s then '"' else '\''

def quoted (s : Text) : Text :=
  let quote := quoteFor s
  quote :: s.flatMap (quotedChar quote) ++ [quote]

/-- Texts in quotes, as a bracketed list. -/
def quotedList (texts : List Text) : Text :=
  '[' :: join [',', ' '] (texts.map quoted) ++ [']']

end Sitewright.Text
