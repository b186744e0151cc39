import Sitewright.Number.Double
import Sitewright.Keyed
/-!
# Values

The values that a document of variables or settings holds: nulls, truth values, whole numbers of
any size, doubles, texts, arrays, and objects whose members keep the order in which their names
were first given.
-/
set_option autoImplicit false

namespace Sitewright.Json

/-- A value of a document. -/
inductive Value where
  | null
  | bool (b : Bool)
  | int (n : Int)
  | real (d : Double)
  | string (s : Text)
  | array (items : List Value)
  | object (members : List (Text × Value))
deriving Repr, Inhabited

/-- The members of an object, each name at the place where it was first given. -/
abbrev Members := Keyed Value

def Value.typeName : Value → Text
  | .null => "NoneType".toList
  | .bool _ => "bool".toList
  | .int _ => "int".toList
  | .real _ => "float".toList
  | .string _ => "str".toList
  | .array _ => "list".toList
  | .object _ => "dict".toList

end Sitewright.Json
