import Sitewright.Json.Reader
import Sitewright.Job
/-!
# The file of variables

The tree of variables is read from a document whose value is an object. A missing file stands for an
empty tree.
-/
set_option autoImplicit false

namespace Sitewright.Variable

def treeOfText (path s : Text) : Except Failure Variables :=
  match Json.read s with
  | .ok (.object members) => .ok members
  | .ok v => .error (.notAnObject path v.typeName)
  | .error .malformed => .error (.notADocument path)
  | .error (.tooLong digits) => .error (.numberTooLong digits)

def load (path : Path) : Reading Variables := do
  if ← Reading.ask (·.exists? path) then
    let s ← Reading.textOf path
    Reading.ofExcept id (treeOfText path.toText s)
  else
    Reading.note .warning ("Variables file ".toList ++ path.toText ++
      " not found; variables resolve to ''".toList)
    return []

end Sitewright.Variable
