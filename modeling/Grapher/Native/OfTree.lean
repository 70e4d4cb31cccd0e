import Grapher.Native.Code
import Grapher.Reading.Basic

/-!
# Native code of a tree

A tree has native code when its reading has. The reading depends on the default variable only
where an integral or a bare derivative occurs, and neither has native code; so any default variable
gives the same code.
-/

set_option autoImplicit false

namespace Grapher.Native

/-- The default variable that the reading is taken with. -/
def anyVariable : String := "x"

/-- The native code of a tree, if it has any. -/
def ofNode? (node : Node) : Option Code := do
  ofTerm? (← Reading.read anyVariable node)

end Grapher.Native
