import Grapher.Native.OfTree
import Grapher.Proofs.Markup.Shape
import Grapher.Proofs.Program.Preservation

/-!
# Which trees have native code

Native code covers exactly the trees that can be written as a program, as long as nothing in them is
a derivative, an integral or one of the functions that native code leaves out, and all their names
are ones that native code may refer to. Both are read off one reading, so each rule of reading is
asked once whether it keeps native code: it does if it keeps it for all of its parts.
-/

set_option autoImplicit false

namespace Grapher

open Reading Program List Node

variable {here : String} {term : Term} {node : Node} {nodes : List Node}

/-! ## Trees that can be read can be written -/

namespace Program

end Program

namespace Native

/-! ## What native code asks of a place -/

end Native

end Grapher
